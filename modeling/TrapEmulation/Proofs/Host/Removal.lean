import TrapEmulation.Proofs.Host.Dialogue

/-!
# Removing hooks

Hooks are removed one after the other, whatever the host answers.  Each hook that is installed costs one call,
and counts as removed even if the host fails; such a failure is reported and nothing more.  What has been
removed once is not removed again.
-/

namespace TrapEmulation.Host

/-! ## Removed hooks -/

/-- The hook after it has been removed.  A hook that is not installed is left alone. -/
def Hook.removed (hook : Hook) : Hook := if hook.isInstalled then hook.cleared else hook

namespace Hook

variable {hook : Hook}

theorem removed_of_address_eq_none (h : hook.address = none) : hook.removed = hook := by
  rw [removed, isInstalled, h, Option.isSome_none, if_neg Bool.false_ne_true]

theorem removed_of_address_eq_some {address : Address} (h : hook.address = some address) :
    hook.removed = hook.cleared := by
  rw [removed, isInstalled, h, Option.isSome_some, if_pos rfl]

theorem address_removed (hook : Hook) : hook.removed.address = none := by
  cases haddress : hook.address with
  | none => rw [removed_of_address_eq_none haddress, haddress]
  | some address =>
    rw [removed_of_address_eq_some haddress]
    rfl

end Hook

/-! ## Removal -/

namespace Interceptor

variable {η : Type} [Redirector η]

theorem run_removeOne_of_not_installed {hook : Hook} (h : hook.address = none) (session : Session η) :
    (removeOne hook).run session = (hook, session) := by
  rw [removeOne, h]
  rfl

/-- Removing hooks is one call for each that is installed, in order, and one report for each call that fails. -/
theorem remove_dialogue (hooks : List Hook) (session : Session η) :
    ∃ codes after, (remove hooks).run session = (hooks.map Hook.removed, after) ∧
      codes.length = (hooks.filterMap Hook.address).length ∧
      session.Dialogue after (List.zipWith .detach (hooks.filterMap Hook.address) codes) ∧
      after.log = session.log ++
        (List.zipWith Hook.removalReport (hooks.filter Hook.isInstalled) codes).flatten := by
  unfold remove
  induction hooks generalizing session with
  | nil => exact ⟨[], session, rfl, rfl, .refl session, (List.append_nil _).symm⟩
  | cons hook rest ih =>
    cases haddress : hook.address with
    | none =>
      obtain ⟨codes, after, hrest, hlength, hdialogue, hlog⟩ := ih session
      refine ⟨codes, after, ?_, ?_, ?_, ?_⟩
      · rw [List.mapM_cons, SessionM.run_bind (run_removeOne_of_not_installed haddress session),
          SessionM.run_bind hrest, List.map_cons, Hook.removed_of_address_eq_none haddress]
        rfl
      · rwa [List.filterMap_cons_none haddress]
      · rwa [List.filterMap_cons_none haddress]
      · rwa [List.filter_cons_of_neg (by simp [Hook.isInstalled, haddress])]
    | some address =>
      obtain ⟨code, middle, hone, hfirst, hreport⟩ := run_removeOne_of_address haddress session
      obtain ⟨codes, after, hrest, hlength, hdialogue, hlog⟩ := ih middle
      refine ⟨code :: codes, after, ?_, ?_, ?_, ?_⟩
      · rw [List.mapM_cons, SessionM.run_bind hone, SessionM.run_bind hrest, List.map_cons,
          Hook.removed_of_address_eq_some haddress]
        rfl
      · rw [List.filterMap_cons_some haddress, List.length_cons, List.length_cons, hlength]
      · rw [List.filterMap_cons_some haddress]
        exact hfirst.trans hdialogue
      · rw [List.filter_cons_of_pos (by simp [Hook.isInstalled, haddress]), List.zipWith_cons_cons,
          List.flatten_cons, hlog, hreport, List.append_assoc]

/-- Where no hook is installed there is nothing to remove. -/
theorem run_remove_of_not_installed {hooks : List Hook} (h : ∀ hook ∈ hooks, hook.address = none)
    (session : Session η) : (remove hooks).run session = (hooks, session) := by
  unfold remove
  induction hooks with
  | nil => rfl
  | cons hook rest ih =>
    obtain ⟨hhook, hrest⟩ := List.forall_mem_cons.mp h
    rw [List.mapM_cons, SessionM.run_bind (run_removeOne_of_not_installed hhook session),
      SessionM.run_bind (ih hrest)]
    rfl

/-- Removing hooks takes each one that is installed down by one call, in order, past all failures, of which
each is reported.  The hooks that were installed keep their name and their replacement and nothing else, and
the others are left alone.  Removing them once more makes no call and changes nothing. -/
theorem remove_complete (hooks : List Hook) (session : Session η) :
    let left := hooks.map fun hook ↦
      if hook.isInstalled then { hook with address := none, entry := none } else hook
    (∃ codes after, (remove hooks).run session = (left, after) ∧
      codes.length = (hooks.filterMap Hook.address).length ∧
      session.Dialogue after (List.zipWith .detach (hooks.filterMap Hook.address) codes) ∧
      after.log = session.log ++
        (List.zipWith Hook.removalReport (hooks.filter Hook.isInstalled) codes).flatten) ∧
    ∀ later : Session η, (remove left).run later = (left, later) := by
  intro left
  refine ⟨remove_dialogue hooks session, fun later ↦ run_remove_of_not_installed ?_ later⟩
  intro hook hhook
  obtain ⟨source, -, rfl⟩ := List.mem_map.mp hhook
  exact source.address_removed

end Interceptor

end TrapEmulation.Host
