import Mathlib.Logic.Basic
import TrapEmulation.Host.Module
import TrapEmulation.Host.TableHost
import TrapEmulation.Proofs.Host.Redirections

/-!
# The life of one list of hooks

One list of hooks is installed, removed and extended in any order.  Installation takes no notice of hooks
that are installed already: it sets their redirections up once more, and a hook has room for one address
only.  How many redirections are in force without a hook that knows of them is counted here exactly.
-/

namespace TrapEmulation.Host

variable {η : Type}

/-! ## Hooks that are attached again -/

/-- The number of redirections that have been set up between two sessions. -/
def Session.attachCount (before after : Session η) : Nat :=
  after.attached.length - before.attached.length

theorem Session.Adds.attachCount_eq {before after : Session η} {up down : List Address}
    (h : before.Adds after up down) : before.attachCount after = up.length := by
  rw [Session.attachCount, h.attached, List.length_append]
  omega

/-- The hooks that were attached between two sessions although they were installed, counted at one address.
Hooks are attached one after the other, from the front of the list on. -/
def reattachedAt (hooks : List Hook) (before after : Session η) (x : Address) : Nat :=
  installedCount (hooks.take (before.attachCount after)) x

theorem reattachedAt_eq_zero {before after : Session η} {down : List Address}
    (h : before.Adds after [] down) (hooks : List Hook) (x : Address) :
    reattachedAt hooks before after x = 0 := by
  rw [reattachedAt, h.attachCount_eq]
  rfl

/-! ## Hooks that are taken down -/

theorem installedCount_cleared (hooks : List Hook) (x : Address) :
    installedCount (hooks.map Hook.cleared) x = 0 := by
  apply installedCount_eq_zero
  intro hook hhook
  obtain ⟨source, -, rfl⟩ := List.mem_map.mp hhook
  rfl

theorem installedCount_removed (hooks : List Hook) (x : Address) :
    installedCount (hooks.map Hook.removed) x = 0 := by
  apply installedCount_eq_zero
  intro hook hhook
  obtain ⟨source, -, rfl⟩ := List.mem_map.mp hhook
  exact source.address_removed

/-- A hook that is not installed has no entry either. -/
def Hook.Tidy (hook : Hook) : Prop := hook.address = none → hook.entry = none

theorem Hook.Tidy.removed {hook : Hook} (h : hook.Tidy) : hook.removed.Tidy := by
  unfold Hook.removed
  split
  · exact fun _ ↦ rfl
  · exact h

theorem Hook.Tidy.cleared_eq_iff {hook : Hook} (h : hook.Tidy) :
    hook.cleared = hook ↔ hook.isInstalled = false := by
  obtain ⟨name, replacement, address, entry⟩ := hook
  cases address with
  | none =>
    obtain rfl : entry = none := h rfl
    exact ⟨fun _ ↦ rfl, fun _ ↦ rfl⟩
  | some address => exact ⟨by rintro ⟨⟩, by rintro ⟨⟩⟩

/-- Clearing the hooks in front changes nothing if and only if none of them is installed. -/
theorem map_cleared_append_eq_iff {front : List Hook} (htidy : ∀ hook ∈ front, hook.Tidy)
    (back : List Hook) :
    front.map Hook.cleared ++ back = front ++ back ↔ ∀ hook ∈ front, hook.isInstalled = false := by
  calc
    front.map Hook.cleared ++ back = front ++ back ↔ front.map Hook.cleared = front.map id := by
      rw [List.append_left_inj, List.map_id]
    _ ↔ ∀ hook ∈ front, hook.cleared = id hook := List.map_inj_left
    _ ↔ ∀ hook ∈ front, hook.isInstalled = false :=
      forall₂_congr fun hook hhook ↦ (htidy hook hhook).cleared_eq_iff

/-! ## Installing -/

variable [Redirector η]

namespace Interceptor

variable {interceptor : Interceptor} {hooks left : List Hook} {session after : Session η}

/-- Installation that succeeds leaves every hook installed. -/
theorem isInstalled_of_install_ok
    (h : (interceptor.install hooks).run session = ((.ok (), left), after)) :
    ∀ hook ∈ left, hook.isInstalled = true := by
  obtain ⟨addresses, final, hlength, hinstall, -⟩ |
    ⟨error, front, back, addresses, final, -, -, hinstall, -⟩ :=
      interceptor.run_install hooks session
  · rw [hinstall] at h
    cases h
    intro hook hhook
    have haddresses := interceptor.map_address_zipWith hooks addresses hlength
    obtain ⟨address, haddress⟩ := exists_eq_some_of_map haddresses hhook
    rw [Hook.isInstalled, haddress, Option.isSome_some]
  · rw [hinstall] at h
    cases h

/-- Installation that fails leaves the redirections in force as they were, but it clears every hook that it
has attached. -/
theorem of_install_error {error : HookError}
    (h : (interceptor.install hooks).run session = ((.error error, left), after)) :
    (∀ x, after.balance x = session.balance x) ∧
      left = (hooks.take (session.attachCount after)).map Hook.cleared ++
        hooks.drop (session.attachCount after) := by
  obtain ⟨addresses, final, -, hinstall, -⟩ |
    ⟨cause, front, back, addresses, final, rfl, hlength, hinstall, hadds⟩ :=
      interceptor.run_install hooks session
  · rw [hinstall] at h
    cases h
  · rw [hinstall] at h
    cases h
    refine ⟨fun x ↦ ?_, ?_⟩
    · rw [hadds.balance, List.count_reverse]
      omega
    · rw [hadds.attachCount_eq, hlength, List.take_left, List.drop_left]

/-- Installation leaves as many redirections without a hook as it has attached hooks that were installed. -/
theorem balance_install {outcome : Except HookError Unit}
    (h : (interceptor.install hooks).run session = ((outcome, left), after)) (x : Address) :
    after.balance x + installedCount hooks x =
      session.balance x + installedCount left x + reattachedAt hooks session after x := by
  cases outcome with
  | error error =>
    obtain ⟨hbalance, hleft⟩ := of_install_error h
    have hsplit := installedCount_append (hooks.take (session.attachCount after))
      (hooks.drop (session.attachCount after)) x
    rw [List.take_append_drop] at hsplit
    rw [hleft, installedCount_append, installedCount_cleared, hbalance, reattachedAt, hsplit]
    omega
  | ok success =>
    obtain ⟨addresses, final, hlength, hinstall, hadds⟩ |
      ⟨error, front, back, addresses, final, -, -, hinstall, -⟩ :=
        interceptor.run_install hooks session
    · rw [hinstall] at h
      cases h
      have haddresses := interceptor.map_address_zipWith hooks addresses hlength
      rw [reattachedAt, hadds.attachCount_eq, hlength, List.take_length,
        installedCount_of_map haddresses, hadds.balance, List.count_nil]
      omega
    · rw [hinstall] at h
      cases h

theorem tidy_install {outcome : Except HookError Unit}
    (h : (interceptor.install hooks).run session = ((outcome, left), after))
    (htidy : ∀ hook ∈ hooks, hook.Tidy) : ∀ hook ∈ left, hook.Tidy := by
  cases outcome with
  | error error =>
    rw [(of_install_error h).2]
    intro hook hhook
    rcases List.mem_append.mp hhook with hfront | hback
    · obtain ⟨source, -, rfl⟩ := List.mem_map.mp hfront
      exact fun _ ↦ rfl
    · exact htidy hook (List.mem_of_mem_drop hback)
  | ok success =>
    intro hook hhook hnone
    have hinstalled := isInstalled_of_install_ok h hook hhook
    rw [Hook.isInstalled, hnone] at hinstalled
    cases hinstalled

end Interceptor

/-! ## One step -/

/-- A hook for a target that has not been redirected yet. -/
def HookTarget.hook (target : HookTarget) : Hook :=
  { name := target.name, replacement := target.replacement }

/-- What can happen to a list of hooks.  The host may also come to be in another state by itself. -/
inductive HookStep (η : Type) where
  | install (interceptor : Interceptor)
  | remove
  | push (target : HookTarget)
  | disturb (host : η)

namespace HookStep

def apply (hooks : List Hook) : HookStep η → SessionM η (List Hook)
  | install interceptor => do return (← interceptor.install hooks).2
  | remove => Interceptor.remove hooks
  | push target => return hooks ++ [target.hook]
  | disturb host => do
    modify fun session ↦ { session with host }
    return hooks

variable {step : HookStep η} {hooks next : List Hook} {session after : Session η}

/-- Only installation can leave redirections without a hook. -/
theorem balance_apply (h : (step.apply hooks).run session = (next, after)) (x : Address) :
    after.balance x + installedCount hooks x =
      session.balance x + installedCount next x + reattachedAt hooks session after x := by
  cases step with
  | install interceptor =>
    cases h
    exact Interceptor.balance_install rfl x
  | remove =>
    obtain ⟨final, hremove, hdetaches⟩ := Interceptor.run_remove hooks session
    obtain ⟨rfl, rfl⟩ := Prod.mk.inj (hremove.symm.trans h)
    rw [installedCount_removed, reattachedAt_eq_zero hdetaches.adds, hdetaches.adds.balance,
      List.count_nil, installedCount]
    omega
  | push target =>
    cases h
    have hnew : installedCount [target.hook] x = 0 := rfl
    rw [reattachedAt_eq_zero (.refl session), installedCount_append, hnew]
    omega
  | disturb host =>
    obtain ⟨rfl, hafter⟩ := Prod.mk.inj h
    have hsame : session.Adds after [] [] := by
      rw [← hafter]
      exact (Session.Adds.refl session).congr_calls rfl
    rw [reattachedAt_eq_zero hsame, hsame.balance, List.count_nil]
    omega

theorem tidy_apply (h : (step.apply hooks).run session = (next, after))
    (htidy : ∀ hook ∈ hooks, hook.Tidy) : ∀ hook ∈ next, hook.Tidy := by
  cases step with
  | install interceptor =>
    cases h
    exact Interceptor.tidy_install rfl htidy
  | remove =>
    obtain ⟨final, hremove, -⟩ := Interceptor.run_remove hooks session
    obtain ⟨rfl, rfl⟩ := Prod.mk.inj (hremove.symm.trans h)
    intro hook hhook
    obtain ⟨source, hsource, rfl⟩ := List.mem_map.mp hhook
    exact (htidy source hsource).removed
  | push target =>
    cases h
    intro hook hhook
    rcases List.mem_append.mp hhook with hold | hnew
    · exact htidy hook hold
    · rw [List.mem_singleton.mp hnew]
      exact fun _ ↦ rfl
  | disturb host =>
    cases h
    exact htidy

end HookStep

/-! ## Runs -/

/-- The list after some steps. -/
def hookRun : List (HookStep η) → List Hook → SessionM η (List Hook)
  | [], hooks => return hooks
  | step :: steps, hooks => do hookRun steps (← step.apply hooks)

/-- The hooks that were attached during some steps although they were installed, counted at one address. -/
def reattachments : List (HookStep η) → List Hook → Session η → Address → Nat
  | [], _, _, _ => 0
  | step :: steps, hooks, session, x =>
    let (next, after) := (step.apply hooks).run session
    reattachedAt hooks session after x + reattachments steps next after x

theorem balance_hookRun (steps : List (HookStep η)) (hooks : List Hook) (session : Session η)
    (x : Address) :
    let (left, after) := (hookRun steps hooks).run session
    after.balance x + installedCount hooks x =
      session.balance x + installedCount left x + reattachments steps hooks session x := by
  induction steps generalizing hooks session with
  | nil => exact (Int.add_zero _).symm
  | cons step steps ih =>
    cases hstep : (step.apply hooks).run session with
    | mk next after =>
      have hone := HookStep.balance_apply hstep x
      have hrest := ih next after
      rw [reattachments, hstep, hookRun, SessionM.run_bind hstep]
      cases hrun : (hookRun steps next).run after with
      | mk left final =>
        rw [hrun] at hrest
        push_cast
        omega

theorem tidy_hookRun (steps : List (HookStep η)) {hooks : List Hook}
    (htidy : ∀ hook ∈ hooks, hook.Tidy) (session : Session η) :
    ∀ hook ∈ ((hookRun steps hooks).run session).1, hook.Tidy := by
  induction steps generalizing hooks session with
  | nil => exact htidy
  | cons step steps ih =>
    cases hstep : (step.apply hooks).run session with
    | mk next after =>
      rw [hookRun, SessionM.run_bind hstep]
      exact ih (HookStep.tidy_apply hstep htidy) after

/-- However a list of fresh hooks is installed, removed and extended, at every address the redirections in
force outnumber the hooks by the hooks that were attached there although they were installed.  Installation
that succeeds leaves every hook installed.  Installation that fails leaves the redirections as they were, and
it leaves the hooks as they were if and only if none of those that it attached was installed. -/
theorem hookRun_excess (targets : List HookTarget) (host : η) (steps : List (HookStep η)) :
    let fresh := targets.map HookTarget.hook
    let hooks := ((hookRun steps fresh).run { host }).1
    let session := ((hookRun steps fresh).run { host }).2
    (∀ x, session.balance x = installedCount hooks x + reattachments steps fresh { host } x) ∧
    (∀ interceptor left after,
      (Interceptor.install interceptor hooks).run session = ((.ok (), left), after) →
        ∀ hook ∈ left, hook.isInstalled = true) ∧
    ∀ interceptor error left after,
      (Interceptor.install interceptor hooks).run session = ((.error error, left), after) →
        (∀ x, after.balance x = session.balance x) ∧
        (left = hooks ↔
          ∀ hook ∈ hooks.take (session.attachCount after), hook.isInstalled = false) := by
  intro fresh hooks session
  have hfresh : ∀ hook ∈ fresh, hook.address = none ∧ hook.entry = none := by
    intro hook hhook
    obtain ⟨target, -, rfl⟩ := List.mem_map.mp hhook
    exact ⟨rfl, rfl⟩
  refine ⟨?_, fun _ _ _ ↦ Interceptor.isInstalled_of_install_ok, ?_⟩
  · intro x
    have hbalance := balance_hookRun steps fresh { host } x
    have hnone : installedCount fresh x = 0 :=
      installedCount_eq_zero (fun hook hhook ↦ (hfresh hook hhook).1) x
    have hstart : Session.balance ({ host } : Session η) x = 0 := rfl
    rw [hnone, hstart] at hbalance
    change session.balance x + _ = _ + (installedCount hooks x : Int) + _ at hbalance
    omega
  · intro interceptor error left after hinstall
    have htidy : ∀ hook ∈ hooks, hook.Tidy :=
      tidy_hookRun steps (fun hook hhook _ ↦ (hfresh hook hhook).2) _
    obtain ⟨hbalance, hleft⟩ := Interceptor.of_install_error hinstall
    refine ⟨hbalance, ?_⟩
    have hfront : ∀ hook ∈ hooks.take (session.attachCount after), hook.Tidy :=
      fun hook hhook ↦ htidy hook (List.mem_of_mem_take hhook)
    have hiff := map_cleared_append_eq_iff hfront (hooks.drop (session.attachCount after))
    rwa [List.take_append_drop, ← hleft] at hiff

/-- A host with one routine that can be redirected. -/
def soleHost : TableHost := { symbols := .ofList [("f", 0x1000)] }

/-- Installation succeeds at first.  It fails once a hook without a routine has joined the list. -/
def repeatedInstallation : List (HookStep TableHost) := [.install {}, .push ⟨"g", 0x20⟩, .install {}]

/-- The routine is still redirected in the end, but no hook knows of it. -/
theorem hookRun_repeatedInstallation :
    let fresh := [HookTarget.hook ⟨"f", 0x10⟩]
    let result := (hookRun repeatedInstallation fresh).run { host := soleHost }
    result.2.balance 0x1000 = 1 ∧ installedCount result.1 0x1000 = 0 := by
  decide

end TrapEmulation.Host
