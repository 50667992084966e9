import Mathlib.Algebra.Group.Nat.Defs
import TrapEmulation.Host.TableHost
import TrapEmulation.Proofs.Host.Dialogue

/-!
# Installing fresh hooks

Hooks of which none is installed are installed as a whole, or are left as they were.  In both cases every call
to the host is known, up to the codes with which the host answers when redirections are taken down again.
-/

namespace TrapEmulation.Host

/-- The address behind a tracing call wraps only at the very end of the address space. -/
theorem Interceptor.toNat_entryAt (interceptor : Interceptor) {address : Address}
    (h : address.toNat ≤ 2 ^ 64 - 6) :
    (interceptor.entryAt address).toNat =
      address.toNat + if interceptor.skipsTraceCall then 5 else 0 := by
  rw [entryAt]
  cases interceptor.skipsTraceCall with
  | false => rfl
  | true =>
    rw [if_pos rfl, if_pos rfl, BitVec.toNat_add]
    change (address.toNat + 5) % 2 ^ 64 = address.toNat + 5
    omega

theorem map_cleared_of_fresh {hooks : List Hook}
    (hfresh : ∀ hook ∈ hooks, hook.address = none ∧ hook.entry = none) :
    hooks.map Hook.cleared = hooks := by
  have hcleared : ∀ hook ∈ hooks, hook.cleared = id hook := by
    rintro ⟨name, replacement, address, entry⟩ hhook
    obtain ⟨rfl, rfl⟩ := hfresh _ hhook
    rfl
  rw [List.map_congr_left hcleared, List.map_id]

variable {η : Type} [Redirector η]

/-- Installing fresh hooks either redirects every one of them, in order and with one call each, and records
where; or it comes to a first hook that fails.  Then the error is that of this hook, the redirections set up
before it are taken down by one call each, the latest first and whatever the host answers, nothing is asked for
the hooks behind it, and the hooks are as they were. -/
theorem install_all_or_nothing (interceptor : Interceptor) (hooks : List Hook) (session : Session η)
    (hfresh : ∀ hook ∈ hooks, hook.address = none ∧ hook.entry = none) :
    ∃ outcome left after calls,
      (interceptor.install hooks).run session = ((outcome, left), after) ∧
      session.Dialogue after calls ∧
      ((∃ addresses, outcome = .ok () ∧
          AllAttached interceptor.prefixes hooks addresses calls ∧
          redirections calls =
            List.zipWith (fun hook address ↦ .attach address hook.replacement none) hooks addresses ∧
          left = List.zipWith (fun hook address ↦
            { hook with address := some address, entry := some (interceptor.entryAt address) })
            hooks addresses ∧
          ∀ address ∈ addresses, address.toNat ≤ 2 ^ 64 - 6 →
            (interceptor.entryAt address).toNat =
              address.toNat + if interceptor.skipsTraceCall then 5 else 0) ∨
        ∃ front hook back error addresses up refusal codes,
          hooks = front ++ hook :: back ∧ outcome = .error error ∧ left = hooks ∧
          AllAttached interceptor.prefixes front addresses up ∧
          Refused interceptor.prefixes hook error refusal ∧
          codes.length = addresses.length ∧
          calls = up ++ refusal ++ List.zipWith .detach addresses.reverse codes ∧
          redirections calls =
            List.zipWith (fun hook address ↦ .attach address hook.replacement none) front addresses ++
              redirections refusal ++ List.zipWith .detach addresses.reverse codes ∧
          ((error = .unresolved hook.name ∧ redirections refusal = []) ∨
            ∃ address code, error = .attach hook.name code ∧
              redirections refusal = [.attach address hook.replacement (some code)])) := by
  obtain ⟨outcome, left, after, calls, hrun, hdialogue, hinstallation⟩ :=
    interceptor.install_dialogue hooks session
  refine ⟨outcome, left, after, calls, hrun, hdialogue, ?_⟩
  cases hinstallation with
  | complete all =>
    exact .inl ⟨_, rfl, all, all.redirections_eq, rfl, fun _ _ ↦ interceptor.toNat_entryAt⟩
  | @undone front back hook error addresses up refusal codes all refused down =>
    have hfront : front.map Hook.cleared = front :=
      map_cleared_of_fresh fun hook hhook ↦ hfresh hook (List.mem_append_left _ hhook)
    refine .inr ⟨front, hook, back, error, addresses, up, refusal, codes, rfl, rfl, ?_, all, refused,
      down, rfl, ?_, refused.redirections_eq⟩
    · rw [hfront]
    · rw [redirections_append, redirections_append, all.redirections_eq, redirections_zipWith_detach]

/-- Two names of one routine, and a routine that the host does not let go of. -/
def busyHost : TableHost where
  symbols := .ofList [("__x64_read", 0x1000), ("read_alias", 0x1000), ("write", 0x2000)]
  attachFailures := [(0x2000, -16)]
  detachFailures := [(0x1000, -5)]

def busyHooks : List Hook := [⟨"read", 0x10, none, none⟩, ⟨"read_alias", 0x20, none, none⟩,
  ⟨"write", 0x30, none, none⟩, ⟨"close", 0x40, none, none⟩]

/-- The third hook fails.  The routine that was redirected twice is restored twice, in vain, and the error is
still that of the third hook. -/
theorem install_busyHooks :
    (∀ hook ∈ busyHooks, hook.address = none ∧ hook.entry = none) ∧
      ∃ after calls,
        (Interceptor.install { prefixes := ["__x64_"] } busyHooks).run { host := busyHost } =
          ((.error (.attach "write" (-16)), busyHooks), after) ∧
        Session.Dialogue { host := busyHost } after calls ∧
        redirections calls =
          [.attach 0x1000 0x10 none, .attach 0x1000 0x20 none, .attach 0x2000 0x30 (some (-16)),
            .detach 0x1000 (some (-5)), .detach 0x1000 (some (-5))] := by
  have hfresh : ∀ hook ∈ busyHooks, hook.address = none ∧ hook.entry = none := by decide
  obtain ⟨outcome, left, after, calls, hrun, hdialogue, -⟩ :=
    install_all_or_nothing { prefixes := ["__x64_"] } busyHooks { host := busyHost } hfresh
  have hresult : (outcome, left) = (.error (.attach "write" (-16)), busyHooks) :=
    (congrArg Prod.fst hrun).symm.trans rfl
  refine ⟨hfresh, after, calls, hrun.trans (by rw [hresult]), hdialogue, ?_⟩
  calc
    redirections calls = redirections after.calls := congrArg redirections hdialogue.recorded.symm
    _ = redirections (StateT.run (Interceptor.install { prefixes := ["__x64_"] } busyHooks)
        { host := busyHost }).2.calls := by rw [hrun]
    _ = _ := by decide

end TrapEmulation.Host
