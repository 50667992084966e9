import TrapEmulation.Proofs.Host.Removal

/-!
# Redirections in force

The calls of a session tell where redirections have been set up and where they have been taken down.  Every
stage of installing and of removing hooks is described here by what it adds to these two lists, whatever the
host answers.  The balance at an address is the difference of the two counts there.
-/

namespace TrapEmulation.Host

variable {η : Type}

/-! ## Lists without gaps -/

theorem filterMap_of_map {α β : Type} {f : α → Option β} {entries : List α} {values : List β}
    (h : entries.map f = values.map some) : entries.filterMap f = values := by
  have hid : entries.filterMap f = (entries.map f).filterMap id := by
    rw [List.filterMap_map, Function.id_comp]
  rw [hid, h, List.filterMap_map, Function.id_comp, List.filterMap_some]

theorem exists_eq_some_of_map {α β : Type} {f : α → Option β} {entries : List α} {values : List β}
    (h : entries.map f = values.map some) {entry : α} (hmem : entry ∈ entries) :
    ∃ value, f entry = some value := by
  have hentry : f entry ∈ values.map some := by
    rw [← h]
    exact List.mem_map_of_mem hmem
  obtain ⟨value, -, hvalue⟩ := List.mem_map.mp hentry
  exact ⟨value, hvalue.symm⟩

theorem filterMap_eq_nil_of_map {α β γ : Type} {f : α → Option β} {g : α → Option γ} {entries : List α}
    {values : List β} (h : entries.map f = values.map some)
    (hnone : ∀ entry value, f entry = some value → g entry = none) : entries.filterMap g = [] := by
  rw [List.filterMap_eq_nil_iff]
  intro entry hmem
  obtain ⟨value, hvalue⟩ := exists_eq_some_of_map h hmem
  exact hnone entry value hvalue

theorem map_some_filterMap {α β : Type} {f : α → Option β} {entries : List α}
    (h : ∀ entry ∈ entries, (f entry).isSome = true) :
    (entries.filterMap f).map some = entries.map f := by
  induction entries with
  | nil => rfl
  | cons entry rest ih =>
    obtain ⟨hentry, hrest⟩ := List.forall_mem_cons.mp h
    obtain ⟨value, hvalue⟩ := Option.isSome_iff_exists.mp hentry
    rw [List.filterMap_cons_some hvalue, List.map_cons, ih hrest, List.map_cons, hvalue]

/-! ## Calls -/

/-- The address at which a call has set a redirection up. -/
def HostCall.attached? : HostCall → Option Address
  | .attach address _ none => some address
  | _ => none

/-- The address at which a call was to take a redirection down, whether or not the host did so. -/
def HostCall.detached? : HostCall → Option Address
  | .detach address _ => some address
  | _ => none

theorem HostCall.attached?_eq_none (call : HostCall) (address : Address)
    (h : call.detached? = some address) : call.attached? = none := by
  cases call with
  | lookup name answer => cases h
  | attach target replacement code => cases h
  | detach target code => rfl

theorem HostCall.detached?_eq_none (call : HostCall) (address : Address)
    (h : call.attached? = some address) : call.detached? = none := by
  cases call with
  | lookup name answer => cases h
  | attach target replacement code => rfl
  | detach target code => cases h

theorem filterMap_redirections {α : Type} {f : HostCall → Option α}
    (hlookup : ∀ name address, f (.lookup name address) = none) (calls : List HostCall) :
    (redirections calls).filterMap f = calls.filterMap f := by
  rw [redirections, List.filterMap_filter]
  congr 1
  funext call
  cases call with
  | lookup name address => exact (hlookup name address).symm
  | attach address replacement code => rfl
  | detach address code => rfl

theorem map_attached_zipWith {hooks : List Hook} {addresses : List Address}
    (hlength : addresses.length = hooks.length) :
    (List.zipWith (fun hook address ↦ HostCall.attach address (Hook.replacement hook) none) hooks
      addresses).map HostCall.attached? = addresses.map some := by
  rw [List.map_zipWith, ← List.map_uncurry_zip_eq_zipWith]
  calc
    _ = ((hooks.zip addresses).map Prod.snd).map some := List.map_map.symm
    _ = addresses.map some := by rw [List.map_snd_zip (Nat.le_of_eq hlength)]

theorem map_detached_zipWith {addresses : List Address} {codes : List (Option Int)}
    (hlength : codes.length = addresses.length) :
    (List.zipWith HostCall.detach addresses codes).map HostCall.detached? = addresses.map some := by
  rw [List.map_zipWith, ← List.map_uncurry_zip_eq_zipWith]
  calc
    _ = ((addresses.zip codes).map Prod.fst).map some := List.map_map.symm
    _ = addresses.map some := by rw [List.map_fst_zip (Nat.le_of_eq hlength.symm)]

theorem AllAttached.filterMap_attached {prefixes : List String} {hooks : List Hook}
    {addresses : List Address} {calls : List HostCall}
    (h : AllAttached prefixes hooks addresses calls) :
    calls.filterMap HostCall.attached? = addresses := by
  rw [← filterMap_redirections (fun _ _ ↦ rfl), h.redirections_eq]
  exact filterMap_of_map (map_attached_zipWith h.length_eq)

theorem AllAttached.filterMap_detached {prefixes : List String} {hooks : List Hook}
    {addresses : List Address} {calls : List HostCall}
    (h : AllAttached prefixes hooks addresses calls) : calls.filterMap HostCall.detached? = [] := by
  rw [← filterMap_redirections (fun _ _ ↦ rfl), h.redirections_eq]
  exact filterMap_eq_nil_of_map (map_attached_zipWith h.length_eq) HostCall.detached?_eq_none

theorem Refused.filterMap_attached {prefixes : List String} {hook : Hook} {error : HookError}
    {calls : List HostCall} (h : Refused prefixes hook error calls) :
    calls.filterMap HostCall.attached? = [] := by
  rw [← filterMap_redirections (fun _ _ ↦ rfl)]
  obtain ⟨-, hnone⟩ | ⟨address, code, -, hone⟩ := h.redirections_eq
  · rw [hnone, List.filterMap_nil]
  · rw [hone]
    rfl

theorem Refused.filterMap_detached {prefixes : List String} {hook : Hook} {error : HookError}
    {calls : List HostCall} (h : Refused prefixes hook error calls) :
    calls.filterMap HostCall.detached? = [] := by
  rw [← filterMap_redirections (fun _ _ ↦ rfl)]
  obtain ⟨-, hnone⟩ | ⟨address, code, -, hone⟩ := h.redirections_eq
  · rw [hnone, List.filterMap_nil]
  · rw [hone]
    rfl

namespace Session

/-- Where redirections have been set up, in order. -/
def attached (session : Session η) : List Address := session.calls.filterMap HostCall.attached?

/-- Where redirections were to be taken down, in order. -/
def detached (session : Session η) : List Address := session.calls.filterMap HostCall.detached?

/-- How often a redirection has been set up at an address, less how often it was to be taken down. -/
def balance (session : Session η) (x : Address) : Int :=
  session.attached.count x - session.detached.count x

/-- Between two sessions redirections have been set up and taken down at the listed addresses. -/
structure Adds (before after : Session η) (up down : List Address) : Prop where
  attached : after.attached = before.attached ++ up
  detached : after.detached = before.detached ++ down

/-- Between two sessions redirections were to be taken down at the listed addresses, by one call each and no
other call. -/
def Detaches (before after : Session η) (down : List Address) : Prop :=
  ∃ calls, after.calls = before.calls ++ calls ∧ calls.map HostCall.detached? = down.map some

variable {before middle after : Session η}

theorem Adds.refl (session : Session η) : session.Adds session [] [] :=
  ⟨(List.append_nil _).symm, (List.append_nil _).symm⟩

/-- What is reported adds nothing. -/
theorem Adds.congr_calls {up down : List Address} (h : before.Adds middle up down)
    (hcalls : after.calls = middle.calls) : before.Adds after up down where
  attached := by rw [Session.attached, hcalls, ← h.attached, Session.attached]
  detached := by rw [Session.detached, hcalls, ← h.detached, Session.detached]

theorem Adds.balance {up down : List Address} (h : before.Adds after up down) (x : Address) :
    after.balance x = before.balance x + up.count x - down.count x := by
  rw [Session.balance, Session.balance, h.attached, h.detached, List.count_append, List.count_append]
  omega

theorem Adds.of_calls {calls : List HostCall} (h : after.calls = before.calls ++ calls) :
    before.Adds after (calls.filterMap HostCall.attached?) (calls.filterMap HostCall.detached?) where
  attached := by rw [Session.attached, h, List.filterMap_append, Session.attached]
  detached := by rw [Session.detached, h, List.filterMap_append, Session.detached]

theorem Detaches.adds {down : List Address} (h : before.Detaches after down) :
    before.Adds after [] down := by
  obtain ⟨calls, hcalls, hdown⟩ := h
  have hadds := Adds.of_calls hcalls
  rwa [filterMap_eq_nil_of_map hdown HostCall.attached?_eq_none, filterMap_of_map hdown] at hadds

end Session

/-! ## Hooks -/

open Session

variable [Redirector η]

namespace Interceptor

/-- Removing hooks takes down what is installed, in order. -/
theorem run_remove (hooks : List Hook) (session : Session η) :
    ∃ after, (remove hooks).run session = (hooks.map Hook.removed, after) ∧
      session.Detaches after (hooks.filterMap Hook.address) := by
  obtain ⟨codes, after, hremove, hlength, hdialogue, -⟩ := remove_dialogue hooks session
  exact ⟨after, hremove, _, hdialogue.recorded, map_detached_zipWith hlength⟩

/-- All hooks are installed, or those in front of one that fails are installed and removed again. -/
theorem run_install (interceptor : Interceptor) (hooks : List Hook) (session : Session η) :
    (∃ addresses after, addresses.length = hooks.length ∧
      (interceptor.install hooks).run session =
        ((.ok (), List.zipWith interceptor.installedAt hooks addresses), after) ∧
      session.Adds after addresses []) ∨
    ∃ error front back addresses after, hooks = front ++ back ∧ addresses.length = front.length ∧
      (interceptor.install hooks).run session =
        ((.error error, front.map Hook.cleared ++ back), after) ∧
      session.Adds after addresses addresses.reverse := by
  obtain ⟨outcome, left, after, calls, hrun, hcalls, hinstallation⟩ :=
    interceptor.install_dialogue hooks session
  have hadds := Adds.of_calls hcalls.recorded
  cases hinstallation with
  | complete all =>
    rw [all.filterMap_attached, all.filterMap_detached] at hadds
    exact .inl ⟨_, after, all.length_eq, hrun, hadds⟩
  | @undone front back hook error addresses up refusal codes all refused down =>
    have hdown : codes.length = addresses.reverse.length := by rw [List.length_reverse, down]
    have hmap := map_detached_zipWith hdown
    rw [List.filterMap_append, List.filterMap_append, List.filterMap_append, List.filterMap_append,
      all.filterMap_attached, all.filterMap_detached, refused.filterMap_attached,
      refused.filterMap_detached, filterMap_eq_nil_of_map hmap HostCall.attached?_eq_none,
      filterMap_of_map hmap, List.append_nil, List.append_nil] at hadds
    exact .inr ⟨error, front, hook :: back, addresses, after, rfl, all.length_eq, hrun, hadds⟩

end Interceptor

/-! ## Counting hooks -/

/-- The number of hooks that are installed at an address. -/
def installedCount (hooks : List Hook) (x : Address) : Nat := (hooks.filterMap Hook.address).count x

theorem installedCount_append (front back : List Hook) (x : Address) :
    installedCount (front ++ back) x = installedCount front x + installedCount back x := by
  rw [installedCount, List.filterMap_append, List.count_append, installedCount, installedCount]

theorem installedCount_eq_zero {hooks : List Hook} (h : ∀ hook ∈ hooks, hook.address = none)
    (x : Address) : installedCount hooks x = 0 := by
  have hnone : hooks.filterMap Hook.address = [] := List.filterMap_eq_nil_iff.mpr h
  rw [installedCount, hnone, List.count_nil]

theorem Interceptor.map_address_zipWith (interceptor : Interceptor) (hooks : List Hook)
    (addresses : List Address) (hlength : addresses.length = hooks.length) :
    (List.zipWith interceptor.installedAt hooks addresses).map Hook.address = addresses.map some := by
  induction hooks generalizing addresses with
  | nil =>
    rw [List.eq_nil_of_length_eq_zero hlength]
    rfl
  | cons hook rest ih =>
    cases addresses with
    | nil => cases hlength
    | cons address addresses =>
      rw [List.zipWith_cons_cons, List.map_cons, ih addresses (Nat.succ.inj hlength)]
      rfl

/-- Hooks that redirect the routines at the listed addresses are installed there and nowhere else. -/
theorem installedCount_of_map {hooks : List Hook} {addresses : List Address}
    (h : hooks.map Hook.address = addresses.map some) (x : Address) :
    installedCount hooks x = addresses.count x := by
  rw [installedCount, filterMap_of_map h]

end TrapEmulation.Host
