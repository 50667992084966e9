import TrapEmulation.Host.Hook

/-!
# Dialogues with the host

What is asked of the host, in which order, and what it answers is described here call by call.  The host may
take everything it was asked before into account.  Installing hooks is one search and one redirection after the
other, and after the first of them that fails the redirections are taken down again, the latest first.
-/

namespace TrapEmulation.Host

variable {η : Type}

/-! ## Answers -/

/-- The host gives the recorded answers if the calls are made one after the other, and is then in the last
state. -/
inductive Answers [Redirector η] : η → List HostCall → η → Prop
  | done (host : η) : Answers host [] host
  | lookup {host next last : η} {name : String} {address : Option Address} {calls : List HostCall}
      (answer : Redirector.lookup host name = (address, next)) (rest : Answers next calls last) :
      Answers host (.lookup name address :: calls) last
  | attach {host next last : η} {address replacement : Address} {code : Option Int}
      {calls : List HostCall} (answer : Redirector.attach host address replacement = (code, next))
      (rest : Answers next calls last) :
      Answers host (.attach address replacement code :: calls) last
  | detach {host next last : η} {address : Address} {code : Option Int} {calls : List HostCall}
      (answer : Redirector.detach host address = (code, next)) (rest : Answers next calls last) :
      Answers host (.detach address code :: calls) last

theorem Answers.append [Redirector η] {host middle last : η} {calls calls' : List HostCall}
    (h : Answers host calls middle) (h' : Answers middle calls' last) :
    Answers host (calls ++ calls') last := by
  induction h with
  | done host => exact h'
  | lookup answer rest ih => exact .lookup answer (ih h')
  | attach answer rest ih => exact .attach answer (ih h')
  | detach answer rest ih => exact .detach answer (ih h')

/-- Between two sessions the calls were made, and the host gave the recorded answers. -/
structure Session.Dialogue [Redirector η] (before after : Session η) (calls : List HostCall) : Prop where
  recorded : after.calls = before.calls ++ calls
  answers : Answers before.host calls after.host

namespace Session.Dialogue

variable [Redirector η] {before middle after : Session η} {calls calls' : List HostCall}

theorem refl (session : Session η) : session.Dialogue session [] :=
  ⟨(List.append_nil _).symm, .done _⟩

theorem trans (h : before.Dialogue middle calls) (h' : middle.Dialogue after calls') :
    before.Dialogue after (calls ++ calls') where
  recorded := by rw [h'.recorded, h.recorded, List.append_assoc]
  answers := h.answers.append h'.answers

/-- What is reported is not a call. -/
theorem report (h : before.Dialogue middle calls) (event : LogEvent) :
    before.Dialogue ((Session.report event).run middle).2 calls := ⟨h.recorded, h.answers⟩

end Session.Dialogue

theorem SessionM.run_bind {α β : Type} {x : SessionM η α} {f : α → SessionM η β}
    {before middle : Session η} {a : α} (h : x.run before = (a, middle)) :
    (x >>= f).run before = (f a).run middle := by
  change (f (x.run before).1).run (x.run before).2 = _
  rw [h]

section Calls

variable [Redirector η]

theorem run_lookup (name : String) (session : Session η) :
    ∃ answer after, (Session.lookup name).run session = (answer, after) ∧
      session.Dialogue after [.lookup name answer] :=
  ⟨_, _, rfl, rfl, .lookup rfl (.done _)⟩

theorem run_attach (address replacement : Address) (session : Session η) :
    ∃ code after, (Session.attach address replacement).run session = (code, after) ∧
      session.Dialogue after [.attach address replacement code] :=
  ⟨_, _, rfl, rfl, .attach rfl (.done _)⟩

theorem run_detach (address : Address) (session : Session η) :
    ∃ code after, (Session.detach address).run session = (code, after) ∧
      session.Dialogue after [.detach address code] ∧ after.log = session.log :=
  ⟨_, _, rfl, ⟨rfl, .detach rfl (.done _)⟩, rfl⟩

end Calls

/-- The calls that set a redirection up or take one down. -/
def redirections (calls : List HostCall) : List HostCall :=
  calls.filter fun
    | .lookup _ _ => false
    | _ => true

theorem redirections_append (calls calls' : List HostCall) :
    redirections (calls ++ calls') = redirections calls ++ redirections calls' :=
  List.filter_append calls calls'

/-! ## Searches -/

/-- The lookups of names that are tried in turn, and the address they come to.  The first name that has an
address ends the search. -/
inductive Search : List String → Option Address → List HostCall → Prop
  | exhausted : Search [] none []
  | hit (name : String) (rest : List String) (address : Address) :
      Search (name :: rest) (some address) [.lookup name (some address)]
  | miss (name : String) {rest : List String} {answer : Option Address} {calls : List HostCall}
      (later : Search rest answer calls) :
      Search (name :: rest) answer (.lookup name none :: calls)

theorem Search.redirections_eq {names : List String} {answer : Option Address} {calls : List HostCall}
    (h : Search names answer calls) : redirections calls = [] := by
  induction h with
  | exhausted => rfl
  | hit name rest address => rfl
  | miss name later ih => exact ih

theorem run_firstAddress [Redirector η] (names : List String) (session : Session η) :
    ∃ answer after calls, (firstAddress names).run session = (answer, after) ∧
      session.Dialogue after calls ∧ Search names answer calls := by
  induction names generalizing session with
  | nil => exact ⟨none, session, [], rfl, .refl session, .exhausted⟩
  | cons name rest ih =>
    obtain ⟨answer, middle, hlookup, hone⟩ := run_lookup name session
    cases answer with
    | some address =>
      exact ⟨some address, middle, _, SessionM.run_bind hlookup, hone, .hit name rest address⟩
    | none =>
      obtain ⟨answer, after, calls, hrest, hlater, hsearch⟩ := ih middle
      exact ⟨answer, after, _, (SessionM.run_bind hlookup).trans hrest, hone.trans hlater,
        .miss name hsearch⟩

/-! ## One hook -/

/-- The hook once it redirects the routine at an address. -/
def Interceptor.installedAt (interceptor : Interceptor) (hook : Hook) (address : Address) : Hook :=
  { hook with address := some address, entry := some (interceptor.entryAt address) }

/-- What is reported when the redirection of a hook is taken down and the host gives a code. -/
def Hook.removalReport (hook : Hook) (code : Option Int) : List LogEvent :=
  (code.map fun code ↦ .notRestored (.detach hook.name code)).toList

/-- The calls for a hook whose routine is found at an address and redirected. -/
def Attached (prefixes : List String) (hook : Hook) (address : Address) (calls : List HostCall) : Prop :=
  ∃ lookups, Search (candidates prefixes hook.name) (some address) lookups ∧
    calls = lookups ++ [.attach address hook.replacement none]

/-- The calls for a hook that cannot be installed: its routine is not found, or the host does not redirect
it. -/
inductive Refused (prefixes : List String) (hook : Hook) : HookError → List HostCall → Prop
  | unresolved {lookups : List HostCall}
      (search : Search (candidates prefixes hook.name) none lookups) :
      Refused prefixes hook (.unresolved hook.name) lookups
  | attach {address : Address} {lookups : List HostCall} (code : Int)
      (search : Search (candidates prefixes hook.name) (some address) lookups) :
      Refused prefixes hook (.attach hook.name code)
        (lookups ++ [.attach address hook.replacement (some code)])

namespace Interceptor

variable [Redirector η]

theorem run_installOne (interceptor : Interceptor) (hook : Hook) (session : Session η) :
    (∃ error after calls, (interceptor.installOne hook).run session = (.error error, after) ∧
      session.Dialogue after calls ∧ Refused interceptor.prefixes hook error calls) ∨
    ∃ address after calls,
      (interceptor.installOne hook).run session = (.ok (interceptor.installedAt hook address), after) ∧
      session.Dialogue after calls ∧ Attached interceptor.prefixes hook address calls := by
  obtain ⟨answer, found, lookups, hresolve, hfound, hsearch⟩ :
      ∃ answer after calls, (resolve interceptor.prefixes hook.name).run session = (answer, after) ∧
        session.Dialogue after calls ∧
        Search (candidates interceptor.prefixes hook.name) answer calls := run_firstAddress _ session
  rw [installOne, SessionM.run_bind hresolve]
  cases answer with
  | none => exact .inl ⟨_, _, lookups, rfl, hfound.report _, .unresolved hsearch⟩
  | some address =>
    obtain ⟨code, tried, hattach, htried⟩ := run_attach address hook.replacement found
    simp only [SessionM.run_bind hattach]
    cases code with
    | some code => exact .inl ⟨_, _, _, rfl, (hfound.trans htried).report _, .attach code hsearch⟩
    | none => exact .inr ⟨address, tried, _, rfl, hfound.trans htried, lookups, hsearch, rfl⟩

/-- Removing an installed hook is one call, and a failure is only reported. -/
theorem run_removeOne_of_address {hook : Hook} {address : Address} (h : hook.address = some address)
    (session : Session η) :
    ∃ code after, (removeOne hook).run session = (hook.cleared, after) ∧
      session.Dialogue after [.detach address code] ∧
      after.log = session.log ++ hook.removalReport code := by
  obtain ⟨code, after, hdetach, hdone, hlog⟩ := run_detach address session
  rw [removeOne, h]
  simp only [SessionM.run_bind hdetach]
  cases code with
  | none => exact ⟨none, after, rfl, hdone, hlog.trans (List.append_nil _).symm⟩
  | some code => exact ⟨some code, _, rfl, hdone.report _, congrArg (· ++ _) hlog⟩

end Interceptor

/-! ## A list of hooks -/

/-- The calls for hooks that are installed one after the other, each at its address. -/
inductive AllAttached (prefixes : List String) : List Hook → List Address → List HostCall → Prop
  | nil : AllAttached prefixes [] [] []
  | cons {hook : Hook} {rest : List Hook} {address : Address} {addresses : List Address}
      {calls later : List HostCall} (first : Attached prefixes hook address calls)
      (others : AllAttached prefixes rest addresses later) :
      AllAttached prefixes (hook :: rest) (address :: addresses) (calls ++ later)

theorem AllAttached.length_eq {prefixes : List String} {hooks : List Hook} {addresses : List Address}
    {calls : List HostCall} (h : AllAttached prefixes hooks addresses calls) :
    addresses.length = hooks.length := by
  induction h with
  | nil => rfl
  | cons first others ih => rw [List.length_cons, ih, List.length_cons]

theorem AllAttached.redirections_eq {prefixes : List String} {hooks : List Hook}
    {addresses : List Address} {calls : List HostCall}
    (h : AllAttached prefixes hooks addresses calls) :
    redirections calls =
      List.zipWith (fun hook address ↦ .attach address hook.replacement none) hooks addresses := by
  induction h with
  | nil => rfl
  | cons first others ih =>
    obtain ⟨lookups, hsearch, rfl⟩ := first
    rw [redirections_append, redirections_append, hsearch.redirections_eq, ih]
    rfl

theorem redirections_zipWith_detach (addresses : List Address) (codes : List (Option Int)) :
    redirections (List.zipWith .detach addresses codes) = List.zipWith .detach addresses codes := by
  induction addresses generalizing codes with
  | nil => rfl
  | cons address rest ih =>
    cases codes with
    | nil => rfl
    | cons code codes => exact congrArg (HostCall.detach address code :: ·) (ih codes)

theorem Refused.redirections_eq {prefixes : List String} {hook : Hook} {error : HookError}
    {calls : List HostCall} (h : Refused prefixes hook error calls) :
    (error = .unresolved hook.name ∧ redirections calls = []) ∨
    ∃ address code, error = .attach hook.name code ∧
      redirections calls = [.attach address hook.replacement (some code)] := by
  cases h with
  | unresolved search => exact .inl ⟨rfl, search.redirections_eq⟩
  | @attach address lookups code search =>
    refine .inr ⟨address, code, rfl, ?_⟩
    rw [redirections_append, search.redirections_eq]
    rfl

/-- How hooks are installed: every one of them is, or those in front of the first that fails are and
are then taken down by one call each, the latest first. -/
inductive Installation (interceptor : Interceptor) :
    List Hook → Except HookError Unit → List Hook → List HostCall → Prop
  | complete {hooks : List Hook} {addresses : List Address} {calls : List HostCall}
      (all : AllAttached interceptor.prefixes hooks addresses calls) :
      Installation interceptor hooks (.ok ()) (List.zipWith interceptor.installedAt hooks addresses) calls
  | undone {front back : List Hook} {hook : Hook} {error : HookError} {addresses : List Address}
      {calls refusal : List HostCall} {codes : List (Option Int)}
      (all : AllAttached interceptor.prefixes front addresses calls)
      (refused : Refused interceptor.prefixes hook error refusal)
      (down : codes.length = addresses.length) :
      Installation interceptor (front ++ hook :: back) (.error error)
        (front.map Hook.cleared ++ hook :: back)
        (calls ++ refusal ++ List.zipWith .detach addresses.reverse codes)

theorem Interceptor.install_dialogue [Redirector η] (interceptor : Interceptor) (hooks : List Hook)
    (session : Session η) :
    ∃ outcome left after calls, (interceptor.install hooks).run session = ((outcome, left), after) ∧
      session.Dialogue after calls ∧ Installation interceptor hooks outcome left calls := by
  induction hooks generalizing session with
  | nil => exact ⟨.ok (), [], session, [], rfl, .refl session, .complete .nil⟩
  | cons hook rest ih =>
    rw [install]
    obtain ⟨error, after, refusal, hone, hcalls, hrefused⟩ |
      ⟨address, middle, first, hone, hfirst, hattached⟩ := interceptor.run_installOne hook session
    · rw [SessionM.run_bind hone]
      refine ⟨.error error, hook :: rest, after, refusal, rfl, hcalls, ?_⟩
      have hundone : Installation interceptor ([] ++ hook :: rest) (.error error)
          ([] ++ hook :: rest) ([] ++ refusal ++ List.zipWith .detach [] []) :=
        .undone .nil hrefused rfl
      rwa [List.nil_append, List.zipWith_nil_right, List.append_nil] at hundone
    · rw [SessionM.run_bind hone]
      obtain ⟨outcome, left, last, later, hrest, hlater, hinstallation⟩ := ih middle
      simp only [SessionM.run_bind hrest]
      cases hinstallation with
      | complete all =>
        exact ⟨.ok (), _, last, _, rfl, hfirst.trans hlater, .complete (.cons hattached all)⟩
      | @undone front back failing error addresses calls refusal codes all refused down =>
        -- The hook goes down after those behind it, so its call comes last.
        have haddress : (interceptor.installedAt hook address).address = some address := rfl
        obtain ⟨code, after, hremoved, hdown, -⟩ := run_removeOne_of_address haddress last
        refine ⟨.error error, _, after, _, SessionM.run_bind hremoved,
          (hfirst.trans hlater).trans hdown, ?_⟩
        have hcodes : (codes ++ [code]).length = (address :: addresses).length := by
          rw [List.length_append, down, List.length_singleton, List.length_cons]
        have hundone : Installation interceptor (hook :: front ++ failing :: back) _ _ _ :=
          .undone (.cons hattached all) refused hcodes
        have hdetaches : List.zipWith HostCall.detach (address :: addresses).reverse (codes ++ [code]) =
            List.zipWith .detach addresses.reverse codes ++ [.detach address code] := by
          rw [List.reverse_cons, List.zipWith_append (by rw [List.length_reverse, down])]
          rfl
        have hcleared : (interceptor.installedAt hook address).cleared = hook.cleared := rfl
        rw [hdetaches] at hundone
        rw [hcleared]
        simpa only [List.append_assoc, List.cons_append, List.map_cons] using hundone

end TrapEmulation.Host
