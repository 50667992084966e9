import Mathlib.Data.List.Induction
import TrapEmulation.Proofs.Host.Installation
import TrapEmulation.Proofs.Host.Lifecycle

/-!
# Where a loaded module calls

On a host that finds its routines in a table of symbols, the table alone decides where each hook goes: to the
first of the routine's names that the table has.  A module that is loaded has redirected these routines and no
others, and whoever asks it for one of them by name is sent to the routine that was redirected.
-/

namespace TrapEmulation.Host

/-! ## Symbol tables -/

/-- The address that is listed last under a name. -/
def lastAddress? (pairs : List (String × Address)) (name : String) : Option Address :=
  (pairs.filterMap fun pair ↦ if pair.1 = name then some pair.2 else none).getLast?

theorem SymbolTable.get?_ofList (pairs : List (String × Address)) :
    (ofList pairs).get? = lastAddress? pairs := by
  funext name
  -- Pairs are entered from the left, so the last one is taken off.
  induction pairs using List.reverseRecOn with
  | nil => rfl
  | append_singleton pairs pair ih =>
    have hinsert : ofList (pairs ++ [pair]) = (ofList pairs).insert pair.1 pair.2 := by
      rw [ofList, List.foldl_append]
      rfl
    rw [hinsert, get?_insert, ih, lastAddress?, lastAddress?, List.filterMap_append]
    by_cases hname : pair.1 = name
    · simp [hname]
    · simp [hname, Ne.symm hname]

/-- The address of a routine: that of the first of its names that has one. -/
def resolved? (find : String → Option Address) (prefixes : List String) (name : String) : Option Address :=
  (name :: prefixes.map fun p ↦ p ++ name).findSome? find

/-- The lookups of names in order, up to and including the first that has an address. -/
def lookupsOf (find : String → Option Address) (names : List String) : List HostCall :=
  (names.take (names.findIdx (fun name ↦ (find name).isSome) + 1)).map fun name ↦
    .lookup name (find name)

theorem lookupsOf_cons_of_some {find : String → Option Address} {name : String} {address : Address}
    (h : find name = some address) (rest : List String) :
    lookupsOf find (name :: rest) = [.lookup name (some address)] := by
  simp [lookupsOf, List.findIdx_cons, h]

theorem lookupsOf_cons_of_none {find : String → Option Address} {name : String} (h : find name = none)
    (rest : List String) :
    lookupsOf find (name :: rest) = .lookup name none :: lookupsOf find rest := by
  simp [lookupsOf, List.findIdx_cons, h]

variable {η : Type} [Redirector η]

/-! ## Hosts with a table -/

/-- The host finds routines in one way, and whatever is asked of it does not change that. -/
def FindsBy (host : η) (find : String → Option Address) : Prop :=
  ∀ calls later, Answers host calls later → ∀ name, (Redirector.lookup later name).1 = find name

/-- A host that is given by tables finds routines in its table of symbols. -/
theorem TableHost.findsBy (host : TableHost) : FindsBy host host.symbols.get? := by
  intro calls later h name
  induction h with
  | done host => rfl
  | lookup answer rest ih =>
    cases answer
    exact ih
  | attach answer rest ih =>
    cases answer
    exact ih
  | detach answer rest ih =>
    cases answer
    exact ih

theorem Answers.of_append {host last : η} {calls calls' : List HostCall}
    (h : Answers host (calls ++ calls') last) :
    ∃ middle, Answers host calls middle ∧ Answers middle calls' last := by
  induction calls generalizing host with
  | nil => exact ⟨host, .done host, h⟩
  | cons call calls ih =>
    cases h with
    | lookup answer rest =>
      obtain ⟨middle, hfront, hback⟩ := ih rest
      exact ⟨middle, .lookup answer hfront, hback⟩
    | attach answer rest =>
      obtain ⟨middle, hfront, hback⟩ := ih rest
      exact ⟨middle, .attach answer hfront, hback⟩
    | detach answer rest =>
      obtain ⟨middle, hfront, hback⟩ := ih rest
      exact ⟨middle, .detach answer hfront, hback⟩

variable {host later : η} {find : String → Option Address} {prefixes : List String}

theorem FindsBy.of_answers {calls : List HostCall} (h : FindsBy host find)
    (hcalls : Answers host calls later) : FindsBy later find :=
  fun calls' last hlast ↦ h (calls ++ calls') last (hcalls.append hlast)

/-! ## What the table decides -/

theorem Search.eq_of_findsBy {names : List String} {answer : Option Address} {calls : List HostCall}
    (h : Search names answer calls) (hfinds : FindsBy host find) (hcalls : Answers host calls later) :
    answer = names.findSome? find ∧ calls = lookupsOf find names := by
  -- Every lookup may leave the host in another state, which still finds routines in the same way.
  induction h generalizing host with
  | exhausted => exact ⟨rfl, rfl⟩
  | hit name rest address =>
    cases hcalls with
    | lookup answer _ =>
      have hfind : find name = some address := by
        rw [← hfinds [] host (.done host) name, answer]
      rw [List.findSome?_cons_of_isSome (by rw [hfind]; rfl), lookupsOf_cons_of_some hfind]
      exact ⟨hfind.symm, rfl⟩
  | @miss name rest answer calls _ ih =>
    cases hcalls with
    | lookup answer hrest =>
      have hfind : find name = none := by
        rw [← hfinds [] host (.done host) name, answer]
      have hone : Answers host [.lookup name none] _ := .lookup answer (.done _)
      obtain ⟨hanswer, hlookups⟩ := ih (hfinds.of_answers hone) hrest
      rw [List.findSome?_cons_of_isNone (by rw [hfind]; rfl), lookupsOf_cons_of_none hfind, hlookups]
      exact ⟨hanswer, rfl⟩

/-- A routine is looked up under its names in order, and no name behind the first hit is asked for. -/
theorem resolve_of_findsBy {session : Session η} (hfinds : FindsBy session.host find)
    (prefixes : List String) (name : String) :
    ∃ after, (resolve prefixes name).run session = (resolved? find prefixes name, after) ∧
      session.Dialogue after (lookupsOf find (candidates prefixes name)) := by
  obtain ⟨answer, after, calls, hrun, hdialogue, hsearch⟩ :=
    run_firstAddress (candidates prefixes name) session
  obtain ⟨rfl, rfl⟩ := hsearch.eq_of_findsBy hfinds hdialogue.answers
  exact ⟨after, hrun, hdialogue⟩

/-- The calls for a routine that is redirected: the lookups up to the first of its names that has an address,
and one call for this address. -/
def HookTarget.calls (find : String → Option Address) (prefixes : List String) (target : HookTarget) :
    List HostCall :=
  lookupsOf find (candidates prefixes target.name) ++
    ((resolved? find prefixes target.name).map fun address ↦
      HostCall.attach address target.replacement none).toList

/-- Hooks are installed where the table says, and nothing is asked of the host but what this takes. -/
theorem AllAttached.eq_of_findsBy {hooks : List Hook} {addresses : List Address} {calls : List HostCall}
    (h : AllAttached prefixes hooks addresses calls) (hfinds : FindsBy host find)
    (hcalls : Answers host calls later) :
    (addresses.map some = hooks.map fun hook ↦ resolved? find prefixes hook.name) ∧
      calls = (hooks.map Hook.target).flatMap (HookTarget.calls find prefixes) := by
  induction h generalizing host with
  | nil => exact ⟨rfl, rfl⟩
  | @cons hook rest address addresses calls later first others ih =>
    obtain ⟨lookups, hsearch, rfl⟩ := first
    obtain ⟨middle, hfirst, hothers⟩ := hcalls.of_append
    obtain ⟨_, hlookups, -⟩ := hfirst.of_append
    obtain ⟨haddress, rfl⟩ := hsearch.eq_of_findsBy hfinds hlookups
    obtain ⟨haddresses, hlater⟩ := ih (hfinds.of_answers hfirst) hothers
    have hresolved : resolved? find prefixes hook.name = some address := haddress.symm
    constructor
    · rw [List.map_cons, List.map_cons, haddresses, hresolved]
    · have hcalls : hook.target.calls find prefixes =
          lookupsOf find (candidates prefixes hook.name) ++ [.attach address hook.replacement none] := by
        rw [HookTarget.calls, Hook.target, hresolved]
        rfl
      rw [List.map_cons, List.flatMap_cons, hcalls, ← hlater]

/-- A hook is refused as unresolved if the table has none of its names. -/
theorem Refused.unresolved_iff {hook : Hook} {error : HookError} {calls : List HostCall}
    (h : Refused prefixes hook error calls) (hfinds : FindsBy host find)
    (hcalls : Answers host calls later) (name : String) :
    error = .unresolved name ↔ hook.name = name ∧ resolved? find prefixes name = none := by
  cases h with
  | unresolved search =>
    obtain ⟨hnone, -⟩ := search.eq_of_findsBy hfinds hcalls
    rw [HookError.unresolved.injEq]
    constructor
    · rintro rfl
      exact ⟨rfl, hnone.symm⟩
    · exact And.left
  | attach code search =>
    obtain ⟨_, hlookups, -⟩ := hcalls.of_append
    obtain ⟨hsome, -⟩ := search.eq_of_findsBy hfinds hlookups
    refine iff_of_false (by rintro ⟨⟩) ?_
    rintro ⟨rfl, hnone⟩
    cases hsome.trans hnone

/-! ## The first hook that fails -/

/-- Hooks are installed one after the other up to the first that cannot be, which fails with the given error. -/
inductive FailsAt (interceptor : Interceptor) : List Hook → Session η → Hook → HookError → Prop
  | here {hook : Hook} {error : HookError} {session after : Session η} (rest : List Hook)
      (fails : (interceptor.installOne hook).run session = (.error error, after)) :
      FailsAt interceptor (hook :: rest) session hook error
  | later {hook installed failing : Hook} {rest : List Hook} {error : HookError}
      {session after : Session η}
      (succeeds : (interceptor.installOne hook).run session = (.ok installed, after))
      (others : FailsAt interceptor rest after failing error) :
      FailsAt interceptor (hook :: rest) session failing error

theorem FailsAt.unresolved_iff {interceptor : Interceptor} {hooks : List Hook} {session : Session η}
    {hook : Hook} {error : HookError} (h : FailsAt interceptor hooks session hook error)
    (hfinds : FindsBy session.host find) (name : String) :
    error = .unresolved name ↔
      hook.name = name ∧ resolved? find interceptor.prefixes name = none := by
  induction h with
  | @here hook error session after rest fails =>
    obtain ⟨error', after', calls, hrun, hdialogue, hrefused⟩ | ⟨address, after', calls, hrun, -⟩ :=
      interceptor.run_installOne hook session
    · cases hrun.symm.trans fails
      exact hrefused.unresolved_iff hfinds hdialogue.answers name
    · cases hrun.symm.trans fails
  | @later hook installed failing rest error session after succeeds others ih =>
    obtain ⟨error', after', calls, hrun, -⟩ | ⟨address, after', calls, hrun, hdialogue, -⟩ :=
      interceptor.run_installOne hook session
    · cases hrun.symm.trans succeeds
    · cases hrun.symm.trans succeeds
      exact ih (hfinds.of_answers hdialogue.answers)

/-- Once a hook is installed, the hooks behind it decide. -/
theorem Interceptor.outcome_install_cons {interceptor : Interceptor} {hook : Hook} {address : Address}
    {session middle : Session η} (rest : List Hook)
    (h : (interceptor.installOne hook).run session = (.ok (interceptor.installedAt hook address), middle)) :
    ((interceptor.install (hook :: rest)).run session).1.1 =
      ((interceptor.install rest).run middle).1.1 := by
  rw [install, SessionM.run_bind h]
  cases hrest : (interceptor.install rest).run middle with
  | mk result last =>
    obtain ⟨outcome, left⟩ := result
    simp only [SessionM.run_bind hrest]
    cases outcome with
    | ok success => rfl
    | error error =>
      -- Taking the hook down again leaves the error as it is.
      have haddress : (interceptor.installedAt hook address).address = some address := rfl
      obtain ⟨code, after, hremoved, -⟩ := run_removeOne_of_address haddress last
      rw [SessionM.run_bind hremoved]
      rfl

/-- Installation fails as its first hook does that cannot be installed. -/
theorem Interceptor.install_error_iff (interceptor : Interceptor) (hooks : List Hook)
    (session : Session η) (error : HookError) :
    ((interceptor.install hooks).run session).1.1 = .error error ↔
      ∃ hook, FailsAt interceptor hooks session hook error := by
  induction hooks generalizing session with
  | nil => exact iff_of_false (by rintro ⟨⟩) (by rintro ⟨_, ⟨⟩⟩)
  | cons hook rest ih =>
    obtain ⟨error', after, calls, hone, -⟩ | ⟨address, middle, calls, hone, -⟩ :=
      interceptor.run_installOne hook session
    · have hinstall : ((interceptor.install (hook :: rest)).run session).1.1 = .error error' := by
        rw [install, SessionM.run_bind hone]
        rfl
      rw [hinstall, Except.error.injEq]
      constructor
      · rintro rfl
        exact ⟨hook, .here rest hone⟩
      · rintro ⟨failing, hfails⟩
        cases hfails with
        | here _ fails =>
          cases hone.symm.trans fails
          rfl
        | later succeeds _ => cases hone.symm.trans succeeds
    · rw [outcome_install_cons rest hone, ih middle]
      constructor
      · rintro ⟨failing, hfails⟩
        exact ⟨failing, .later hone hfails⟩
      · rintro ⟨failing, hfails⟩
        cases hfails with
        | here _ fails => cases hone.symm.trans fails
        | later succeeds others =>
          cases hone.symm.trans succeeds
          exact ⟨failing, others⟩

/-! ## Modules -/

/-- Among hooks that are installed where the table says, the first one of a name is entered where the table
says for that name. -/
theorem entry_find?_zipWith (interceptor : Interceptor) {hooks : List Hook} {addresses : List Address}
    {address? : String → Option Address}
    (h : addresses.map some = hooks.map fun hook ↦ address? hook.name) (name : String) :
    ((List.zipWith interceptor.installedAt hooks addresses).find? fun hook ↦ hook.name == name).bind
        Hook.entry =
      if name ∈ hooks.map Hook.name then (address? name).map interceptor.entryAt else none := by
  induction hooks generalizing addresses with
  | nil => rfl
  | cons hook rest ih =>
    cases addresses with
    | nil => cases h
    | cons address addresses =>
      obtain ⟨haddress, hrest⟩ := List.cons.inj h
      have hinstalled : (interceptor.installedAt hook address).name = hook.name := rfl
      rw [List.zipWith_cons_cons, List.map_cons]
      by_cases hname : hook.name = name
      · have hfind : some address = address? name := haddress.trans (congrArg address? hname)
        rw [List.find?_cons_of_pos (by rw [hinstalled, hname, beq_self_eq_true]),
          if_pos (List.mem_cons.mpr (.inl hname.symm)), ← hfind]
        rfl
      · have hmem : name ∈ rest.map Hook.name ↔ name ∈ hook.name :: rest.map Hook.name := by
          rw [List.mem_cons, or_iff_right (Ne.symm hname)]
        rw [List.find?_cons_of_neg (by rwa [hinstalled, beq_iff_eq]), ih hrest]
        exact if_congr hmem rfl rfl

namespace Module

/-- The hooks of a module that is loaded have been installed, each at its address. -/
theorem load_ok {config : ModuleConfig} {m : Module} {session after : Session η}
    (h : (load config).run session = (.ok m, after)) :
    ∃ addresses calls,
      m.hooks = List.zipWith config.interceptor.installedAt config.hooks addresses ∧
      session.Dialogue after calls ∧
      AllAttached config.interceptor.prefixes config.hooks addresses calls := by
  obtain ⟨outcome, left, middle, calls, hinstall, hdialogue, hinstallation⟩ :=
    config.interceptor.install_dialogue config.hooks session
  rw [load, SessionM.run_bind hinstall] at h
  generalize config.hooks = hooks at hinstallation ⊢
  cases hinstallation with
  | complete all =>
    cases h
    exact ⟨_, calls, rfl, hdialogue.report _, all⟩
  | undone all refused down => cases h

theorem load_error_iff (config : ModuleConfig) (session : Session η) (error : HookError) :
    (∃ after, (load config).run session = (.error ⟨error⟩, after)) ↔
      ∃ hook, FailsAt config.interceptor config.hooks session hook error := by
  rw [← config.interceptor.install_error_iff, load]
  cases hinstall : (config.interceptor.install config.hooks).run session with
  | mk result after =>
    obtain ⟨outcome, left⟩ := result
    rw [SessionM.run_bind hinstall]
    cases outcome with
    | ok success => exact iff_of_false (by rintro ⟨_, ⟨⟩⟩) (by rintro ⟨⟩)
    | error found =>
      constructor
      · rintro ⟨_, ⟨⟩⟩
        rfl
      · rintro ⟨⟩
        exact ⟨after, rfl⟩

theorem entry?_eq_bind (m : Module) (name : String) :
    m.entry? name = (m.hooks.find? fun hook ↦ hook.name == name).bind Hook.entry := by
  unfold entry?
  cases m.hooks.find? fun hook ↦ hook.name == name <;> rfl

/-- A module that is loaded knows exactly the names of its targets, and each of them leads to the routine that
was redirected. -/
theorem entry?_of_load {config : ModuleConfig} {m : Module} {session after : Session η}
    (h : (load config).run session = (.ok m, after)) (hfinds : FindsBy session.host find) :
    (∀ name entry, m.entry? name = some entry ↔ name ∈ config.targets.map HookTarget.name ∧
      ∃ address, resolved? find config.interceptor.prefixes name = some address ∧
        config.interceptor.entryAt address = entry) ∧
    (∀ target ∈ config.targets,
      ∃ address, resolved? find config.interceptor.prefixes target.name = some address) ∧
    session.Dialogue after
      (config.targets.flatMap (HookTarget.calls find config.interceptor.prefixes)) := by
  obtain ⟨addresses, calls, hhooks, hdialogue, hall⟩ := load_ok h
  obtain ⟨haddresses, hcalls⟩ := hall.eq_of_findsBy hfinds hdialogue.answers
  refine ⟨fun name entry ↦ ?_, fun target htarget ↦ ?_, ?_⟩
  · have hnames : config.hooks.map Hook.name = config.targets.map HookTarget.name := by
      rw [ModuleConfig.hooks, List.map_map]
      rfl
    have hentry := entry_find?_zipWith config.interceptor haddresses name
    rw [entry?_eq_bind, hhooks, hentry, hnames, Option.ite_none_right_eq_some, Option.map_eq_some_iff]
  · have htargets : (config.targets.map fun target ↦
        resolved? find config.interceptor.prefixes target.name) = addresses.map some := by
      rw [haddresses, ← config.map_target_hooks, List.map_map]
      rfl
    exact exists_eq_some_of_map htargets htarget
  · rwa [hcalls, config.map_target_hooks] at hdialogue

/-- A module routes by the table of the host alone.  Once it is loaded, it knows exactly the names of its
targets.  Each of them leads to the first of the routine's names that the table has, behind the tracing call if
there is one, and this routine is what the host was asked to redirect, at its very address.  A routine is looked
up under its names in order, up to and including the first that the table has.  Loading fails for want of a
routine exactly if the table has no name of the first target that cannot be redirected. -/
theorem load_routes (pairs : List (String × Address)) (config : ModuleConfig) (session : Session η)
    (hfinds : FindsBy session.host (SymbolTable.ofList pairs).get?) :
    let find := lastAddress? pairs
    let address? := resolved? find config.interceptor.prefixes
    (∀ m after, (load config).run session = (.ok m, after) →
      (∀ name, (∃ entry, m.entry? name = some entry) ↔ name ∈ config.targets.map HookTarget.name) ∧
      (∀ name entry, m.entry? name = some entry → ∃ address, address? name = some address ∧
        entry = (if config.interceptor.skipsTraceCall then address + 5 else address) ∧
        (address.toNat ≤ 2 ^ 64 - 6 →
          entry.toNat = address.toNat + if config.interceptor.skipsTraceCall then 5 else 0)) ∧
      session.Dialogue after (config.targets.flatMap fun target ↦
        lookupsOf find (candidates config.interceptor.prefixes target.name) ++
          ((address? target.name).map fun address ↦ .attach address target.replacement none).toList) ∧
      ∀ target ∈ config.targets, ∃ address, address? target.name = some address) ∧
    (∀ prefixes name, ∃ after,
      (resolve prefixes name).run session = (resolved? find prefixes name, after) ∧
      session.Dialogue after (lookupsOf find (candidates prefixes name))) ∧
    ∀ name, (∃ after, (load config).run session = (.error ⟨.unresolved name⟩, after)) ↔
      ∃ hook error, FailsAt config.interceptor config.hooks session hook error ∧
        hook.name = name ∧ address? name = none := by
  intro find address?
  have hfind : FindsBy session.host find := by rwa [SymbolTable.get?_ofList] at hfinds
  refine ⟨fun m after h ↦ ?_, resolve_of_findsBy hfind, fun name ↦ ?_⟩
  · obtain ⟨hentry, haddress, hdialogue⟩ := entry?_of_load h hfind
    refine ⟨fun name ↦ ⟨?_, fun hname ↦ ?_⟩, fun name entry hsome ↦ ?_, hdialogue, haddress⟩
    · rintro ⟨entry, hsome⟩
      exact ((hentry name entry).mp hsome).1
    · obtain ⟨target, htarget, rfl⟩ := List.mem_map.mp hname
      obtain ⟨address, hfound⟩ := haddress target htarget
      exact ⟨_, (hentry target.name _).mpr ⟨hname, address, hfound, rfl⟩⟩
    · obtain ⟨-, address, hfound, rfl⟩ := (hentry name entry).mp hsome
      exact ⟨address, hfound, rfl, config.interceptor.toNat_entryAt⟩
  · rw [load_error_iff]
    constructor
    · rintro ⟨hook, hfails⟩
      exact ⟨hook, _, hfails, (hfails.unresolved_iff hfind name).mp rfl⟩
    · rintro ⟨hook, error, hfails, hname⟩
      have herror : error = .unresolved name := (hfails.unresolved_iff hfind name).mpr hname
      exact ⟨hook, herror ▸ hfails⟩

/-- A table that lists one name twice, and another only with its tag. -/
def retaggedSymbols : List (String × Address) :=
  [("read", 0x9000), ("__x64_read", 0x3000), ("read", 0x1000), ("__x64_write", 0x2000)]

/-- One target is given twice, and another with its tag and without. -/
def retaggedConfig : ModuleConfig where
  targets := [⟨"read", 0x10⟩, ⟨"write", 0x20⟩, ⟨"read", 0x30⟩, ⟨"__x64_write", 0x40⟩]
  interceptor := { prefixes := ["", entryPointTag], skipsTraceCall := true }
  emulator := {}

/-- The empty prefix makes the host look a routine up twice under its plain name.  The tagged name leads to the
same routine as the plain one. -/
theorem load_routes_retagged :
    let session : Session TableHost := { host := { symbols := .ofList retaggedSymbols } }
    FindsBy session.host (SymbolTable.ofList retaggedSymbols).get? ∧
      ∃ m after, (load retaggedConfig).run session = (.ok m, after) ∧
        m.entry? "read" = some 0x1005 ∧ m.entry? "write" = some 0x2005 ∧
        m.entry? "__x64_write" = some 0x2005 ∧ m.entry? "__x64_read" = none ∧
        session.Dialogue after
          [.lookup "read" (some 0x1000), .attach 0x1000 0x10 none,
            .lookup "write" none, .lookup "write" none, .lookup "__x64_write" (some 0x2000),
            .attach 0x2000 0x20 none,
            .lookup "read" (some 0x1000), .attach 0x1000 0x30 none,
            .lookup "__x64_write" (some 0x2000), .attach 0x2000 0x40 none] := by
  intro session
  have hfinds : FindsBy session.host (SymbolTable.ofList retaggedSymbols).get? :=
    TableHost.findsBy session.host
  obtain ⟨hload, -, -⟩ := load_routes retaggedSymbols retaggedConfig session hfinds
  have hok : ((load retaggedConfig).run session).1.toOption.isSome = true := by decide +kernel
  cases h : (load retaggedConfig).run session with
  | mk result after =>
    rw [h] at hok
    cases result with
    | error error => cases hok
    | ok m =>
      obtain ⟨hnames, hentries, hdialogue, -⟩ := hload m after h
      have hentry (name : String) (address : Address)
          (hname : name ∈ retaggedConfig.targets.map HookTarget.name)
          (hfound : resolved? (lastAddress? retaggedSymbols) retaggedConfig.interceptor.prefixes name =
            some address) : m.entry? name = some (address + 5) := by
        obtain ⟨entry, hsome⟩ := (hnames name).mpr hname
        obtain ⟨found, hfound', rfl, -⟩ := hentries name entry hsome
        cases hfound.symm.trans hfound'
        exact hsome
      refine ⟨hfinds, m, after, rfl, hentry _ 0x1000 (by decide +kernel) (by decide +kernel),
        hentry _ 0x2000 (by decide +kernel) (by decide +kernel),
        hentry _ 0x2000 (by decide +kernel) (by decide +kernel), ?_, ?_⟩
      · rw [Option.eq_none_iff_forall_ne_some, ← not_exists, hnames]
        decide +kernel
      · have hcalls : (retaggedConfig.targets.flatMap fun target ↦
            HookTarget.calls (lastAddress? retaggedSymbols) retaggedConfig.interceptor.prefixes target) =
          [.lookup "read" (some 0x1000), .attach 0x1000 0x10 none,
            .lookup "write" none, .lookup "write" none, .lookup "__x64_write" (some 0x2000),
            .attach 0x2000 0x20 none,
            .lookup "read" (some 0x1000), .attach 0x1000 0x30 none,
            .lookup "__x64_write" (some 0x2000), .attach 0x2000 0x40 none] := by decide +kernel
        exact hcalls ▸ hdialogue

end Module

end TrapEmulation.Host
