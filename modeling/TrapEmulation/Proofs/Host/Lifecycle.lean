import TrapEmulation.Host.Module
import TrapEmulation.Proofs.Host.Redirections

/-!
# Loading and unloading modules

Modules are loaded and unloaded in any order, and the host may fail at any call.  After every step the
redirections in force are those of the hooks of the loaded modules, and all of these hooks are installed.
-/

namespace TrapEmulation.Host

variable {η : Type}

/-! ## The table of modules -/

namespace ModuleTable

theorem live_append (table : ModuleTable) (m : Module) :
    (ModuleTable.mk (table.slots ++ [some m])).live = table.live ++ [m] := by
  rw [live, List.filterMap_append]
  rfl

/-- The module of a number stands somewhere among those that are loaded, and clearing its slot takes it out
of their number. -/
theorem exists_split {table : ModuleTable} {number : Nat} {m : Module}
    (h : table.get? number = some m) :
    ∃ front back, table.live = front ++ m :: back ∧
      (ModuleTable.mk (table.slots.set number none)).live = front ++ back := by
  have hslot : table.slots[number]? = some (some m) := Option.join_eq_some_iff.mp h
  obtain ⟨hlt, hget⟩ := List.getElem?_eq_some_iff.mp hslot
  refine ⟨(table.slots.take number).filterMap id, (table.slots.drop (number + 1)).filterMap id, ?_, ?_⟩
  · have hsplit : table.slots =
        table.slots.take number ++ some m :: table.slots.drop (number + 1) := by
      rw [← hget, List.getElem_cons_drop, List.take_append_drop]
    calc
      table.live = (table.slots.take number ++ some m :: table.slots.drop (number + 1)).filterMap id :=
        congrArg (List.filterMap id) hsplit
      _ = (table.slots.take number).filterMap id ++
          m :: (table.slots.drop (number + 1)).filterMap id := by
        rw [List.filterMap_append]
        rfl
  · rw [live, List.set_eq_take_append_cons_drop, if_pos hlt, List.filterMap_append]
    rfl

/-- At every address the redirections in force are as many as the hooks of the loaded modules there, and all
these hooks are installed. -/
structure Balanced (table : ModuleTable) (session : Session η) : Prop where
  balance : ∀ x, session.balance x = installedCount (table.live.flatMap Module.hooks) x
  installed : ∀ m ∈ table.live, ∀ hook ∈ m.hooks, hook.isInstalled = true

theorem balanced_empty (host : η) : ModuleTable.Balanced {} ({ host } : Session η) where
  balance := fun _ ↦ rfl
  installed := by rintro m ⟨⟩

end ModuleTable

/-! ## One module -/

/-- What a hook redirects, and where to. -/
def Hook.target (hook : Hook) : HookTarget := ⟨hook.name, hook.replacement⟩

theorem ModuleConfig.map_target_hooks (config : ModuleConfig) :
    config.hooks.map Hook.target = config.targets := by
  rw [ModuleConfig.hooks, List.map_map]
  exact List.map_id config.targets

theorem Interceptor.map_target_zipWith (interceptor : Interceptor) (hooks : List Hook)
    (addresses : List Address) (hlength : addresses.length = hooks.length) :
    (List.zipWith interceptor.installedAt hooks addresses).map Hook.target = hooks.map Hook.target := by
  induction hooks generalizing addresses with
  | nil => rfl
  | cons hook rest ih =>
    cases addresses with
    | nil => cases hlength
    | cons address addresses =>
      rw [List.zipWith_cons_cons, List.map_cons, ih addresses (Nat.succ.inj hlength)]
      rfl

variable [Redirector η]

namespace Module

/-- A module is loaded with a hook installed for each target, or what was set up for it is taken down again,
the latest first. -/
theorem run_load (config : ModuleConfig) (session : Session η) :
    (∃ m addresses after, (load config).run session = (.ok m, after) ∧
      m.hooks.map Hook.target = config.targets ∧ m.hooks.map Hook.address = addresses.map some ∧
      session.Adds after addresses []) ∨
    ∃ error addresses after, (load config).run session = (.error error, after) ∧
      session.Adds after addresses addresses.reverse := by
  obtain ⟨addresses, after, hlength, hinstall, hadds⟩ |
    ⟨error, front, back, addresses, after, -, -, hinstall, hadds⟩ :=
      config.interceptor.run_install config.hooks session
  · rw [load, SessionM.run_bind hinstall]
    refine .inl ⟨_, addresses, _, rfl, ?_, ?_, hadds.congr_calls rfl⟩
    · rw [← config.map_target_hooks]
      exact config.interceptor.map_target_zipWith config.hooks addresses hlength
    · exact config.interceptor.map_address_zipWith config.hooks addresses hlength
  · rw [load, SessionM.run_bind hinstall]
    exact .inr ⟨⟨error⟩, addresses, after, rfl, hadds⟩

/-- Unloading a module goes on past failures and takes down what is installed. -/
theorem run_unload (m : Module) (session : Session η) :
    ∃ after, m.unload.run session = ((), after) ∧
      session.Detaches after (m.hooks.filterMap Hook.address) := by
  obtain ⟨after, hremove, calls, hcalls, hdown⟩ := Interceptor.run_remove m.hooks session
  rw [unload, SessionM.run_bind hremove]
  exact ⟨_, rfl, calls, hcalls, hdown⟩

end Module

/-! ## One step -/

namespace ModuleTable

variable {table : ModuleTable} {session : Session η}

/-- A module that is loaded has a hook for each target, in order, and takes the next number. -/
theorem run_load_ok {config : ModuleConfig} {number : Nat} {m : Module} {next : ModuleTable}
    {after : Session η} (h : (table.load config).run session = ((.ok (number, m), next), after)) :
    number = table.slots.length ∧ next.slots = table.slots ++ [some m] ∧
      m.hooks.map Hook.target = config.targets := by
  obtain ⟨loaded, addresses, middle, hmodule, htargets, -, -⟩ |
    ⟨cause, addresses, middle, hmodule, -⟩ := Module.run_load config session
  · rw [load, SessionM.run_bind hmodule] at h
    cases h
    exact ⟨rfl, rfl, htargets⟩
  · rw [load, SessionM.run_bind hmodule] at h
    cases h

/-- A module that fails to load is not in the table, and nothing of it is left in force. -/
theorem run_load_error {config : ModuleConfig} {error : LoadError} {next : ModuleTable}
    {after : Session η} (h : (table.load config).run session = ((.error error, next), after)) :
    next = table ∧ ∀ x, after.balance x = session.balance x := by
  obtain ⟨m, addresses, middle, hmodule, -⟩ | ⟨cause, addresses, middle, hmodule, hadds⟩ :=
    Module.run_load config session
  · rw [load, SessionM.run_bind hmodule] at h
    cases h
  · rw [load, SessionM.run_bind hmodule] at h
    cases h
    refine ⟨rfl, fun x ↦ ?_⟩
    rw [hadds.balance, List.count_reverse]
    omega

/-- A module that is loaded joins the table with all its hooks installed. -/
theorem Balanced.load (h : table.Balanced session) (config : ModuleConfig) :
    ((table.load config).run session).1.2.Balanced ((table.load config).run session).2 := by
  obtain ⟨m, addresses, after, hmodule, -, haddresses, hadds⟩ |
    ⟨error, addresses, after, hmodule, hadds⟩ := Module.run_load config session
  · rw [ModuleTable.load, SessionM.run_bind hmodule]
    constructor
    · intro x
      change after.balance x = installedCount (List.flatMap _ (ModuleTable.live ⟨_ ++ [some m]⟩)) x
      rw [live_append, List.flatMap_append, installedCount_append, List.flatMap_singleton,
        installedCount_of_map haddresses, hadds.balance, h.balance, List.count_nil]
      omega
    · change ∀ other ∈ ModuleTable.live ⟨_ ++ [some m]⟩, _
      rw [live_append]
      intro other hother hook hhook
      rcases List.mem_append.mp hother with hother | hother
      · exact h.installed other hother hook hhook
      · rw [List.mem_singleton.mp hother] at hhook
        obtain ⟨address, haddress⟩ := exists_eq_some_of_map haddresses hhook
        rw [Hook.isInstalled, haddress, Option.isSome_some]
  · have hfail : (table.load config).run session = ((.error error, table), after) := by
      rw [ModuleTable.load, SessionM.run_bind hmodule]
      rfl
    rw [hfail]
    refine ⟨fun x ↦ ?_, h.installed⟩
    rw [(run_load_error hfail).2, h.balance]

/-- Unloading a module always comes to its end: every hook of the module is taken down by one call, in
order, and no other call is made. -/
theorem run_unload {number : Nat} {m : Module} (hget : table.get? number = some m)
    (hinstalled : ∀ hook ∈ m.hooks, hook.isInstalled = true) (session : Session η) :
    ∃ calls after, (table.unload number).run session = ((true, ⟨table.slots.set number none⟩), after) ∧
      after.calls = session.calls ++ calls ∧
      calls.map HostCall.detached? = m.hooks.map Hook.address := by
  obtain ⟨after, hunload, calls, hcalls, hdown⟩ := m.run_unload session
  refine ⟨calls, after, ?_, hcalls, ?_⟩
  · rw [unload, hget]
    exact SessionM.run_bind hunload
  · rw [hdown, map_some_filterMap hinstalled]

/-- A module that is unloaded leaves the table with all its hooks. -/
theorem Balanced.unload (h : table.Balanced session) (number : Nat) :
    ((table.unload number).run session).1.2.Balanced ((table.unload number).run session).2 := by
  rw [ModuleTable.unload]
  cases hget : table.get? number with
  | none => exact h
  | some m =>
    obtain ⟨after, hunload, hdetaches⟩ := m.run_unload session
    obtain ⟨front, back, hlive, hleft⟩ := exists_split hget
    simp only [SessionM.run_bind hunload]
    change ModuleTable.Balanced ⟨table.slots.set number none⟩ after
    constructor
    · intro x
      have hbalance := h.balance x
      rw [hlive, List.flatMap_append, List.flatMap_cons, installedCount_append,
        installedCount_append] at hbalance
      rw [hleft, List.flatMap_append, installedCount_append, hdetaches.adds.balance, hbalance,
        List.count_nil]
      change _ + _ - (installedCount m.hooks x : Int) = _
      omega
    · intro other hother
      apply h.installed
      rw [hleft] at hother
      rw [hlive]
      rcases List.mem_append.mp hother with hother | hother
      · exact List.mem_append_left _ hother
      · exact List.mem_append_right _ (List.mem_cons_of_mem _ hother)

end ModuleTable

/-! ## Runs -/

/-- What can happen to a table of modules.  The host may also come to be in another state by itself. -/
inductive LifecycleStep (η : Type) where
  | load (config : ModuleConfig)
  | unload (number : Nat)
  | disturb (host : η)

def LifecycleStep.apply (table : ModuleTable) : LifecycleStep η → SessionM η ModuleTable
  | .load config => do return (← table.load config).2
  | .unload number => do return (← table.unload number).2
  | .disturb host => do
    modify fun session ↦ { session with host }
    return table

/-- The table after some steps. -/
def lifecycle : List (LifecycleStep η) → ModuleTable → SessionM η ModuleTable
  | [], table => return table
  | step :: steps, table => do lifecycle steps (← step.apply table)

namespace ModuleTable

variable {table : ModuleTable} {session : Session η}

theorem Balanced.step (h : table.Balanced session) (step : LifecycleStep η) :
    ((step.apply table).run session).1.Balanced ((step.apply table).run session).2 := by
  cases step with
  | load config => exact h.load config
  | unload number => exact h.unload number
  | disturb host => exact ⟨h.balance, h.installed⟩

theorem Balanced.run (h : table.Balanced session) (steps : List (LifecycleStep η)) :
    ((lifecycle steps table).run session).1.Balanced ((lifecycle steps table).run session).2 := by
  induction steps generalizing table session with
  | nil => exact h
  | cons step steps ih => exact ih (h.step step)

/-- Whatever modules have been loaded and unloaded, and whatever the host has answered, the redirections in
force are those of the hooks of the loaded modules, and all of these are installed.  A module that is loaded
has a hook for each target, one that fails to load leaves nothing behind, and unloading a module takes each of
its hooks down by one call, in order. -/
theorem lifecycle_balanced (host : η) (steps : List (LifecycleStep η)) :
    let table := ((lifecycle steps {}).run { host }).1
    let session := ((lifecycle steps {}).run { host }).2
    (∀ x, session.balance x = installedCount (table.live.flatMap Module.hooks) x) ∧
    (∀ m ∈ table.live, ∀ hook ∈ m.hooks, hook.isInstalled = true) ∧
    (∀ config number m next after,
      (table.load config).run session = ((.ok (number, m), next), after) →
        number = table.slots.length ∧ next.slots = table.slots ++ [some m] ∧
          m.hooks.map Hook.target = config.targets) ∧
    (∀ config error next after, (table.load config).run session = ((.error error, next), after) →
      next = table ∧ ∀ x, after.balance x = session.balance x) ∧
    ∀ number m, table.get? number = some m →
      ∃ calls after, (table.unload number).run session =
          ((true, ⟨table.slots.set number none⟩), after) ∧
        after.calls = session.calls ++ calls ∧
        calls.map HostCall.detached? = m.hooks.map Hook.address := by
  intro table session
  have hbalanced : table.Balanced session := (balanced_empty host).run steps
  refine ⟨hbalanced.balance, hbalanced.installed, fun _ _ _ _ _ ↦ run_load_ok,
    fun _ _ _ _ ↦ run_load_error, ?_⟩
  intro number m hget
  refine run_unload hget (hbalanced.installed m ?_) session
  obtain ⟨front, back, hlive, -⟩ := exists_split hget
  rw [hlive]
  exact List.mem_append_right _ List.mem_cons_self

end ModuleTable

end TrapEmulation.Host
