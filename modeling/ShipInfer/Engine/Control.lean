import Mathlib
import ShipInfer.Engine.Ensemble
import ShipInfer.Lib.Machine

/-!
# The model table of a server

`start`, `stop`, `load_model` and `unload_model` of `engine/pool`, as far as they read or
write the model table. Each read or write of a field they share is a step of its own, what
one lock holds together is one step. `_control_lock` holds the call that has it, with what
that call has left to do. A `start` is called when no other is under way.
-/

namespace ShipInfer.Engine.Control

/-- A `Model` or `EnsembleModel` that has started. `serial` tells the objects apart. -/
structure Loaded where
  name : String
  config : ModelConfig
  serial : Nat
  deriving DecidableEq

structure Settings where
  /-- `model_control` is `explicit`. -/
  explicit : Bool
  loadAllModels : Bool
  startupModels : List String
  strictStartup : Bool
  deriving DecidableEq

abbrev Repository := Dict String ModelConfig

/-- Where `_build_and_start` is. -/
inductive BuildAt
  | resolving
  /-- In the `start` of a plain model. -/
  | starting (config : ModelConfig)
  /-- In the `start` of an ensemble: `steps` are left to resolve. -/
  | walking (config : ModelConfig) (wiring : Wiring) (steps : List EnsembleStep)
  | publishing (config : ModelConfig)
  deriving DecidableEq

structure Build where
  name : String
  generation : Nat
  pc : BuildAt := .resolving
  deriving DecidableEq

/-- Where a call of `start` is. -/
inductive StarterAt
  /-- Before the repository scan. -/
  | claimed
  | loading (names : List String)
  | building (b : Build) (names : List String)
  /-- In the `except` branch, before `_stop_run`. -/
  | failed
  /-- Before `_abandon_start`; `tearing` if the call has to tear the server down itself. -/
  | unwinding (tearing : Bool)
  deriving DecidableEq

structure Starter where
  generation : Nat
  /-- The run's ledger. -/
  mine : List Loaded := []
  pc : StarterAt := .claimed
  deriving DecidableEq

inductive LoadAt
  | entered
  /-- Past `not self._started`. -/
  | checked
  | absent
  | scanning (generation : Nat)
  | building (b : Build)
  deriving DecidableEq

inductive UnloadAt
  | entered
  | checked
  | found (model : Loaded)
  /-- Past the check of its dependents. -/
  | popping (model : Loaded)
  | stopping (model : Loaded)
  deriving DecidableEq

inductive TeardownAt
  | entered
  | draining
  | returning
  deriving DecidableEq

/-- The holder of `_control_lock`. -/
inductive Holder
  | load (name : String) (pc : LoadAt)
  | unload (name : String) (pc : UnloadAt)
  | teardown (generation : Nat) (pc : TeardownAt)
  | abandon
  deriving DecidableEq

/-- A call of `load_model` or `unload_model` past `_require_control`. -/
inductive Call
  | load (name : String)
  | unload (name : String)
  deriving DecidableEq

structure Server where
  repository : Repository := .empty
  models : Dict String Loaded := .empty
  generation : Nat := 0
  started : Bool := false
  starting : Bool := false
  tornDown : Bool := true
  starter : Option Starter := none
  waiting : List Call := []
  /-- The runs whose flags a stop has cleared and that wait for the lock to be torn down. -/
  stopping : List Nat := []
  control : Option Holder := none
  /-- The next `serial`. -/
  built : Nat := 0
  deriving DecidableEq

inductive Event
  | start
  /-- `ModelRepository.load` in `start`; `none` when it raises. -/
  | startScan (repository : Option Repository)
  | startStep
  /-- Anything in the `try` of `start` raises; `interrupt` if it is no `Exception`. -/
  | startRaises (interrupt : Bool)
  | stop
  | call (c : Call)
  /-- The call in place `i` gets the lock. -/
  | enter (i : Nat)
  | enterTeardown
  | enterAbandon
  /-- The next step of the holder of the lock. -/
  | hold
  | holdScan (repository : Option Repository)
  /-- Anything in a load or an unload raises. -/
  | holdRaises
  /-- The re-scan of `index`. -/
  | index (repository : Option Repository)
  deriving DecidableEq

/-- What a step of a build comes to. -/
inductive BuildStep
  | going (b : Build)
  | raised
  | done (s : Server) (model : Loaded)

/-- `_startup_names`, in the order `start` loads them; `none` if the repository lacks one. -/
def startupNames (cfg : Settings) (r : Repository) : Option (List String) :=
  let names := if ¬ cfg.explicit ∧ cfg.loadAllModels then r.keys.insertionSort (· ≤ ·) else cfg.startupModels
  if ∀ name ∈ names, name ∈ r.keys then
    let isEnsemble := fun name => (r.get? name).any (·.isEnsemble)
    some (names.filter (!isEnsemble ·) ++ names.filter isEnsemble)
  else none

namespace Server

/-- `_is_stopping` is the negation. -/
def up (s : Server) : Bool := s.started || s.starting

/-- `_build_and_start`, one step at a time. -/
def buildStep (s : Server) (b : Build) : BuildStep :=
  match b.pc with
  | .resolving =>
    match s.repository.get? b.name with
    | none => .raised
    | some c =>
      .going { b with pc := if c.isEnsemble then .walking c c.wiring c.steps else .starting c }
  | .starting c => .going { b with pc := .publishing c }
  | .walking c w (step :: steps) =>
    match s.models.get? step.model with
    | none => .raised
    | some model =>
      match w.addStep step model.config with
      | .error _ => .raised
      | .ok w' => .going { b with pc := .walking c w' steps }
  | .walking c w [] =>
    match w.close c.outputs with
    | .error _ => .raised
    | .ok _ => .going { b with pc := .publishing c }
  | .publishing c =>
    let model : Loaded := { name := b.name, config := c, serial := s.built }
    let models := if s.generation = b.generation then s.models.set b.name model else s.models
    .done { s with models, built := s.built + 1 } model

/-- `_begin_start`. A claim that is answered, refused or waits changes nothing. -/
def beginStart (s : Server) : Server :=
  if s.started ∨ s.starting ∨ ¬ s.tornDown then s
  else { s with generation := s.generation + 1, starting := true, tornDown := false,
                starter := some { generation := s.generation + 1 } }

def finishStart (s : Server) (st : Starter) : Server :=
  if s.generation ≠ st.generation ∨ ¬ s.starting then
    { s with starter := some { st with pc := .unwinding false } }
  else { s with started := true, starting := false, starter := none }

/-- The locked part of `_stop_run`, and whether the caller goes on to `_teardown`. -/
def stopRun (s : Server) (generation : Option Nat) : Server × Bool :=
  if generation.any (· ≠ s.generation) then (s, false)
  else if s.up then
    ({ s with started := false, starting := false, stopping := s.stopping ++ [s.generation] }, true)
  else (s, false)

/-- A model of `start` that would not load: `_load`. -/
def skipOrFail (cfg : Settings) (s : Server) (st : Starter) (names : List String) : StarterAt :=
  if cfg.strictStartup ∨ s.generation ≠ st.generation ∨ ¬ s.up then .failed else .loading names

def startStep (cfg : Settings) (s : Server) (st : Starter) : Option Server :=
  match st.pc with
  | .claimed => none
  | .loading [] => some (s.finishStart st)
  | .loading (name :: names) =>
    some { s with starter := some { st with pc := .building { name, generation := st.generation } names } }
  | .building b names =>
    match s.buildStep b with
    | .going b' => some { s with starter := some { st with pc := .building b' names } }
    | .raised => some { s with starter := some { st with pc := skipOrFail cfg s st names } }
    | .done s' model => some { s' with starter := some { st with mine := st.mine ++ [model], pc := .loading names } }
  | .failed =>
    let r := s.stopRun (some st.generation)
    some { r.1 with starter := some { st with pc := .unwinding r.2 } }
  | .unwinding _ => none

def startRaises (cfg : Settings) (s : Server) (st : Starter) (interrupt : Bool) : Option Server :=
  match st.pc with
  | .claimed | .loading _ => some { s with starter := some { st with pc := .failed } }
  | .building _ names =>
    some { s with starter := some { st with pc := if interrupt then .failed else skipOrFail cfg s st names } }
  | .failed | .unwinding _ => none

/-- `_ensembles_depending_on` -/
def dependents (s : Server) (name : String) : List String :=
  ((s.models.values.filter fun m => m.config.steps.any (·.model = name)).map (·.name)).insertionSort (· ≤ ·)

/-- `_release_models`: what is left of the table. -/
def releaseModels (models : Dict String Loaded) (mine : List Loaded) : Dict String Loaded :=
  mine.foldl (fun t m => if t.get? m.name = some m then t.erase m.name else t) models

def release (s : Server) : Server := { s with control := none }

def loadStep (s : Server) (name : String) : LoadAt → Option Server
  | .entered => some (if s.started then { s with control := some (.load name .checked) } else s.release)
  | .checked => some (if s.models.contains name then s.release else { s with control := some (.load name .absent) })
  | .absent => some { s with control := some (.load name (.scanning s.generation)) }
  | .scanning _ => none
  | .building b =>
    match s.buildStep b with
    | .going b' => some { s with control := some (.load name (.building b')) }
    | .raised => some s.release
    | .done s' _ => some s'.release

def unloadStep (s : Server) (name : String) : UnloadAt → Server
  | .entered => if s.started then { s with control := some (.unload name .checked) } else s.release
  | .checked => (s.models.get? name).elim s.release fun m => { s with control := some (.unload name (.found m)) }
  | .found m => if s.dependents name = [] then { s with control := some (.unload name (.popping m)) } else s.release
  | .popping m => { s with models := s.models.erase name, control := some (.unload name (.stopping m)) }
  | .stopping _ => s.release

/-- `_teardown`, as far as it touches the table. -/
def teardownStep (s : Server) (generation : Nat) : TeardownAt → Server
  | .entered =>
    { s with control := some (.teardown generation (if s.generation ≠ generation then .returning else .draining)) }
  | .draining => { s with models := .empty, control := some (.teardown generation .returning) }
  | .returning => { s with tornDown := true }.release

/-- `_abandon_start`, and the call is over. -/
def abandon (s : Server) (st : Starter) : Server :=
  { s with models := releaseModels s.models st.mine, starter := none }.release

def hold (s : Server) : Option Server :=
  match s.control with
  | none => none
  | some (.load name pc) => s.loadStep name pc
  | some (.unload name pc) => some (s.unloadStep name pc)
  | some (.teardown generation pc) => some (s.teardownStep generation pc)
  | some .abandon => s.starter.map s.abandon

def Call.holder : Call → Holder
  | .load name => .load name .entered
  | .unload name => .unload name .entered

def step (cfg : Settings) (s : Server) : Event → Option Server
  | .start => if s.starter = none then some s.beginStart else none
  | .startScan r =>
    match s.starter with
    | some ⟨generation, mine, .claimed⟩ =>
      match r with
      | none => some { s with starter := some ⟨generation, mine, .failed⟩ }
      | some r =>
        let pc := (startupNames cfg r).elim .failed .loading
        some { s with repository := r, starter := some ⟨generation, mine, pc⟩ }
    | _ => none
  | .startStep => s.starter.bind (s.startStep cfg)
  | .startRaises interrupt => s.starter.bind fun st => s.startRaises cfg st interrupt
  | .stop => some (s.stopRun none).1
  | .call c => some (if s.started ∧ cfg.explicit then { s with waiting := s.waiting ++ [c] } else s)
  | .enter i =>
    if s.control = none then
      s.waiting[i]?.map fun c => { s with waiting := s.waiting.eraseIdx i, control := some (Call.holder c) }
    else none
  | .enterTeardown =>
    match s.control, s.stopping with
    | none, g :: gs => some { s with stopping := gs, control := some (.teardown g .entered) }
    | _, _ => none
  | .enterAbandon =>
    match s.control, s.starter with
    | none, some ⟨_, _, .unwinding tearing⟩ =>
      if tearing ∧ ¬ s.tornDown then none else some { s with control := some .abandon }
    | _, _ => none
  | .hold => s.hold
  | .holdScan r =>
    match s.control with
    | some (.load name (.scanning generation)) =>
      match r with
      | none => some s.release
      | some r => some { s with repository := r, control := some (.load name (.building { name, generation })) }
    | _ => none
  | .holdRaises =>
    match s.control with
    | some (.load _ _) | some (.unload _ _) => some s.release
    | _ => none
  | .index r => some (if s.control = none ∧ cfg.explicit then { s with repository := r.getD s.repository } else s)

end Server

/-- A server from its construction on. -/
def machine (cfg : Settings) : Machine Server Event where
  init s := s = {}
  step s e t := s.step cfg e = some t

/-! ## Tables that close -/

/-- Every ensemble in the table has the models its steps name in the table too. -/
def Closed (models : Dict String Loaded) : Prop :=
  ∀ p ∈ models.entries, p.2.config.isEnsemble = true → ∀ step ∈ p.2.config.steps, step.model ∈ models.keys

/-- No model in the table has `name` for a step. -/
def Free (models : Dict String Loaded) (name : String) : Prop :=
  ∀ p ∈ models.entries, ∀ step ∈ p.2.config.steps, step.model ≠ name

theorem closed_of_empty {models : Dict String Loaded} (h : models.entries = []) : Closed models := by
  intro p hp
  simp [h] at hp

theorem Closed.set {models : Dict String Loaded} (h : Closed models) {name : String} {m : Loaded}
    (hm : m.config.isEnsemble = true → ∀ step ∈ m.config.steps, step.model ∈ models.keys) :
    Closed (models.set name m) := by
  intro p hp hens step hstep
  rw [Dict.mem_keys_set]
  rcases Dict.mem_set_entries.mp hp with rfl | ⟨hold, -⟩
  · exact .inr (hm hens step hstep)
  · exact .inr (h p hold hens step hstep)

theorem Closed.erase {models : Dict String Loaded} (h : Closed models) {name : String} (hfree : Free models name) :
    Closed (models.erase name) := by
  intro p hp hens step hstep
  obtain ⟨hold, -⟩ := Dict.mem_erase_entries.mp hp
  rw [Dict.mem_keys_erase]
  exact ⟨h p hold hens step hstep, hfree p hold step hstep⟩

theorem free_of_dependents {s : Server} {name : String} (h : s.dependents name = []) : Free s.models name := by
  intro p hp step hstep heq
  have hmem : p.2.name ∈ s.dependents name := by
    rw [Server.dependents, List.mem_insertionSort]
    apply List.mem_map_of_mem
    rw [List.mem_filter]
    exact ⟨List.mem_map_of_mem hp, List.any_eq_true.mpr ⟨step, hstep, by simpa using heq⟩⟩
  rw [h] at hmem
  cases hmem

/-- What a ledger holds of every entry, its release takes out of the table. -/
theorem releaseModels_empty : ∀ (mine : List Loaded) {models : Dict String Loaded},
    (∀ p ∈ models.entries, p.2.name = p.1 ∧ p.2 ∈ mine) → (Server.releaseModels models mine).entries = []
  | [], models, h => by
    rw [List.eq_nil_iff_forall_not_mem]
    intro p hp
    exact List.not_mem_nil (h p hp).2
  | m :: mine, models, h => by
    apply releaseModels_empty mine
    intro p hp
    -- an entry that holds `m` is the one that was taken out
    have hne : p ∈ models.entries ∧ p.2 ≠ m := by
      by_cases hget : models.get? m.name = some m
      · simp only [hget, ↓reduceIte] at hp
        obtain ⟨hold, hname⟩ := Dict.mem_erase_entries.mp hp
        exact ⟨hold, fun heq => hname (by rw [← (h p hold).1, heq])⟩
      · simp only [hget, ↓reduceIte] at hp
        refine ⟨hp, fun heq => hget ?_⟩
        rw [Dict.get?_eq_some_iff, ← heq, (h p hp).1]
        exact hp
    obtain ⟨hname, hmine⟩ := h p hne.1
    exact ⟨hname, (List.mem_cons.mp hmine).resolve_left hne.2⟩

/-! ## Builds -/

/-- The steps an ensemble's build has resolved are in the table. -/
def Build.Wired (models : Dict String Loaded) (b : Build) : Prop :=
  match b.pc with
  | .resolving => True
  | .starting c => c.isEnsemble = false
  | .walking c _ steps => ∃ resolved, c.steps = resolved ++ steps ∧ ∀ step ∈ resolved, step.model ∈ models.keys
  | .publishing c => c.isEnsemble = true → ∀ step ∈ c.steps, step.model ∈ models.keys

theorem Build.wired_new (models : Dict String Loaded) (name : String) (generation : Nat) :
    Build.Wired models { name, generation } := trivial

namespace Server

variable {s t : Server}

theorem going_wired {b b' : Build} (h : s.buildStep b = .going b') (hb : b.Wired s.models) : b'.Wired s.models := by
  unfold buildStep at h
  unfold Build.Wired at hb
  cases hpc : b.pc with
  | resolving =>
    simp only [hpc] at h
    split at h
    · cases h
    · rename_i c _
      cases h
      cases hens : c.isEnsemble with
      | true => exact ⟨[], rfl, by simp⟩
      | false => exact hens
  | starting c =>
    simp only [hpc] at h hb
    cases h
    intro hens
    rw [hb] at hens
    cases hens
  | walking c w steps =>
    simp only [hpc] at hb
    obtain ⟨resolved, hsteps, hin⟩ := hb
    cases steps with
    | nil =>
      simp only [hpc] at h
      split at h <;> cases h
      intro _
      rw [hsteps, List.append_nil]
      exact hin
    | cons step steps =>
      simp only [hpc] at h
      split at h
      · cases h
      · rename_i m hm
        split at h <;> cases h
        refine ⟨resolved ++ [step], by simp [hsteps], ?_⟩
        intro st hst
        rcases List.mem_append.mp hst with hold | hnew
        · exact hin st hold
        · rw [List.mem_singleton.mp hnew]
          exact Dict.mem_keys_of_mem (Dict.get?_eq_some_iff.mp hm)
  | publishing c =>
    simp only [hpc] at h
    cases h

/-- The table a build leaves: with its model if the run still has the server. -/
theorem done_spec {b : Build} {m : Loaded} (h : s.buildStep b = .done t m) :
    m.name = b.name ∧
      (b.Wired s.models → m.config.isEnsemble = true → ∀ step ∈ m.config.steps, step.model ∈ s.models.keys) ∧
      t = { s with
        models := if s.generation = b.generation then s.models.set b.name m else s.models
        built := s.built + 1 } := by
  unfold buildStep at h
  cases hpc : b.pc with
  | publishing c =>
    simp only [hpc] at h
    cases h
    refine ⟨rfl, fun hb => ?_, rfl⟩
    simpa only [Build.Wired, hpc] using hb
  | resolving =>
    simp only [hpc] at h
    split at h <;> cases h
  | starting c =>
    simp only [hpc] at h
    cases h
  | walking c w steps =>
    cases steps with
    | nil =>
      simp only [hpc] at h
      split at h <;> cases h
    | cons step steps =>
      simp only [hpc] at h
      split at h
      · cases h
      · split at h <;> cases h

/-! ## The invariant -/

/-- The entries are of the run's ledger, and what its build has resolved stays while the
server is up. -/
def StarterOk (s : Server) (st : Starter) : Prop :=
  st.generation = s.generation ∧ s.started = false ∧ (∀ p ∈ s.models.entries, p.2 ∈ st.mine) ∧
    (∀ tearing, st.pc = .unwinding tearing → s.starting = false) ∧
    (s.up = true → ∀ b names, st.pc = .building b names → b.Wired s.models)

/-- A load or an unload past its check keeps any start and any teardown out; a teardown
is the only one of the present run. -/
def HolderOk (s : Server) : Holder → Prop
  | .load _ pc => pc ≠ .entered → s.tornDown = false ∧ s.starter = none ∧ ∀ b, pc = .building b → b.Wired s.models
  | .unload name pc => pc ≠ .entered → s.tornDown = false ∧ s.starter = none ∧ ∀ m, pc = .popping m → Free s.models name
  | .teardown generation pc => s.tornDown = false ∧ s.stopping = [] ∧ s.up = false ∧ generation = s.generation ∧
      (pc = .returning → s.starter = none → s.models.entries = [])
  | .abandon => s.up = false ∧ ∃ st tearing, s.starter = some st ∧ st.pc = .unwinding tearing

structure Inv (s : Server) : Prop where
  apart : s.started = true → s.starting = false
  barrier : s.up = true → s.tornDown = false ∧ s.stopping = []
  stopping : s.stopping ≠ [] → s.tornDown = false ∧ s.stopping = [s.generation]
  empty : s.starter = none → s.tornDown = true → s.models.entries = []
  named : ∀ p ∈ s.models.entries, p.2.name = p.1
  closed : s.up = true → Closed s.models
  starter : ∀ st, s.starter = some st → s.StarterOk st
  control : ∀ h, s.control = some h → s.HolderOk h

theorem inv_init : Inv {} where
  apart := by simp
  barrier := by simp [up]
  stopping := by simp
  empty := fun _ _ => rfl
  named := by simp
  closed := by simp [up]
  starter := by simp
  control := by simp

/-! ## What the moves keep -/

theorem Inv.setControl (h : s.Inv) {c : Option Holder} (hc : ∀ x, c = some x → s.HolderOk x) :
    Inv { s with control := c } :=
  ⟨h.apart, h.barrier, h.stopping, h.empty, h.named, h.closed, h.starter, hc⟩

theorem Inv.release (h : s.Inv) : s.release.Inv := h.setControl (by simp)

theorem Inv.setRepository (h : s.Inv) (r : Repository) : Inv { s with repository := r } :=
  ⟨h.apart, h.barrier, h.stopping, h.empty, h.named, h.closed, h.starter, h.control⟩

theorem Inv.setWaiting (h : s.Inv) (calls : List Call) : Inv { s with waiting := calls } :=
  ⟨h.apart, h.barrier, h.stopping, h.empty, h.named, h.closed, h.starter, h.control⟩

/-- A start under way goes on: no load or unload is past its check. -/
theorem Inv.setStarter (h : s.Inv) {st st' : Starter} (hst : s.starter = some st)
    (hpc : ∀ tearing, st.pc ≠ .unwinding tearing) {models : Dict String Loaded} {built : Nat}
    (hnamed : ∀ p ∈ models.entries, p.2.name = p.1) (hclosed : s.up = true → Closed models)
    (hst' : StarterOk { s with models } st') : Inv { s with starter := some st', models, built } where
  apart := h.apart
  barrier := h.barrier
  stopping := h.stopping
  empty := by simp
  named := hnamed
  closed := hclosed
  starter := by
    intro st₀ heq
    cases heq
    exact hst'
  control := by
    intro x hx
    have hok := h.control x hx
    cases x with
    | load name pc =>
      intro hentered
      have hnone := (hok hentered).2.1
      rw [hst] at hnone
      cases hnone
    | unload name pc =>
      intro hentered
      have hnone := (hok hentered).2.1
      rw [hst] at hnone
      cases hnone
    | teardown generation pc =>
      obtain ⟨hdown, hstop, hup, hgen, -⟩ := hok
      exact ⟨hdown, hstop, hup, hgen, fun _ hnone => by cases hnone⟩
    | abandon =>
      obtain ⟨-, st₀, tearing, hst₀, hunw⟩ := hok
      rw [hst] at hst₀
      cases hst₀
      exact absurd hunw (hpc tearing)

/-- A start goes on and leaves the table alone. -/
theorem Inv.setPc (h : s.Inv) {st : Starter} (hst : s.starter = some st) (hpc : ∀ tearing, st.pc ≠ .unwinding tearing)
    {pc : StarterAt} (hunw : ∀ tearing, pc = .unwinding tearing → s.starting = false)
    (hwired : s.up = true → ∀ b names, pc = .building b names → b.Wired s.models) :
    Inv { s with starter := some { st with pc } } := by
  obtain ⟨hgen, hstarted, howned, -, -⟩ := h.starter st hst
  exact h.setStarter hst hpc h.named h.closed ⟨hgen, hstarted, howned, hunw, hwired⟩

theorem Inv.beginStart (h : s.Inv) (hnone : s.starter = none) : s.beginStart.Inv := by
  unfold Server.beginStart
  split
  · exact h
  rename_i hclaim
  simp only [not_or, Bool.not_eq_true, Bool.not_eq_false] at hclaim
  obtain ⟨hstarted, hstarting, hdown⟩ := hclaim
  have hempty := h.empty hnone hdown
  have hstop : s.stopping = [] := by
    by_contra hne
    have hdown' := (h.stopping hne).1
    rw [hdown] at hdown'
    cases hdown'
  exact {
    apart := by simp [hstarted]
    barrier := fun _ => ⟨rfl, hstop⟩
    stopping := fun hne => absurd hstop hne
    empty := by simp
    named := h.named
    closed := fun _ => closed_of_empty hempty
    starter := by
      intro st heq
      cases heq
      refine ⟨rfl, hstarted, ?_, by simp, by simp⟩
      intro p hp
      simp [hempty] at hp
    control := by
      intro x hx
      have hok := h.control x hx
      cases x with
      | load name pc =>
        intro hentered
        have hdown' := (hok hentered).1
        rw [hdown] at hdown'
        cases hdown'
      | unload name pc =>
        intro hentered
        have hdown' := (hok hentered).1
        rw [hdown] at hdown'
        cases hdown'
      | teardown generation pc =>
        have hdown' := hok.1
        rw [hdown] at hdown'
        cases hdown'
      | abandon =>
        obtain ⟨-, st, -, hst, -⟩ := hok
        rw [hnone] at hst
        cases hst }

theorem Inv.finishStart (h : s.Inv) {st : Starter} (hst : s.starter = some st)
    (hpc : ∀ tearing, st.pc ≠ .unwinding tearing) : (s.finishStart st).Inv := by
  obtain ⟨hgen, hstarted, -, -, -⟩ := h.starter st hst
  unfold Server.finishStart
  split
  · rename_i hlost
    simp only [hgen, ne_eq, not_true_eq_false, Bool.not_eq_true, false_or] at hlost
    exact h.setPc hst hpc (fun _ _ => hlost) (by simp)
  · rename_i hown
    simp only [ne_eq, not_or, not_not] at hown
    have hup : s.up = true := by simp [up, hown.2]
    obtain ⟨hdown, hstop⟩ := h.barrier hup
    exact {
      apart := fun _ => rfl
      barrier := fun _ => ⟨hdown, hstop⟩
      stopping := fun hne => absurd hstop hne
      empty := by simp [hdown]
      named := h.named
      closed := fun _ => h.closed hup
      starter := by simp
      control := by
        intro x hx
        have hok := h.control x hx
        cases x with
        | load name pc =>
          intro hentered
          obtain ⟨-, hnone, -⟩ := hok hentered
          rw [hst] at hnone
          cases hnone
        | unload name pc =>
          intro hentered
          obtain ⟨-, hnone, -⟩ := hok hentered
          rw [hst] at hnone
          cases hnone
        | teardown generation pc =>
          have hup' := hok.2.2.1
          rw [hup] at hup'
          cases hup'
        | abandon =>
          have hup' := hok.1
          rw [hup] at hup'
          cases hup' }

/-- Flags are cleared only on the way to a teardown, the first of its run. -/
theorem Inv.stopRun (h : s.Inv) (generation : Option Nat) : (s.stopRun generation).1.Inv := by
  unfold Server.stopRun
  split
  · exact h
  split
  · rename_i hup
    obtain ⟨hdown, hstop⟩ := h.barrier hup
    exact {
      apart := by simp
      barrier := by simp [up]
      stopping := fun _ => ⟨hdown, by simp [hstop]⟩
      empty := h.empty
      named := h.named
      closed := by simp [up]
      starter := by
        intro st hst
        obtain ⟨hgen, -, howned, -, -⟩ := h.starter st hst
        exact ⟨hgen, rfl, howned, fun _ _ => rfl, by simp [up]⟩
      control := by
        intro x hx
        have hok := h.control x hx
        cases x with
        | load name pc => exact hok
        | unload name pc => exact hok
        | teardown generation pc =>
          have hup' := hok.2.2.1
          rw [hup] at hup'
          cases hup'
        | abandon =>
          have hup' := hok.1
          rw [hup] at hup'
          cases hup' }
  · exact h

/-! ## The steps -/

section
variable {models : Dict String Loaded} {b : Build} {m : Loaded} {c : Prop} [Decidable c]

theorem mem_publish {p : String × Loaded} (hp : p ∈ (if c then models.set b.name m else models).entries) :
    p = (b.name, m) ∨ p ∈ models.entries := by
  split at hp
  · exact (Dict.mem_set_entries.mp hp).imp_right And.left
  · exact .inr hp

theorem named_publish (h : ∀ p ∈ models.entries, p.2.name = p.1) (hname : m.name = b.name) :
    ∀ p ∈ (if c then models.set b.name m else models).entries, p.2.name = p.1 := by
  intro p hp
  rcases mem_publish hp with rfl | hold
  · exact hname
  · exact h p hold

theorem closed_publish (h : Closed models)
    (hm : m.config.isEnsemble = true → ∀ step ∈ m.config.steps, step.model ∈ models.keys) :
    Closed (if c then models.set b.name m else models) := by
  split
  · exact h.set hm
  · exact h

end

/-- While the server is started, no start of it is under way. -/
theorem Inv.started (h : s.Inv) (hs : s.started = true) : s.tornDown = false ∧ s.starter = none := by
  refine ⟨(h.barrier (by simp [up, hs])).1, ?_⟩
  by_contra hne
  obtain ⟨st, hst⟩ := Option.ne_none_iff_exists'.mp hne
  have hnot := (h.starter st hst).2.1
  rw [hs] at hnot
  cases hnot

theorem Inv.startStep (h : s.Inv) {cfg : Settings} {st : Starter} (hst : s.starter = some st)
    (hstep : s.startStep cfg st = some t) : t.Inv := by
  obtain ⟨hgen, hstarted, howned, -, hwired⟩ := h.starter st hst
  unfold Server.startStep at hstep
  cases hpc : st.pc with
  | claimed =>
    simp only [hpc] at hstep
    cases hstep
  | loading names =>
    cases names with
    | nil =>
      simp only [hpc] at hstep
      cases hstep
      exact h.finishStart hst (by simp [hpc])
    | cons name names =>
      simp only [hpc] at hstep
      cases hstep
      refine h.setPc hst (by simp [hpc]) (by simp) fun _ b names' heq => ?_
      cases heq
      trivial
  | building b names =>
    simp only [hpc] at hstep
    split at hstep <;> cases hstep
    · rename_i b' hgoing
      refine h.setPc hst (by simp [hpc]) (by simp) fun hup b₀ names₀ heq => ?_
      cases heq
      exact going_wired hgoing (hwired hup b names hpc)
    · refine h.setPc hst (by simp [hpc]) ?_ ?_ <;> unfold skipOrFail <;> split <;> simp
    · rename_i t m hdone
      obtain ⟨hname, hm, rfl⟩ := done_spec hdone
      refine h.setStarter hst (by simp [hpc]) (named_publish h.named hname) (fun hup => ?_)
        ⟨hgen, hstarted, ?_, by simp, by simp⟩
      · exact closed_publish (h.closed hup) (hm (hwired hup b names hpc))
      · intro p hp
        rcases mem_publish hp with heq | hold
        · simp [heq]
        · exact List.mem_append_left _ (howned p hold)
  | failed =>
    simp only [hpc] at hstep
    cases hstep
    have hsame : (s.stopRun (some st.generation)).1.starter = some st := by
      unfold Server.stopRun
      split
      · exact hst
      · split <;> exact hst
    refine (h.stopRun (some st.generation)).setPc hsame (by simp [hpc]) (fun _ _ => ?_) (by simp)
    · have hany : (some st.generation).any (· ≠ s.generation) = false := by simp [hgen]
      unfold Server.stopRun
      rw [hany]
      by_cases hup : s.up = true
      · simp [hup]
      · simp only [up, Bool.or_eq_true, not_or, Bool.not_eq_true] at hup
        simp [up, hup.1, hup.2]
  | unwinding tearing =>
    simp only [hpc] at hstep
    cases hstep

theorem Inv.loadStep (h : s.Inv) {name : String} {pc : LoadAt} (hc : s.control = some (.load name pc))
    (hstep : s.loadStep name pc = some t) : t.Inv := by
  have hok := h.control _ hc
  cases pc with
  | entered =>
    simp only [Server.loadStep] at hstep
    split at hstep <;> cases hstep
    · rename_i hstarted
      obtain ⟨hdown, hnone⟩ := h.started hstarted
      refine h.setControl fun x hx => ?_
      cases hx
      exact fun _ => ⟨hdown, hnone, by simp⟩
    · exact h.release
  | checked =>
    obtain ⟨hdown, hnone, -⟩ := hok (by simp)
    simp only [Server.loadStep] at hstep
    split at hstep <;> cases hstep
    · exact h.release
    · refine h.setControl fun x hx => ?_
      cases hx
      exact fun _ => ⟨hdown, hnone, by simp⟩
  | absent =>
    obtain ⟨hdown, hnone, -⟩ := hok (by simp)
    cases hstep
    refine h.setControl fun x hx => ?_
    cases hx
    exact fun _ => ⟨hdown, hnone, by simp⟩
  | scanning generation => cases hstep
  | building b =>
    obtain ⟨hdown, hnone, hwired⟩ := hok (by simp)
    have hb := hwired b rfl
    simp only [Server.loadStep] at hstep
    split at hstep <;> cases hstep
    · rename_i b' hgoing
      refine h.setControl fun x hx => ?_
      cases hx
      refine fun _ => ⟨hdown, hnone, fun b₀ heq => ?_⟩
      cases heq
      exact going_wired hgoing hb
    · exact h.release
    · rename_i t m hdone
      obtain ⟨hname, hm, rfl⟩ := done_spec hdone
      exact {
        apart := h.apart
        barrier := h.barrier
        stopping := h.stopping
        empty := fun _ hdown' => by simp_all [Server.release]
        named := named_publish h.named hname
        closed := fun hup => closed_publish (h.closed hup) (hm hb)
        starter := by simp [Server.release, hnone]
        control := by simp [Server.release] }

theorem Inv.unloadStep (h : s.Inv) {name : String} {pc : UnloadAt} (hc : s.control = some (.unload name pc)) :
    (s.unloadStep name pc).Inv := by
  have hok := h.control _ hc
  cases pc with
  | entered =>
    simp only [Server.unloadStep]
    split
    · rename_i hstarted
      obtain ⟨hdown, hnone⟩ := h.started hstarted
      refine h.setControl fun x hx => ?_
      cases hx
      exact fun _ => ⟨hdown, hnone, by simp⟩
    · exact h.release
  | checked =>
    obtain ⟨hdown, hnone, -⟩ := hok (by simp)
    simp only [Server.unloadStep]
    cases s.models.get? name with
    | none => exact h.release
    | some m =>
      refine h.setControl fun x hx => ?_
      cases hx
      exact fun _ => ⟨hdown, hnone, by simp⟩
  | found m =>
    obtain ⟨hdown, hnone, -⟩ := hok (by simp)
    simp only [Server.unloadStep]
    split
    · rename_i hdep
      refine h.setControl fun x hx => ?_
      cases hx
      exact fun _ => ⟨hdown, hnone, fun _ _ => free_of_dependents hdep⟩
    · exact h.release
  | popping m =>
    obtain ⟨hdown, hnone, hfree⟩ := hok (by simp)
    exact {
      apart := h.apart
      barrier := h.barrier
      stopping := h.stopping
      empty := fun _ hdown' => by simp_all [Server.unloadStep]
      named := fun p hp => h.named p (Dict.mem_erase_entries.mp hp).1
      closed := fun hup => (h.closed hup).erase (hfree m rfl)
      starter := by simp [Server.unloadStep, hnone]
      control := by
        intro x hx
        cases hx
        exact fun _ => ⟨hdown, hnone, by simp⟩ }
  | stopping m => exact h.release

theorem Inv.teardownStep (h : s.Inv) {generation : Nat} {pc : TeardownAt}
    (hc : s.control = some (.teardown generation pc)) : (s.teardownStep generation pc).Inv := by
  obtain ⟨hdown, hstop, hup, hgen, hempty⟩ := h.control _ hc
  cases pc with
  | entered =>
    refine h.setControl fun x hx => ?_
    cases hx
    exact ⟨hdown, hstop, hup, hgen, by simp [hgen]⟩
  | draining =>
    exact {
      apart := h.apart
      barrier := h.barrier
      stopping := h.stopping
      empty := fun _ _ => rfl
      named := by simp [Server.teardownStep]
      closed := fun _ => closed_of_empty rfl
      starter := by
        intro st hst
        obtain ⟨hg, hs, -, hu, -⟩ := h.starter st hst
        refine ⟨hg, hs, by simp [Server.teardownStep], hu, fun hup' => ?_⟩
        exact absurd (hup.symm.trans hup') (by simp)
      control := by
        intro x hx
        cases hx
        exact ⟨hdown, hstop, hup, hgen, fun _ _ => rfl⟩ }
  | returning =>
    exact {
      apart := h.apart
      barrier := by simp_all [up, Server.teardownStep, Server.release]
      stopping := fun hne => absurd hstop hne
      empty := fun hnone _ => hempty rfl hnone
      named := h.named
      closed := h.closed
      starter := h.starter
      control := by simp [Server.teardownStep, Server.release] }

theorem Inv.abandon (h : s.Inv) {st : Starter} (hst : s.starter = some st) (hc : s.control = some .abandon) :
    (s.abandon st).Inv := by
  obtain ⟨hup, -⟩ := h.control _ hc
  have hempty : (releaseModels s.models st.mine).entries = [] := by
    apply releaseModels_empty
    intro p hp
    exact ⟨h.named p hp, (h.starter st hst).2.2.1 p hp⟩
  exact {
    apart := h.apart
    barrier := h.barrier
    stopping := h.stopping
    empty := fun _ _ => hempty
    named := by
      intro p hp
      simp [Server.abandon, Server.release, hempty] at hp
    closed := fun _ => closed_of_empty hempty
    starter := by simp [Server.abandon, Server.release]
    control := by simp [Server.abandon, Server.release] }

theorem Inv.hold (h : s.Inv) (hstep : s.hold = some t) : t.Inv := by
  unfold Server.hold at hstep
  split at hstep
  · cases hstep
  · rename_i name pc hc
    exact h.loadStep hc hstep
  · rename_i name pc hc
    cases hstep
    exact h.unloadStep hc
  · rename_i generation pc hc
    cases hstep
    exact h.teardownStep hc
  · rename_i hc
    obtain ⟨st, hst, rfl⟩ := Option.map_eq_some_iff.mp hstep
    exact h.abandon hst hc

theorem Inv.startScan (h : s.Inv) {cfg : Settings} {r : Option Repository}
    (hstep : s.step cfg (.startScan r) = some t) : t.Inv := by
  simp only [Server.step] at hstep
  split at hstep
  · rename_i generation mine hst
    split at hstep <;> cases hstep
    · exact h.setPc hst (by simp) (by simp) (by simp)
    · rename_i r
      refine (h.setRepository r).setPc hst (by simp) ?_ ?_ <;> cases startupNames cfg r <;> simp
  · cases hstep

theorem Inv.startRaises (h : s.Inv) {cfg : Settings} {st : Starter} (hst : s.starter = some st) {interrupt : Bool}
    (hstep : s.startRaises cfg st interrupt = some t) : t.Inv := by
  unfold Server.startRaises at hstep
  split at hstep <;> cases hstep
  · rename_i hpc
    exact h.setPc hst (by simp [hpc]) (by simp) (by simp)
  · rename_i names hpc
    exact h.setPc hst (by simp [hpc]) (by simp) (by simp)
  · rename_i b names hpc
    refine h.setPc hst (by simp [hpc]) ?_ ?_ <;> unfold skipOrFail <;> split <;> simp
    all_goals split <;> simp

theorem Inv.enterTeardown (h : s.Inv) {cfg : Settings} (hstep : s.step cfg .enterTeardown = some t) : t.Inv := by
  simp only [Server.step] at hstep
  split at hstep
  · rename_i g gs hc hs
    cases hstep
    obtain ⟨hdown, hall⟩ := h.stopping (by simp [hs])
    rw [hs] at hall
    cases hall
    have hup : s.up = false := by
      by_contra hup
      have hnone := (h.barrier (by simpa using hup)).2
      rw [hs] at hnone
      cases hnone
    exact {
      apart := h.apart
      barrier := fun _ => ⟨hdown, rfl⟩
      stopping := by simp
      empty := h.empty
      named := h.named
      closed := h.closed
      starter := h.starter
      control := by
        intro x hx
        cases hx
        exact ⟨hdown, rfl, hup, rfl, by simp⟩ }
  · cases hstep

theorem Inv.enterAbandon (h : s.Inv) {cfg : Settings} (hstep : s.step cfg .enterAbandon = some t) : t.Inv := by
  simp only [Server.step] at hstep
  split at hstep
  · rename_i generation mine tearing hc hst
    split at hstep <;> cases hstep
    obtain ⟨-, hstarted, -, hunw, -⟩ := h.starter _ hst
    refine h.setControl fun x hx => ?_
    cases hx
    exact ⟨by simp [up, hstarted, hunw tearing rfl], _, tearing, hst, rfl⟩
  · cases hstep

theorem Inv.holdScan (h : s.Inv) {cfg : Settings} {r : Option Repository}
    (hstep : s.step cfg (.holdScan r) = some t) : t.Inv := by
  simp only [Server.step] at hstep
  split at hstep
  · rename_i name generation hc
    obtain ⟨hdown, hnone, -⟩ := h.control _ hc (by simp)
    split at hstep <;> cases hstep
    · exact h.release
    · rename_i r
      refine (h.setRepository r).setControl fun x hx => ?_
      cases hx
      refine fun _ => ⟨hdown, hnone, fun b heq => ?_⟩
      cases heq
      trivial
  · cases hstep

theorem Inv.step (h : s.Inv) {cfg : Settings} {e : Event} (hstep : s.step cfg e = some t) : t.Inv := by
  cases e with
  | start =>
    simp only [Server.step] at hstep
    split at hstep <;> cases hstep
    rename_i hnone
    exact h.beginStart hnone
  | startScan r => exact h.startScan hstep
  | startStep =>
    obtain ⟨st, hst, ht⟩ := Option.bind_eq_some_iff.mp hstep
    exact h.startStep hst ht
  | startRaises interrupt =>
    obtain ⟨st, hst, ht⟩ := Option.bind_eq_some_iff.mp hstep
    exact h.startRaises hst ht
  | stop =>
    cases hstep
    exact h.stopRun none
  | call c =>
    cases hstep
    split
    · exact h.setWaiting _
    · exact h
  | enter i =>
    simp only [Server.step] at hstep
    split at hstep
    · obtain ⟨c, -, rfl⟩ := Option.map_eq_some_iff.mp hstep
      refine (h.setWaiting (s.waiting.eraseIdx i)).setControl (c := some (Call.holder c)) fun x hx => ?_
      cases hx
      cases c <;> exact fun hne => absurd rfl hne
    · cases hstep
  | enterTeardown => exact h.enterTeardown hstep
  | enterAbandon => exact h.enterAbandon hstep
  | hold => exact h.hold hstep
  | holdScan r => exact h.holdScan hstep
  | holdRaises =>
    simp only [Server.step] at hstep
    split at hstep <;> cases hstep <;> exact h.release
  | index r =>
    cases hstep
    split
    · exact h.setRepository _
    · exact h

end Server

theorem inv_reachable {cfg : Settings} {s : Server} (h : (machine cfg).Reachable s) : s.Inv := by
  refine h.invariant (I := Server.Inv) ?_ ?_
  · rintro s rfl
    exact Server.inv_init
  · intro s e t hs hst
    exact hs.step hst

theorem imageSpec_named : "images" ≠ "" := by decide

def imageSpec : TensorSpec :=
  { name := "images", dtype := .fp32, shape := [4], named := imageSpec_named, extents := by decide }

theorem boxSpec_named : "boxes" ≠ "" := by decide

def boxSpec : TensorSpec :=
  { name := "boxes", dtype := .fp32, shape := [4], named := boxSpec_named, extents := by decide }

def detector : ModelConfig where
  name := "detector"
  platform := "tensorrt"
  inputs := [imageSpec]
  outputs := [boxSpec]
  coherent := by decide
  nonEmpty := by decide
  distinct := by decide

def tracker : ModelConfig where
  name := "tracker"
  platform := "ensemble"
  inputs := [imageSpec]
  outputs := [boxSpec]
  ensemble := some [{ model := "detector" }]
  coherent := by decide
  nonEmpty := by decide
  distinct := by decide

def trackingRepository : Repository := Dict.empty.update [("detector", detector), ("tracker", tracker)]

/-- The detector fails a start that is not strict and the ensemble with it. Both are loaded
by hand, and the detector's unload is refused. -/
def detectorByHand : List Event :=
  [.start, .startScan (some trackingRepository), .startStep, .startStep, .startRaises false, .startStep, .startStep,
    .startStep, .startStep, .call (.load "detector"), .call (.load "tracker"), .call (.unload "detector"),
    .enter 0, .hold, .hold, .hold, .holdScan (some trackingRepository), .hold, .hold, .hold,
    .enter 0, .hold, .hold, .hold, .holdScan (some trackingRepository), .hold, .hold, .hold, .hold,
    .enter 0, .hold, .hold, .hold]

def byHand : Settings :=
  { explicit := true, loadAllModels := true, startupModels := ["tracker", "detector"], strictStartup := false }

/-- The state the script leads to. -/
def afterUnload : Server := (detectorByHand.foldlM (Server.step byHand) {}).getD {}

theorem afterUnload_reachable : (machine byHand).Reachable afterUnload :=
  Machine.reachable_foldlM (f := Server.step byHand) (fun _ _ _ h => h) detectorByHand (.init rfl) (by decide +kernel)

end ShipInfer.Engine.Control
