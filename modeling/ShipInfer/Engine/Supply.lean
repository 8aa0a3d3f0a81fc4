import Mathlib
import ShipInfer.Engine.Progress

/-!
# What a step of an ensemble finds in the namespace

The walk of `_validate_graph` lets a step with some condition read what any conditional
step writes, and what an optional input or output may leave out. Whether a step can be
without a tensor is a matter of which steps run together: of the courses that the
conditions allow.
-/

namespace ShipInfer.Engine

/-! ## What the walk records -/

/-- The plan of a step, for the config of its model. -/
structure Planned (step : EnsembleStep) (config : ModelConfig) (plan : StepPlan) : Prop where
  same : plan.step = step
  reads : ∀ spec ∈ config.inputs, step.source spec.name ∈ plan.reads
  guard : ∀ c, step.guard = some c → c ∈ plan.reads
  writes : ∀ name, name ∈ plan.writes ↔ ∃ spec ∈ config.outputs, step.target spec.name = name

namespace Wiring

theorem checkInput_ok {w : Wiring} {index : Nat} {step : EnsembleStep} {reads reads' : List String} {spec : TensorSpec}
    (h : w.checkInput index step reads spec = .ok reads') : reads' = reads.insert (step.source spec.name) := by
  unfold checkInput at h
  dsimp only at h
  split at h
  · split at h
    · exact (Except.ok.inj h).symm
    · cases h
  · split at h
    · cases h
    split at h
    · cases h
    split at h
    · cases h
    · exact (Except.ok.inj h).symm

theorem checkInputs_ok {w : Wiring} {index : Nat} {step : EnsembleStep} : ∀ {specs : List TensorSpec}
    {reads reads' : List String}, specs.foldlM (w.checkInput index step) reads = .ok reads' →
      reads ⊆ reads' ∧ ∀ spec ∈ specs, step.source spec.name ∈ reads'
  | [], reads, reads', h => by
    cases h
    exact ⟨List.Subset.refl _, by simp⟩
  | spec :: specs, reads, reads', h => by
    rw [List.foldlM_cons] at h
    obtain ⟨reads₁, hone, hrest⟩ := bind_ok.mp h
    obtain rfl := checkInput_ok hone
    obtain ⟨hsub, hall⟩ := checkInputs_ok hrest
    refine ⟨fun name hname => hsub (List.mem_insert_of_mem hname), fun s hs => ?_⟩
    rcases List.mem_cons.mp hs with rfl | hs
    · exact hsub List.mem_insert_self
    · exact hall s hs

theorem checkCondition_ok {w : Wiring} {index : Nat} {step : EnsembleStep} {reads reads' : List String}
    (h : w.checkCondition index step reads = .ok reads') : reads ⊆ reads' ∧ ∀ c, step.guard = some c → c ∈ reads' := by
  unfold checkCondition at h
  split at h
  · rename_i hnone
    cases h
    exact ⟨List.Subset.refl _, fun c hc => by simp [hnone] at hc⟩
  · rename_i condition hsome
    split at h
    · cases h
      refine ⟨fun name hname => List.mem_insert_of_mem hname, fun c hc => ?_⟩
      obtain rfl : condition = c := by simpa [hsome] using hc
      exact List.mem_insert_self
    · cases h

theorem addOutput_ok {step : EnsembleStep} {r r' : Wiring × List String} {spec : TensorSpec}
    (h : addOutput step r spec = .ok r') : r'.2 = r.2.insert (step.target spec.name) := by
  obtain ⟨renamed, -, h⟩ := bind_ok.mp h
  cases h
  rfl

theorem addOutputs_ok {step : EnsembleStep} : ∀ {specs : List TensorSpec} {r r' : Wiring × List String},
    specs.foldlM (addOutput step) r = .ok r' →
      ∀ name, name ∈ r'.2 ↔ name ∈ r.2 ∨ ∃ spec ∈ specs, step.target spec.name = name
  | [], r, r', h, name => by
    cases h
    simp
  | spec :: specs, r, r', h, name => by
    rw [List.foldlM_cons] at h
    obtain ⟨r₁, hone, hrest⟩ := bind_ok.mp h
    rw [addOutputs_ok hrest name, addOutput_ok hone, List.mem_insert_iff, List.exists_mem_cons_iff]
    tauto

theorem addStep_ok {w w' : Wiring} {step : EnsembleStep} {config : ModelConfig} (h : w.addStep step config = .ok w') :
    ∃ plan, w'.plans = w.plans ++ [plan] ∧ Planned step config plan := by
  obtain ⟨reads, hreads, h⟩ := bind_ok.mp h
  obtain ⟨reads', hguard, h⟩ := bind_ok.mp h
  obtain ⟨r, hwrites, h⟩ := bind_ok.mp h
  cases h
  obtain ⟨hsub, hcond⟩ := checkCondition_ok hguard
  refine ⟨_, rfl, rfl, fun spec hspec => hsub ((checkInputs_ok hreads).2 spec hspec), hcond, fun name => ?_⟩
  simpa using addOutputs_ok hwrites name

theorem addSteps_ok : ∀ {l : List (EnsembleStep × ModelConfig)} {w w' : Wiring},
    l.foldlM (fun w p => w.addStep p.1 p.2) w = .ok w' →
      ∃ plans, w'.plans = w.plans ++ plans ∧ List.Forall₂ (fun p plan => Planned p.1 p.2 plan) l plans
  | [], w, w', h => by
    cases h
    exact ⟨[], by simp, .nil⟩
  | p :: l, w, w', h => by
    rw [List.foldlM_cons] at h
    obtain ⟨w₁, hone, hrest⟩ := bind_ok.mp h
    obtain ⟨plan, hplan, hplanned⟩ := addStep_ok hone
    obtain ⟨plans, hplans, hall⟩ := addSteps_ok hrest
    exact ⟨plan :: plans, by rw [hplans, hplan, List.append_assoc]; rfl, .cons hplanned hall⟩

end Wiring

namespace EnsembleGraph

variable {g : EnsembleGraph} {plan : StepPlan}

/-- The config of the model that the step names. -/
def model (g : EnsembleGraph) (plan : StepPlan) : Option ModelConfig := g.models[plan.index]?

theorem planned (h : plan ∈ g.plans) : ∃ config, g.model plan = some config ∧ Planned plan.step config plan := by
  obtain ⟨w, hfold, hclose⟩ := bind_ok.mp g.accepted
  obtain ⟨_, -, hplans⟩ := bind_ok.mp hclose
  obtain ⟨plans, hadded, hall⟩ := Wiring.addSteps_ok hfold
  have hsame : g.plans = plans := by
    rw [← Except.ok.inj hplans, hadded]
    rfl
  obtain ⟨k, hk, rfl⟩ := List.mem_iff_getElem.mp h
  have hindex : g.plans[k].index = k := by
    have hmap : (g.plans.map StepPlan.index)[k]? = (List.range g.plans.length)[k]? := by rw [g.index_plans]
    simpa [hk] using hmap
  have hlength := hall.length_eq
  have hzip : k < (g.config.steps.zip g.models).length := by rw [hlength, ← hsame]; exact hk
  have hone := List.forall₂_iff_get.mp hall |>.2 k hzip (hsame ▸ hk)
  simp only [List.get_eq_getElem, List.getElem_zip] at hone
  have hmodel : k < g.models.length := by
    rw [List.length_zip] at hzip
    omega
  simp only [← hsame] at hone
  refine ⟨g.models[k], ?_, hone.same ▸ hone⟩
  rw [model, hindex, List.getElem?_eq_getElem hmodel]

/-- No step after a reader writes what it reads. -/
theorem not_late (hplan : plan ∈ g.plans) {name : String} (hname : name ∈ plan.reads) {later : StepPlan}
    (hlater : later ∈ g.plans) (hwrites : name ∈ later.writes) : later.index ≤ plan.index := by
  obtain ⟨w, -, hclose⟩ := bind_ok.mp g.accepted
  obtain ⟨_, hchecks, hplans⟩ := bind_ok.mp hclose
  have hplans : w.plans = g.plans := Except.ok.inj hplans
  obtain ⟨_, -, hlate⟩ := bind_ok.mp hchecks
  rw [← hplans] at hplan hlater
  have hcheck := forM_ok_iff.mp (forM_ok_iff.mp hlate plan hplan) name hname
  by_contra hlt
  have hmem : later.index ∈ w.later plan name := by
    refine List.mem_map_of_mem (List.mem_filter.mpr ⟨hlater, ?_⟩)
    simp only [Bool.and_eq_true, decide_eq_true_eq]
    exact ⟨hwrites, by omega⟩
  split at hcheck
  · rename_i hnone
    rw [hnone] at hmem
    exact List.not_mem_nil hmem
  · cases hcheck

theorem eq_of_index {p q : StepPlan} (hp : p ∈ g.plans) (hq : q ∈ g.plans) (h : p.index = q.index) : p = q := by
  have hnodup : (g.plans.map StepPlan.index).Nodup := by
    rw [g.index_plans]
    exact List.nodup_range
  exact List.inj_on_of_nodup_map hnodup hp hq h

/-- A step waits for the earlier ones that write what it reads. -/
theorem mem_waitsOn {earlier : StepPlan} (hearlier : earlier ∈ g.plans) (hlt : earlier.index < plan.index) {name : String}
    (hreads : name ∈ plan.reads) (hwrites : name ∈ earlier.writes) : earlier.index ∈ g.waitsOn plan := by
  refine List.mem_map_of_mem (List.mem_filter.mpr ⟨hearlier, ?_⟩)
  simp only [Bool.and_eq_true, decide_eq_true_eq, List.any_eq_true]
  exact ⟨hlt, name, hreads, hwrites⟩

/-! ## Courses -/

/-- The names that the step must find. -/
def required (g : EnsembleGraph) (plan : StepPlan) : List String :=
  ((g.model plan).elim [] ModelConfig.inputs |>.filter fun spec => !spec.optional).map fun spec => plan.step.source spec.name

/-- The names that are there whenever the step is done. -/
def surely (g : EnsembleGraph) (plan : StepPlan) : List String :=
  ((g.model plan).elim [] ModelConfig.outputs |>.filter fun spec => !spec.optional).map fun spec => plan.step.target spec.name

/-- Steps that are decided, and those of them that run, in one execution: what the conditions can come to. -/
structure Course (g : EnsembleGraph) (decided ran : Nat → Prop) : Prop where
  within : ∀ i, ran i → decided i
  closed : ∀ p ∈ g.plans, decided p.index → ∀ i ∈ g.waitsOn p, decided i
  unguarded : ∀ p ∈ g.plans, decided p.index → p.step.condition = none → ran p.index
  /-- Where a condition holds, its tensor came from somewhere. -/
  guarded : ∀ p ∈ g.plans, ran p.index → ∀ c, p.step.condition = some c → c ≠ "" ∧
    (c ∈ g.config.inputs.map TensorSpec.name ∨ ∃ q ∈ g.plans, q.index < p.index ∧ ran q.index ∧ c ∈ q.writes)
  /-- Two steps with one condition run together, unless the first one changes it. -/
  agreed : ∀ p ∈ g.plans, ∀ q ∈ g.plans, p.index < q.index → decided p.index → decided q.index → ∀ c,
    p.step.condition = some c → q.step.condition = some c → (ran p.index → c ∉ p.writes) → (ran p.index ↔ ran q.index)

/-- The name is there when the step reads it. -/
def Supplies (g : EnsembleGraph) (ran : Nat → Prop) (plan : StepPlan) (name : String) : Prop :=
  (∃ spec ∈ g.config.inputs, spec.name = name ∧ spec.optional = false) ∨
    (∃ p ∈ g.plans, p.index < plan.index ∧ ran p.index ∧ name ∈ g.surely p) ∨
    ∃ p ∈ g.plans, p.index ≤ plan.index ∧ ran p.index ∧ p.step.condition = some name

/-- In every course a step that runs finds what it must. -/
def Covered (g : EnsembleGraph) : Prop := ∀ decided ran, g.Course decided ran → ∀ plan ∈ g.plans, ran plan.index →
  ∀ name ∈ g.required plan, g.Supplies ran plan name

end EnsembleGraph

/-! ## Runs where every step keeps to its config -/

/-- A dispatch meets the config that `start` saw, and what a step returns is what its config declares. -/
def Flight.honest (g : EnsembleGraph) (f : Flight) : Flight.Event → Bool
  | .act k answer =>
    match f.threads[k]?, answer.model with
    | some (.dispatching (plan :: _) _), .ok config => decide (g.model plan = some config)
    | _, _ => true
  | .finish k (.ok outputs) =>
    match f.running[k]? with
    | some plan => (g.model plan).all fun config => decide (validateAgainst outputs config.outputs .output = .ok ())
    | none => true
  | _ => true

def EnsembleState.honest (g : EnsembleGraph) (s : EnsembleState) : EnsembleEvent → Bool
  | .flight i event => (s.flights[i]?).all fun f => f.honest g event
  | _ => true

def honestly (g : EnsembleGraph) (capacity : Nat) : Machine EnsembleState EnsembleEvent :=
  (ensemble g capacity).restrict fun s e => s.honest g e = true

/-! ## The namespace of a request -/

theorem Execution.get?_write {plan : StepPlan} {x : Execution} {output : String × Tensor} {name : String}
    (h : name ≠ plan.step.target output.1) : (x.write plan output).namesp.get? name = x.namesp.get? name := by
  unfold Execution.write
  dsimp only
  split
  · exact Dict.get?_set_ne h
  · rfl

/-- Whatever is written down as written is there. -/
def Execution.Recorded (x : Execution) : Prop :=
  ∀ name, (x.writtenBy.get? name).isSome → (x.namesp.get? name).isSome

theorem Execution.Recorded.write {x : Execution} (h : x.Recorded) (plan : StepPlan) (output : String × Tensor) :
    (x.write plan output).Recorded ∧ ((x.write plan output).namesp.get? (plan.step.target output.1)).isSome ∧
      ∀ name, (x.namesp.get? name).isSome → ((x.write plan output).namesp.get? name).isSome := by
  unfold Execution.write
  dsimp only
  split
  · refine ⟨fun name hname => ?_, by simp, fun name hname => ?_⟩
    · dsimp only at hname ⊢
      rw [Dict.get?_set] at hname ⊢
      split
      · rfl
      · rw [if_neg ‹_›] at hname
        exact h name hname
    · dsimp only
      rw [Dict.get?_set]
      split
      · rfl
      · exact hname
  · rename_i hlater
    refine ⟨h, h _ ?_, fun name hname => hname⟩
    cases hwritten : x.writtenBy.get? (plan.step.target output.1) with
    | none => simp [hwritten] at hlater
    | some k => rfl

theorem Execution.Recorded.writes {plan : StepPlan} : ∀ {l : List (String × Tensor)} {x : Execution}, x.Recorded →
    (l.foldl (Execution.write plan) x).Recorded ∧
      (∀ output ∈ l, ((l.foldl (Execution.write plan) x).namesp.get? (plan.step.target output.1)).isSome) ∧
        ∀ name, (x.namesp.get? name).isSome → ((l.foldl (Execution.write plan) x).namesp.get? name).isSome
  | [], x, h => ⟨h, by simp, fun _ hname => hname⟩
  | output :: l, x, h => by
    obtain ⟨hrecorded, hone, hmore⟩ := h.write plan output
    obtain ⟨hrecorded', hall, hmore'⟩ := @Execution.Recorded.writes plan l _ hrecorded
    refine ⟨hrecorded', fun o ho => ?_, fun name hname => hmore' name (hmore name hname)⟩
    rcases List.mem_cons.mp ho with rfl | ho
    · exact hmore' _ hone
    · exact hall o ho

theorem Execution.get?_writes {plan : StepPlan} {name : String} : ∀ {l : List (String × Tensor)} {x : Execution},
    (∀ output ∈ l, name ≠ plan.step.target output.1) → (l.foldl (write plan) x).namesp.get? name = x.namesp.get? name
  | [], _, _ => rfl
  | output :: l, x, h => by
    rw [List.foldl_cons, get?_writes (fun o ho => h o (List.mem_cons_of_mem _ ho)), get?_write (h _ List.mem_cons_self)]

theorem key_of_valid {tensors : Dict String Tensor} {specs : List TensorSpec} {what : What}
    (hnodup : (specs.map TensorSpec.name).Nodup) (h : validateAgainst tensors specs what = .ok ()) {spec : TensorSpec}
    (hspec : spec ∈ specs) (hrequired : spec.optional = false) : spec.name ∈ tensors.keys := by
  obtain ⟨found, hfound⟩ := Dict.exists_of_mem_keys (@mem_keys_specsByName specs spec .empty (.inl hspec))
  obtain ⟨hmem, hnamed⟩ := entries_specsByName specs _ hfound
  obtain rfl : found = spec := List.inj_on_of_nodup_map hnodup hmem hspec hnamed
  have hcheck := (validateAgainst_ok_iff.mp h).1 found (List.mem_map.mpr ⟨_, hfound, rfl⟩)
  unfold checkPresent at hcheck
  split at hcheck
  · cases hcheck
  · rename_i hthere
    exact Dict.contains_iff.mp (by simpa [hrequired] using hthere)

theorem declared_of_valid {tensors : Dict String Tensor} {specs : List TensorSpec} {what : What}
    (h : validateAgainst tensors specs what = .ok ()) {p : String × Tensor} (hp : p ∈ tensors.entries) :
    ∃ spec ∈ specs, spec.name = p.1 := by
  have hcheck := (validateAgainst_ok_iff.mp h).2 p hp
  unfold checkDeclared at hcheck
  split at hcheck
  · cases hcheck
  · rename_i spec hspec
    obtain ⟨hmem, hnamed⟩ := entries_specsByName _ _ (Dict.get?_eq_some_iff.mp hspec)
    exact ⟨spec, hmem, hnamed⟩

theorem ModelConfig.nodup (config : ModelConfig) :
    (config.inputs.map TensorSpec.name).Nodup ∧ (config.outputs.map TensorSpec.name).Nodup := by
  have hall := config.distinct
  rw [List.map_append] at hall
  exact ⟨(List.nodup_append.mp hall).1, (List.nodup_append.mp hall).2.1⟩

/-- What a step returns that keeps to its config. -/
structure Returns (g : EnsembleGraph) (plan : StepPlan) (outputs : Dict String Tensor) : Prop where
  surely : ∀ name ∈ g.surely plan, ∃ output ∈ outputs.entries, plan.step.target output.1 = name
  writes : ∀ output ∈ outputs.entries, plan.step.target output.1 ∈ plan.writes

theorem returns_of_valid {g : EnsembleGraph} {plan : StepPlan} (hplan : plan ∈ g.plans) {outputs : Dict String Tensor}
    (h : (g.model plan).all fun config => decide (validateAgainst outputs config.outputs .output = .ok ())) :
    Returns g plan outputs := by
  obtain ⟨config, hmodel, hplanned⟩ := g.planned hplan
  simp only [hmodel, Option.all_some, decide_eq_true_eq] at h
  constructor
  · intro name hname
    simp only [EnsembleGraph.surely, hmodel, Option.elim_some, List.mem_map, List.mem_filter] at hname
    obtain ⟨spec, ⟨hspec, hrequired⟩, rfl⟩ := hname
    obtain ⟨tensor, htensor⟩ := Dict.exists_of_mem_keys (key_of_valid config.nodup.2 h hspec (by simpa using hrequired))
    exact ⟨_, htensor, rfl⟩
  · intro output houtput
    obtain ⟨spec, hspec, hnamed⟩ := declared_of_valid h houtput
    exact (hplanned.writes _).mpr ⟨spec, hspec, by rw [hnamed]⟩

/-- What the steps that are done left in the namespace. -/
structure Stocked (g : EnsembleGraph) (x : Execution) (ran : List Nat) (returned : List (StepPlan × Dict String Tensor)) :
    Prop where
  waited : ∀ p ∈ g.plans, p.index ∈ x.started → ∀ i ∈ g.waitsOn p, i ∈ x.finished
  skipped : ∀ p ∈ g.plans, p.index ∈ x.finished → p.index ∉ ran → x.skips p.step = true
  /-- The condition of a step that ran still holds, unless the step itself wrote over it. -/
  held : ∀ p ∈ g.plans, p.index ∈ ran → ∀ c, p.step.condition = some c → c ≠ "" ∧ (x.namesp.get? c).isSome ∧
    (c ∈ g.config.inputs.map TensorSpec.name ∨ ∃ q ∈ g.plans, q.index < p.index ∧ q.index ∈ ran ∧ c ∈ q.writes) ∧
      (c ∉ p.writes → x.skips p.step = false)
  back : ∀ i ∈ x.finished, i ∈ ran → ∃ r ∈ returned, r.1.index = i
  returns : ∀ r ∈ returned, r.1 ∈ g.plans ∧ r.1.index ∈ ran ∧ Returns g r.1 r.2
  recorded : x.Recorded
  inputs : ∀ spec ∈ g.config.inputs, spec.optional = false → (x.namesp.get? spec.name).isSome
  provided : ∀ r ∈ returned, ∀ output ∈ r.2.entries, (x.namesp.get? (r.1.step.target output.1)).isSome
  source : ∀ name, (x.namesp.get? name).isSome →
    name ∈ g.config.inputs.map TensorSpec.name ∨ ∃ r ∈ returned, name ∈ r.1.writes

section
variable {g : EnsembleGraph} {x : Execution} {ran : List Nat} {returned : List (StepPlan × Dict String Tensor)}

theorem skips_congr {x x' : Execution} {step : EnsembleStep}
    (h : ∀ c, step.condition = some c → c ≠ "" → x'.namesp.get? c = x.namesp.get? c) : x'.skips step = x.skips step := by
  unfold Execution.skips
  cases hcondition : step.condition with
  | none => rfl
  | some c =>
    dsimp only
    by_cases hempty : c = ""
    · rw [if_pos hempty, if_pos hempty]
    · rw [if_neg hempty, if_neg hempty, h c hcondition hempty]

theorem of_not_skips {step : EnsembleStep} {c : String} (hcondition : step.condition = some c)
    (h : x.skips step = false) : c ≠ "" ∧ (x.namesp.get? c).isSome ∧ step.guard = some c := by
  unfold Execution.skips at h
  rw [hcondition] at h
  dsimp only at h
  by_cases hempty : c = ""
  · rw [if_pos hempty] at h
    cases h
  · rw [if_neg hempty] at h
    refine ⟨hempty, ?_, by simp [EnsembleStep.guard, hcondition, hempty]⟩
    cases hget : x.namesp.get? c with
    | none =>
      rw [hget] at h
      cases h
    | some tensor => rfl

theorem skips_same {p q : EnsembleStep} (h : p.condition = q.condition) : x.skips p = x.skips q := by
  unfold Execution.skips
  rw [h]

/-- A step that is about to run, with all that was decided before, makes a course. -/
theorem Stocked.course (h : Stocked g x ran returned) {plan : StepPlan} (hplan : plan ∈ g.plans)
    (hstarted : plan.index ∈ x.started) (hnew : plan.index ∉ ran) (hran : ∀ i ∈ ran, i ∈ x.started)
    (hfinished : ∀ i ∈ x.finished, i ∈ x.started) (hskips : x.skips plan.step = false) :
    g.Course (fun i => i ∈ x.finished ∨ i ∈ ran ∨ i = plan.index) (fun i => i ∈ ran ∨ i = plan.index) := by
  have hsource (c : String) (hc : plan.step.condition = some c) : c ∈ g.config.inputs.map TensorSpec.name ∨
      ∃ q ∈ g.plans, q.index < plan.index ∧ q.index ∈ ran ∧ c ∈ q.writes := by
    obtain ⟨-, hthere, hguard⟩ := of_not_skips hc hskips
    refine (h.source c hthere).imp_right fun ⟨r, hr, hwrites⟩ => ?_
    obtain ⟨hmem, hrran, -⟩ := h.returns r hr
    obtain ⟨config, -, hplanned⟩ := g.planned hplan
    have hle := g.not_late hplan (hplanned.guard c hguard) hmem hwrites
    have hne : r.1.index ≠ plan.index := fun heq => hnew (heq ▸ hrran)
    exact ⟨r.1, hmem, by omega, hrran, hwrites⟩
  have hskipped (p : StepPlan) (hp : p ∈ g.plans) (hdecided : p.index ∈ x.finished ∨ p.index ∈ ran ∨ p.index = plan.index)
      (hnot : ¬(p.index ∈ ran ∨ p.index = plan.index)) : x.skips p.step = true :=
    h.skipped p hp (hdecided.resolve_right hnot) fun hpran => hnot (.inl hpran)
  have hheld (p : StepPlan) (hp : p ∈ g.plans) (hpran : p.index ∈ ran ∨ p.index = plan.index) (c : String)
      (hc : p.step.condition = some c) : c ≠ "" ∧ (c ∉ p.writes → x.skips p.step = false) := by
    rcases hpran with hpran | heq
    · obtain ⟨hne, -, -, hkeeps⟩ := h.held p hp hpran c hc
      exact ⟨hne, hkeeps⟩
    · obtain rfl := g.eq_of_index hp hplan heq
      exact ⟨(of_not_skips hc hskips).1, fun _ => hskips⟩
  refine ⟨fun i hi => .inr hi, fun p hp hdecided i hi => .inl (h.waited p hp ?_ i hi), fun p hp hdecided hnone => ?_,
    fun p hp hpran c hc => ?_, fun p hp q hq hlt hdecided hdecided' c hc hc' hkeeps => ?_⟩
  · rcases hdecided with hdone | hpran | heq
    · exact hfinished _ hdone
    · exact hran _ hpran
    · rw [heq]
      exact hstarted
  · by_contra hnot
    have hskips := hskipped p hp hdecided hnot
    simp [Execution.skips, hnone] at hskips
  · refine ⟨(hheld p hp hpran c hc).1, ?_⟩
    have hfrom : c ∈ g.config.inputs.map TensorSpec.name ∨ ∃ q ∈ g.plans, q.index < p.index ∧ q.index ∈ ran ∧ c ∈ q.writes := by
      rcases hpran with hpran | heq
      · exact (h.held p hp hpran c hc).2.2.1
      · obtain rfl := g.eq_of_index hp hplan heq
        exact hsource c hc
    exact hfrom.imp_right fun ⟨q, hq, hlt, hqran, hwrites⟩ => ⟨q, hq, hlt, .inl hqran, hwrites⟩
  · have hsame : x.skips p.step = x.skips q.step := skips_same (hc.trans hc'.symm)
    constructor
    · intro hpran
      by_contra hnot
      have htrue := hskipped q hq hdecided' hnot
      rw [← hsame, (hheld p hp hpran c hc).2 (hkeeps hpran)] at htrue
      cases htrue
    · intro hqran
      by_contra hnot
      have htrue := hskipped p hp hdecided hnot
      obtain ⟨hne, hkept⟩ := hheld q hq hqran c hc'
      -- What the earlier step reads no later one writes.
      have hclean : c ∉ q.writes := fun hwrites => by
        obtain ⟨config, -, hplanned⟩ := g.planned hp
        have hle := g.not_late hp (hplanned.guard c (by simp [EnsembleStep.guard, hc, hne])) hq hwrites
        omega
      rw [hsame, hkept hclean] at htrue
      cases htrue

/-- Where the graph is covered, what a step must find is there when it is about to run. -/
theorem Stocked.found (h : Stocked g x ran returned) (hcovered : g.Covered) {plan : StepPlan} (hplan : plan ∈ g.plans)
    (hstarted : plan.index ∈ x.started) (hnew : plan.index ∉ ran) (hran : ∀ i ∈ ran, i ∈ x.started)
    (hfinished : ∀ i ∈ x.finished, i ∈ x.started) (hskips : x.skips plan.step = false) {name : String}
    (hname : name ∈ g.required plan) : (x.namesp.get? name).isSome := by
  have hcourse := h.course hplan hstarted hnew hran hfinished hskips
  obtain ⟨config, hmodel, hplanned⟩ := g.planned hplan
  have hreads : name ∈ plan.reads := by
    simp only [EnsembleGraph.required, hmodel, Option.elim_some, List.mem_map, List.mem_filter] at hname
    obtain ⟨spec, ⟨hspec, -⟩, rfl⟩ := hname
    exact hplanned.reads spec hspec
  rcases hcovered _ _ hcourse plan hplan (.inr rfl) name hname with ⟨spec, hspec, rfl, hrequired⟩ |
    ⟨p, hp, hlt, hpran, hsurely⟩ | ⟨p, hp, -, hpran, hcondition⟩
  · exact h.inputs spec hspec hrequired
  · have hpran : p.index ∈ ran := hpran.resolve_right (by omega)
    obtain ⟨pconfig, hpmodel, hpplanned⟩ := g.planned hp
    have hwrites : name ∈ p.writes := by
      simp only [EnsembleGraph.surely, hpmodel, Option.elim_some, List.mem_map, List.mem_filter] at hsurely
      obtain ⟨spec, ⟨hspec, -⟩, rfl⟩ := hsurely
      exact (hpplanned.writes _).mpr ⟨spec, hspec, rfl⟩
    have hdone := h.waited plan hplan hstarted _ (g.mem_waitsOn hp hlt hreads hwrites)
    obtain ⟨r, hr, hindex⟩ := h.back _ hdone hpran
    obtain ⟨hrmem, -, hreturns⟩ := h.returns r hr
    obtain rfl := g.eq_of_index hrmem hp hindex
    obtain ⟨output, houtput, rfl⟩ := hreturns.surely name hsurely
    exact h.provided r hr output houtput
  · rcases hpran with hpran | heq
    · exact (h.held p hp hpran name hcondition).2.1
    · obtain rfl := g.eq_of_index hp hplan heq
      exact (of_not_skips hcondition hskips).2.1

/-! ### What changes it -/

theorem Stocked.take (h : Stocked g x ran returned) : Stocked g
    { x with started := x.started ++ (x.ready g).map StepPlan.index } ran returned := by
  refine ⟨fun p hp hstarted => ?_, h.skipped, h.held, h.back, h.returns, h.recorded, h.inputs, h.provided, h.source⟩
  rcases List.mem_append.mp hstarted with hstarted | hstarted
  · exact h.waited p hp hstarted
  · obtain ⟨q, hq, hindex⟩ := List.mem_map.mp hstarted
    obtain ⟨hmem, -, hwaits⟩ := mem_ready.mp hq
    obtain rfl := g.eq_of_index hmem hp hindex
    exact hwaits

theorem Stocked.launch (h : Stocked g x ran returned) {plan : StepPlan} (hplan : plan ∈ g.plans)
    (hstarted : plan.index ∈ x.started) (hnew : plan.index ∉ ran) (hundone : plan.index ∉ x.finished)
    (hran : ∀ i ∈ ran, i ∈ x.started) (hfinished : ∀ i ∈ x.finished, i ∈ x.started)
    (hskips : x.skips plan.step = false) : Stocked g x (ran ++ [plan.index]) returned := by
  have hcourse := h.course hplan hstarted hnew hran hfinished hskips
  refine ⟨h.waited, fun p hp hdone hnot => ?_, fun p hp hpran c hc => ?_, fun i hi hiran => ?_, fun r hr => ?_,
    h.recorded, h.inputs, h.provided, h.source⟩
  · exact h.skipped p hp hdone fun hpran => hnot (List.mem_append_left _ hpran)
  · have hpran : p.index ∈ ran ∨ p.index = plan.index := by simpa using hpran
    obtain ⟨hne, hfrom⟩ := hcourse.guarded p hp hpran c hc
    have hthere : (x.namesp.get? c).isSome ∧ (c ∉ p.writes → x.skips p.step = false) := by
      rcases hpran with hpran | heq
      · obtain ⟨-, hthere, -, hkeeps⟩ := h.held p hp hpran c hc
        exact ⟨hthere, hkeeps⟩
      · obtain rfl := g.eq_of_index hp hplan heq
        exact ⟨(of_not_skips hc hskips).2.1, fun _ => hskips⟩
    exact ⟨hne, hthere.1, by simpa using hfrom, hthere.2⟩
  · rcases List.mem_append.mp hiran with hiran | hiran
    · exact h.back i hi hiran
    · rw [List.mem_singleton.mp hiran] at hi
      exact absurd hi hundone
  · obtain ⟨hmem, hrran, hreturns⟩ := h.returns r hr
    exact ⟨hmem, List.mem_append_left _ hrran, hreturns⟩

theorem Stocked.skip (h : Stocked g x ran returned) {plan : StepPlan} (hplan : plan ∈ g.plans) (hnew : plan.index ∉ ran)
    (hskips : x.skips plan.step = true) : Stocked g { x with finished := x.finished ++ [plan.index] } ran returned := by
  refine ⟨fun p hp hstarted i hi => List.mem_append_left _ (h.waited p hp hstarted i hi), fun p hp hdone hnot => ?_,
    h.held, fun i hi hiran => ?_, h.returns, h.recorded, h.inputs, h.provided, h.source⟩
  · rcases List.mem_append.mp hdone with hdone | hdone
    · exact h.skipped p hp hdone hnot
    · obtain rfl := g.eq_of_index hp hplan (List.mem_singleton.mp hdone)
      exact hskips
  · rcases List.mem_append.mp hi with hi | hi
    · exact h.back i hi hiran
    · rw [List.mem_singleton.mp hi] at hiran
      exact absurd hiran hnew

/-- What a step returns does not reach the condition of another that was started. -/
theorem Stocked.steady (h : Stocked g x ran returned) {plan : StepPlan} {outputs : Dict String Tensor}
    (hplan : plan ∈ g.plans) (hundone : plan.index ∉ x.finished) (hreturns : Returns g plan outputs) {p : StepPlan}
    (hp : p ∈ g.plans) (hstarted : p.index ∈ x.started)
    (hself : p.index = plan.index → ∀ c, p.step.condition = some c → c ∉ p.writes) :
    (x.stepDone plan outputs).skips p.step = x.skips p.step := by
  refine skips_congr fun c hc hne => Execution.get?_writes fun output houtput heq => ?_
  have hwrites : c ∈ plan.writes := heq ▸ hreturns.writes output houtput
  obtain ⟨config, -, hplanned⟩ := g.planned hp
  have hreads := hplanned.guard c (by simp [EnsembleStep.guard, hc, hne])
  rcases Nat.lt_or_eq_of_le (g.not_late hp hreads hplan hwrites) with hlt | hindex
  · exact hundone (h.waited p hp hstarted _ (g.mem_waitsOn hplan hlt hreads hwrites))
  · obtain rfl := g.eq_of_index hp hplan hindex.symm
    exact hself rfl c hc hwrites

theorem Stocked.stepDone (h : Stocked g x ran returned) {plan : StepPlan} {outputs : Dict String Tensor}
    (hplan : plan ∈ g.plans) (hpran : plan.index ∈ ran) (hundone : plan.index ∉ x.finished)
    (hreturns : Returns g plan outputs) (hran : ∀ i ∈ ran, i ∈ x.started) (hfinished : ∀ i ∈ x.finished, i ∈ x.started) :
    Stocked g (x.stepDone plan outputs) ran (returned ++ [(plan, outputs)]) := by
  obtain ⟨-, hstarted, hdone⟩ := Flight.stepDone_rest plan outputs x
  obtain ⟨hrecorded, hall, hmore⟩ := @Execution.Recorded.writes plan outputs.entries x h.recorded
  refine ⟨fun p hp hpstarted i hi => ?_, fun p hp hpdone hnot => ?_, fun p hp hp' c hc => ?_, fun i hi hiran => ?_,
    fun r hr => ?_, hrecorded, fun spec hspec hrequired => hmore _ (h.inputs spec hspec hrequired),
    fun r hr output houtput => ?_, fun name hname => ?_⟩
  · rw [hstarted] at hpstarted
    rw [hdone]
    exact List.mem_append_left _ (h.waited p hp hpstarted i hi)
  · rw [hdone] at hpdone
    rcases List.mem_append.mp hpdone with hpdone | hpdone
    · rw [h.steady hplan hundone hreturns hp (hfinished _ hpdone) fun heq => absurd (heq ▸ hpran) hnot]
      exact h.skipped p hp hpdone hnot
    · rw [List.mem_singleton.mp hpdone] at hnot
      exact absurd hpran hnot
  · obtain ⟨hne, hthere, hfrom, hkeeps⟩ := h.held p hp hp' c hc
    refine ⟨hne, hmore c hthere, hfrom, fun hclean => ?_⟩
    rw [h.steady hplan hundone hreturns hp (hran _ hp') fun _ c' hc' => ?_]
    · exact hkeeps hclean
    · obtain rfl : c = c' := Option.some.inj (hc.symm.trans hc')
      exact hclean
  · rw [hdone] at hi
    rcases List.mem_append.mp hi with hi | hi
    · obtain ⟨r, hr, hindex⟩ := h.back i hi hiran
      exact ⟨r, List.mem_append_left _ hr, hindex⟩
    · exact ⟨(plan, outputs), by simp, (List.mem_singleton.mp hi).symm⟩
  · rcases List.mem_append.mp hr with hr | hr
    · exact h.returns r hr
    · rw [List.mem_singleton.mp hr]
      exact ⟨hplan, hpran, hreturns⟩
  · rcases List.mem_append.mp hr with hr | hr
    · exact hmore _ (h.provided r hr output houtput)
    · rw [List.mem_singleton.mp hr] at houtput ⊢
      exact hall output houtput
  · by_cases hnew : ∃ output ∈ outputs.entries, name = plan.step.target output.1
    · obtain ⟨output, houtput, rfl⟩ := hnew
      exact .inr ⟨(plan, outputs), by simp, hreturns.writes output houtput⟩
    · have hsame := @Execution.get?_writes plan name outputs.entries x fun output houtput heq => hnew ⟨output, houtput, heq⟩
      have hold := h.source name (hsame ▸ hname)
      exact hold.imp_right fun ⟨r, hr, hwrites⟩ => ⟨r, List.mem_append_left _ hr, hwrites⟩

end

/-! ## What the threads of a request hold -/

/-- The plans that a thread has claimed and not yet looked at. -/
def Thread.todo : Thread → List StepPlan
  | .dispatching todo _ | .skipping _ todo => todo
  | _ => []

namespace Flight

/-- Every started step is in one place, and was one. -/
structure Accounts (g : EnsembleGraph) (f : Flight) : Prop where
  hands : ∀ i, (f.threads.flatMap Thread.hand).count i + f.ran.count i ≤ f.execution.started.count i
  undone : ∀ i, (f.threads.flatMap Thread.hand).count i + f.execution.finished.count i +
    (f.running.map StepPlan.index).count i ≤ f.execution.started.count i
  todo : ∀ t ∈ f.threads, ∀ plan ∈ t.todo, plan ∈ g.plans
  skipping : ∀ index todo, .skipping index todo ∈ f.threads →
    ∃ plan ∈ g.plans, plan.index = index ∧ f.execution.skips plan.step = true
  running : ∀ plan ∈ f.running, plan ∈ g.plans ∧ plan.index ∈ f.ran

section
variable {g : EnsembleGraph} {f f' : Flight}

theorem Accounts.ran_started (h : Accounts g f) : ∀ i ∈ f.ran, i ∈ f.execution.started := by
  intro i hi
  have hcount := h.hands i
  have hpos := List.count_pos_iff.mpr hi
  exact List.count_pos_iff.mp (by omega)

theorem Accounts.finished_started (h : Accounts g f) : ∀ i ∈ f.execution.finished, i ∈ f.execution.started := by
  intro i hi
  have hcount := h.undone i
  have hpos := List.count_pos_iff.mpr hi
  exact List.count_pos_iff.mp (by omega)

/-- A step in the hands of a thread is started, and neither ran nor is done. -/
theorem Accounts.of_hand (h : Accounts g f) (hnodup : f.execution.started.Nodup) {t : Thread} (ht : t ∈ f.threads) {i : Nat}
    (hi : i ∈ t.hand) : i ∈ f.execution.started ∧ i ∉ f.ran ∧ i ∉ f.execution.finished := by
  have hpos := List.count_pos_iff.mpr (List.mem_flatMap.mpr ⟨t, ht, hi⟩)
  have hone := List.nodup_iff_count_le_one.mp hnodup i
  have hhands := h.hands i
  have hundone := h.undone i
  refine ⟨List.count_pos_iff.mp (by omega), fun hran => ?_, fun hdone => ?_⟩
  · have := List.count_pos_iff.mpr hran
    omega
  · have := List.count_pos_iff.mpr hdone
    omega

/-- A step that runs is not done. -/
theorem Accounts.of_running (h : Accounts g f) (hnodup : f.execution.started.Nodup) {plan : StepPlan}
    (hplan : plan ∈ f.running) : plan.index ∉ f.execution.finished := by
  intro hdone
  have hpos := List.count_pos_iff.mpr (List.mem_map_of_mem (f := StepPlan.index) hplan)
  have hone := List.nodup_iff_count_le_one.mp hnodup plan.index
  have hundone := h.undone plan.index
  have := List.count_pos_iff.mpr hdone
  omega

/-- A turn of one thread. -/
theorem Accounts.turn (h : Accounts g f) {t : Thread} {rest more : List Thread} {f₁ : Flight}
    (hperm : f.threads.Perm (t :: rest)) (hnamesp : f₁.execution.namesp = f.execution.namesp)
    (hhands : ∀ i, (more.flatMap Thread.hand).count i + f₁.ran.count i + f.execution.started.count i ≤
      t.hand.count i + f.ran.count i + f₁.execution.started.count i)
    (hundone : ∀ i, (more.flatMap Thread.hand).count i + f₁.execution.finished.count i +
        (f₁.running.map StepPlan.index).count i + f.execution.started.count i ≤
      t.hand.count i + f.execution.finished.count i + (f.running.map StepPlan.index).count i +
        f₁.execution.started.count i)
    (htodo : ∀ x ∈ more, ∀ plan ∈ x.todo, plan ∈ g.plans)
    (hskipping : ∀ index todo, .skipping index todo ∈ more →
      ∃ plan ∈ g.plans, plan.index = index ∧ f.execution.skips plan.step = true)
    (hrunning : ∀ plan ∈ f₁.running, plan ∈ g.plans ∧ plan.index ∈ f₁.ran) :
    Accounts g { f₁ with threads := rest ++ more } := by
  have hold (i : Nat) : (f.threads.flatMap Thread.hand).count i = t.hand.count i + (rest.flatMap Thread.hand).count i := by
    rw [(hperm.flatMap_right Thread.hand).count_eq, List.flatMap_cons, List.count_append]
  have hskips (step : EnsembleStep) : f₁.execution.skips step = f.execution.skips step :=
    skips_congr fun c _ _ => by rw [hnamesp]
  refine ⟨fun i => ?_, fun i => ?_, fun x hx => ?_, fun index todo hmem => ?_, hrunning⟩
  · have := h.hands i
    have := hhands i
    have := hold i
    simp only [List.flatMap_append, List.count_append]
    omega
  · have := h.undone i
    have := hundone i
    have := hold i
    simp only [List.flatMap_append, List.count_append]
    omega
  · rcases List.mem_append.mp hx with hx | hx
    · exact h.todo x (hperm.mem_iff.mpr (List.mem_cons_of_mem _ hx))
    · exact htodo x hx
  · simp only [hskips]
    rcases List.mem_append.mp hmem with hmem | hmem
    · exact h.skipping index todo (hperm.mem_iff.mpr (List.mem_cons_of_mem _ hmem))
    · exact hskipping index todo hmem

theorem todo_of_hand {t : Thread} (h : t.hand = []) : t.todo = [] ∧ ∀ index todo, t ≠ .skipping index todo := by
  cases t with
  | dispatching todo progressed => exact ⟨List.map_eq_nil_iff.mp h, by simp⟩
  | skipping index todo => cases h
  | _ => exact ⟨rfl, by simp⟩

/-- A turn that moves no step. -/
theorem Accounts.plain (h : Accounts g f) {t : Thread} {rest more : List Thread} {f₁ : Flight}
    (hperm : f.threads.Perm (t :: rest)) (hexecution : f₁.execution = f.execution) (hran : f₁.ran = f.ran)
    (hrunning : f₁.running = f.running) (hmore : ∀ x ∈ more, x.hand = []) :
    Accounts g { f₁ with threads := rest ++ more } := by
  have hnone : more.flatMap Thread.hand = [] := List.flatMap_eq_nil_iff.mpr hmore
  refine h.turn hperm (by rw [hexecution]) (fun i => ?_) (fun i => ?_) (fun x hx plan hplan => ?_)
    (fun index todo hmem => ?_) (by rw [hrunning, hran]; exact h.running)
  · rw [hnone, hran, hexecution, List.count_nil]
    omega
  · rw [hnone, hexecution, hrunning, List.count_nil]
    omega
  · rw [(todo_of_hand (hmore x hx)).1] at hplan
    exact absurd hplan List.not_mem_nil
  · exact absurd rfl ((todo_of_hand (hmore _ hmem)).2 index todo)

/-- Until a request is settled, its steps and its namespace are accounted for. -/
def Stock (g : EnsembleGraph) (f : Flight) : Prop :=
  f.execution.settled = false → Accounts g f ∧ Stocked g f.execution f.ran f.returned

theorem Stock.act (h : Stock g f) (hterminal : Terminal f) (hprogress : Progress g f) {answer : Answer} {t : Thread}
    {rest : List Thread} {f₁ : Flight} {t' : Option Thread} (hperm : f.threads.Perm (t :: rest))
    (hacts : Acts g f answer t f₁ t') : Stock g { f₁ with threads := rest ++ t'.toList } := by
  intro hs
  have ht : t ∈ f.threads := hperm.mem_iff.mpr List.mem_cons_self
  cases hacts with
  | take _ _ =>
    obtain ⟨haccounts, hstocked⟩ := h hs
    refine ⟨haccounts.turn hperm rfl (fun i => ?_) (fun i => ?_) ?_ (by simp) haccounts.running, hstocked.take⟩
    · simp [Thread.hand]
      omega
    · simp [Thread.hand]
      omega
    · simp only [Option.toList_some, List.mem_singleton, forall_eq]
      exact fun plan hplan => (mem_ready.mp hplan).1
  | @skip plan todo progressed _ hskips =>
    obtain ⟨haccounts, hstocked⟩ := h hs
    have hmem := haccounts.todo _ ht plan List.mem_cons_self
    refine ⟨haccounts.turn hperm rfl (fun i => ?_) (fun i => ?_) ?_ ?_ haccounts.running, hstocked⟩
    · simp [Thread.hand]
    · simp [Thread.hand]
    · simp only [Option.toList_some, List.mem_singleton, forall_eq]
      exact fun p hp => haccounts.todo _ ht p (List.mem_cons_of_mem _ hp)
    · intro index todo' hmem'
      obtain ⟨rfl, rfl⟩ : index = plan.index ∧ todo' = todo := by simpa using hmem'
      exact ⟨plan, hmem, rfl, hskips⟩
  | @launch plan todo progressed config inputs _ hskips _ _ =>
    obtain ⟨haccounts, hstocked⟩ := h hs
    have hmem := haccounts.todo _ ht plan List.mem_cons_self
    obtain ⟨hstarted, hnew, hundone⟩ := haccounts.of_hand hprogress.nodup ht (i := plan.index) (by simp [Thread.hand])
    refine ⟨haccounts.turn hperm rfl (fun i => ?_) (fun i => ?_) ?_ (by simp) fun p hp => ?_, ?_⟩
    · simp [Thread.hand, List.count_cons]
      omega
    · simp [Thread.hand, List.count_cons]
      omega
    · simp only [Option.toList_some, List.mem_singleton, forall_eq]
      exact fun p hp => haccounts.todo _ ht p (List.mem_cons_of_mem _ hp)
    · rcases List.mem_append.mp hp with hp | hp
      · obtain ⟨hmem', hran⟩ := haccounts.running p hp
        exact ⟨hmem', List.mem_append_left _ hran⟩
      · rw [List.mem_singleton.mp hp]
        exact ⟨hmem, by simp⟩
    · exact hstocked.launch hmem hstarted hnew hundone haccounts.ran_started haccounts.finished_started hskips
  | @skipped index todo =>
    obtain ⟨haccounts, hstocked⟩ := h hs
    obtain ⟨plan, hmem, rfl, hskips⟩ := haccounts.skipping index todo ht
    obtain ⟨-, hnew, -⟩ := haccounts.of_hand hprogress.nodup ht (i := plan.index) (by simp [Thread.hand])
    refine ⟨haccounts.turn hperm rfl (fun i => ?_) (fun i => ?_) ?_ (by simp) haccounts.running, ?_⟩
    · simp [Thread.hand, List.count_cons]
    · simp [Thread.hand, List.count_cons]
      omega
    · simp only [Option.toList_some, List.mem_singleton, forall_eq]
      exact fun p hp => haccounts.todo _ ht p hp
    · exact hstocked.skip hmem hnew hskips
  | left hsettled | late' hsettled | drop hsettled | beaten hsettled => exact absurd (hsettled.symm.trans hs) (by simp)
  | claim _ => cases hs
  | discard => exact absurd ((hterminal.owner hperm (by simp)).1.symm.trans hs) (by simp)
  | release => exact absurd ((hterminal.owner hperm (by simp)).1.symm.trans hs) (by simp)
  | @settle outcome next =>
    obtain ⟨future, settlements, heq⟩ := settle_spec (f := f) outcome
    rw [heq] at hs
    exact absurd ((hterminal.owner hperm (by simp)).1.symm.trans hs) (by simp)
  | _ => exact ⟨(h hs).1.plain hperm rfl rfl rfl (by simp [Thread.hand, failing]), (h hs).2⟩

/-- What adds threads that hold no step, and moves none that a thread holds. -/
theorem Accounts.more (h : Accounts g f) {more : List Thread} (hthreads : f'.threads = f.threads ++ more)
    (hmore : ∀ x ∈ more, x.hand = []) (hran : f'.ran = f.ran) (hstarted : f'.execution.started = f.execution.started)
    (hundone : ∀ i, f'.execution.finished.count i + (f'.running.map StepPlan.index).count i ≤
      f.execution.finished.count i + (f.running.map StepPlan.index).count i)
    (hskips : ∀ t ∈ f.threads, ∀ p ∈ g.plans, p.index ∈ t.hand → f'.execution.skips p.step = f.execution.skips p.step)
    (hrunning : f'.running ⊆ f.running) : Accounts g f' := by
  have hnone : more.flatMap Thread.hand = [] := List.flatMap_eq_nil_iff.mpr hmore
  have hhands : f'.threads.flatMap Thread.hand = f.threads.flatMap Thread.hand := by
    rw [hthreads, List.flatMap_append, hnone, List.append_nil]
  refine ⟨fun i => ?_, fun i => ?_, fun x hx plan hplan => ?_, fun index todo hmem => ?_, fun plan hplan => ?_⟩
  · rw [hhands, hran, hstarted]
    exact h.hands i
  · have := h.undone i
    have := hundone i
    rw [hhands, hstarted]
    omega
  · rw [hthreads] at hx
    rcases List.mem_append.mp hx with hx | hx
    · exact h.todo x hx plan hplan
    · rw [(todo_of_hand (hmore x hx)).1] at hplan
      exact absurd hplan List.not_mem_nil
  · rw [hthreads] at hmem
    rcases List.mem_append.mp hmem with hmem | hmem
    · obtain ⟨plan, hplan, rfl, htrue⟩ := h.skipping index todo hmem
      exact ⟨plan, hplan, rfl, (hskips _ hmem plan hplan (by simp [Thread.hand])).trans htrue⟩
    · exact absurd rfl ((todo_of_hand (hmore _ hmem)).2 index todo)
  · rw [hran]
    exact h.running plan (hrunning hplan)

theorem Stock.moves (h : Stock g f) (hterminal : Terminal f) (hprogress : Progress g f) {e : Event}
    (hmoves : Moves g f e f') (hhonest : f.honest g e = true) : Stock g f' := by
  cases hmoves with
  | act _ hperm hacts => exact h.act hterminal hprogress hperm hacts
  | enters _ _ =>
    intro hs
    exact ⟨(h hs).1.more rfl (by simp [Thread.hand]) rfl rfl (fun _ => Nat.le_refl _) (fun _ _ _ _ _ => rfl)
      (List.Subset.refl _), (h hs).2⟩
  | advance _ =>
    intro hs
    exact ⟨(h hs).1.more rfl (by simp [Thread.hand]) rfl rfl (fun _ => Nat.le_refl _) (fun _ _ _ _ _ => rfl)
      (List.Subset.refl _), (h hs).2⟩
  | sweep _ =>
    intro hs
    exact ⟨(h hs).1.more rfl (by simp [Thread.hand, failing]) rfl rfl (fun _ => Nat.le_refl _) (fun _ _ _ _ _ => rfl)
      (List.Subset.refl _), (h hs).2⟩
  | cancel _ => exact fun hs => ⟨⟨(h hs).1.hands, (h hs).1.undone, (h hs).1.todo, (h hs).1.skipping, (h hs).1.running⟩, (h hs).2⟩
  | tooLate _ hsettled => exact fun hs => absurd (hsettled.symm.trans hs) (by simp)
  | ignored _ hsettled => exact fun hs => absurd (hsettled.symm.trans hs) (by simp)
  | @stepFailed _ e plan rest hperm =>
    intro hs
    refine ⟨(h hs).1.more rfl (by simp [Thread.hand, failing]) rfl rfl (fun i => ?_) (fun _ _ _ _ _ => rfl) ?_, (h hs).2⟩
    · have := (hperm.map StepPlan.index).count_eq i
      simp only [List.map_cons, List.count_cons] at this
      dsimp only
      omega
    · exact fun p hp => hperm.mem_iff.mpr (List.mem_cons_of_mem _ hp)
  | @stepDone k outputs plan rest hget hperm hs =>
    intro _
    obtain ⟨haccounts, hstocked⟩ := h hs
    have hrunning : plan ∈ f.running := hperm.mem_iff.mpr List.mem_cons_self
    obtain ⟨hplan, hran⟩ := haccounts.running plan hrunning
    have hundone := haccounts.of_running hprogress.nodup hrunning
    have hreturns : Returns g plan outputs := by
      refine returns_of_valid hplan ?_
      simpa only [honest, hget] using hhonest
    obtain ⟨-, hstarted, hdone⟩ := stepDone_rest plan outputs f.execution
    refine ⟨haccounts.more rfl (by simp [Thread.hand]) rfl hstarted (fun i => ?_) (fun t ht p hp hhand => ?_) ?_, ?_⟩
    · have := (hperm.map StepPlan.index).count_eq i
      simp only [List.map_cons, List.count_cons] at this
      simp only [hdone, List.count_append, List.count_cons, List.count_nil]
      omega
    · obtain ⟨hpstarted, hnew, -⟩ := haccounts.of_hand hprogress.nodup ht hhand
      exact hstocked.steady hplan hundone hreturns hp hpstarted fun heq => absurd (heq ▸ hran) hnew
    · exact fun p hp => hperm.mem_iff.mpr (List.mem_cons_of_mem _ hp)
    · exact hstocked.stepDone hplan hran hundone hreturns haccounts.ran_started haccounts.finished_started

theorem stock_accept {inputs : Dict String Tensor} (h : validateAgainst inputs g.config.inputs .input = .ok ()) :
    Stock g (accept inputs) := by
  intro _
  refine ⟨⟨by simp [accept, Thread.hand], by simp [accept, Thread.hand], by simp [accept, Thread.todo], by simp [accept],
    by simp [accept]⟩, by simp [accept], by simp [accept], by simp [accept], by simp [accept], by simp [accept],
    fun name hname => ?_, fun spec hspec hrequired => ?_, by simp [accept], fun name hname => .inl ?_⟩
  · simp [accept] at hname
  · obtain ⟨tensor, htensor⟩ := Dict.exists_of_mem_keys (key_of_valid g.config.nodup.1 h hspec hrequired)
    rw [accept, Dict.get?_eq_some_iff.mpr htensor]
    rfl
  · obtain ⟨tensor, htensor⟩ := Option.isSome_iff_exists.mp hname
    obtain ⟨spec, hspec, hnamed⟩ := declared_of_valid h (Dict.get?_eq_some_iff.mp htensor)
    exact List.mem_map.mpr ⟨spec, hspec, hnamed⟩

end

/-- What a request comes to that no missing tensor fails, with every declared output in its answer. -/
def Fine (g : EnsembleGraph) : Ending → Prop
  | .nothing => True
  | .answers outputs => ∀ spec ∈ g.config.outputs, (outputs.get? spec.name).isSome
  | .fails e => ∀ model source names, e ≠ .needs model source names

/-- No step and no final output failed for want of a tensor. -/
structure Supplied (g : EnsembleGraph) (f : Flight) : Prop where
  told : ∀ stage outcome next, .closing stage outcome next ∈ f.threads → Fine g outcome
  answered : ∀ outputs, f.future = .answered outputs → Fine g (.answers outputs)
  failed : ∀ e, f.future = .failed e → Fine g (.fails e)

section
variable {g : EnsembleGraph} {f f' : Flight}

theorem isSome_foldl_set {ν : Type*} {value : TensorSpec → ν} {name : String} : ∀ {specs : List TensorSpec}
    {d : Dict String ν}, (d.get? name).isSome ∨ name ∈ specs.map TensorSpec.name →
      ((specs.foldl (fun d spec => d.set spec.name (value spec)) d).get? name).isSome
  | [], _, h => h.resolve_right List.not_mem_nil
  | spec :: specs, d, h => by
    rw [List.foldl_cons]
    apply isSome_foldl_set
    by_cases heq : name = spec.name
    · exact .inl (by rw [heq, Dict.get?_set_self]; rfl)
    · rw [Dict.get?_set_ne heq]
      exact h.imp_right fun hmem => (List.mem_cons.mp hmem).resolve_left heq

/-- `_collect_outputs` always has every declared output. -/
theorem collectOutputs_fine (namesp : Dict String Tensor) : Fine g (.answers (collectOutputs g.config namesp)) :=
  fun _ hspec => isSome_foldl_set (.inr (List.mem_map_of_mem hspec))

theorem Supplied.settle (h : Supplied g f) {outcome : Ending} (houtcome : Fine g outcome) :
    (∀ outputs, (f.settle outcome).future = .answered outputs → Fine g (.answers outputs)) ∧
      ∀ e, (f.settle outcome).future = .failed e → Fine g (.fails e) := by
  unfold Flight.settle
  cases outcome with
  | nothing => exact ⟨h.answered, h.failed⟩
  | answers outputs =>
    dsimp only
    split
    · exact ⟨fun o ho => CallerFuture.answered.inj ho ▸ houtcome, by simp⟩
    · exact ⟨fun o ho => CallerFuture.answered.inj ho ▸ houtcome, by simp⟩
    · exact ⟨h.answered, h.failed⟩
  | fails e =>
    dsimp only
    split
    · exact ⟨by simp, fun e he => CallerFuture.failed.inj he ▸ houtcome⟩
    · exact ⟨by simp, fun e he => CallerFuture.failed.inj he ▸ houtcome⟩
    · exact ⟨h.answered, h.failed⟩

/-- Where the graph is covered, a dispatch that meets the step's config does not fail for want of a tensor. -/
theorem Fails.fine (hcovered : g.Covered) (hstock : Stock g f) (hprogress : Progress g f) {answer : Answer} {t : Thread}
    (ht : t ∈ f.threads) (hhonest : ∀ plan todo progressed config, t = .dispatching (plan :: todo) progressed →
      answer.model = .ok config → g.model plan = some config) {e : RunError} {next : Option (List StepPlan × Bool)}
    (h : Fails f answer t e next) : Fine g (.fails e) := by
  cases h with
  | @needs plan todo progressed config e hs hskips hmodel hinputs =>
    obtain ⟨spec, hspec, hrequired, hnone, -⟩ := stepInputs_error hinputs
    have hconfig := hhonest plan todo progressed config rfl hmodel
    obtain ⟨haccounts, hstocked⟩ := hstock hs
    have hplan := haccounts.todo _ ht plan List.mem_cons_self
    obtain ⟨hstarted, hnew, -⟩ := haccounts.of_hand hprogress.nodup ht (i := plan.index) (by simp [Thread.hand])
    have hname : plan.step.source spec.name ∈ g.required plan := by
      simp only [EnsembleGraph.required, hconfig, Option.elim_some, List.mem_map, List.mem_filter]
      exact ⟨spec, ⟨hspec, by simp [hrequired]⟩, rfl⟩
    have hthere := hstocked.found hcovered hplan hstarted hnew haccounts.ran_started haccounts.finished_started hskips hname
    rw [hnone] at hthere
    cases hthere
  | _ => exact fun _ _ _ => by simp

theorem Supplied.act (h : Supplied g f) (hcovered : g.Covered) (hstock : Stock g f) (hprogress : Progress g f)
    {answer : Answer} {t : Thread} {rest : List Thread} {f₁ : Flight} {t' : Option Thread}
    (hperm : f.threads.Perm (t :: rest)) (hhonest : ∀ plan todo progressed config,
      t = .dispatching (plan :: todo) progressed → answer.model = .ok config → g.model plan = some config)
    (hacts : Acts g f answer t f₁ t') : Supplied g { f₁ with threads := rest ++ t'.toList } := by
  have ht : t ∈ f.threads := hperm.mem_iff.mpr List.mem_cons_self
  have htold {more : List Thread} (hmore : ∀ stage outcome next, .closing stage outcome next ∈ more → Fine g outcome) :
      ∀ stage outcome next, .closing stage outcome next ∈ rest ++ more → Fine g outcome := by
    intro stage outcome next hmem
    rcases List.mem_append.mp hmem with hmem | hmem
    · exact h.told stage outcome next (hperm.mem_iff.mpr (List.mem_cons_of_mem _ hmem))
    · exact hmore stage outcome next hmem
  have hlater {stage stage' : Stage} {outcome : Ending} {next : Option (List StepPlan × Bool)}
      (heq : t = .closing stage outcome next) : ∀ s o n, .closing s o n ∈ [Thread.closing stage' outcome next] → Fine g o := by
    intro s o n hmem
    obtain ⟨-, rfl, -⟩ : s = stage' ∧ o = outcome ∧ n = next := by simpa using hmem
    exact h.told stage o next (heq ▸ ht)
  have hresume (next : Option (List StepPlan × Bool)) :
      ∀ stage outcome n, .closing stage outcome n ∈ (resume next).toList → Fine g outcome :=
    fun stage outcome n hmem => absurd rfl ((resume_plain _ (by simpa using hmem)).2.2 stage outcome n)
  cases hacts with
  | fail hfails =>
    refine ⟨htold fun stage outcome next hmem => ?_, h.answered, h.failed⟩
    simp only [failing, Option.toList_some, List.mem_singleton, Thread.closing.injEq] at hmem
    obtain ⟨-, rfl, -⟩ := hmem
    exact hfails.fine hcovered hstock hprogress ht hhonest
  | enter _ => exact ⟨htold (by simp), by simp, by simp⟩
  | retire _ =>
    refine ⟨htold fun stage outcome next hmem => ?_, h.answered, h.failed⟩
    simp only [Option.toList_some, List.mem_singleton, Thread.closing.injEq] at hmem
    obtain ⟨-, rfl, -⟩ := hmem
    trivial
  | reply _ =>
    refine ⟨htold fun stage outcome next hmem => ?_, h.answered, h.failed⟩
    simp only [Option.toList_some, List.mem_singleton, Thread.closing.injEq] at hmem
    obtain ⟨-, rfl, -⟩ := hmem
    exact collectOutputs_fine _
  | beaten _ => exact ⟨htold (hresume _), h.answered, h.failed⟩
  | claim _ => exact ⟨htold (hlater rfl), h.answered, h.failed⟩
  | discard => exact ⟨htold (hlater rfl), h.answered, h.failed⟩
  | release => exact ⟨htold (hlater rfl), h.answered, h.failed⟩
  | @settle outcome next =>
    obtain ⟨hanswered, hfailed⟩ := h.settle (h.told .settle outcome next ht)
    exact ⟨htold (hresume _), hanswered, hfailed⟩
  | _ => exact ⟨htold (by simp), h.answered, h.failed⟩

theorem Supplied.moves (h : Supplied g f) (hcovered : g.Covered) (hstock : Stock g f) (hprogress : Progress g f)
    {e : Event} (hmoves : Moves g f e f') (hhonest : f.honest g e = true) : Supplied g f' := by
  cases hmoves with
  | @act k answer t rest f₁ t' hget hperm hacts =>
    refine h.act hcovered hstock hprogress hperm (fun plan todo progressed config heq hmodel => ?_) hacts
    subst heq
    simpa [honest, hget, hmodel] using hhonest
  | cancel _ => exact ⟨h.told, by simp, by simp⟩
  | stepFailed _ =>
    refine ⟨fun stage outcome next hmem => ?_, h.answered, h.failed⟩
    rcases List.mem_append.mp hmem with hmem | hmem
    · exact h.told stage outcome next hmem
    · simp only [failing, List.mem_singleton, Thread.closing.injEq] at hmem
      obtain ⟨-, rfl, -⟩ := hmem
      exact fun _ _ _ => by simp
  | sweep _ =>
    refine ⟨fun stage outcome next hmem => ?_, h.answered, h.failed⟩
    rcases List.mem_append.mp hmem with hmem | hmem
    · exact h.told stage outcome next hmem
    · simp only [failing, List.mem_singleton, Thread.closing.injEq] at hmem
      obtain ⟨-, rfl, -⟩ := hmem
      exact fun _ _ _ => by simp
  | _ => exact ⟨fun stage outcome next hmem => h.told stage outcome next (by simpa using hmem), h.answered, h.failed⟩

end

end Flight

/-! ## Runs -/

section
variable {g : EnsembleGraph} {capacity : Nat} {s t : EnsembleState}

theorem reachable_of_honestly (h : (honestly g capacity).Reachable s) : (ensemble g capacity).Reachable s :=
  h.invariant (fun _ hs => .init hs) fun _ _ _ hs hst => hs.step hst.1

theorem honest_flight {e : EnsembleEvent} {i : Nat} {event : Flight.Event} {f : Flight} (he : e = .flight i event)
    (hf : s.flights[i]? = some f) (h : s.honest g e = true) : f.honest g event = true := by
  subst he
  simpa [EnsembleState.honest, hf] using h

theorem stock (h : (honestly g capacity).Reachable s) : ∀ f ∈ s.flights, f.Stock g := by
  refine h.induction (I := fun s => ∀ f ∈ s.flights, f.Stock g) (fun s hs => ?_) fun s e t hreach ih hstep => ?_
  · cases hs
    simp
  have hreach := reachable_of_honestly hreach
  refine every_flight ih (fun _ => Flight.stock_accept) hstep.1 fun i event f f' he hget hmoves hstock => ?_
  have hf := List.mem_of_getElem? hget
  exact hstock.moves ((slots hreach).terminal f hf) (progress hreach f hf) hmoves (honest_flight he hget hstep.2)

/-- **Covered graphs want for nothing.** In every run of a graph whose courses all supply what the steps must
find, no step and no final output fails for want of a tensor. -/
theorem supplied_of_covered (hcovered : g.Covered) (h : (honestly g capacity).Reachable s) :
    ∀ f ∈ s.flights, f.Supplied g := by
  refine h.induction (I := fun s => ∀ f ∈ s.flights, f.Supplied g) (fun s hs => ?_) fun s e t hreach ih hstep => ?_
  · cases hs
    simp
  have hall := reachable_of_honestly hreach
  refine every_flight ih (fun _ _ => ?_) hstep.1 fun i event f f' he hget hmoves hsupplied => ?_
  · exact ⟨by simp [Flight.accept], by simp [Flight.accept], by simp [Flight.accept]⟩
  · have hf := List.mem_of_getElem? hget
    exact hsupplied.moves hcovered (stock hreach f hf) (progress hall f hf) hmoves (honest_flight he hget hstep.2)

end

/-! Two steps under one condition: `measure` reads what `segment` writes. -/

def modelOf (name : String) (input : String) (output : String) (hinput : input ≠ "") (houtput : output ≠ "")
    (hne : input ≠ output) : ModelConfig where
  name := name
  platform := "onnx"
  inputs := [bytesSpec input hinput]
  outputs := [bytesSpec output houtput]
  coherent := by simp
  nonEmpty := by simp
  distinct := by simpa [bytesSpec] using hne

def segmentPlan : StepPlan where
  index := 1
  step := { model := "segment", condition := some "boxes" }
  reads := ["boxes"]
  writes := ["masks"]

def measurePlan : StepPlan where
  index := 2
  step := { model := "measure", condition := some "boxes" }
  reads := ["boxes", "masks"]
  writes := ["areas"]

def masking : EnsembleGraph where
  config :=
    { name := "masking"
      platform := "ensemble"
      inputs := [bytesSpec "images" images_named]
      outputs := [bytesSpec "areas" (by decide)]
      ensemble := some [{ model := "detect" }, segmentPlan.step, measurePlan.step]
      coherent := by decide
      nonEmpty := by decide
      distinct := by decide }
  models :=
    [detectConfig, modelOf "segment" "boxes" "masks" boxes_named (by decide) (by decide),
      modelOf "measure" "masks" "areas" (by decide) (by decide) (by decide)]
  plans :=
    [{ index := 0, step := { model := "detect" }, reads := ["images"], writes := ["boxes"] }, segmentPlan, measurePlan]
  resolved := rfl
  accepted := by decide +kernel

theorem masking_covered : masking.Covered := by
  intro decided ran hcourse plan hplan hran name hname
  have hdetect : masking.plans.head (by decide) ∈ masking.plans := List.head_mem _
  have hsegment : segmentPlan ∈ masking.plans := by decide
  have hmeasure : measurePlan ∈ masking.plans := by decide
  have hcases : plan = masking.plans.head (by decide) ∨ plan = segmentPlan ∨ plan = measurePlan := by
    simpa [masking] using hplan
  rcases hcases with rfl | rfl | rfl
  · obtain rfl : name = "images" := by
      simpa [show masking.required (masking.plans.head (by decide)) = ["images"] from rfl] using hname
    exact .inl ⟨_, List.mem_cons_self, rfl, rfl⟩
  · obtain rfl : name = "boxes" := by simpa [show masking.required segmentPlan = ["boxes"] from rfl] using hname
    exact .inr (.inr ⟨segmentPlan, hsegment, Nat.le_refl _, hran, rfl⟩)
  · obtain rfl : name = "masks" := by simpa [show masking.required measurePlan = ["masks"] from rfl] using hname
    have hdecided := hcourse.within _ hran
    have hwaits : segmentPlan.index ∈ masking.waitsOn measurePlan := by decide
    have hagreed := hcourse.agreed segmentPlan hsegment measurePlan hmeasure (by decide)
      (hcourse.closed measurePlan hmeasure hdecided _ hwaits) hdecided "boxes" rfl rfl fun _ => by decide
    exact .inr (.inl ⟨segmentPlan, hsegment, by decide, hagreed.mpr hran, by decide⟩)

def honestStep (g : EnsembleGraph) (s : EnsembleState) (e : EnsembleEvent) : Option EnsembleState :=
  if s.honest g e then s.step g e else none

theorem reachable_honestly {g : EnsembleGraph} {capacity : Nat} (script : List EnsembleEvent)
    (h : (script.foldlM (honestStep g) { free := capacity }).isSome = true) :
    (honestly g capacity).Reachable ((script.foldlM (honestStep g) { free := capacity }).get h) := by
  refine Machine.reachable_foldlM (fun s e t hst => ?_) script (.init rfl) (Option.some_get _).symm
  unfold honestStep at hst
  split at hst
  · exact ⟨hst, ‹_›⟩
  · cases hst

/-- What the first request does from its arrival to its first pass over the graph. -/
def arrival : List Flight.Event := [.act 0 {}, .act 0 {}, .begin, .act 0 {}, .act 0 {}]

/-- A step's answer, and the pass after it. -/
def answered (outputs : Dict String Tensor) : List Flight.Event :=
  [.finish 0 (.ok outputs), .act 0 {}, .advance, .act 0 {}]

/-- A dispatch of the only step that is ready. -/
def dispatched (config : Option ModelConfig) : List Flight.Event :=
  [.act 0 { model := config.elim (.error "") .ok }, .act 0 {}]

theorem image_nodup : ([("images", oneByte 1)].map Prod.fst).Nodup := by decide

def request (events : List Flight.Event) : List EnsembleEvent :=
  [.call, .acquire ⟨[("images", oneByte 1)], image_nodup⟩] ++ events.map (.flight 0)

/-- All three steps run. -/
def masked : List EnsembleEvent := request (arrival ++ dispatched (masking.models[0]?) ++
  answered ⟨[("boxes", oneByte 1)], by decide⟩ ++ dispatched (masking.models[1]?) ++
  answered ⟨[("masks", oneByte 1)], by decide⟩ ++ dispatched (masking.models[2]?) ++
  answered ⟨[("areas", oneByte 1)], by decide⟩ ++ List.replicate 5 (.act 0 {}))

theorem masked_runs : (masked.foldlM (honestStep masking) { free := 1 }).isSome = true := by decide +kernel

theorem masked_supplied :
    ((masked.foldlM (honestStep masking) { free := 1 }).get masked_runs).flights.length = 1 ∧
      ∀ f ∈ ((masked.foldlM (honestStep masking) { free := 1 }).get masked_runs).flights, f.Supplied masking :=
  ⟨by decide +kernel, supplied_of_covered masking_covered (reachable_honestly masked masked_runs)⟩

/-- `head` runs under one condition and reads what `branch` writes under another. -/
def routed : EnsembleGraph where
  config :=
    { name := "routed"
      platform := "ensemble"
      inputs := [bytesSpec "images" images_named]
      outputs := [bytesSpec "score" (by decide)]
      ensemble := some
        [{ model := "router" }, { model := "branch", condition := some "a" }, { model := "head", condition := some "b" }]
      coherent := by decide
      nonEmpty := by decide
      distinct := by decide }
  models :=
    [{ name := "router"
       platform := "onnx"
       inputs := [bytesSpec "images" images_named]
       outputs := [bytesSpec "crops" (by decide), bytesSpec "a" (by decide), bytesSpec "b" (by decide)]
       coherent := by decide
       nonEmpty := plain_steps
       distinct := by decide },
      modelOf "branch" "crops" "emb" (by decide) (by decide) (by decide),
      modelOf "head" "emb" "score" (by decide) (by decide) (by decide)]
  plans :=
    [{ index := 0, step := { model := "router" }, reads := ["images"], writes := ["b", "a", "crops"] },
      { index := 1, step := { model := "branch", condition := some "a" }, reads := ["a", "crops"], writes := ["emb"] },
      { index := 2, step := { model := "head", condition := some "b" }, reads := ["b", "emb"], writes := ["score"] }]
  resolved := rfl
  accepted := by decide +kernel

/-- The router's crops go down `head`'s branch only. -/
def forked : List EnsembleEvent := request (arrival ++ dispatched (routed.models[0]?) ++
  answered ⟨[("crops", oneByte 1), ("a", oneByte 0), ("b", oneByte 1)], by decide⟩ ++ List.replicate 4 (.act 0 {}) ++
  .act 0 { model := (routed.models[2]?).elim (.error "") .ok } :: List.replicate 4 (.act 0 {}))

theorem forked_runs : (forked.foldlM (honestStep routed) { free := 1 }).isSome = true := by decide +kernel

/-- What a failed future says it needs. -/
def CallerFuture.wants : CallerFuture → Option (String × String)
  | .failed (.needs model source _) => some (model, source)
  | _ => none

theorem routed_wants : ∃ s, (honestly routed 1).Reachable s ∧ ∃ f ∈ s.flights, f.future.wants = some ("head", "emb") ∧
    ¬f.Supplied routed := by
  refine ⟨_, reachable_honestly forked forked_runs, ?_⟩
  have hwants : ((forked.foldlM (honestStep routed) { free := 1 }).get forked_runs).flights.any
      (fun f => decide (f.future.wants = some ("head", "emb"))) = true := by decide +kernel
  obtain ⟨f, hf, hwants⟩ := List.any_eq_true.mp hwants
  have hwants := of_decide_eq_true hwants
  refine ⟨f, hf, hwants, fun hsupplied => ?_⟩
  unfold CallerFuture.wants at hwants
  split at hwants
  · rename_i model source names hfuture
    exact hsupplied.failed _ hfuture model source names rfl
  · cases hwants

end ShipInfer.Engine
