import Mathlib
import ShipInfer.Engine.Terminal

/-!
# No request of an ensemble waits forever

Until a request is settled, every step that was started is done, with its model or in
the hands of a thread, and whoever marks a step as done has the graph pumped after it.
So when no thread, task or step is left, a pass found nothing ready with not all steps
done: but the first of those that are not done waits for none of them.
-/

namespace ShipInfer.Engine

/-! ## The order of the steps -/

theorem plans_addStep {w w' : Wiring} {step : EnsembleStep} {config : ModelConfig} (h : w.addStep step config = .ok w') :
    ∃ plan, w'.plans = w.plans ++ [plan] ∧ plan.index = w.plans.length ∧ plan.step = step := by
  obtain ⟨reads, -, h⟩ := bind_ok.mp h
  obtain ⟨reads', -, h⟩ := bind_ok.mp h
  obtain ⟨r, -, h⟩ := bind_ok.mp h
  cases h
  exact ⟨_, rfl, rfl, rfl⟩

theorem EnsembleGraph.index_plans (g : EnsembleGraph) : g.plans.map StepPlan.index = List.range g.plans.length := by
  obtain ⟨w, hfold, hclose⟩ := bind_ok.mp g.accepted
  obtain ⟨_, -, hplans⟩ := bind_ok.mp hclose
  rw [← Except.ok.inj hplans]
  refine foldlM_keeps (I := fun w : Wiring => w.plans.map StepPlan.index = List.range w.plans.length) ?_ hfold rfl
  intro w p w' _ hstep ih
  obtain ⟨plan, hplans, hindex, -⟩ := plans_addStep hstep
  rw [hplans, List.map_append, ih, List.length_append, List.length_singleton, List.range_succ]
  simp [hindex]

section
variable {g : EnsembleGraph}

theorem index_lt {plan : StepPlan} (h : plan ∈ g.plans) : plan.index < g.plans.length := by
  have hmem := List.mem_map_of_mem (f := StepPlan.index) h
  rw [g.index_plans] at hmem
  exact List.mem_range.mp hmem

theorem exists_plan {i : Nat} (h : i < g.plans.length) : ∃ plan ∈ g.plans, plan.index = i := by
  have hmem := List.mem_range.mpr h
  rw [← g.index_plans] at hmem
  exact List.mem_map.mp hmem

theorem lt_of_mem_waitsOn {plan : StepPlan} {j : Nat} (h : j ∈ g.waitsOn plan) : j < plan.index ∧ j < g.plans.length := by
  obtain ⟨p, hp, rfl⟩ := List.mem_map.mp h
  obtain ⟨hp, hcond⟩ := List.mem_filter.mp hp
  simp only [Bool.and_eq_true, decide_eq_true_eq] at hcond
  exact ⟨hcond.1, index_lt hp⟩

theorem mem_ready {x : Execution} {plan : StepPlan} : plan ∈ x.ready g ↔
    plan ∈ g.plans ∧ plan.index ∉ x.started ∧ ∀ j ∈ g.waitsOn plan, j ∈ x.finished := by
  simp [Execution.ready]

/-- Where what is started is done, a step is ready or all are started. -/
theorem all_started {x : Execution} (hdone : ∀ j ∈ x.started, j ∈ x.finished) (hready : x.ready g = []) :
    ∀ i < g.plans.length, i ∈ x.started := by
  intro i
  induction i using Nat.strongRecOn with
  | ind i ih =>
    intro hi
    by_contra hnot
    obtain ⟨plan, hplan, rfl⟩ := exists_plan hi
    have hmem : plan ∈ x.ready g := mem_ready.mpr ⟨hplan, hnot, fun j hj => by
      obtain ⟨hlt, hlen⟩ := lt_of_mem_waitsOn hj
      exact hdone j (ih j hlt hlen)⟩
    rw [hready] at hmem
    exact List.not_mem_nil hmem

end

/-! ## The invariant -/

namespace Thread

/-- The steps that a thread has claimed and not yet handed on. -/
def hand : Thread → List Nat
  | .dispatching todo _ => todo.map StepPlan.index
  | .skipping index todo => index :: todo.map StepPlan.index
  | _ => []

/-- A thread that will pump the graph. -/
def wakes : Thread → Bool
  | .enlisting | .submitting _ | .entering | .pumping | .completing | .skipping .. => true
  | .dispatching _ progressed => progressed
  | .closing .. => false

/-- A thread that lets go of a step, or of a pass, to fail the request. -/
def breaks : Thread → Bool
  | .closing .claim (.fails .stopped) _ => false
  | .closing .claim (.fails _) _ => true
  | _ => false

end Thread

namespace Flight

def Doomed (f : Flight) : Prop := ∃ t ∈ f.threads, t.dooms = true

def Broken (f : Flight) : Prop := ∃ t ∈ f.threads, t.breaks = true

def Awake (f : Flight) : Prop := (∃ t ∈ f.threads, t.wakes = true) ∨ f.begins = true ∨ 0 < f.advances

/-- Where the steps that were started are: done, with their models, or in a thread's hands. -/
def places (f : Flight) : List Nat :=
  f.execution.finished ++ f.running.map StepPlan.index ++ f.threads.flatMap Thread.hand

/-- How often `_begin` can still look at the future. -/
def openings (f : Flight) : Nat := f.threads.countP Thread.opens + if f.begins then 1 else 0

structure Progress (g : EnsembleGraph) (f : Flight) : Prop where
  nodup : f.execution.started.Nodup
  known : ∀ j ∈ f.execution.started, j < g.plans.length
  opened : f.openings ≤ 1 ∧ (f.openings = 1 → f.future ≠ .running)
  placed : f.execution.settled = false → f.Broken ∨ f.execution.started.Perm f.places
  alive : f.execution.settled = false →
    f.Doomed ∨ f.Awake ∨ f.execution.ready g = [] ∧ f.execution.finished.length ≠ g.plans.length

theorem progress_accept (g : EnsembleGraph) (inputs : Dict String Tensor) : Progress g (accept inputs) := by
  refine ⟨List.nodup_nil, by simp [accept], by simp [accept, openings, Thread.opens], fun _ => .inr ?_, fun _ => ?_⟩
  · simp [accept, places, Thread.hand]
  · exact .inr (.inl (.inl ⟨.enlisting, by simp [accept], rfl⟩))

section
variable {g : EnsembleGraph} {f f' : Flight}

theorem Progress.length_le (h : Progress g f) : f.execution.started.length ≤ g.plans.length := by
  have hsub : f.execution.started ⊆ List.range g.plans.length := fun j hj => List.mem_range.mpr (h.known j hj)
  simpa using (List.subperm_of_subset h.nodup hsub).length_le

/-- What a pass finds ready was not started. -/
theorem Progress.take (h : Progress g f) :
    (f.execution.started ++ (f.execution.ready g).map StepPlan.index).Nodup ∧
      ∀ j ∈ f.execution.started ++ (f.execution.ready g).map StepPlan.index, j < g.plans.length := by
  have hindex : ((f.execution.ready g).map StepPlan.index).Nodup := by
    have hn : (g.plans.map StepPlan.index).Nodup := by
      rw [g.index_plans]
      exact List.nodup_range
    exact hn.sublist (List.filter_sublist.map _)
  constructor
  · refine h.nodup.append hindex fun j hj hmem => ?_
    obtain ⟨plan, hplan, rfl⟩ := List.mem_map.mp hmem
    exact (mem_ready.mp hplan).2.1 hj
  · intro j hj
    rcases List.mem_append.mp hj with hj | hj
    · exact h.known j hj
    · obtain ⟨plan, hplan, rfl⟩ := List.mem_map.mp hj
      exact index_lt (mem_ready.mp hplan).1

/-- After a pass nothing is ready. -/
theorem ready_taken (x : Execution) :
    Execution.ready g { x with started := x.started ++ (x.ready g).map StepPlan.index } = [] := by
  refine List.eq_nil_iff_forall_not_mem.mpr fun plan hplan => ?_
  obtain ⟨hmem, hnew, hwaits⟩ := mem_ready.mp hplan
  refine hnew (List.mem_append.mpr ?_)
  by_cases hold : plan.index ∈ x.started
  · exact .inl hold
  · exact .inr (List.mem_map_of_mem (mem_ready.mpr ⟨hmem, hold, hwaits⟩))

/-! ## A turn of one thread -/

theorem still {p : Thread → Bool} {t : Thread} {rest : List Thread} (hperm : f.threads.Perm (t :: rest)) (ht : p t = false)
    (more : List Thread) (h : ∃ x ∈ f.threads, p x = true) : ∃ x ∈ rest ++ more, p x = true := by
  obtain ⟨x, hx, hp⟩ := h
  rcases List.mem_cons.mp (hperm.mem_iff.mp hx) with rfl | hx
  · rw [ht] at hp
    cases hp
  · exact ⟨x, List.mem_append_left _ hx, hp⟩

theorem count_places {t : Thread} {rest : List Thread} (hperm : f.threads.Perm (t :: rest)) (i : Nat) :
    f.places.count i = f.execution.finished.count i + (f.running.map StepPlan.index).count i + t.hand.count i +
      (rest.flatMap Thread.hand).count i := by
  have hhands : (f.threads.flatMap Thread.hand).count i = t.hand.count i + (rest.flatMap Thread.hand).count i := by
    rw [(hperm.flatMap_right Thread.hand).count_eq, List.flatMap_cons, List.count_append]
  rw [places, List.count_append, List.count_append, hhands]
  omega

theorem openings_perm {t : Thread} {rest : List Thread} (hperm : f.threads.Perm (t :: rest)) :
    f.openings = rest.countP Thread.opens + (if t.opens then 1 else 0) + if f.begins then 1 else 0 := by
  rw [openings, hperm.countP_eq, List.countP_cons]

theorem resume_plainly (next : Option (List StepPlan × Bool)) (p : Thread → Bool) (hp : ∀ todo progressed,
    p (.dispatching todo progressed) = false) : (resume next).toList.countP p = 0 := by
  cases next with
  | none => rfl
  | some next => simp [resume, hp]

theorem Fails.breaks {answer : Answer} {t : Thread} {e : RunError} {next : Option (List StepPlan × Bool)}
    (h : Fails f answer t e next) : (t.hand = [] ∧ t.breaks = false) ∨ (failing e next).breaks = true := by
  cases h with
  | needs hs hskip hmodel hinputs =>
    obtain ⟨spec, -, -, -, names, rfl⟩ := stepInputs_error hinputs
    exact .inr rfl
  | stopped => exact .inl ⟨rfl, rfl⟩
  | _ => exact .inr rfl

/-- Steps that a turn moves are moved, none is lost. -/
theorem placed_turn {t : Thread} {rest more : List Thread} {f₁ : Flight} (hperm : f.threads.Perm (t :: rest))
    (ht : t.breaks = false) (h : f.Broken ∨ f.execution.started.Perm f.places)
    (hmoved : ∀ i, f₁.execution.started.count i + f.execution.finished.count i +
        (f.running.map StepPlan.index).count i + t.hand.count i =
      f.execution.started.count i + f₁.execution.finished.count i + (f₁.running.map StepPlan.index).count i +
        (more.flatMap Thread.hand).count i) :
    Broken { f₁ with threads := rest ++ more } ∨
      f₁.execution.started.Perm (places { f₁ with threads := rest ++ more }) := by
  refine h.imp (still hperm ht more) fun hplaces => List.perm_iff_count.mpr fun i => ?_
  have hold := hplaces.count_eq i
  have hmoved := hmoved i
  rw [count_places hperm] at hold
  simp only [places, List.count_append, List.flatMap_append]
  omega

theorem placed_act {answer : Answer} {t : Thread} {rest : List Thread} {f₁ : Flight} {t' : Option Thread}
    (hperm : f.threads.Perm (t :: rest)) (hacts : Acts g f answer t f₁ t') (hterminal : Terminal f)
    (h : f.execution.settled = false → f.Broken ∨ f.execution.started.Perm f.places)
    (hs : f₁.execution.settled = false) : Broken { f₁ with threads := rest ++ t'.toList } ∨
      f₁.execution.started.Perm (places { f₁ with threads := rest ++ t'.toList }) := by
  cases hacts with
  | fail hfails =>
    rcases hfails.breaks with ⟨hhand, hbreaks⟩ | hbreaks
    · exact placed_turn hperm hbreaks (h hs) fun i => by simp only [hhand]; simp [Thread.hand, failing]
    · exact .inl ⟨_, List.mem_append_right _ List.mem_cons_self, hbreaks⟩
  | take _ _ => exact placed_turn hperm rfl (h hs) (by simp [Thread.hand]; omega)
  | skip _ _ => exact placed_turn hperm rfl (h hs) (by simp [Thread.hand])
  | launch _ _ _ _ => exact placed_turn hperm rfl (h hs) (by simp [Thread.hand, List.count_cons]; omega)
  | skipped => exact placed_turn hperm rfl (h hs) (by simp [Thread.hand, List.count_cons]; omega)
  | left hsettled | late' hsettled | drop hsettled | beaten hsettled => exact absurd (hsettled.symm.trans hs) (by simp)
  | claim _ => cases hs
  | discard => exact absurd ((hterminal.owner hperm (by simp)).1.symm.trans hs) (by simp)
  | release => exact absurd ((hterminal.owner hperm (by simp)).1.symm.trans hs) (by simp)
  | @settle outcome next =>
    obtain ⟨future, settlements, heq⟩ := settle_spec (f := f) outcome
    rw [heq] at hs
    exact absurd ((hterminal.owner hperm (by simp)).1.symm.trans hs) (by simp)
  | _ => exact placed_turn hperm rfl (h hs) (by simp [Thread.hand])

/-- What a thread that neither wakes nor dooms leaves to the others. -/
theorem alive_rest {t : Thread} {rest more : List Thread} {f₁ : Flight} (hperm : f.threads.Perm (t :: rest))
    (hdooms : t.dooms = false) (hwakes : t.wakes = false) (hbegins : f₁.begins = f.begins)
    (hadvances : f₁.advances = f.advances) (hexecution : f₁.execution = f.execution)
    (h : f.Doomed ∨ f.Awake ∨ f.execution.ready g = [] ∧ f.execution.finished.length ≠ g.plans.length) :
    Doomed { f₁ with threads := rest ++ more } ∨ Awake { f₁ with threads := rest ++ more } ∨
      f₁.execution.ready g = [] ∧ f₁.execution.finished.length ≠ g.plans.length := by
  rw [hexecution]
  refine h.imp (still hperm hdooms more) (Or.imp_left fun hawake => ?_)
  rcases hawake with hawake | hwork
  · exact .inl (still hperm hwakes more hawake)
  · rw [← hbegins, ← hadvances] at hwork
    exact .inr hwork

theorem dooms_of_breaks {t : Thread} (h : t.breaks = true) : t.dooms = true := by
  unfold Thread.breaks at h
  split at h
  · cases h
  · rfl
  · cases h

/-- What a pass claims keeps the graph from being done. -/
theorem Progress.taken (h : Progress g f) (hplaces : f.execution.started.Perm f.places) (hne : f.execution.ready g ≠ []) :
    f.execution.finished.length ≠ g.plans.length := by
  obtain ⟨hnodup, hknown⟩ := h.take
  have hsub := List.subperm_of_subset hnodup fun j hj => List.mem_range.mpr (hknown j hj)
  have hlength := hsub.length_le
  have hpos := List.length_pos_iff.mpr hne
  have hfinished := hplaces.length_eq
  simp only [places, List.length_append, List.length_map, List.length_range] at hlength hfinished
  omega

theorem alive_act {answer : Answer} {t : Thread} {rest : List Thread} {f₁ : Flight} {t' : Option Thread}
    (hperm : f.threads.Perm (t :: rest)) (hacts : Acts g f answer t f₁ t') (hterminal : Terminal f) (h : Progress g f)
    (hs : f₁.execution.settled = false) : Doomed { f₁ with threads := rest ++ t'.toList } ∨
      Awake { f₁ with threads := rest ++ t'.toList } ∨
        f₁.execution.ready g = [] ∧ f₁.execution.finished.length ≠ g.plans.length := by
  have hwakes {x : Thread} (hx : t' = some x) (hw : x.wakes = true) : Awake { f₁ with threads := rest ++ t'.toList } :=
    .inl ⟨x, by simp [hx], hw⟩
  cases hacts with
  | enlist => exact .inr (.inl (hwakes rfl rfl))
  | begins => exact .inr (.inl (.inr (.inl rfl)))
  | advances => exact .inr (.inl (.inr (.inr (Nat.succ_pos _))))
  | fail hfails => exact .inl ⟨_, List.mem_append_right _ List.mem_cons_self, rfl⟩
  | retire _ => exact .inl ⟨_, List.mem_append_right _ List.mem_cons_self, rfl⟩
  | reply _ => exact .inl ⟨_, List.mem_append_right _ List.mem_cons_self, rfl⟩
  | enter _ => exact .inr (.inl (hwakes rfl rfl))
  | complete _ _ _ => exact .inr (.inl (hwakes rfl rfl))
  | again => exact .inr (.inl (hwakes rfl rfl))
  | skip _ _ => exact .inr (.inl (hwakes rfl rfl))
  | skipped => exact .inr (.inl (hwakes rfl rfl))
  | rest _ hready hmore => exact .inr (.inr ⟨hready, hmore⟩)
  | late hpending hcancelled =>
    -- `_begin` comes to a request once, and before it nothing runs.
    obtain ⟨hle, hrunning⟩ := h.opened
    rw [openings_perm hperm] at hle hrunning
    have hanswered := (hterminal.before hs).2.2
    cases hf : f.future with
    | pending => exact absurd hf hpending
    | cancelled => exact absurd hf hcancelled
    | running => exact absurd hf (hrunning (by simp [Thread.opens] at hle ⊢; omega))
    | answered outputs => exact absurd hf (hanswered outputs .stopped).1
    | failed e => exact absurd hf (hanswered .empty e).2
  | take _ hne =>
    rcases h.placed hs with ⟨x, hx, hbreaks⟩ | hplaces
    · exact .inl (still hperm rfl _ ⟨x, hx, dooms_of_breaks hbreaks⟩)
    · exact .inr (.inr ⟨ready_taken _, h.taken hplaces hne⟩)
  | spent => exact alive_rest hperm rfl rfl rfl rfl rfl (h.alive hs)
  | @launch plan todo progressed _ _ _ _ _ _ =>
    cases progressed with
    | true => exact .inr (.inl (hwakes rfl rfl))
    | false => exact alive_rest hperm rfl rfl rfl rfl rfl (h.alive hs)
  | left hsettled | late' hsettled | drop hsettled | beaten hsettled => exact absurd (hsettled.symm.trans hs) (by simp)
  | claim _ => cases hs
  | discard => exact absurd ((hterminal.owner hperm (by simp)).1.symm.trans hs) (by simp)
  | release => exact absurd ((hterminal.owner hperm (by simp)).1.symm.trans hs) (by simp)
  | @settle outcome next =>
    obtain ⟨future, settlements, heq⟩ := settle_spec (f := f) outcome
    rw [heq] at hs
    exact absurd ((hterminal.owner hperm (by simp)).1.symm.trans hs) (by simp)

theorem opened_le (h : f.openings ≤ 1 ∧ (f.openings = 1 → f.future ≠ .running)) (hle : f'.openings ≤ f.openings)
    (hfuture : f'.future = .running → f.future = .running) :
    f'.openings ≤ 1 ∧ (f'.openings = 1 → f'.future ≠ .running) :=
  ⟨hle.trans h.1, fun hone hrunning => h.2 (by omega) (hfuture hrunning)⟩

theorem openings_turn {t : Thread} {rest more : List Thread} {f₁ : Flight} (hperm : f.threads.Perm (t :: rest))
    (h : (more.countP Thread.opens + if f₁.begins then 1 else 0) ≤ (if t.opens then 1 else 0) + if f.begins then 1 else 0) :
    openings { f₁ with threads := rest ++ more } ≤ f.openings := by
  rw [openings_perm hperm, openings, List.countP_append]
  dsimp only
  omega

theorem running_of_settle {outcome : Ending} (h : (f.settle outcome).future = .running) : f.future = .running := by
  unfold settle at h
  cases outcome with
  | nothing => exact h
  | answers outputs => cases hf : f.future <;> simp_all
  | fails e => cases hf : f.future <;> simp_all

theorem opened_act {answer : Answer} {t : Thread} {rest : List Thread} {f₁ : Flight} {t' : Option Thread}
    (hperm : f.threads.Perm (t :: rest)) (hacts : Acts g f answer t f₁ t')
    (h : f.openings ≤ 1 ∧ (f.openings = 1 → f.future ≠ .running)) :
    openings { f₁ with threads := rest ++ t'.toList } ≤ 1 ∧
      (openings { f₁ with threads := rest ++ t'.toList } = 1 → f₁.future ≠ .running) := by
  have hresume (next : Option (List StepPlan × Bool)) := resume_plainly next Thread.opens fun _ _ => rfl
  cases hacts with
  | begins => exact opened_le h (openings_turn hperm (by simp [Thread.opens])) id
  | enter _ =>
    rw [openings_perm hperm] at h
    simp only [openings, List.countP_append, Thread.opens, if_pos, Option.toList_some, List.countP_singleton] at h ⊢
    exact ⟨by simp; omega, fun hone => by simp at hone; omega⟩
  | beaten _ => exact opened_le h (openings_turn hperm (by simp [hresume])) id
  | @settle outcome next =>
    obtain ⟨future, settlements, heq⟩ := settle_spec (f := f) outcome
    refine opened_le h (openings_turn hperm (by simp [hresume, heq])) running_of_settle
  | _ => exact opened_le h (openings_turn hperm (by simp [Thread.opens, failing])) id

theorem Progress.act (h : Progress g f) (hterminal : Terminal f) {answer : Answer} {t : Thread} {rest : List Thread}
    {f₁ : Flight} {t' : Option Thread} (hperm : f.threads.Perm (t :: rest)) (hacts : Acts g f answer t f₁ t') :
    Progress g { f₁ with threads := rest ++ t'.toList } := by
  have hstarted : f₁.execution.started.Nodup ∧ ∀ j ∈ f₁.execution.started, j < g.plans.length := by
    cases hacts with
    | take _ _ => exact h.take
    | @settle outcome next =>
      obtain ⟨future, settlements, heq⟩ := settle_spec (f := f) outcome
      rw [heq]
      exact ⟨h.nodup, h.known⟩
    | _ => exact ⟨h.nodup, h.known⟩
  refine ⟨hstarted.1, hstarted.2, opened_act hperm hacts h.opened, fun hs => ?_, fun hs => ?_⟩
  · exact placed_act hperm hacts hterminal h.placed hs
  · exact alive_act hperm hacts hterminal h hs

/-- What adds threads that hold no step leaves the steps where they are. -/
theorem placed_more {more : List Thread} (h : f.Broken ∨ f.execution.started.Perm f.places)
    (hexecution : f'.execution = f.execution) (hrunning : f'.running = f.running)
    (hthreads : f'.threads = f.threads ++ more) (hmore : ∀ t ∈ more, t.hand = []) :
    f'.Broken ∨ f'.execution.started.Perm f'.places := by
  refine h.imp (fun ⟨t, ht, hbreaks⟩ => ⟨t, hthreads ▸ List.mem_append_left _ ht, hbreaks⟩) fun hplaces => ?_
  have hnone : more.flatMap Thread.hand = [] := List.flatMap_eq_nil_iff.mpr hmore
  rw [places, hexecution, hrunning, hthreads, List.flatMap_append, hnone, List.append_nil]
  exact hplaces

theorem Progress.moves (h : Progress g f) (hterminal : Terminal f) {e : Event} (hmoves : Moves g f e f') :
    Progress g f' := by
  cases hmoves with
  | act _ hperm hacts => exact h.act hterminal hperm hacts
  | enters hb _ =>
    refine ⟨h.nodup, h.known, opened_le h.opened ?_ id, fun hs => ?_, fun _ => .inr (.inl (.inl ⟨.entering, ?_, rfl⟩))⟩
    · simp [openings, List.countP_append, Thread.opens, hb]
    · exact placed_more (h.placed hs) rfl rfl rfl (by simp [Thread.hand])
    · simp
  | tooLate _ hsettled =>
    refine ⟨h.nodup, h.known, opened_le h.opened ?_ id, fun hs => ?_, fun hs => ?_⟩
    · simp [openings]
    · exact absurd (hsettled.symm.trans hs) (by simp)
    · exact absurd (hsettled.symm.trans hs) (by simp)
  | advance _ =>
    refine ⟨h.nodup, h.known, opened_le h.opened ?_ id, fun hs => ?_, fun _ => .inr (.inl (.inl ⟨.pumping, ?_, rfl⟩))⟩
    · simp [openings, List.countP_append, Thread.opens]
    · exact placed_more (h.placed hs) rfl rfl rfl (by simp [Thread.hand])
    · simp
  | @stepFailed _ e _ _ _ =>
    have hlast : failing (.raised e) none ∈ f.threads ++ [failing (.raised e) none] := by simp
    refine ⟨h.nodup, h.known, opened_le h.opened ?_ id, fun _ => .inl ⟨_, hlast, rfl⟩, fun _ => .inl ⟨_, hlast, rfl⟩⟩
    simp [openings, List.countP_append, Thread.opens, failing]
  | ignored _ hsettled =>
    refine ⟨h.nodup, h.known, h.opened, fun hs => ?_, fun hs => ?_⟩
    · exact absurd (hsettled.symm.trans hs) (by simp)
    · exact absurd (hsettled.symm.trans hs) (by simp)
  | @stepDone _ outputs plan rest _ hperm hs =>
    obtain ⟨-, hstarted, hfinished⟩ := stepDone_rest plan outputs f.execution
    refine ⟨?_, ?_, opened_le h.opened ?_ id, fun _ => (h.placed hs).imp ?_ fun hplaces => ?_, fun _ => .inr (.inl ?_)⟩
    · rw [hstarted]
      exact h.nodup
    · rw [hstarted]
      exact h.known
    · simp [openings, List.countP_append, Thread.opens]
    · rintro ⟨t, ht, hbreaks⟩
      exact ⟨t, List.mem_append_left _ ht, hbreaks⟩
    · refine List.perm_iff_count.mpr fun i => ?_
      have hold := hplaces.count_eq i
      have hrunning := (hperm.map StepPlan.index).count_eq i
      simp [places, hstarted, hfinished, Thread.hand, List.count_cons] at hold hrunning ⊢
      omega
    · exact .inl ⟨.submitting .advance, by simp, rfl⟩
  | cancel _ => exact ⟨h.nodup, h.known, opened_le h.opened (Nat.le_refl _) (by simp), h.placed, h.alive⟩
  | sweep _ =>
    have hlast : failing .stopped none ∈ f.threads ++ [failing .stopped none] := by simp
    refine ⟨h.nodup, h.known, opened_le h.opened ?_ id, fun hs => ?_, fun _ => .inl ⟨_, hlast, rfl⟩⟩
    · simp [openings, List.countP_append, Thread.opens, failing]
    · exact placed_more (h.placed hs) rfl rfl rfl (by simp [Thread.hand, failing])

/-! ## No hang -/

/-- A step is with its model, in the hands of a thread, or a thread is about to report that it failed. -/
def InFlight (f : Flight) : Prop := f.running ≠ [] ∨ f.Broken ∨ ∃ t ∈ f.threads, t.hand ≠ []

/-- Nothing is left to do. -/
def Quiet (f : Flight) : Prop := f.threads = [] ∧ f.begins = false ∧ f.advances = 0 ∧ f.running = []

/-- With no step in flight one is ready, or all are done. -/
theorem Progress.ready_or_done (h : Progress g f) (hs : f.execution.settled = false) (hidle : ¬f.InFlight) :
    f.execution.ready g ≠ [] ∨ f.execution.finished.length = g.plans.length := by
  rw [InFlight, not_or, not_or, not_not] at hidle
  obtain ⟨hrunning, hbroken, hhands⟩ := hidle
  have hplaces := (h.placed hs).resolve_left hbroken
  have hnone : f.threads.flatMap Thread.hand = [] :=
    List.flatMap_eq_nil_iff.mpr fun t ht => by_contra fun hne => hhands ⟨t, ht, hne⟩
  rw [places, hrunning, hnone, List.map_nil, List.append_nil, List.append_nil] at hplaces
  by_contra hnot
  rw [not_or, not_not] at hnot
  obtain ⟨hready, hmore⟩ := hnot
  have hall := all_started (fun j hj => hplaces.subset hj) hready
  have hsub := List.subperm_of_subset (List.nodup_range (n := g.plans.length)) fun j hj => hall j (List.mem_range.mp hj)
  have hle := hsub.length_le
  rw [List.length_range, hplaces.length_eq] at hle
  exact hmore (Nat.le_antisymm (hplaces.length_eq ▸ h.length_le) hle)

/-- A request that nothing is left to do for is settled. -/
theorem Progress.settled_of_quiet (h : Progress g f) (hquiet : f.Quiet) : f.execution.settled = true := by
  obtain ⟨hthreads, hbegins, hadvances, hrunning⟩ := hquiet
  by_contra hs
  have hs := Bool.eq_false_iff.mpr hs
  have hidle : ¬f.InFlight := by simp [InFlight, Broken, hthreads, hrunning]
  rcases h.alive hs with ⟨t, ht, -⟩ | (⟨t, ht, -⟩ | hwork) | ⟨hready, hmore⟩
  · exact List.not_mem_nil (hthreads ▸ ht)
  · exact List.not_mem_nil (hthreads ▸ ht)
  · simp [hbegins, hadvances] at hwork
  · rcases h.ready_or_done hs hidle with hne | hdone
    · exact hne hready
    · exact hmore hdone

/-- What is quiet ended once, and gave its slot back once. -/
theorem Terminal.of_quiet (h : Terminal f) (hs : f.execution.settled = true) (hquiet : f.Quiet) :
    f.releases = 1 ∧ f.settlements = 1 := by
  have hnone : f.owners = [] := by simp [owners, hquiet.1]
  rcases h.after hs with ⟨-, hreleases, hopen, -⟩ | ⟨stage, outcome, next, hone, -⟩
  · have hcount := h.counted
    rw [hopen] at hcount
    exact ⟨hreleases, hcount⟩
  · rw [hnone] at hone
    cases hone

/-- A request holds its slot while it is in the list, just before and just after. -/
theorem Terminal.holds_iff (h : Terminal f) : f.releases = 0 ↔ f.listed = true ∨ .enlisting ∈ f.threads ∨
    ∃ outcome next, .closing .release outcome next ∈ f.threads := by
  constructor
  · intro hzero
    by_cases hl : f.listed = true
    · exact .inl hl
    refine .inr ?_
    cases hs : f.execution.settled with
    | false => exact .inl (h.unlisted (Bool.eq_false_iff.mpr hl) hs)
    | true =>
      rcases h.after hs with ⟨-, hone, -⟩ | ⟨stage, outcome, next, howner, hreleases, hlisted⟩
      · omega
      · have hmem : .closing stage outcome next ∈ f.owners := by simp [howner]
        obtain ⟨hmem, howns⟩ := List.mem_filter.mp hmem
        cases stage with
        | claim => cases howns
        | discard => exact absurd (hlisted.mpr rfl) hl
        | release => exact .inr ⟨outcome, next, hmem⟩
        | settle => simp [hzero] at hreleases
  · rintro (hl | hmem | ⟨outcome, next, hmem⟩)
    · cases hs : f.execution.settled with
      | false => exact (h.before hs).2.1
      | true =>
        rcases h.after hs with ⟨-, -, -, hno⟩ | ⟨stage, outcome, next, -, hreleases, hlisted⟩
        · rw [hl] at hno
          cases hno
        · rw [hreleases, hlisted.mp hl]
          rfl
    · exact (h.before (h.fresh hmem).2.1).2.1
    · obtain ⟨before, after, hsplit⟩ := List.append_of_mem hmem
      exact (h.owner (hsplit ▸ List.perm_middle) (by simp)).2.2.1

/-! ## Every request comes to rest -/

/-- How many turns a dispatch of `todo` can still take, with those of the steps it starts. -/
def span (todo : List StepPlan) (progressed : Bool) : Nat := 1 + 10 * todo.length + if progressed then 6 else 0

/-- How many turns a thread can still take, with those that it sets off. -/
def weight : Thread → Nat
  | .enlisting => 10
  | .submitting .begin => 9
  | .submitting .advance => 8
  | .entering => 7
  | .pumping => 6
  | .completing => 5
  | .dispatching todo progressed => span todo progressed
  | .skipping _ todo => 8 + 10 * todo.length
  | .closing stage _ next =>
    (match stage with
      | .claim => 4
      | .discard => 3
      | .release => 2
      | .settle => 1) + (next.elim 0 fun p => span p.1 p.2)

/-- How many turns a request can still take before it is quiet. -/
def load (g : EnsembleGraph) (f : Flight) : Nat :=
  10 * (g.plans.length - f.execution.started.length) + (f.threads.map weight).sum + (if f.begins then 8 else 0) +
    7 * f.advances + 9 * f.running.length

/-- What the ensemble does by itself. -/
def Event.internal : Event → Bool
  | .cancel | .sweep => false
  | _ => true

theorem load_perm {t : Thread} {rest : List Thread} (hperm : f.threads.Perm (t :: rest)) :
    f.load g = 10 * (g.plans.length - f.execution.started.length) + (weight t + (rest.map weight).sum) +
      (if f.begins then 8 else 0) + 7 * f.advances + 9 * f.running.length := by
  rw [load, (hperm.map weight).sum_nat, List.map_cons, List.sum_cons]

theorem load_turn {t : Thread} {rest more : List Thread} {f₁ : Flight} (hperm : f.threads.Perm (t :: rest))
    (h : 10 * (g.plans.length - f₁.execution.started.length) + (more.map weight).sum + (if f₁.begins then 8 else 0) +
        7 * f₁.advances + 9 * f₁.running.length <
      10 * (g.plans.length - f.execution.started.length) + weight t + (if f.begins then 8 else 0) + 7 * f.advances +
        9 * f.running.length) :
    load g { f₁ with threads := rest ++ more } < f.load g := by
  rw [load_perm hperm, load, List.map_append, List.sum_append]
  dsimp only
  omega

theorem weight_resume (next : Option (List StepPlan × Bool)) :
    ((resume next).toList.map weight).sum = next.elim 0 fun p => span p.1 p.2 := by
  cases next <;> simp [resume, weight]

theorem Fails.weight {answer : Answer} {t : Thread} {e : RunError} {next : Option (List StepPlan × Bool)}
    (h : Fails f answer t e next) : Flight.weight (failing e next) < Flight.weight t := by
  cases h with
  | @stopped work => cases work <;> simp [Flight.weight, failing]
  | _ => simp [Flight.weight, failing, span] <;> omega

theorem load_act (h : Progress g f) {answer : Answer} {t : Thread} {rest : List Thread}
    {f₁ : Flight} {t' : Option Thread} (hperm : f.threads.Perm (t :: rest)) (hacts : Acts g f answer t f₁ t') :
    load g { f₁ with threads := rest ++ t'.toList } < f.load g := by
  cases hacts with
  | fail hfails =>
    have := hfails.weight
    exact load_turn hperm (by simp; omega)
  | take _ hne =>
    have hpos := List.length_pos_iff.mpr hne
    have hlength := (List.subperm_of_subset h.take.1 fun j hj => List.mem_range.mpr (h.take.2 j hj)).length_le
    simp at hlength
    exact load_turn hperm (by simp [weight, span]; omega)
  | @settle outcome next =>
    obtain ⟨future, settlements, heq⟩ := settle_spec (f := f) outcome
    exact load_turn hperm (by simp [heq, weight_resume, weight])
  | beaten _ => exact load_turn hperm (by simp [weight_resume, weight])
  | begins => exact load_turn hperm (by cases f.begins <;> simp [weight])
  | _ => exact load_turn hperm (by simp [weight, span] <;> omega)

/-- Whatever the ensemble does by itself leaves it with less to do. -/
theorem load_moves (h : Progress g f) {e : Event} (hmoves : Moves g f e f')
    (he : e.internal = true) : f'.load g < f.load g := by
  cases hmoves with
  | act _ hperm hacts => exact load_act h hperm hacts
  | enters hb _ => simp [load, hb, weight]; omega
  | tooLate hb _ => simp [load, hb]
  | advance ha => simp [load, weight]; omega
  | stepFailed hperm =>
    have := hperm.length_eq
    simp [load, weight, failing] at this ⊢
    omega
  | ignored hperm _ =>
    have := hperm.length_eq
    simp [load] at this ⊢
    omega
  | @stepDone _ outputs plan rest _ hperm hs =>
    obtain ⟨-, hstarted, -⟩ := stepDone_rest plan outputs f.execution
    have := hperm.length_eq
    simp [load, hstarted, weight] at this ⊢
    omega
  | cancel _ => cases he
  | sweep _ => cases he

/-- What is not quiet can go on by itself. -/
theorem quiet_or_moves (g : EnsembleGraph) (poolUp : Bool) (f : Flight) :
    f.Quiet ∨ ∃ e, e.internal = true ∧ (f.step g poolUp e).isSome := by
  by_cases hthreads : f.threads = []
  · by_cases hbegins : f.begins = true
    · exact .inr ⟨.begin, rfl, by simp [step, hbegins]⟩
    by_cases hadvances : 0 < f.advances
    · exact .inr ⟨.advance, rfl, by simp [step, hadvances]⟩
    cases hrunning : f.running with
    | nil => exact .inl ⟨hthreads, Bool.eq_false_iff.mpr hbegins, by omega, hrunning⟩
    | cons plan rest => exact .inr ⟨.finish 0 (.error ""), rfl, by simp [step, hrunning]⟩
  · obtain ⟨t, rest, hsplit⟩ := List.exists_cons_of_ne_nil hthreads
    exact .inr ⟨.act 0 {}, rfl, by simp [step, hsplit]⟩

end

/-- What every reachable request keeps. -/
structure Served (g : EnsembleGraph) (poolUp : Bool) (f : Flight) : Prop where
  ready : f.execution.settled = false → ¬f.InFlight →
    f.execution.ready g ≠ [] ∨ f.execution.finished.length = g.plans.length
  once : f.releases ≤ 1 ∧ f.settlements ≤ 1
  holds : f.releases = 0 ↔ f.listed = true ∨ .enlisting ∈ f.threads ∨
    ∃ outcome next, .closing .release outcome next ∈ f.threads
  /-- It goes on by itself, or it has come to its end. -/
  ends : (∃ e, e.internal = true ∧ (f.step g poolUp e).isSome) ∨
    f.execution.settled = true ∧ f.releases = 1 ∧ f.settlements = 1

theorem Progress.served {g : EnsembleGraph} {f : Flight} (h : Progress g f) (hterminal : Terminal f) (poolUp : Bool) :
    Served g poolUp f := by
  refine ⟨h.ready_or_done, hterminal.once, hterminal.holds_iff, ?_⟩
  rcases quiet_or_moves g poolUp f with hquiet | hmoves
  · have hs := h.settled_of_quiet hquiet
    exact .inr ⟨hs, hterminal.of_quiet hs hquiet⟩
  · exact .inl hmoves

end Flight

/-! ## The ensemble -/

def EnsembleEvent.internal : EnsembleEvent → Bool
  | .flight _ e => e.internal
  | _ => false

/-- How many turns all requests can still take. -/
def EnsembleState.load (g : EnsembleGraph) (s : EnsembleState) : Nat := (s.flights.map (Flight.load g)).sum

section
variable {g : EnsembleGraph} {capacity : Nat} {s t : EnsembleState}

theorem progress (h : (ensemble g capacity).Reachable s) : ∀ f ∈ s.flights, f.Progress g := by
  refine h.induction (I := fun s => ∀ f ∈ s.flights, f.Progress g) (fun s hs => ?_) fun s e t hreach ih hstep => ?_
  · cases hs
    simp
  refine every_flight ih (fun inputs _ => Flight.progress_accept g inputs) hstep fun i event f f' _ hget hmoves h => ?_
  exact h.moves ((slots hreach).terminal f (List.mem_of_getElem? hget)) hmoves

theorem sum_set_lt {α : Type*} {w : α → Nat} : ∀ {l : List α} {i : Nat} {a b : α}, l[i]? = some a → w b < w a →
    ((l.set i b).map w).sum < (l.map w).sum
  | [], _, _, _, h, _ => by simp at h
  | x :: l, 0, a, b, h, hlt => by
    obtain rfl : x = a := by simpa using h
    simpa using hlt
  | x :: l, i + 1, a, b, h, hlt => by
    have ih := sum_set_lt (l := l) (i := i) (by simpa using h) hlt
    simp only [List.set_cons_succ, List.map_cons, List.sum_cons]
    omega

theorem load_step (h : (ensemble g capacity).Reachable s) {e : EnsembleEvent} (hstep : s.step g e = some t)
    (he : e.internal = true) : t.load g < s.load g := by
  cases e with
  | flight i event =>
    simp only [EnsembleState.step] at hstep
    split at hstep
    · cases hstep
    rename_i f hf
    obtain ⟨f', hf', rfl⟩ := Option.map_eq_some_iff.mp hstep
    have hmem := List.mem_of_getElem? hf
    have hless := Flight.load_moves (progress h f hmem) (Flight.moves hf') he
    exact sum_set_lt hf hless
  | _ => cases he

/-- What the ensemble does by itself comes to an end. -/
theorem load_run {es : List EnsembleEvent} (h : (ensemble g capacity).Reachable s)
    (hrun : (ensemble g capacity).Run s es t) (hes : ∀ e ∈ es, e.internal = true) : es.length + t.load g ≤ s.load g := by
  induction hrun with
  | nil => simp
  | snoc hrun hstep ih =>
    have hless := load_step (h.run hrun) hstep (hes _ (by simp))
    have := ih fun e he => hes e (List.mem_append_left _ he)
    simp only [List.length_append, List.length_singleton]
    omega

/-- **An ensemble neither hangs nor settles twice.** -/
theorem served_once (h : (ensemble g capacity).Reachable s) : s.free + s.holding = capacity ∧
    (∀ f ∈ s.flights, f.Served g s.poolUp) ∧ ∀ es t, (ensemble g capacity).Run s es t →
      (∀ e ∈ es, e.internal = true) → es.length ≤ s.load g := by
  refine ⟨(slots h).capacity, fun f hf => ?_, fun es t hrun hes => ?_⟩
  · exact (progress h f hf).served ((slots h).terminal f hf) s.poolUp
  · have := load_run h hrun hes
    omega

end

/-! `refine` reads the boxes it writes. -/

theorem one_extent : ∀ dim ∈ [(1 : Int)], 0 ≤ dim ∨ dim = dynamic := by decide

def bytesSpec (name : String) (h : name ≠ "") : TensorSpec where
  name := name
  dtype := .uint8
  shape := [1]
  named := h
  extents := one_extent

def oneByte (b : UInt8) : Tensor where
  dtype := .uint8
  shape := [1, 1]
  data := [b]
  sized := rfl

theorem images_named : "images" ≠ "" := by decide

theorem boxes_named : "boxes" ≠ "" := by decide

theorem plain_steps : (none : Option (List EnsembleStep)) ≠ some [] := by simp

def detectConfig : ModelConfig where
  name := "detect"
  platform := "onnx"
  inputs := [bytesSpec "images" images_named]
  outputs := [bytesSpec "boxes" boxes_named]
  coherent := by decide
  nonEmpty := plain_steps
  distinct := by decide

def refineConfig : ModelConfig where
  name := "refine"
  platform := "onnx"
  inputs := [bytesSpec "boxes" boxes_named]
  outputs := [bytesSpec "refined" (by decide)]
  coherent := by decide
  nonEmpty := plain_steps
  distinct := by decide

def refinePlan : StepPlan where
  index := 1
  step := { model := "refine", outputMap := ⟨[("refined", "boxes")], by decide⟩ }
  reads := ["boxes"]
  writes := ["boxes"]

def refining : EnsembleGraph where
  config :=
    { name := "detector"
      platform := "ensemble"
      inputs := [bytesSpec "images" images_named]
      outputs := [bytesSpec "boxes" boxes_named]
      ensemble := some [{ model := "detect" }, refinePlan.step]
      coherent := by decide
      nonEmpty := by decide
      distinct := by decide }
  models := [detectConfig, refineConfig]
  plans := [{ index := 0, step := { model := "detect" }, reads := ["images"], writes := ["boxes"] }, refinePlan]
  resolved := rfl
  accepted := by decide +kernel

/-- A caller whose request runs `detect`, and then `refine`. -/
def refined : List EnsembleEvent :=
  [.call, .acquire ⟨[("images", oneByte 1)], by decide⟩] ++
    ([.act 0 {}, .act 0 {}, .begin, .act 0 {}, .act 0 {}, .act 0 { model := .ok detectConfig }, .act 0 {},
      .finish 0 (.ok ⟨[("boxes", oneByte 2)], by decide⟩), .act 0 {}, .advance, .act 0 {},
      .act 0 { model := .ok refineConfig }, .act 0 {}, .finish 0 (.ok ⟨[("refined", oneByte 3)], by decide⟩), .act 0 {},
      .advance, .act 0 {}, .act 0 {}, .act 0 {}, .act 0 {}, .act 0 {}, .act 0 {}] : List Flight.Event).map (.flight 0)

theorem refined_runs : (refined.foldlM (EnsembleState.step refining) { free := 1 }).isSome = true := by decide +kernel

def refinedState : EnsembleState := (refined.foldlM (EnsembleState.step refining) { free := 1 }).get refined_runs

theorem refined_reachable : (ensemble refining 1).Reachable refinedState :=
  Machine.reachable_foldlM (M := ensemble refining 1) (fun _ _ _ h => h) refined (.init rfl) (Option.some_get _).symm

theorem refined_served : refinedState.free + refinedState.holding = 1 ∧
    (∀ f ∈ refinedState.flights, f.Served refining refinedState.poolUp) ∧
    ∀ es t, (ensemble refining 1).Run refinedState es t → (∀ e ∈ es, e.internal = true) →
      es.length ≤ refinedState.load refining :=
  served_once refined_reachable

/-- The caller has its answer, and the slot is free again. -/
example : refinedState.free = 1 ∧ refinedState.flights.map Flight.settlements = [1] := by decide +kernel

end ShipInfer.Engine
