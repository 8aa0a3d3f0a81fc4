import ShipInfer.Perception.Dag

/-!
# Overlapping the object models changes nothing they compute

No stage of a run reads what an earlier one of the run produces, so each is as
ready, and begins the same, as at its own turn. What is announced may differ: the
graph that runs one stage at a time also asks in the middle of a run.
-/

namespace ShipInfer.Perception.Cpp

variable {Crop Row Box : Type}

/-! ## What is read under a name -/

namespace FrameState

theorem view_write (s : FrameState Crop Row Box) (w : Write Crop Row Box) {name : String} (h : w.name ≠ name) :
    (s.write w).view name = s.view name := by
  cases w with
  | payload p =>
    have hne : name ≠ p.name := Ne.symm h
    simp only [view, write, attachPayload, Dict.get?_set_ne hne]
  | batch b =>
    have hne : name ≠ b.name := Ne.symm h
    simp only [view, write, attach, Dict.get?_set_ne hne]
  | detections ds =>
    have hne : name ≠ detectionsName := Ne.symm h
    simp only [view, write, setDetections, if_neg hne]

theorem view_writes {name : String} : ∀ (ws : List (Write Crop Row Box)) (s : FrameState Crop Row Box),
    (∀ w ∈ ws, w.name ≠ name) → (ws.foldl write s).view name = s.view name
  | [], _, _ => rfl
  | w :: ws, s, h => by
    rw [List.foldl_cons, view_writes ws _ fun w' hw' => h w' (List.mem_cons_of_mem _ hw'),
      view_write s w (h w List.mem_cons_self)]

end FrameState

def View.available (v : View Crop Row Box) : Prop :=
  v.pixels = some true ∨ (∃ p, v.detections = some p ∧ p.1 = true) ∨ v.payload.isSome ∨ v.batch.isSome

def View.nonEmpty (v : View Crop Row Box) : Prop :=
  v.pixels = some true ∨ (∃ p, v.detections = some p ∧ p.1 = true ∧ p.2.1 ≠ []) ∨
    (∃ p, v.payload = some p ∧ p.data ≠ []) ∨ ∃ b, v.batch = some b ∧ b.objectIndices ≠ []

namespace FrameState

theorem mem_keys_iff_isSome {ν : Type} (d : Dict String ν) (name : String) : name ∈ d.keys ↔ (d.get? name).isSome := by
  rw [← Dict.contains_iff]
  rfl

theorem mem_keys_filter_iff {ν : Type} (d : Dict String ν) (p : ν → Bool) (name : String) :
    name ∈ (d.filter fun e => p e.2).keys ↔ ∃ v, d.get? name = some v ∧ p v = true := by
  rw [mem_keys_iff_isSome, Dict.get?_filter]
  cases d.get? name with
  | none => simp
  | some v => by_cases h : p v <;> simp [h]

theorem mem_available (s : FrameState Crop Row Box) (name : String) : name ∈ s.available ↔ (s.view name).available := by
  simp only [available, View.available, view, List.mem_append, mem_keys_iff_isSome, or_assoc]
  refine or_congr ?_ (or_congr ?_ Iff.rfl)
  · by_cases hn : name = frameInput <;> by_cases hp : s.hasPixels <;> simp [hn, hp]
  · by_cases hn : name = detectionsName <;> by_cases hd : s.detected <;> simp [hn, hd]

theorem mem_nonEmpty (s : FrameState Crop Row Box) (name : String) : name ∈ s.nonEmpty ↔ (s.view name).nonEmpty := by
  simp only [nonEmpty, View.nonEmpty, view, List.mem_append, or_assoc, mem_keys_filter_iff s.payloads fun p => !p.data.isEmpty,
    mem_keys_filter_iff s.batches fun b => !b.objectIndices.isEmpty]
  refine or_congr ?_ (or_congr ?_ (or_congr ?_ ?_))
  · by_cases hn : name = frameInput <;> by_cases hp : s.hasPixels <;> simp [hn, hp]
  · by_cases hn : name = detectionsName <;> by_cases hd : s.detected <;> simp [hn, hd]
  · simp
  · simp

/-- Attaching takes no name away. -/
theorem available_write (s : FrameState Crop Row Box) (w : Write Crop Row Box) {name : String} (h : name ∈ s.available) :
    name ∈ (s.write w).available := by
  cases w with
  | payload p =>
    simp only [write, available, attachPayload, List.mem_append, Dict.mem_keys_set] at h ⊢
    tauto
  | batch b =>
    simp only [write, available, attach, List.mem_append, Dict.mem_keys_set] at h ⊢
    tauto
  | detections ds =>
    simp only [write, available, setDetections, List.mem_append, if_true] at h ⊢
    refine h.imp_left (Or.imp_left (Or.imp_right fun hn => ?_))
    by_cases hd : s.detected = true
    · rwa [if_pos hd] at hn
    · rw [if_neg hd] at hn
      exact absurd hn List.not_mem_nil

theorem available_writes {name : String} (ws : List (Write Crop Row Box)) (s : FrameState Crop Row Box)
    (h : name ∈ s.available) : name ∈ (ws.foldl write s).available :=
  foldl_keeps (I := fun t : FrameState Crop Row Box => name ∈ t.available) (fun t w _ ht => available_write t w ht) h

end FrameState

/-! ## What an overlapping stage does -/

namespace Stage

variable {st : Stage Crop Row Box} {s t : FrameState Crop Row Box}

theorem ready_iff : st.ready s = true ↔ (∀ name ∈ st.consumes, name ∈ s.available) ∧ ∀ name ∈ st.needs, name ∈ s.nonEmpty := by
  simp [ready]

/-- A stage that needs only what it consumes is as ready where it finds the same. -/
theorem ready_congr (hneeds : ∀ name ∈ st.needs, name ∈ st.consumes) (h : ∀ name ∈ st.consumes, s.view name = t.view name) :
    st.ready s = true ↔ st.ready t = true := by
  rw [ready_iff, ready_iff]
  refine and_congr (forall₂_congr fun name hn => ?_) (forall₂_congr fun name hn => ?_)
  · rw [FrameState.mem_available, FrameState.mem_available, h name hn]
  · rw [FrameState.mem_nonEmpty, FrameState.mem_nonEmpty, h name (hneeds name hn)]

theorem doBegin_congr (h : ∀ name ∈ st.consumes, s.view name = t.view name) :
    st.doBegin s = st.doBegin t := by
  unfold doBegin
  cases hw : st.work with
  | whole doRun => rfl
  | split doBegin reads writes =>
    dsimp only
    rw [reads s t h]

/-- An overlapping stage that ran attached names it produces, and nothing else. -/
theorem doRun_writes (ho : st.overlaps = true) (s : FrameState Crop Row Box) :
    ∃ ws : List (Write Crop Row Box), (∀ w ∈ ws, w.name ∈ st.produces) ∧ (st.doRun s).1 = ws.foldl FrameState.write s := by
  unfold overlaps at ho
  unfold doRun doBegin
  cases hw : st.work with
  | whole doRun => rw [hw] at ho; cases ho
  | split doBegin reads writes =>
    dsimp only
    cases hb : doBegin s with
    | error e => exact ⟨[], by simp, rfl⟩
    | ok doFinish => exact ⟨(doFinish s).1, writes s doFinish hb s, rfl⟩

end Stage

namespace Dag

/-! ## The graph that runs one stage at a time -/

section

variable {d : Dag Crop Row Box}

theorem mem_runnable {s : FrameState Crop Row Box} {done : List String} {name : String} :
    name ∈ d.runnable s done ↔ ∃ st ∈ d, st.name = name ∧ name ∉ done ∧ st.ready s = true := by
  simp only [runnable, List.mem_map, List.mem_filter, Bool.and_eq_true, Bool.not_eq_true', List.contains_eq_mem,
    decide_eq_false_iff_not]
  constructor
  · intro h
    obtain ⟨st, ⟨hst, hdone, hready⟩, hname⟩ := h
    exact ⟨st, hst, hname, hname ▸ hdone, hready⟩
  · intro h
    obtain ⟨st, hst, hname, hdone, hready⟩ := h
    exact ⟨st, ⟨hst, hname ▸ hdone, hready⟩, hname⟩

theorem name_mem_runnable (hd : (d.map Stage.name).Nodup) {st : Stage Crop Row Box} (hst : st ∈ d)
    {s : FrameState Crop Row Box} {done : List String} :
    st.name ∈ d.runnable s done ↔ st.name ∉ done ∧ st.ready s = true := by
  rw [mem_runnable]
  constructor
  · intro h
    obtain ⟨st', hst', hname, hdone, hready⟩ := h
    rw [List.inj_on_of_nodup_map hd hst' hst hname] at hready
    exact ⟨hdone, hready⟩
  · intro h
    exact ⟨st, hst, rfl, h.1, h.2⟩

namespace Progress

variable (p : Progress Crop Row Box) (ready : List String) (st : Stage Crop Row Box)

@[simp] theorem plan_state : (p.plan ready).state = p.state := rfl

@[simp] theorem plan_done : (p.plan ready).done = p.done := rfl

@[simp] theorem plan_outcomes : (p.plan ready).outcomes = p.outcomes := by
  by_cases h : ready = [] <;> simp [plan, outcomes, h]

@[simp] theorem plan_planned : (p.plan ready).planned = p.planned ++ ready := by
  by_cases h : ready = [] <;> simp [plan, planned, h]

@[simp] theorem finish_outcomes (s : FrameState Crop Row Box) (o : StageOutcome) :
    (p.finish s o).outcomes = p.outcomes ++ [o] := by simp [finish, outcomes]

@[simp] theorem finish_planned (s : FrameState Crop Row Box) (o : StageOutcome) : (p.finish s o).planned = p.planned := by
  simp [finish, planned]

theorem attempt_stage (name : String) (r : Except Thrown Nat) : (StageOutcome.attempt name r).stage = name := by
  cases r <;> rfl

theorem runOne_done : (p.runOne ready st).done = p.done ++ [st.name] := by
  unfold runOne
  by_cases h : ready.contains st.name = true
  · rw [if_pos h]
    show p.done ++ [(StageOutcome.attempt st.name _).stage] = _
    rw [attempt_stage]
  · rw [if_neg h]
    rfl

theorem runOne_planned : (p.runOne ready st).planned = p.planned := by
  unfold runOne
  by_cases h : ready.contains st.name = true
  · rw [if_pos h]; exact finish_planned _ _ _
  · rw [if_neg h]; exact finish_planned _ _ _

theorem turn_planned : (p.turn d st).planned = p.planned ++ d.runnable p.state p.done := by
  rw [turn, runOne_planned, plan_planned]

theorem turn_done : (p.turn d st).done = p.done ++ [st.name] := by
  rw [turn, runOne_done, plan_done]

/-- A turn of an overlapping stage attaches names it produces. -/
theorem turn_writes {st : Stage Crop Row Box} (ho : st.overlaps = true) :
    ∃ ws : List (Write Crop Row Box), (∀ w ∈ ws, w.name ∈ st.produces) ∧ (p.turn d st).state = ws.foldl FrameState.write p.state := by
  unfold turn runOne
  dsimp only
  by_cases h : (d.runnable p.state p.done).contains st.name = true
  · rw [if_pos h]
    exact st.doRun_writes ho p.state
  · rw [if_neg h]
    exact ⟨[], by simp, rfl⟩

end Progress

theorem turns_done (l : List (Stage Crop Row Box)) (p : Progress Crop Row Box) :
    (l.foldl (Progress.turn d) p).done = p.done ++ l.map Stage.name := by
  induction l generalizing p with
  | nil => simp
  | cons st l ih => rw [List.foldl_cons, ih, Progress.turn_done, List.map_cons, List.append_assoc, List.singleton_append]

theorem turns_planned (l : List (Stage Crop Row Box)) (p : Progress Crop Row Box) :
    p.planned ⊆ (l.foldl (Progress.turn d) p).planned := by
  induction l generalizing p with
  | nil => exact List.Subset.refl _
  | cons st l ih =>
    refine List.Subset.trans ?_ (ih _)
    rw [Progress.turn_planned]
    exact List.subset_append_left _ _

/-! ## One run of overlapping stages -/

/-- Overlapping stages, none reading what is produced so far or by an earlier one. -/
def Joined : List String → List (Stage Crop Row Box) → Prop
  | _, [] => True
  | produced, st :: rest =>
    st.overlaps = true ∧ (∀ name ∈ st.consumes, name ∉ produced) ∧ Joined (produced ++ st.produces) rest

omit d in
theorem joining_spec : ∀ (rest : List (Stage Crop Row Box)) (produced : List String),
    rest = (joining produced rest).1 ++ (joining produced rest).2 ∧ Joined produced (joining produced rest).1
  | [], _ => ⟨rfl, trivial⟩
  | st :: rest, produced => by
    unfold joining
    by_cases h : (st.overlaps && !st.consumes.any produced.contains) = true
    · rw [if_pos h]
      obtain ⟨hrest, hjoined⟩ := joining_spec rest (produced ++ st.produces)
      refine ⟨by rw [List.cons_append, ← hrest], ?_, ?_, hjoined⟩
      · simp only [Bool.and_eq_true] at h
        exact h.1
      · simp only [Bool.and_eq_true, Bool.not_eq_true', List.any_eq_false, List.contains_eq_mem, decide_eq_true_eq] at h
        exact h.2
    · rw [if_neg h]
      exact ⟨rfl, trivial⟩

omit d in
theorem waveEnd_spec (first : Stage Crop Row Box) (rest : List (Stage Crop Row Box)) :
    rest = (waveEnd first rest).1 ++ (waveEnd first rest).2 ∧
      ((waveEnd first rest).1 = [] ∨ Joined [] (first :: (waveEnd first rest).1)) := by
  unfold waveEnd
  by_cases h : first.overlaps = true
  · rw [if_pos h]
    obtain ⟨hrest, hjoined⟩ := joining_spec rest first.produces
    exact ⟨hrest, .inr ⟨h, fun _ _ => List.not_mem_nil, by rwa [List.nil_append]⟩⟩
  · rw [if_neg h]
    exact ⟨rfl, .inl rfl⟩

omit d in
theorem Joined.disjoint {st : Stage Crop Row Box} : ∀ {produced : List String} {l : List (Stage Crop Row Box)},
    Joined produced l → st ∈ l → ∀ name ∈ st.consumes, name ∉ produced
  | _, st' :: l, hj, hst, name, hn => by
    rcases List.mem_cons.mp hst with rfl | hst
    · exact hj.2.1 name hn
    · exact fun hp => hj.2.2.disjoint hst name hn (List.mem_append_left _ hp)

/-- The frame is, but for these names, the frame it was. -/
def Agree (produced : List String) (s t : FrameState Crop Row Box) : Prop := ∀ name, name ∉ produced → s.view name = t.view name

theorem Agree.turn {produced : List String} {p : Progress Crop Row Box} {s : FrameState Crop Row Box}
    (h : Agree produced p.state s) {st : Stage Crop Row Box} (ho : st.overlaps = true) :
    Agree (produced ++ st.produces) (p.turn d st).state s := by
  obtain ⟨ws, hws, hstate⟩ := p.turn_writes (d := d) ho
  intro name hn
  have hproduces : name ∉ st.produces := fun hp => hn (List.mem_append_right _ hp)
  have hne : ∀ w ∈ ws, w.name ≠ name := fun w hw he => hproduces (he ▸ hws w hw)
  rw [hstate, FrameState.view_writes ws _ hne]
  exact h name fun hp => hn (List.mem_append_left _ hp)

/-- The two graphs came to the same so far. -/
structure Alike (p q : Progress Crop Row Box) : Prop where
  state : p.state = q.state
  done : p.done = q.done
  outcomes : p.outcomes = q.outcomes

/-- A stage of a run, begun with the run, comes to what it comes to at its own turn. -/
theorem Alike.finishOne {p q : Progress Crop Row Box} (h : Alike p q) (hd : (d.map Stage.name).Nodup)
    (hneeds : ∀ st ∈ d, ∀ name ∈ st.needs, name ∈ st.consumes) {st : Stage Crop Row Box} (hst : st ∈ d)
    {produced : List String} (hconsumes : ∀ name ∈ st.consumes, name ∉ produced)
    {s : FrameState Crop Row Box} {done : List String} (hagree : Agree produced q.state s) (hnew : st.name ∉ q.done)
    (hdone : done ⊆ q.done) :
    Alike (p.finishOne (st, if (d.runnable s done).contains st.name then some (st.doBegin s) else none)) (q.turn d st) := by
  have hview : ∀ name ∈ st.consumes, q.state.view name = s.view name := fun name hn => hagree name (hconsumes name hn)
  have hready : (d.runnable s done).contains st.name = (d.runnable q.state q.done).contains st.name := by
    rw [Bool.eq_iff_iff, List.contains_iff_mem, List.contains_iff_mem, name_mem_runnable hd hst, name_mem_runnable hd hst,
      Stage.ready_congr (hneeds st hst) hview]
    exact and_congr_left fun _ => iff_of_true (fun hmem => hnew (hdone hmem)) hnew
  have hbegin : st.doBegin s = st.doBegin q.state := (Stage.doBegin_congr hview).symm
  unfold Progress.turn Progress.runOne Progress.finishOne
  rw [hready, hbegin]
  dsimp only
  by_cases hmem : (d.runnable q.state q.done).contains st.name = true
  · rw [if_pos hmem, if_pos hmem]
    dsimp only [Progress.plan_state]
    unfold Stage.doRun
    cases st.doBegin q.state with
    | error e =>
      refine ⟨h.state, ?_, ?_⟩
      · show p.done ++ _ = q.done ++ _
        rw [h.done]
      · rw [Progress.finish_outcomes, Progress.finish_outcomes, Progress.plan_outcomes, h.outcomes]
    | ok doFinish =>
      rw [← h.state]
      refine ⟨rfl, ?_, ?_⟩
      · show p.done ++ _ = q.done ++ _
        rw [h.done]
      · rw [Progress.finish_outcomes, Progress.finish_outcomes, Progress.plan_outcomes, h.outcomes]
  · rw [if_neg hmem, if_neg hmem]
    refine ⟨h.state, ?_, ?_⟩
    · show p.done ++ _ = q.done ++ _
      rw [h.done]
    · rw [Progress.finish_outcomes, Progress.finish_outcomes, Progress.plan_outcomes, h.outcomes]

omit d in
theorem finishOne_planned (p : Progress Crop Row Box)
    (begun : Stage Crop Row Box × Option (Except Thrown (FrameState Crop Row Box → Result Crop Row Box))) :
    (p.finishOne begun).planned = p.planned := by
  unfold Progress.finishOne
  rcases begun.2 with _ | _ | _ <;> exact Progress.finish_planned _ _ _

/-- The stages of a run, one after another. -/
theorem Alike.finishAll (hd : (d.map Stage.name).Nodup) (hneeds : ∀ st ∈ d, ∀ name ∈ st.needs, name ∈ st.consumes)
    {s : FrameState Crop Row Box} {done : List String} : ∀ (l : List (Stage Crop Row Box)) {produced : List String}
    {p q : Progress Crop Row Box}, Joined produced l → (∀ st ∈ l, st ∈ d) → (l.map Stage.name).Nodup →
    (∀ st ∈ l, st.name ∉ q.done) → done ⊆ q.done → Agree produced q.state s → Alike p q →
    Alike ((l.map fun st => (st, if (d.runnable s done).contains st.name then some (st.doBegin s) else none)).foldl
      Progress.finishOne p) (l.foldl (Progress.turn d) q)
  | [], _, _, _, _, _, _, _, _, _, h => h
  | st :: l, produced, p, q, hj, hmem, hn, hnew, hdone, hagree, h => by
    rw [List.map_cons, List.nodup_cons] at hn
    rw [List.map_cons, List.foldl_cons, List.foldl_cons]
    have hst := h.finishOne hd hneeds (hmem st List.mem_cons_self) hj.2.1 hagree (hnew st List.mem_cons_self) hdone
    refine Alike.finishAll hd hneeds l hj.2.2 (fun st' h' => hmem st' (List.mem_cons_of_mem _ h')) hn.2 (fun st' h' => ?_)
      ?_ (hagree.turn hj.1) hst
    · rw [Progress.turn_done, List.mem_append, List.mem_singleton]
      refine not_or.mpr ⟨hnew st' (List.mem_cons_of_mem _ h'), fun he => hn.1 ?_⟩
      exact he ▸ List.mem_map_of_mem h'
    · rw [Progress.turn_done]
      exact fun _ hx => List.mem_append_left _ (hdone hx)

theorem Progress.wave_planned (p : Progress Crop Row Box) (first : Stage Crop Row Box) (others : List (Stage Crop Row Box)) :
    (p.wave d first others).planned = p.planned ++ d.runnable p.state p.done := by
  unfold Progress.wave
  by_cases h : others = []
  · rw [if_pos h, runOne_planned, plan_planned]
  · rw [if_neg h, ← plan_planned]
    exact foldl_keeps (I := fun q : Progress Crop Row Box => q.planned = _) (fun q b _ hq => (finishOne_planned q b).trans hq) rfl

/-- A round over a run comes to what the turns of its stages come to. -/
theorem Alike.wave {p q : Progress Crop Row Box} (h : Alike p q) (hd : (d.map Stage.name).Nodup)
    (hneeds : ∀ st ∈ d, ∀ name ∈ st.needs, name ∈ st.consumes) {first : Stage Crop Row Box} {others : List (Stage Crop Row Box)}
    (hj : others = [] ∨ Joined [] (first :: others)) (hmem : ∀ st ∈ first :: others, st ∈ d)
    (hn : ((first :: others).map Stage.name).Nodup) (hnew : ∀ st ∈ first :: others, st.name ∉ q.done) :
    Alike (p.wave d first others) ((first :: others).foldl (Progress.turn d) q) := by
  unfold Progress.wave
  dsimp only
  by_cases ho : others = []
  · rw [if_pos ho, ho, List.foldl_cons, List.foldl_nil]
    unfold Progress.turn Progress.runOne
    rw [h.state, h.done]
    dsimp only [Progress.plan_state]
    rw [h.state]
    by_cases hready : (d.runnable q.state q.done).contains first.name = true
    · rw [if_pos hready, if_pos hready]
      refine ⟨rfl, ?_, ?_⟩
      · show p.done ++ _ = q.done ++ _
        rw [h.done]
      · rw [Progress.finish_outcomes, Progress.finish_outcomes, Progress.plan_outcomes, Progress.plan_outcomes, h.outcomes]
    · rw [if_neg hready, if_neg hready]
      refine ⟨rfl, ?_, ?_⟩
      · show p.done ++ _ = q.done ++ _
        rw [h.done]
      · rw [Progress.finish_outcomes, Progress.finish_outcomes, Progress.plan_outcomes, Progress.plan_outcomes, h.outcomes]
  · rw [if_neg ho, h.state, h.done]
    refine Alike.finishAll hd hneeds (first :: others) (hj.resolve_left ho) hmem hn hnew (List.Subset.refl _) (fun _ _ => rfl) ?_
    exact ⟨h.state, h.done, by rw [Progress.plan_outcomes, h.outcomes]⟩

/-! ## What is announced -/

/-- The graph that runs one stage at a time, after its first stages. -/
def upTo (d : Dag Crop Row Box) (s : FrameState Crop Row Box) (first : List (Stage Crop Row Box)) : Progress Crop Row Box :=
  first.foldl (Progress.turn d) { state := s }

/-- No overlapping stage leaves a name empty that was not. -/
def KeepsFilled (d : Dag Crop Row Box) (s : FrameState Crop Row Box) : Prop :=
  ∀ before st after, d = before ++ st :: after → st.overlaps = true →
    ∀ name ∈ (d.upTo s before).state.nonEmpty, name ∈ (d.upTo s (before ++ [st])).state.nonEmpty

theorem upTo_append (s : FrameState Crop Row Box) (l m : List (Stage Crop Row Box)) :
    d.upTo s (l ++ m) = m.foldl (Progress.turn d) (d.upTo s l) := by rw [upTo, List.foldl_append]; rfl

theorem upTo_done (s : FrameState Crop Row Box) (l : List (Stage Crop Row Box)) : (d.upTo s l).done = l.map Stage.name := by
  rw [upTo, turns_done]
  exact List.nil_append _

omit d in
theorem Joined.overlaps {st : Stage Crop Row Box} : ∀ {produced : List String} {l : List (Stage Crop Row Box)},
    Joined produced l → st ∈ l → st.overlaps = true
  | _, st' :: l, hj, hst => by
    rcases List.mem_cons.mp hst with rfl | hst
    · exact hj.1
    · exact hj.2.2.overlaps hst

/-- What is ready stays ready along overlapping stages that empty nothing. -/
theorem ready_kept {s : FrameState Crop Row Box} (hfill : d.KeepsFilled s) {x : Stage Crop Row Box} :
    ∀ (l before after : List (Stage Crop Row Box)), d = before ++ (l ++ after) → (∀ st ∈ l, st.overlaps = true) →
      x.ready (d.upTo s before).state = true → x.ready (d.upTo s (before ++ l)).state = true
  | [], before, _, _, _, h => by rwa [List.append_nil]
  | st :: l, before, after, hdeq, ho, h => by
    have hst := ho st List.mem_cons_self
    have hnext : x.ready (d.upTo s (before ++ [st])).state = true := by
      rw [Stage.ready_iff] at h ⊢
      refine ⟨fun name hn => ?_, fun name hn => hfill before st (l ++ after) hdeq hst name (h.2 name hn)⟩
      obtain ⟨ws, -, hstate⟩ := (d.upTo s before).turn_writes (d := d) hst
      rw [upTo_append, List.foldl_cons, List.foldl_nil, hstate]
      exact FrameState.available_writes ws _ (h.1 name hn)
    have hrest := ready_kept hfill l (before ++ [st]) after (by rw [hdeq, List.append_assoc]; rfl)
      (fun st' h' => ho st' (List.mem_cons_of_mem _ h')) hnext
    rwa [List.append_assoc] at hrest

/-- What is announced in the middle of a run was announced before it, or is ready after it. -/
theorem announced_due (hd : (d.map Stage.name).Nodup) (hneeds : ∀ st ∈ d, ∀ name ∈ st.needs, name ∈ st.consumes)
    {s u : FrameState Crop Row Box} (done : List String) (hfill : d.KeepsFilled s) {name : String} :
    ∀ (l : List (Stage Crop Row Box)) (produced : List String) (before after : List (Stage Crop Row Box)),
      d = before ++ (l ++ after) → Joined produced l → Agree produced (d.upTo s before).state u →
      done ⊆ before.map Stage.name → name ∈ (d.upTo s (before ++ l)).planned →
      name ∈ (d.upTo s before).planned ∨ name ∈ d.runnable u done ∨
        name ∈ d.runnable (d.upTo s (before ++ l)).state (d.upTo s (before ++ l)).done
  | [], _, before, _, _, _, _, _, h => .inl (by rwa [List.append_nil] at h)
  | st :: l, produced, before, after, hdeq, hj, hagree, hdone, h => by
    have hsplit : before ++ st :: l = (before ++ [st]) ++ l := by simp
    have hturn : d.upTo s (before ++ [st]) = (d.upTo s before).turn d st := by rw [upTo_append]; rfl
    have hrest := announced_due hd hneeds (u := u) done hfill l (produced ++ st.produces) (before ++ [st]) after
      (by rw [hdeq]; simp) hj.2.2 (by rw [hturn]; exact hagree.turn hj.1)
      (fun x hx => by rw [List.map_append]; exact List.mem_append_left _ (hdone hx)) (by rwa [← hsplit])
    rw [hsplit]
    rcases hrest with hold | hu | hend
    · rw [hturn, Progress.turn_planned, List.mem_append] at hold
      rcases hold with hold | hnow
      · exact .inl hold
      · right
        obtain ⟨x, hx, hname, hnew, hready⟩ := mem_runnable.mp hnow
        subst hname
        rw [upTo_done] at hnew
        by_cases hxl : x ∈ st :: l
        · -- a later stage of the run reads nothing the run has produced so far
          left
          rw [name_mem_runnable hd hx]
          refine ⟨fun hmem => hnew (hdone hmem), ?_⟩
          rwa [← Stage.ready_congr (hneeds x hx) fun n hn => hagree n (hj.disjoint hxl n hn)]
        · right
          rw [name_mem_runnable hd hx, ← hsplit, upTo_done]
          refine ⟨fun hmem => ?_, ready_kept hfill (st :: l) before after hdeq (fun st' h' => hj.overlaps h') hready⟩
          rw [List.map_append, List.mem_append] at hmem
          obtain ⟨y, hy, hyx⟩ := List.mem_map.mp (hmem.resolve_left hnew)
          have hyd : y ∈ d := hdeq ▸ List.mem_append_right _ (List.mem_append_left _ hy)
          exact hxl (List.inj_on_of_nodup_map hd hyd hx hyx ▸ hy)
    · exact .inr (.inl hu)
    · exact .inr (.inr hend)

/-- The overlapped graph, against the other after the same stages. -/
structure Level (d : Dag Crop Row Box) (s : FrameState Crop Row Box) (before : List (Stage Crop Row Box))
    (p : Progress Crop Row Box) : Prop extends Alike p (d.upTo s before) where
  announced : p.planned ⊆ (d.upTo s before).planned
  due : d.KeepsFilled s → ∀ name ∈ (d.upTo s before).planned, name ∈ p.planned ∨ name ∈ d.runnable p.state p.done

theorem Level.wave {s : FrameState Crop Row Box} {before after others : List (Stage Crop Row Box)} {first : Stage Crop Row Box}
    {p : Progress Crop Row Box} (h : Level d s before p) (hd : (d.map Stage.name).Nodup)
    (hneeds : ∀ st ∈ d, ∀ name ∈ st.needs, name ∈ st.consumes) (hdeq : d = before ++ (first :: others ++ after))
    (hj : others = [] ∨ Joined [] (first :: others)) : Level d s (before ++ first :: others) (p.wave d first others) := by
  have hnames : (before.map Stage.name ++ ((first :: others).map Stage.name ++ after.map Stage.name)).Nodup := by
    rwa [← List.map_append, ← List.map_append, ← hdeq]
  have hmem : ∀ st ∈ first :: others, st ∈ d := fun st hst =>
    hdeq ▸ List.mem_append_right _ (List.mem_append_left _ hst)
  have hnew : ∀ st ∈ first :: others, st.name ∉ (d.upTo s before).done := fun st hst hx => by
    rw [upTo_done] at hx
    exact List.disjoint_of_nodup_append hnames hx (List.mem_append_left _ (List.mem_map_of_mem hst))
  refine ⟨?_, ?_, ?_⟩
  · rw [upTo_append]
    exact h.toAlike.wave hd hneeds hj hmem (hnames.of_append_right.of_append_left) hnew
  · rw [Progress.wave_planned, h.state, h.done, upTo_append, List.foldl_cons]
    refine List.Subset.trans (List.append_subset.mpr ⟨?_, ?_⟩) (turns_planned others _)
    · rw [Progress.turn_planned]
      exact List.Subset.trans h.announced (List.subset_append_left _ _)
    · rw [Progress.turn_planned]
      exact List.subset_append_right _ _
  · intro hfill name hname
    rw [Progress.wave_planned, List.mem_append]
    have hwave : Alike (p.wave d first others) (d.upTo s (before ++ first :: others)) := by
      rw [upTo_append]
      exact h.toAlike.wave hd hneeds hj hmem (hnames.of_append_right.of_append_left) hnew
    have hcase : name ∈ (d.upTo s before).planned ∨ name ∈ d.runnable p.state p.done ∨
        name ∈ d.runnable (d.upTo s (before ++ first :: others)).state (d.upTo s (before ++ first :: others)).done := by
      rcases hj with ho | hj
      · subst ho
        rw [upTo_append, List.foldl_cons, List.foldl_nil, Progress.turn_planned, List.mem_append] at hname
        rw [h.state, h.done]
        exact hname.imp_right .inl
      · exact announced_due hd hneeds _ hfill _ [] before after hdeq hj (fun n _ => by rw [h.state])
          (by rw [h.done, upTo_done]; exact List.Subset.refl _) hname
    rcases hcase with hold | hnow | hend
    · exact .inl ((h.due hfill name hold).imp_right id)
    · exact .inl (.inr hnow)
    · rw [hwave.state, hwave.done]
      exact .inr hend

theorem Level.loop {s : FrameState Crop Row Box} (hd : (d.map Stage.name).Nodup)
    (hneeds : ∀ st ∈ d, ∀ name ∈ st.needs, name ∈ st.consumes) : ∀ (fuel : Nat) (left before : List (Stage Crop Row Box))
    (p : Progress Crop Row Box), left.length ≤ fuel → d = before ++ left → Level d s before p → Level d s d (d.loop fuel left p)
  | 0, left, before, p, hfuel, hdeq, h => by
    have hleft : left = [] := List.length_eq_zero_iff.mp (Nat.le_zero.mp hfuel)
    rw [hleft, List.append_nil] at hdeq
    exact hdeq ▸ h
  | fuel + 1, [], before, p, _, hdeq, h => by
    rw [List.append_nil] at hdeq
    exact hdeq ▸ h
  | fuel + 1, first :: rest, before, p, hfuel, hdeq, h => by
    obtain ⟨hrest, hj⟩ := waveEnd_spec first rest
    have hsplit : first :: rest = (first :: (waveEnd first rest).1) ++ (waveEnd first rest).2 := by
      rw [List.cons_append, ← hrest]
    refine Level.loop hd hneeds fuel _ (before ++ first :: (waveEnd first rest).1) _ ?_ ?_
      (h.wave hd hneeds (by rw [← hsplit]; exact hdeq) hj)
    · have hlen := congrArg List.length hrest
      rw [List.length_append] at hlen
      rw [List.length_cons] at hfuel
      omega
    · rw [hdeq, hsplit, List.append_assoc]

theorem execute_level (s : FrameState Crop Row Box) (hd : (d.map Stage.name).Nodup)
    (hneeds : ∀ st ∈ d, ∀ name ∈ st.needs, name ∈ st.consumes) : Level d s d (d.execute s) := by
  refine Level.loop hd hneeds d.length d [] _ (Nat.le_refl _) rfl ⟨⟨rfl, rfl, rfl⟩, List.Subset.refl _, fun _ name hname => ?_⟩
  exact absurd hname List.not_mem_nil

end

/-- **The overlapped graph refines the one that runs its stages one at a time.** Each
stage comes to the same, on the same frame, and nothing is announced that would not be;
where no overlapping stage empties a name that was filled, the same stages are. -/
theorem execute_refines (d : Dag Crop Row Box) (s : FrameState Crop Row Box) (hd : (d.map Stage.name).Nodup)
    (hneeds : ∀ st ∈ d, ∀ name ∈ st.needs, name ∈ st.consumes) :
    (d.execute s).outcomes = (d.oneByOne s).outcomes ∧ (d.execute s).state = (d.oneByOne s).state ∧
      (∀ name ∈ (d.execute s).planned, name ∈ (d.oneByOne s).planned) ∧
      (d.KeepsFilled s → ∀ name, name ∈ (d.execute s).planned ↔ name ∈ (d.oneByOne s).planned) := by
  have h := execute_level s hd hneeds
  refine ⟨h.outcomes, h.state, fun name hname => h.announced hname, fun hfill name => ⟨fun hname => h.announced hname, fun hname => ?_⟩⟩
  -- after the last stage nothing is left to be ready
  rcases h.due hfill name hname with hp | hr
  · exact hp
  · obtain ⟨st, hst, rfl, hnew, -⟩ := mem_runnable.mp hr
    rw [h.done, upTo_done] at hnew
    exact absurd (List.mem_map_of_mem hst) hnew

/-- Two ship models over the crops of two classes, after the detector and the crops. -/
def shipWorld : World Nat Nat Nat (List Nat) (List Nat) where
  letterboxFrame _ := .ok {}
  inferDetector _ _ := .ok [0, 1]
  decode _ _ := .ok [⟨0, 0, 0⟩, ⟨1, 8, 1⟩]
  cropFrame _ _ := .ok id
  maxBatch _ := 1
  submit _ _ rows := .ok rows
  await rows := .ok rows
  responseRows := List.length
  ids _ _ := .ok none
  idRow _ := 0

def shipStages : List (AnyStage Nat (List Nat)) :=
  [.detect ⟨"detect", "yolo"⟩,
    .crop ⟨"crop", [{ name := "person_crops", className := "person", classId := 0 },
      { name := "ship_crops", className := "ship", classId := 8 }], List.cons_ne_nil _ _⟩,
    .object ⟨"embed_person", "reid", "person_crops", "person_vectors", fun rows => .ok ⟨rows, 1⟩⟩,
    .object ⟨"embed_ship", "reid", "ship_crops", "ship_vectors", fun rows => .ok ⟨rows, 1⟩⟩]

def shipDag : Dag Nat Nat Nat := shipStages.map fun st => st.toStage shipWorld

theorem shipDag_keepsFilled : shipDag.KeepsFilled { hasPixels := true } := by
  intro before st after h ho
  unfold shipDag shipStages at h
  simp only [List.map_cons, List.map_nil] at h
  rcases before with _ | ⟨a, _ | ⟨b, _ | ⟨c, _ | ⟨e, before⟩⟩⟩⟩
  · cases h; cases ho
  · cases h; cases ho
  · cases h; decide +kernel
  · cases h; decide +kernel
  · simp at h

theorem shipDag_refines :
    (shipDag.execute { hasPixels := true }).outcomes = (shipDag.oneByOne { hasPixels := true }).outcomes ∧
      (shipDag.execute { hasPixels := true }).state = (shipDag.oneByOne { hasPixels := true }).state ∧
      ∀ name, name ∈ (shipDag.execute { hasPixels := true }).planned ↔
        name ∈ (shipDag.oneByOne { hasPixels := true }).planned := by
  have h := execute_refines shipDag { hasPixels := true } (by decide) (fun st hst => by
    obtain ⟨any, -, rfl⟩ := List.mem_map.mp hst
    exact any.needs_consumed shipWorld)
  exact ⟨h.1, h.2.1, h.2.2.2 shipDag_keepsFilled⟩

/-- A stage that answers with so many rows under a name, whatever the frame. -/
def answering (name produced : String) (rows : Nat) : Stage Nat Nat Nat where
  name := name
  consumes := []
  needs := []
  produces := [produced]
  work := .split (fun _ => .ok fun _ => ([.batch { name := produced, objectIndices := List.range rows }], .ok rows))
    (fun _ _ _ => rfl) (fun s doFinish h t w hw => by
      cases h
      rw [List.mem_singleton.mp hw]
      exact List.mem_cons_self)

def reading (name consumed : String) : Stage Nat Nat Nat :=
  ⟨name, [consumed], [consumed], [], .whole fun s => (s, .ok 0)⟩

/-- Two stages of a run under one name: one at a time, the second is done already.
Two that answer one name, the second with no rows: one at a time, a stage that reads it
is announced between them. -/
theorem announced_between :
    let twice : Dag Nat Nat Nat := [answering "embed" "x" 1, answering "embed" "y" 1]
    let emptied : Dag Nat Nat Nat := [answering "one" "x" 1, answering "two" "x" 0, reading "three" "x"]
    (∀ st ∈ twice ++ emptied, ∀ name ∈ st.needs, name ∈ st.consumes) ∧
      (twice.execute { hasPixels := true }).outcomes ≠ (twice.oneByOne { hasPixels := true }).outcomes ∧
      "y" ∈ (twice.execute { hasPixels := true }).state.available ∧
      "y" ∉ (twice.oneByOne { hasPixels := true }).state.available ∧
      (emptied.map Stage.name).Nodup ∧
      "three" ∈ (emptied.oneByOne { hasPixels := true }).planned ∧
      "three" ∉ (emptied.execute { hasPixels := true }).planned := by
  decide +kernel

end Dag

end ShipInfer.Perception.Cpp
