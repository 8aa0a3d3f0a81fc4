import Mathlib.Data.List.Pairwise
import ShipInfer.Perception.Graph

/-!
# Planning and release

A name is released after its last reader, so a frame looks to every stage as if nothing
ever were. A stage announced is run unless a stage before it takes away, by attaching an
empty batch, a name it requires: no graph does where no stage replaces a name required by
one that may be announced before.
-/

namespace ShipInfer.Perception

open ShipInfer.Reassembly (PendingFrame PendingKey)

/-! ## What a stage finds under a name -/

namespace FrameState

variable {s s' : FrameState} {n : String}

theorem available_iff : s.available n = true ↔
    (s.view n).batch ≠ none ∨ (∃ k, (s.view n).image = some k ∧ k ≠ 0) ∨ (s.view n).detections ≠ none := by
  simp [available, view, Dict.contains, Option.isSome_iff_ne_none, and_comm, or_assoc]

theorem nonEmpty_iff : s.nonEmpty n = true ↔ (∃ k, (s.view n).batch = some k ∧ k ≠ 0) ∨
    (∃ k, (s.view n).image = some k ∧ k ≠ 0) ∨ ∃ k, (s.view n).detections = some k ∧ k ≠ 0 := by
  simp [nonEmpty, view, Option.any_eq_true, and_comm, and_left_comm, or_assoc]

theorem available_of_view (h : s.view n = s'.view n) : s.available n = s'.available n := by
  rw [Bool.eq_iff_iff, available_iff, available_iff, h]

theorem nonEmpty_of_view (h : s.view n = s'.view n) : s.nonEmpty n = s'.nonEmpty n := by
  rw [Bool.eq_iff_iff, nonEmpty_iff, nonEmpty_iff, h]

theorem available_of_nonEmpty (h : s.nonEmpty n = true) : s.available n = true := by
  rw [available_iff]
  rcases nonEmpty_iff.mp h with ⟨k, hk, -⟩ | h | ⟨k, hk, -⟩
  · exact .inl (by simp [hk])
  · exact .inr (.inl h)
  · exact .inr (.inr (by simp [hk]))

theorem view_apply (e : Effect) (h : s.view n = s'.view n) : (s.apply e).view n = (s'.apply e).view n := by
  simp only [view, View.mk.injEq] at h
  obtain ⟨hbatch, himage, hdetections⟩ := h
  cases e with
  | attach name rows => simp [view, apply, attach, Dict.get?_set, hbatch, himage, hdetections]
  | setDetections rows => simp [view, apply, setDetections, hbatch, himage]

/-- An effect touches no name but its own. -/
theorem view_apply_other (s : FrameState) {e : Effect} (h : n ≠ e.name) : (s.apply e).view n = s.view n := by
  cases e with
  | attach name rows =>
    have hne : n ≠ name := h
    simp [view, apply, attach, Dict.get?_set, hne]
  | setDetections rows =>
    have hne : n ≠ detectionsName := h
    simp [view, apply, setDetections, hne]

theorem available_apply (e : Effect) (h : s.available n = true) : (s.apply e).available n = true := by
  by_cases hn : n = e.name
  · rw [available_iff]
    cases e with
    | attach name rows => exact .inl (by simp [view, apply, attach, show n = name from hn])
    | setDetections rows => exact .inr (.inr (by simp [view, apply, setDetections, show n = detectionsName from hn]))
  · rw [available_of_view (view_apply_other s hn)]
    exact h

/-- What is there after an effect was there before, or is its name. -/
theorem of_available_apply {e : Effect} (h : (s.apply e).available n = true) : s.available n = true ∨ n = e.name := by
  by_cases hn : n = e.name
  · exact .inr hn
  · rw [available_of_view (view_apply_other s hn)] at h
    exact .inl h

@[simp] theorem image_apply (s : FrameState) (e : Effect) : (s.apply e).image = s.image := by
  cases e <;> rfl

theorem view_releaseImage (h : n ≠ frameInput) : s.releaseImage.view n = s.view n := by
  simp [view, releaseImage, h]

theorem view_drop {name : String} (h : n ≠ name) : (s.drop name).view n = s.view n := by
  simp [view, drop, Dict.get?_erase, h]

end FrameState

open FrameState

namespace PipelineGraph

/-- A release touches nothing but what it frees. -/
theorem view_release {n : String} : ∀ {dead : List String} {s : FrameState}, n ∉ dead → (release s dead).view n = s.view n
  | [], s, _ => rfl
  | name :: dead, s, h => by
    obtain ⟨hname, hdead⟩ := not_or.mp (fun hor => h (List.mem_cons.mpr hor))
    unfold release
    rw [List.foldl_cons]
    refine (view_release hdead).trans ?_
    by_cases himage : name = frameInput
    · rw [if_pos himage]
      exact view_releaseImage (fun hn => hname (hn.trans himage.symm))
    · rw [if_neg himage]
      exact view_drop hname

/-- Effects on the frame, one after another. -/
def applyAll (s : FrameState) (effects : List Effect) : FrameState := effects.foldl FrameState.apply s

section
variable {s s' : FrameState} {n : String}

theorem view_applyAll : ∀ (effects : List Effect) {s s' : FrameState}, s.view n = s'.view n →
    (applyAll s effects).view n = (applyAll s' effects).view n
  | [], _, _, h => h
  | e :: effects, _, _, h => view_applyAll effects (view_apply e h)

theorem view_applyAll_other : ∀ {effects : List Effect} {s : FrameState}, (∀ e ∈ effects, n ≠ e.name) →
    (applyAll s effects).view n = s.view n
  | [], _, _ => rfl
  | e :: _, s, h =>
    (view_applyAll_other (s := s.apply e) fun e he => h e (List.mem_cons_of_mem _ he)).trans
      (view_apply_other s (h e List.mem_cons_self))

theorem available_applyAll : ∀ (effects : List Effect) {s : FrameState}, s.available n = true →
    (applyAll s effects).available n = true
  | [], _, h => h
  | e :: effects, _, h => available_applyAll effects (available_apply e h)

theorem of_available_applyAll : ∀ {effects : List Effect} {s : FrameState}, (applyAll s effects).available n = true →
    s.available n = true ∨ ∃ e ∈ effects, n = e.name
  | [], _, h => .inl h
  | e :: effects, s, h => by
    cases of_available_applyAll (s := s.apply e) h with
    | inl h =>
      cases of_available_apply h with
      | inl h => exact .inl h
      | inr h => exact .inr ⟨e, List.mem_cons_self, h⟩
    | inr h =>
      obtain ⟨e', he', hn⟩ := h
      exact .inr ⟨e', List.mem_cons_of_mem _ he', hn⟩

@[simp] theorem image_applyAll : ∀ (effects : List Effect) (s : FrameState), (applyAll s effects).image = s.image
  | [], _ => rfl
  | e :: effects, s => (image_applyAll effects (s.apply e)).trans (image_apply s e)

end

/-! ## Liveness -/

theorem get?_reads (index : Nat) {n : String} : ∀ {names : List String} {last : Dict String Nat},
    (names.foldl (fun last name => last.set name index) last).get? n = if n ∈ names then some index else last.get? n
  | [], last => by simp
  | name :: names, last => by
    rw [List.foldl_cons, get?_reads, Dict.get?_set]
    by_cases hn : n = name
    · simp [hn]
    · simp [hn]

theorem lastReader_keeps {n : String} {k : Nat} : ∀ {l : List (Stage × Nat)} {last : Dict String Nat},
    (∀ p ∈ l, k ≤ p.2) → (∃ i, last.get? n = some i ∧ k ≤ i) → ∃ i, (lastReader l last).get? n = some i ∧ k ≤ i
  | [], _, _, h => h
  | p :: l, last, hl, h => by
    show ∃ i, (lastReader l (p.1.reads.foldl (fun last name => last.set name p.2) last)).get? n = some i ∧ k ≤ i
    refine lastReader_keeps (fun q hq => hl q (List.mem_cons_of_mem _ hq)) ?_
    rw [get?_reads]
    by_cases hn : n ∈ p.1.reads
    · exact ⟨p.2, by simp [hn], hl p List.mem_cons_self⟩
    · simpa [hn] using h

/-- Every reader of a name is at or before its last. -/
theorem le_lastReader {n : String} : ∀ {l : List (Stage × Nat)} {last : Dict String Nat},
    l.Pairwise (fun p q => p.2 ≤ q.2) → ∀ p ∈ l, n ∈ p.1.reads → ∃ i, (lastReader l last).get? n = some i ∧ p.2 ≤ i
  | [], _, _, p, hp, _ => (List.not_mem_nil hp).elim
  | q :: l, last, hl, p, hp, hn => by
    obtain ⟨hq, hl⟩ := List.pairwise_cons.mp hl
    cases List.mem_cons.mp hp with
    | inl h =>
      subst h
      show ∃ i, (lastReader l (p.1.reads.foldl (fun last name => last.set name p.2) last)).get? n = some i ∧ p.2 ≤ i
      refine lastReader_keeps hq ⟨p.2, ?_, Nat.le_refl _⟩
      rw [get?_reads, if_pos hn]
    | inr h => exact le_lastReader hl p h hn

theorem pairwise_zipIdx (stages : List Stage) : ∀ k, (stages.zipIdx k).Pairwise (fun p q => p.2 < q.2) := by
  induction stages with
  | nil => simp
  | cons st stages ih =>
    intro k
    rw [List.zipIdx_cons, List.pairwise_cons]
    refine ⟨fun p hp => ?_, ih (k + 1)⟩
    exact (List.mem_zipIdx hp).1

/-- What is freed after a stage no later stage reads. -/
theorem planned_spent (g : PipelineGraph) :
    (g.stages.zipIdx.map fun p => (p.1, g.deadAfter p.2)).Pairwise fun p q => ∀ n ∈ p.2, n ∉ q.1.reads := by
  have horder := pairwise_zipIdx g.stages 0
  rw [List.pairwise_map]
  refine (List.Pairwise.and_mem.mp horder).imp fun {p q} h n hdead hn => ?_
  obtain ⟨-, hq, hlt⟩ := h
  obtain ⟨d, hd, rfl⟩ := List.mem_map.mp hdead
  obtain ⟨hentry, hkeep⟩ := List.mem_filter.mp hd
  simp only [Bool.and_eq_true, decide_eq_true_eq] at hkeep
  obtain ⟨i, hget, hle⟩ := le_lastReader (horder.imp fun h => h.le) q hq hn
  rw [Dict.get?_eq_some_iff] at hget
  have hsame : i = d.2 := Dict.entry_unique hget hentry
  omega

/-! ## What lies ahead -/

/-- The stages left are those not done, and free nothing that is read after. -/
structure Ahead (g : PipelineGraph) (l : List (Stage × List String)) (done : List String) : Prop where
  stages : ∀ st, st ∈ l.map Prod.fst ↔ st ∈ g.stages ∧ st.name ∉ done
  names : (l.map fun p => p.1.name).Nodup
  spent : l.Pairwise fun p q => ∀ n ∈ p.2, n ∉ q.1.reads

theorem ahead_planned (g : PipelineGraph) : Ahead g (g.stages.zipIdx.map fun p => (p.1, g.deadAfter p.2)) [] where
  stages st := by
    rw [List.map_map]
    show st ∈ g.stages.zipIdx.map Prod.fst ↔ _
    simp
  names := by
    rw [List.map_map]
    show (g.stages.zipIdx.map fun p => p.1.name).Nodup
    have h := g.names_nodup
    rw [← List.zipIdx_map_fst 0 g.stages, List.map_map] at h
    exact h
  spent := planned_spent g

theorem ahead_keeping (g : PipelineGraph) : Ahead g (g.stages.map fun st => (st, [])) [] where
  stages st := by simp [Function.comp_def]
  names := by
    rw [List.map_map]
    exact g.names_nodup
  spent := by
    rw [List.pairwise_map]
    exact List.pairwise_of_forall fun _ _ _ h => (List.not_mem_nil h).elim

variable {g : PipelineGraph} {l rest : List (Stage × List String)} {done dead : List String} {st c : Stage}
  {s s' : FrameState} {n : String} {outcomes : Stage → Outcome}

theorem Ahead.head (h : Ahead g ((st, dead) :: rest) done) : st ∈ g.stages ∧ st.name ∉ done :=
  (h.stages st).mp List.mem_cons_self

/-- Names tell the stages ahead apart. -/
theorem Ahead.unique (h : Ahead g l done) {p q : Stage × List String} (hp : p ∈ l) (hq : q ∈ l) (hname : p.1.name = q.1.name) :
    p.1 = q.1 := by
  rw [List.inj_on_of_nodup_map h.names hp hq hname]

theorem Ahead.tail (h : Ahead g ((st, dead) :: rest) done) : Ahead g rest (st.name :: done) where
  stages c := by
    obtain ⟨hfresh, -⟩ := List.nodup_cons.mp h.names
    constructor
    · intro hc
      obtain ⟨hmem, hdone⟩ := (h.stages c).mp (List.mem_cons_of_mem _ hc)
      refine ⟨hmem, fun hname => ?_⟩
      cases List.mem_cons.mp hname with
      | inl heq =>
        obtain ⟨p, hp, rfl⟩ := List.mem_map.mp hc
        exact hfresh (List.mem_map.mpr ⟨p, hp, heq⟩)
      | inr hin => exact hdone hin
    · intro ⟨hmem, hname⟩
      obtain ⟨hne, hdone⟩ := not_or.mp (fun hor => hname (List.mem_cons.mpr hor))
      cases List.mem_cons.mp ((h.stages c).mpr ⟨hmem, hdone⟩) with
      | inl heq => exact absurd (congrArg Stage.name heq) hne
      | inr hin => exact hin
  names := (List.nodup_cons.mp h.names).2
  spent := (List.pairwise_cons.mp h.spent).2

/-- Announced are the stages ahead whose gate is open. -/
theorem Ahead.mem_runnable (h : Ahead g l done) {name : String} :
    name ∈ g.runnable s done ↔ ∃ st ∈ l.map Prod.fst, st.name = name ∧ gate s st = true := by
  simp only [runnable, List.mem_map, List.mem_filter, Bool.and_eq_true, Bool.not_eq_true', List.contains_eq_mem,
    decide_eq_false_iff_not]
  constructor
  · intro ⟨st, ⟨hmem, hdone, hgate⟩, hname⟩
    exact ⟨st, List.mem_map.mp ((h.stages st).mpr ⟨hmem, hdone⟩), hname, hgate⟩
  · intro ⟨st, hst, hname, hgate⟩
    obtain ⟨hmem, hdone⟩ := (h.stages st).mp (List.mem_map.mpr hst)
    exact ⟨st, ⟨hmem, hdone, hgate⟩, hname⟩

theorem Ahead.contains_head (h : Ahead g ((st, dead) :: rest) done) : (g.runnable s done).contains st.name = gate s st := by
  rw [Bool.eq_iff_iff, List.contains_iff_mem, h.mem_runnable]
  constructor
  · intro ⟨c, hc, hname, hgate⟩
    obtain ⟨p, hp, rfl⟩ := List.mem_map.mp hc
    rw [h.unique hp List.mem_cons_self hname] at hgate
    exact hgate
  · intro hgate
    exact ⟨st, List.mem_cons_self, rfl, hgate⟩

/-- The frame after a stage's turn, before the release. -/
def afterTurn (outcomes : Stage → Outcome) (st : Stage) (s : FrameState) : FrameState :=
  if gate s st then applyAll s (outcomes st).effects else s

def statusOf (outcomes : Stage → Outcome) (st : Stage) (s : FrameState) : StageStatus :=
  if gate s st then (if (outcomes st).failed then .failed else .ran) else .skipped

theorem Ahead.loop_cons (h : Ahead g ((st, dead) :: rest) done) (outcomes : Stage → Outcome) (s : FrameState) :
    g.loop outcomes ((st, dead) :: rest) done s =
      { stage := st, state := s, ready := g.runnable s done, status := statusOf outcomes st s } ::
        g.loop outcomes rest (st.name :: done) (release (afterTurn outcomes st s) dead) := by
  rw [loop, h.contains_head]
  by_cases hgate : gate s st = true
  · simp [hgate, statusOf, afterTurn, Stage.run, applyAll]
  · simp [hgate, statusOf, afterTurn]

theorem status_ne_skipped : statusOf outcomes st s ≠ .skipped ↔ gate s st = true := by
  unfold statusOf
  by_cases hgate : gate s st = true
  · by_cases hfailed : (outcomes st).failed = true <;> simp [hgate, hfailed]
  · simp [hgate]

/-! ## Nothing is missed for having been released -/

/-- Every stage requires what it consumes. -/
def Gated (g : PipelineGraph) : Prop := ∀ st ∈ g.stages, ∀ n ∈ st.requires, n ∈ st.consumes

theorem gate_iff : gate s st = true ↔ (∀ n ∈ st.consumes, s.available n = true) ∧ ∀ n ∈ st.requires, s.nonEmpty n = true := by
  simp [gate]

theorem gate_of_views (hreq : ∀ n ∈ st.requires, n ∈ st.consumes) (h : ∀ n ∈ st.reads, s.view n = s'.view n) :
    gate s st = gate s' st := by
  have hconsumes : ∀ n ∈ st.consumes, s.view n = s'.view n := fun n hn => h n (List.mem_append_left _ hn)
  have havailable : (∀ n ∈ st.consumes, s.available n = true) ↔ ∀ n ∈ st.consumes, s'.available n = true :=
    forall₂_congr fun n hn => by rw [available_of_view (hconsumes n hn)]
  have hnonEmpty : (∀ n ∈ st.requires, s.nonEmpty n = true) ↔ ∀ n ∈ st.requires, s'.nonEmpty n = true :=
    forall₂_congr fun n hn => by rw [nonEmpty_of_view (hconsumes n (hreq n hn))]
  rw [Bool.eq_iff_iff, gate_iff, gate_iff, havailable, hnonEmpty]

/-- What a round shows: who was announced, what became of its stage, and what the stage
found under each name it reads. -/
def Turn.shown (t : Turn) : Stage × List String × StageStatus × List FrameState.View :=
  (t.stage, t.ready, t.status, t.stage.reads.map t.state.view)

theorem loop_shown (hreq : Gated g) : ∀ {l k : List (Stage × List String)} {done : List String} {s s' : FrameState},
    Ahead g l done → Ahead g k done → l.map Prod.fst = k.map Prod.fst →
      (∀ p ∈ l, ∀ n ∈ p.1.reads, s.view n = s'.view n) →
      (g.loop outcomes l done s).map Turn.shown = (g.loop outcomes k done s').map Turn.shown
  | [], [], _, _, _, _, _, _, _ => rfl
  | (st, dead) :: rest, (st', dead') :: rest', done, s, s', h, h', heq, hviews => by
    obtain ⟨rfl, htail⟩ := List.cons.inj heq
    have hall : ∀ c ∈ ((st, dead) :: rest).map Prod.fst, ∀ n ∈ c.reads, s.view n = s'.view n := by
      intro c hc
      obtain ⟨p, hp, rfl⟩ := List.mem_map.mp hc
      exact hviews p hp
    have hgate : ∀ c ∈ ((st, dead) :: rest).map Prod.fst, gate s c = gate s' c := fun c hc =>
      gate_of_views (hreq c ((h.stages c).mp hc).1) (hall c hc)
    have hhead : gate s st = gate s' st := hgate st List.mem_cons_self
    have hready : g.runnable s done = g.runnable s' done := by
      unfold runnable
      congr 1
      apply List.filter_congr
      intro c hc
      by_cases hdone : c.name ∈ done
      · simp [hdone]
      · rw [hgate c ((h.stages c).mpr ⟨hc, hdone⟩)]
    rw [h.loop_cons, h'.loop_cons, List.map_cons, List.map_cons]
    congr 1
    · simp only [Turn.shown, hready, statusOf, hhead]
      rw [List.map_congr_left fun n hn => hviews (st, dead) List.mem_cons_self n hn]
    · refine loop_shown hreq h.tail h'.tail htail fun p hp n hn => ?_
      have hbefore := hviews p (List.mem_cons_of_mem _ hp) n hn
      have hspent : n ∉ dead := fun hd => (List.pairwise_cons.mp h.spent).1 p hp n hd hn
      have hspent' : n ∉ dead' := by
        intro hd
        have hmem : p.1 ∈ rest'.map Prod.fst := htail ▸ List.mem_map_of_mem hp
        obtain ⟨q, hq, hqp⟩ := List.mem_map.mp hmem
        exact (List.pairwise_cons.mp h'.spent).1 q hq n hd (hqp ▸ hn)
      rw [view_release hspent, view_release hspent', afterTurn, afterTurn, hhead]
      split
      · exact view_applyAll _ hbefore
      · exact hbefore

/-! ## What is announced is run -/

/-- The names the pixels are known by, where there are any. -/
def frameNames (size : Nat) : List String := if size = 0 then [] else [frameInput]

def within (names : List String) (st : Stage) : Bool := st.consumes.all fun n => names.contains n

/-- The names there may be after a stage's turn. -/
def supplied (names : List String) (st : Stage) : List String := if within names st then names ++ st.produces else names

/-- No stage that may run produces a name that a later stage requires, which may be
announced before it; the pixels are there whoever produces a batch of their name. -/
def NeverReplaced (size : Nat) : List String → List Stage → Prop
  | _, [] => True
  | names, st :: rest =>
    (within names st = true → ∀ c ∈ rest, within names c = true → ∀ n ∈ c.requires, n ∈ st.produces → n ∈ frameNames size) ∧
      NeverReplaced size (supplied names st) rest

/-- Every stage announced is run, in that round or a later one. -/
def AnnouncedRun (turns : List Turn) : Prop :=
  ∀ before t after, turns = before ++ t :: after → ∀ name ∈ t.ready, ∃ u ∈ t :: after, u.stage.name = name ∧ u.status ≠ .skipped

/-- A stage attaches under its declared names. -/
def Declared (g : PipelineGraph) (outcomes : Stage → Outcome) : Prop :=
  ∀ st ∈ g.stages, ∀ e ∈ (outcomes st).effects, e.name ∈ st.produces

theorem within_iff {names : List String} : within names st = true ↔ ∀ n ∈ st.consumes, n ∈ names := by
  simp [within]

/-- What is known of a frame as stages lie ahead: which names may be there, and that the
pixels are while they are still read. -/
structure Stocked (size : Nat) (names : List String) (l : List (Stage × List String)) (s : FrameState) : Prop where
  names : ∀ n, s.available n = true → n ∈ names
  image : (∃ p ∈ l, frameInput ∈ p.1.reads) → s.image = size

theorem image_release : ∀ {dead : List String} {s : FrameState}, frameInput ∉ dead → (release s dead).image = s.image
  | dead, s, h => by
    have hview := congrArg FrameState.View.image (view_release (s := s) h)
    simpa [FrameState.view] using hview

theorem available_release : ∀ (dead : List String) {s : FrameState}, (release s dead).available n = true → s.available n = true
  | [], s, h => h
  | name :: dead, s, h => by
    have hrest := available_release dead (s := if name = frameInput then s.releaseImage else s.drop name) h
    rw [FrameState.available_iff] at hrest ⊢
    split at hrest
    · simp only [FrameState.view, FrameState.releaseImage] at hrest ⊢
      grind
    · simp only [FrameState.view, FrameState.drop, Dict.get?_erase] at hrest ⊢
      grind

theorem supplied_of_mem {names : List String} (h : n ∈ names) : n ∈ supplied names st := by
  unfold supplied
  split
  · exact List.mem_append_left _ h
  · exact h

section
variable {size : Nat} {names : List String}

theorem Stocked.within (hs : Stocked size names l s) (h : gate s st = true) : within names st = true :=
  within_iff.mpr fun n hn => hs.names n ((gate_iff.mp h).1 n hn)

theorem image_afterTurn (outcomes : Stage → Outcome) (st : Stage) (s : FrameState) : (afterTurn outcomes st s).image = s.image := by
  unfold afterTurn
  split
  · exact image_applyAll _ s
  · rfl

theorem Stocked.next (hs : Stocked size names ((st, dead) :: rest) s) (h : Ahead g ((st, dead) :: rest) done)
    (hdeclared : Declared g outcomes) : Stocked size (supplied names st) rest (release (afterTurn outcomes st s) dead) where
  names n hn := by
    have hn := available_release _ hn
    unfold afterTurn at hn
    split at hn
    next hgate =>
      cases of_available_applyAll hn with
      | inl hold => exact supplied_of_mem (hs.names n hold)
      | inr hnew =>
        obtain ⟨e, he, rfl⟩ := hnew
        rw [supplied, if_pos (hs.within hgate)]
        exact List.mem_append_right _ (hdeclared st h.head.1 e he)
    · exact supplied_of_mem (hs.names n hn)
  image := by
    intro ⟨p, hp, hreads⟩
    rw [image_release fun hd => (List.pairwise_cons.mp h.spent).1 p hp _ hd hreads, image_afterTurn]
    exact hs.image ⟨p, List.mem_cons_of_mem _ hp, hreads⟩

/-- An open gate stays open: what a later stage consumes is not freed, and what it requires
not replaced. -/
theorem gate_kept (hreq : Gated g) (hdeclared : Declared g outcomes) (h : Ahead g ((st, dead) :: rest) done)
    (hs : Stocked size names ((st, dead) :: rest) s)
    (hkept : within names st = true → within names c = true → ∀ n ∈ c.requires, n ∈ st.produces → n ∈ frameNames size)
    (hc : c ∈ rest.map Prod.fst) (hgate : gate s c = true) : gate (release (afterTurn outcomes st s) dead) c = true := by
  obtain ⟨p, hp, rfl⟩ := List.mem_map.mp hc
  obtain ⟨hconsumes, hrequires⟩ := gate_iff.mp hgate
  have hmem : p.1 ∈ g.stages := ((h.stages p.1).mp (List.mem_cons_of_mem _ hc)).1
  have hview : ∀ n ∈ p.1.consumes, (release (afterTurn outcomes st s) dead).view n = (afterTurn outcomes st s).view n := by
    intro n hn
    exact view_release fun hd => (List.pairwise_cons.mp h.spent).1 p hp n hd (List.mem_append_left _ hn)
  refine gate_iff.mpr ⟨fun n hn => ?_, fun n hn => ?_⟩
  · rw [available_of_view (hview n hn), afterTurn]
    split
    · exact available_applyAll _ (hconsumes n hn)
    · exact hconsumes n hn
  · have hin := hreq p.1 hmem n hn
    rw [nonEmpty_of_view (hview n hin)]
    by_cases hst : gate s st = true
    · by_cases hprod : n ∈ st.produces
      · -- a name that is replaced is that of the pixels, which are still read
        have hpixels := hkept (hs.within hst) (hs.within hgate) n hn hprod
        by_cases hsize : size = 0
        · simp [frameNames, hsize] at hpixels
        simp only [frameNames, if_neg hsize, List.mem_singleton] at hpixels
        have himage : (afterTurn outcomes st s).image = size := by
          rw [image_afterTurn]
          exact hs.image ⟨p, List.mem_cons_of_mem _ hp, hpixels ▸ List.mem_append_left _ hin⟩
        rw [FrameState.nonEmpty_iff]
        refine .inr (.inl ⟨size, ?_, hsize⟩)
        simp [FrameState.view, hpixels, himage]
      · rw [afterTurn, if_pos hst, nonEmpty_of_view (view_applyAll_other fun e he hne => hprod ?_)]
        · exact hrequires n hn
        · rw [hne]
          exact hdeclared st h.head.1 e he
    · rw [afterTurn, if_neg hst]
      exact hrequires n hn

theorem run_announced (hreq : Gated g) (hdeclared : Declared g outcomes) : ∀ {l : List (Stage × List String)}
    {done names : List String} {s : FrameState}, Ahead g l done → Stocked size names l s →
      NeverReplaced size names (l.map Prod.fst) →
      (∀ c ∈ l.map Prod.fst, gate s c = true → ∃ u ∈ g.loop outcomes l done s, u.stage = c ∧ u.status ≠ .skipped) ∧
        AnnouncedRun (g.loop outcomes l done s)
  | [], done, names, s, _, _, _ => by
    refine ⟨fun c hc => (List.not_mem_nil hc).elim, fun before t after h => ?_⟩
    simp [loop] at h
  | (st, dead) :: rest, done, names, s, h, hs, hnever => by
    obtain ⟨hkept, hnext⟩ := hnever
    obtain ⟨hrun, hannounced⟩ := run_announced hreq hdeclared h.tail (hs.next h hdeclared) hnext
    have hall : ∀ c ∈ ((st, dead) :: rest).map Prod.fst, gate s c = true →
        ∃ u ∈ g.loop outcomes ((st, dead) :: rest) done s, u.stage = c ∧ u.status ≠ .skipped := by
      intro c hc hgate
      rw [h.loop_cons]
      cases List.mem_cons.mp hc with
      | inl heq =>
        subst heq
        exact ⟨_, List.mem_cons_self, rfl, status_ne_skipped.mpr hgate⟩
      | inr hin =>
        have hopen := gate_kept hreq hdeclared h hs (fun hst hwc => hkept hst c hin hwc) hin hgate
        obtain ⟨u, hu, hstage, hstatus⟩ := hrun c hin hopen
        exact ⟨u, List.mem_cons_of_mem _ hu, hstage, hstatus⟩
    refine ⟨hall, fun before t after heq name hname => ?_⟩
    cases before with
    | nil =>
      rw [h.loop_cons] at heq
      obtain ⟨rfl, rfl⟩ := List.cons.inj heq
      obtain ⟨c, hc, rfl, hgate⟩ := h.mem_runnable.mp hname
      obtain ⟨u, hu, hstage, hstatus⟩ := hall c hc hgate
      rw [h.loop_cons] at hu
      exact ⟨u, hu, by rw [hstage], hstatus⟩
    | cons b before =>
      rw [h.loop_cons] at heq
      exact hannounced before t after (List.cons.inj heq).2 name hname

end

end PipelineGraph

end ShipInfer.Perception
