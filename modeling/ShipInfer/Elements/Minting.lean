import Mathlib.Data.List.Nodup
import Mathlib.Data.Rat.Defs
import Mathlib.Algebra.Order.Ring.Rat
import ShipInfer.Lib.Machine
import ShipInfer.Lib.Numerals

/-!
# Identities minted by the recogniser

`GalleryRecognize._do_process` with `_enrol` and `_mint`
(`topology/elements/recognize.py`), fed by the cameras' frame counters
(`ingest/frame/tag.py`). The gallery library is a parameter. Each gallery call of a
row is one step, and other frames' rows move between them; the curated store has no
writer, so asking both stores is one step. An actor whose camera was removed may
still publish, and nothing is said of when.
-/

namespace ShipInfer.Elements

/-- What a query accepted. -/
structure GalleryMatch where
  identity : String
  score : ℚ
  deriving DecidableEq

structure GalleryEmbedding (ν : Type*) where
  vector : ν
  identity : String
  camera : String
  frame : Nat

/-- The galleries of the library, at the element's threshold; either call may raise. -/
structure Gallery (γ ν : Type*) where
  query : γ → ν → (excludeCamera : Option String) → Except String (Option GalleryMatch)
  add : γ → GalleryEmbedding ν → Except String γ

/-- An element that is open, with its two stores. -/
structure GalleryRecognize (γ : Type*) where
  enrolEnabled : Bool := false
  enrolFloor : ℚ
  enrolPrefix : String := "auto"
  gallery : γ
  enrolled : Option γ

/-- A row of `vectors` with its detection's confidence. -/
structure VectorRow (ν : Type*) where
  index : Nat
  vector : ν
  confidence : Option ℚ

/-- The selected rows of one frame; `rows_by_index` answers none twice. -/
structure FrameRows (ν : Type*) where
  rows : List (VectorRow ν)
  nodup : (rows.map VectorRow.index).Nodup

/-- Where a frame's first remaining row is. -/
inductive RowPhase
  | matching
  /-- It matched nothing, and is good enough to enrol. -/
  | checking
  | adding
  deriving DecidableEq

/-- A frame on its way through `_do_process`: the rows to come, and what is filed. -/
structure FrameItem (ν : Type*) where
  camera : String
  frame : Nat
  rows : List (VectorRow ν)
  phase : RowPhase := .matching
  identities : List (Nat × Option String × Option ℚ) := []

/-- A camera's actor and the number its counter gives next. -/
structure CameraCounter where
  camera : String
  next : Nat
  deriving DecidableEq

/-- An enrolment that succeeded, and the row it was of. -/
structure Enrolment where
  identity : String
  camera : String
  frame : Nat
  row : Nat
  deriving DecidableEq

structure Recognition (γ ν : Type*) where
  element : GalleryRecognize γ
  actors : List CameraCounter := []
  items : List (FrameItem ν) := []
  enrolments : List Enrolment := []

inductive RecognitionEvent (ν : Type*)
  /-- A camera is added: its actor numbers frames from `firstFrame`. -/
  | add (camera : String) (firstFrame : Nat)
  /-- The actor stamps a frame, and the frame's vectors reach the element. -/
  | stamp (actor : Nat) (frame : FrameRows ν)
  /-- The item's worker makes its next move. -/
  | advance (item : Nat)

variable {γ ν : Type*}

namespace GalleryRecognize

/-- `_mint` -/
def mint (r : GalleryRecognize γ) (camera : String) (frame index : Nat) : String :=
  r.enrolPrefix ++ ":" ++ camera ++ ":" ++ toString frame ++ ":" ++ toString index

/-- `_best_match` -/
def bestMatch (lib : Gallery γ ν) (r : GalleryRecognize γ) (vector : ν) (excludeCamera : Option String) :
    Except String (Option GalleryMatch) := do
  let accepted ← lib.query r.gallery vector excludeCamera
  match r.enrolled with
  | none => return accepted
  | some store =>
    let minted ← lib.query store vector excludeCamera
    match accepted, minted with
    | none, m => return m
    | a, none => return a
    | some a, some m => return some (if a.score < m.score then m else a)

/-- `_known_anywhere` -/
def knownAnywhere (lib : Gallery γ ν) (r : GalleryRecognize γ) (vector : ν) : Except String Bool := do
  let inGallery ← lib.query r.gallery vector none
  if inGallery.isSome then return true
  match r.enrolled with
  | none => return false
  | some store =>
    let inEnrolled ← lib.query store vector none
    return inEnrolled.isSome

/-- The gates of `_enrol` before any query. -/
def enrollable (r : GalleryRecognize γ) (row : VectorRow ν) : Bool :=
  r.enrolEnabled && match row.confidence with
    | none => false
    | some confidence => !decide (confidence < r.enrolFloor)

/-- The store with the row added, when the library takes it. -/
def enrol (lib : Gallery γ ν) (r : GalleryRecognize γ) (item : FrameItem ν) (row : VectorRow ν) : Option γ :=
  match r.enrolled with
  | none => none
  | some store =>
    match lib.add store ⟨row.vector, r.mint item.camera item.frame row.index, item.camera, item.frame⟩ with
    | .error _ => none
    | .ok store => some store

end GalleryRecognize

namespace FrameItem

/-- `identities[index] = ..`, and on to the next row. -/
def file (i : FrameItem ν) (row : VectorRow ν) (rest : List (VectorRow ν)) (identity : Option String)
    (similarity : Option ℚ) : FrameItem ν :=
  { i with rows := rest, phase := .matching, identities := i.identities ++ [(row.index, identity, similarity)] }

/-- A query or the add raised: the frame's other rows are not asked. -/
def raise (i : FrameItem ν) : FrameItem ν := { i with rows := [], phase := .matching }

end FrameItem

namespace Recognition

def setItem (s : Recognition γ ν) (k : Nat) (i : FrameItem ν) : Recognition γ ν := { s with items := s.items.set k i }

/-- A row's next gallery call, for the item `k`. -/
def move (lib : Gallery γ ν) (s : Recognition γ ν) (k : Nat) (i : FrameItem ν) (row : VectorRow ν)
    (rest : List (VectorRow ν)) : Recognition γ ν :=
  match i.phase with
  | .matching =>
    match s.element.bestMatch lib row.vector (some i.camera) with
    | .error _ => s.setItem k i.raise
    | .ok (some m) => s.setItem k (i.file row rest (some m.identity) (some m.score))
    | .ok none =>
      if s.element.enrollable row then s.setItem k { i with phase := .checking }
      else s.setItem k (i.file row rest none none)
  | .checking =>
    match s.element.knownAnywhere lib row.vector with
    | .error _ => s.setItem k i.raise
    | .ok true => s.setItem k (i.file row rest none none)
    | .ok false => s.setItem k { i with phase := .adding }
  | .adding =>
    match s.element.enrol lib i row with
    | none => s.setItem k i.raise
    | some store =>
      let identity := s.element.mint i.camera i.frame row.index
      { s.setItem k (i.file row rest (some identity) none) with
        element := { s.element with enrolled := some store }
        enrolments := ⟨identity, i.camera, i.frame, row.index⟩ :: s.enrolments }

def step (lib : Gallery γ ν) (s : Recognition γ ν) : RecognitionEvent ν → Recognition γ ν × Unit
  | .add camera firstFrame => ({ s with actors := s.actors ++ [⟨camera, firstFrame⟩] }, ())
  | .stamp actor frame =>
    match s.actors[actor]? with
    | none => (s, ())
    | some a =>
      ({ s with
          actors := s.actors.set actor { a with next := a.next + 1 }
          items := s.items ++ [{ camera := a.camera, frame := a.next, rows := frame.rows }] }, ())
  | .advance k =>
    match s.items[k]? with
    | none => (s, ())
    | some i =>
      match i.rows with
      | [] => (s, ())
      | row :: rest => (s.move lib k i row rest, ())

/-- No two enrolments that succeeded have one identity. -/
def NoReuse (s : Recognition γ ν) : Prop := (s.enrolments.map Enrolment.identity).Nodup

/-- The row that a step enrols is of a camera, a frame number and an index that no
enrolment was of. -/
def Fresh (lib : Gallery γ ν) (s : Recognition γ ν) : RecognitionEvent ν → Prop
  | .advance k => ∀ i ∈ s.items[k]?, ∀ row ∈ i.rows.head?, i.phase = .adding → (s.element.enrol lib i row).isSome →
      ∀ e ∈ s.enrolments, ¬(e.camera = i.camera ∧ e.frame = i.frame ∧ e.row = row.index)
  | _ => True

/-- A frame is given a number that no actor of its camera is past. -/
def Onward (s : Recognition γ ν) : RecognitionEvent ν → Prop
  | .stamp actor _ => ∀ a ∈ s.actors[actor]?, ∀ b ∈ s.actors, b.camera = a.camera → b.next ≤ a.next
  | _ => True

end Recognition

/-! ## What an identity says -/

namespace GalleryRecognize

theorem mint_toList (r : GalleryRecognize γ) (camera : String) (frame index : Nat) :
    (r.mint camera frame index).toList =
      ((r.enrolPrefix.toList ++ ':' :: camera.toList) ++ ':' :: (toString frame).toList) ++
        ':' :: (toString index).toList := by
  simp [mint, String.toList_append]

/-- A minted identity names one row of one frame of one camera. -/
theorem mint_inj {r : GalleryRecognize γ} {c c' : String} {f f' i i' : Nat} (h : r.mint c f i = r.mint c' f' i') :
    c = c' ∧ f = f' ∧ i = i' := by
  have htext := congrArg String.toList h
  rw [mint_toList, mint_toList] at htext
  obtain ⟨hframe, hindex⟩ := split_at_last (colon_not_mem_natText i) (colon_not_mem_natText i') htext
  obtain ⟨hcamera, hnumber⟩ := split_at_last (colon_not_mem_natText f) (colon_not_mem_natText f') hframe
  rw [List.append_cancel_left_eq, List.cons.injEq] at hcamera
  exact ⟨String.toList_inj.mp hcamera.2, natText_inj hnumber, natText_inj hindex⟩

end GalleryRecognize

namespace Recognition

variable {lib : Gallery γ ν}

/-! ## What a move does -/

/-- A row's move enrols it, or changes no store and makes the item no more than shorter. -/
theorem move_cases (lib : Gallery γ ν) (s : Recognition γ ν) (k : Nat) (i : FrameItem ν) (row : VectorRow ν) (rest : List (VectorRow ν))
    (hrows : i.rows = row :: rest) :
    (∃ store, i.phase = .adding ∧ s.element.enrol lib i row = some store ∧
      s.move lib k i row rest =
        { s.setItem k (i.file row rest (some (s.element.mint i.camera i.frame row.index)) none) with
          element := { s.element with enrolled := some store }
          enrolments := ⟨s.element.mint i.camera i.frame row.index, i.camera, i.frame, row.index⟩ :: s.enrolments }) ∨
    (¬(i.phase = .adding ∧ (s.element.enrol lib i row).isSome) ∧
      ∃ i', s.move lib k i row rest = s.setItem k i' ∧ i'.camera = i.camera ∧ i'.frame = i.frame ∧
        i'.rows <:+ i.rows) := by
  have hraise : i.raise.rows <:+ i.rows := List.nil_suffix
  have hrest : rest <:+ i.rows := ⟨[row], by simp [hrows]⟩
  unfold move
  cases hphase : i.phase with
  | matching =>
    refine .inr ⟨by simp, ?_⟩
    dsimp only
    split
    · exact ⟨_, rfl, rfl, rfl, hraise⟩
    · exact ⟨_, rfl, rfl, rfl, hrest⟩
    · split
      · exact ⟨_, rfl, rfl, rfl, List.suffix_rfl⟩
      · exact ⟨_, rfl, rfl, rfl, hrest⟩
  | checking =>
    refine .inr ⟨by simp, ?_⟩
    dsimp only
    split
    · exact ⟨_, rfl, rfl, rfl, hraise⟩
    · exact ⟨_, rfl, rfl, rfl, hrest⟩
    · exact ⟨_, rfl, rfl, rfl, List.suffix_rfl⟩
  | adding =>
    dsimp only
    cases henrol : s.element.enrol lib i row with
    | none => exact .inr ⟨by simp, _, rfl, rfl, rfl, hraise⟩
    | some store => exact .inl ⟨store, rfl, rfl, rfl⟩

/-- The same for a step: an item's move, or no enrolment. -/
theorem step_enrols (lib : Gallery γ ν) (s : Recognition γ ν) (e : RecognitionEvent ν) :
    ((s.step lib e).1.enrolments = s.enrolments ∧ (s.step lib e).1.element = s.element ∧ Fresh lib s e) ∨
      ∃ k i row rest store, e = .advance k ∧ s.items[k]? = some i ∧ i.rows = row :: rest ∧ i.phase = .adding ∧
        s.element.enrol lib i row = some store ∧
        (s.step lib e).1 =
          { s.setItem k (i.file row rest (some (s.element.mint i.camera i.frame row.index)) none) with
            element := { s.element with enrolled := some store }
            enrolments := ⟨s.element.mint i.camera i.frame row.index, i.camera, i.frame, row.index⟩ ::
              s.enrolments } := by
  cases e with
  | add camera firstFrame => exact .inl ⟨rfl, rfl, trivial⟩
  | stamp actor frame =>
    cases ha : s.actors[actor]? with
    | none => exact .inl ⟨by simp only [step, ha], by simp only [step, ha], trivial⟩
    | some a => exact .inl ⟨by simp only [step, ha], by simp only [step, ha], trivial⟩
  | advance k =>
    cases hi : s.items[k]? with
    | none => exact .inl ⟨by simp only [step, hi], by simp only [step, hi], by simp [Fresh, hi]⟩
    | some i =>
      cases hrows : i.rows with
      | nil => exact .inl ⟨by simp only [step, hi, hrows], by simp only [step, hi, hrows], by simp [Fresh, hi, hrows]⟩
      | cons row rest =>
        have hstep : s.step lib (.advance k) = (s.move lib k i row rest, ()) := by simp only [step, hi, hrows]
        rw [hstep]
        rcases move_cases lib s k i row rest hrows with ⟨store, hphase, henrol, hmove⟩ | ⟨hnot, i', hmove, -⟩
        · exact .inr ⟨k, i, row, rest, store, rfl, hi, hrows, hphase, henrol, hmove⟩
        · refine .inl ⟨by rw [hmove]; rfl, by rw [hmove]; rfl, ?_⟩
          intro j hj r hr hphase henrol
          rw [hi, Option.mem_some_iff] at hj
          subst hj
          rw [hrows, List.head?_cons, Option.mem_some_iff] at hr
          subst hr
          exact absurd ⟨hphase, henrol⟩ hnot

/-! ## Enrolments apart -/

/-- What an enrolment was of is what its identity says. -/
def Named (s : Recognition γ ν) : Prop :=
  ∀ e ∈ s.enrolments, e.identity = s.element.mint e.camera e.frame e.row

theorem named_step (lib : Gallery γ ν) {s : Recognition γ ν} (hname : s.Named) (e : RecognitionEvent ν) :
    (s.step lib e).1.Named := by
  rcases step_enrols lib s e with ⟨hlog, helem, -⟩ | ⟨k, i, row, rest, store, -, -, -, -, -, hs⟩
  · unfold Named
    rw [hlog, helem]
    exact hname
  · rw [hs]
    intro a ha
    rcases List.mem_cons.mp ha with rfl | ha
    · rfl
    · exact hname a ha

theorem noReuse_step (lib : Gallery γ ν) {s : Recognition γ ν} (hname : s.Named) (hreuse : s.NoReuse)
    (e : RecognitionEvent ν) : (s.step lib e).1.NoReuse ↔ Fresh lib s e := by
  rcases step_enrols lib s e with ⟨hlog, -, hfresh⟩ | ⟨k, i, row, rest, store, rfl, hi, hrows, hphase, henrol, hs⟩
  · unfold NoReuse
    rw [hlog]
    exact ⟨fun _ => hfresh, fun _ => hreuse⟩
  · rw [hs]
    show (List.map Enrolment.identity (_ :: s.enrolments)).Nodup ↔ _
    rw [List.map_cons, List.nodup_cons, List.mem_map]
    constructor
    · rintro ⟨hnew, -⟩ j hj r hr - - a ha ⟨hc, hf, hx⟩
      rw [hi, Option.mem_some_iff] at hj
      subst hj
      rw [hrows, List.head?_cons, Option.mem_some_iff] at hr
      subst hr
      exact hnew ⟨a, ha, by rw [hname a ha, hc, hf, hx]⟩
    · intro hfresh
      refine ⟨?_, hreuse⟩
      rintro ⟨a, ha, heq⟩
      rw [hname a ha] at heq
      exact hfresh i hi row (by simp [hrows]) hphase (by simp [henrol]) a ha (GalleryRecognize.mint_inj heq)

/-! ## Frames numbered onward -/

/-- Items are of different frames, each numbered below its camera's counters, and a row
that was enrolled is to come in none of them. -/
structure Numbered (s : Recognition γ ν) : Prop where
  apart : (s.items.map fun i => (i.camera, i.frame)).Nodup
  rows : ∀ i ∈ s.items, (i.rows.map VectorRow.index).Nodup
  given : ∀ i ∈ s.items, ∃ a ∈ s.actors, a.camera = i.camera ∧ i.frame < a.next
  spent : ∀ e ∈ s.enrolments, ∃ i ∈ s.items, i.camera = e.camera ∧ i.frame = e.frame ∧
    e.row ∉ i.rows.map VectorRow.index

theorem Numbered.withItem {s : Recognition γ ν} (h : s.Numbered) {k : Nat} {i i' : FrameItem ν} (hi : s.items[k]? = some i)
    (hc : i'.camera = i.camera) (hf : i'.frame = i.frame) (hrows : i'.rows <:+ i.rows) : (s.setItem k i').Numbered := by
  have hmem : i ∈ s.items := List.mem_of_getElem? hi
  have hsub : i'.rows.map VectorRow.index <:+ i.rows.map VectorRow.index := hrows.map _
  have hkeys : (s.items.set k i').map (fun i => (i.camera, i.frame)) = s.items.map fun i => (i.camera, i.frame) := by
    rw [List.map_set, hc, hf]
    apply List.ext_getElem?
    intro n
    rw [List.getElem?_set]
    by_cases hn : k = n
    · subst hn
      rw [if_pos rfl, if_pos (by simpa using (List.getElem?_eq_some_iff.mp hi).1), List.getElem?_map, hi]
      rfl
    · simp [hn]
  constructor
  · show ((s.items.set k i').map _).Nodup
    rw [hkeys]
    exact h.apart
  · intro j hj
    rcases List.mem_or_eq_of_mem_set hj with hj | rfl
    · exact h.rows j hj
    · exact (h.rows i hmem).sublist hsub.sublist
  · intro j hj
    rcases List.mem_or_eq_of_mem_set hj with hj | rfl
    · exact h.given j hj
    · rw [hc, hf]
      exact h.given i hmem
  · intro e he
    obtain ⟨j, hj, hjc, hjf, hnot⟩ := h.spent e he
    obtain ⟨n, hn⟩ := List.mem_iff_getElem?.mp hj
    by_cases hnk : k = n
    · subst hnk
      rw [hi, Option.some.injEq] at hn
      subst hn
      have hlt := (List.getElem?_eq_some_iff.mp hi).1
      refine ⟨i', List.mem_iff_getElem?.mpr ⟨k, by simp [Recognition.setItem, hlt]⟩, hc.trans hjc, hf.trans hjf, ?_⟩
      intro hin
      exact hnot (hsub.subset hin)
    · refine ⟨j, List.mem_iff_getElem?.mpr ⟨n, ?_⟩, hjc, hjf, hnot⟩
      simp only [Recognition.setItem]
      rw [List.getElem?_set_ne hnk, hn]

/-- The item a spent row is of is the one with its camera and frame. -/
theorem Numbered.not_spent {s : Recognition γ ν} (h : s.Numbered) {k : Nat} {i : FrameItem ν} {row : VectorRow ν}
    (hi : s.items[k]? = some i) (hrow : row ∈ i.rows) :
    ∀ e ∈ s.enrolments, ¬(e.camera = i.camera ∧ e.frame = i.frame ∧ e.row = row.index) := by
  rintro e he ⟨hc, hf, hx⟩
  obtain ⟨j, hj, hjc, hjf, hnot⟩ := h.spent e he
  have hsame : j = i := by
    apply List.inj_on_of_nodup_map h.apart hj (List.mem_of_getElem? hi)
    rw [hjc, hjf, hc, hf]
  rw [hsame, hx] at hnot
  exact hnot (List.mem_map_of_mem hrow)

theorem numbered_step (lib : Gallery γ ν) {s : Recognition γ ν} (h : s.Numbered) {e : RecognitionEvent ν}
    (honward : Onward s e) : (s.step lib e).1.Numbered := by
  cases e with
  | add camera firstFrame =>
    refine ⟨h.apart, h.rows, fun i hi => ?_, h.spent⟩
    obtain ⟨a, ha, hac, hlt⟩ := h.given i hi
    exact ⟨a, List.mem_append_left _ ha, hac, hlt⟩
  | stamp actor frame =>
    cases ha : s.actors[actor]? with
    | none =>
      simp only [step, ha]
      exact h
    | some a =>
      simp only [step, ha]
      have hahead : ∀ b ∈ s.actors, b.camera = a.camera → b.next ≤ a.next := honward a ha
      have hlt := (List.getElem?_eq_some_iff.mp ha).1
      -- the counter's new number covers what any actor of the camera covered
      have hcover : ∀ c n, (∃ b ∈ s.actors, b.camera = c ∧ n < b.next) →
          ∃ b ∈ s.actors.set actor { a with next := a.next + 1 }, b.camera = c ∧ n < b.next := by
        rintro c n ⟨b, hb, hbc, hn⟩
        by_cases hc : c = a.camera
        · subst hc
          have hle := hahead b hb hbc
          exact ⟨{ a with next := a.next + 1 }, List.mem_set hlt _, rfl, by show n < a.next + 1; omega⟩
        · obtain ⟨m, hm⟩ := List.mem_iff_getElem?.mp hb
          have hne : actor ≠ m := by
            rintro rfl
            rw [ha, Option.some.injEq] at hm
            rw [← hm] at hbc
            exact hc hbc.symm
          exact ⟨b, List.mem_iff_getElem?.mpr ⟨m, by rw [List.getElem?_set_ne hne, hm]⟩, hbc, hn⟩
      constructor
      · rw [List.map_append, List.nodup_append]
        refine ⟨h.apart, by simp, ?_⟩
        rintro p hp q hq rfl
        obtain ⟨i, hi, rfl⟩ := List.mem_map.mp hp
        rw [List.map_singleton, List.mem_singleton, Prod.mk.injEq] at hq
        obtain ⟨b, hb, hbc, hn⟩ := h.given i hi
        have hle := hahead b hb (hbc.trans hq.1)
        have hsame : i.frame = a.next := hq.2
        omega
      · intro i hi
        rcases List.mem_append.mp hi with hi | hi
        · exact h.rows i hi
        · rw [List.mem_singleton.mp hi]
          exact frame.nodup
      · intro i hi
        rcases List.mem_append.mp hi with hi | hi
        · exact hcover _ _ (h.given i hi)
        · rw [List.mem_singleton.mp hi]
          exact ⟨{ a with next := a.next + 1 }, List.mem_set hlt _, rfl, Nat.lt_succ_self _⟩
      · intro e he
        obtain ⟨i, hi, hrest⟩ := h.spent e he
        exact ⟨i, List.mem_append_left _ hi, hrest⟩
  | advance k =>
    cases hi : s.items[k]? with
    | none =>
      simp only [step, hi]
      exact h
    | some i =>
      cases hrows : i.rows with
      | nil =>
        simp only [step, hi, hrows]
        exact h
      | cons row rest =>
        simp only [step, hi, hrows]
        rcases move_cases lib s k i row rest hrows with ⟨store, -, -, hmove⟩ | ⟨-, i', hmove, hc, hf, hsuf⟩
        · rw [hmove]
          have hset : (s.setItem k (i.file row rest (some (s.element.mint i.camera i.frame row.index)) none)).Numbered :=
            h.withItem hi rfl rfl ⟨[row], by simp [FrameItem.file, hrows]⟩
          refine ⟨hset.apart, hset.rows, hset.given, fun e he => ?_⟩
          rcases List.mem_cons.mp he with rfl | he
          · have hnodup := h.rows i (List.mem_of_getElem? hi)
            rw [hrows, List.map_cons, List.nodup_cons] at hnodup
            have hlt := (List.getElem?_eq_some_iff.mp hi).1
            exact ⟨_, List.mem_set hlt _, rfl, rfl, hnodup.1⟩
          · exact hset.spent e he
        · rw [hmove]
          exact h.withItem hi hc hf hsuf

theorem fresh_of_numbered (lib : Gallery γ ν) {s : Recognition γ ν} (h : s.Numbered) (e : RecognitionEvent ν) :
    Fresh lib s e := by
  cases e with
  | add camera firstFrame => trivial
  | stamp actor frame => trivial
  | advance k =>
    intro i hi row hrow _ _
    exact h.not_spent hi (List.mem_of_mem_head? hrow)

/-! ## Runs -/

/-- An element just opened, before any camera was added. -/
def opened (element : GalleryRecognize γ) : Recognition γ ν := { element := element }

theorem fresh_of_onward (lib : Gallery γ ν) : ∀ (events : List (RecognitionEvent ν)) {s : Recognition γ ν}, s.Numbered →
    Machine.Along (step lib) Onward s events → Machine.Along (step lib) (Fresh lib) s events
  | [], _, _, _ => trivial
  | e :: events, _, h, ⟨honward, hrest⟩ =>
    ⟨fresh_of_numbered lib h e, fresh_of_onward lib events (numbered_step lib h honward) hrest⟩

/-- **Enrolments share no identity just along rows that are new, and so whenever the
frames of a camera are numbered onward.** -/
theorem minted_once (lib : Gallery γ ν) (element : GalleryRecognize γ) (events : List (RecognitionEvent ν)) :
    ((∀ before, before <+: events → (Machine.exec (step lib) (opened element) before).1.NoReuse) ↔
        Machine.Along (step lib) (Fresh lib) (opened element) events) ∧
      (Machine.Along (step lib) Onward (opened element) events →
        ∀ before, before <+: events → (Machine.exec (step lib) (opened element) before).1.NoReuse) := by
  have hiff : (∀ before, before <+: events → (Machine.exec (step lib) (opened element) before).1.NoReuse) ↔
      Machine.Along (step lib) (Fresh lib) (opened element) events := by
    refine Machine.along_iff_of (I := Named) (P := NoReuse) (fun s e hname => named_step lib hname e)
      (fun s e hname hreuse => noReuse_step lib hname hreuse e) events ?_ List.nodup_nil
    intro e he
    exact (List.not_mem_nil he).elim
  refine ⟨hiff, fun honward => hiff.mpr (fresh_of_onward lib events ?_ honward)⟩
  exact ⟨List.nodup_nil, by simp [opened], by simp [opened], by simp [opened]⟩

/-- A gallery that accepts the appearance it holds and no other. -/
def exactGallery : Gallery (List (GalleryEmbedding Nat)) Nat where
  query store vector excludeCamera :=
    .ok ((store.find? fun e => decide (e.vector = vector ∧ some e.camera ≠ excludeCamera)).map fun e => ⟨e.identity, 1⟩)
  add store e := .ok (store ++ [e])

def oneRow (vector : Nat) : FrameRows Nat := ⟨[⟨0, vector, some 1⟩], List.nodup_singleton _⟩

/-- The camera is removed after its first frame and added again. -/
def addedAgain : List (RecognitionEvent Nat) :=
  [.add "quay" 0, .stamp 0 (oneRow 7), .advance 0, .advance 0, .advance 0,
    .add "quay" 0, .stamp 1 (oneRow 8), .advance 1, .advance 1, .advance 1]

theorem identity_reused : ¬∀ before, before <+: addedAgain →
    (Machine.exec (step exactGallery) (opened { enrolEnabled := true, enrolFloor := 1 / 2, gallery := [], enrolled := some [] })
      before).1.NoReuse := by
  intro h
  have hlast := h addedAgain (List.prefix_refl _)
  unfold NoReuse at hlast
  exact absurd hlast (by decide +kernel)

end Recognition

end ShipInfer.Elements
