import ShipInfer.Perception.Cpp
import ShipInfer.Perception.Stages

/-!
# What a failed stage leaves behind

A stage that attaches one name attaches it last, so it fails before the frame has
changed. A crop stage attaches set after set, and an object stage of the Python
plane output after output: when one cannot be made, those made before it stay.
-/

namespace ShipInfer.Perception

/-- Those made before the first that could not be. -/
def made {ε β : Type} : List (Except ε β) → List β
  | .ok b :: rest => b :: made rest
  | _ => []

/-- One of them could not be made. -/
def Fails {ε β : Type} (l : List (Except ε β)) : Prop := ∃ e, .error e ∈ l

theorem fails_cons_ok {ε β : Type} (b : β) (l : List (Except ε β)) : Fails (.ok b :: l) ↔ Fails l := by simp [Fails]

theorem fails_cons_error {ε β : Type} (e : ε) (l : List (Except ε β)) : Fails (.error e :: l : List (Except ε β)) :=
  ⟨e, List.mem_cons_self⟩

/-! ## The Python plane -/

namespace Stages

variable {Row Box Image : Type}

/-- Nothing a later stage or the event reads has changed. -/
structure Unchanged (s t : State Row Box Image) : Prop where
  available : ∀ name, t.available name = s.available name
  batches : ∀ name, t.batches.get? name = s.batches.get? name
  detections : t.detections = s.detections

/-- The frame already holds, under their names, what attaching these in order leaves there. -/
def Held (s : State Row Box Image) (bs : List (ObjectBatch Row Box)) : Prop :=
  ∀ b ∈ bs, s.batches.get? b.name = bs.reverse.find? fun c => decide (c.name = b.name)

theorem get?_attachAll (name : String) (s : State Row Box Image) (bs : List (ObjectBatch Row Box)) :
    (bs.foldl State.attach s).batches.get? name =
      (bs.reverse.find? fun b => decide (b.name = name)).or (s.batches.get? name) := by
  induction bs using List.reverseRecOn with
  | nil => rfl
  | append_singleton bs b ih =>
    rw [List.foldl_append, List.reverse_append, List.reverse_singleton, List.singleton_append, List.find?_cons]
    show ((bs.foldl State.attach s).batches.set b.name b).get? name = _
    rw [Dict.get?_set]
    by_cases h : name = b.name
    · subst h; simp
    · have hne : ¬ b.name = name := fun he => h he.symm
      simp [h, hne, ih]

theorem attachAll_fixed (s : State Row Box Image) (bs : List (ObjectBatch Row Box)) :
    (bs.foldl State.attach s).image = s.image ∧ (bs.foldl State.attach s).detections = s.detections ∧
      (bs.foldl State.attach s).detectionsReady = s.detectionsReady := by
  refine foldl_keeps (I := fun t : State Row Box Image => t.image = s.image ∧ t.detections = s.detections ∧
    t.detectionsReady = s.detectionsReady) (fun t b _ ht => ?_) ⟨rfl, rfl, rfl⟩
  exact ht

theorem unchanged_of_batches {s t : State Row Box Image} (hi : t.image = s.image) (hd : t.detections = s.detections)
    (hr : t.detectionsReady = s.detectionsReady) (hb : ∀ name, t.batches.get? name = s.batches.get? name) :
    Unchanged s t :=
  ⟨fun name => by simp only [State.available, Dict.contains, hb, hi, hr], hb, hd⟩

theorem unchanged_attachAll_iff (s : State Row Box Image) (bs : List (ObjectBatch Row Box)) :
    Unchanged s (bs.foldl State.attach s) ↔ Held s bs := by
  constructor
  · intro h b hb
    have hget := h.batches b.name
    rw [get?_attachAll] at hget
    cases hfind : bs.reverse.find? fun c => decide (c.name = b.name) with
    | none => exact absurd (List.find?_eq_none.mp hfind b (List.mem_reverse.mpr hb)) (by simp)
    | some c =>
      rw [hfind] at hget
      exact hget.symm
  · intro h
    obtain ⟨hi, hd, hr⟩ := attachAll_fixed s bs
    refine unchanged_of_batches hi hd hr fun name => ?_
    rw [get?_attachAll]
    cases hfind : bs.reverse.find? fun c => decide (c.name = name) with
    | none => rfl
    | some c =>
      have hname : c.name = name := by simpa using List.find?_some hfind
      subst hname
      rw [h c (List.mem_reverse.mp (List.mem_of_find?_eq_some hfind)), hfind]
      rfl

/-- One crop set, cut out of the frame. -/
def cut (w : World Row Box Image) (s : State Row Box Image) (spec : CropSpec) : Except StageError (ObjectBatch Row Box) :=
  let (boxes, indices) := s.boxesOf spec.className
  if indices = [] then .ok (.empty spec.name spec.className spec.rowShape)
  else do ObjectBatch.create spec.name spec.className indices (← w.cropBatch s.image boxes spec.size) boxes

theorem cut_attach (w : World Row Box Image) (s : State Row Box Image) (b : ObjectBatch Row Box) :
    cut w (s.attach b) = cut w s := rfl

/-- The crop stage attaches what it cuts, up to the first set it cannot. -/
theorem cropLoop_spec (w : World Row Box Image) : ∀ (specs : List CropSpec) (total : Nat) (s : State Row Box Image),
    (CropStage.loop w specs total s).1 = (made (specs.map (cut w s))).foldl State.attach s ∧
      ((∃ e, (CropStage.loop w specs total s).2 = .error e) ↔ Fails (specs.map (cut w s)))
  | [], total, s => by simp [CropStage.loop, made, Fails]
  | spec :: specs, total, s => by
    rw [List.map_cons, CropStage.loop]
    have hstep (b : ObjectBatch Row Box) (total : Nat) (hb : cut w s spec = .ok b) :
        (CropStage.loop w specs total (s.attach b)).1 =
            (made (cut w s spec :: specs.map (cut w s))).foldl State.attach s ∧
          ((∃ e, (CropStage.loop w specs total (s.attach b)).2 = .error e) ↔ Fails (cut w s spec :: specs.map (cut w s))) := by
      obtain ⟨h₁, h₂⟩ := cropLoop_spec w specs total (s.attach b)
      rw [cut_attach] at h₁ h₂
      rw [hb, fails_cons_ok]
      exact ⟨h₁, h₂⟩
    have hstop (e : StageError) (he : cut w s spec = .error e) :
        s = (made (cut w s spec :: specs.map (cut w s))).foldl State.attach s ∧
          ((∃ e', (Except.error e : Except StageError Nat) = .error e') ↔ Fails (cut w s spec :: specs.map (cut w s))) := by
      rw [he]
      exact ⟨rfl, iff_of_true ⟨e, rfl⟩ (fails_cons_error e _)⟩
    dsimp only
    by_cases hi : (s.boxesOf spec.className).2 = []
    · rw [if_pos hi]
      exact hstep _ _ (by rw [cut]; dsimp only; rw [if_pos hi])
    · rw [if_neg hi]
      cases hc : w.cropBatch s.image (s.boxesOf spec.className).1 spec.size with
      | error e => exact hstop e (by rw [cut]; dsimp only; rw [if_neg hi, hc]; rfl)
      | ok tensor =>
        dsimp only
        have hcut : cut w s spec =
            ObjectBatch.create spec.name spec.className (s.boxesOf spec.className).2 tensor (s.boxesOf spec.className).1 := by
          rw [cut]; dsimp only; rw [if_neg hi, hc]; rfl
        cases hb : ObjectBatch.create spec.name spec.className (s.boxesOf spec.className).2 tensor
            (s.boxesOf spec.className).1 with
        | error e => exact hstop e (hcut.trans hb)
        | ok b => exact hstep b _ (hcut.trans hb)

/-- The batches of an object stage's outputs, from the collected pieces. -/
def outputBatches (b : ObjectBatch Row Box) (collected : List (List (Values Row))) (outputs : List (String × Nat)) :
    List (Except StageError (ObjectBatch Row Box)) :=
  outputs.map fun p => ObjectStage.produce b p.1 (collected.filterMap (·[p.2]?))

theorem attachAll_spec (b : ObjectBatch Row Box) (collected : List (List (Values Row))) :
    ∀ (outputs : List (String × Nat)) (s : State Row Box Image),
      (ObjectStage.attachAll b collected outputs s).1 = (made (outputBatches b collected outputs)).foldl State.attach s ∧
        ((∃ e, (ObjectStage.attachAll b collected outputs s).2 = .error e) ↔ Fails (outputBatches b collected outputs))
  | [], s => by simp [ObjectStage.attachAll, outputBatches, made, Fails]
  | (name, place) :: outputs, s => by
    rw [outputBatches, List.map_cons, ObjectStage.attachAll]
    cases hb : ObjectStage.produce b name (collected.filterMap (·[place]?)) with
    | error e => exact ⟨rfl, iff_of_true ⟨e, rfl⟩ (fails_cons_error e _)⟩
    | ok batch =>
      obtain ⟨h₁, h₂⟩ := attachAll_spec b collected outputs (s.attach batch)
      rw [fails_cons_ok]
      exact ⟨h₁, h₂⟩

/-- The frames on which a stage that fails leaves nothing: no crop set, or output,
that cannot be made comes after one that can and that the frame does not hold yet. -/
def AnyStage.Harmless (w : World Row Box Image) (s : State Row Box Image) : AnyStage Row → Prop
  | .detect _ => True
  | .crop st => Fails (st.crops.map (cut w s)) → Held s (made (st.crops.map (cut w s)))
  | .object st => ∀ b collected, s.batch st.source = .ok b → st.collect w b = .ok collected →
      Fails (outputBatches b collected st.outputs.values.zipIdx) →
        Held s (made (outputBatches b collected st.outputs.values.zipIdx))
  | .track _ => True

theorem Unchanged.refl (s : State Row Box Image) : Unchanged s s := ⟨fun _ => rfl, fun _ => rfl, rfl⟩

theorem DetectStage.unchanged (st : DetectStage) (w : World Row Box Image) (s : State Row Box Image) {e : StageError}
    (h : (st.doRun w s).2 = .error e) : Unchanged s (st.doRun w s).1 := by
  unfold DetectStage.doRun at h ⊢
  cases hl : w.letterboxBatch s.image st.dstSize with
  | error e' => exact .refl s
  | ok r =>
    rw [hl] at h
    dsimp only at h ⊢
    cases ha : st.answer w r.1 r.2 with
    | error e' => exact ⟨fun _ => rfl, fun _ => rfl, rfl⟩
    | ok detections => rw [ha] at h; cases h

theorem count_column (rows : List Row) : (column rows).count = rows.length := by cases rows <;> rfl

/-- What a tracker's answer is attributed to fits both batches. -/
theorem TrackStage.attribute_aligned {w : World Row Box Image} {s : State Row Box Image} {tracks : List Track}
    {indices : List Nat} {ids states : Values Row} (h : TrackStage.attribute w s tracks = .ok (indices, ids, states)) :
    ids.count = indices.length ∧ states.count = indices.length := by
  unfold TrackStage.attribute at h
  split at h
  · cases h; exact ⟨rfl, rfl⟩
  · obtain ⟨found, -, hfound⟩ := bind_ok.mp h
    cases hfound
    simp only [count_column, List.length_map, and_self]

theorem TrackStage.unchanged (w : World Row Box Image) (s : State Row Box Image) {e : StageError}
    (h : (TrackStage.doRun w s).2 = .error e) : Unchanged s (TrackStage.doRun w s).1 := by
  unfold TrackStage.doRun at h ⊢
  cases hu : w.updateTracker s with
  | error e' => exact .refl s
  | ok tracks =>
    rw [hu] at h
    dsimp only at h ⊢
    cases ha : TrackStage.attribute w s tracks with
    | error e' => exact .refl s
    | ok found =>
      obtain ⟨indices, ids, states⟩ := found
      obtain ⟨hi, hs⟩ := TrackStage.attribute_aligned ha
      rw [ha] at h
      simp only [ObjectBatch.create, dif_pos hi, dif_pos hs] at h
      cases h

theorem AnyStage.run_failed_iff {st : AnyStage Row} {w : World Row Box Image} {s : State Row Box Image} :
    (st.run w s).1 = .failed ↔ ∃ e, (st.doRun w s).2 = .error e := by
  unfold AnyStage.run
  dsimp only
  cases (st.doRun w s).2 <;> simp

theorem AnyStage.run_state (st : AnyStage Row) (w : World Row Box Image) (s : State Row Box Image) :
    (st.run w s).2 = (st.doRun w s).1 := by
  unfold AnyStage.run
  dsimp only
  cases (st.doRun w s).2 <;> rfl

theorem AnyStage.keeps_iff (st : AnyStage Row) (w : World Row Box Image) (s : State Row Box Image) :
    ((st.run w s).1 = .failed → Unchanged s (st.run w s).2) ↔ st.Harmless w s := by
  rw [AnyStage.run_failed_iff, AnyStage.run_state]
  cases st with
  | detect st => exact iff_of_true (fun h => h.elim fun e he => st.unchanged w s he) trivial
  | track st => exact iff_of_true (fun h => h.elim fun e he => TrackStage.unchanged w s he) trivial
  | crop st =>
    obtain ⟨h₁, h₂⟩ := cropLoop_spec w st.crops 0 s
    show ((∃ e, (CropStage.loop w st.crops 0 s).2 = .error e) → Unchanged s (CropStage.loop w st.crops 0 s).1) ↔ _
    rw [h₁, h₂, unchanged_attachAll_iff]
    exact Iff.rfl
  | object st =>
    show ((∃ e, (st.doRun w s).2 = .error e) → Unchanged s (st.doRun w s).1) ↔ _
    unfold ObjectStage.doRun
    cases hb : s.batch st.source with
    | error e => exact iff_of_true (fun _ => .refl s) fun b _ h => by rw [hb] at h; cases h
    | ok b =>
      dsimp only
      cases hc : st.collect w b with
      | error e =>
        refine iff_of_true (fun _ => .refl s) fun b' collected h h' => ?_
        rw [hb] at h; cases h
        rw [hc] at h'; cases h'
      | ok collected =>
        obtain ⟨h₁, h₂⟩ := attachAll_spec b collected st.outputs.values.zipIdx s
        dsimp only
        rw [h₁, h₂, unchanged_attachAll_iff]
        refine ⟨fun h b' collected' hb' hc' => ?_, fun h => h b collected hb hc⟩
        rw [hb] at hb'; cases hb'
        rw [hc] at hc'; cases hc'
        exact h

end Stages

/-! ## The C++ plane -/

namespace Cpp

variable {Crop Row Box Response Future : Type}

structure Unchanged (s t : FrameState Crop Row Box) : Prop where
  available : ∀ name, name ∈ t.available ↔ name ∈ s.available
  batches : ∀ name, t.batches.get? name = s.batches.get? name
  detections : t.detections = s.detections

theorem Unchanged.refl (s : FrameState Crop Row Box) : Unchanged s s := ⟨fun _ => Iff.rfl, fun _ => rfl, rfl⟩

theorem mem_available_attachPayload (s : FrameState Crop Row Box) (p : DevicePayload Crop Box) (name : String) :
    name ∈ (s.attachPayload p).available ↔ name ∈ s.available ∨ name = p.name := by
  simp only [FrameState.available, FrameState.attachPayload, List.mem_append, Dict.mem_keys_set]
  tauto

theorem mem_available_attachAll (name : String) : ∀ (ps : List (DevicePayload Crop Box)) (s : FrameState Crop Row Box),
    name ∈ (ps.foldl FrameState.attachPayload s).available ↔ name ∈ s.available ∨ name ∈ ps.map DevicePayload.name
  | [], s => by simp
  | p :: ps, s => by
    rw [List.foldl_cons, mem_available_attachAll name ps, mem_available_attachPayload, List.map_cons, List.mem_cons, or_assoc]

theorem attachAll_fixed (s : FrameState Crop Row Box) (ps : List (DevicePayload Crop Box)) :
    (ps.foldl FrameState.attachPayload s).batches = s.batches ∧
      (ps.foldl FrameState.attachPayload s).detections = s.detections := by
  refine foldl_keeps (I := fun t : FrameState Crop Row Box => t.batches = s.batches ∧ t.detections = s.detections)
    (fun t p _ ht => ?_) ⟨rfl, rfl⟩
  exact ht

theorem unchanged_attachAll_iff (s : FrameState Crop Row Box) (ps : List (DevicePayload Crop Box)) :
    Unchanged s (ps.foldl FrameState.attachPayload s) ↔ ∀ p ∈ ps, p.name ∈ s.available := by
  constructor
  · intro h p hp
    apply (h.available p.name).mp
    rw [mem_available_attachAll]
    exact .inr (List.mem_map_of_mem hp)
  · intro h
    obtain ⟨hb, hd⟩ := attachAll_fixed s ps
    refine ⟨fun name => ?_, fun name => by rw [hb], hd⟩
    rw [mem_available_attachAll]
    refine ⟨fun hn => hn.elim id fun hn => ?_, .inl⟩
    obtain ⟨p, hp, hname⟩ := List.mem_map.mp hn
    exact hname ▸ h p hp

/-- One crop set, cut out of the frame. -/
def cut (w : World Crop Row Box Response Future) (s : FrameState Crop Row Box) (spec : CropSpec) :
    Except Thrown (DevicePayload Crop Box) :=
  let found := s.detections.filter spec.selects
  let payload : DevicePayload Crop Box :=
    { name := spec.name, className := spec.className, rowElems := 3 * spec.height * spec.width }
  if found = [] then .ok payload
  else (w.cropFrame spec.name (found.map Detection.box)).map fun cut => { payload with
    data := found.map fun det => cut det.box, objectIndices := found.map Detection.index, boxes := found.map Detection.box }

theorem cut_attach (w : World Crop Row Box Response Future) (s : FrameState Crop Row Box) (p : DevicePayload Crop Box) :
    cut w (s.attachPayload p) = cut w s := rfl

theorem cropLoop_spec (w : World Crop Row Box Response Future) :
    ∀ (specs : List CropSpec) (total : Nat) (s : FrameState Crop Row Box),
      (CropStage.loop w specs total s).1 = (made (specs.map (cut w s))).foldl FrameState.attachPayload s ∧
        ((∃ e, (CropStage.loop w specs total s).2 = .error e) ↔ Fails (specs.map (cut w s)))
  | [], total, s => by simp [CropStage.loop, made, Fails]
  | spec :: specs, total, s => by
    rw [List.map_cons, CropStage.loop]
    have hstep (p : DevicePayload Crop Box) (total : Nat) (hp : cut w s spec = .ok p) :
        (CropStage.loop w specs total (s.attachPayload p)).1 =
            (made (cut w s spec :: specs.map (cut w s))).foldl FrameState.attachPayload s ∧
          ((∃ e, (CropStage.loop w specs total (s.attachPayload p)).2 = .error e) ↔
            Fails (cut w s spec :: specs.map (cut w s))) := by
      obtain ⟨h₁, h₂⟩ := cropLoop_spec w specs total (s.attachPayload p)
      rw [cut_attach] at h₁ h₂
      rw [hp, fails_cons_ok]
      exact ⟨h₁, h₂⟩
    dsimp only
    by_cases hf : s.detections.filter spec.selects = []
    · rw [if_pos hf]
      exact hstep _ _ (by rw [cut]; dsimp only; rw [if_pos hf])
    · rw [if_neg hf]
      cases hc : w.cropFrame spec.name ((s.detections.filter spec.selects).map Detection.box) with
      | error e =>
        have hcut : cut w s spec = .error e := by rw [cut]; dsimp only; rw [if_neg hf, hc]; rfl
        rw [hcut]
        exact ⟨rfl, iff_of_true ⟨e, rfl⟩ (fails_cons_error e _)⟩
      | ok c => exact hstep _ _ (by rw [cut]; dsimp only; rw [if_neg hf, hc]; rfl)

/-- The frames on which a stage that fails leaves nothing: no crop set that cannot be
cut comes after one that can and whose name the frame does not hold yet. -/
def AnyStage.Harmless (w : World Crop Row Box Response Future) (s : FrameState Crop Row Box) : AnyStage Row Response → Prop
  | .crop st => Fails (st.crops.map (cut w s)) → ∀ p ∈ made (st.crops.map (cut w s)), p.name ∈ s.available
  | _ => True

theorem DetectStage.unchanged (st : DetectStage) (w : World Crop Row Box Response Future) (s : FrameState Crop Row Box)
    {e : Thrown} (h : (st.doRun w s).2 = .error e) : Unchanged s (st.doRun w s).1 := by
  unfold DetectStage.doRun at h ⊢
  cases hl : w.letterboxFrame s with
  | error e' => exact .refl s
  | ok map =>
    rw [hl] at h
    dsimp only at h ⊢
    cases hd : (do w.decode map (← w.inferDetector st.model map) : Except Thrown (List (Detection Box))) with
    | error e' => exact ⟨fun _ => Iff.rfl, fun _ => rfl, rfl⟩
    | ok detections => rw [hd] at h; cases h

theorem ObjectStage.unchanged (st : ObjectStage Row Response) (w : World Crop Row Box Response Future)
    (s : FrameState Crop Row Box) {e : Thrown} (h : (st.doRun w s).2 = .error e) : Unchanged s (st.doRun w s).1 := by
  unfold ObjectStage.doRun at h ⊢
  cases hd : (do st.doFinish w (s.payloads.get? st.source) (← st.doBegin w (s.payloads.get? st.source)) :
      Except Thrown (ObjectBatch Row × Nat)) with
  | error e' => exact .refl s
  | ok r => rw [hd] at h; cases h

theorem TrackStage.unchanged (st : TrackStage) (w : World Crop Row Box Response Future) (s : FrameState Crop Row Box)
    {e : Thrown} (h : (st.doRun w s).2 = .error e) : Unchanged s (st.doRun w s).1 := by
  unfold TrackStage.doRun at h ⊢
  cases hi : w.ids st.name (st.selected s) with
  | error e' => exact .refl s
  | ok answer => rw [hi] at h; cases h

theorem AnyStage.run_failed_iff {st : AnyStage Row Response} {w : World Crop Row Box Response Future}
    {s : FrameState Crop Row Box} : (st.run w s).1 = .failed ↔ ∃ e, (st.doRun w s).2 = .error e := by
  unfold AnyStage.run
  dsimp only
  cases (st.doRun w s).2 <;> simp

theorem AnyStage.run_state (st : AnyStage Row Response) (w : World Crop Row Box Response Future)
    (s : FrameState Crop Row Box) : (st.run w s).2 = (st.doRun w s).1 := by
  unfold AnyStage.run
  dsimp only
  cases (st.doRun w s).2 <;> rfl

theorem AnyStage.keeps_iff (st : AnyStage Row Response) (w : World Crop Row Box Response Future)
    (s : FrameState Crop Row Box) : ((st.run w s).1 = .failed → Unchanged s (st.run w s).2) ↔ st.Harmless w s := by
  rw [AnyStage.run_failed_iff, AnyStage.run_state]
  cases st with
  | detect st => exact iff_of_true (fun h => h.elim fun e he => st.unchanged w s he) trivial
  | object st => exact iff_of_true (fun h => h.elim fun e he => st.unchanged w s he) trivial
  | track st => exact iff_of_true (fun h => h.elim fun e he => st.unchanged w s he) trivial
  | crop st =>
    obtain ⟨h₁, h₂⟩ := cropLoop_spec w st.crops 0 s
    show ((∃ e, (CropStage.loop w st.crops 0 s).2 = .error e) → Unchanged s (CropStage.loop w st.crops 0 s).1) ↔ _
    rw [h₁, h₂, unchanged_attachAll_iff]
    exact Iff.rfl

end Cpp

/-! ## Both planes -/

/-- A failed stage leaves the frame as it was exactly on the harmless frames; a
detector and a tracker always do, and so does an object stage of the C++ plane. -/
theorem contained_iff {Row Box Image Crop Row' Box' Response Future : Type} :
    (∀ (st : Stages.AnyStage Row) (w : Stages.World Row Box Image) (s : Stages.State Row Box Image),
      ((st.run w s).1 = .failed → Stages.Unchanged s (st.run w s).2) ↔ st.Harmless w s) ∧
    (∀ (st : Cpp.AnyStage Row' Response) (w : Cpp.World Crop Row' Box' Response Future) (s : Cpp.FrameState Crop Row' Box'),
      ((st.run w s).1 = .failed → Cpp.Unchanged s (st.run w s).2) ↔ st.Harmless w s) :=
  ⟨Stages.AnyStage.keeps_iff, Cpp.AnyStage.keeps_iff⟩

namespace Stages

/-- A person and a ship. -/
def personAndShip : State Nat Nat Unit :=
  { image := some (), detections := [⟨"person", 0⟩, ⟨"ship", 1⟩], detectionsReady := true }

/-- Nothing can be cut at the second set's size; a model answers its second output
with no rows. -/
def secondRaises : World Nat Nat Unit where
  letterboxBatch _ _ := .error (.raised "letterbox")
  cropBatch _ boxes size := if size = (64, 64) then .error (.raised "crop") else .ok (.rows [] boxes)
  infer _ _ rows := .ok ((Dict.empty.set "embedding" rows).set "score" (.rows [] []))
  rowLimit _ := none
  readCount _ := .error (.raised "count")
  decodeDetections _ _ _ := .error (.raised "decode")
  updateTracker _ := .error (.raised "tracker")
  associate _ _ := .error (.raised "tracker")
  idRow _ := 0
  stateRow _ := 0

def twoCrops : CropStage where
  name := "crop"
  crops := [⟨"person_crops", "person", (32, 32), Nat.succ_pos 31, Nat.succ_pos 31⟩, ⟨"ship_crops", "ship", (64, 64), Nat.succ_pos 63, Nat.succ_pos 63⟩]
  declared := List.cons_ne_nil _ _
  distinct := by decide

def twoOutputs : ObjectStage Nat where
  name := "reid"
  model := "reid"
  source := "person_crops"
  outputs := (Dict.empty.set "embedding" "embedding").set "score" "score"
  combine := none
  forwards := List.cons_ne_nil _ _

/-- The frame, with the person cut out. -/
def personCut : State Nat Nat Unit := personAndShip.attach ⟨"person_crops", "person", [0], .rows [] [0], [0], rfl⟩

end Stages

namespace Cpp

def personAndShip : FrameState Nat Nat Nat :=
  { hasPixels := true, detected := true, detections := [⟨0, 0, 0⟩, ⟨1, 8, 1⟩] }

def secondThrows : World Nat Nat Nat Unit Unit where
  letterboxFrame _ := .error .backend
  inferDetector _ _ := .error .backend
  decode _ _ := .error .backend
  cropFrame name _ := if name = "ship_crops" then .error (.raised "scratch") else .ok id
  maxBatch _ := 1
  submit _ _ _ := .error .backend
  await _ := .error .backend
  responseRows _ := 0
  ids _ _ := .error .backend
  idRow _ := 0

def personAndShipCrops : List CropSpec :=
  [{ name := "person_crops", className := "person", classId := 0 },
    { name := "ship_crops", className := "ship", classId := 8 }]

theorem personAndShipCrops_declared : personAndShipCrops ≠ [] := List.cons_ne_nil _ _

def twoCrops : CropStage where
  name := "crop"
  crops := personAndShipCrops
  declared := personAndShipCrops_declared

end Cpp

/-- The second of two crop sets cannot be cut, the second of two outputs does not
match: the first stays in the frame, in the Python plane and in the C++ plane. -/
theorem first_left_behind :
    let crop := Stages.AnyStage.run (.crop Stages.twoCrops) Stages.secondRaises Stages.personAndShip
    let object := Stages.AnyStage.run (.object Stages.twoOutputs) Stages.secondRaises Stages.personCut
    let cpp := Cpp.AnyStage.run (.crop Cpp.twoCrops : Cpp.AnyStage Nat Unit) Cpp.secondThrows Cpp.personAndShip
    (crop.1 = .failed ∧ Stages.personAndShip.available "person_crops" = false ∧
      crop.2.available "person_crops" = true ∧ ¬ Stages.Unchanged Stages.personAndShip crop.2) ∧
    (object.1 = .failed ∧ Stages.personCut.available "embedding" = false ∧ object.2.available "embedding" = true ∧
      ¬ Stages.Unchanged Stages.personCut object.2) ∧
    cpp.1 = .failed ∧ "person_crops" ∉ Cpp.personAndShip.available ∧ "person_crops" ∈ cpp.2.available ∧
      ¬ Cpp.Unchanged Cpp.personAndShip cpp.2 := by
  have hcrop : (Stages.AnyStage.run (.crop Stages.twoCrops) Stages.secondRaises Stages.personAndShip).2.available
      "person_crops" = true := by decide +kernel
  have hobject : (Stages.AnyStage.run (.object Stages.twoOutputs) Stages.secondRaises Stages.personCut).2.available
      "embedding" = true := by decide +kernel
  have hcpp : "person_crops" ∈ (Cpp.AnyStage.run (.crop Cpp.twoCrops : Cpp.AnyStage Nat Unit) Cpp.secondThrows
      Cpp.personAndShip).2.available := by decide +kernel
  refine ⟨⟨by decide +kernel, by decide +kernel, hcrop, fun h => ?_⟩,
    ⟨by decide +kernel, by decide +kernel, hobject, fun h => ?_⟩,
    by decide +kernel, by decide +kernel, hcpp, fun h => ?_⟩
  · have := h.available "person_crops"
    rw [hcrop] at this
    exact absurd this (by decide +kernel)
  · have := h.available "embedding"
    rw [hobject] at this
    exact absurd this (by decide +kernel)
  · exact absurd ((h.available "person_crops").mp hcpp) (by decide +kernel)

end ShipInfer.Perception
