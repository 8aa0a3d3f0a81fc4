import ShipInfer.Plane.Instance

/-!
# A batch of the C++ plane

The rows of each request are followed through the input binding, the run and the cut:
what comes back over a request's span is computed from the request's own rows.
-/

namespace ShipInfer.Plane

variable {α : Type}

theorem assemble_ok {cfg : Config α} {fault : Option AssemblyFault} {now : Int} {binding binding' : Nat → α}
    {items : List (WorkItem α)} {batch : Batch α} (h : assemble cfg fault now binding items = (.ok batch, binding')) :
    batch.items = items ∧ measure cfg.engine.inputRowElems 0 items = .ok (batch.spans, batch.rows) ∧
      batch.rows ≤ cfg.engine.maxBatch ∧
      binding' = writeItems cfg.engine.inputRowElems binding (items.zip batch.spans) := by
  unfold assemble at h
  dsimp only at h
  split at h
  · cases h
  · split at h
    · cases h
    · rename_i spans rows hmeasure
      split at h
      · cases h
      · split at h
        · cases h
        · rename_i hrows
          split at h
          · split at h
            · cases h
            · cases h
              exact ⟨rfl, hmeasure, Nat.not_lt.mp hrows, rfl⟩
          · cases h
            exact ⟨rfl, hmeasure, Nat.not_lt.mp hrows, rfl⟩

theorem length_measure {width : Nat} : ∀ {items : List (WorkItem α)} {offset total : Nat} {spans : List (Nat × Nat)},
    measure width offset items = .ok (spans, total) → spans.length = items.length
  | [], offset, total, spans, h => by
    cases h
    rfl
  | item :: items, offset, total, spans, h => by
    unfold measure at h
    split at h
    · cases h
    · split at h
      · cases h
      · rename_i hrest
        cases h
        rw [List.length_cons, List.length_cons, length_measure hrest]

/-! ## The rows of a request on their way -/

/-- One row behind a pointer. -/
def rowAt (width : Nat) (base : Nat → α) (r : Nat) : List α := (List.range width).map fun k => base (r * width + k)

/-- The engine computes each row of each output from the same row of its input. -/
def RowWise (f : Nat → List α → List α) (engine : Engine α) : Prop :=
  ∀ (binding : Nat → α) (rows o r : Nat) (output : OutputMeta), engine.outputs[o]? = some output →
    rows ≤ engine.maxBatch → r < rows →
      rowAt output.width (engine.execute binding rows o) r = f o (rowAt engine.inputRowElems binding r)

/-- The outputs computed from the first rows of a request. -/
def ownOutputs (f : Nat → List α → List α) (engine : Engine α) (request : InferenceRequest α) (rows : Nat) :
    List (OutputTensor α) :=
  engine.outputs.zipIdx.map fun p =>
    { name := p.1.name
      data := (List.range rows).flatMap fun r => f p.2 (rowAt request.rowElems request.data r)
      rowElems := p.1.width
      dims := p.1.dims }

/-- An answer of as many rows as the request has, each output computed from them. -/
def OwnRows (f : Nat → List α → List α) (engine : Engine α) (request : InferenceRequest α)
    (response : InferenceResponse α) : Prop :=
  response.rows = request.rows ∧ response.outputs = ownOutputs f engine request request.rows

theorem slice_rows (base : Nat → α) (width start : Nat) : ∀ n,
    slice base width (start, start + n) = (List.range n).flatMap fun r => rowAt width base (start + r)
  | 0 => by simp [slice]
  | n + 1 => by
    have ih := slice_rows base width start n
    simp only [slice, Nat.add_sub_cancel_left] at ih ⊢
    rw [List.range_succ, List.flatMap_append, ← ih, Nat.succ_mul, List.range_add, List.map_append, List.map_map]
    congr 1
    simp only [List.flatMap_cons, List.flatMap_nil, List.append_nil, rowAt]
    apply List.map_congr_left
    intro k _
    simp only [Function.comp_apply, Nat.add_mul, Nat.add_assoc]

/-- The items of a batch lie one behind the other. -/
theorem measure_spans {width : Nat} : ∀ {items : List (WorkItem α)} {offset total : Nat} {spans : List (Nat × Nat)},
    measure width offset items = .ok (spans, total) → offset ≤ total ∧ ∀ p ∈ items.zip spans,
      p.1.request.rowElems = width ∧ offset ≤ p.2.1 ∧ p.2.2 = p.2.1 + p.1.rows ∧ p.2.2 ≤ total
  | [], offset, total, spans, h => by
    cases h
    exact ⟨Nat.le_refl _, by simp⟩
  | item :: items, offset, total, spans, h => by
    unfold measure at h
    split at h
    · cases h
    · rename_i hwidth
      split at h
      · cases h
      · rename_i spans' total' hrest
        cases h
        obtain ⟨htotal, hspans⟩ := measure_spans hrest
        refine ⟨by omega, ?_⟩
        intro p hp
        rcases List.mem_cons.mp hp with rfl | hp
        · exact ⟨not_not.mp hwidth, Nat.le_refl _, rfl, htotal⟩
        · obtain ⟨hw, hstart, hstop, hend⟩ := hspans p hp
          exact ⟨hw, by omega, hstop, hend⟩

theorem writeItems_below {width : Nat} : ∀ {items : List (WorkItem α)} {offset total : Nat} {spans : List (Nat × Nat)}
    {binding : Nat → α}, measure width offset items = .ok (spans, total) → ∀ k < offset * width,
      writeItems width binding (items.zip spans) k = binding k
  | [], _, _, _, _, _ => fun _ _ => rfl
  | item :: items, offset, total, spans, binding, h => by
    unfold measure at h
    split at h
    · cases h
    · split at h
      · cases h
      · rename_i spans' total' hrest
        cases h
        intro k hk
        have hle : offset * width ≤ (offset + item.rows) * width := Nat.mul_le_mul_right _ (by omega)
        show writeItems width (writeRows width binding offset item.request.data item.rows) (items.zip spans') k = _
        rw [writeItems_below hrest k (by omega), writeRows, if_neg (by omega)]

/-- Each item's span of the binding holds the item's own words. -/
theorem writeItems_own {width : Nat} : ∀ {items : List (WorkItem α)} {offset total : Nat} {spans : List (Nat × Nat)}
    {binding : Nat → α}, measure width offset items = .ok (spans, total) → ∀ p ∈ items.zip spans,
      ∀ k < p.1.rows * width,
        writeItems width binding (items.zip spans) (p.2.1 * width + k) = p.1.request.data k
  | [], _, _, _, _, _ => by simp
  | item :: items, offset, total, spans, binding, h => by
    unfold measure at h
    split at h
    · cases h
    · split at h
      · cases h
      · rename_i spans' total' hrest
        cases h
        intro p hp k hk
        show writeItems width (writeRows width binding offset item.request.data item.rows) (items.zip spans') _ = _
        rcases List.mem_cons.mp hp with rfl | hp
        · have hle : offset * width + k < (offset + item.rows) * width := by
            rw [Nat.add_mul]
            exact Nat.add_lt_add_left hk _
          dsimp only
          rw [writeItems_below hrest _ hle, writeRows, if_pos ⟨Nat.le_add_right _ _, hle⟩, Nat.add_sub_cancel_left]
        · exact writeItems_own hrest p hp k hk

/-- An output of a run over written items, cut to a span, is computed from the item there. -/
theorem outputTensors_own {f : Nat → List α → List α} {cfg : Config α} (hf : RowWise f cfg.engine)
    {items : List (WorkItem α)} {spans : List (Nat × Nat)} {rows : Nat} {binding : Nat → α}
    (hm : measure cfg.engine.inputRowElems 0 items = .ok (spans, rows)) (hrows : rows ≤ cfg.engine.maxBatch) :
    ∀ p ∈ items.zip spans,
      outputTensors cfg.engine
          (cfg.engine.execute (writeItems cfg.engine.inputRowElems binding (items.zip spans)) rows) p.2 =
        ownOutputs f cfg.engine p.1.request p.1.rows := by
  intro p hp
  obtain ⟨hwidth, _, hstop, hend⟩ := (measure_spans hm).2 p hp
  unfold outputTensors ownOutputs
  apply List.map_congr_left
  intro q hq
  have hq' : cfg.engine.outputs[q.2]? = some q.1 := by
    obtain ⟨_, hlt, heq⟩ := List.mem_zipIdx hq
    simp only [Nat.sub_zero] at heq
    rw [heq]
    exact List.getElem?_eq_getElem _
  have hspan : p.2 = (p.2.1, p.2.1 + p.1.rows) := by rw [← hstop]
  simp only [OutputTensor.mk.injEq, true_and, and_true]
  rw [hspan, slice_rows]
  apply List.flatMap_congr
  intro r hr
  have hr' : r < p.1.rows := List.mem_range.mp hr
  rw [hf _ _ _ _ _ hq' hrows (by omega), hwidth]
  congr 1
  apply List.map_congr_left
  intro k hk
  have hk' : k < cfg.engine.inputRowElems := List.mem_range.mp hk
  rw [Nat.add_mul, Nat.add_assoc]
  apply writeItems_own hm p hp
  calc r * cfg.engine.inputRowElems + k < r * cfg.engine.inputRowElems + cfg.engine.inputRowElems := by omega
    _ = (r + 1) * cfg.engine.inputRowElems := (Nat.succ_mul _ _).symm
    _ ≤ p.1.rows * cfg.engine.inputRowElems := Nat.mul_le_mul_right _ hr'

/-! ## Which batches can be assembled -/

def batchRows (items : List (WorkItem α)) : Nat := items.foldr (fun item n => item.rows + n) 0

theorem batchRows_cons (item : WorkItem α) (items : List (WorkItem α)) :
    batchRows (item :: items) = item.rows + batchRows items := rfl

theorem measure_total {width : Nat} : ∀ {items : List (WorkItem α)} {offset total : Nat} {spans : List (Nat × Nat)},
    measure width offset items = .ok (spans, total) →
      total = offset + batchRows items ∧ ∀ item ∈ items, item.request.rowElems = width
  | [], offset, total, spans, h => by
    cases h
    exact ⟨rfl, by simp⟩
  | item :: items, offset, total, spans, h => by
    unfold measure at h
    split at h
    · cases h
    · rename_i hwidth
      split at h
      · cases h
      · rename_i hrest
        cases h
        obtain ⟨htotal, hall⟩ := measure_total hrest
        exact ⟨by rw [htotal, batchRows_cons, Nat.add_assoc], List.forall_mem_cons.mpr ⟨not_not.mp hwidth, hall⟩⟩

theorem measure_ok {width : Nat} : ∀ {items : List (WorkItem α)} (offset : Nat),
    (∀ item ∈ items, item.request.rowElems = width) →
      ∃ spans, measure width offset items = .ok (spans, offset + batchRows items)
  | [], offset, _ => ⟨[], rfl⟩
  | item :: items, offset, h => by
    obtain ⟨hwidth, hall⟩ := List.forall_mem_cons.mp h
    obtain ⟨spans, hrest⟩ := measure_ok (offset + item.rows) hall
    refine ⟨(offset, offset + item.rows) :: spans, ?_⟩
    rw [measure, if_neg (not_not.mpr hwidth), hrest, batchRows_cons, Nat.add_assoc]

/-- Without a fault of the engine a batch is assembled when each request has rows of the
engine's width and the rows are not too many. -/
theorem assemble_ok_iff {cfg : Config α} {now : Int} {binding : Nat → α} {items : List (WorkItem α)} :
    (∃ batch, (assemble cfg none now binding items).1 = .ok batch) ↔
      (∀ item ∈ items, item.request.rowElems = cfg.engine.inputRowElems) ∧ batchRows items ≤ cfg.engine.maxBatch := by
  constructor
  · rintro ⟨batch, h⟩
    obtain ⟨_, hmeasure, hmax, -⟩ := assemble_ok (Prod.ext h rfl)
    obtain ⟨htotal, hall⟩ := measure_total hmeasure
    exact ⟨hall, by omega⟩
  · rintro ⟨hall, hmax⟩
    obtain ⟨spans, hmeasure⟩ := measure_ok 0 hall
    rw [Nat.zero_add] at hmeasure
    refine ⟨{ items := items, spans := spans, rows := batchRows items, batchedNs := now }, ?_⟩
    simp only [assemble, hmeasure, if_neg (Nat.not_lt.mpr hmax)]

/-! ## A scorer -/

/-- Two words a row in; out come the row itself and its sum. -/
def scorer : Engine Nat where
  maxBatch := 4
  inputRowElems := 2
  outputs := [⟨"boxes", [2], 2⟩, ⟨"score", [1], 1⟩]
  execute := fun binding _ o k => if o = 0 then binding k else binding (2 * k) + binding (2 * k + 1)

def scorerRow (o : Nat) (row : List Nat) : List Nat := if o = 0 then row else [row.sum]

theorem scorer_rowWise : RowWise scorerRow scorer := by
  intro binding rows o r output ho _ _
  match o, ho with
  | 0, ho =>
    cases ho
    rfl
  | 1, ho =>
    cases ho
    simp [rowAt, scorerRow, scorer, List.range_succ, Nat.mul_comm]

def scoring : Config Nat where
  name := "scorer#0"
  engine := scorer
  window := { maxBatchSize := 4, maxBatchSize_pos := by decide, preferred_within := by simp }
  queueCapacity := 1
  overflow := .dropOldest
  capacity_pos := Nat.le_refl 1
  shaped := by decide
  within := Nat.le_refl 4

def cropRequest (data : List Nat) (rows : Nat) : InferenceRequest Nat where
  tag := { cameraId := "cam-1", frameId := 7 }
  data := fun k => data.getD k 0
  rows := rows
  rowElems := 2

end ShipInfer.Plane
