import Mathlib
import ShipInfer.Batching.Provenance
import ShipInfer.Plane.Assembly

/-!
# Batch-mates at assembly

Admission looks at a request alone. Which batches of admitted requests can be
assembled, in the Python plane and in the C++ plane.
-/

namespace ShipInfer.Batching

/-- The requests agree on an input: none carries it, or all do, in host tensors with a
batch axis and one row shape. -/
def AgreeOn (items : List WorkItem) (name : String) : Prop :=
  (∀ item ∈ items, name ∉ item.request.inputs.keys) ∨
    ∃ rowShape, ∀ item ∈ items, ∃ t, item.request.inputs.get? name = some t ∧ t.shape ≠ [] ∧
      t.shape.tail = rowShape ∧ t.handle = none

def Agreeing (specs : List TensorSpec) (items : List WorkItem) : Prop :=
  ∀ name ∈ specs.map TensorSpec.name, AgreeOn items name

/-! ## Stacking -/

theorem numpy_ok_iff {t : Tensor} : (t.numpy.map fun _ => ()) = .ok () ↔ t.handle = none := by
  unfold Tensor.numpy
  cases t.handle <;> simp [Except.map]

theorem stackTensors_ok_iff {head t : Tensor} {ts : List Tensor} :
    (∃ x, stackTensors (head :: t :: ts) = .ok x) ↔
      ∀ y ∈ head :: t :: ts, Tensor.Stackable head y ∧ y.handle = none := by
  have hstack : (∃ x, stackTensors (head :: t :: ts) = .ok x) ↔
      (head :: t :: ts).forM (Tensor.stackable head) = .ok () ∧
        (head :: t :: ts).forM (fun y => y.numpy.map fun _ => ()) = .ok () := by
    rw [stackTensors]
    split
    · rename_i h
      simp [h]
    · rename_i h
      split
      · rename_i hn
        simp [hn]
      · rename_i hn
        simp [h, hn]
  rw [hstack, forM_ok_iff, forM_ok_iff]
  simp only [Tensor.stackable_ok_iff, numpy_ok_iff]
  constructor
  · rintro ⟨hs, hn⟩ y hy
    exact ⟨hs y hy, hn y hy⟩
  · intro h
    exact ⟨fun y hy => (h y hy).1, fun y hy => (h y hy).2⟩

/-- A stack has the element type and the row shape of its first part. -/
theorem stackTensors_like {head x : Tensor} {ts : List Tensor} (h : stackTensors (head :: ts) = .ok x) :
    x.dtype = head.dtype ∧ x.shape.tail = head.shape.tail := by
  cases ts with
  | nil =>
    cases h
    exact ⟨rfl, rfl⟩
  | cons t ts =>
    rw [stackTensors] at h
    split at h
    · cases h
    · split at h
      · cases h
      · cases h
        exact ⟨rfl, rfl⟩

/-! ## Stacking one input of admitted requests -/

section
variable {specs : List TensorSpec} {items : List WorkItem}

/-- Valid tensors of one name have one element type. -/
theorem dtype_of_valid {tensors : Dict String Tensor} {name : String} {t : Tensor}
    (hv : validateAgainst tensors specs .input = .ok ()) (ht : tensors.get? name = some t) :
    ∃ spec, (specsByName specs).get? name = some spec ∧ t.dtype = spec.dtype := by
  have hd := (validateAgainst_ok_iff.mp hv).2 (name, t) (Dict.get?_eq_some_iff.mp ht)
  unfold checkDeclared at hd
  cases hspec : (specsByName specs).get? name with
  | none =>
    rw [hspec] at hd
    cases hd
  | some spec =>
    simp only [hspec] at hd
    refine ⟨spec, rfl, ?_⟩
    by_contra hne
    rw [if_pos hne] at hd
    cases hd

theorem dtype_eq {a b : Dict String Tensor} {name : String} {t u : Tensor}
    (ha : validateAgainst a specs .input = .ok ()) (hb : validateAgainst b specs .input = .ok ())
    (ht : a.get? name = some t) (hu : b.get? name = some u) : u.dtype = t.dtype := by
  obtain ⟨spec, hspec, htd⟩ := dtype_of_valid ha ht
  obtain ⟨spec', hspec', hud⟩ := dtype_of_valid hb hu
  rw [hspec, Option.some.injEq] at hspec'
  rw [hud, htd, hspec']

theorem mem_contributions {name : String} {t : Tensor} :
    t ∈ StackingBatcher.contributions items name ↔ ∃ item ∈ items, item.request.inputs.get? name = some t :=
  List.mem_filterMap

theorem contributions_nil_iff {name : String} :
    StackingBatcher.contributions items name = [] ↔ ∀ item ∈ items, name ∉ item.request.inputs.keys := by
  refine ⟨contributions_none, fun h => List.filterMap_eq_nil_iff.mpr fun item hitem => ?_⟩
  exact Dict.get?_eq_none_iff.mpr (h item hitem)

theorem contributions_length_iff {name : String} :
    (StackingBatcher.contributions items name).length = items.length ↔
      ∀ item ∈ items, ∃ t, item.request.inputs.get? name = some t := by
  constructor
  · intro h item hitem
    obtain ⟨t, -, ht⟩ := exists_of_mem_forall₂ (contributions_all h).flip hitem
    exact ⟨t, ht⟩
  · intro h
    induction items with
    | nil => rfl
    | cons item items ih =>
      obtain ⟨⟨t, ht⟩, hall⟩ := List.forall_mem_cons.mp h
      have hrest := ih hall
      simp only [StackingBatcher.contributions, List.filterMap_cons, ht, List.length_cons] at hrest ⊢
      rw [hrest]

/-- A round of the loop over the inputs succeeds just when the requests agree on it. -/
theorem stackInput_ok_iff (hv : ∀ item ∈ items, validateAgainst item.request.inputs specs .input = .ok ())
    (htwo : 2 ≤ items.length) (inputs : Dict String Tensor) (name : String) :
    (∃ d, StackingBatcher.stackInput items inputs name = .ok d) ↔ AgreeOn items name := by
  unfold StackingBatcher.stackInput
  dsimp only
  by_cases hnone : StackingBatcher.contributions items name = []
  · rw [if_pos hnone]
    exact ⟨fun _ => .inl (contributions_nil_iff.mp hnone), fun _ => ⟨inputs, rfl⟩⟩
  · rw [if_neg hnone]
    have hsome : ¬∀ item ∈ items, name ∉ item.request.inputs.keys := fun h => hnone (contributions_nil_iff.mpr h)
    by_cases hall : (StackingBatcher.contributions items name).length = items.length
    · rw [if_neg (not_not.mpr hall)]
      obtain ⟨head, t, ts, hts⟩ : ∃ head t ts, StackingBatcher.contributions items name = head :: t :: ts := by
        match hts : StackingBatcher.contributions items name with
        | [] => exact absurd hts hnone
        | [x] => simp [hts] at hall; omega
        | head :: t :: ts => exact ⟨head, t, ts, rfl⟩
      have hmem : ∀ y, y ∈ head :: t :: ts ↔ ∃ item ∈ items, item.request.inputs.get? name = some y := by
        intro y
        rw [← hts]
        exact mem_contributions
      refine Iff.trans (b := ∃ x, stackTensors (StackingBatcher.contributions items name) = .ok x) ?_ ?_
      · cases stackTensors (StackingBatcher.contributions items name) <;> simp
      rw [hts, stackTensors_ok_iff]
      obtain ⟨first, hfirst, hhead⟩ := (hmem head).mp List.mem_cons_self
      constructor
      · intro h
        refine .inr ⟨head.shape.tail, fun item hitem => ?_⟩
        obtain ⟨y, hy⟩ := contributions_length_iff.mp hall item hitem
        obtain ⟨hstack, hhost⟩ := h y ((hmem y).mpr ⟨item, hitem, hy⟩)
        exact ⟨y, hy, hstack.axis, hstack.rowShape, hhost⟩
      · rintro (h | ⟨rowShape, h⟩)
        · exact absurd h hsome
        · intro y hy
          obtain ⟨item, hitem, hget⟩ := (hmem y).mp hy
          obtain ⟨y', hy', haxis, hshape, hhost⟩ := h item hitem
          obtain ⟨head', hhead', -, hshape', -⟩ := h first hfirst
          rw [hget, Option.some.injEq] at hy'
          rw [hhead, Option.some.injEq] at hhead'
          subst hy' hhead'
          exact ⟨⟨dtype_eq (hv first hfirst) (hv item hitem) hhead hget, hshape.trans hshape'.symm, haxis⟩, hhost⟩
    · rw [if_pos hall]
      constructor
      · rintro ⟨d, hd⟩
        cases hd
      · rintro (h | ⟨rowShape, h⟩)
        · exact absurd h hsome
        · refine absurd (contributions_length_iff.mpr fun item hitem => ?_) hall
          obtain ⟨t, ht, -⟩ := h item hitem
          exact ⟨t, ht⟩

/-! ## The whole batch -/

theorem checkDeclared_congr {byName : Dict String TensorSpec} {name : String} {t u : Tensor} (hd : t.dtype = u.dtype)
    (hs : t.shape.tail = u.shape.tail) : checkDeclared .input byName (name, t) = checkDeclared .input byName (name, u) := by
  unfold checkDeclared
  simp only [hd, hs]

/-- What is packed from valid requests is valid. -/
theorem packed_valid (hv : ∀ item ∈ items, validateAgainst item.request.inputs specs .input = .ok ()) (hne : items ≠ [])
    {inputs : Dict String Tensor} (hpacks : ∀ p ∈ inputs.entries, Packs items p.1 p.2)
    (hkept : ∀ item ∈ items, ∀ name ∈ specs.map TensorSpec.name, name ∈ item.request.inputs.keys → name ∈ inputs.keys) :
    validateAgainst inputs specs .input = .ok () := by
  obtain ⟨first, rest, rfl⟩ := List.exists_cons_of_ne_nil hne
  have hfirst := hv first List.mem_cons_self
  rw [validateAgainst_ok_iff] at hfirst ⊢
  constructor
  · intro spec hspec
    have hp := hfirst.1 spec hspec
    unfold checkPresent at hp ⊢
    by_cases hc : first.request.inputs.contains spec.name = true
    · have hk := Dict.contains_iff.mp hc
      have hn := declared_of_valid (hv first List.mem_cons_self) spec.name hk
      rw [Dict.contains_iff.mpr (hkept first List.mem_cons_self spec.name hn hk)]
      rfl
    · simp only [hc] at hp
      split
      · rename_i h
        simp only [Bool.and_eq_true] at h
        simp [h.2] at hp
      · rfl
  · intro p hp
    obtain ⟨ts, hts, hstack⟩ := hpacks p hp
    cases hts with
    | cons hget _ =>
      obtain ⟨hd, hs⟩ := stackTensors_like hstack
      show checkDeclared .input (specsByName specs) (p.1, p.2) = _
      rw [checkDeclared_congr hd hs]
      exact hfirst.2 _ (Dict.get?_eq_some_iff.mp hget)

end

/-- Admitted requests within the row budget can be assembled just when there is one of
them, or they agree on every input. -/
theorem assemble_ok_iff {m : Model} {items : List WorkItem} (hne : items ≠ []) (hq : ∀ item ∈ items, m.Queued item)
    (hrows : batchRows items ≤ m.effectiveMaxBatchSize) :
    (∃ batch, m.batcher.assemble items = .ok batch) ↔ items.length = 1 ∨ Agreeing m.inputSpecs items := by
  have hv : ∀ item ∈ items, validateAgainst item.request.inputs m.inputSpecs .input = .ok () :=
    fun item hitem => (hq item hitem).valid
  have hassemble : (∃ batch, m.batcher.assemble items = .ok batch) ↔ ∃ d, m.batcher.packInputs items = .ok d := by
    have hmax : ¬m.batcher.maxBatchSize < batchRows items := Nat.not_lt.mpr hrows
    unfold StackingBatcher.assemble
    rw [if_neg hne, if_neg hmax]
    cases hpack : m.batcher.packInputs items with
    | error e => simp
    | ok inputs =>
      obtain ⟨hpacks, hkept⟩ := packInputs_packs hpack
      have hvalid : validateAgainst inputs m.batcher.inputSpecs .input = .ok () := packed_valid hv hne hpacks hkept
      simp [hvalid]
  rw [hassemble]
  match items, hne with
  | [item], _ => exact ⟨fun _ => .inl rfl, fun _ => ⟨_, rfl⟩⟩
  | first :: second :: rest, _ =>
    have hloop : (∃ d, m.batcher.packInputs (first :: second :: rest) = .ok d) ↔
        Agreeing m.inputSpecs (first :: second :: rest) :=
      exists_foldlM_ok_iff fun d name _ => stackInput_ok_iff hv (by simp) d name
    rw [hloop]
    simp

/-- Admitted requests, each of which can be assembled alone, can be assembled together
just when there is one of them or they agree on every input; requests of the C++ plane
always can. -/
theorem batches_isolated (m : Model) (items : List WorkItem) (hne : items ≠ []) (hq : ∀ item ∈ items, m.Queued item)
    (hrows : batchRows items ≤ m.effectiveMaxBatchSize) {α : Type} (cfg : Plane.Config α)
    (batch : List (Plane.WorkItem α)) (hbatch : Plane.batchRows batch ≤ cfg.window.maxBatchSize) (now : Int)
    (binding : Nat → α) :
    (((∀ item ∈ items, ∃ alone, m.batcher.assemble [item] = .ok alone) →
        ∃ together, m.batcher.assemble items = .ok together) ↔
      items.length = 1 ∨ Agreeing m.inputSpecs items) ∧
    ((∀ item ∈ batch, ∃ alone, (Plane.assemble cfg none now binding [item]).1 = .ok alone) →
      ∃ together, (Plane.assemble cfg none now binding batch).1 = .ok together) := by
  have hle : ∀ item ∈ items, batchRows [item] ≤ batchRows items := by
    intro item hitem
    obtain ⟨before, after, rfl⟩ := List.append_of_mem hitem
    clear hne hq hrows hitem
    induction before with
    | nil => simp [batchRows]
    | cons other before ih =>
      simp only [batchRows, List.cons_append, List.foldr_cons, List.foldr_nil] at ih ⊢
      omega
  have halone : ∀ item ∈ items, ∃ alone, m.batcher.assemble [item] = .ok alone := by
    intro item hitem
    have hone : ∀ x ∈ [item], m.Queued x := by
      intro x hx
      rw [List.mem_singleton.mp hx]
      exact hq item hitem
    exact (assemble_ok_iff (List.cons_ne_nil item []) hone ((hle item hitem).trans hrows)).mpr (.inl rfl)
  refine ⟨?_, ?_⟩
  · rw [← assemble_ok_iff hne hq hrows]
    exact ⟨fun h => h halone, fun h _ => h⟩
  · intro h
    rw [Plane.assemble_ok_iff]
    refine ⟨fun item hitem => ?_, hbatch.trans cfg.within⟩
    exact (Plane.assemble_ok_iff.mp (h item hitem)).1 item (List.mem_singleton_self item)

/-! ## A model with a free extent and an optional input -/

def words (bytes : List UInt8) : Tensor where
  dtype := .uint8
  shape := [1, bytes.length]
  data := bytes
  sized := by simp [elementCount, DataType.itemsize]

theorem mask_named : "mask" ≠ "" := by decide

theorem score_named : "score" ≠ "" := by decide

theorem dynamic_extent : ∀ dim ∈ [dynamic], 0 ≤ dim ∨ dim = dynamic := by simp

def reader : Model where
  name := "reader"
  version := 1
  started := true
  inputSpecs :=
    [{ name := "ids", dtype := .uint8, shape := [dynamic], named := by decide, extents := dynamic_extent },
      { name := "mask", dtype := .uint8, shape := [dynamic], optional := true, named := mask_named, extents := dynamic_extent }]
  outputSpecs := [byteSpec "score" score_named]
  maxBatchSize := 8
  cached := fun _ => none

/-- The item of a request that was let in at time 7. -/
def readItem (requestId : Int) (inputs : Dict String Tensor) : WorkItem :=
  WorkItem.stamped
    { request := Model.received { modelName := "reader", inputs := inputs, requestId := requestId } 7, enqueuedNs := 7 }

def short : WorkItem := readItem 1 (Dict.empty.set "ids" (words [1, 2]))

def long : WorkItem := readItem 2 (Dict.empty.set "ids" (words [3, 4, 5]))

def masked : WorkItem := readItem 3 ((Dict.empty.set "ids" (words [6, 7])).set "mask" (words [1, 0]))

theorem readers_queued : reader.Queued short ∧ reader.Queued long ∧ reader.Queued masked :=
  ⟨⟨{ modelName := "reader", inputs := Dict.empty.set "ids" (words [1, 2]), requestId := 1 }, 7, ⟨_, none⟩, rfl, rfl, rfl⟩,
    ⟨{ modelName := "reader", inputs := Dict.empty.set "ids" (words [3, 4, 5]), requestId := 2 }, 7, ⟨_, none⟩, rfl, rfl,
      rfl⟩,
    ⟨{ modelName := "reader"
       inputs := (Dict.empty.set "ids" (words [6, 7])).set "mask" (words [1, 0])
       requestId := 3 }, 7, ⟨_, none⟩, rfl, rfl, rfl⟩⟩

def crops : List (Plane.WorkItem Nat) :=
  [{ id := 0, request := Plane.cropRequest [1, 2, 3, 4] 2 }, { id := 1, request := Plane.cropRequest [5, 6] 1 }]

theorem readers_isolated :
    (∃ together, reader.batcher.assemble [short, readItem 4 (Dict.empty.set "ids" (words [8, 9]))] = .ok together) ∧
      ∃ together, (Plane.assemble Plane.scoring none 7 (fun _ => 0) crops).1 = .ok together := by
  have hother : reader.Queued (readItem 4 (Dict.empty.set "ids" (words [8, 9]))) :=
    ⟨{ modelName := "reader", inputs := Dict.empty.set "ids" (words [8, 9]), requestId := 4 }, 7, ⟨_, none⟩, rfl, rfl, rfl⟩
  have hq : ∀ item ∈ [short, readItem 4 (Dict.empty.set "ids" (words [8, 9]))], reader.Queued item := by
    intro item hitem
    rcases List.mem_pair.mp hitem with rfl | rfl
    · exact readers_queued.1
    · exact hother
  have h := batches_isolated reader _ (List.cons_ne_nil _ _) hq (by decide) Plane.scoring crops (by decide) 7 fun _ => 0
  refine ⟨h.1.mpr (.inr ?_) ?_, h.2 ?_⟩
  · intro name hname
    rcases List.mem_pair.mp hname with rfl | rfl
    · refine .inr ⟨[2], fun item hitem => ?_⟩
      rcases List.mem_pair.mp hitem with rfl | rfl <;> exact ⟨_, rfl, by decide, rfl, rfl⟩
    · refine .inl fun item hitem => ?_
      rcases List.mem_pair.mp hitem with rfl | rfl <;> decide
  · intro item hitem
    rcases List.mem_pair.mp hitem with rfl | rfl <;> exact ⟨_, rfl⟩
  · intro item hitem
    rcases List.mem_pair.mp hitem with rfl | rfl <;> exact ⟨_, rfl⟩

/-- Two lengths in one batch, or a mask that one of two requests carries, fail both. -/
theorem batch_mates_fail :
    (reader.Queued short ∧ reader.Queued long ∧ reader.Queued masked) ∧
      (∀ item ∈ [short, long, masked], ∃ alone, reader.batcher.assemble [item] = .ok alone) ∧
      reader.batcher.assemble [short, long] = .error (.stack (.rowShapeMismatch [3] [2])) ∧
      reader.batcher.assemble [short, masked] = .error (.partialOptional "mask" 1 2) := by
  refine ⟨readers_queued, ?_, rfl, rfl⟩
  intro item hitem
  simp only [List.mem_cons, List.not_mem_nil, or_false] at hitem
  rcases hitem with rfl | rfl | rfl <;> exact ⟨_, rfl⟩

end ShipInfer.Batching
