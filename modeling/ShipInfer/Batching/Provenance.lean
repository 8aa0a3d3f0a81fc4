import ShipInfer.Batching.Stacking

/-!
# Whose rows are whose

A batch keeps provenance when every stacked input holds, over the span of an
item, exactly the rows that item supplied, and when scattering the outputs of a
backend that works row by row gives each item the rows computed from its own.
The spans are counted from one input of each request, so this holds exactly
when every input of a request has the rows of the first, and at least one.
-/

namespace ShipInfer.Batching

/-- The rows over a span; there are none of a span that runs past the end. -/
def rowsOver (t : Tensor) (span : Nat × Nat) : Option (List Row) :=
  if span.2 ≤ t.batchSize then some ((t.rows.drop span.1).take (span.2 - span.1)) else none

def rowAt (inputs : Dict String Tensor) (j : Nat) (name : String) : Option Row :=
  (inputs.get? name).bind fun t => t.rows[j]?

/-- What a row by row backend computes: an output's row from one row of the inputs. -/
abbrev RowFunction := (String → Option Row) → String → Row

def computed (f : RowFunction) (inputs : Dict String Tensor) (n : Nat) (name : String) : List Row :=
  (List.range n).map fun j => f (rowAt inputs j) name

/-- Outputs as declared, on the host, with `n` rows computed row by row. -/
structure Computes (f : RowFunction) (specs : List TensorSpec) (inputs : Dict String Tensor) (n : Nat)
    (outputs : Dict String Tensor) : Prop where
  valid : validateAgainst outputs specs .output = .ok ()
  host : ∀ p ∈ outputs.entries, p.2.handle = none
  batchMajor : ∀ p ∈ outputs.entries, p.2.shape.head? = some n
  rows : ∀ p ∈ outputs.entries, p.2.rows = computed f inputs n p.1

/-- A row-wise backend: on inputs of `n` rows each, what it answers is computed row
by row. -/
def RowWise (f : RowFunction) (specs : List TensorSpec)
    (execute : Dict String Tensor → Nat → Except String (Dict String Tensor)) : Prop :=
  ∀ inputs n outputs, (∀ p ∈ inputs.entries, p.2.batchSize = n) → execute inputs n = .ok outputs →
    Computes f specs inputs n outputs

/-- The item supplied, for an input, the rows the stacked tensor has over the span. -/
def Supplied (p : String × Tensor) (item : WorkItem) (span : Nat × Nat) : Prop :=
  ∃ x, item.request.inputs.get? p.1 = some x ∧ rowsOver p.2 span = some x.rows

/-- The part holds every output, with the rows computed from the item's own. -/
def Answered (f : RowFunction) (outputs : Dict String Tensor) (item : WorkItem) (part : Dict String Tensor) : Prop :=
  part.keys = outputs.keys ∧ ∀ p ∈ part.entries, p.2.rows = computed f item.request.inputs item.rows p.1

structure Provenance (b : StackingBatcher) (batch : AssembledBatch) : Prop where
  packed : ∀ p ∈ batch.inputs.entries, List.Forall₂ (Supplied p) batch.items batch.spans
  kept : ∀ item ∈ batch.items, ∀ name ∈ item.request.inputs.keys, name ∈ batch.inputs.keys
  unpacked : ∀ f execute, RowWise f b.outputSpecs execute →
    ∀ outputs, execute batch.inputs batch.size = .ok outputs →
      ∃ parts, b.scatter batch outputs = .ok parts ∧ List.Forall₂ (Answered f outputs) batch.items parts

/-- Every input of every request has the rows of the first, and at least one. -/
def Aligned (items : List WorkItem) : Prop :=
  ∀ item ∈ items, ∀ p ∈ item.request.inputs.entries, p.2.batchSize = item.rows

/-! ## Spans -/

theorem spans_width : ∀ (offset : Nat) (items : List WorkItem),
    List.Forall₂ (fun item span => span.2 = span.1 + item.rows) items (spans offset items)
  | _, [] => .nil
  | offset, item :: items => .cons rfl (spans_width (offset + item.rows) items)

theorem spans_within : ∀ (offset : Nat) (items : List WorkItem),
    ∀ span ∈ spans offset items, span.1 ≤ span.2 ∧ span.2 ≤ offset + batchRows items
  | _, [] => by simp [spans]
  | offset, item :: items => by
    intro span hspan
    have hrows : batchRows (item :: items) = item.rows + batchRows items := rfl
    rcases List.mem_cons.mp hspan with rfl | hspan
    · dsimp only
      omega
    · have := spans_within (offset + item.rows) items span hspan
      omega

theorem last_spans : ∀ (offset : Nat) (items : List WorkItem), items ≠ [] →
    ∃ start, (spans offset items).getLast? = some (start, offset + batchRows items)
  | _, [], h => absurd rfl h
  | offset, [item], _ => ⟨offset, rfl⟩
  | offset, item :: other :: items, _ => by
    obtain ⟨start, hlast⟩ := last_spans (offset + item.rows) (other :: items) (List.cons_ne_nil _ _)
    have hrows : batchRows (item :: other :: items) = item.rows + batchRows (other :: items) := rfl
    refine ⟨start, ?_⟩
    rw [hrows, spans, spans, List.getLast?_cons_cons, ← spans, hlast, Nat.add_assoc]

/-- Parts of the right sizes lie, put together, one over each span. -/
theorem parts_over_spans {rows : List Row} : ∀ {items : List WorkItem} {ts : List Tensor} (before : List Row),
    List.Forall₂ (fun item x => x.batchSize = item.rows) items ts → rows = before ++ ts.flatMap Tensor.rows →
      List.Forall₂ (fun x span => (rows.drop span.1).take (span.2 - span.1) = x.rows) ts (spans before.length items)
  | [], [], _, .nil, _ => .nil
  | item :: items, x :: ts, before, .cons hx hts, hrows => by
    have hlen : x.rows.length = item.rows := by rw [x.length_rows, hx]
    refine .cons ?_ ?_
    · dsimp only
      rw [hrows, List.drop_left, List.flatMap_cons, Nat.add_sub_cancel_left, ← hlen, List.take_left]
    · have hrest : rows = before ++ x.rows ++ ts.flatMap Tensor.rows := by
        rw [hrows, List.flatMap_cons, List.append_assoc]
      have := parts_over_spans (before ++ x.rows) hts hrest
      rwa [List.length_append, hlen] at this

/-! ## What assembling packs -/

/-- The parts of a stacked input, one from every item. -/
def Packs (items : List WorkItem) (name : String) (t : Tensor) : Prop :=
  ∃ ts, List.Forall₂ (fun item x => item.request.inputs.get? name = some x) items ts ∧ stackTensors ts = .ok t

theorem contributions_all {name : String} : ∀ {items : List WorkItem},
    (StackingBatcher.contributions items name).length = items.length →
      List.Forall₂ (fun item x => item.request.inputs.get? name = some x) items
        (StackingBatcher.contributions items name)
  | [], _ => .nil
  | item :: items, h => by
    have hle : (StackingBatcher.contributions items name).length ≤ items.length := List.length_filterMap_le _ _
    unfold StackingBatcher.contributions at h ⊢ hle
    cases hg : item.request.inputs.get? name with
    | none =>
      simp only [List.filterMap_cons, hg, List.length_cons] at h
      omega
    | some x =>
      simp only [List.filterMap_cons, hg, List.length_cons] at h ⊢
      exact .cons hg (contributions_all (Nat.succ.inj h))

theorem contributions_none {name : String} {items : List WorkItem} (h : StackingBatcher.contributions items name = []) :
    ∀ item ∈ items, name ∉ item.request.inputs.keys := by
  intro item hitem
  exact Dict.get?_eq_none_iff.mp (List.filterMap_eq_nil_iff.mp h item hitem)

/-- A round of the loop sets the input to the stack of its parts, or no item has it. -/
theorem stackInput_cases {items : List WorkItem} {inputs inputs' : Dict String Tensor} {name : String}
    (h : StackingBatcher.stackInput items inputs name = .ok inputs') :
    (inputs' = inputs ∧ ∀ item ∈ items, name ∉ item.request.inputs.keys) ∨
      ∃ t, inputs' = inputs.set name t ∧ Packs items name t := by
  unfold StackingBatcher.stackInput at h
  dsimp only at h
  split at h
  · cases h
    exact .inl ⟨rfl, contributions_none ‹_›⟩
  · split at h
    · cases h
    · rename_i hall
      split at h
      · cases h
      · rename_i t hstack
        cases h
        exact .inr ⟨t, rfl, _, contributions_all (not_not.mp hall), hstack⟩

theorem stackInputs_packs {items : List WorkItem} {names : List String} {inputs inputs' : Dict String Tensor}
    (h : names.foldlM (StackingBatcher.stackInput items) inputs = .ok inputs')
    (hi : ∀ p ∈ inputs.entries, Packs items p.1 p.2) : ∀ p ∈ inputs'.entries, Packs items p.1 p.2 := by
  refine foldlM_keeps (I := fun d : Dict String Tensor => ∀ p ∈ d.entries, Packs items p.1 p.2) ?_ h hi
  intro d name d' _ hstep hd
  rcases stackInput_cases hstep with ⟨rfl, -⟩ | ⟨t, rfl, ht⟩
  · exact hd
  · intro p hp
    rcases Dict.mem_set_entries.mp hp with rfl | ⟨hp, -⟩
    · exact ht
    · exact hd p hp

/-- No name is dropped that an item has. -/
theorem stackInputs_keeps {items : List WorkItem} : ∀ {names : List String} {inputs inputs' : Dict String Tensor},
    names.foldlM (StackingBatcher.stackInput items) inputs = .ok inputs' →
      (∀ name ∈ inputs.keys, name ∈ inputs'.keys) ∧
        ∀ item ∈ items, ∀ name ∈ names, name ∈ item.request.inputs.keys → name ∈ inputs'.keys
  | [], inputs, inputs', h => by
    cases h
    exact ⟨fun _ h => h, fun _ _ _ h => (List.not_mem_nil h).elim⟩
  | name :: names, inputs, inputs', h => by
    rw [List.foldlM_cons] at h
    cases hs : StackingBatcher.stackInput items inputs name with
    | error e => rw [hs] at h; cases h
    | ok d =>
      rw [hs] at h
      have hloop : names.foldlM (StackingBatcher.stackInput items) d = .ok inputs' := h
      obtain ⟨hkeys, hrest⟩ := stackInputs_keeps hloop
      rcases stackInput_cases hs with ⟨rfl, hnone⟩ | ⟨t, rfl, ht⟩
      · refine ⟨hkeys, fun item hitem a ha hk => ?_⟩
        rcases List.mem_cons.mp ha with rfl | ha
        · exact absurd hk (hnone item hitem)
        · exact hrest item hitem a ha hk
      · refine ⟨fun a ha => hkeys a (Dict.mem_keys_set.mpr (.inr ha)), fun item hitem a ha hk => ?_⟩
        rcases List.mem_cons.mp ha with rfl | ha
        · exact hkeys a (Dict.mem_keys_set.mpr (.inl rfl))
        · exact hrest item hitem a ha hk

/-- What a batch is when assembling succeeds. -/
structure Assembled (b : StackingBatcher) (items : List WorkItem) (batch : AssembledBatch) : Prop where
  nonempty : items ≠ []
  items_eq : batch.items = items
  spans_eq : batch.spans = spans 0 items
  packs : ∀ p ∈ batch.inputs.entries, Packs items p.1 p.2
  kept : ∀ item ∈ items, ∀ name ∈ b.inputNames, name ∈ item.request.inputs.keys → name ∈ batch.inputs.keys

theorem packInputs_packs {b : StackingBatcher} {items : List WorkItem} {inputs : Dict String Tensor}
    (h : b.packInputs items = .ok inputs) :
    (∀ p ∈ inputs.entries, Packs items p.1 p.2) ∧
      ∀ item ∈ items, ∀ name ∈ b.inputNames, name ∈ item.request.inputs.keys → name ∈ inputs.keys := by
  unfold StackingBatcher.packInputs at h
  split at h
  · rename_i item
    cases h
    refine ⟨fun p hp => ⟨[p.2], .cons (Dict.get?_eq_some_iff.mpr hp) .nil, rfl⟩, fun other hother name _ hk => ?_⟩
    rwa [List.mem_singleton.mp hother] at hk
  · exact ⟨stackInputs_packs h fun p hp => (List.not_mem_nil hp).elim, (stackInputs_keeps h).2⟩

theorem assembled {b : StackingBatcher} {items : List WorkItem} {batch : AssembledBatch}
    (h : b.assemble items = .ok batch) : Assembled b items batch := by
  unfold StackingBatcher.assemble at h
  split at h
  · cases h
  · rename_i hne
    split at h
    · cases h
    · split at h
      · cases h
      · rename_i inputs hpack
        split at h
        · cases h
        · cases h
          obtain ⟨hpacks, hkept⟩ := packInputs_packs hpack
          exact ⟨hne, rfl, rfl, hpacks, hkept⟩

section
variable {b : StackingBatcher} {items : List WorkItem} {batch : AssembledBatch}

theorem Assembled.size_eq (h : Assembled b items batch) : batch.size = batchRows items := by
  obtain ⟨start, hlast⟩ := last_spans 0 items h.nonempty
  rw [AssembledBatch.size, h.spans_eq, hlast, Nat.zero_add]

/-! ## Aligned requests keep provenance -/

theorem aligned_parts (ha : Aligned items) {name : String} {ts : List Tensor}
    (hts : List.Forall₂ (fun item x => item.request.inputs.get? name = some x) items ts) :
    List.Forall₂ (fun item x => x.batchSize = item.rows) items ts := by
  have hmem := (List.forall₂_and_left (p := (· ∈ items)) _ _).mpr ⟨fun _ h => h, hts⟩
  exact hmem.imp fun item x hx => ha item hx.1 _ (Dict.get?_eq_some_iff.mp hx.2)

theorem rows_of_parts : ∀ {items : List WorkItem} {ts : List Tensor},
    List.Forall₂ (fun item x => x.batchSize = item.rows) items ts →
      (ts.flatMap Tensor.rows).length = batchRows items
  | [], [], .nil => rfl
  | item :: items, x :: ts, .cons hx hts => by
    rw [List.flatMap_cons, List.length_append, x.length_rows, hx, rows_of_parts hts]
    rfl

theorem Assembled.batchSize_eq (h : Assembled b items batch) (ha : Aligned items) {p : String × Tensor}
    (hp : p ∈ batch.inputs.entries) : p.2.batchSize = batchRows items := by
  obtain ⟨ts, hts, hstack⟩ := h.packs p hp
  rw [← p.2.length_rows, stackTensors_rows hstack, rows_of_parts (aligned_parts ha hts)]

theorem Assembled.supplied (h : Assembled b items batch) (ha : Aligned items) {p : String × Tensor}
    (hp : p ∈ batch.inputs.entries) : List.Forall₂ (Supplied p) items (spans 0 items) := by
  obtain ⟨ts, hts, hstack⟩ := h.packs p hp
  have hparts : List.Forall₂ (fun x span => (p.2.rows.drop span.1).take (span.2 - span.1) = x.rows) ts
      (spans 0 items) :=
    parts_over_spans [] (aligned_parts ha hts) (stackTensors_rows hstack)
  have hspans := (List.forall₂_and_left (p := (· ∈ spans 0 items)) _ _).mpr ⟨fun _ h => h, hparts.flip⟩
  refine forall₂_trans ?_ hts hspans.flip
  rintro item x span hx ⟨hspan, hrows⟩
  have hend := (spans_within 0 items span hspan).2
  refine ⟨x, hx, ?_⟩
  rw [rowsOver, if_pos (by rw [h.batchSize_eq ha hp]; omega)]
  exact congrArg some hrows

/-- Row by row, an item's inputs are what the batch's inputs are over its span. -/
theorem rowAt_span {inputs : Dict String Tensor} {item : WorkItem} {span : Nat × Nat}
    (hs : ∀ p ∈ inputs.entries, Supplied p item span) (hk : ∀ name ∈ item.request.inputs.keys, name ∈ inputs.keys)
    (hw : span.2 = span.1 + item.rows) {j : Nat} (hj : j < item.rows) :
    rowAt inputs (span.1 + j) = rowAt item.request.inputs j := by
  funext name
  unfold rowAt
  cases hg : inputs.get? name with
  | none =>
    have hnone : item.request.inputs.get? name = none :=
      Dict.get?_eq_none_iff.mpr fun hname => Dict.get?_eq_none_iff.mp hg (hk name hname)
    rw [hnone]
    rfl
  | some t =>
    obtain ⟨x, hx, hover⟩ := hs (name, t) (Dict.get?_eq_some_iff.mp hg)
    unfold rowsOver at hover
    split at hover
    · have hrows : (t.rows.drop span.1).take (span.2 - span.1) = x.rows := Option.some.inj hover
      rw [hx, Option.bind_some, Option.bind_some, ← hrows, List.getElem?_take_of_lt (by omega), List.getElem?_drop]
    · cases hover

theorem computed_span {f : RowFunction} {inputs : Dict String Tensor} {item : WorkItem} {span : Nat × Nat} {n : Nat}
    (hs : ∀ p ∈ inputs.entries, Supplied p item span) (hk : ∀ name ∈ item.request.inputs.keys, name ∈ inputs.keys)
    (hw : span.2 = span.1 + item.rows) (hn : span.2 ≤ n) (name : String) :
    ((computed f inputs n name).drop span.1).take (span.2 - span.1) =
      computed f item.request.inputs item.rows name := by
  apply List.ext_getElem?
  intro j
  unfold computed
  by_cases hj : j < item.rows
  · rw [List.getElem?_take_of_lt (by omega), List.getElem?_drop, List.getElem?_map, List.getElem?_map,
      List.getElem?_range (by omega), List.getElem?_range hj]
    simp only [Option.map_some, rowAt_span hs hk hw hj]
  · rw [List.getElem?_eq_none (by simp; omega), List.getElem?_eq_none (by simp; omega)]

/-- The outputs cut to a span hold the rows computed from the item's own. -/
theorem sliceOutputs_answered {f : RowFunction} {specs : List TensorSpec} {inputs outputs : Dict String Tensor}
    {item : WorkItem} {span : Nat × Nat} {n : Nat} (hc : Computes f specs inputs n outputs)
    (hs : ∀ p ∈ inputs.entries, Supplied p item span) (hk : ∀ name ∈ item.request.inputs.keys, name ∈ inputs.keys)
    (hw : span.2 = span.1 + item.rows) (hn : span.2 ≤ n) :
    ∃ part, StackingBatcher.sliceOutputs outputs span = .ok part ∧ Answered f outputs item part := by
  have hslice : ∀ p ∈ outputs.entries, ∃ x, StackingBatcher.slicePart span p.2 = .ok x ∧
      x.rows = (p.2.rows.drop span.1).take (span.2 - span.1) := by
    intro p hp
    have hmajor := hc.batchMajor p hp
    have haxis : p.2.shape ≠ [] := by
      intro h
      rw [h] at hmajor
      cases hmajor
    have hsize : p.2.batchSize = n := by
      unfold Tensor.batchSize
      cases hshape : p.2.shape with
      | nil => exact absurd hshape haxis
      | cons m dims =>
        rw [hshape] at hmajor
        exact Option.some.inj hmajor
    obtain ⟨x, hx, hrows⟩ := sliceBatch_rows (hc.host p hp) haxis (by omega : span.1 ≤ span.2) (by omega)
    exact ⟨x, by rw [StackingBatcher.slicePart, hx], hrows⟩
  obtain ⟨part, hpart, hkeys, hentries⟩ :=
    Dict.mapValuesM_ok (R := fun (t x : Tensor) => x.rows = (t.rows.drop span.1).take (span.2 - span.1)) hslice
  refine ⟨part, hpart, hkeys, fun q hq => ?_⟩
  obtain ⟨t, ht, hrows⟩ := hentries q hq
  rw [hrows, hc.rows _ ht, computed_span hs hk hw hn]

theorem checkRows_ok {f : RowFunction} {specs : List TensorSpec} {inputs outputs : Dict String Tensor} {n : Nat}
    (hc : Computes f specs inputs n outputs) : outputs.entries.forM (StackingBatcher.checkRows n) = .ok () := by
  refine forM_ok_iff.mpr fun p hp => ?_
  have hmajor := hc.batchMajor p hp
  unfold StackingBatcher.checkRows
  split
  · rfl
  · rename_i m dims hshape
    rw [hshape] at hmajor
    rw [if_neg (not_not.mpr (Option.some.inj hmajor))]

/-- Scattering gives each item its own rows wherever the batch supplies them. -/
theorem Assembled.scattered (h : Assembled b items batch)
    (hs : ∀ p ∈ batch.inputs.entries, List.Forall₂ (Supplied p) items (spans 0 items))
    (hk : ∀ item ∈ items, ∀ name ∈ item.request.inputs.keys, name ∈ batch.inputs.keys) {f : RowFunction}
    {outputs : Dict String Tensor} (hc : Computes f b.outputSpecs batch.inputs batch.size outputs) :
    ∃ parts, b.scatter batch outputs = .ok parts ∧ List.Forall₂ (Answered f outputs) items parts := by
  have hspan : ∀ q ∈ items.zip (spans 0 items), (∀ p ∈ batch.inputs.entries, Supplied p q.1 q.2) ∧
      q.2.2 = q.2.1 + q.1.rows ∧ q.2.2 ≤ batch.size := by
    intro q hq
    refine ⟨fun p hp => List.forall₂_zip (hs p hp) hq, List.forall₂_zip (spans_width 0 items) hq, ?_⟩
    rw [h.size_eq]
    simpa using (spans_within 0 items q.2 (List.of_mem_zip hq).2).2
  unfold StackingBatcher.scatter AssembledBatch.requestCount
  rw [hc.valid, h.items_eq, h.spans_eq]
  dsimp only
  rw [checkRows_ok hc]
  dsimp only
  by_cases hone : items.length = 1
  · obtain ⟨item, rfl⟩ := List.length_eq_one_iff.mp hone
    obtain ⟨hsup, hw, -⟩ := hspan (item, (0, 0 + item.rows)) (List.mem_singleton.mpr rfl)
    have hsize : batch.size = item.rows := h.size_eq
    rw [if_pos hone]
    refine ⟨[outputs], rfl, .cons ⟨rfl, fun p hp => ?_⟩ .nil⟩
    have hcut := computed_span (f := f) (n := item.rows) hsup (hk item (List.mem_singleton.mpr rfl)) hw (by simp) p.1
    rw [hc.rows p hp, hsize, ← hcut]
    refine (List.take_of_length_le ?_).symm
    simp [computed]
  · rw [if_neg hone]
    apply mapM_ok
    refine List.forall₂_iff_zip.mpr ⟨(spans_width 0 items).length_eq, fun {item span} hq => ?_⟩
    obtain ⟨hsup, hw, hn⟩ := hspan (item, span) hq
    exact sliceOutputs_answered hc hsup (hk item (List.of_mem_zip hq).1) hw hn

/-- Where the batch supplies every item's rows, each input of an item fills its span. -/
theorem aligned_of_packed
    (hs : ∀ p ∈ batch.inputs.entries, List.Forall₂ (Supplied p) items (spans 0 items))
    (hk : ∀ item ∈ items, ∀ name ∈ item.request.inputs.keys, name ∈ batch.inputs.keys) : Aligned items := by
  intro item hitem p hp
  obtain ⟨t, ht⟩ := Dict.exists_of_mem_keys (hk item hitem p.1 (Dict.mem_keys_of_mem hp))
  have hboth := List.Forall₂.mp (fun _ _ hsup hw => And.intro hsup hw) (hs _ ht) (spans_width 0 items)
  obtain ⟨span, -, ⟨x, hx, hover⟩, hw⟩ := exists_of_mem_forall₂ hboth.flip hitem
  have hxp : x = p.2 := Dict.entry_unique (Dict.get?_eq_some_iff.mp hx) hp
  unfold rowsOver at hover
  split at hover
  · have hend : span.2 ≤ t.batchSize := ‹_›
    have hrows := congrArg List.length (Option.some.inj hover)
    rw [List.length_take, List.length_drop, t.length_rows, x.length_rows, hxp] at hrows
    omega
  · cases hover

end

theorem queued_kept {m : Model} {items : List WorkItem} {batch : AssembledBatch} (hq : ∀ item ∈ items, m.Queued item)
    (h : Assembled m.batcher items batch) :
    ∀ item ∈ items, ∀ name ∈ item.request.inputs.keys, name ∈ batch.inputs.keys :=
  fun item hitem name hname => h.kept item hitem name (declared_of_valid (hq item hitem).valid name hname) hname

/-- **Provenance.** A batch of items that a model let in and queued keeps
provenance exactly when they are aligned. -/
theorem assemble_provenance (m : Model) (items : List WorkItem) (batch : AssembledBatch)
    (hq : ∀ item ∈ items, m.Queued item) (h : m.batcher.assemble items = .ok batch) :
    Provenance m.batcher batch ↔ Aligned items := by
  have ha := assembled h
  have hk := queued_kept hq ha
  constructor
  · rintro ⟨hpacked, -, -⟩
    rw [ha.items_eq, ha.spans_eq] at hpacked
    exact aligned_of_packed hpacked hk
  · intro haligned
    have hs := fun p hp => ha.supplied haligned (p := p) hp
    refine ⟨?_, ?_, ?_⟩
    · rw [ha.items_eq, ha.spans_eq]
      exact hs
    · rw [ha.items_eq]
      exact hk
    · intro f execute hrow outputs hrun
      have hn : ∀ p ∈ batch.inputs.entries, p.2.batchSize = batch.size := by
        intro p hp
        rw [ha.batchSize_eq haligned hp, ha.size_eq]
      rw [ha.items_eq]
      exact ha.scattered hs hk (hrow _ _ _ hn hrun)

/-! ## Two inputs -/

def column (bytes : List UInt8) : Tensor where
  dtype := .uint8
  shape := [bytes.length, 1]
  data := bytes
  sized := by simp [elementCount, DataType.itemsize]

def byteSpec (name : String) (h : name ≠ "") : TensorSpec where
  name := name
  dtype := .uint8
  shape := [1]
  named := h
  extents := by simp

def fusion : Model where
  name := "fusion"
  version := 1
  started := true
  inputSpecs := [byteSpec "left" (by decide), byteSpec "right" (by decide)]
  outputSpecs := [byteSpec "sum" (by decide)]
  maxBatchSize := 8
  cached := fun _ => none

def pairRequest (requestId : Int) (left right : List UInt8) : InferenceRequest where
  modelName := "fusion"
  inputs := (Dict.empty.set "left" (column left)).set "right" (column right)
  requestId := requestId

/-- The item of a pair that was let in at time 7. -/
def pairItem (requestId : Int) (left right : List UInt8) : WorkItem :=
  WorkItem.stamped { request := Model.received (pairRequest requestId left right) 7, enqueuedNs := 7 }

theorem pairItem_queued {requestId : Int} {left right : List UInt8} : fusion.Queued (pairItem requestId left right) :=
  ⟨pairRequest requestId left right, 7, ⟨_, none⟩, rfl, rfl, rfl⟩

def aligned : List WorkItem := [pairItem 1 [1, 2] [11, 12], pairItem 2 [3] [13]]

theorem aligned_provenance :
    ∃ batch, fusion.batcher.assemble aligned = .ok batch ∧ Provenance fusion.batcher batch := by
  have hq : ∀ item ∈ aligned, fusion.Queued item := by
    intro item hitem
    rcases List.mem_pair.mp hitem with rfl | rfl <;> exact pairItem_queued
  refine ⟨_, rfl, (assemble_provenance fusion aligned _ hq rfl).mpr ?_⟩
  intro item hitem p hp
  rcases List.mem_pair.mp hitem with rfl | rfl <;> rcases List.mem_pair.mp hp with rfl | rfl <;> rfl

/-- Two rows on the left and one on the right, and the other way round. -/
def crossed : List WorkItem := [pairItem 1 [1, 2] [11], pairItem 2 [3] [12, 13]]

/-- The first request is handed a row the second one supplied. -/
theorem crossed_mixes_rows :
    (∀ item ∈ crossed, fusion.Queued item) ∧
      ∃ batch right, fusion.batcher.assemble crossed = .ok batch ∧ batch.spans = [(0, 2), (2, 3)] ∧
        batch.inputs.get? "right" = some right ∧
        rowsOver right (0, 2) = some [⟨.uint8, [1], [11]⟩, ⟨.uint8, [1], [12]⟩] ∧
        ¬ Provenance fusion.batcher batch := by
  have hq : ∀ item ∈ crossed, fusion.Queued item := by
    intro item hitem
    rcases List.mem_pair.mp hitem with rfl | rfl <;> exact pairItem_queued
  refine ⟨hq, _, column [11, 12, 13], rfl, rfl, rfl, rfl, fun h => ?_⟩
  have hright := h.packed ("right", column [11, 12, 13]) (by decide)
  obtain ⟨x, hx, hover⟩ := (List.forall₂_cons.mp hright).1
  have hx' : some (column [11]) = some x := hx
  cases hx'
  exact absurd hover (by decide)

end ShipInfer.Batching
