import ShipInfer.Lib.Pieces
import ShipInfer.Perception.Containment

/-!
# Whose row is whose, in an object stage

The rows of a frame's objects go to the model in requests no larger than it takes,
and its answers are put together again. Only their number in all is looked at.
-/

namespace ShipInfer.Perception.Stages

variable {Row Box Image : Type}

/-- The rows of an array; a scalar has none. -/
def Values.toList : Values Row → List Row
  | .scalar _ => []
  | .rows _ data => data

theorem Values.length_toList (v : Values Row) : v.toList.length = v.count := by cases v <;> rfl

/-- Arrays of one row shape, and their rows. -/
theorem Values.concatenate_ok : ∀ {pieces : List (Values Row)} {v : Values Row}, Values.concatenate pieces = .ok v →
    v.toList = (pieces.map Values.toList).flatten
  | [], _, h => by cases h
  | [.rows shape data], _, h => by cases h; simp [toList]
  | .rows shape data :: piece :: pieces, v, h => by
    rw [Values.concatenate] at h
    · obtain ⟨rest, hrest, h⟩ := bind_ok.mp h
      have ih := Values.concatenate_ok hrest
      cases rest with
      | scalar value => cases h
      | rows shape' data' =>
        dsimp only at h
        split at h
        · cases h
          rw [List.map_cons, List.flatten_cons, ← ih]
          rfl
        · cases h
    · simp
  | .scalar value :: pieces, _, h => by cases pieces <;> cases h

theorem joined_ok {pieces : List (Values Row)} {v : Values Row} (h : joined pieces = .ok v) :
    v.toList = (pieces.map Values.toList).flatten := by
  unfold joined at h
  split at h
  · cases h; simp
  · exact Values.concatenate_ok h

theorem chunkRanges_endToEnd (count : Nat) (limit : Option Nat) : EndToEnd 0 (chunkRanges count limit) count := by
  unfold chunkRanges
  by_cases hc : count = 0
  · rw [if_pos hc, hc]
    exact ⟨rfl, Nat.le_refl _, rfl⟩
  · rw [if_neg hc]
    cases limit with
    | none => exact ⟨rfl, Nat.zero_le _, rfl⟩
    | some limit =>
      dsimp only
      by_cases hl : limit = 0 ∨ count ≤ limit
      · rw [if_pos hl]
        exact ⟨rfl, Nat.zero_le _, rfl⟩
      · rw [if_neg hl]
        exact slices_endToEnd (by omega)

theorem chunkRanges_lt {count : Nat} {limit : Option Nat} (hc : count ≠ 0) : ∀ r ∈ chunkRanges count limit, r.1 < r.2 := by
  unfold chunkRanges
  rw [if_neg hc]
  cases limit with
  | none => simp; omega
  | some limit =>
    dsimp only
    by_cases hl : limit = 0 ∨ count ≤ limit
    · rw [if_pos hl]; simp; omega
    · rw [if_neg hl]
      exact slices_lt (by omega)

namespace ObjectStage

/-- The requests of a stage over a batch. -/
def ranges (st : ObjectStage Row) (w : World Row Box Image) (b : ObjectBatch Row Box) : List (Nat × Nat) :=
  chunkRanges b.count (w.rowLimit st.model)

/-- What each request was answered with, for the output at a place. -/
def pieces (collected : List (List (Values Row))) (place : Nat) : List (Values Row) := collected.filterMap (·[place]?)

/-- The output at a place is the last stored under the name. -/
def Stored (st : ObjectStage Row) (name : String) (place : Nat) : Prop :=
  (name, place) ∈ st.outputs.values.zipIdx ∧ ∀ place', (name, place') ∈ st.outputs.values.zipIdx → place' ≤ place

/-- Under each of the stage's names the frame has, for each object of the source
batch, the row its own request was answered with for it. -/
def Attributed (st : ObjectStage Row) (w : World Row Box Image) (s t : State Row Box Image) : Prop :=
  ∀ b collected, s.batch st.source = .ok b → st.collect w b = .ok collected → ∀ name place, st.Stored name place →
    ∃ batch, t.batches.get? name = some batch ∧ batch.objectIndices = b.objectIndices ∧
      ∀ row < b.count, ∃ v, own (st.ranges w b) ((pieces collected place).map Values.toList) row = some v ∧
        batch.data.toList[row]? = some v

/-- Where the answers join to a row for each object, each request was answered with
the rows it asked for. -/
def Answered (st : ObjectStage Row) (w : World Row Box Image) (s : State Row Box Image) : Prop :=
  ∀ b collected, s.batch st.source = .ok b → st.collect w b = .ok collected →
    (∀ p ∈ st.outputs.values.zipIdx, ∃ data, joined (pieces collected p.2) = .ok data ∧ data.count = b.count) →
    ∀ name place, st.Stored name place → Fitting (st.ranges w b) ((pieces collected place).map Values.toList)

/-- The rows of an output can be told apart. -/
def Distinct (st : ObjectStage Row) (w : World Row Box Image) (s : State Row Box Image) : Prop :=
  ∀ b collected, s.batch st.source = .ok b → st.collect w b = .ok collected → ∀ name place, st.Stored name place →
    ((pieces collected place).map Values.toList).flatten.Nodup

theorem produce_ok {b batch : ObjectBatch Row Box} {name : String} {pieces : List (Values Row)}
    (h : produce b name pieces = .ok batch) :
    ∃ data, joined pieces = .ok data ∧ data.count = b.count ∧ batch.name = name ∧ batch.objectIndices = b.objectIndices ∧
      batch.data = data := by
  obtain ⟨data, hj, hc⟩ := bind_ok.mp h
  obtain ⟨hname, hindices, hdata⟩ := ObjectBatch.create_ok hc
  refine ⟨data, hj, ?_, hname, hindices, hdata⟩
  rw [← hdata, batch.aligned, hindices]
  rfl

theorem produce_of_joined {b : ObjectBatch Row Box} {pieces : List (Values Row)} {data : Values Row}
    (hj : joined pieces = .ok data) (hc : data.count = b.count) (name : String) : ∃ batch, produce b name pieces = .ok batch := by
  refine ⟨⟨name, b.className, b.objectIndices, data, [], hc⟩, bind_ok.mpr ⟨data, hj, ?_⟩⟩
  have hcount : data.count = b.objectIndices.length := hc
  rw [ObjectBatch.create, dif_pos hcount]

/-- A name no output is stored under keeps what it had. -/
theorem attachAll_other {b : ObjectBatch Row Box} {collected : List (List (Values Row))} {name : String} :
    ∀ {outputs : List (String × Nat)} {s : State Row Box Image}, (∀ p ∈ outputs, p.1 ≠ name) →
      (attachAll b collected outputs s).1.batches.get? name = s.batches.get? name
  | [], _, _ => rfl
  | (batchName, place) :: rest, s, h => by
    rw [attachAll]
    cases hb : produce b batchName (pieces collected place) with
    | error e =>
      rw [pieces] at hb
      rw [hb]
    | ok batch =>
      rw [pieces] at hb
      rw [hb]
      dsimp only
      rw [attachAll_other fun p hp => h p (List.mem_cons_of_mem _ hp)]
      obtain ⟨-, -, -, hname, -, -⟩ := produce_ok hb
      have hne : name ≠ batch.name := fun he => h _ List.mem_cons_self (hname.symm.trans he.symm)
      exact Dict.get?_set_ne hne

/-- What a stage that ran has stored under a name. -/
theorem attachAll_get? {b : ObjectBatch Row Box} {collected : List (List (Values Row))} {name : String} {place rows : Nat} :
    ∀ {outputs : List (String × Nat)} {s : State Row Box Image}, outputs.Pairwise (fun p q => p.2 < q.2) →
      (name, place) ∈ outputs → (∀ place', (name, place') ∈ outputs → place' ≤ place) →
      (attachAll b collected outputs s).2 = .ok rows →
      ∃ batch, produce b name (pieces collected place) = .ok batch ∧
        (attachAll b collected outputs s).1.batches.get? name = some batch
  | (batchName, first) :: rest, s, hsorted, hmem, hlast, h => by
    obtain ⟨hfirst, hrest⟩ := List.pairwise_cons.mp hsorted
    rw [attachAll] at h ⊢
    cases hb : produce b batchName (collected.filterMap (·[first]?)) with
    | error e => rw [hb] at h; cases h
    | ok batch =>
      rw [hb] at h
      dsimp only at h ⊢
      by_cases hin : (name, place) ∈ rest
      · exact attachAll_get? hrest hin (fun place' hp => hlast place' (List.mem_cons_of_mem _ hp)) h
      · -- no later output has the name: its place would be greater
        obtain ⟨rfl, rfl⟩ : name = batchName ∧ place = first := by
          rcases List.mem_cons.mp hmem with he | hr
          · exact Prod.mk.inj he
          · exact absurd hr hin
        obtain ⟨-, -, -, hname, -, -⟩ := produce_ok hb
        refine ⟨batch, hb, ?_⟩
        rw [attachAll_other]
        · rw [← hname]
          exact Dict.get?_set_self _ _ _
        · intro p hp he
          have hle := hlast p.2 (List.mem_cons_of_mem _ (by rw [← he]; exact hp))
          have hlt := hfirst p hp
          dsimp only at hlt
          omega

/-- Each request is answered with an array for each output. -/
theorem collect_ok {st : ObjectStage Row} {w : World Row Box Image} {b : ObjectBatch Row Box}
    {collected : List (List (Values Row))} (h : st.collect w b = .ok collected) :
    collected.length = (st.ranges w b).length ∧ ∀ arrays ∈ collected, arrays.length = st.outputs.keys.length := by
  have hall := forall₂_of_mapM_ok h
  refine ⟨?_, fun arrays harrays => ?_⟩
  · rw [← hall.length_eq, List.length_zipIdx]
    rfl
  · obtain ⟨p, -, hask⟩ := exists_of_mem_forall₂ hall harrays
    obtain ⟨rows, -, hask⟩ := bind_ok.mp hask
    obtain ⟨outputs, -, hask⟩ := bind_ok.mp hask
    obtain ⟨quantities, -, hask⟩ := bind_ok.mp hask
    exact (forall₂_of_mapM_ok hask).length_eq.symm

theorem length_pieces {collected : List (List (Values Row))} {place n : Nat} (hn : place < n) :
    (∀ arrays ∈ collected, arrays.length = n) → (pieces collected place).length = collected.length := by
  intro h
  induction collected with
  | nil => rfl
  | cons arrays collected ih =>
    have harrays : arrays.length = n := h arrays List.mem_cons_self
    have hlt : place < arrays.length := harrays ▸ hn
    have hrest := ih fun a ha => h a (List.mem_cons_of_mem _ ha)
    rw [pieces] at hrest ⊢
    rw [List.filterMap_cons, List.getElem?_eq_getElem hlt]
    simp only [List.length_cons, hrest]

theorem Stored.lt {st : ObjectStage Row} {name : String} {place : Nat} (h : st.Stored name place) :
    place < st.outputs.keys.length := by
  obtain ⟨hlt, -⟩ := List.mk_mem_zipIdx_iff_getElem?.mp h.1 |> List.getElem?_eq_some_iff.mp
  simpa [Dict.values, Dict.keys] using hlt

theorem sorted_zipIdx {α : Type} (l : List α) : l.zipIdx.Pairwise fun p q => p.2 < q.2 := by
  rw [← List.pairwise_map (f := Prod.snd), List.zipIdx_map_snd]
  exact List.pairwise_lt_range'

/-- The run of a stage over a batch it could ask the model about. -/
theorem doRun_collected {st : ObjectStage Row} {w : World Row Box Image} {s : State Row Box Image} {b : ObjectBatch Row Box}
    {collected : List (List (Values Row))} (hb : s.batch st.source = .ok b) (hc : st.collect w b = .ok collected) :
    st.doRun w s = attachAll b collected st.outputs.values.zipIdx s := by
  unfold doRun
  rw [hb]
  dsimp only
  rw [hc]

/-- A stage refuses a batch only if an output does not join to its rows. -/
theorem refused_iff {b : ObjectBatch Row Box} {collected : List (List (Values Row))} {outputs : List (String × Nat)}
    {s : State Row Box Image} : (∃ e, (attachAll b collected outputs s).2 = .error e) ↔
      ¬ ∀ p ∈ outputs, ∃ data, joined (pieces collected p.2) = .ok data ∧ data.count = b.count := by
  rw [(attachAll_spec b collected outputs s).2]
  constructor
  · intro h hall
    obtain ⟨e, he⟩ := h
    obtain ⟨p, hp, hproduce⟩ := List.mem_map.mp he
    obtain ⟨data, hj, hcount⟩ := hall p hp
    obtain ⟨batch, hbatch⟩ := produce_of_joined hj hcount p.1
    rw [pieces] at hbatch
    rw [hbatch] at hproduce
    cases hproduce
  · intro h
    by_contra hnone
    refine h fun p hp => ?_
    cases hb : produce b p.1 (pieces collected p.2) with
    | error e => exact absurd ⟨e, List.mem_map.mpr ⟨p, hp, hb⟩⟩ hnone
    | ok batch =>
      obtain ⟨data, hj, hcount, -⟩ := produce_ok hb
      exact ⟨data, hj, hcount⟩

/-- Where answers that join fit their requests, a stage refuses or attributes. -/
theorem attributed_of_answered {st : ObjectStage Row} {w : World Row Box Image} {s : State Row Box Image}
    (h : st.Answered w s) {rows : Nat} (hrun : (st.doRun w s).2 = .ok rows) : st.Attributed w s (st.doRun w s).1 := by
  intro b collected hb hc name place hst
  rw [doRun_collected hb hc] at hrun ⊢
  have hjoin : ∀ p ∈ st.outputs.values.zipIdx, ∃ data, joined (pieces collected p.2) = .ok data ∧ data.count = b.count := by
    by_contra hnot
    obtain ⟨e, he⟩ := refused_iff.mpr hnot
    rw [he] at hrun
    cases hrun
  obtain ⟨batch, hproduce, hget⟩ := attachAll_get? (sorted_zipIdx _) hst.1 hst.2 hrun
  obtain ⟨data, hj, hcount, -, hindices, hdata⟩ := produce_ok hproduce
  have hends : EndToEnd 0 (st.ranges w b) b.count := chunkRanges_endToEnd b.count (w.rowLimit st.model)
  have hfit := h b collected hb hc hjoin name place hst
  refine ⟨batch, hget, hindices, fun row hrow => ?_⟩
  have hlen : data.toList.length = b.count := (Values.length_toList data).trans hcount
  refine ⟨data.toList[row], ?_, ?_⟩
  · rw [own_eq_flatten hends hfit (Nat.zero_le row), ← joined_ok hj]
    exact List.getElem?_eq_getElem (by omega)
  · rw [hdata]
    exact List.getElem?_eq_getElem (by omega)

/-- And where rows can be told apart, only there. -/
theorem answered_of_attributed {st : ObjectStage Row} {w : World Row Box Image} {s : State Row Box Image}
    (hdistinct : st.Distinct w s)
    (h : (∃ e, (st.doRun w s).2 = .error e) ∨ st.Attributed w s (st.doRun w s).1) : st.Answered w s := by
  intro b collected hb hc hjoin name place hst
  rw [doRun_collected hb hc, refused_iff] at h
  have hattr := h.resolve_left (not_not_intro hjoin)
  obtain ⟨batch, hget, hindices, hrows⟩ := hattr b collected hb hc name place hst
  obtain ⟨rows, hok⟩ : ∃ rows, (attachAll b collected st.outputs.values.zipIdx s).2 = .ok rows := by
    cases hr : (attachAll b collected st.outputs.values.zipIdx s).2 with
    | ok rows => exact ⟨rows, rfl⟩
    | error e => exact absurd hjoin (refused_iff.mp ⟨e, hr⟩)
  obtain ⟨batch', hproduce, hget'⟩ := attachAll_get? (sorted_zipIdx _) hst.1 hst.2 hok
  rw [hget] at hget'
  cases hget'
  obtain ⟨data, hj, hcount, -, -, hdata⟩ := produce_ok hproduce
  obtain ⟨hlength, harrays⟩ := collect_ok hc
  have hpieces := length_pieces hst.lt harrays
  have htotal : ((pieces collected place).map Values.toList).flatten.length = b.count := by
    rw [← joined_ok hj, Values.length_toList, hcount]
  by_cases hcount : b.count = 0
  · -- one request for no rows, and an answer of none
    unfold ranges chunkRanges at hlength ⊢
    rw [if_pos hcount] at hlength ⊢
    rw [hlength] at hpieces
    obtain ⟨piece, hpiece⟩ := List.length_eq_one_iff.mp hpieces
    rw [hpiece, hcount] at htotal
    rw [hpiece]
    refine .cons ?_ .nil
    simpa using htotal
  · refine fitting_of_own (chunkRanges_endToEnd b.count _) (chunkRanges_lt hcount) ?_
      (hdistinct b collected hb hc name place hst) htotal fun row _ hrow => ?_
    · rw [List.length_map, hpieces, hlength]
    · obtain ⟨v, hown, hat⟩ := hrows row hrow
      rw [← joined_ok hj, Nat.sub_zero, ← hdata, hat]
      exact hown

end ObjectStage

end ShipInfer.Perception.Stages
