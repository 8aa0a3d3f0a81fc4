import ShipInfer.Elements.Crop
import ShipInfer.Perception.Provenance

/-!
# Whose row is whose, in a crop element

The crops of a frame go to the model in requests no larger than it takes, and its
answers are put together again and scattered back by place. As in an object stage of
the graph, only their number in all is looked at.
-/

namespace ShipInfer.Elements

open Runners (ChainItem MetaValue)
open Perception.Stages (Values StageError joined)

namespace CropElement

variable {Image Crop Row Box ν ρ : Type}

/-! ## What is filed -/

/-- The mapping of detection rows under the element's key. -/
def filed (e : CropElement) (item : Item Image ρ Box ν) : Option (Dict Nat ρ) :=
  match item.metadata.get? e.metaKey with
  | some (.rowIndexed rows) => some rows
  | some (.other (.mapping rows)) => some rows
  | _ => none

/-- The element's key can take these rows: nothing is filed there, or a mapping
without them. -/
def Free (e : CropElement) (item : Item Image ρ Box ν) (rows : List Nat) : Prop :=
  item.metadata.get? e.metaKey = none ∨ ∃ existing, e.filed item = some existing ∧ ∀ row ∈ rows, row ∉ existing.keys

theorem requests_endToEnd (total : Nat) {limit : Nat} (hl : 0 < limit) : EndToEnd 0 (requests total limit) total := by
  unfold requests
  by_cases h : total ≤ limit
  · rw [if_pos h]
    exact ⟨rfl, Nat.zero_le _, rfl⟩
  · rw [if_neg h]
    exact slices_endToEnd hl

theorem requests_lt {total limit : Nat} (hl : 0 < limit) (ht : 0 < total) : ∀ r ∈ requests total limit, r.1 < r.2 := by
  unfold requests
  by_cases h : total ≤ limit
  · rw [if_pos h]
    simpa using ht
  · rw [if_neg h]
    exact slices_lt hl

/-- What is filed under a row, once these rows are in. -/
theorem get?_update_new {d : Dict Nat ρ} {l : List (Nat × ρ)} (hn : (l.map Prod.fst).Nodup) (hd : ∀ row ∈ l.map Prod.fst, row ∉ d.keys)
    {row : Nat} {v : ρ} (h : (row, v) ∈ l) : (d.update l).get? row = some v := by
  have hnodup : (d.keys ++ l.map Prod.fst).Nodup := by
    refine List.nodup_append.mpr ⟨d.keys_nodup, hn, fun a ha b hb hab => hd b hb (hab ▸ ha)⟩
  rw [Dict.get?_eq_some_iff, Dict.update_entries_of_new hnodup]
  exact List.mem_append_right _ h

/-- A scatter-back goes through exactly where the key is free for its rows, and then
files each of them. -/
theorem scatter_ok {e : CropElement} {item : Item Image ρ Box ν} {covered : Dict Nat ρ} (hfree : e.Free item covered.keys) :
    ∃ item', e.scatter item covered = .ok item' ∧ (∀ row v, (row, v) ∈ covered.entries → ∃ rows, e.filed item' = some rows ∧ rows.get? row = some v) := by
  have hcovered : ∀ {existing : Dict Nat ρ}, (∀ row ∈ covered.keys, row ∉ existing.keys) →
      covered.keys.find? existing.contains = none := by
    intro existing hnew
    refine List.find?_eq_none.mpr fun row hrow hc => hnew row hrow ?_
    exact Dict.contains_iff.mp hc
  unfold scatter
  dsimp only
  cases hget : item.metadata.get? e.metaKey with
  | none =>
    refine ⟨_, rfl, fun row v hv => ⟨covered, ?_, Dict.get?_eq_some_iff.mpr hv⟩⟩
    rw [filed, Dict.get?_set_self]
  | some value =>
    obtain ⟨existing, hfiled, hnew⟩ := hfree.resolve_left (by rw [hget]; simp)
    rw [filed, hget] at hfiled
    have hput : ∀ {row : Nat} {v : ρ}, (row, v) ∈ covered.entries → (existing.update covered.entries).get? row = some v :=
      fun hv => get?_update_new covered.keys_nodup hnew hv
    by_cases hempty : covered.entries = []
    · cases value with
      | rowIndexed rows => exact ⟨item, by dsimp only; rw [if_pos hempty], by rw [hempty]; simp⟩
      | other v =>
        cases v with
        | mapping rows => exact ⟨item, by dsimp only; rw [if_pos hempty], by rw [hempty]; simp⟩
        | detections d => cases hfiled
        | extent hw => cases hfiled
        | value v => cases hfiled
    · cases value with
      | rowIndexed rows =>
        cases hfiled
        refine ⟨_, by dsimp only; rw [if_neg hempty, hcovered hnew], fun row v hv => ⟨_, ?_, hput hv⟩⟩
        rw [filed, Dict.get?_set_self]
      | other v =>
        cases v with
        | mapping rows =>
          cases hfiled
          refine ⟨_, by dsimp only; rw [if_neg hempty, hcovered hnew], fun row v hv => ⟨_, ?_, hput hv⟩⟩
          rw [filed, Dict.get?_set_self]
        | detections d => cases hfiled
        | extent hw => cases hfiled
        | value v => cases hfiled

theorem free_of_scatter {e : CropElement} {item item' : Item Image ρ Box ν} {covered : Dict Nat ρ}
    (h : e.scatter item covered = .ok item') : e.Free item covered.keys := by
  have hnone : ∀ {existing : Dict Nat ρ}, covered.keys.find? existing.contains = none →
      ∀ row ∈ covered.keys, row ∉ existing.keys := by
    intro existing hfind row hrow hmem
    exact List.find?_eq_none.mp hfind row hrow (Dict.contains_iff.mpr hmem)
  have hempty : covered.entries = [] → ∀ {existing : Dict Nat ρ}, ∀ row ∈ covered.keys, row ∉ existing.keys := by
    intro hnil existing row hrow
    rw [Dict.keys, hnil] at hrow
    cases hrow
  unfold scatter at h
  dsimp only at h
  cases hget : item.metadata.get? e.metaKey with
  | none => exact .inl hget
  | some value =>
    rw [hget] at h
    right
    cases value with
    | rowIndexed rows =>
      dsimp only at h
      refine ⟨rows, by rw [filed, hget], ?_⟩
      by_cases hnil : covered.entries = []
      · exact hempty hnil
      · rw [if_neg hnil] at h
        cases hfind : covered.keys.find? rows.contains with
        | none => exact hnone hfind
        | some row => rw [hfind] at h; cases h
    | other v =>
      cases v with
      | mapping rows =>
        dsimp only at h
        refine ⟨rows, by rw [filed, hget], ?_⟩
        by_cases hnil : covered.entries = []
        · exact hempty hnil
        · rw [if_neg hnil] at h
          cases hfind : covered.keys.find? rows.contains with
          | none => exact hnone hfind
          | some row => rw [hfind] at h; cases h
      | detections d => cases h
      | extent hw => cases h
      | value v => cases h

/-! ## The frame's rows -/

theorem nodup_snd_filter_zipIdx {α : Type} (l : List α) (p : α × Nat → Bool) : ((l.zipIdx.filter p).map Prod.snd).Nodup := by
  apply List.Nodup.sublist (List.filter_sublist.map Prod.snd)
  rw [List.zipIdx_map_snd]
  exact List.nodup_range'

theorem selected_nodup (e : CropElement) (d : Detections Box) : (e.selected d).Nodup := by
  unfold selected
  cases e.classes with
  | none => exact List.nodup_range
  | some classes => exact nodup_snd_filter_zipIdx _ _

theorem selected_lt {e : CropElement} {d : Detections Box} {row : Nat} (h : row ∈ e.selected d) : row < d.boxes.length := by
  rw [d.parallel]
  unfold selected at h
  cases hc : e.classes with
  | none =>
    rw [hc] at h
    exact List.mem_range.mp h
  | some classes =>
    rw [hc] at h
    obtain ⟨p, hp, rfl⟩ := List.mem_map.mp h
    have hmem := List.mem_zipIdx_iff_getElem?.mp (List.mem_filter.mp hp).1
    exact (List.getElem?_eq_some_iff.mp hmem).1

theorem length_filterMap_getElem? {α : Type} {l : List α} : ∀ {rows : List Nat}, (∀ row ∈ rows, row < l.length) →
    (rows.filterMap (l[·]?)).length = rows.length
  | [], _ => rfl
  | row :: rows, h => by
    have hlt := h row List.mem_cons_self
    have hrest := length_filterMap_getElem? (l := l) fun r hr => h r (List.mem_cons_of_mem _ hr)
    simp [List.getElem?_eq_getElem hlt, hrest]

theorem prepare_ok {e : CropElement} {w : CropWorld Image Crop Row Box} {item : Item Image ρ Box ν} {crops : List Crop}
    {rows : List Nat} (h : e.prepare w item = .ok (crops, rows)) : rows.Nodup ∧ crops.length = rows.length := by
  unfold prepare at h
  cases hget : item.metadata.get? "detections" with
  | none => rw [hget] at h; cases h
  | some value =>
    rw [hget] at h
    cases value with
    | rowIndexed r => cases h
    | other v =>
      cases v with
      | mapping r => cases h
      | extent hw => cases h
      | value v => cases h
      | detections d =>
        dsimp only at h
        by_cases hnil : e.selected d = []
        · rw [if_pos hnil] at h
          cases h
          exact ⟨List.nodup_nil, rfl⟩
        · rw [if_neg hnil] at h
          obtain ⟨frame, -, h⟩ := bind_ok.mp h
          obtain ⟨-, -, h⟩ := bind_ok.mp h
          obtain ⟨cut, -, h⟩ := bind_ok.mp h
          cases h
          refine ⟨selected_nodup e d, ?_⟩
          rw [List.length_map, length_filterMap_getElem? fun row hrow => selected_lt hrow]

theorem answers_length {e : CropElement} {w : CropWorld Image Crop Row Box} {crops : List Crop} {pieces : List (Values Row)}
    (h : e.answers w crops = .ok pieces) : pieces.length = (requests crops.length e.maxRows).length := by
  obtain ⟨chunks, hchunks, hpieces⟩ := bind_ok.mp h
  rw [← (forall₂_of_mapM_ok hpieces).length_eq, ← (forall₂_of_mapM_ok hchunks).length_eq, List.length_zipIdx]

theorem submitCrops_ok {e : CropElement} {w : CropWorld Image Crop Row Box} {crops : List Crop} {v : Values Row} :
    e.submitCrops w crops = .ok v ↔ ∃ pieces, e.answers w crops = .ok pieces ∧ joined pieces = .ok v := by
  unfold submitCrops
  rw [bind_ok]
  refine exists_congr fun pieces => and_congr_right fun _ => ?_
  rcases pieces with _ | ⟨piece, _ | ⟨piece', pieces⟩⟩
  · exact iff_of_false (fun h => by cases h) (fun h => by cases h)
  · exact ⟨fun h => by cases h; rfl, fun h => by cases h; rfl⟩
  · show concatenate _ = _ ↔ Values.concatenate _ = _
    unfold concatenate
    cases Values.concatenate (piece :: piece' :: pieces) with
    | error err => exact iff_of_false (fun h => by cases h) (fun h => by cases h)
    | ok v' => exact ⟨fun h => by cases h; rfl, fun h => by cases h; rfl⟩

/-! ## Attribution -/

/-- The answers join to one row a crop, and a row is an array. -/
def Joins (pieces : List (Values Row)) (data : List Row) (n : Nat) : Prop :=
  (∃ dim shape, joined pieces = .ok (.rows (dim :: shape) data)) ∧ data.length = n

/-- Each selected detection has the row its own request was answered with for its crop. -/
def Attributed (e : CropElement) (w : CropWorld Image Crop Row Box) (item item' : Item Image Row Box ν) : Prop :=
  ∀ crops rows pieces, e.prepare w item = .ok (crops, rows) → e.answers w crops = .ok pieces → ∀ place row,
    rows[place]? = some row → ∃ vectors v, e.filed item' = some vectors ∧
      own (requests crops.length e.maxRows) (pieces.map Values.toList) place = some v ∧ vectors.get? row = some v

/-- Where the answers join to one row a crop, and these can be filed, each request was
answered with the rows it asked for. -/
def Answered (e : CropElement) (w : CropWorld Image Crop Row Box) (item : Item Image Row Box ν) : Prop :=
  ∀ crops rows pieces data, e.prepare w item = .ok (crops, rows) → rows ≠ [] → e.answers w crops = .ok pieces →
    Joins pieces data rows.length → e.Free item rows →
    Fitting (requests crops.length e.maxRows) (pieces.map Values.toList)

/-- The answered rows can be told apart. -/
def Distinct (e : CropElement) (w : CropWorld Image Crop Row Box) (item : Item Image Row Box ν) : Prop :=
  ∀ crops rows pieces, e.prepare w item = .ok (crops, rows) → e.answers w crops = .ok pieces →
    (pieces.map Values.toList).flatten.Nodup

theorem covered_entries {rows : List Nat} {data : List ρ} (hn : rows.Nodup) (hlen : data.length = rows.length) :
    (Dict.empty.update (rows.zip data)).entries = rows.zip data ∧ (Dict.empty.update (rows.zip data)).keys = rows := by
  have hkeys : (rows.zip data).map Prod.fst = rows := List.map_fst_zip (by omega)
  have hentries : (Dict.empty.update (rows.zip data)).entries = rows.zip data := by
    rw [Dict.update_entries_of_new (by rw [hkeys]; simpa using hn), Dict.entries_empty, List.nil_append]
  refine ⟨hentries, ?_⟩
  rw [Dict.keys, hentries, hkeys]

/-- A frame with crops goes through exactly where the answers join and can be filed. -/
theorem doProcess_crops {e : CropElement} {w : CropWorld Image Crop Row Box} {item : Item Image Row Box ν} {crops : List Crop}
    {rows : List Nat} (hp : e.prepare w item = .ok (crops, rows)) (hrows : rows ≠ []) {item' : Item Image Row Box ν} :
    e.doProcess w id item = .ok item' ↔ ∃ pieces data, e.answers w crops = .ok pieces ∧ Joins pieces data rows.length ∧
      e.scatter item (Dict.empty.update (rows.zip data)) = .ok item' := by
  unfold doProcess
  rw [hp]
  show (if rows = [] then _ else _) = _ ↔ _
  rw [if_neg hrows, bind_ok]
  constructor
  · intro h
    obtain ⟨v, hv, hfinish⟩ := h
    obtain ⟨pieces, hpieces, hjoined⟩ := submitCrops_ok.mp hv
    cases v with
    | scalar value => cases hfinish
    | rows shape data =>
      cases shape with
      | nil => cases hfinish
      | cons dim shape =>
        unfold finish at hfinish
        dsimp only at hfinish
        by_cases hlen : data.length = rows.length
        · rw [if_neg (not_not_intro hlen), List.map_id] at hfinish
          exact ⟨pieces, data, hpieces, ⟨⟨dim, shape, hjoined⟩, hlen⟩, hfinish⟩
        · rw [if_pos hlen] at hfinish
          cases hfinish
  · intro h
    obtain ⟨pieces, data, hpieces, ⟨⟨dim, shape, hjoined⟩, hlen⟩, hscatter⟩ := h
    refine ⟨_, submitCrops_ok.mpr ⟨pieces, hpieces, hjoined⟩, ?_⟩
    unfold finish
    dsimp only
    rw [if_neg (not_not_intro hlen), List.map_id]
    exact hscatter

theorem attributed_of_answered {e : CropElement} {w : CropWorld Image Crop Row Box} {item item' : Item Image Row Box ν}
    (h : e.Answered w item) (hrun : e.doProcess w id item = .ok item') : e.Attributed w item item' := by
  intro crops rows pieces hp hpieces place row hrow
  have hrows : rows ≠ [] := by
    intro hnil
    rw [hnil] at hrow
    cases hrow
  obtain ⟨pieces', data, hpieces', hjoins, hscatter⟩ := (doProcess_crops hp hrows).mp hrun
  rw [hpieces] at hpieces'
  cases hpieces'
  obtain ⟨hnodup, hcrops⟩ := prepare_ok hp
  obtain ⟨hentries, hkeys⟩ := covered_entries hnodup hjoins.2
  have hfree := free_of_scatter hscatter
  obtain ⟨item'', hscatter', hfiled⟩ := scatter_ok hfree
  rw [hscatter] at hscatter'
  cases hscatter'
  rw [hkeys] at hfree
  have hfit := h crops rows pieces data hp hrows hpieces hjoins hfree
  obtain ⟨⟨dim, shape, hjoined⟩, hlen⟩ := hjoins
  have hplace : place < data.length := hlen ▸ (List.getElem?_eq_some_iff.mp hrow).1
  have hzip : (row, data[place]) ∈ (Dict.empty.update (rows.zip data)).entries := by
    rw [hentries]
    refine List.mem_of_getElem? (i := place) ?_
    rw [List.getElem?_zip_eq_some]
    exact ⟨hrow, List.getElem?_eq_getElem hplace⟩
  obtain ⟨vectors, hvectors, hget⟩ := hfiled row _ hzip
  refine ⟨vectors, data[place], hvectors, ?_, hget⟩
  rw [own_eq_flatten (requests_endToEnd _ e.positive) hfit (Nat.zero_le _), ← Perception.Stages.joined_ok hjoined]
  exact List.getElem?_eq_getElem hplace

theorem answered_of_attributed {e : CropElement} {w : CropWorld Image Crop Row Box} {item : Item Image Row Box ν}
    (hdistinct : e.Distinct w item) (h : ∀ item', e.doProcess w id item = .ok item' → e.Attributed w item item') :
    e.Answered w item := by
  intro crops rows pieces data hp hrows hpieces hjoins hfree
  obtain ⟨hnodup, hcrops⟩ := prepare_ok hp
  obtain ⟨hentries, hkeys⟩ := covered_entries hnodup hjoins.2
  rw [← hkeys] at hfree
  obtain ⟨item', hscatter, hfiled⟩ := scatter_ok hfree
  have hattr := h item' ((doProcess_crops hp hrows).mpr ⟨pieces, data, hpieces, hjoins, hscatter⟩)
  obtain ⟨⟨dim, shape, hjoined⟩, hlen⟩ := hjoins
  have hflat : data = (pieces.map Values.toList).flatten := Perception.Stages.joined_ok hjoined
  have hpos : 0 < crops.length := hcrops ▸ List.length_pos_of_ne_nil hrows
  refine fitting_of_own (requests_endToEnd _ e.positive) (requests_lt e.positive hpos) ?_ (hdistinct crops rows pieces hp hpieces)
    ?_ fun place _ hplace => ?_
  · rw [List.length_map, answers_length hpieces]
  · rw [← hflat, hlen, hcrops, Nat.sub_zero]
  · have hlt : place < rows.length := hcrops ▸ hplace
    have hdata : place < data.length := hlen ▸ hlt
    obtain ⟨vectors, v, hvectors, hown, hget⟩ := hattr crops rows pieces hp hpieces place rows[place] (List.getElem?_eq_getElem hlt)
    have hzip : (rows[place], data[place]) ∈ (Dict.empty.update (rows.zip data)).entries := by
      rw [hentries]
      refine List.mem_of_getElem? (i := place) ?_
      rw [List.getElem?_zip_eq_some]
      exact ⟨List.getElem?_eq_getElem hlt, List.getElem?_eq_getElem hdata⟩
    obtain ⟨vectors', hvectors', hget'⟩ := hfiled _ _ hzip
    rw [hvectors] at hvectors'
    cases hvectors'
    rw [hget] at hget'
    cases hget'
    rw [hown, Nat.sub_zero, ← hflat]
    exact (List.getElem?_eq_getElem hdata).symm

/-- The frame is refused, or each selected detection has its own row. -/
def Sound (e : CropElement) (w : CropWorld Image Crop Row Box) (item : Item Image Row Box ν) : Prop :=
  (∃ err, e.doProcess w id item = .error err) ∨ ∃ item', e.doProcess w id item = .ok item' ∧ e.Attributed w item item'

theorem sound_iff {e : CropElement} {w : CropWorld Image Crop Row Box} {item : Item Image Row Box ν} :
    e.Sound w item ↔ ∀ item', e.doProcess w id item = .ok item' → e.Attributed w item item' := by
  unfold Sound
  cases e.doProcess w id item with
  | error err => simp
  | ok item' => simp

end CropElement

/-- The stage fails, or each object of its source batch has its own row. -/
def StageSound {Row Box Image : Type} (st : Perception.Stages.ObjectStage Row) (w : Perception.Stages.World Row Box Image)
    (s : Perception.Stages.State Row Box Image) : Prop :=
  (∃ e, (st.doRun w s).2 = .error e) ∨ st.Attributed w s (st.doRun w s).1

theorem stageSound_iff {Row Box Image : Type} {st : Perception.Stages.ObjectStage Row} {w : Perception.Stages.World Row Box Image}
    {s : Perception.Stages.State Row Box Image} : (st.Answered w s → StageSound st w s) ∧
      (st.Distinct w s → (StageSound st w s ↔ st.Answered w s)) := by
  have hforth : st.Answered w s → StageSound st w s := by
    intro h
    cases hrun : (st.doRun w s).2 with
    | error e => exact .inl ⟨e, hrun⟩
    | ok rows => exact .inr (Perception.Stages.ObjectStage.attributed_of_answered h hrun)
  exact ⟨hforth, fun hd => ⟨Perception.Stages.ObjectStage.answered_of_attributed hd, hforth⟩⟩

/-- **Whose row is whose.** A crop element, and an object stage, refuse the frame or give
each detection its own row wherever the answers that join to one row a crop each have
the rows of their request; where the answered rows can be told apart, only there. -/
theorem sound_iff_answered {Image Crop Row Box ν : Type} :
    (∀ (e : CropElement) (w : CropWorld Image Crop Row Box) (item : Item Image Row Box ν),
      (e.Answered w item → e.Sound w item) ∧ (e.Distinct w item → (e.Sound w item ↔ e.Answered w item))) ∧
    (∀ (st : Perception.Stages.ObjectStage Row) (w : Perception.Stages.World Row Box Image)
      (s : Perception.Stages.State Row Box Image),
      (st.Answered w s → StageSound st w s) ∧ (st.Distinct w s → (StageSound st w s ↔ st.Answered w s))) := by
  refine ⟨fun e w item => ?_, fun st w s => stageSound_iff⟩
  have hforth : e.Answered w item → e.Sound w item := fun h =>
    CropElement.sound_iff.mpr fun item' hrun => CropElement.attributed_of_answered h hrun
  exact ⟨hforth, fun hd => ⟨fun h => CropElement.answered_of_attributed hd (CropElement.sound_iff.mp h), hforth⟩⟩

/-! ## Three rows and one, for two crops and two -/

def fourCrops : CropElement := ⟨"embed", "vectors", "embedding", none, 2, Nat.succ_pos 1⟩

/-- Every row says which request it answers, and where in the answer it stands. -/
def threeAndOne (request : Nat) : Values (Nat × Nat) :=
  .rows [1] ((List.range (if request = 0 then 3 else 1)).map fun place => (request, place))

def cropWorld : CropWorld Unit Nat (Nat × Nat) Nat where
  frameOf _ := .ok ((), 8, 8)
  cropBatch _ _ := .ok id
  submit request _ := .ok (Dict.empty.set "embedding" (threeAndOne request))
  reduced := .ok

def fourShips : Item Unit (Nat × Nat) Nat Unit where
  context := {}
  caps := ⟨.any, .any⟩
  payload := some ()
  metadata := Dict.empty.set "detections"
    (.other (.detections ⟨["ship", "ship", "ship", "ship"], [0, 1, 2, 3], rfl⟩))

open Perception.Stages in
def cropStage : ObjectStage (Nat × Nat) where
  name := "reid"
  model := "reid"
  source := "crops"
  outputs := Dict.empty.set "embedding" "vectors"
  combine := none
  forwards := List.cons_ne_nil _ _

open Perception.Stages in
def stageWorld : World (Nat × Nat) Unit Unit where
  letterboxBatch _ _ := .error (.raised "letterbox")
  cropBatch _ _ _ := .error (.raised "crop")
  infer _ request _ := .ok (Dict.empty.set "embedding" (threeAndOne request))
  rowLimit _ := some 2
  readCount _ := .error (.raised "count")
  decodeDetections _ _ _ := .error (.raised "decode")
  updateTracker _ := .error (.raised "tracker")
  associate _ _ := .error (.raised "tracker")
  idRow _ := (0, 0)
  stateRow _ := (0, 0)

open Perception.Stages in
def cropState : State (Nat × Nat) Unit Unit :=
  { image := some ()
    batches := Dict.empty.set "crops" ⟨"crops", "ship", [0, 1, 2, 3], .rows [3] [(0, 0), (0, 1), (0, 2), (0, 3)], [], rfl⟩ }

/-- The third crop, the first of the second request, is given the third row of the
first answer. -/
theorem third_from_first_request :
    ¬ fourCrops.Sound cropWorld fourShips ∧ ¬ StageSound cropStage stageWorld cropState := by
  have hprepare : fourCrops.prepare cropWorld fourShips = .ok ([0, 1, 2, 3], [0, 1, 2, 3]) := by rfl
  have hanswers : fourCrops.answers cropWorld [0, 1, 2, 3] = .ok [threeAndOne 0, threeAndOne 1] := by rfl
  have hown : own [(0, 2), (2, 4)] ([threeAndOne 0, threeAndOne 1].map Values.toList) 2 = some (1, 0) := by decide
  constructor
  · intro h
    have hfiled : ∃ item', fourCrops.doProcess cropWorld id fourShips = .ok item' ∧
        (fourCrops.filed item').bind (·.get? 2) = some (0, 2) := ⟨_, rfl, by decide +kernel⟩
    obtain ⟨item', hrun, hget⟩ := hfiled
    obtain ⟨vectors, v, hvectors, hv, hrow⟩ :=
      CropElement.sound_iff.mp h item' hrun _ _ _ hprepare hanswers 2 2 rfl
    rw [hvectors] at hget
    have hat : own (CropElement.requests 4 2) ([threeAndOne 0, threeAndOne 1].map Values.toList) 2 = some v := hv
    rw [show CropElement.requests 4 2 = [(0, 2), (2, 4)] by decide, hown] at hat
    cases hat
    rw [Option.bind_some, hrow] at hget
    exact absurd hget (by decide)
  · intro h
    have hok : (cropStage.doRun stageWorld cropState).2 = .ok 4 := by decide +kernel
    rcases h with ⟨e, he⟩ | h
    · rw [hok] at he
      cases he
    · obtain ⟨batch, hbatch, -, hrows⟩ := h _ [[threeAndOne 0], [threeAndOne 1]] rfl rfl "vectors" 0
        ⟨by decide, fun place' hp => by
          obtain ⟨-, rfl⟩ := Prod.mk.inj (List.mem_singleton.mp hp)
          exact Nat.le_refl 0⟩
      have hdata : ((cropStage.doRun stageWorld cropState).1.batches.get? "vectors").map (·.data.toList[2]?) =
          some (some (0, 2)) := by decide +kernel
      obtain ⟨v, hv, hat⟩ := hrows 2 (by decide)
      rw [hbatch, Option.map_some, hat] at hdata
      have hat' : own [(0, 2), (2, 4)] ([threeAndOne 0, threeAndOne 1].map Values.toList) 2 = some v := hv
      rw [hown] at hat'
      cases hat'
      exact absurd hdata (by decide)

end ShipInfer.Elements
