import ShipInfer.Detect.Decode
import ShipInfer.Events.Schema
import ShipInfer.Lib.Fold
import ShipInfer.Lib.Scatter

/-!
# Building the records

`build_records` of `pipeline/graph/state.py` and of `pipeline/events/records.cpp`:
per-object batches, scattered over one frame's detections. Values are exact, so a
value stands for one that a float carries; a batch has at least one for each of its
objects. The C++ plane holds them in one array, row by row.
-/

namespace ShipInfer.Events

open Detect (toInt unknownLabel)

structure Detection where
  classId : Int
  score : ℚ
  box : ℚ × ℚ × ℚ × ℚ
  deriving DecidableEq

/-- A detection with the label its class id resolved to, as the Python plane keeps it. -/
structure LabelledDetection extends Detection where
  className : String

/-- `N` rows, each of one detection. -/
structure ObjectBatch where
  objectIndices : List Int
  data : List (List ℚ)
  width : Nat
  aligned : data.length = objectIndices.length
  uniform : ∀ row ∈ data, row.length = width
  width_pos : 0 < width

/-- `ObjectBatch.scatter` -/
def ObjectBatch.scatter (b : ObjectBatch) : List (Int × List ℚ) := b.objectIndices.zip b.data

/-- A converted row. -/
inductive FieldValue
  | vector (v : List ℚ)
  | int (n : Int)
  | number (x : ℚ)
  | text (s : String)
  deriving DecidableEq

inductive RecordError
  /-- `no converter for ObjectRecord field <name>` -/
  | noConverter (name : String)
  /-- `two batches cover detection row <row> for the event's <name>: <candidate> and an earlier candidate` -/
  | contested (row : Int) (name candidate : String)
  deriving DecidableEq

/-- `row.reshape(-1)[0]`, `row[0]` -/
def firstOf (row : List ℚ) : ℚ := row.headD 0

/-! ## The Python plane -/

/-- `RECORD_CONVERTERS`; `spell` is how numpy spells a value as a text. -/
def recordConverters (spell : ℚ → String) (name : String) : Option (List ℚ → FieldValue) :=
  if name = "embedding" then some .vector
  else if name = "ship_id" then some fun row => .int (toInt (firstOf row))
  else if name = "similarity" then some fun row => .number (firstOf row)
  else if name = "mask_area_px" then some fun row => .number (firstOf row)
  else if name = "track_id" then some fun row => .int (toInt (firstOf row))
  else if name = "track_state" then some fun row => .text (spell (firstOf row))
  else if name = "global_id" then some fun row => .int (toInt (firstOf row))
  else none

/-- What one detection got, field by field. -/
abbrev Fields := Dict String FieldValue

/-- The body of the row loop. -/
def fileRow (name : String) (convert : List ℚ → FieldValue) (fields : List Fields) (r : String × Int × List ℚ) :
    Except RecordError (List Fields) :=
  if 0 ≤ r.2.1 ∧ r.2.1 < fields.length then
    if ((fields.getD r.2.1.toNat .empty).contains name) then .error (.contested r.2.1 name r.1)
    else .ok (fields.modify r.2.1.toNat fun d => d.set name (convert r.2.2))
  else .ok fields

/-- The loops over a field's candidates and their rows. -/
def fileField (spell : ℚ → String) (batches : Dict String ObjectBatch) (fields : List Fields)
    (entry : String × List String) : Except RecordError (List Fields) :=
  match recordConverters spell entry.1 with
  | none => .error (.noConverter entry.1)
  | some convert =>
    entry.2.foldlM (fun fields candidate =>
      match batches.get? candidate with
      | none => .ok fields
      | some batch =>
        if batch.objectIndices.isEmpty then .ok fields
        else (batch.scatter.map fun r => (candidate, r.1, r.2)).foldlM (fileRow entry.1 convert) fields) fields

/-- `ObjectRecord(.., **fields[index])` -/
def recordOf (detId : String) (d : LabelledDetection) (fields : Fields) : ObjectRecord String ℚ where
  detId := detId
  className := d.className
  score := d.score
  bbox := d.box
  embedding := match fields.get? "embedding" with | some (.vector v) => v | _ => []
  shipId := match fields.get? "ship_id" with | some (.int n) => some n | _ => none
  similarity := match fields.get? "similarity" with | some (.number x) => some x | _ => none
  maskAreaPx := match fields.get? "mask_area_px" with | some (.number x) => some x | _ => none
  trackId := match fields.get? "track_id" with | some (.int n) => some n | _ => none
  trackState := match fields.get? "track_state" with | some (.text s) => some s | _ => none
  globalId := match fields.get? "global_id" with | some (.int n) => some n | _ => none

/-- `<camera>_<frame>_<index>` -/
def detIdOf (camera : String) (frame : Int) (index : Nat) : String :=
  camera ++ "_" ++ toString frame ++ "_" ++ toString index

def buildRecords (spell : ℚ → String) (camera : String) (frame : Int) (detections : List LabelledDetection)
    (batches : Dict String ObjectBatch) (fieldMap : Dict String (List String)) :
    Except RecordError (List (ObjectRecord String ℚ)) := do
  let fields ← fieldMap.entries.foldlM (fileField spell batches) (detections.map fun _ => .empty)
  return detections.zipIdx.map fun p => recordOf (detIdOf camera frame p.2) p.1 (fields.getD p.2 .empty)

/-! ## The C++ plane -/

namespace Cpp

inductive Field
  | embedding
  | shipId
  | similarity
  | maskArea
  | trackId
  | globalId
  deriving DecidableEq

/-- The values row by row, `width` of them each. -/
structure ObjectBatch where
  objectIndices : List Int
  data : List ℚ
  width : Nat

def ObjectBatch.row (b : ObjectBatch) (i : Nat) : List ℚ := (b.data.drop (i * b.width)).take b.width

/-- A detection as `set_detections` leaves it: with its position. -/
structure Detection extends Events.Detection where
  index : Nat

def setDetections (detections : List Events.Detection) : List Detection :=
  detections.zipIdx.map fun p => { toDetection := p.1, index := p.2 }

def fieldOf (name : String) : Option Field :=
  if name = "embedding" then some .embedding
  else if name = "ship_id" then some .shipId
  else if name = "similarity" then some .similarity
  else if name = "mask_area_px" then some .maskArea
  else if name = "track_id" then some .trackId
  else if name = "global_id" then some .globalId
  else none

def fieldNameOf : Field → String
  | .embedding => "embedding"
  | .shipId => "ship_id"
  | .similarity => "similarity"
  | .maskArea => "mask_area_px"
  | .trackId => "track_id"
  | .globalId => "global_id"

/-- `static_cast<int64_t>`; what does not fit is undefined there, and wraps here. -/
def toInt64 (x : ℚ) : Int := (toInt x).bmod (2 ^ 64)

def setField (record : ObjectRecord String ℚ) (field : Field) (row : List ℚ) : ObjectRecord String ℚ :=
  match field with
  | .embedding => { record with embedding := row }
  | .shipId => { record with shipId := some (toInt64 (firstOf row)) }
  | .similarity => { record with similarity := some (firstOf row) }
  | .maskArea => { record with maskAreaPx := some (firstOf row) }
  | .trackId => { record with trackId := some (toInt64 (firstOf row)) }
  | .globalId => { record with globalId := some (toInt64 (firstOf row)) }

/-- The records so far, and the detections the field at hand has covered. -/
structure Filling where
  records : List (ObjectRecord String ℚ)
  filled : List Bool

/-- The body of the row loop. -/
def fileRow (field : Field) (s : Filling) (r : String × Int × List ℚ) : Except RecordError Filling :=
  if r.2.1 < 0 ∨ s.records.length ≤ r.2.1.toNat then .ok s
  else if s.filled.getD r.2.1.toNat false then .error (.contested r.2.1 (fieldNameOf field) r.1)
  else .ok { records := s.records.modify r.2.1.toNat fun record => setField record field r.2.2,
             filled := s.filled.set r.2.1.toNat true }

def ObjectBatch.rows (b : ObjectBatch) (candidate : String) : List (String × Int × List ℚ) :=
  (List.range b.objectIndices.length).map fun row => (candidate, b.objectIndices.getD row 0, b.row row)

/-- A field's turn: `filled.assign`, and the loops over its candidates and their rows. -/
def fileField (batches : Dict String ObjectBatch) (records : List (ObjectRecord String ℚ)) (entry : Field × List String) :
    Except RecordError (List (ObjectRecord String ℚ)) := do
  let s ← entry.2.foldlM (fun s candidate =>
    match batches.get? candidate with
    | none => .ok s
    | some batch =>
      if batch.objectIndices.isEmpty then .ok s
      else (batch.rows candidate).foldlM (fileRow entry.1) s)
    ({ records := records, filled := records.map fun _ => false } : Filling)
  return s.records

def resolve (entry : String × List String) : Except RecordError (Field × List String) :=
  match fieldOf entry.1 with
  | none => .error (.noConverter entry.1)
  | some field => .ok (field, entry.2)

/-- A default `ObjectRecord`. -/
def blank : ObjectRecord String ℚ := { detId := "", className := "", score := 0, bbox := (0, 0, 0, 0) }

def finish (camera : String) (frame : Int) (labels : Dict Int String) (d : Detection) (record : ObjectRecord String ℚ) :
    ObjectRecord String ℚ :=
  { record with
    detId := detIdOf camera frame d.index
    className := (labels.get? d.classId).getD unknownLabel
    score := d.score
    bbox := d.box }

/-- The field map is a `std::map`: its entries come in the order of their names. -/
def buildRecords (camera : String) (frame : Int) (detections : List Detection) (batches : Dict String ObjectBatch)
    (labels : Dict Int String) (fieldMap : Dict String (List String)) :
    Except RecordError (List (ObjectRecord String ℚ)) := do
  let resolved ← (fieldMap.entries.mergeSort fun p q => decide (p.1 ≤ q.1)).mapM resolve
  let records ← resolved.foldlM (fileField batches) (detections.map fun _ => blank)
  return List.zipWith (finish camera frame labels) detections records

end Cpp

/-! ## What a record should hold -/

/-- The rows of a field's candidates, in order, each with the candidate it is of. -/
def rowsOf (batches : Dict String ObjectBatch) (candidates : List String) : List (String × Int × List ℚ) :=
  candidates.flatMap fun candidate =>
    match batches.get? candidate with
    | none => []
    | some batch => batch.scatter.map fun r => (candidate, r.1, r.2)

/-- The detection a row covers, of `n`. -/
def slotOf (n : Nat) (r : String × Int × List ℚ) : Option Nat :=
  if 0 ≤ r.2.1 ∧ r.2.1 < n then some r.2.1.toNat else none

/-- The rows that cover a detection. -/
def covering (n : Nat) (batches : Dict String ObjectBatch) (candidates : List String) (i : Nat) : List (List ℚ) :=
  covers (slotOf n) (fun r => r.2.2) i (rowsOf batches candidates)

/-- Two rows, of one batch or of two candidates of one field, cover one detection. -/
def Contested (n : Nat) (batches : Dict String ObjectBatch) (fieldMap : Dict String (List String)) : Prop :=
  ∃ p ∈ fieldMap.entries, ∃ i, 2 ≤ (covering n batches p.2 i).length

/-- The one row that covers a detection for a field. -/
def fieldRow (n : Nat) (batches : Dict String ObjectBatch) (fieldMap : Dict String (List String)) (i : Nat)
    (name : String) : Option (List ℚ) :=
  (fieldMap.get? name).bind fun candidates => (covering n batches candidates i).head?

def exactRecord (labels : Dict Int String) (detId : String) (d : Detection) (row : String → Option (List ℚ)) :
    ObjectRecord String ℚ where
  detId := detId
  className := (labels.get? d.classId).getD unknownLabel
  score := d.score
  bbox := d.box
  embedding := (row "embedding").getD []
  shipId := (row "ship_id").map fun r => toInt (firstOf r)
  similarity := (row "similarity").map firstOf
  maskAreaPx := (row "mask_area_px").map firstOf
  trackId := (row "track_id").map fun r => toInt (firstOf r)
  globalId := (row "global_id").map fun r => toInt (firstOf r)

def exactRecords (camera : String) (frame : Int) (labels : Dict Int String) (detections : List Detection)
    (batches : Dict String ObjectBatch) (fieldMap : Dict String (List String)) : List (ObjectRecord String ℚ) :=
  detections.zipIdx.map fun p =>
    exactRecord labels (detIdOf camera frame p.2) p.1 (fieldRow detections.length batches fieldMap p.2)

def labelled (labels : Dict Int String) (d : Detection) : LabelledDetection where
  toDetection := d
  className := (labels.get? d.classId).getD unknownLabel

/-! ## The Python plane is exact -/

section
variable {spell : ℚ → String} {batches : Dict String ObjectBatch}

theorem scatter_empty {b : ObjectBatch} (h : b.objectIndices.isEmpty = true) : b.scatter = [] := by
  simp [ObjectBatch.scatter, List.isEmpty_iff.mp h]

/-- The field's loops are one loop over its rows. -/
theorem fileField_eq {name : String} {convert : List ℚ → FieldValue} (hc : recordConverters spell name = some convert)
    (fields : List Fields) (candidates : List String) :
    fileField spell batches fields (name, candidates) = (rowsOf batches candidates).foldlM (fileRow name convert) fields := by
  unfold fileField rowsOf
  rw [foldlM_flatMap]
  simp only [hc]
  congr 1
  funext fields candidate
  cases batches.get? candidate with
  | none => rfl
  | some b =>
    dsimp only
    split
    · rename_i h
      rw [scatter_empty h]
      rfl
    · rfl

/-- What a detection has for a field. -/
def got (fields : List Fields) (i : Nat) (name : String) : Option FieldValue := (fields[i]?).bind fun d => d.get? name

theorem got_modify {fields : List Fields} {i : Nat} (hi : i < fields.length) (name : String) (v : FieldValue) (j : Nat)
    (g : String) :
    got (fields.modify i fun d => d.set name v) j g = if j = i ∧ g = name then some v else got fields j g := by
  unfold got
  rw [List.getElem?_modify]
  by_cases hj : i = j
  · subst hj
    rw [List.getElem?_eq_getElem hi]
    simp [Dict.get?_set]
  · have hji : ¬j = i := fun e => hj e.symm
    simp [hj, hji]

theorem slotOf_some {n : Nat} {r : String × Int × List ℚ} {k : Nat} (h : slotOf n r = some k) :
    0 ≤ r.2.1 ∧ r.2.1 < n ∧ r.2.1.toNat = k ∧ k < n := by
  unfold slotOf at h
  split at h
  · rename_i hr
    have hk := Option.some.inj h
    exact ⟨hr.1, hr.2, hk, by omega⟩
  · cases h

theorem slotOf_none {n : Nat} {r : String × Int × List ℚ} (h : slotOf n r = none) : ¬(0 ≤ r.2.1 ∧ r.2.1 < n) := by
  unfold slotOf at h
  split at h
  · cases h
  · assumption

theorem fileRow_fills (name : String) (convert : List ℚ → FieldValue) (fields₀ : List Fields) :
    Fills (fun _ => True) (slotOf fields₀.length) (fun r => convert r.2.2) (fun fields i => got fields i name)
      (fun fields => fields.length = fields₀.length ∧ ∀ i g, g ≠ name → got fields i g = got fields₀ i g)
      (fileRow name convert) := by
  constructor
  · rintro fields r - ⟨hlen, -⟩ hslot
    have hout := slotOf_none hslot
    unfold fileRow
    rw [hlen, if_neg hout]
  · rintro fields r k - ⟨hlen, -⟩ hslot hgot
    obtain ⟨h0, h1, rfl, hk⟩ := slotOf_some hslot
    unfold fileRow
    rw [hlen, if_pos ⟨h0, h1⟩, if_pos]
    · exact ⟨_, rfl⟩
    · rw [Dict.contains, Option.isSome_iff_ne_none]
      simpa [got, List.getD, hlen, hk] using hgot
  · rintro fields r k - ⟨hlen, hother⟩ hslot hgot
    obtain ⟨h0, h1, rfl, hk⟩ := slotOf_some hslot
    have hlt : r.2.1.toNat < fields.length := by omega
    refine ⟨fields.modify r.2.1.toNat fun d => d.set name (convert r.2.2), ?_, ⟨by simpa using hlen, ?_⟩, ?_⟩
    · unfold fileRow
      rw [hlen, if_pos ⟨h0, h1⟩, if_neg]
      rw [Dict.contains, Option.isSome_iff_ne_none, not_not]
      simpa [got, List.getD, hlt] using hgot
    · intro i g hg
      rw [got_modify hlt, if_neg (fun h => hg h.2), hother i g hg]
    · intro j
      rw [got_modify hlt]
      simp

/-- The entries of a field map beside the rows of their candidates. -/
def fieldItems {φ : Type} (batches : Dict String ObjectBatch) (entries : List (φ × List String)) :
    List (φ × List (String × Int × List ℚ)) :=
  entries.map fun p => (p.1, rowsOf batches p.2)

theorem contested_iff {φ ν : Type} {n : Nat} {entries : List (φ × List String)}
    (convert : φ → List ℚ → ν) :
    (∃ p ∈ fieldItems batches entries, ∃ k, 2 ≤ (covers (slotOf n) (fun r => convert p.1 r.2.2) k p.2).length) ↔
      ∃ p ∈ entries, ∃ i, 2 ≤ (covering n batches p.2 i).length := by
  simp only [fieldItems, List.mem_map, exists_exists_and_eq_and, covers_map, List.length_map, covering]

/-- All fields filled, from none: a refusal when some detection is contested, else what
covers it. -/
theorem fields_filled (spell : ℚ → String) (batches : Dict String ObjectBatch) (fieldMap : Dict String (List String))
    (hknown : ∀ name ∈ fieldMap.keys, (recordConverters spell name).isSome) (start : List Fields)
    (hstart : ∀ i name, got start i name = none) :
    (Contested start.length batches fieldMap ∧ ∃ e, fieldMap.entries.foldlM (fileField spell batches) start = .error e) ∨
      (¬Contested start.length batches fieldMap ∧
        ∃ fields, fieldMap.entries.foldlM (fileField spell batches) start = .ok fields ∧ fields.length = start.length ∧
          ∀ i name, got fields i name = (fieldRow start.length batches fieldMap i name).bind fun row =>
            (recordConverters spell name).map fun convert => convert row) := by
  let convert : String → List ℚ → FieldValue := fun name => (recordConverters spell name).getD fun _ => .text ""
  let step : List Fields → String × List (String × Int × List ℚ) → Except RecordError (List Fields) := fun fields p =>
    p.2.foldlM (fileRow p.1 (convert p.1)) fields
  have hloop : fieldMap.entries.foldlM (fileField spell batches) start =
      (fieldItems batches fieldMap.entries).foldlM step start := by
    have hall : ∀ (entries : List (String × List String)) (fields : List Fields),
        (∀ p ∈ entries, (recordConverters spell p.1).isSome) →
          entries.foldlM (fileField spell batches) fields = (fieldItems batches entries).foldlM step fields := by
      intro entries
      induction entries with
      | nil => intro fields _; rfl
      | cons p entries ih =>
        intro fields hp
        obtain ⟨c, hc⟩ := Option.isSome_iff_exists.mp (hp p List.mem_cons_self)
        have hhead : fileField spell batches fields p = step fields (p.1, rowsOf batches p.2) := by
          show fileField spell batches fields (p.1, p.2) = _
          rw [fileField_eq hc]
          simp only [step, convert, hc, Option.getD_some]
        rw [fieldItems, List.map_cons, List.foldlM_cons, List.foldlM_cons, hhead]
        cases step fields (p.1, rowsOf batches p.2) with
        | error e => rfl
        | ok t => exact ih t fun q hq => hp q (List.mem_cons_of_mem _ hq)
    exact hall _ _ fun p hp => hknown p.1 (List.mem_map_of_mem hp)
  rw [hloop]
  have hfill := fills_each (slotOf start.length) (fun name r => convert name r.2.2) got
    (fun fields => fields.length = start.length) (fun _ _ => True) step (fun fields name xs _ hlen hnone => by
      have hloop := (fileRow_fills name (convert name) fields).loop xs (fun _ _ => trivial) ⟨rfl, fun _ _ _ => rfl⟩ hnone
      rw [hlen] at hloop
      rcases hloop with hfail | ⟨hone, t, ht, ⟨hlen', hother⟩, hlast⟩
      · exact .inl hfail
      · refine .inr ⟨hone, t, ht, hlen', fun k g => ?_⟩
        by_cases hg : g = name
        · subst hg
          rw [if_pos rfl, hlast]
        · rw [if_neg hg, hother k g hg])
    (fieldItems batches fieldMap.entries) start (fun _ _ => trivial) rfl
    (by simpa [fieldItems, Function.comp_def] using fieldMap.nodup) (fun p _ k => hstart k p.1)
  rw [contested_iff convert] at hfill
  rcases hfill with ⟨hmany, hfail⟩ | ⟨hone, fields, hok, hlen, hlast, hother⟩
  · exact .inl ⟨hmany, hfail⟩
  · refine .inr ⟨fun hmany => ?_, fields, hok, hlen, fun i name => ?_⟩
    · obtain ⟨p, hp, k, htwo⟩ := (contested_iff convert).mpr hmany
      have hle := hone p hp k
      omega
    · cases hget : fieldMap.get? name with
      | none =>
        have hnew : name ∉ (fieldItems batches fieldMap.entries).map Prod.fst := by
          rw [Dict.get?_eq_none_iff] at hget
          simpa [fieldItems, Function.comp_def, Dict.keys] using hget
        rw [hother name hnew, hstart]
        simp [fieldRow, hget]
      | some candidates =>
        have hentry := Dict.get?_eq_some_iff.mp hget
        have hvalue := hlast (name, rowsOf batches candidates) (List.mem_map.mpr ⟨(name, candidates), hentry, rfl⟩) i
        obtain ⟨c, hc⟩ := Option.isSome_iff_exists.mp (hknown name (Dict.mem_keys_of_mem hentry))
        rw [hvalue, covers_map]
        simp only [fieldRow, hget, Option.bind_some, covering, hc, Option.map_some, convert, Option.getD_some]
        cases (covers (slotOf start.length) (fun r => r.2.2) i (rowsOf batches candidates)) <;> rfl

theorem recordConverters_of_fieldOf {name : String} (h : (Cpp.fieldOf name).isSome) :
    (recordConverters spell name).isSome := by
  unfold Cpp.fieldOf at h
  unfold recordConverters
  split_ifs at h ⊢ <;> simp_all

/-- A record made of what its detection got. -/
theorem recordOf_eq (spell : ℚ → String) {fields : Fields} {row : String → Option (List ℚ)} (labels : Dict Int String) (detId : String)
    (d : Detection) (hstate : row "track_state" = none)
    (h : ∀ name, fields.get? name = (row name).bind fun r => (recordConverters spell name).map fun convert => convert r) :
    recordOf detId (labelled labels d) fields = exactRecord labels detId d row := by
  unfold recordOf exactRecord labelled
  simp only [h, hstate]
  congr 1
  · cases row "embedding" <;> simp [recordConverters]
  · cases row "ship_id" <;> simp [recordConverters]
  · cases row "similarity" <;> simp [recordConverters]
  · cases row "mask_area_px" <;> simp [recordConverters]
  · cases row "track_id" <;> simp [recordConverters]
  · cases row "global_id" <;> simp [recordConverters]

theorem buildRecords_exact (spell : ℚ → String) (camera : String) (frame : Int) (labels : Dict Int String)
    (detections : List Detection) (batches : Dict String ObjectBatch) (fieldMap : Dict String (List String))
    (hknown : ∀ name ∈ fieldMap.keys, (Cpp.fieldOf name).isSome) :
    (Contested detections.length batches fieldMap ∧
        ∃ e, buildRecords spell camera frame (detections.map (labelled labels)) batches fieldMap = .error e) ∨
      (¬Contested detections.length batches fieldMap ∧
        buildRecords spell camera frame (detections.map (labelled labels)) batches fieldMap =
          .ok (exactRecords camera frame labels detections batches fieldMap)) := by
  have hlen : ((detections.map (labelled labels)).map fun _ => (.empty : Fields)).length = detections.length := by simp
  have hstart : ∀ i name, got ((detections.map (labelled labels)).map fun _ => (.empty : Fields)) i name = none := by
    intro i name
    unfold got
    rw [List.map_map, List.getElem?_map]
    cases detections[i]? <;> rfl
  have hfilled := fields_filled spell batches fieldMap (fun name hname => recordConverters_of_fieldOf (hknown name hname))
    _ hstart
  rw [hlen] at hfilled
  unfold buildRecords
  rcases hfilled with ⟨hmany, e, he⟩ | ⟨hone, fields, hok, hfields, hgot⟩
  · exact .inl ⟨hmany, e, by rw [he]; rfl⟩
  · refine .inr ⟨hone, ?_⟩
    rw [hok]
    show Except.ok _ = Except.ok _
    congr 1
    unfold exactRecords
    rw [List.zipIdx_map, List.map_map]
    apply List.map_congr_left
    rintro ⟨d, i⟩ hmem
    have hi : i < fields.length := by
      have hlt := (List.mem_zipIdx hmem).2.1
      omega
    apply recordOf_eq spell
    · have hnew : "track_state" ∉ fieldMap.keys := fun hmem => absurd (hknown _ hmem) (by decide)
      simp [fieldRow, Dict.get?_eq_none_iff.mpr hnew]
    · intro name
      rw [← hgot]
      simp [got, List.getD, hi]

end

/-! ## The C++ plane is exact -/

/-- The batch the C++ plane holds. -/
def ObjectBatch.ported (b : ObjectBatch) : Cpp.ObjectBatch := ⟨b.objectIndices, b.data.flatten, b.width⟩

theorem row_flatten {w : Nat} : ∀ {data : List (List ℚ)} {i : Nat} {row : List ℚ}, (∀ r ∈ data, r.length = w) →
    data[i]? = some row → (data.flatten.drop (i * w)).take w = row
  | [], _, _, _, h => by simp at h
  | r :: data, 0, row, hw, h => by
    obtain rfl : r = row := by simpa using h
    rw [← hw r List.mem_cons_self]
    simp
  | r :: data, i + 1, row, hw, h => by
    have hr := hw r List.mem_cons_self
    have hrest := row_flatten (fun q hq => hw q (List.mem_cons_of_mem _ hq)) (by simpa using h)
    rw [List.flatten_cons, List.drop_append, List.drop_eq_nil_of_le (by rw [hr, Nat.succ_mul]; omega), hr,
      show (i + 1) * w - w = i * w by rw [Nat.succ_mul, Nat.add_sub_cancel], List.nil_append]
    exact hrest

theorem rows_ported (b : ObjectBatch) (candidate : String) :
    b.ported.rows candidate = b.scatter.map fun r => (candidate, r.1, r.2) := by
  apply List.ext_getElem?
  intro i
  simp only [Cpp.ObjectBatch.rows, ObjectBatch.scatter, List.getElem?_map, ObjectBatch.ported, Cpp.ObjectBatch.row]
  by_cases hi : i < b.objectIndices.length
  · have hd : i < b.data.length := by rw [b.aligned]; exact hi
    have hrow := row_flatten b.uniform (List.getElem?_eq_getElem hd)
    have hzip : (b.objectIndices.zip b.data)[i]? = some (b.objectIndices[i], b.data[i]) := by
      rw [List.getElem?_zip_eq_some]
      exact ⟨List.getElem?_eq_getElem hi, List.getElem?_eq_getElem hd⟩
    simp [hi, hrow, hzip, List.getD]
  · have hz : b.objectIndices.length ≤ i := Nat.not_lt.mp hi
    simp [hz]

theorem get?_ported (batches : Dict String ObjectBatch) (name : String) :
    (batches.mapValues fun _ b => b.ported).get? name = (batches.get? name).map ObjectBatch.ported := by
  cases h : batches.get? name with
  | none =>
    rw [Dict.get?_eq_none_iff] at h
    simpa [Dict.get?_eq_none_iff] using h
  | some b =>
    rw [Option.map_some, Dict.get?_eq_some_iff, Dict.entries_mapValues, List.mem_map]
    exact ⟨(name, b), Dict.get?_eq_some_iff.mp h, rfl⟩

namespace Cpp

section
variable {batches : Dict String Events.ObjectBatch}

/-- A field's turn on the rows it is given. -/
def turn (records : List (ObjectRecord String ℚ)) (p : Field × List (String × Int × List ℚ)) :
    Except RecordError (List (ObjectRecord String ℚ)) :=
  p.2.foldlM (fileRow p.1) { records := records, filled := records.map fun _ => false } >>= fun s => pure s.records

/-- A field's turn is one loop over its rows. -/
theorem fileField_eq (records : List (ObjectRecord String ℚ)) (field : Field) (candidates : List String) :
    fileField (batches.mapValues fun _ b => b.ported) records (field, candidates) =
      turn records (field, rowsOf batches candidates) := by
  unfold fileField rowsOf turn
  rw [foldlM_flatMap]
  congr 2
  funext s candidate
  rw [get?_ported]
  cases batches.get? candidate with
  | none => rfl
  | some b =>
    dsimp only [Option.map_some]
    rw [rows_ported]
    split
    · rename_i h
      rw [scatter_empty h]
      rfl
    · rfl

/-- What a record has for a field. -/
def fieldValue (record : ObjectRecord String ℚ) : Field → Option FieldValue
  | .embedding => if record.embedding.isEmpty then none else some (.vector record.embedding)
  | .shipId => record.shipId.map .int
  | .similarity => record.similarity.map .number
  | .maskArea => record.maskAreaPx.map .number
  | .trackId => record.trackId.map .int
  | .globalId => record.globalId.map .int

/-- A row as `set_field` converts it. -/
def converted (field : Field) (row : List ℚ) : FieldValue :=
  match field with
  | .embedding => .vector row
  | .shipId | .trackId | .globalId => .int (toInt64 (firstOf row))
  | .similarity | .maskArea => .number (firstOf row)

theorem fieldValue_setField (record : ObjectRecord String ℚ) (field : Field) {row : List ℚ} (hrow : row ≠ []) (g : Field) :
    fieldValue (setField record field row) g = if g = field then some (converted field row) else fieldValue record g := by
  cases field <;> cases g <;> simp [fieldValue, setField, converted, hrow]

/-- What a detection has for a field. -/
def got (records : List (ObjectRecord String ℚ)) (i : Nat) (field : Field) : Option FieldValue :=
  (records[i]?).bind fun record => fieldValue record field

theorem got_modify {records : List (ObjectRecord String ℚ)} {i : Nat} (hi : i < records.length) (field : Field)
    {row : List ℚ} (hrow : row ≠ []) (j : Nat) (g : Field) :
    got (records.modify i fun record => setField record field row) j g =
      if j = i ∧ g = field then some (converted field row) else got records j g := by
  unfold got
  rw [List.getElem?_modify]
  by_cases hj : i = j
  · subst hj
    rw [List.getElem?_eq_getElem hi]
    simp [fieldValue_setField _ _ hrow]
  · have hji : ¬j = i := fun e => hj e.symm
    simp [hj, hji]

/-- What stays as it is while a field is filled. -/
structure Filling.Inv (records₀ : List (ObjectRecord String ℚ)) (field : Field) (s : Filling) : Prop where
  length : s.records.length = records₀.length
  filled : s.filled = s.records.map fun record => (fieldValue record field).isSome
  others : ∀ i g, g ≠ field → got s.records i g = got records₀ i g
  untracked : ∀ record ∈ s.records, record.trackState = none

theorem fileRow_fills (field : Field) (records₀ : List (ObjectRecord String ℚ)) :
    Fills (fun r => r.2.2 ≠ []) (slotOf records₀.length) (fun r => converted field r.2.2)
      (fun s i => got s.records i field) (Filling.Inv records₀ field) (fileRow field) := by
  constructor
  · intro s r _ hI hslot
    have hout := slotOf_none hslot
    unfold fileRow
    rw [if_pos]
    rw [hI.length]
    omega
  · intro s r k _ hI hslot hgot
    obtain ⟨h0, h1, rfl, hk⟩ := slotOf_some hslot
    have hlt : r.2.1.toNat < s.records.length := by rw [hI.length]; exact hk
    unfold fileRow
    rw [if_neg (by omega), if_pos]
    · exact ⟨_, rfl⟩
    · rw [hI.filled, List.getD, List.getElem?_map, List.getElem?_eq_getElem hlt]
      simpa [got, hlt, Option.isSome_iff_ne_none] using hgot
  · intro s r k hrow hI hslot hgot
    obtain ⟨h0, h1, rfl, hk⟩ := slotOf_some hslot
    have hlt : r.2.1.toNat < s.records.length := by rw [hI.length]; exact hk
    refine ⟨{ records := s.records.modify r.2.1.toNat fun record => setField record field r.2.2,
              filled := s.filled.set r.2.1.toNat true }, ?_, ⟨?_, ?_, ?_, ?_⟩, ?_⟩
    · unfold fileRow
      rw [if_neg (by omega), if_neg]
      rw [hI.filled, List.getD, List.getElem?_map, List.getElem?_eq_getElem hlt]
      simpa [got, hlt] using hgot
    · simpa using hI.length
    · show s.filled.set _ true = _
      apply List.ext_getElem?
      intro j
      rw [hI.filled, List.getElem?_set, List.getElem?_map, List.getElem?_map, List.getElem?_modify]
      by_cases hj : r.2.1.toNat = j
      · subst hj
        simp [hlt, fieldValue_setField _ _ hrow]
      · simp [hj]
    · intro i g hg
      rw [got_modify hlt _ hrow, if_neg (fun h => hg h.2), hI.others i g hg]
    · intro record hmem
      obtain ⟨j, hj⟩ := List.mem_iff_getElem?.mp hmem
      rw [List.getElem?_modify] at hj
      cases hget : s.records[j]? with
      | none => simp [hget] at hj
      | some old =>
        have hold := hI.untracked old (List.mem_of_getElem? hget)
        rw [hget] at hj
        by_cases hjr : r.2.1.toNat = j
        · have hset : setField old field r.2.2 = record := by simpa [hjr] using hj
          rw [← hset, ← hold]
          cases field <;> rfl
        · have hsame : old = record := by simpa [hjr] using hj
          rw [← hsame]
          exact hold
    · intro j
      rw [got_modify hlt _ hrow]
      simp

theorem mem_rowsOf {candidates : List String} {r : String × Int × List ℚ} (h : r ∈ rowsOf batches candidates) :
    r.2.2 ≠ [] ∧ ∃ candidate ∈ candidates, ∃ b, batches.get? candidate = some b ∧ r.2.2 ∈ b.data := by
  obtain ⟨candidate, hc, hr⟩ := List.mem_flatMap.mp h
  cases hget : batches.get? candidate with
  | none => simp [hget] at hr
  | some b =>
    rw [hget] at hr
    obtain ⟨q, hq, rfl⟩ := List.mem_map.mp hr
    have hdata : q.2 ∈ b.data := (List.of_mem_zip hq).2
    refine ⟨?_, candidate, hc, b, hget, hdata⟩
    have hlen := b.uniform q.2 hdata
    have hpos := b.width_pos
    intro hnil
    have hzero : q.2.length = 0 := by rw [show q.2 = [] from hnil]; rfl
    omega

/-- One field filled, from none. -/
theorem turn_fills {n : Nat} (records : List (ObjectRecord String ℚ)) (field : Field) {xs : List (String × Int × List ℚ)}
    (hxs : ∀ r ∈ xs, r.2.2 ≠ []) (hn : records.length = n ∧ ∀ record ∈ records, record.trackState = none)
    (hnone : ∀ i, got records i field = none) :
    ((∃ i, 2 ≤ (covers (slotOf n) (fun r => converted field r.2.2) i xs).length) ∧
        ∃ e, turn records (field, xs) = .error e) ∨
      ((∀ i, (covers (slotOf n) (fun r => converted field r.2.2) i xs).length ≤ 1) ∧
        ∃ filled, turn records (field, xs) = .ok filled ∧
          (filled.length = n ∧ ∀ record ∈ filled, record.trackState = none) ∧
          ∀ i g, got filled i g =
            if g = field then (covers (slotOf n) (fun r => converted field r.2.2) i xs).head? else got records i g) := by
  obtain ⟨rfl, huntracked⟩ := hn
  have hstart : Filling.Inv records field { records := records, filled := records.map fun _ => false } := by
    refine ⟨rfl, ?_, fun _ _ _ => rfl, huntracked⟩
    apply List.map_congr_left
    intro record hmem
    obtain ⟨i, hi⟩ := List.mem_iff_getElem?.mp hmem
    have hgot := hnone i
    rw [got, hi, Option.bind_some] at hgot
    rw [hgot]
    rfl
  unfold turn
  rcases (fileRow_fills field records).loop xs hxs hstart hnone with ⟨hmany, e, he⟩ | ⟨hone, s, hs, hI, hlast⟩
  · exact .inl ⟨hmany, e, by rw [he]; rfl⟩
  · refine .inr ⟨hone, s.records, by rw [hs]; rfl, ⟨hI.length, hI.untracked⟩, fun i g => ?_⟩
    by_cases hg : g = field
    · subst hg
      rw [if_pos rfl, hlast]
    · rw [if_neg hg, hI.others i g hg]

theorem fieldNameOf_of_fieldOf {name : String} {field : Field} (h : fieldOf name = some field) :
    fieldNameOf field = name := by
  unfold fieldOf at h
  split_ifs at h with h₁ h₂ h₃ h₄ h₅ h₆ <;> cases h <;> simp_all [fieldNameOf]

theorem fieldOf_fieldNameOf (field : Field) : fieldOf (fieldNameOf field) = some field := by
  cases field <;> decide

/-- A known name's field. -/
def known (name : String) : Field := (fieldOf name).getD .embedding

theorem mapM_resolve : ∀ (entries : List (String × List String)), (∀ p ∈ entries, (fieldOf p.1).isSome) →
    entries.mapM resolve = .ok (entries.map fun p => (known p.1, p.2))
  | [], _ => rfl
  | p :: entries, h => by
    obtain ⟨field, hfield⟩ := Option.isSome_iff_exists.mp (h p List.mem_cons_self)
    rw [List.mapM_cons, mapM_resolve entries fun q hq => h q (List.mem_cons_of_mem _ hq)]
    simp only [resolve, hfield, known, List.map_cons, Option.getD_some]
    rfl

/-- All fields filled, from none. -/
theorem fields_filled (batches : Dict String Events.ObjectBatch) {n : Nat} {entries : List (Field × List String)}
    (hnodup : (entries.map Prod.fst).Nodup) (start : List (ObjectRecord String ℚ))
    (hn : start.length = n ∧ ∀ record ∈ start, record.trackState = none) (hstart : ∀ i g, got start i g = none) :
    ((∃ p ∈ entries, ∃ i, 2 ≤ (covering n batches p.2 i).length) ∧
        ∃ e, entries.foldlM (fileField (batches.mapValues fun _ b => b.ported)) start = .error e) ∨
      (¬(∃ p ∈ entries, ∃ i, 2 ≤ (covering n batches p.2 i).length) ∧
        ∃ records, entries.foldlM (fileField (batches.mapValues fun _ b => b.ported)) start = .ok records ∧
          (records.length = n ∧ ∀ record ∈ records, record.trackState = none) ∧
          (∀ p ∈ entries, ∀ i, got records i p.1 = ((covering n batches p.2 i).head?).map (converted p.1)) ∧
          ∀ g, g ∉ entries.map Prod.fst → ∀ i, got records i g = none) := by
  have hloop : entries.foldlM (fileField (batches.mapValues fun _ b => b.ported)) start =
      (fieldItems batches entries).foldlM turn start := by
    rw [fieldItems, List.foldlM_map]
    congr 1
    funext records p
    exact fileField_eq records p.1 p.2
  rw [hloop]
  have hfill := fills_each (slotOf n) (fun field r => converted field r.2.2) got
    (fun records => records.length = n ∧ ∀ record ∈ records, record.trackState = none)
    (fun _ xs => ∀ r ∈ xs, r.2.2 ≠ []) turn
    (fun records field xs hxs hI hnone => turn_fills records field hxs hI hnone)
    (fieldItems batches entries) start
    (fun p hp => by
      obtain ⟨q, -, rfl⟩ := List.mem_map.mp hp
      exact fun r hr => (mem_rowsOf hr).1)
    hn (by simpa [fieldItems, Function.comp_def] using hnodup) (fun p _ k => hstart k p.1)
  rw [contested_iff converted] at hfill
  rcases hfill with ⟨hmany, hfail⟩ | ⟨hone, records, hok, hI, hlast, hother⟩
  · exact .inl ⟨hmany, hfail⟩
  · refine .inr ⟨fun hmany => ?_, records, hok, hI, fun p hp i => ?_, fun g hg i => ?_⟩
    · obtain ⟨p, hp, k, htwo⟩ := (contested_iff converted).mpr hmany
      have hle := hone p hp k
      omega
    · have hvalue := hlast (p.1, rowsOf batches p.2) (List.mem_map.mpr ⟨p, hp, rfl⟩) i
      rw [hvalue, covers_map, List.head?_map]
      rfl
    · rw [hother g (by simpa [fieldItems, Function.comp_def] using hg), hstart]

end

/-- A value that `int64_t` holds. -/
def Fits (x : ℚ) : Prop := -(2 ^ 63) ≤ toInt x ∧ toInt x < 2 ^ 63

theorem toInt64_of_fits {x : ℚ} (h : Fits x) : toInt64 x = toInt x := by
  unfold Fits at h
  apply Int.bmod_eq_of_le
  · omega
  · omega

/-- A record whose fields were filled, with its detection's own. -/
theorem finish_eq {row : String → Option (List ℚ)} {record : ObjectRecord String ℚ} (camera : String) (frame : Int)
    (labels : Dict Int String) (d : Detection) (hstate : record.trackState = none)
    (hfits : ∀ name ∈ ["ship_id", "track_id", "global_id"], ∀ r ∈ row name, Fits (firstOf r))
    (h : ∀ field, fieldValue record field = (row (fieldNameOf field)).map (converted field)) :
    finish camera frame labels d record =
      exactRecord labels (detIdOf camera frame d.index) d.toDetection row := by
  have hint : ∀ name ∈ ["ship_id", "track_id", "global_id"], ∀ old : Option Int,
      old.map FieldValue.int = (row name).map (fun r => FieldValue.int (toInt64 (firstOf r))) →
        old = (row name).map fun r => toInt (firstOf r) := by
    intro name hname old heq
    cases hrow : row name with
    | none => simpa [hrow] using heq
    | some r =>
      cases old with
      | none => simp [hrow] at heq
      | some n =>
        have hn : n = toInt64 (firstOf r) := by simpa [hrow] using heq
        rw [hn, toInt64_of_fits (hfits name hname r hrow)]
        rfl
  have hnum : ∀ name, ∀ old : Option ℚ,
      old.map FieldValue.number = (row name).map (fun r => FieldValue.number (firstOf r)) →
        old = (row name).map firstOf := by
    intro name old heq
    cases hrow : row name with
    | none => simpa [hrow] using heq
    | some r =>
      cases old with
      | none => simp [hrow] at heq
      | some x => simpa [hrow] using heq
  have hvector : record.embedding = (row "embedding").getD [] := by
    have heq := h .embedding
    simp only [fieldValue, fieldNameOf] at heq
    cases hrow : row "embedding" with
    | none =>
      rw [hrow] at heq
      simpa using heq
    | some v =>
      rw [hrow] at heq
      split at heq
      · cases heq
      · simpa [converted] using heq
  unfold finish exactRecord
  rw [hvector, hint "ship_id" (by simp) _ (h .shipId), hint "track_id" (by simp) _ (h .trackId),
    hint "global_id" (by simp) _ (h .globalId), hnum _ _ (h .similarity), hnum _ _ (h .maskArea), hstate]
  rfl

/-- The rows of the integer fields hold what `int64_t` holds. -/
def Carried (batches : Dict String Events.ObjectBatch) (fieldMap : Dict String (List String)) : Prop :=
  ∀ p ∈ fieldMap.entries, p.1 ∈ ["ship_id", "track_id", "global_id"] →
    ∀ candidate ∈ p.2, ∀ b ∈ batches.get? candidate, ∀ row ∈ b.data, Fits (firstOf row)

theorem Carried.fits {batches : Dict String Events.ObjectBatch} {fieldMap : Dict String (List String)}
    (h : Carried batches fieldMap) {n i : Nat} :
    ∀ name ∈ ["ship_id", "track_id", "global_id"], ∀ r ∈ fieldRow n batches fieldMap i name, Fits (firstOf r) := by
  intro name hname r hr
  obtain ⟨candidates, hget, hhead⟩ := Option.bind_eq_some_iff.mp hr
  obtain ⟨q, hq, rfl⟩ := List.mem_map.mp (List.mem_of_mem_head? hhead)
  obtain ⟨-, candidate, hc, b, hb, hdata⟩ := mem_rowsOf (List.mem_filter.mp hq).1
  exact h (name, candidates) (Dict.get?_eq_some_iff.mp hget) hname candidate hc b hb _ hdata

theorem buildRecords_exact (camera : String) (frame : Int) (labels : Dict Int String) (detections : List Events.Detection)
    (batches : Dict String Events.ObjectBatch) (fieldMap : Dict String (List String))
    (hknown : ∀ name ∈ fieldMap.keys, (fieldOf name).isSome) (hcarried : Carried batches fieldMap) :
    (Contested detections.length batches fieldMap ∧
        ∃ e, buildRecords camera frame (setDetections detections) (batches.mapValues fun _ b => b.ported) labels fieldMap =
          .error e) ∨
      (¬Contested detections.length batches fieldMap ∧
        buildRecords camera frame (setDetections detections) (batches.mapValues fun _ b => b.ported) labels fieldMap =
          .ok (exactRecords camera frame labels detections batches fieldMap)) := by
  have hsorted := List.mergeSort_perm fieldMap.entries fun p q => decide (p.1 ≤ q.1)
  have hmem : ∀ p, p ∈ fieldMap.entries.mergeSort (fun p q => decide (p.1 ≤ q.1)) ↔ p ∈ fieldMap.entries := fun p =>
    hsorted.mem_iff
  have hfields : ∀ p ∈ fieldMap.entries, fieldNameOf (known p.1) = p.1 := by
    intro p hp
    obtain ⟨field, hfield⟩ := Option.isSome_iff_exists.mp (hknown p.1 (List.mem_map_of_mem hp))
    rw [known, hfield]
    exact fieldNameOf_of_fieldOf hfield
  have hresolved := mapM_resolve (fieldMap.entries.mergeSort fun p q => decide (p.1 ≤ q.1)) fun p hp => hknown p.1 (List.mem_map_of_mem ((hmem p).mp hp))
  have hnodup : (((fieldMap.entries.mergeSort fun p q => decide (p.1 ≤ q.1)).map fun p => (known p.1, p.2)).map
      Prod.fst).Nodup := by
    apply List.Nodup.of_map fieldNameOf
    rw [List.map_map, List.map_map]
    refine ((hsorted.map _).nodup_iff).mpr ?_
    have hnames : fieldMap.entries.map (fun p => fieldNameOf (known p.1)) = fieldMap.entries.map Prod.fst :=
      List.map_congr_left hfields
    show (fieldMap.entries.map fun p => fieldNameOf (known p.1)).Nodup
    rw [hnames]
    exact fieldMap.nodup
  have hfilled := fields_filled batches (n := detections.length) hnodup
    ((setDetections detections).map fun _ => blank)
    ⟨by simp [setDetections], by simp [blank]⟩ (by
      intro i g
      unfold got
      rw [List.getElem?_map]
      cases (setDetections detections)[i]? with
      | none => rfl
      | some d => cases g <;> rfl)
  have hcontested : (∃ p ∈ (fieldMap.entries.mergeSort fun p q => decide (p.1 ≤ q.1)).map (fun p => (known p.1, p.2)),
      ∃ i, 2 ≤ (covering detections.length batches p.2 i).length) ↔ Contested detections.length batches fieldMap := by
    simp only [List.mem_map, exists_exists_and_eq_and, hmem, Contested]
  rw [hcontested] at hfilled
  have hbuild : buildRecords camera frame (setDetections detections) (batches.mapValues fun _ b => b.ported) labels
      fieldMap =
        ((fieldMap.entries.mergeSort fun p q => decide (p.1 ≤ q.1)).map fun p => (known p.1, p.2)).foldlM
            (fileField (batches.mapValues fun _ b => b.ported)) ((setDetections detections).map fun _ => blank) >>=
          fun records => pure (List.zipWith (finish camera frame labels) (setDetections detections) records) := by
    unfold buildRecords
    rw [hresolved]
    rfl
  rw [hbuild]
  rcases hfilled with ⟨hmany, e, he⟩ | ⟨hone, records, hok, ⟨hlen, huntracked⟩, hlast, hother⟩
  · exact .inl ⟨hmany, e, by rw [he]; rfl⟩
  · refine .inr ⟨hone, ?_⟩
    -- every field of every record, whether the map names it or not
    have hvalue : ∀ i g, got records i g =
        (fieldRow detections.length batches fieldMap i (fieldNameOf g)).map (converted g) := by
      intro i g
      cases hget : fieldMap.get? (fieldNameOf g) with
      | none =>
        rw [hother g ?_ i]
        · simp [fieldRow, hget]
        · intro hin
          rw [Dict.get?_eq_none_iff] at hget
          obtain ⟨q, hq, rfl⟩ := List.mem_map.mp hin
          obtain ⟨p, hp, rfl⟩ := List.mem_map.mp hq
          have hentry := (hmem p).mp hp
          rw [hfields p hentry] at hget
          exact hget (List.mem_map_of_mem hentry)
      | some candidates =>
        have hentry := Dict.get?_eq_some_iff.mp hget
        have hknown' : known (fieldNameOf g) = g := by rw [known, fieldOf_fieldNameOf]; rfl
        have hp := hlast (g, candidates) (List.mem_map.mpr ⟨_, (hmem _).mpr hentry, by rw [hknown']⟩) i
        rw [hp]
        simp [fieldRow, hget]
    rw [hok]
    show Except.ok _ = Except.ok _
    congr 1
    apply List.ext_getElem?
    intro i
    unfold exactRecords setDetections
    rw [List.getElem?_zipWith, List.getElem?_map, List.getElem?_map, List.getElem?_zipIdx]
    cases hd : detections[i]? with
    | none => rfl
    | some d =>
      have hlt : i < records.length := by rw [hlen]; exact (List.getElem?_eq_some_iff.mp hd).1
      rw [List.getElem?_eq_getElem hlt]
      simp only [Option.map_some, Nat.zero_add]
      congr 1
      refine finish_eq camera frame labels _ (huntracked _ (List.getElem_mem hlt)) hcarried.fits fun field => ?_
      have hgot := hvalue i field
      rw [got, List.getElem?_eq_getElem hlt, Option.bind_some] at hgot
      exact hgot

end Cpp

/-- **Both planes refuse just a contested detection, and else build the same records.** -/
theorem records_agree (spell : ℚ → String) (camera : String) (frame : Int) (labels : Dict Int String)
    (detections : List Detection) (batches : Dict String ObjectBatch) (fieldMap : Dict String (List String))
    (hknown : ∀ name ∈ fieldMap.keys, (Cpp.fieldOf name).isSome) (hcarried : Cpp.Carried batches fieldMap) :
    let python := buildRecords spell camera frame (detections.map (labelled labels)) batches fieldMap
    let cpp := Cpp.buildRecords camera frame (Cpp.setDetections detections) (batches.mapValues fun _ b => b.ported) labels
      fieldMap
    ((∃ e, python = .error e) ↔ Contested detections.length batches fieldMap) ∧
      ((∃ e, cpp = .error e) ↔ Contested detections.length batches fieldMap) ∧
      (¬Contested detections.length batches fieldMap →
        python = .ok (exactRecords camera frame labels detections batches fieldMap) ∧ cpp = python) := by
  intro python cpp
  rcases buildRecords_exact spell camera frame labels detections batches fieldMap hknown with ⟨hmany, hpy⟩ | ⟨hone, hpy⟩
  · rcases Cpp.buildRecords_exact camera frame labels detections batches fieldMap hknown hcarried with ⟨-, hcpp⟩ | ⟨hone, -⟩
    · exact ⟨⟨fun _ => hmany, fun _ => hpy⟩, ⟨fun _ => hmany, fun _ => hcpp⟩, fun hone => absurd hmany hone⟩
    · exact absurd hmany hone
  · rcases Cpp.buildRecords_exact camera frame labels detections batches fieldMap hknown hcarried with ⟨hmany, -⟩ | ⟨-, hcpp⟩
    · exact absurd hmany hone
    · have hpython : ¬∃ e, python = .error e := by
        rintro ⟨e, he⟩
        rw [show python = _ from hpy] at he
        cases he
      have hcpp' : ¬∃ e, cpp = .error e := by
        rintro ⟨e, he⟩
        rw [show cpp = _ from hcpp] at he
        cases he
      exact ⟨⟨fun h => absurd h hpython, fun h => absurd h hone⟩, ⟨fun h => absurd h hcpp', fun h => absurd h hone⟩,
        fun _ => ⟨hpy, hcpp.trans hpy.symm⟩⟩

/-- Two detections; the ship's embedding and identity from one row each. -/
def quayDetections : List Detection :=
  [⟨0, 9 / 10, (0, 0, 10, 10)⟩, ⟨7, 8 / 10, (5, 5, 20, 20)⟩]

def reidBatch : ObjectBatch where
  objectIndices := [1]
  data := [[1 / 2, 3 / 4]]
  width := 2
  aligned := rfl
  uniform := by decide
  width_pos := by decide

def galleryBatch : ObjectBatch where
  objectIndices := [1, 5]
  data := [[12], [3]]
  width := 1
  aligned := rfl
  uniform := by decide
  width_pos := by decide

def quayBatches : Dict String ObjectBatch := ⟨[("reid", reidBatch), ("gallery", galleryBatch)], by decide⟩

def quayFields : Dict String (List String) := ⟨[("embedding", ["reid", "person_reid"]), ("ship_id", ["gallery"])], by decide⟩

theorem quayBatches_carried : Cpp.Carried quayBatches quayFields := by
  intro p _ _ candidate _ b hb row hrow
  have hmem : b ∈ [reidBatch, galleryBatch] := List.mem_map_of_mem (f := Prod.snd) (Dict.get?_eq_some_iff.mp hb)
  have hall : ∀ b ∈ [reidBatch, galleryBatch], ∀ row ∈ b.data, -(2 ^ 63) ≤ toInt (firstOf row) ∧ toInt (firstOf row) < 2 ^ 63 := by
    decide +kernel
  exact hall b hmem row hrow

theorem quay_records_agree :
    let python := buildRecords (fun _ => "") "quay" 3 (quayDetections.map (labelled .empty)) quayBatches quayFields
    let cpp := Cpp.buildRecords "quay" 3 (Cpp.setDetections quayDetections) (quayBatches.mapValues fun _ b => b.ported) .empty
      quayFields
    ((∃ e, python = .error e) ↔ Contested quayDetections.length quayBatches quayFields) ∧
      ((∃ e, cpp = .error e) ↔ Contested quayDetections.length quayBatches quayFields) ∧
      (¬Contested quayDetections.length quayBatches quayFields →
        python = .ok (exactRecords "quay" 3 .empty quayDetections quayBatches quayFields) ∧ cpp = python) :=
  records_agree (fun _ => "") "quay" 3 .empty quayDetections quayBatches quayFields (by decide) quayBatches_carried

end ShipInfer.Events
