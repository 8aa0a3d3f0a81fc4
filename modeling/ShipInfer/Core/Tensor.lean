import Mathlib.Data.List.Forall2
import Mathlib.Data.List.Sort
import ShipInfer.Lib.Chunks
import ShipInfer.Lib.Dict
import ShipInfer.Lib.Fold

/-!
# Tensors

`core/types`: element types, devices, declared specs, and the tensor with the
two operations batching needs of it, `slice_batch` and `stack_tensors`. A
tensor's bytes are kept in row-major order; its rows are what lies under one
index of the first axis, and a tensor without axes is one row.
-/

namespace ShipInfer

inductive DataType
  | bool
  | uint8
  | int8
  | int32
  | int64
  | fp16
  | fp32
  | fp64
  deriving DecidableEq

def DataType.itemsize : DataType → Nat
  | .bool | .uint8 | .int8 => 1
  | .fp16 => 2
  | .int32 | .fp32 => 4
  | .int64 | .fp64 => 8

theorem DataType.itemsize_pos (d : DataType) : 0 < d.itemsize := by cases d <;> decide

inductive DeviceKind
  | cpu
  | cuda
  deriving DecidableEq

structure Device where
  kind : DeviceKind := .cpu
  index : Int := 0
  deriving DecidableEq

/-- A dimension known only at request time. -/
def dynamic : Int := -1

structure TensorSpec where
  name : String
  dtype : DataType
  /-- Without the batch dimension. -/
  shape : List Int
  optional : Bool := false
  named : name ≠ ""
  extents : ∀ dim ∈ shape, 0 ≤ dim ∨ dim = dynamic
  deriving DecidableEq

def TensorSpec.matches (spec : TensorSpec) (shape : List Nat) : Bool :=
  decide (shape.length = spec.shape.length) &&
    (spec.shape.zip shape).all fun p => decide (p.1 = dynamic) || decide (p.1 = p.2)

def elementCount (shape : List Nat) : Nat := shape.foldr (· * ·) 1

theorem elementCount_cons (d : Nat) (shape : List Nat) : elementCount (d :: shape) = d * elementCount shape := rfl

structure Tensor where
  dtype : DataType
  shape : List Nat
  data : List UInt8
  /-- The device its handle points to; `none` for a host array. -/
  handle : Option Device := none
  sized : data.length = elementCount shape * dtype.itemsize
  deriving DecidableEq

inductive TensorError
  | emptyStack
  | dtypeMismatch (dtype head : DataType)
  | rowShapeMismatch (shape head : List Nat)
  /-- `shape[0]` of a tensor without axes. -/
  | indexError
  | notHostVisible (device : Device)
  | sliceOfDevice
  deriving DecidableEq

/-- What lies under one index of a tensor's first axis. -/
structure Row where
  dtype : DataType
  shape : List Nat
  bytes : List UInt8
  deriving DecidableEq

namespace Tensor

def batchSize (t : Tensor) : Nat :=
  match t.shape with
  | [] => 1
  | n :: _ => n

def rowBytes (t : Tensor) : Nat := elementCount t.shape.tail * t.dtype.itemsize

def rows (t : Tensor) : List Row :=
  (chunks t.rowBytes t.batchSize t.data).map (Row.mk t.dtype t.shape.tail)

@[simp] theorem length_rows (t : Tensor) : t.rows.length = t.batchSize := by simp [rows]

theorem length_data (t : Tensor) : t.data.length = t.batchSize * t.rowBytes := by
  rw [t.sized, batchSize, rowBytes]
  cases t.shape with
  | nil => simp [elementCount]
  | cons n dims => simp only [elementCount_cons, List.tail_cons, Nat.mul_assoc]

theorem length_slice {t : Tensor} {n : Nat} {dims : List Nat} (hs : t.shape = n :: dims) {first count : Nat}
    (h : first + count ≤ n) :
    ((t.data.drop (first * t.rowBytes)).take (count * t.rowBytes)).length =
      elementCount (count :: dims) * t.dtype.itemsize := by
  have hn : t.batchSize = n := by simp only [batchSize, hs]
  have hr : t.rowBytes = elementCount dims * t.dtype.itemsize := by simp only [rowBytes, hs, List.tail_cons]
  have hc : first * t.rowBytes + count * t.rowBytes ≤ n * t.rowBytes := by
    rw [← Nat.add_mul]
    exact Nat.mul_le_mul_right _ h
  rw [List.length_take, List.length_drop, t.length_data, hn, elementCount_cons, Nat.mul_assoc, ← hr]
  omega

/-- The rows `start` up to `stop`, cut off at the tensor's end. -/
def sliceBatch (t : Tensor) (start stop : Nat) : Except TensorError Tensor :=
  match t.handle, hs : t.shape with
  | some _, _ => .error .sliceOfDevice
  | none, [] => .error .indexError
  | none, n :: dims =>
    let first := min start n
    let count := min stop n - first
    .ok
      { dtype := t.dtype
        shape := count :: dims
        data := (t.data.drop (first * t.rowBytes)).take (count * t.rowBytes)
        handle := none
        sized := length_slice hs (by omega) }

/-- What `stack_tensors` checks of a tensor against the first. -/
def stackable (head t : Tensor) : Except TensorError Unit :=
  if t.dtype ≠ head.dtype then .error (.dtypeMismatch t.dtype head.dtype)
  else if t.shape.tail ≠ head.shape.tail then .error (.rowShapeMismatch t.shape.tail head.shape.tail)
  else if t.shape = [] then .error .indexError
  else .ok ()

/-- `numpy()` -/
def numpy (t : Tensor) : Except TensorError (List UInt8) :=
  match t.handle with
  | some device => .error (.notHostVisible device)
  | none => .ok t.data

structure Stackable (head t : Tensor) : Prop where
  dtype : t.dtype = head.dtype
  rowShape : t.shape.tail = head.shape.tail
  axis : t.shape ≠ []

theorem stackable_ok_iff {head t : Tensor} : stackable head t = .ok () ↔ Stackable head t := by
  unfold stackable
  constructor
  · intro h
    split at h
    · cases h
    · split at h
      · cases h
      · split at h
        · cases h
        · rename_i hd hr ha
          exact ⟨not_not.mp hd, not_not.mp hr, ha⟩
  · rintro ⟨hd, hr, ha⟩
    rw [if_neg (not_not.mpr hd), if_neg (not_not.mpr hr), if_neg ha]

theorem Stackable.rowBytes_eq {head t : Tensor} (h : Stackable head t) : t.rowBytes = head.rowBytes := by
  rw [rowBytes, rowBytes, h.dtype, h.rowShape]

/-- `total` -/
def stackedRows (ts : List Tensor) : Nat := ts.foldr (fun t n => t.batchSize + n) 0

theorem length_stacked {head : Tensor} : ∀ {ts : List Tensor}, (∀ t ∈ ts, Stackable head t) →
    (ts.flatMap Tensor.data).length = stackedRows ts * head.rowBytes
  | [], _ => by simp [stackedRows]
  | t :: ts, h => by
    have ht := List.forall_mem_cons.mp h
    rw [List.flatMap_cons, List.length_append, length_stacked ht.2, t.length_data, ht.1.rowBytes_eq, ← Nat.add_mul]
    rfl

end Tensor

/-- `stack_tensors` -/
def stackTensors : List Tensor → Except TensorError Tensor
  | [] => .error .emptyStack
  | [t] => .ok t
  | head :: t :: ts =>
    match h : (head :: t :: ts).forM (Tensor.stackable head) with
    | .error e => .error e
    | .ok () =>
      match (head :: t :: ts).forM fun x => x.numpy.map fun _ => () with
      | .error e => .error e
      | .ok () =>
        .ok
          { dtype := head.dtype
            shape := Tensor.stackedRows (head :: t :: ts) :: head.shape.tail
            data := (head :: t :: ts).flatMap Tensor.data
            handle := none
            sized := by
              rw [elementCount_cons, Nat.mul_assoc]
              exact Tensor.length_stacked fun x hx => Tensor.stackable_ok_iff.mp (forM_ok_iff.mp h x hx) }

/-! ## Rows of a stack and of a slice -/

section
open Tensor

theorem chunks_stacked {head : Tensor} : ∀ {ts : List Tensor}, (∀ t ∈ ts, Stackable head t) →
    (chunks head.rowBytes (stackedRows ts) (ts.flatMap data)).map (Row.mk head.dtype head.shape.tail) = ts.flatMap rows
  | [], _ => by simp [stackedRows, chunks]
  | t :: ts, h => by
    have ht := List.forall_mem_cons.mp h
    have hlen : t.data.length = t.batchSize * head.rowBytes := by rw [t.length_data, ht.1.rowBytes_eq]
    rw [List.flatMap_cons, List.flatMap_cons, ← chunks_stacked ht.2]
    show (chunks head.rowBytes (t.batchSize + stackedRows ts) _).map _ = _
    rw [chunks_append _ _ hlen, List.map_append, rows, ht.1.rowBytes_eq, ht.1.dtype, ht.1.rowShape]

/-- A stack holds the rows of its parts, one part after another. -/
theorem stackTensors_rows {ts : List Tensor} {t : Tensor} (h : stackTensors ts = .ok t) : t.rows = ts.flatMap rows := by
  match ts, h with
  | [x], h =>
    cases h
    simp
  | head :: x :: xs, h =>
    rw [stackTensors] at h
    split at h
    · cases h
    · rename_i hs
      split at h
      · cases h
      · cases h
        exact chunks_stacked fun y hy => stackable_ok_iff.mp (forM_ok_iff.mp hs y hy)

/-- A slice within the tensor holds exactly the rows it names. -/
theorem sliceBatch_rows {t : Tensor} {start stop : Nat} (hh : t.handle = none) (ha : t.shape ≠ []) (h : start ≤ stop)
    (hstop : stop ≤ t.batchSize) :
    ∃ x, t.sliceBatch start stop = .ok x ∧ x.rows = (t.rows.drop start).take (stop - start) := by
  unfold sliceBatch
  split
  · rename_i hd
    rw [hh] at hd
    cases hd
  · exact absurd ‹_› ha
  · rename_i n dims _ hs
    have hn : t.batchSize = n := by simp only [batchSize, hs]
    have hstart : min start n = start := Nat.min_eq_left (by omega)
    have hcount : min stop n = stop := Nat.min_eq_left (by omega)
    refine ⟨_, rfl, ?_⟩
    simp only [rows, rowBytes, batchSize, List.tail_cons, hs, hstart, hcount]
    rw [← List.map_drop, ← List.map_take, slice_chunks _ (by omega)]

end

/-! ## Declared specs -/

inductive What
  | input
  | output
  deriving DecidableEq

inductive ValidateError
  | missing (what : What) (spec : TensorSpec)
  | unexpected (what : What) (name : String) (known : List String)
  | wrongDtype (what : What) (name : String) (dtype declared : DataType)
  | wrongShape (what : What) (name : String) (shape : List Nat) (spec : TensorSpec)
  deriving DecidableEq

/-- `by_name` -/
def specsByName (specs : List TensorSpec) : Dict String TensorSpec :=
  specs.foldl (fun byName spec => byName.set spec.name spec) .empty

def checkPresent (what : What) (tensors : Dict String Tensor) (spec : TensorSpec) : Except ValidateError Unit :=
  if !tensors.contains spec.name && !spec.optional then .error (.missing what spec) else .ok ()

def checkDeclared (what : What) (byName : Dict String TensorSpec) (p : String × Tensor) : Except ValidateError Unit :=
  match byName.get? p.1 with
  | none => .error (.unexpected what p.1 (byName.keys.insertionSort (· ≤ ·)))
  | some spec =>
    if p.2.dtype ≠ spec.dtype then .error (.wrongDtype what p.1 p.2.dtype spec.dtype)
    else if !spec.matches p.2.shape.tail then .error (.wrongShape what p.1 p.2.shape.tail spec)
    else .ok ()

/-- `validate_against` -/
def validateAgainst (tensors : Dict String Tensor) (specs : List TensorSpec) (what : What) : Except ValidateError Unit := do
  (specsByName specs).values.forM (checkPresent what tensors)
  tensors.entries.forM (checkDeclared what (specsByName specs))

theorem validateAgainst_ok_iff {tensors : Dict String Tensor} {specs : List TensorSpec} {what : What} :
    validateAgainst tensors specs what = .ok () ↔
      (∀ spec ∈ (specsByName specs).values, checkPresent what tensors spec = .ok ()) ∧
        ∀ p ∈ tensors.entries, checkDeclared what (specsByName specs) p = .ok () := by
  rw [← forM_ok_iff, ← forM_ok_iff, validateAgainst]
  cases (specsByName specs).values.forM (checkPresent what tensors) with
  | error e => simp [bind, Except.bind]
  | ok u => simp [bind, Except.bind]

theorem keys_specsByName (specs : List TensorSpec) : ∀ name ∈ (specsByName specs).keys, name ∈ specs.map TensorSpec.name := by
  apply foldl_keeps (I := fun byName : Dict String TensorSpec => ∀ name ∈ byName.keys, name ∈ specs.map TensorSpec.name)
  · intro byName spec hspec ih name hname
    rw [Dict.keys_set] at hname
    split at hname
    · exact ih name hname
    · rcases List.mem_append.mp hname with h | h
      · exact ih name h
      · rw [List.mem_singleton.mp h]
        exact List.mem_map_of_mem hspec
  · intro name hname
    cases hname

theorem entries_specsByName (specs : List TensorSpec) :
    ∀ p ∈ (specsByName specs).entries, p.2 ∈ specs ∧ p.2.name = p.1 := by
  apply foldl_keeps (I := fun byName : Dict String TensorSpec => ∀ p ∈ byName.entries, p.2 ∈ specs ∧ p.2.name = p.1)
  · intro byName spec hspec ih p hp
    rcases Dict.mem_set_entries.mp hp with hp | hp
    · rw [hp]
      exact ⟨hspec, rfl⟩
    · exact ih p hp.1
  · intro p hp
    cases hp

theorem mem_keys_specsByName : ∀ {specs : List TensorSpec} {spec : TensorSpec} {byName : Dict String TensorSpec},
    spec ∈ specs ∨ spec.name ∈ byName.keys →
      spec.name ∈ (specs.foldl (fun byName spec => byName.set spec.name spec) byName).keys
  | [], _, _, h => h.resolve_left List.not_mem_nil
  | s :: specs, spec, byName, h => by
    rw [List.foldl_cons]
    apply mem_keys_specsByName
    rcases h with h | h
    · rcases List.mem_cons.mp h with rfl | h
      · exact .inr (Dict.mem_keys_set.mpr (.inl rfl))
      · exact .inl h
    · exact .inr (Dict.mem_keys_set.mpr (.inr h))

/-- Tensors pass the specs that declare each of them as it is and that ask, of what is
missing, for optional ones only. -/
theorem validateAgainst_of {tensors : Dict String Tensor} {specs : List TensorSpec} {what : What}
    (hpresent : ∀ spec ∈ specs, spec.optional = true ∨ spec.name ∈ tensors.keys)
    (hdeclared : ∀ name ∈ tensors.keys, ∃ spec ∈ specs, spec.name = name)
    (htyped : ∀ spec ∈ specs, ∀ p ∈ tensors.entries, p.1 = spec.name →
      p.2.dtype = spec.dtype ∧ spec.matches p.2.shape.tail = true) :
    validateAgainst tensors specs what = .ok () := by
  refine validateAgainst_ok_iff.mpr ⟨fun spec hspec => ?_, fun p hp => ?_⟩
  · obtain ⟨q, hq, rfl⟩ := List.mem_map.mp hspec
    unfold checkPresent
    rcases hpresent q.2 (entries_specsByName specs q hq).1 with h | h
    · simp [h]
    · simp [Dict.contains_iff.mpr h]
  · obtain ⟨spec, hspec, hname⟩ := hdeclared p.1 (Dict.mem_keys_of_mem hp)
    have hkey : p.1 ∈ (specsByName specs).keys := hname ▸ mem_keys_specsByName (.inl hspec)
    obtain ⟨found, hfound⟩ := Dict.exists_of_mem_keys hkey
    obtain ⟨hmem, hnamed⟩ := entries_specsByName specs _ hfound
    obtain ⟨hdtype, hshape⟩ := htyped found hmem p hp hnamed.symm
    unfold checkDeclared
    rw [Dict.get?_eq_some_iff.mpr hfound]
    simp [hdtype, hshape]

/-- What passes has declared names only. -/
theorem declared_of_valid {tensors : Dict String Tensor} {specs : List TensorSpec} {what : What}
    (h : validateAgainst tensors specs what = .ok ()) : ∀ name ∈ tensors.keys, name ∈ specs.map TensorSpec.name := by
  intro name hname
  obtain ⟨t, ht⟩ := Dict.exists_of_mem_keys hname
  have hd := (validateAgainst_ok_iff.mp h).2 (name, t) ht
  apply keys_specsByName
  by_contra hk
  rw [checkDeclared, Dict.get?_eq_none_iff.mpr hk] at hd
  cases hd

end ShipInfer
