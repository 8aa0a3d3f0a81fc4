import ShipInfer.Spill.Wire

/-!
# What the decoders refuse

Decoding scans the tensors' heads and then their bytes, and stops at the first that
is wrong. Some of what can be wrong is looked for and raised as a `RingProtocolError`;
the rest is left to `struct`, to `reshape` and to the enumerations, which raise errors
of their own. So what a slot raises depends on which kind of flaw comes first.
-/

namespace ShipInfer.Spill.Wire

/-- The kinds that are raised as `RingProtocolError`. -/
def WireError.IsProtocol : WireError → Prop
  | .noHead _ | .notAVersion .. | .unknownDtype .. | .pastSlot .. => True
  | _ => False

/-! ## Scans -/

/-- Of the first `n`, the first that is not `sound` is `told`. -/
def FirstFlaw (n : Nat) (sound told : Nat → Prop) : Prop := ∀ i < n, (∀ j < i, sound j) → ¬sound i → told i

theorem forall_lt_succ {p : Nat → Prop} {n : Nat} : (∀ i < n + 1, p i) ↔ p 0 ∧ ∀ i < n, p (i + 1) := by
  constructor
  · exact fun h => ⟨h 0 (by omega), fun i hi => h (i + 1) (by omega)⟩
  · rintro ⟨h, hs⟩ i hi
    cases i with
    | zero => exact h
    | succ i => exact hs i (by omega)

theorem firstFlaw_congr {n : Nat} {sound sound' told told' : Nat → Prop} (hsound : ∀ i < n, sound i ↔ sound' i)
    (htold : ∀ i < n, told i ↔ told' i) : FirstFlaw n sound told ↔ FirstFlaw n sound' told' := by
  refine forall_congr' fun i => forall_congr' fun hi => ?_
  have hbefore : (∀ j < i, sound j) ↔ ∀ j < i, sound' j :=
    forall_congr' fun j => forall_congr' fun hj => hsound j (hj.trans hi)
  rw [hbefore, hsound i hi, htold i hi]

theorem firstFlaw_succ {n : Nat} {sound told : Nat → Prop} : FirstFlaw (n + 1) sound told ↔
    (¬sound 0 → told 0) ∧ (sound 0 → FirstFlaw n (fun i => sound (i + 1)) fun i => told (i + 1)) := by
  unfold FirstFlaw
  rw [forall_lt_succ]
  refine and_congr ⟨fun h => h (by simp), fun h _ => h⟩ ⟨fun h hzero i hi hj => ?_, fun h i hi hj => ?_⟩
  · exact h i hi (forall_lt_succ.mpr ⟨hzero, hj⟩)
  · obtain ⟨hzero, hj⟩ := forall_lt_succ.mp hj
    exact h hzero i hi hj

section
variable (view : List UInt8) (start count : Nat)

/-- The `i`-th tensor head, where the first lies at `start`. -/
def fieldsAt (i : Nat) : TensorFields :=
  tensorHead.unpack ((view.drop (start + i * tensorHead.width)).take tensorHead.width)

def Fits (i : Nat) : Prop := start + (i + 1) * tensorHead.width ≤ view.length

def Known (i : Nat) : Prop := dtypeOfCode (fieldsAt view start i).dtype ≠ none

/-- Where the bytes of the `i`-th tensor begin. -/
def dataAt (i : Nat) : Nat :=
  start + count * tensorHead.width + ((List.range i).map fun j => (fieldsAt view start j).nbytes).sum

def Inside (i : Nat) : Prop := dataAt view start count (i + 1) ≤ view.length

/-- The bytes that a head promises make up its shape. -/
def Shaped (f : TensorFields) : Prop :=
  ∃ dtype, dtypeOfCode f.dtype = some dtype ∧ MakesUp dtype (f.dims.take f.ndim) f.nbytes

/-- All of the tensors can be read. -/
def Legible : Prop :=
  (∀ i < count, Fits view start i ∧ Known view start i) ∧
    ∀ i < count, Inside view start count i ∧ Shaped (fieldsAt view start i)

/-- What is wrong first is a dtype code or bytes past the slot, if anything is. -/
structure FlawChecked : Prop where
  heads : FirstFlaw count (fun i => Fits view start i ∧ Known view start i) (Fits view start)
  data : (∀ i < count, Fits view start i ∧ Known view start i) →
    FirstFlaw count (fun i => Inside view start count i ∧ Shaped (fieldsAt view start i))
      fun i => ¬Inside view start count i

end

/-- Each tensor is a copy of bytes that lie in the view. -/
def Within (view : List UInt8) (tensors : Dict String Tensor) : Prop :=
  ∀ p ∈ tensors.entries, ∃ offset, offset + p.2.data.length ≤ view.length ∧
    p.2.data = (view.drop offset).take p.2.data.length

section
variable {view : List UInt8}

theorem fieldsAt_succ {start i : Nat} : fieldsAt view (start + tensorHead.width) i = fieldsAt view start (i + 1) := by
  unfold fieldsAt
  rw [Nat.succ_mul, Nat.add_assoc, Nat.add_comm tensorHead.width]

theorem fits_succ {start i : Nat} : Fits view (start + tensorHead.width) i ↔ Fits view start (i + 1) := by
  unfold Fits
  rw [Nat.succ_mul (i + 1), Nat.add_assoc, Nat.add_comm tensorHead.width]

theorem known_succ {start i : Nat} : Known view (start + tensorHead.width) i ↔ Known view start (i + 1) := by
  rw [Known, fieldsAt_succ, Known]

/-- The head of a tensor whose dtype code is known. -/
def headOf (f : TensorFields) (dtype : DataType) : TensorHead :=
  { name := unfixed f.name, dtype, shape := f.dims.take f.ndim, nbytes := f.nbytes }

/-- What a tensor head that is known comes out as. -/
def Unpacks (view : List UInt8) (start i : Nat) (head : TensorHead) : Prop :=
  ∃ dtype, dtypeOfCode (fieldsAt view start i).dtype = some dtype ∧ head = headOf (fieldsAt view start i) dtype

theorem read_fieldsAt {start : Nat} (h : Fits view start 0) :
    tensorHead.read (view.drop start) = some (fieldsAt view start 0) := by
  unfold Fits at h
  have hlong : ¬(view.drop start).length < tensorHead.width := by
    rw [List.length_drop]
    omega
  rw [Layout.read, if_neg hlong, fieldsAt, Nat.zero_mul, Nat.add_zero]

theorem unpackTensorHead_short {start : Nat} (h : ¬Fits view start 0) :
    unpackTensorHead view start = .error .format := by
  unfold Fits at h
  have hshort : (view.drop start).length < tensorHead.width := by
    rw [List.length_drop]
    have : 0 < tensorHead.width := by decide
    omega
  rw [unpackTensorHead, Layout.read, if_pos hshort]
  rfl

theorem unpackTensorHead_unknown {start : Nat} (h : Fits view start 0) (hknown : ¬Known view start 0) :
    ∃ name code, unpackTensorHead view start = .error (.unknownDtype name code) := by
  unfold Known at hknown
  rw [not_not] at hknown
  refine ⟨unfixed (fieldsAt view start 0).name, (fieldsAt view start 0).dtype, ?_⟩
  rw [unpackTensorHead, read_fieldsAt h]
  simp only [orFormat, bind, Except.bind, hknown]

theorem unpackTensorHead_known {start : Nat} {dtype : DataType} (h : Fits view start 0)
    (hknown : dtypeOfCode (fieldsAt view start 0).dtype = some dtype) :
    unpackTensorHead view start = .ok (headOf (fieldsAt view start 0) dtype) := by
  rw [unpackTensorHead, read_fieldsAt h]
  simp only [orFormat, bind, Except.bind, hknown]
  rfl

/-- The heads come out one for each that fits and is known. -/
theorem readHeads_sound : ∀ {count start : Nat}, (∀ i < count, Fits view start i ∧ Known view start i) →
    ∃ heads, readHeads view count start = .ok (heads, start + count * tensorHead.width) ∧
      List.Forall₂ (Unpacks view start) (List.range count) heads
  | 0, start, _ => ⟨[], by simp [readHeads], .nil⟩
  | count + 1, start, h => by
    obtain ⟨⟨hfits, hknown⟩, hrest⟩ := forall_lt_succ.mp h
    obtain ⟨dtype, hdtype⟩ := Option.ne_none_iff_exists'.mp hknown
    obtain ⟨heads, hread, hall⟩ := @readHeads_sound count (start + tensorHead.width)
      fun i hi => ⟨fits_succ.mpr (hrest i hi).1, known_succ.mpr (hrest i hi).2⟩
    refine ⟨headOf (fieldsAt view start 0) dtype :: heads, ?_, ?_⟩
    · rw [readHeads, unpackTensorHead_known hfits hdtype]
      simp only [bind, Except.bind, hread]
      rw [Nat.succ_mul, Nat.add_assoc, Nat.add_comm tensorHead.width]
    · rw [List.range_succ_eq_map]
      refine .cons ⟨dtype, hdtype, rfl⟩ (List.forall₂_map_left_iff.mpr ?_)
      refine hall.imp fun i head => ?_
      rw [Unpacks, fieldsAt_succ]
      exact id

theorem readHeads_flawed : ∀ {count start : Nat}, (¬∀ i < count, Fits view start i ∧ Known view start i) →
    ∃ e, readHeads view count start = .error e ∧
      (e.IsProtocol ↔ FirstFlaw count (fun i => Fits view start i ∧ Known view start i) (Fits view start))
  | 0, start, h => absurd (fun i hi => absurd hi (Nat.not_lt_zero i)) h
  | count + 1, start, h => by
    rw [firstFlaw_succ]
    by_cases hfits : Fits view start 0
    · by_cases hknown : Known view start 0
      · obtain ⟨dtype, hdtype⟩ := Option.ne_none_iff_exists'.mp hknown
        have hrest : ¬∀ i < count,
            Fits view (start + tensorHead.width) i ∧ Known view (start + tensorHead.width) i := by
          intro hall
          refine h (forall_lt_succ.mpr ⟨⟨hfits, hknown⟩, fun i hi => ?_⟩)
          exact ⟨fits_succ.mp (hall i hi).1, known_succ.mp (hall i hi).2⟩
        obtain ⟨e, hread, he⟩ := readHeads_flawed hrest
        refine ⟨e, ?_, ?_⟩
        · rw [readHeads, unpackTensorHead_known hfits hdtype]
          simp only [bind, Except.bind, hread]
        · have hshift : Fits view (start + tensorHead.width) = fun i => Fits view start (i + 1) :=
            funext fun i => propext fits_succ
          simp only [hshift, known_succ] at he
          exact ⟨fun hp => ⟨fun hflaw => absurd ⟨hfits, hknown⟩ hflaw, fun _ => he.mp hp⟩,
            fun hfirst => he.mpr (hfirst.2 ⟨hfits, hknown⟩)⟩
      · obtain ⟨name, code, hread⟩ := unpackTensorHead_unknown hfits hknown
        refine ⟨_, by rw [readHeads, hread]; rfl, ?_⟩
        simp [WireError.IsProtocol, hfits, hknown]
    · refine ⟨_, by rw [readHeads, unpackTensorHead_short hfits]; rfl, ?_⟩
      simp [WireError.IsProtocol, hfits]

/-- The bytes of the first tensors that the heads tell of. -/
def promised (heads : List TensorHead) (i : Nat) : Nat := ((heads.take i).map TensorHead.nbytes).sum

theorem promised_succ {head : TensorHead} {heads : List TensorHead} {i : Nat} :
    promised (head :: heads) (i + 1) = head.nbytes + promised heads i := rfl

theorem Within.set {out : Dict String Tensor} (h : Within view out) {name : String} {tensor : Tensor} {offset n : Nat}
    (hn : offset + n ≤ view.length) (hdata : tensor.data = (view.drop offset).take n) :
    Within view (out.set name tensor) := by
  intro p hp
  rcases Dict.mem_set_entries.mp hp with rfl | ⟨hp, -⟩
  · have hlen : tensor.data.length = n := by
      rw [hdata, List.length_take, List.length_drop]
      omega
    refine ⟨offset, ?_, ?_⟩
    · rw [hlen]
      exact hn
    · rw [hlen]
      exact hdata
  · exact h p hp

theorem tensorOf_eq {head : TensorHead} {offset : Nat} (hinside : offset + head.nbytes ≤ view.length) :
    (MakesUp head.dtype head.shape head.nbytes →
      ∃ tensor, tensorOf head ((view.drop offset).take head.nbytes) = .ok tensor ∧
        tensor.data = (view.drop offset).take head.nbytes) ∧
    (¬MakesUp head.dtype head.shape head.nbytes → tensorOf head ((view.drop offset).take head.nbytes) =
      .error (.notTheShape head.name)) := by
  have hlen : ((view.drop offset).take head.nbytes).length = head.nbytes := by
    rw [List.length_take, List.length_drop]
    omega
  unfold tensorOf
  constructor
  · intro h
    rw [dif_pos (hlen.symm ▸ h)]
    exact ⟨_, rfl, rfl⟩
  · intro h
    rw [dif_neg (hlen.symm ▸ h)]

theorem readData_sound : ∀ {heads : List TensorHead} {offset : Nat} {out : Dict String Tensor},
    (∀ i < heads.length, offset + promised heads (i + 1) ≤ view.length) →
    (∀ head ∈ heads, MakesUp head.dtype head.shape head.nbytes) → Within view out →
    ∃ out', readData view heads offset out = .ok out' ∧ Within view out'
  | [], _, out, _, _, hout => ⟨out, rfl, hout⟩
  | head :: heads, offset, out, hinside, hshaped, hout => by
    obtain ⟨hfirst, hrest⟩ := forall_lt_succ.mp hinside
    have hfirst : offset + head.nbytes ≤ view.length := by simpa [promised] using hfirst
    obtain ⟨tensor, htensor, hdata⟩ := (tensorOf_eq hfirst).1 (hshaped head List.mem_cons_self)
    rw [readData, if_neg (by omega), htensor]
    refine readData_sound (fun i hi => ?_) (fun h hh => hshaped h (List.mem_cons_of_mem _ hh)) (hout.set hfirst hdata)
    have hle := hrest i hi
    rw [promised_succ] at hle
    omega

theorem readData_flawed : ∀ {heads : List TensorHead} {offset : Nat} {out : Dict String Tensor}
    {inside shaped : Nat → Prop},
    (∀ i, inside i ↔ offset + promised heads (i + 1) ≤ view.length) →
    List.Forall₂ (fun i head => shaped i ↔ MakesUp head.dtype head.shape head.nbytes) (List.range heads.length) heads →
    (¬∀ i < heads.length, inside i ∧ shaped i) →
    ∃ e, readData view heads offset out = .error e ∧
      (e.IsProtocol ↔ FirstFlaw heads.length (fun i => inside i ∧ shaped i) fun i => ¬inside i)
  | [], _, _, _, _, _, _, h => absurd (fun i hi => absurd hi (Nat.not_lt_zero i)) h
  | head :: heads, offset, out, inside, shaped, hinside, hshaped, h => by
    rw [List.length_cons, List.range_succ_eq_map] at hshaped
    obtain ⟨hhead, hshaped⟩ := List.forall₂_cons.mp hshaped
    rw [List.forall₂_map_left_iff] at hshaped
    have hfirst : inside 0 ↔ offset + head.nbytes ≤ view.length := by
      rw [hinside 0]
      simp [promised]
    rw [List.length_cons, firstFlaw_succ]
    by_cases hin : inside 0
    · have hlong := hfirst.mp hin
      by_cases hsh : shaped 0
      · obtain ⟨tensor, htensor, -⟩ := (tensorOf_eq hlong).1 (hhead.mp hsh)
        have hnext (i : Nat) : inside (i + 1) ↔ offset + head.nbytes + promised heads (i + 1) ≤ view.length := by
          rw [hinside, promised_succ, Nat.add_assoc]
        have hrest : ¬∀ i < heads.length, inside (i + 1) ∧ shaped (i + 1) := fun hall =>
          h (forall_lt_succ.mpr ⟨⟨hin, hsh⟩, hall⟩)
        obtain ⟨e, hread, he⟩ := @readData_flawed _ _ (out.set head.name tensor) _ _ hnext hshaped hrest
        refine ⟨e, ?_, ?_⟩
        · rw [readData, if_neg (by omega), htensor]
          exact hread
        · exact ⟨fun hp => ⟨fun hflaw => absurd ⟨hin, hsh⟩ hflaw, fun _ => he.mp hp⟩,
            fun hflaw => he.mpr (hflaw.2 ⟨hin, hsh⟩)⟩
      · refine ⟨.notTheShape head.name, ?_, ?_⟩
        · rw [readData, if_neg (by omega), (tensorOf_eq hlong).2 fun hmake => hsh (hhead.mpr hmake)]
          rfl
        · simp [WireError.IsProtocol, hin, hsh]
    · rw [hfirst] at hin
      refine ⟨.pastSlot head.name (offset + head.nbytes) view.length, by rw [readData, if_pos (by omega)], ?_⟩
      simp [WireError.IsProtocol, hfirst, hin]

/-! ## The tensors of a slot -/

section
variable {start count : Nat} {heads : List TensorHead}

theorem promised_eq (hall : List.Forall₂ (Unpacks view start) (List.range count) heads) (i : Nat) :
    promised heads i = ((List.range (min i count)).map fun j => (fieldsAt view start j).nbytes).sum := by
  have hbytes : heads.map TensorHead.nbytes = (List.range count).map fun j => (fieldsAt view start j).nbytes := by
    have hforall : List.Forall₂ (fun n m => n = m) (heads.map TensorHead.nbytes)
        ((List.range count).map fun j => (fieldsAt view start j).nbytes) := by
      refine List.forall₂_map_left_iff.mpr (List.forall₂_map_right_iff.mpr (hall.flip.imp fun head i => ?_))
      rintro ⟨dtype, -, rfl⟩
      rfl
    exact List.forall₂_eq_eq_eq ▸ hforall
  rw [promised, List.map_take, hbytes, ← List.map_take, List.take_range]

theorem inside_iff (hall : List.Forall₂ (Unpacks view start) (List.range count) heads) {i : Nat} (hi : i < count) :
    Inside view start count i ↔ start + count * tensorHead.width + promised heads (i + 1) ≤ view.length := by
  rw [promised_eq hall, Nat.min_eq_left hi, Inside, dataAt]

theorem shaped_iff {i : Nat} {dtype : DataType} (h : dtypeOfCode (fieldsAt view start i).dtype = some dtype) :
    Shaped (fieldsAt view start i) ↔
      MakesUp dtype (headOf (fieldsAt view start i) dtype).shape (headOf (fieldsAt view start i) dtype).nbytes := by
  constructor
  · rintro ⟨dtype', h', hmake⟩
    obtain rfl : dtype' = dtype := Option.some.inj (h'.symm.trans h)
    exact hmake
  · exact fun hmake => ⟨dtype, h, hmake⟩

/-- The tensors of a slot are read, all from inside it, exactly when they can be. -/
theorem readTensors_legible (h : Legible view start count) :
    ∃ tensors, readTensors view start count = .ok tensors ∧ Within view tensors := by
  obtain ⟨heads, hread, hall⟩ := readHeads_sound h.1
  have hlength : heads.length = count := by
    rw [← hall.length_eq, List.length_range]
  have hinside : ∀ i < heads.length, start + count * tensorHead.width + promised heads (i + 1) ≤ view.length := by
    intro i hi
    rw [hlength] at hi
    exact (inside_iff hall hi).mp (h.2 i hi).1
  have hshaped : ∀ head ∈ heads, MakesUp head.dtype head.shape head.nbytes := by
    intro head hmem
    obtain ⟨i, hi, rfl⟩ := List.getElem_of_mem hmem
    have hone := (List.forall₂_iff_get.mp hall).2 i (by simpa using hlength ▸ hi) hi
    obtain ⟨dtype, hdtype, heq⟩ := hone
    rw [List.get_eq_getElem, List.get_eq_getElem, List.getElem_range] at *
    rw [heq]
    exact (shaped_iff hdtype).mp (h.2 i (hlength ▸ hi)).2
  obtain ⟨tensors, htensors, hwithin⟩ := @readData_sound _ _ _ .empty hinside hshaped (by simp [Within, Dict.empty])
  refine ⟨tensors, ?_, hwithin⟩
  rw [readTensors, hread]
  exact htensors

theorem readTensors_illegible (h : ¬Legible view start count) :
    ∃ e, readTensors view start count = .error e ∧ (e.IsProtocol ↔ FlawChecked view start count) := by
  by_cases hheads : ∀ i < count, Fits view start i ∧ Known view start i
  · obtain ⟨heads, hread, hall⟩ := readHeads_sound hheads
    have hlength : heads.length = count := by
      rw [← hall.length_eq, List.length_range]
    have hshaped : List.Forall₂
        (fun i head => Shaped (fieldsAt view start i) ↔ MakesUp head.dtype head.shape head.nbytes)
        (List.range heads.length) heads := by
      rw [hlength]
      refine hall.imp fun i head => ?_
      rintro ⟨dtype, hdtype, rfl⟩
      exact shaped_iff hdtype
    have hinside (i : Nat) (hi : i < count) := inside_iff hall hi
    have hflawed : ¬∀ i < heads.length, start + count * tensorHead.width + promised heads (i + 1) ≤ view.length ∧
        Shaped (fieldsAt view start i) := by
      intro hdata
      rw [hlength] at hdata
      exact h ⟨hheads, fun i hi => ⟨(hinside i hi).mpr (hdata i hi).1, (hdata i hi).2⟩⟩
    obtain ⟨e, herror, he⟩ := @readData_flawed _ _ _ .empty _ _ (fun i => Iff.rfl) hshaped hflawed
    refine ⟨e, ?_, ?_⟩
    · rw [readTensors, hread]
      exact herror
    · have hfirst := firstFlaw_congr (n := count)
        (fun i hi => and_congr (hinside i hi).symm (Iff.refl (Shaped (fieldsAt view start i))))
        fun i hi => not_congr (hinside i hi).symm
      rw [hlength, hfirst] at he
      have hnone : FirstFlaw count (fun i => Fits view start i ∧ Known view start i) (Fits view start) :=
        fun i hi _ hflaw => absurd (hheads i hi) hflaw
      exact he.trans ⟨fun hdata => ⟨hnone, fun _ => hdata⟩, fun hchecked => hchecked.data hheads⟩
  · obtain ⟨e, hread, he⟩ := readHeads_flawed hheads
    refine ⟨e, ?_, he.trans ⟨fun hfirst => ⟨hfirst, fun hall => absurd hall hheads⟩, FlawChecked.heads⟩⟩
    rw [readTensors, hread]
    rfl

end

end

/-! ## Requests and responses -/

theorem readTensors_ok_iff {view : List UInt8} {start count : Nat} :
    (∃ tensors, readTensors view start count = .ok tensors) ↔ Legible view start count := by
  constructor
  · rintro ⟨tensors, htensors⟩
    by_contra h
    obtain ⟨e, he, -⟩ := readTensors_illegible h
    rw [htensors] at he
    cases he
  · intro h
    obtain ⟨tensors, htensors, -⟩ := readTensors_legible h
    exact ⟨tensors, htensors⟩

theorem FlawChecked.of_legible {view : List UInt8} {start count : Nat} (h : Legible view start count) :
    FlawChecked view start count :=
  ⟨fun i hi _ hflaw => absurd (h.1 i hi) hflaw, fun _ i hi _ hflaw => absurd (h.2 i hi) hflaw⟩

theorem read_long {α : Type} {f : Layout α} {view : List UInt8} (h : ¬view.length < f.width) :
    f.read view = some (f.unpack (view.take f.width)) := if_neg h

theorem priorityOf_iff {level : Int} : (∃ p, priorityOf level = some p) ↔ 0 ≤ level ∧ level < 4 := by
  constructor
  · rintro ⟨p, hp⟩
    unfold priorityOf at hp
    split at hp <;> simp_all
  · rintro ⟨hlo, hhi⟩
    obtain rfl | rfl | rfl | rfl : level = 0 ∨ level = 1 ∨ level = 2 ∨ level = 3 := by omega
    all_goals exact ⟨_, rfl⟩

/-- What `decode_request` is to do with a slot: read it, from inside it, or raise a `RingProtocolError`. -/
def RequestTold (view : List UInt8) : Prop :=
  (∃ request f, decodeRequest view = .ok request ∧ requestHead.read view = some f ∧
    (∀ i < f.tensors, Fits view requestHead.width i) ∧ Within view request.inputs) ∨
  ∃ e, decodeRequest view = .error e ∧ e.IsProtocol

/-- Likewise `decode_response`, which tells of a failure too. -/
def ResponseTold (view : List UInt8) (context : RequestContext) : Prop :=
  (∃ response f, decodeResponse view context = .ok response ∧ responseHead.read view = some f ∧
    (∀ i < f.tensors, Fits view responseHead.width i) ∧ Within view response.outputs) ∨
  (∃ e, decodeResponse view context = .error e ∧ e.IsProtocol) ∨
  ∃ f message, responseHead.read view = some f ∧ f.status ≠ statusOk ∧
    decodeResponse view context = .error (.remoteFailure message f.status)

/-- Behind a good head the first flaw is one that is looked for, and where there is none the priority has a name. -/
def RequestChecked (view : List UInt8) : Prop :=
  ∀ f, requestHead.read view = some f → f.magic = magicRequest → f.version = wireVersion →
    FlawChecked view requestHead.width f.tensors ∧
      (Legible view requestHead.width f.tensors → 0 ≤ f.priority ∧ f.priority < 4)

/-- The same, for a reply without a failure, of the device. -/
def ResponseChecked (view : List UInt8) : Prop :=
  ∀ f, responseHead.read view = some f → f.magic = magicResponse → f.version = wireVersion → f.status = statusOk →
    FlawChecked view responseHead.width f.tensors ∧
      (Legible view responseHead.width f.tensors → ∃ device, parseDevice (unfixed f.executedOn) = .ok device)

theorem request_told_iff (view : List UInt8) : RequestTold view ↔ RequestChecked view := by
  unfold RequestTold RequestChecked decodeRequest
  by_cases hshort : view.length < requestHead.width
  · simp [hshort, Layout.read, WireError.IsProtocol]
  rw [if_neg hshort, read_long hshort]
  generalize requestHead.unpack (view.take requestHead.width) = f
  by_cases hhead : f.magic ≠ magicRequest ∨ f.version ≠ wireVersion
  · constructor
    · intro _ f' hf hmagic hversion
      obtain rfl := Option.some.inj hf
      exact (hhead.elim (· hmagic) (· hversion)).elim
    · intro _
      refine .inr ⟨.notAVersion f.magic f.version, ?_, trivial⟩
      simp only [orFormat, bind, Except.bind, if_pos hhead]
  obtain ⟨hmagic, hversion⟩ := not_or.mp hhead
  rw [not_not] at hmagic hversion
  simp only [orFormat, bind, Except.bind, if_neg hhead]
  by_cases hlegible : Legible view requestHead.width f.tensors
  · obtain ⟨inputs, hinputs, hwithin⟩ := readTensors_legible hlegible
    rw [hinputs]
    cases hpriority : priorityOf f.priority with
    | none =>
      have hlevel : ¬(0 ≤ f.priority ∧ f.priority < 4) := by
        rw [← priorityOf_iff, hpriority]
        simp
      constructor
      · rintro (⟨request, -, hok, -⟩ | ⟨e, herror, he⟩)
        · cases hok
        · cases herror
          exact he.elim
      · exact fun h => absurd ((h f rfl hmagic hversion).2 hlegible) hlevel
    | some priority =>
      have hlevel := priorityOf_iff.mp ⟨priority, hpriority⟩
      constructor
      · intro _ f' hf _ _
        obtain rfl := Option.some.inj hf
        exact ⟨.of_legible hlegible, fun _ => hlevel⟩
      · exact fun _ => .inl ⟨_, f, rfl, rfl, fun i hi => (hlegible.1 i hi).1, hwithin⟩
  · obtain ⟨e, herror, he⟩ := readTensors_illegible hlegible
    rw [herror]
    constructor
    · rintro (⟨request, -, hok, -⟩ | ⟨e', herror', he'⟩)
      · cases hok
      · cases herror'
        intro f' hf _ _
        obtain rfl := Option.some.inj hf
        exact ⟨he.mp he', fun h => absurd h hlegible⟩
    · exact fun h => .inr ⟨e, rfl, he.mpr (h f rfl hmagic hversion).1⟩

theorem response_told_iff (view : List UInt8) (context : RequestContext) :
    ResponseTold view context ↔ ResponseChecked view := by
  unfold ResponseTold ResponseChecked decodeResponse
  by_cases hshort : view.length < responseHead.width
  · simp [hshort, Layout.read, WireError.IsProtocol]
  rw [if_neg hshort, read_long hshort]
  generalize responseHead.unpack (view.take responseHead.width) = f
  by_cases hhead : f.magic ≠ magicResponse ∨ f.version ≠ wireVersion
  · constructor
    · intro _ f' hf hmagic hversion
      obtain rfl := Option.some.inj hf
      exact (hhead.elim (· hmagic) (· hversion)).elim
    · intro _
      refine .inr (.inl ⟨.notAVersion f.magic f.version, ?_, trivial⟩)
      simp only [orFormat, bind, Except.bind, if_pos hhead]
  obtain ⟨hmagic, hversion⟩ := not_or.mp hhead
  rw [not_not] at hmagic hversion
  simp only [orFormat, bind, Except.bind, if_neg hhead]
  by_cases hstatus : f.status ≠ statusOk
  · rw [if_pos hstatus]
    constructor
    · intro _ f' hf _ _ hok
      obtain rfl := Option.some.inj hf
      exact absurd hok hstatus
    · exact fun _ => .inr (.inr ⟨f, _, rfl, hstatus, rfl⟩)
  rw [if_neg hstatus]
  rw [not_not] at hstatus
  by_cases hlegible : Legible view responseHead.width f.tensors
  · obtain ⟨outputs, houtputs, hwithin⟩ := readTensors_legible hlegible
    rw [houtputs]
    cases hdevice : parseDevice (unfixed f.executedOn) with
    | error e =>
      have hkind : ¬e.IsProtocol ∧ ∀ message code, e ≠ .remoteFailure message code := by
        have hno : e = .noDevice (unfixed f.executedOn) := by
          unfold parseDevice at hdevice
          dsimp only at hdevice
          repeat' split at hdevice
          all_goals first | cases hdevice; rfl | cases hdevice
        rw [hno]
        exact ⟨id, by simp⟩
      constructor
      · rintro (⟨response, -, hok, -⟩ | ⟨e', herror, he⟩ | ⟨f', message, -, -, herror⟩)
        · cases hok
        · cases herror
          exact absurd he hkind.1
        · cases herror
          exact absurd rfl (hkind.2 _ _)
      · intro h
        obtain ⟨device, hok⟩ := (h f rfl hmagic hversion hstatus).2 hlegible
        rw [hdevice] at hok
        cases hok
    | ok device =>
      constructor
      · intro _ f' hf _ _ _
        obtain rfl := Option.some.inj hf
        exact ⟨.of_legible hlegible, fun _ => ⟨device, hdevice⟩⟩
      · exact fun _ => .inl ⟨_, f, rfl, rfl, fun i hi => (hlegible.1 i hi).1, hwithin⟩
  · obtain ⟨e, herror, he⟩ := readTensors_illegible hlegible
    rw [herror]
    constructor
    · rintro (⟨response, -, hok, -⟩ | ⟨e', herror', he'⟩ | ⟨f', message, hf', hfailed, herror'⟩)
      · cases hok
      · cases herror'
        intro f' hf _ _ _
        obtain rfl := Option.some.inj hf
        exact ⟨he.mp he', fun h => absurd h hlegible⟩
      · obtain rfl := Option.some.inj hf'
        exact absurd hstatus hfailed
    · exact fun h => .inr (.inl ⟨e, rfl, he.mpr (h f rfl hmagic hversion hstatus).1⟩)

/-- **What the decoders raise.** A slot is read from inside it or refused as the protocol says exactly when what
is wrong with it first is looked for. -/
theorem told_iff_checked (view : List UInt8) (context : RequestContext) :
    (RequestTold view ↔ RequestChecked view) ∧ (ResponseTold view context ↔ ResponseChecked view) :=
  ⟨request_told_iff view, response_told_iff view context⟩

/-- A slot cut off behind the head of a request of one tensor. -/
def cutOff : List UInt8 := leBytes 4 magicRequest ++ leBytes 4 wireVersion ++ List.replicate 20 0 ++ leBytes 4 1 ++
  List.replicate 240 0

theorem cutOff_format : ¬∀ view context, RequestTold view ∧ ResponseTold view context := by
  intro h
  have herror : decodeRequest cutOff = .error .format := by decide +kernel
  rcases (h cutOff {}).1 with ⟨request, -, hok, -⟩ | ⟨e, he, hprotocol⟩
  · rw [herror] at hok
    cases hok
  · rw [herror] at he
    cases he
    exact hprotocol

end ShipInfer.Spill.Wire
