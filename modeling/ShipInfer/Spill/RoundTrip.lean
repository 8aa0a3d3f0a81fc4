import ShipInfer.Ring.Protocol
import ShipInfer.Spill.Wire

/-!
# What a slot gives back

`engine/spill/wire.py` reads what it wrote. A request or a response comes out of its slot
without the NULs at the ends of its texts, its tensors in the order of their names, and
without what the format has no field for; nothing behind the bytes it used is touched. A
failure comes out as its status word and the message that fitted.
-/

namespace ShipInfer.Spill.Wire

open Layout (fitted natural unsigned)

/-! ## Texts in their fields -/

theorem fixed_ok {text what : String} {width : Nat} {bytes : List UInt8}
    (h : fixed text width what = .ok bytes) : bytes = encode text ∧ bytes.length < width := by
  unfold fixed at h
  split at h
  · cases h
  · cases h
    exact ⟨rfl, by omega⟩

theorem unfixed_fitted {text : String} {width : Nat} (h : (encode text).length ≤ width) :
    unfixed (fitted width (encode text)) = stripNul text := by
  rw [unfixed, Layout.fitted_of_le h, decode_stripZeros]

theorem unfixed_fixed {text what : String} {width : Nat} {bytes : List UInt8}
    (h : fixed text width what = .ok bytes) : unfixed (fitted width bytes) = stripNul text := by
  obtain ⟨rfl, hlt⟩ := fixed_ok h
  exact unfixed_fitted hlt.le

theorem orFormat_ok {α : Type} {o : Option α} {a : α} (h : orFormat o = .ok a) : o = some a := by
  cases o with
  | none => cases h
  | some b => cases h; rfl

theorem exists_ok {ε α : Type} {x : Except ε α} (h : x.toOption.isSome = true) : ∃ a, x = .ok a := by
  cases x with
  | error e => cases h
  | ok a => exact ⟨a, rfl⟩

theorem pack_pair {α β : Type*} {f : Layout α} {g : Layout β} {a : α} {b : β} {bytes : List UInt8}
    (h : (Layout.pair f g).pack (a, b) = some bytes) :
    ∃ front back, f.pack a = some front ∧ g.pack b = some back ∧ bytes = front ++ back := by
  simp only [Layout.pair, Option.bind_eq_bind, Option.bind_eq_some_iff, Option.some.injEq] at h
  obtain ⟨front, hfront, back, hback, rfl⟩ := h
  exact ⟨front, back, hfront, hback, rfl⟩

/-! ## Writes one behind the other -/

@[simp] theorem writeAt_nil (view : List UInt8) (offset : Nat) : writeAt view offset [] = view := by
  simp [writeAt]

theorem le_length_writeAt {view : List UInt8} {offset : Nat} (bytes : List UInt8) (h : offset ≤ view.length) :
    offset + bytes.length ≤ (writeAt view offset bytes).length := by
  simp [writeAt]
  omega

theorem writeAt_writeAt {view : List UInt8} {offset : Nat} (a b : List UInt8) (h : offset ≤ view.length) :
    writeAt (writeAt view offset a) (offset + a.length) b = writeAt view offset (a ++ b) := by
  have hfront : (view.take offset ++ a).length = offset + a.length := by
    rw [List.length_append, List.length_take, Nat.min_eq_left h]
  have hdrop : (view.take offset ++ a ++ view.drop (offset + a.length)).drop (offset + a.length + b.length) =
      view.drop (offset + (a ++ b).length) := by
    rw [← List.drop_drop, List.drop_left' hfront, List.drop_drop, List.length_append, Nat.add_assoc]
  rw [writeAt, writeAt, List.take_left' hfront, hdrop, writeAt, List.append_assoc (view.take offset) a b]

theorem length_writeAt {view bytes : List UInt8} {offset : Nat} (h : offset + bytes.length ≤ view.length) :
    (writeAt view offset bytes).length = view.length := by
  simp [writeAt]
  omega

theorem take_writeAt {view bytes : List UInt8} {offset : Nat} (h : offset ≤ view.length) :
    (writeAt view offset bytes).take offset = view.take offset := by
  rw [writeAt, List.append_assoc, List.take_left' (by rw [List.length_take, Nat.min_eq_left h])]

theorem drop_writeAt {view bytes : List UInt8} {offset : Nat} (h : offset ≤ view.length) :
    (writeAt view offset bytes).drop offset = bytes ++ view.drop (offset + bytes.length) := by
  rw [writeAt, List.append_assoc, List.drop_left' (by rw [List.length_take, Nat.min_eq_left h])]

theorem drop_behind_writeAt {view : List UInt8} {offset : Nat} (bytes : List UInt8) (h : offset ≤ view.length) :
    (writeAt view offset bytes).drop (offset + bytes.length) = view.drop (offset + bytes.length) := by
  rw [← List.drop_drop, drop_writeAt h, List.drop_left]

/-! ## Tensor heads -/

/-- What comes out of a slot for a tensor head. -/
def TensorHead.received (head : TensorHead) : TensorHead := { head with name := stripNul head.name }

def Packs (h : TensorHead × Tensor) (bytes : List UInt8) : Prop := packTensorHead h.1 = .ok bytes

theorem Packs.length {h : TensorHead × Tensor} {bytes : List UInt8} (hp : Packs h bytes) :
    bytes.length = tensorHead.width := by
  unfold Packs packTensorHead at hp
  cases hname : fixed h.1.name maxName "tensor name" with
  | error e => simp [hname, bind, Except.bind] at hp
  | ok name =>
    simp only [hname, bind, Except.bind] at hp
    exact tensorHead.length_pack (orFormat_ok hp)

theorem Packs.unpack {h : TensorHead × Tensor} {bytes rest view : List UInt8} {offset : Nat} (hp : Packs h bytes)
    (hview : view.drop offset = bytes ++ rest) : unpackTensorHead view offset = .ok h.1.received := by
  unfold Packs packTensorHead at hp
  cases hname : fixed h.1.name maxName "tensor name" with
  | error e => simp [hname, bind, Except.bind] at hp
  | ok name =>
    simp only [hname, bind, Except.bind] at hp
    rw [unpackTensorHead, hview, Layout.read_pack (orFormat_ok hp)]
    have htext := unfixed_fixed hname
    simp only [orFormat, bind, Except.bind]
    simp [tensorHead, Layout.record, Layout.pair, Layout.raw, Layout.natural, Layout.repeated, TensorHead.received,
      maxName] at htext ⊢
    exact htext

/-- The parts of the tensor heads. -/
abbrev PackAll := List.Forall₂ Packs

theorem PackAll.length {heads : List (TensorHead × Tensor)} {parts : List (List UInt8)} (h : PackAll heads parts) :
    parts.flatten.length = heads.length * tensorHead.width := by
  induction h with
  | nil => simp
  | cons hp hps ih =>
    rw [List.flatten_cons, List.length_append, hp.length, ih, List.length_cons, Nat.succ_mul, Nat.add_comm]

theorem writeHeads_ok : ∀ {heads : List (TensorHead × Tensor)} {view slot : List UInt8} {offset stop : Nat},
    offset ≤ view.length → writeHeads heads view offset = .ok (slot, stop) →
      ∃ parts, PackAll heads parts ∧ slot = writeAt view offset parts.flatten ∧ stop = offset + parts.flatten.length
  | [], view, slot, offset, stop, _, h => by
    cases h
    exact ⟨[], .nil, by simp, by simp⟩
  | head :: heads, view, slot, offset, stop, hroom, h => by
    rw [writeHeads] at h
    cases hpack : packTensorHead head.1 with
    | error e => simp [hpack, bind, Except.bind] at h
    | ok bytes =>
      simp only [hpack, bind, Except.bind] at h
      have hp : Packs head bytes := hpack
      rw [← hp.length] at h
      obtain ⟨parts, hparts, rfl, rfl⟩ := writeHeads_ok (le_length_writeAt bytes hroom) h
      exact ⟨bytes :: parts, .cons hp hparts, writeAt_writeAt bytes parts.flatten hroom, by simp [Nat.add_assoc]⟩

theorem readHeads_written {view rest : List UInt8} : ∀ {heads : List (TensorHead × Tensor)} {parts : List (List UInt8)}
    {offset : Nat}, PackAll heads parts → view.drop offset = parts.flatten ++ rest →
      readHeads view heads.length offset = .ok (heads.map fun h => h.1.received, offset + parts.flatten.length)
  | _, _, offset, .nil, _ => by simp [readHeads]
  | head :: heads, bytes :: parts, offset, .cons hp hps, hview => by
    rw [List.flatten_cons, List.append_assoc] at hview
    have hnext : view.drop (offset + tensorHead.width) = parts.flatten ++ rest := by
      rw [← List.drop_drop, hview, List.drop_left' hp.length]
    rw [List.length_cons, readHeads, hp.unpack hview]
    simp only [bind, Except.bind, readHeads_written hps hnext]
    simp [hp.length, Nat.add_assoc]

/-! ## Tensor bytes -/

/-- An array holds fewer than 2^63 bytes, its empty axes left out. -/
def Held (t : Tensor) : Prop := elementCount (t.shape.filter fun dim => decide (dim ≠ 0)) * t.dtype.itemsize < 2 ^ 63

instance (t : Tensor) : Decidable (Held t) := Nat.decLt _ _

/-- A head tells what its array is, and numpy holds the array. -/
structure Describes (h : TensorHead × Tensor) : Prop where
  dtype : h.1.dtype = h.2.dtype
  shape : h.1.shape = h.2.shape
  nbytes : h.1.nbytes = h.2.data.length
  onHost : h.2.handle = none
  held : Held h.2

theorem writeData_eq : ∀ {heads : List (TensorHead × Tensor)} {view : List UInt8} {offset : Nat}, offset ≤ view.length →
    (∀ h ∈ heads, h.1.nbytes = h.2.data.length) →
      writeData heads view offset =
        (writeAt view offset (heads.flatMap fun h => h.2.data), offset + (heads.flatMap fun h => h.2.data).length)
  | [], view, offset, _, _ => by simp [writeData]
  | head :: heads, view, offset, hroom, hbytes => by
    have hrest : ∀ h ∈ heads, h.1.nbytes = h.2.data.length := fun h hh => hbytes h (List.mem_cons_of_mem _ hh)
    rw [writeData, hbytes head List.mem_cons_self, writeData_eq (le_length_writeAt head.2.data hroom) hrest,
      writeAt_writeAt head.2.data _ hroom, List.flatMap_cons, List.length_append, Nat.add_assoc]

theorem Describes.tensorOf {h : TensorHead × Tensor} (hd : Describes h) : tensorOf h.1.received h.2.data = .ok h.2 := by
  obtain ⟨head, array⟩ := h
  obtain ⟨hdtype, hshape, -, hhost, hheld⟩ := hd
  obtain ⟨name, dtype, shape, nbytes⟩ := head
  obtain ⟨dtype', shape', data, handle, hsized⟩ := array
  obtain rfl : dtype = dtype' := hdtype
  obtain rfl : shape = shape' := hshape
  obtain rfl : handle = none := hhost
  exact dif_pos ⟨hsized, hheld⟩

theorem readData_written {view rest : List UInt8} : ∀ {heads : List (TensorHead × Tensor)} {offset : Nat}
    {out : Dict String Tensor}, (∀ h ∈ heads, Describes h) → offset ≤ view.length →
      view.drop offset = (heads.flatMap fun h => h.2.data) ++ rest →
        readData view (heads.map fun h => h.1.received) offset out =
          .ok (out.update (heads.map fun h => (stripNul h.1.name, h.2)))
  | [], offset, out, _, _, _ => rfl
  | head :: heads, offset, out, hall, hroom, hview => by
    have hd := hall head List.mem_cons_self
    rw [List.flatMap_cons, List.append_assoc] at hview
    have hlength := congrArg List.length hview
    rw [List.length_drop, List.length_append] at hlength
    have hlong : ¬view.length < offset + head.1.received.nbytes := by
      show ¬view.length < offset + head.1.nbytes
      rw [hd.nbytes]
      omega
    have hbytes : (view.drop offset).take head.1.received.nbytes = head.2.data := by
      show (view.drop offset).take head.1.nbytes = head.2.data
      rw [hview, hd.nbytes, List.take_left]
    have hnext : view.drop (offset + head.1.received.nbytes) = (heads.flatMap fun h => h.2.data) ++ rest := by
      show view.drop (offset + head.1.nbytes) = _
      rw [← List.drop_drop, hview, hd.nbytes, List.drop_left]
    rw [List.map_cons, readData, if_neg hlong, hbytes, hd.tensorOf]
    simp only [bind, Except.bind]
    rw [readData_written (fun h hh => hall h (List.mem_cons_of_mem _ hh)) (by omega) hnext]
    rfl

/-! ## Tensors -/

/-- The entries in the order of their names. -/
def byName (tensors : Dict String Tensor) : List (String × Tensor) := tensors.entries.insertionSort fun p q => p.1 ≤ q.1

def headOfTensor (p : String × Tensor) : TensorHead × Tensor :=
  ({ name := p.1, dtype := (host p.2).dtype, shape := (host p.2).shape, nbytes := (host p.2).data.length }, host p.2)

/-- What a slot gives back of a map of tensors. -/
def receivedTensors (tensors : Dict String Tensor) : Dict String Tensor :=
  Dict.empty.update ((byName tensors).map fun p => (stripNul p.1, host p.2))

theorem mapM_heads_ok : ∀ {l : List (String × Tensor)} {heads : List (TensorHead × Tensor)},
    l.mapM (fun p =>
      let array := host p.2
      if maxDims < array.shape.length then Except.error (WireError.tooManyDims p.1 array.shape.length)
      else .ok
        (({ name := p.1, dtype := array.dtype, shape := array.shape, nbytes := array.data.length } : TensorHead),
          array)) = .ok heads → heads = l.map headOfTensor
  | [], heads, h => by
    cases h
    rfl
  | p :: l, heads, h => by
    rw [List.mapM_cons] at h
    by_cases hdims : maxDims < (host p.2).shape.length
    · simp [hdims, bind, Except.bind] at h
    · simp only [hdims, if_false, bind, Except.bind] at h
      split at h
      · cases h
      · rename_i rest hrest
        cases h
        rw [mapM_heads_ok hrest]
        rfl

theorem tensorHeads_ok {tensors : Dict String Tensor} {heads : List (TensorHead × Tensor)}
    (h : tensorHeads tensors = .ok heads) : heads = (byName tensors).map headOfTensor := mapM_heads_ok h

theorem held_host {t : Tensor} (h : Held t) : Held (host t) := by
  by_cases hs : t.shape = []
  · have hshape : (host t).shape = [1] := if_pos hs
    rw [Held, hs] at h
    rw [Held, hshape]
    exact h
  · have hshape : (host t).shape = t.shape := if_neg hs
    rw [Held, hshape]
    exact h

theorem describes_heads {tensors : Dict String Tensor} (h : ∀ p ∈ tensors.entries, Held p.2) :
    ∀ head ∈ (byName tensors).map headOfTensor, Describes head := by
  intro head hmem
  obtain ⟨p, hp, rfl⟩ := List.mem_map.mp hmem
  have hentry : p ∈ tensors.entries := (List.perm_insertionSort _ _).mem_iff.mp hp
  exact ⟨rfl, rfl, rfl, rfl, held_host (h p hentry)⟩

/-- The tensors that were written behind a head of `start` bytes come out again. -/
theorem readTensors_written {tensors : Dict String Tensor} {heads : List (TensorHead × Tensor)} {view slot : List UInt8}
    {start used : Nat} (hheads : tensorHeads tensors = .ok heads) (hheld : ∀ p ∈ tensors.entries, Held p.2)
    (hroom : needed start heads ≤ view.length) (hwrite : writeTensors view start heads = .ok (slot, used)) :
    readTensors slot start heads.length = .ok (receivedTensors tensors) ∧ used = needed start heads ∧
      slot.length = view.length ∧ slot.take start = view.take start ∧ slot.drop used = view.drop used := by
  obtain rfl := tensorHeads_ok hheads
  have hdescribes := describes_heads hheld
  have hstart : start ≤ view.length := by
    unfold needed at hroom
    omega
  unfold writeTensors at hwrite
  cases hwritten : writeHeads ((byName tensors).map headOfTensor) view start with
  | error e => simp [hwritten, bind, Except.bind] at hwrite
  | ok r =>
    obtain ⟨slot', stop⟩ := r
    obtain ⟨parts, hparts, rfl, rfl⟩ := writeHeads_ok hstart hwritten
    have hbytes : ∀ h ∈ (byName tensors).map headOfTensor, h.1.nbytes = h.2.data.length := fun h hh =>
      (hdescribes h hh).nbytes
    simp only [hwritten, bind, Except.bind, writeData_eq (le_length_writeAt parts.flatten hstart) hbytes,
      writeAt_writeAt parts.flatten _ hstart] at hwrite
    injection hwrite with hpair
    obtain ⟨hslot, hused⟩ := Prod.mk.inj hpair
    have hsum : (((byName tensors).map headOfTensor).flatMap fun h => h.2.data).length =
        (((byName tensors).map headOfTensor).map fun h => h.1.nbytes).sum := by
      rw [List.length_flatMap, List.map_congr_left fun h hh => (hbytes h hh).symm]
    have hend : used = needed start ((byName tensors).map headOfTensor) := by
      rw [← hused, needed, hparts.length, hsum]
    have hall : start + (parts.flatten ++ ((byName tensors).map headOfTensor).flatMap fun h => h.2.data).length =
        used := by
      rw [← hused, List.length_append, Nat.add_assoc]
    have hroom' := hroom
    rw [← hend, ← hall] at hroom'
    have hdrop : slot.drop start = parts.flatten ++ ((((byName tensors).map headOfTensor).flatMap fun h => h.2.data) ++
        view.drop used) := by
      rw [← hslot, drop_writeAt hstart, hall, List.append_assoc]
    have hlength : slot.length = view.length := by
      rw [← hslot, length_writeAt hroom']
    have hbehind : slot.drop (start + parts.flatten.length) =
        (((byName tensors).map headOfTensor).flatMap fun h => h.2.data) ++ view.drop used := by
      rw [← List.drop_drop, hdrop, List.drop_left]
    have hinside : start + parts.flatten.length ≤ slot.length := by
      rw [hlength]
      rw [List.length_append] at hroom'
      omega
    refine ⟨?_, hend, hlength, ?_, ?_⟩
    · simp only [readTensors, readHeads_written hparts hdrop, bind, Except.bind]
      rw [readData_written hdescribes hinside hbehind, List.map_map]
      rfl
    · rw [← hslot, take_writeAt hstart]
    · rw [← hall, ← hslot, drop_behind_writeAt _ hstart]

/-! ## Requests -/

/-- What a slot gives back of a request. -/
def received (request : InferenceRequest) : InferenceRequest where
  modelName := stripNul request.modelName
  inputs := receivedTensors request.inputs
  requestId := request.requestId
  modelVersion := request.modelVersion.filter fun version => decide (0 ≤ version)
  context :=
    { cameraId := stripNul request.context.cameraId
      frameId := request.context.frameId
      capturedNs := request.context.capturedNs
      capturedUnixNs := request.context.capturedUnixNs
      traceId := stripNul request.context.traceId }
  priority := request.priority
  deadlineNs := request.deadlineNs
  timings := { receivedNs := request.timings.receivedNs, queuedNs := request.timings.queuedNs }

/-- `peek_request_id` -/
def peekRequestId (view : List UInt8) : Except WireError Int :=
  if view.length < 16 then .error (.noHead view.length)
  else orFormat ((Layout.unsigned 8).read (view.drop 8))

theorem requestHead_stored (h : RequestHead) : requestHead.stored h =
    { h with
      cameraId := fitted maxName h.cameraId
      modelName := fitted maxName h.modelName
      traceId := fitted maxName h.traceId } := rfl

/-- The id of a request and that of a reply lie behind the magic and the version. -/
theorem peekRequestId_packed {α : Type} {rest : Layout α} {magic version : Nat} {id : Int} {a : α}
    {head back : List UInt8}
    (hpack : (Layout.pair (natural 4) <| Layout.pair (natural 4) <| Layout.pair (unsigned 8) rest).pack
      (magic, version, id, a) = some head) : peekRequestId (head ++ back) = .ok id := by
  obtain ⟨front, behindFront, hfront, hrest, rfl⟩ := pack_pair hpack
  obtain ⟨middle, behindMiddle, hmiddle, hrest', rfl⟩ := pack_pair hrest
  obtain ⟨number, behindNumber, hnumber, -, rfl⟩ := pack_pair hrest'
  have height : (front ++ middle).length = 8 := by
    rw [List.length_append, Layout.length_pack _ hfront, Layout.length_pack _ hmiddle]
    rfl
  have hnumber8 : number.length = 8 := Layout.length_pack _ hnumber
  have hsplit : front ++ (middle ++ (number ++ behindNumber)) ++ back =
      (front ++ middle) ++ (number ++ (behindNumber ++ back)) := by simp only [List.append_assoc]
  have hlong : ¬((front ++ middle) ++ (number ++ (behindNumber ++ back))).length < 16 := by
    rw [List.length_append, height, List.length_append, hnumber8]
    omega
  rw [hsplit, peekRequestId, if_neg hlong, List.drop_left' height, Layout.read_pack hnumber]
  rfl

theorem version_received (version : Option Int) :
    (if version.getD (-1) < 0 then none else some (version.getD (-1))) = version.filter fun v => decide (0 ≤ v) := by
  cases version with
  | none => rfl
  | some v =>
    by_cases hv : v < 0
    · simp [hv, Option.filter]
    · simp [hv, Option.filter, not_lt.mp hv]

/-- Behind the head that was packed lies what was there. -/
theorem drop_head {view slot head : List UInt8} {width : Nat} (hlength : head.length = width)
    (hfront : slot.take width = (writeAt view 0 head).take width) : slot = head ++ slot.drop width := by
  have hhead : (writeAt view 0 head).take width = head := by
    rw [writeAt, List.take_zero, List.nil_append, Nat.zero_add, List.take_left' hlength]
  rw [← hhead, ← hfront, List.take_append_drop]

/-- A head and the tensors behind it, written into a slot they fit. -/
theorem written {α : Type} {layout : Layout α} {a : α} {head view slot : List UInt8} {used : Nat}
    {tensors : Dict String Tensor} {heads : List (TensorHead × Tensor)} (hpack : layout.pack a = some head)
    (hheads : tensorHeads tensors = .ok heads) (hheld : ∀ p ∈ tensors.entries, Held p.2)
    (hroom : needed layout.width heads ≤ view.length)
    (hwrite : writeTensors (writeAt view 0 head) layout.width heads = .ok (slot, used)) :
    layout.read slot = some (layout.stored a) ∧
      readTensors slot layout.width heads.length = .ok (receivedTensors tensors) ∧ used = needed layout.width heads ∧
        slot.length = view.length ∧ slot.drop used = view.drop used ∧ slot = head ++ slot.drop layout.width := by
  have hwidth : head.length = layout.width := layout.length_pack hpack
  have hle : layout.width ≤ needed layout.width heads := by
    unfold needed
    omega
  have hfit : (writeAt view 0 head).length = view.length := length_writeAt (by omega)
  obtain ⟨hread, hused, hlength, hfront, hback⟩ :=
    readTensors_written hheads hheld (hroom.trans_eq hfit.symm) hwrite
  have hslot := drop_head hwidth hfront
  refine ⟨?_, hread, hused, hlength.trans hfit, ?_, hslot⟩
  · rw [hslot]
    exact Layout.read_pack hpack _
  · have hbehind := drop_behind_writeAt head (Nat.zero_le view.length)
    rw [Nat.zero_add, hwidth] at hbehind
    have hsplit : used = layout.width + (used - layout.width) := by omega
    rw [hback, hsplit, ← List.drop_drop, hbehind, List.drop_drop]

theorem encodeRequest_ok {request : InferenceRequest} {view slot : List UInt8} {used : Nat}
    (h : encodeRequest request view = .ok (slot, used)) :
    ∃ heads cameraId modelName traceId head, tensorHeads request.inputs = .ok heads ∧
      needed requestHead.width heads ≤ view.length ∧ fixed request.context.cameraId maxName "camera_id" = .ok cameraId ∧
      fixed request.modelName maxName "model_name" = .ok modelName ∧
      fixed request.context.traceId maxName "trace_id" = .ok traceId ∧
      requestHead.pack
        { magic := magicRequest, version := wireVersion, requestId := request.requestId
          modelVersion := request.modelVersion.getD (-1), priority := request.priority.level, tensors := heads.length
          deadlineNs := request.deadlineNs, receivedNs := request.timings.receivedNs
          queuedNs := request.timings.queuedNs, frameId := request.context.frameId
          capturedNs := request.context.capturedNs, capturedUnixNs := request.context.capturedUnixNs
          cameraId, modelName, traceId } = some head ∧
      writeTensors (writeAt view 0 head) requestHead.width heads = .ok (slot, used) := by
  unfold encodeRequest at h
  cases hheads : tensorHeads request.inputs with
  | error e => simp [hheads, bind, Except.bind] at h
  | ok heads =>
    simp only [hheads, bind, Except.bind] at h
    by_cases hroom : view.length < needed requestHead.width heads
    · simp [hroom] at h
    · rw [if_neg hroom] at h
      cases hcamera : fixed request.context.cameraId maxName "camera_id" with
      | error e => simp [hcamera] at h
      | ok cameraId =>
        cases hmodel : fixed request.modelName maxName "model_name" with
        | error e => simp [hcamera, hmodel] at h
        | ok modelName =>
          cases htrace : fixed request.context.traceId maxName "trace_id" with
          | error e => simp [hcamera, hmodel, htrace] at h
          | ok traceId =>
            simp only [hcamera, hmodel, htrace] at h
            split at h
            · cases h
            · rename_i head hpack
              exact ⟨heads, cameraId, modelName, traceId, head, rfl, not_lt.mp hroom, rfl, rfl, rfl, orFormat_ok hpack,
                h⟩

/-- `encoded_request_size` -/
def encodedRequestSize (request : InferenceRequest) : Except WireError Nat := do
  let heads ← tensorHeads request.inputs
  .ok (needed requestHead.width heads)

theorem request_read {request : InferenceRequest} {view slot : List UInt8} {used : Nat}
    (h : encodeRequest request view = .ok (slot, used)) (hheld : ∀ p ∈ request.inputs.entries, Held p.2) :
    decodeRequest slot = .ok (received request) := by
  obtain ⟨heads, cameraId, modelName, traceId, head, hheads, hroom, hcamera, hmodel, htrace, hpack, hwrite⟩ :=
    encodeRequest_ok h
  obtain ⟨hhead, hinputs, hused, hlength, -, -⟩ := written hpack hheads hheld hroom hwrite
  have hlong : ¬slot.length < requestHead.width := by
    rw [hlength]
    unfold needed at hroom
    omega
  rw [decodeRequest, if_neg hlong, hhead, requestHead_stored]
  simp only [orFormat, bind, Except.bind, ne_eq, not_true_eq_false, or_self, if_false, hinputs, priorityOf_level]
  rw [unfixed_fixed hcamera, unfixed_fixed hmodel, unfixed_fixed htrace, version_received]
  rfl

/-- **A request comes out of its slot**, and the slot keeps its other bytes. -/
theorem request_comes_out {request : InferenceRequest} {view slot : List UInt8} {used : Nat}
    (h : encodeRequest request view = .ok (slot, used)) (hheld : ∀ p ∈ request.inputs.entries, Held p.2) :
    decodeRequest slot = .ok (received request) ∧ peekRequestId slot = .ok request.requestId ∧
      encodedRequestSize request = .ok used ∧ slot.length = view.length ∧ slot.drop used = view.drop used := by
  obtain ⟨heads, cameraId, modelName, traceId, head, hheads, hroom, -, -, -, hpack, hwrite⟩ := encodeRequest_ok h
  obtain ⟨-, -, hused, hlength, hback, hslot⟩ := written hpack hheads hheld hroom hwrite
  refine ⟨request_read h hheld, ?_, ?_, hlength, hback⟩
  · rw [hslot]
    exact peekRequestId_packed hpack
  · rw [encodedRequestSize, hheads, hused]
    rfl

def row : List UInt8 := [7, 9]

theorem row_sized : row.length = elementCount [2] * DataType.uint8.itemsize := rfl

def ask : InferenceRequest where
  modelName := "reid"
  inputs := Dict.empty.set "row" { dtype := .uint8, shape := [2], data := row, sized := row_sized }
  requestId := 5
  context := { cameraId := "north", frameId := 3 }

theorem ask_comes_out : ∃ slot used, encodeRequest ask (List.replicate 400 1) = .ok (slot, used) ∧
    decodeRequest slot = .ok (received ask) := by
  have hfits : (encodeRequest ask (List.replicate 400 1)).toOption.isSome = true := by decide +kernel
  have hheld : ∀ p ∈ ask.inputs.entries, Held p.2 := by decide +kernel
  obtain ⟨r, h⟩ := exists_ok hfits
  exact ⟨r.1, r.2, h, (request_comes_out h hheld).1⟩

/-! ## What comes out as it went in -/

def EndsInNul (text : String) : Prop := text.toList.getLast? = some '\x00'

instance (text : String) : Decidable (EndsInNul text) :=
  inferInstanceAs (Decidable (text.toList.getLast? = some '\x00'))

/-- The same request, the same inputs under their names. -/
def Same (a b : InferenceRequest) : Prop :=
  { a with inputs := b.inputs } = b ∧ ∀ name, a.inputs.get? name = b.inputs.get? name

/-- A request of which the format has room for everything. -/
structure Plain (request : InferenceRequest) : Prop where
  texts : ∀ text ∈ [request.modelName, request.context.cameraId, request.context.traceId], ¬EndsInNul text
  version : ∀ v ∈ request.modelVersion, 0 ≤ v
  names : ∀ name ∈ request.inputs.keys, ¬EndsInNul name
  arrays : ∀ t ∈ request.inputs.values, t.shape ≠ [] ∧ t.handle = none
  bare : request.requestedOutputs = [] ∧ request.parameters = .empty ∧ request.residentDevice = none
  untimed : request.timings =
    { receivedNs := request.timings.receivedNs, queuedNs := request.timings.queuedNs }

theorem host_eq_iff {t : Tensor} : host t = t ↔ t.shape ≠ [] ∧ t.handle = none := by
  obtain ⟨dtype, shape, data, handle, sized⟩ := t
  by_cases hs : shape = []
  · subst hs
    simp [host]
  · simp [host, hs, eq_comm]

theorem byName_perm (tensors : Dict String Tensor) : (byName tensors).Perm tensors.entries :=
  List.perm_insertionSort _ _

theorem mem_receivedTensors_keys {tensors : Dict String Tensor} {name : String}
    (h : name ∈ (receivedTensors tensors).keys) : stripNul name = name := by
  rcases (Dict.mem_keys_update _ _ _).mp h with hnone | hmem
  · cases hnone
  · rw [List.map_map] at hmem
    obtain ⟨p, -, rfl⟩ := List.mem_map.mp hmem
    exact stripNul_stripNul p.1

theorem receivedTensors_entries {tensors : Dict String Tensor} (h : ∀ name ∈ tensors.keys, stripNul name = name) :
    (receivedTensors tensors).entries = (byName tensors).map fun p => (p.1, host p.2) := by
  have hlist : ((byName tensors).map fun p => (stripNul p.1, host p.2)) =
      (byName tensors).map fun p => (p.1, host p.2) := by
    apply List.map_congr_left
    intro p hp
    rw [h p.1 (Dict.mem_keys_of_mem ((byName_perm tensors).mem_iff.mp hp))]
  have hfst : ((byName tensors).map fun p => (p.1, host p.2)).map Prod.fst = (byName tensors).map Prod.fst := by
    rw [List.map_map]
    rfl
  rw [receivedTensors, hlist, Dict.update_entries_of_new, Dict.entries_empty, List.nil_append]
  rw [Dict.keys_empty, List.nil_append, hfst]
  exact ((byName_perm tensors).map Prod.fst).nodup_iff.mpr tensors.keys_nodup

theorem receivedTensors_same_iff {tensors : Dict String Tensor} :
    (∀ name, (receivedTensors tensors).get? name = tensors.get? name) ↔
      (∀ name ∈ tensors.keys, ¬EndsInNul name) ∧ ∀ t ∈ tensors.values, t.shape ≠ [] ∧ t.handle = none := by
  constructor
  · intro hsame
    have hnames : ∀ name ∈ tensors.keys, stripNul name = name := by
      intro name hname
      apply mem_receivedTensors_keys
      by_contra hmissing
      rw [← Dict.get?_eq_none_iff, hsame, Dict.get?_eq_none_iff] at hmissing
      exact hmissing hname
    refine ⟨fun name hname => stripNul_eq_iff.mp (hnames name hname), ?_⟩
    intro t ht
    obtain ⟨p, hp, rfl⟩ := List.mem_map.mp ht
    have hgot : (p.1, host p.2) ∈ (receivedTensors tensors).entries := by
      rw [receivedTensors_entries hnames]
      exact List.mem_map.mpr ⟨p, (byName_perm tensors).mem_iff.mpr hp, rfl⟩
    have htwice := hsame p.1
    rw [Dict.get?_eq_some_iff.mpr hgot, Dict.get?_eq_some_iff.mpr (show (p.1, p.2) ∈ tensors.entries from hp)] at htwice
    exact host_eq_iff.mp (Option.some.inj htwice)
  · intro ⟨hnames, harrays⟩ name
    have hentries : (receivedTensors tensors).entries = byName tensors := by
      rw [receivedTensors_entries fun name hname => stripNul_eq_iff.mpr (hnames name hname)]
      conv_rhs => rw [← List.map_id (byName tensors)]
      apply List.map_congr_left
      intro p hp
      have ht : p.2 ∈ tensors.values := List.mem_map_of_mem ((byName_perm tensors).mem_iff.mp hp)
      rw [host_eq_iff.mpr (harrays p.2 ht)]
      rfl
    ext t
    rw [Dict.get?_eq_some_iff, Dict.get?_eq_some_iff, hentries]
    exact (byName_perm tensors).mem_iff

theorem version_kept_iff {version : Option Int} :
    (version.filter fun v => decide (0 ≤ v)) = version ↔ ∀ v ∈ version, 0 ≤ v := by
  cases version <;> simp [Option.filter]

theorem received_same_iff {request : InferenceRequest} : Same (received request) request ↔ Plain request := by
  constructor
  · intro ⟨hfields, hinputs⟩
    obtain ⟨hnames, harrays⟩ := receivedTensors_same_iff.mp hinputs
    have hmodel : stripNul request.modelName = request.modelName := congrArg InferenceRequest.modelName hfields
    have hcontext := congrArg InferenceRequest.context hfields
    have hcamera : stripNul request.context.cameraId = request.context.cameraId :=
      congrArg RequestContext.cameraId hcontext
    have htrace : stripNul request.context.traceId = request.context.traceId :=
      congrArg RequestContext.traceId hcontext
    refine ⟨?_, version_kept_iff.mp (congrArg InferenceRequest.modelVersion hfields), hnames, harrays, ⟨?_, ?_, ?_⟩, ?_⟩
    · intro text htext
      rw [List.mem_cons, List.mem_cons, List.mem_singleton] at htext
      rcases htext with rfl | rfl | rfl
      · exact stripNul_eq_iff.mp hmodel
      · exact stripNul_eq_iff.mp hcamera
      · exact stripNul_eq_iff.mp htrace
    · exact (congrArg InferenceRequest.requestedOutputs hfields).symm
    · exact (congrArg InferenceRequest.parameters hfields).symm
    · exact (congrArg InferenceRequest.residentDevice hfields).symm
    · exact (congrArg InferenceRequest.timings hfields).symm
  · intro h
    refine ⟨?_, receivedTensors_same_iff.mpr ⟨h.names, h.arrays⟩⟩
    have hstrip : ∀ text ∈ [request.modelName, request.context.cameraId, request.context.traceId],
        stripNul text = text :=
      fun text htext => stripNul_eq_iff.mpr (h.texts text htext)
    have hmodel := hstrip request.modelName List.mem_cons_self
    have hcamera := hstrip request.context.cameraId (List.mem_cons_of_mem _ List.mem_cons_self)
    have htrace := hstrip request.context.traceId (List.mem_cons_of_mem _ (List.mem_cons_of_mem _ List.mem_cons_self))
    have hversion := version_kept_iff.mpr h.version
    obtain ⟨houtputs, hparameters, hdevice⟩ := h.bare
    have htimings := h.untimed
    simp only [received, hmodel, hcamera, htrace, hversion]
    rw [← houtputs, ← hparameters, ← hdevice, ← htimings]

theorem request_unchanged_iff {request : InferenceRequest} {view slot : List UInt8} {used : Nat}
    (h : encodeRequest request view = .ok (slot, used)) (hheld : ∀ p ∈ request.inputs.entries, Held p.2) :
    (∃ got, decodeRequest slot = .ok got ∧ Same got request) ↔ Plain request := by
  rw [request_read h hheld]
  simp only [Except.ok.injEq, exists_eq_left', received_same_iff]

/-- The version 2 of a model, asked for under a name that ends in a NUL. -/
def askOfTwo : InferenceRequest := { ask with modelName := String.ofList ['r', '\x00'], modelVersion := some 2 }

theorem askOfTwo_changed : ∃ slot used, encodeRequest askOfTwo (List.replicate 400 1) = .ok (slot, used) ∧
    ¬∃ got, decodeRequest slot = .ok got ∧ Same got askOfTwo := by
  have hfits : (encodeRequest askOfTwo (List.replicate 400 1)).toOption.isSome = true := by decide +kernel
  have hheld : ∀ p ∈ askOfTwo.inputs.entries, Held p.2 := by decide +kernel
  have hnul : EndsInNul askOfTwo.modelName := by decide
  obtain ⟨r, h⟩ := exists_ok hfits
  refine ⟨r.1, r.2, h, ?_⟩
  rw [request_unchanged_iff h hheld]
  intro hplain
  exact hplain.texts _ List.mem_cons_self hnul

/-! ## Across a ring -/

/-- The bytes are those of a request that fitted its slot. -/
def Sent (bytes : List UInt8) : Prop :=
  ∃ request view used, encodeRequest request view = .ok (bytes, used) ∧ ∀ p ∈ request.inputs.entries, Held p.2

/-- What the owner holds is the request that the claimant of the slot published, for as long as
it holds it, whatever the threads of both sides do meanwhile. -/
theorem taken_is_sent (slots : Nat) (bytes : Nat → List UInt8) (events : List (Ring.Event (List UInt8)))
    (hsent : ∀ i t b, Ring.SlotEvent.published t b ∈ Ring.slotTrace i (Ring.SharedRing.run slots bytes events).2 →
      Sent b) (i : Nat) (htaken : (Ring.SharedRing.run slots bytes events).1.state i = .taken) :
    ∃ before t view request used b, Ring.slotTrace i (Ring.SharedRing.run slots bytes events).2 =
        before ++ [.claimed t, .published t b, .took b] ∧ encodeRequest request view = .ok (b, used) ∧
      decodeRequest ((Ring.SharedRing.run slots bytes events).1.bytes i) = .ok (received request) := by
  obtain ⟨-, hall⟩ := Ring.SharedRing.exec_protocol slots events (fun _ => none) (Ring.SharedRing.inv_new bytes)
    fun i => ⟨rfl, fun _ h => (by cases h), fun _ h => (by rcases h with ⟨_, h⟩ | h <;> cases h)⟩
  obtain ⟨hobeys, hmatches⟩ := hall i
  rw [Option.or_none] at hmatches
  obtain ⟨b, hlast⟩ := Ring.SharedRing.last_took (hmatches.state.symm.trans htaken)
  obtain ⟨front, hfront⟩ := List.getLast?_eq_some_iff.mp hlast
  have hfollows : Ring.Obeys none (front ++ .took b :: []) := hfront ▸ hobeys
  obtain ⟨t, before, rfl⟩ := Ring.SharedRing.took_after hfollows
  have htrace : Ring.slotTrace i (Ring.SharedRing.run slots bytes events).2 =
      before ++ [.claimed t, .published t b, .took b] := by
    rw [show before ++ [Ring.SlotEvent.claimed t, .published t b, .took b] =
      before ++ [Ring.SlotEvent.claimed t, .published t b] ++ [.took b] by simp]
    exact hfront
  obtain ⟨request, view, used, hencoded, hheld⟩ := hsent i t b (by rw [htrace]; simp)
  have hbytes : (Ring.SharedRing.run slots bytes events).1.bytes i = b := hmatches.bytes b (.inr hlast)
  refine ⟨before, t, view, request, used, b, htrace, hencoded, ?_⟩
  rw [hbytes]
  exact request_read hencoded hheld

/-- The slot that the request above leaves. -/
def askSlot : List UInt8 := ((encodeRequest ask (List.replicate 400 1)).toOption.map Prod.fst).getD []

theorem askSlot_sent : Sent askSlot := by
  have hfits : (encodeRequest ask (List.replicate 400 1)).toOption.isSome = true := by decide +kernel
  have hheld : ∀ p ∈ ask.inputs.entries, Held p.2 := by decide +kernel
  obtain ⟨r, h⟩ := exists_ok hfits
  rw [askSlot, h]
  exact ⟨ask, List.replicate 400 1, r.2, h, hheld⟩

/-- Thread 0 claims a slot and publishes the request, and the owner takes it. -/
def handing : List (Ring.Event (List UInt8)) :=
  [.claim 0, .submitStep 0 false, .submitStep 0 false, .submitStep 0 false, .submitStep 0 false, .payload 0,
    .write 0 askSlot, .finish 0 .publish, .submitStep 0 false, .submitStep 0 false, .submitStep 0 false, .take,
    .ownerStep false, .ownerStep false, .ownerStep false]

theorem handing_outputs : (Ring.SharedRing.run 1 (fun _ => []) handing).2 =
    [.quiet, .quiet, .quiet, .quiet, .slot 0 (.claimed 0), .quiet, .quiet, .quiet, .quiet, .quiet,
      .slot 0 (.published 0 askSlot), .quiet, .quiet, .quiet, .slot 0 (.took askSlot)] := by decide +kernel

theorem handing_sent (i t : Nat) (b : List UInt8)
    (hmem : Ring.SlotEvent.published t b ∈ Ring.slotTrace i (Ring.SharedRing.run 1 (fun _ => []) handing).2) :
    Sent b := by
  rw [handing_outputs] at hmem
  obtain ⟨o, ho, hat⟩ := List.mem_filterMap.mp hmem
  cases o with
  | slot j event =>
    simp only [List.mem_cons, List.not_mem_nil, Ring.Output.slot.injEq, reduceCtorEq, or_false, false_or] at ho
    have hevent : event = .published t b := by
      rw [Ring.Output.at] at hat
      split at hat
      · exact Option.some.inj hat
      · cases hat
    subst hevent
    simp only [reduceCtorEq, and_false, Ring.SlotEvent.published.injEq, or_false, false_or] at ho
    rw [ho.2.2]
    exact askSlot_sent
  | _ => cases hat

theorem handed_is_sent : ∃ request, (Ring.SharedRing.run 1 (fun _ => []) handing).1.state 0 = .taken ∧
    decodeRequest ((Ring.SharedRing.run 1 (fun _ => []) handing).1.bytes 0) = .ok (received request) := by
  have htaken : (Ring.SharedRing.run 1 (fun _ => []) handing).1.state 0 = .taken := by decide +kernel
  obtain ⟨-, -, -, request, -, -, -, -, hdecoded⟩ := taken_is_sent 1 (fun _ => []) handing handing_sent 0 htaken
  exact ⟨request, htaken, hdecoded⟩

end ShipInfer.Spill.Wire
