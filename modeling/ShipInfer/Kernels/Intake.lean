import Mathlib
import ShipInfer.Lib.Machine
import ShipInfer.Lib.SortedMap

/-!
# The surface intake

`SurfaceIntake` of `pipeline/surface_intake` with the `DeviceImage` of `ingest/frame` it copies:
an image of any pitch and chroma offset in, a tight surface of a pooled buffer out.
-/

namespace ShipInfer.Kernels

open Std (TreeMap)

/-- `DeviceImage`: the bytes from its pointer on, and none for a null one. -/
structure DeviceImage where
  nv12 : Option (Nat → UInt8)
  height : Int
  width : Int
  pitch : Int
  uvOffset : Nat
  device : Int
  height_lt : height < 2 ^ 31
  width_lt : width < 2 ^ 31
  pitch_lt : pitch < 2 ^ 31

def DeviceImage.empty (image : DeviceImage) : Bool :=
  image.nv12.isNone || decide (image.height ≤ 0) || decide (image.width ≤ 0) || decide (image.pitch < image.width) ||
    decide (image.device < 0) || decide (image.uvOffset < image.pitch.toNat * image.height.toNat)

/-- `DeviceBuffer` -/
structure DeviceBuffer where
  bytes : Nat
  data : Nat → UInt8

/-- `gpuMemcpyAsync` of `n` bytes to the buffer's byte `start` on. -/
def DeviceBuffer.write (b : DeviceBuffer) (start n : Nat) (source : Nat → UInt8) : DeviceBuffer :=
  { b with data := fun i => if start ≤ i ∧ i < start + n then source (i - start) else b.data i }

structure DeviceSurface where
  buffer : DeviceBuffer
  stride : Int
  uvOffset : Nat

structure SurfaceIntake where
  device : Int
  maxPooled : Nat := 8
  /-- The buffers to be used again, by size. -/
  free : TreeMap Nat (List DeviceBuffer) := ∅

/-- A surface is taken, the memory an allocation would find as it is; or the last holder of
one is done with its buffer. -/
inductive IntakeCall
  | take (image : DeviceImage) (camera : String) (fresh : Nat → UInt8)
  | giveBack (buffer : DeviceBuffer)

namespace SurfaceIntake

def bucket (s : SurfaceIntake) (bytes : Nat) : List DeviceBuffer := s.free[bytes]?.getD []

def pooled (s : SurfaceIntake) : Nat := (s.free.toList.map fun p => p.2.length).sum

def giveBack (s : SurfaceIntake) (buffer : DeviceBuffer) : SurfaceIntake :=
  let bucket := s.bucket buffer.bytes
  if s.maxPooled ≤ bucket.length then { s with free := s.free.insert buffer.bytes bucket }
  else { s with free := s.free.insert buffer.bytes (bucket ++ [buffer]) }

/-- A buffer of the size: the last of its bucket, or a new one. -/
def buffer (s : SurfaceIntake) (bytes : Nat) (fresh : Nat → UInt8) : SurfaceIntake × DeviceBuffer :=
  match (s.bucket bytes).getLast? with
  | some b => ({ s with free := s.free.insert bytes (s.bucket bytes).dropLast }, b)
  | none => (s, ⟨bytes, fresh⟩)

def take (s : SurfaceIntake) (image : DeviceImage) (camera : String) (fresh : Nat → UInt8) :
    SurfaceIntake × Except String DeviceSurface :=
  match image.empty, image.nv12 with
  | false, some nv12 =>
    let stride := image.pitch.toNat
    let luma := stride * image.height.toNat
    let taken := s.buffer (luma + luma / 2) fresh
    let copied := (taken.2.write 0 luma nv12).write luma (luma / 2) fun i => nv12 (image.uvOffset + i)
    (taken.1, .ok { buffer := copied, stride := image.pitch, uvOffset := luma })
  | _, _ => (s, .error ("camera '" ++ camera ++ "': a device surface reached the pipeline's intake incomplete; " ++
      "nothing here can size a buffer for it"))

def call (s : SurfaceIntake) : IntakeCall → SurfaceIntake × Option (Except String DeviceSurface)
  | .take image camera fresh => ((s.take image camera fresh).1, some (s.take image camera fresh).2)
  | .giveBack buffer => (s.giveBack buffer, none)

/-- An intake in use, from its construction on. -/
def intake (device : Int) (maxPooled : Nat) :
    Machine SurfaceIntake (IntakeCall × Option (Except String DeviceSurface)) :=
  Machine.ofFn (fun s => s = { device, maxPooled }) call

/-- A bucket holds buffers of its size, and no more than may be pooled. -/
structure Keyed (s : SurfaceIntake) : Prop where
  size : ∀ (bytes : Nat), ∀ b ∈ s.bucket bytes, b.bytes = bytes
  pooled : ∀ bytes : Nat, (s.bucket bytes).length ≤ s.maxPooled

variable {s : SurfaceIntake}

theorem bucket_insert (s : SurfaceIntake) (size : Nat) (l : List DeviceBuffer) (bytes : Nat) :
    bucket { s with free := s.free.insert size l } bytes = if bytes = size then l else s.bucket bytes := by
  unfold bucket
  dsimp only
  rw [SortedMap.getElem?_insert]
  split <;> rfl

/-- What a bucket becomes still suits its key. -/
theorem Keyed.insert (h : s.Keyed) {size : Nat} {l : List DeviceBuffer} (hsize : ∀ b ∈ l, b.bytes = size)
    (hlength : l.length ≤ s.maxPooled) : Keyed { s with free := s.free.insert size l } := by
  constructor
  · intro bytes b hb
    rw [bucket_insert] at hb
    split at hb
    · rename_i heq
      rw [heq]
      exact hsize b hb
    · exact h.size bytes b hb
  · intro bytes
    rw [bucket_insert]
    split
    · exact hlength
    · exact h.pooled bytes

theorem Keyed.giveBack (h : s.Keyed) (b : DeviceBuffer) : (s.giveBack b).Keyed := by
  unfold SurfaceIntake.giveBack
  dsimp only
  split
  · exact h.insert (h.size _) (h.pooled _)
  · refine h.insert (fun b' hb' => ?_) ?_
    · rcases List.mem_append.mp hb' with hb' | hb'
      · exact h.size _ b' hb'
      · rw [List.mem_singleton.mp hb']
    · rw [List.length_append, List.length_singleton]
      omega

theorem Keyed.buffer (h : s.Keyed) (bytes : Nat) (fresh : Nat → UInt8) :
    (s.buffer bytes fresh).1.Keyed ∧ (s.buffer bytes fresh).2.bytes = bytes := by
  unfold SurfaceIntake.buffer
  cases hb : (s.bucket bytes).getLast? with
  | none => exact ⟨h, rfl⟩
  | some b =>
    refine ⟨h.insert (fun b' hb' => h.size bytes b' ((List.dropLast_sublist _).subset hb')) ?_, ?_⟩
    · rw [List.length_dropLast]
      exact (Nat.sub_le _ _).trans (h.pooled bytes)
    · exact h.size bytes b (List.mem_of_getLast? hb)

theorem Keyed.call (h : s.Keyed) (c : IntakeCall) : (s.call c).1.Keyed := by
  cases c with
  | giveBack b => exact h.giveBack b
  | take image camera fresh =>
    show (s.take image camera fresh).1.Keyed
    unfold SurfaceIntake.take
    split
    · exact (h.buffer _ _).1
    · exact h

theorem reachable_keyed {device : Int} {maxPooled : Nat} (h : (intake device maxPooled).Reachable s) : s.Keyed := by
  refine h.invariant (fun s hs => ?_) fun s l t hs hst => ?_
  · rw [show s = { device, maxPooled } from hs]
    constructor
    · intro bytes b hb
      simp [bucket] at hb
    · simp [bucket]
  · rw [show t = (s.call l.1).1 from (congrArg Prod.fst hst).symm]
    exact hs.call l.1

end SurfaceIntake

/-- The surface holds the image: its luma plane, and as much from its chroma plane on as half
of that. -/
structure Filled (image : DeviceImage) (nv12 : Nat → UInt8) (surface : DeviceSurface) : Prop where
  stride : surface.stride = image.pitch
  uvOffset : surface.uvOffset = image.pitch.toNat * image.height.toNat
  bytes : surface.buffer.bytes = surface.uvOffset + surface.uvOffset / 2
  luma : ∀ i < surface.uvOffset, surface.buffer.data i = nv12 i
  chroma : ∀ i < surface.uvOffset / 2, surface.buffer.data (surface.uvOffset + i) = nv12 (image.uvOffset + i)

/-- What a usable image is. -/
theorem DeviceImage.empty_eq_false {image : DeviceImage} : image.empty = false ↔ image.nv12.isSome = true ∧
    0 < image.height ∧ 0 < image.width ∧ image.width ≤ image.pitch ∧ 0 ≤ image.device ∧
      image.pitch.toNat * image.height.toNat ≤ image.uvOffset := by
  simp only [DeviceImage.empty, Bool.or_eq_false_iff, decide_eq_false_iff_not, not_le, not_lt,
    Option.isNone_eq_false_iff, and_assoc]

theorem SurfaceIntake.Keyed.take {s : SurfaceIntake} (h : s.Keyed) {image : DeviceImage} {nv12 : Nat → UInt8}
    (hi : image.empty = false) (hn : image.nv12 = some nv12) (camera : String) (fresh : Nat → UInt8) :
    ∃ t surface, s.take image camera fresh = (t, .ok surface) ∧ Filled image nv12 surface := by
  refine ⟨_, _, by rw [SurfaceIntake.take, hi, hn], rfl, rfl, (h.buffer _ fresh).2, fun i hlt => ?_, fun i hlt => ?_⟩
  · dsimp only at hlt
    simp only [DeviceBuffer.write]
    rw [if_neg (by omega), if_pos (by omega)]
    rfl
  · dsimp only at hlt
    simp only [DeviceBuffer.write]
    rw [if_pos (by omega), Nat.add_sub_cancel_left]

end ShipInfer.Kernels
