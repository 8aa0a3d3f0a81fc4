import Mathlib
import ShipInfer.Lib.Fold
import ShipInfer.Ring.Model

/-!
# Where a ring's bytes are

`RingLayout` of `runtime/memory/shared_ring.py`, the format of its header, and the offsets
at which the handle reads and writes the header in place.
-/

namespace ShipInfer.Ring

def page : Nat := 4096

/-- `_align_up` -/
def alignUp (value unit : Nat) : Nat := (value + unit - 1) / unit * unit

structure RingLayout where
  slots : Nat
  slotBytes : Nat
  slots_pos : 1 ≤ slots
  slotBytes_pos : 1 ≤ slotBytes
  deriving DecidableEq

inductive LayoutError
  | noSlots (slots : Int)
  | noBytes (slotBytes : Int)
  /-- `IndexError` -/
  | outOfRange (index : Int) (slots : Nat)
  deriving DecidableEq

namespace RingLayout

theorem toNat_pos {n : Int} (h : ¬n < 1) : 0 < n.toNat := by omega

/-- `__post_init__` -/
def make (slots slotBytes : Int) : Except LayoutError RingLayout :=
  if hslots : slots < 1 then .error (.noSlots slots)
  else if hbytes : slotBytes < 1 then .error (.noBytes slotBytes)
  else
    .ok
      { slots := slots.toNat
        slotBytes := slotBytes.toNat
        slots_pos := toNat_pos hslots
        slotBytes_pos := toNat_pos hbytes }

def headerBytes : Nat := page

def statesOffset : Nat := headerBytes

variable (layout : RingLayout)

def statesBytes : Nat := alignUp layout.slots page

def payloadOffset : Nat := statesOffset + layout.statesBytes

def paddedSlotBytes : Nat := alignUp layout.slotBytes page

def totalBytes : Nat := layout.payloadOffset + layout.slots * layout.paddedSlotBytes

/-- `_check` -/
def check (index : Int) : Except LayoutError Nat :=
  if 0 ≤ index ∧ index < layout.slots then .ok index.toNat else .error (.outOfRange index layout.slots)

def stateOffset (index : Int) : Except LayoutError Nat := do
  let i ← layout.check index
  .ok (statesOffset + i)

def slotOffset (index : Int) : Except LayoutError Nat := do
  let i ← layout.check index
  .ok (layout.payloadOffset + i * layout.paddedSlotBytes)

end RingLayout

/-! ## The header -/

/-- A code of a packed format, none of which is aligned. -/
inductive Code
  | I
  | d
  | Q
  | B
  | s (width : Nat)
  deriving DecidableEq

def Code.size : Code → Nat
  | .I => 4
  | .d => 8
  | .Q => 8
  | .B => 1
  | .s width => width

def calcsize (format : List Code) : Nat := (format.map Code.size).sum

/-- `_HEADER`: magic, version, slots, slot bytes, depth, a pad, latency, heartbeat, closed, owner. -/
def header : List Code := [.I, .I, .I, .I, .I, .I, .d, .Q, .B, .s 63]

/-- `_STAMP`: depth, a pad, latency, heartbeat. -/
def stamp : List Code := [.I, .I, .d, .Q]

def stampOffset : Nat := 16

/-- `_CLOSED_OFFSET` -/
def closedOffset : Nat := calcsize header - 64

/-- The bytes from one offset on. -/
def region (offset size : Nat) : Set Nat := Set.Ico offset (offset + size)

/-- The fields of the header from the `first`-th on, `count` of them. -/
def fields (first count : Nat) : Set Nat :=
  region (calcsize (header.take first)) (calcsize ((header.drop first).take count))

/-- What `create` stores last. -/
def magicRegion : Set Nat := region 0 (calcsize [.I])

/-- The slot count and the slot size. -/
def geometryRegion : Set Nat := fields 2 2

/-- What `stamp` overwrites. -/
def stampRegion : Set Nat := region stampOffset (calcsize stamp)

/-- What `is_closed` reads. -/
def closedRegion : Set Nat := region closedOffset 1

/-! ## No two overlap -/

theorem le_alignUp (value : Nat) : value ≤ alignUp value page := by
  unfold alignUp page
  omega

theorem page_dvd_alignUp (value : Nat) : page ∣ alignUp value page := Nat.dvd_mul_left _ _

theorem disjoint_region {a m b n : Nat} (h : a + m ≤ b) : Disjoint (region a m) (region b n) :=
  Set.Ico_disjoint_Ico_same.mono_right (Set.Ico_subset_Ico_left h)

/-- Entries of one size, one after the other. -/
theorem disjoint_entries (first size : Nat) {i j : Nat} (h : i ≠ j) :
    Disjoint (region (first + i * size) size) (region (first + j * size) size) := by
  have hstep : ∀ {k l : Nat}, k < l → first + k * size + size ≤ first + l * size := by
    intro k l hkl
    have := Nat.mul_le_mul_right size hkl
    rw [Nat.succ_mul] at this
    omega
  rcases Nat.lt_or_gt_of_ne h with hij | hji
  · exact disjoint_region (hstep hij)
  · exact (disjoint_region (hstep hji)).symm

/-- What is overwritten in place is fields of the header. -/
theorem in_place_fields : magicRegion = fields 0 1 ∧ stampRegion = fields 4 4 ∧ closedRegion = fields 8 1 :=
  ⟨rfl, rfl, rfl⟩

/-- The header's fields, with the version after the magic and the owner at the end. -/
def headerRegions : List (Set Nat) :=
  [magicRegion, fields 1 1, geometryRegion, stampRegion, closedRegion, fields 9 1]

theorem header_pairwise : headerRegions.Pairwise Disjoint := by
  have h : ∀ {a m b n : Nat}, a + m ≤ b → Disjoint (region a m) (region b n) := disjoint_region
  simp only [headerRegions, List.pairwise_cons, List.mem_cons, List.not_mem_nil, or_false, forall_eq_or_imp, forall_eq, List.Pairwise.nil,
    and_true, IsEmpty.forall_iff, implies_true]
  exact ⟨⟨h (by decide), h (by decide), h (by decide), h (by decide), h (by decide)⟩,
    ⟨h (by decide), h (by decide), h (by decide), h (by decide)⟩, ⟨h (by decide), h (by decide), h (by decide)⟩,
    ⟨h (by decide), h (by decide)⟩, h (by decide)⟩

theorem header_below {r : Set Nat} (hr : r ∈ headerRegions) :
    ∃ offset size, r = region offset size ∧ offset + size ≤ RingLayout.statesOffset := by
  simp only [headerRegions, List.mem_cons, List.not_mem_nil, or_false] at hr
  rcases hr with rfl | rfl | rfl | rfl | rfl | rfl
  · exact ⟨_, _, rfl, by decide⟩
  · exact ⟨_, _, rfl, by decide⟩
  · exact ⟨_, _, rfl, by decide⟩
  · exact ⟨_, _, rfl, by decide⟩
  · exact ⟨_, _, rfl, by decide⟩
  · exact ⟨_, _, rfl, by decide⟩

namespace RingLayout

variable {layout : RingLayout} {i j : Int} {a b : Nat}

theorem check_ok {n : Nat} (h : layout.check i = .ok n) : (n : Int) = i ∧ n < layout.slots := by
  unfold check at h
  split at h
  · cases h
    omega
  · cases h

theorem stateOffset_ok (h : layout.stateOffset i = .ok a) :
    ∃ n : Nat, (n : Int) = i ∧ n < layout.slots ∧ a = statesOffset + n := by
  obtain ⟨n, hcheck, h⟩ := bind_ok.mp h
  cases h
  exact ⟨n, (check_ok hcheck).1, (check_ok hcheck).2, rfl⟩

theorem slotOffset_ok (h : layout.slotOffset i = .ok a) :
    ∃ n : Nat, (n : Int) = i ∧ n < layout.slots ∧ a = layout.payloadOffset + n * layout.paddedSlotBytes := by
  obtain ⟨n, hcheck, h⟩ := bind_ok.mp h
  cases h
  exact ⟨n, (check_ok hcheck).1, (check_ok hcheck).2, rfl⟩

/-- The bytes of a ring are apart, and what a slot holds is on pages of its own. -/
structure Apart (layout : RingLayout) : Prop where
  states : ∀ {i j : Int} {a b : Nat}, layout.stateOffset i = .ok a → layout.stateOffset j = .ok b → i ≠ j →
    Disjoint (region a 1) (region b 1)
  payloads : ∀ {i j : Int} {a b : Nat}, layout.slotOffset i = .ok a → layout.slotOffset j = .ok b → i ≠ j →
    Disjoint (region a layout.paddedSlotBytes) (region b layout.paddedSlotBytes)
  stateOfPayload : ∀ {i j : Int} {a b : Nat}, layout.stateOffset i = .ok a → layout.slotOffset j = .ok b →
    Disjoint (region a 1) (region b layout.paddedSlotBytes)
  onPage : ∀ {i : Int} {a : Nat}, layout.slotOffset i = .ok a → page ∣ a
  inside : ∀ {i : Int} {a : Nat}, layout.slotOffset i = .ok a →
    layout.slotBytes ≤ layout.paddedSlotBytes ∧ a + layout.paddedSlotBytes ≤ layout.totalBytes
  header : headerRegions.Pairwise Disjoint
  headerOfState : ∀ {i : Int} {a : Nat}, layout.stateOffset i = .ok a → ∀ r ∈ headerRegions, Disjoint r (region a 1)

theorem apart (layout : RingLayout) : Apart layout where
  states ha hb hne := by
    obtain ⟨n, hn, -, rfl⟩ := stateOffset_ok ha
    obtain ⟨m, hm, -, rfl⟩ := stateOffset_ok hb
    have hnm : n ≠ m := by omega
    simpa using disjoint_entries statesOffset 1 hnm
  payloads ha hb hne := by
    obtain ⟨n, hn, -, rfl⟩ := slotOffset_ok ha
    obtain ⟨m, hm, -, rfl⟩ := slotOffset_ok hb
    exact disjoint_entries _ _ (by omega)
  stateOfPayload ha hb := by
    obtain ⟨n, -, hlt, rfl⟩ := stateOffset_ok ha
    obtain ⟨m, -, -, rfl⟩ := slotOffset_ok hb
    apply disjoint_region
    have hle : layout.slots ≤ layout.statesBytes := le_alignUp _
    unfold payloadOffset
    omega
  onPage ha := by
    obtain ⟨n, -, -, rfl⟩ := slotOffset_ok ha
    have hstates : page ∣ layout.payloadOffset := Nat.dvd_add (Nat.dvd_refl page) (page_dvd_alignUp _)
    exact Nat.dvd_add hstates (Nat.dvd_mul_left_of_dvd (page_dvd_alignUp _) n)
  inside ha := by
    obtain ⟨n, -, hlt, rfl⟩ := slotOffset_ok ha
    refine ⟨le_alignUp _, ?_⟩
    have := Nat.mul_le_mul_right layout.paddedSlotBytes hlt
    rw [Nat.succ_mul] at this
    unfold totalBytes
    omega
  header := header_pairwise
  headerOfState ha r hr := by
    obtain ⟨n, -, -, rfl⟩ := stateOffset_ok ha
    obtain ⟨offset, size, rfl, hbelow⟩ := header_below hr
    exact disjoint_region (by omega)

/-- **No two regions of a ring overlap**, whatever counts its layout is made of. -/
theorem made_apart (slots slotBytes : Int) :
    match make slots slotBytes with
    | .ok layout => (layout.slots : Int) = slots ∧ (layout.slotBytes : Int) = slotBytes ∧ Apart layout
    | .error _ => slots < 1 ∨ slotBytes < 1 := by
  unfold make
  by_cases hslots : slots < 1
  · rw [dif_pos hslots]
    exact .inl hslots
  by_cases hbytes : slotBytes < 1
  · rw [dif_neg hslots, dif_pos hbytes]
    exact .inr hbytes
  rw [dif_neg hslots, dif_neg hbytes]
  exact ⟨Int.toNat_of_nonneg (by omega), Int.toNat_of_nonneg (by omega), apart _⟩

end RingLayout

end ShipInfer.Ring
