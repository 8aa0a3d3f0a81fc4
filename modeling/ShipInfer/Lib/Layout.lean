import Mathlib.Data.List.Basic
import Mathlib.Tactic.Linarith
import Mathlib.Tactic.Positivity
import Mathlib.Tactic.Zify
import ShipInfer.Lib.Chunks

/-!
# Layouts of bytes

A number lies in a fixed count of bytes, least significant first, a signed one in two's
complement. A layout is a region of fixed width: what it packs, and what comes back of it.
Layouts are put together as the formats of a packed structure are: one after the other,
repeated, or under a record's name.
-/

namespace ShipInfer

def leBytes : Nat → Nat → List UInt8
  | 0, _ => []
  | w + 1, n => UInt8.ofNat (n % 256) :: leBytes w (n / 256)

def leNat : List UInt8 → Nat
  | [] => 0
  | b :: bs => b.toNat + 256 * leNat bs

@[simp] theorem length_leBytes (w : Nat) : ∀ n : Nat, (leBytes w n).length = w := by
  induction w with
  | zero => intro n; rfl
  | succ w ih => intro n; simp [leBytes, ih]

theorem leNat_leBytes (w : Nat) : ∀ {n : Nat}, n < 256 ^ w → leNat (leBytes w n) = n := by
  induction w with
  | zero =>
    intro n h
    simp only [pow_zero, Nat.lt_one_iff] at h
    simp [leBytes, leNat, h]
  | succ w ih =>
    intro n h
    have hdiv : n / 256 < 256 ^ w := by
      rw [pow_succ] at h
      exact Nat.div_lt_of_lt_mul (by omega)
    have hbyte : (UInt8.ofNat (n % 256)).toNat = n % 256 := by simp
    rw [leBytes, leNat, ih hdiv, hbyte]
    exact Nat.mod_add_div n 256

structure Layout (α : Type*) where
  width : Nat
  pack : α → Option (List UInt8)
  unpack : List UInt8 → α
  /-- What of a value comes back. -/
  stored : α → α
  length_pack : ∀ {a : α} {bs : List UInt8}, pack a = some bs → bs.length = width
  unpack_pack : ∀ {a : α} {bs : List UInt8}, pack a = some bs → unpack bs = stored a

namespace Layout

variable {α β : Type*}

def natural (w : Nat) : Layout Nat where
  width := w
  pack n := if n < 256 ^ w then some (leBytes w n) else none
  unpack := leNat
  stored := id
  length_pack := by
    intro n bs h
    split at h
    · cases h; exact length_leBytes w n
    · cases h
  unpack_pack := by
    intro n bs h
    split at h
    · rename_i hn; cases h; exact leNat_leBytes w hn
    · cases h

def unsigned (w : Nat) : Layout Int where
  width := w
  pack v := if 0 ≤ v then (natural w).pack v.toNat else none
  unpack bs := leNat bs
  stored := id
  length_pack := by
    intro v bs h
    split at h
    · exact (natural w).length_pack h
    · cases h
  unpack_pack := by
    intro v bs h
    split at h
    · rename_i hv
      have hn : leNat bs = v.toNat := (natural w).unpack_pack h
      rw [hn]
      exact Int.toNat_of_nonneg hv
    · cases h

/-- Two's complement. -/
def signed (w : Nat) : Layout Int where
  width := w
  pack v := if -(256 ^ w) ≤ 2 * v ∧ 2 * v < 256 ^ w then some (leBytes w (v % 256 ^ w).toNat) else none
  unpack bs := if 2 * leNat bs < 256 ^ w then leNat bs else (leNat bs : Int) - 256 ^ w
  stored := id
  length_pack := by
    intro v bs h
    split at h
    · cases h; exact length_leBytes w _
    · cases h
  unpack_pack := by
    intro v bs h
    split at h
    · rename_i hv
      cases h
      have hpos : (0 : Int) < 256 ^ w := by positivity
      have hmod : 0 ≤ v % 256 ^ w := Int.emod_nonneg v hpos.ne'
      have hlt : v % 256 ^ w < 256 ^ w := Int.emod_lt_of_pos v hpos
      have hfit : (v % 256 ^ w).toNat < 256 ^ w := by
        zify
        rw [Int.toNat_of_nonneg hmod]
        exact hlt
      rw [leNat_leBytes w hfit]
      by_cases hneg : v < 0
      · have hval : v % 256 ^ w = v + 256 ^ w := by
          rw [← Int.add_emod_right]
          exact Int.emod_eq_of_lt (by omega) (by omega)
        have hbig : ¬ 2 * (v % 256 ^ w).toNat < 256 ^ w := by
          intro hsmall
          zify at hsmall
          rw [Int.toNat_of_nonneg hmod, hval] at hsmall
          omega
        rw [if_neg hbig, Int.toNat_of_nonneg hmod, hval]
        exact Int.add_sub_cancel v _
      · have hval : v % 256 ^ w = v := Int.emod_eq_of_lt (by omega) (by omega)
        have hsmall : 2 * (v % 256 ^ w).toNat < 256 ^ w := by
          zify
          rw [Int.toNat_of_nonneg hmod, hval]
          exact hv.2
        rw [if_pos hsmall, Int.toNat_of_nonneg hmod, hval]
        rfl
    · cases h

/-- Bytes cut at the width, or filled up to it with zeros. -/
def fitted (w : Nat) (bs : List UInt8) : List UInt8 := (bs ++ List.replicate (w - bs.length) 0).take w

@[simp] theorem length_fitted (w : Nat) (bs : List UInt8) : (fitted w bs).length = w := by
  simp only [fitted, List.length_take, List.length_append, List.length_replicate]
  omega

theorem fitted_of_le {w : Nat} {bs : List UInt8} (h : bs.length ≤ w) :
    fitted w bs = bs ++ List.replicate (w - bs.length) 0 := by
  apply List.take_of_length_le
  simp only [List.length_append, List.length_replicate]
  omega

def raw (w : Nat) : Layout (List UInt8) where
  width := w
  pack bs := some (fitted w bs)
  unpack bs := bs
  stored := fitted w
  length_pack := by
    intro bs cs h
    cases h
    exact length_fitted w bs
  unpack_pack := by
    intro bs cs h
    cases h
    rfl

/-- One region after the other. -/
def pair (f : Layout α) (g : Layout β) : Layout (α × β) where
  width := f.width + g.width
  pack p := do
    let bs ← f.pack p.1
    let cs ← g.pack p.2
    some (bs ++ cs)
  unpack bs := (f.unpack (bs.take f.width), g.unpack (bs.drop f.width))
  stored p := (f.stored p.1, g.stored p.2)
  length_pack := by
    intro p ds h
    simp only [Option.bind_eq_bind, Option.bind_eq_some_iff, Option.some.injEq] at h
    obtain ⟨bs, hbs, cs, hcs, rfl⟩ := h
    rw [List.length_append, f.length_pack hbs, g.length_pack hcs]
  unpack_pack := by
    intro p ds h
    simp only [Option.bind_eq_bind, Option.bind_eq_some_iff, Option.some.injEq] at h
    obtain ⟨bs, hbs, cs, hcs, rfl⟩ := h
    have hlen := f.length_pack hbs
    rw [List.take_left' hlen, List.drop_left' hlen, f.unpack_pack hbs, g.unpack_pack hcs]

theorem mapM_pack (f : Layout α) : ∀ {l : List α} {bss : List (List UInt8)}, l.mapM f.pack = some bss →
    bss.flatten.length = l.length * f.width ∧ (chunks f.width l.length bss.flatten).map f.unpack = l.map f.stored := by
  intro l
  induction l with
  | nil =>
    intro bss h
    cases h
    simp [chunks]
  | cons a l ih =>
    intro bss h
    rw [List.mapM_cons] at h
    simp only [Option.bind_eq_bind, Option.bind_eq_some_iff, Option.pure_def, Option.some.injEq] at h
    obtain ⟨bs, hbs, rest, hrest, rfl⟩ := h
    obtain ⟨hlen, hchunks⟩ := ih hrest
    have hfirst := f.length_pack hbs
    constructor
    · rw [List.flatten_cons, List.length_append, hfirst, hlen, List.length_cons, Nat.succ_mul, Nat.add_comm]
    · rw [List.length_cons, chunks, List.flatten_cons, List.take_left' hfirst, List.drop_left' hfirst, List.map_cons,
        List.map_cons, f.unpack_pack hbs, hchunks]

/-- `n` regions of one kind. -/
def repeated (n : Nat) (f : Layout α) : Layout (List α) where
  width := n * f.width
  pack l := if l.length = n then (l.mapM f.pack).map List.flatten else none
  unpack bs := (chunks f.width n bs).map f.unpack
  stored l := l.map f.stored
  length_pack := by
    intro l bs h
    split at h
    · rename_i hn
      obtain ⟨bss, hbss, rfl⟩ := Option.map_eq_some_iff.mp h
      rw [(mapM_pack f hbss).1, hn]
    · cases h
  unpack_pack := by
    intro l bs h
    split at h
    · rename_i hn
      obtain ⟨bss, hbss, rfl⟩ := Option.map_eq_some_iff.mp h
      rw [← hn, (mapM_pack f hbss).2]
    · cases h

/-- The layout of a record, by that of its fields. -/
def record (f : Layout β) (fields : α → β) (make : β → α) : Layout α where
  width := f.width
  pack a := f.pack (fields a)
  unpack bs := make (f.unpack bs)
  stored a := make (f.stored (fields a))
  length_pack := f.length_pack
  unpack_pack := by
    intro a bs h
    rw [f.unpack_pack h]

/-- What a region at the front of `view` holds, when `view` is long enough. -/
def read (f : Layout α) (view : List UInt8) : Option α :=
  if view.length < f.width then none else some (f.unpack (view.take f.width))

theorem read_pack {f : Layout α} {a : α} {bs : List UInt8} (h : f.pack a = some bs) (rest : List UInt8) :
    f.read (bs ++ rest) = some (f.stored a) := by
  have hlen := f.length_pack h
  have hlong : ¬ (bs ++ rest).length < f.width := by
    rw [List.length_append]
    omega
  rw [read, if_neg hlong, List.take_left' hlen, f.unpack_pack h]

end Layout

end ShipInfer
