import Mathlib

/-!
# Weights of a list

Each entry of a list weighs a number, and one entry is replaced by another.
-/

namespace ShipInfer

variable {α : Type*}

def weigh (f : α → Nat) (l : List α) : Nat := (l.map f).sum

@[simp] theorem weigh_nil (f : α → Nat) : weigh f [] = 0 := rfl

@[simp] theorem weigh_cons (f : α → Nat) (a : α) (l : List α) : weigh f (a :: l) = f a + weigh f l := by
  simp [weigh]

@[simp] theorem weigh_append (f : α → Nat) (l m : List α) : weigh f (l ++ m) = weigh f l + weigh f m := by
  simp [weigh]

theorem weigh_set (f : α → Nat) {l : List α} {i : Nat} {a : α} (b : α) (h : l[i]? = some a) :
    weigh f (l.set i b) + f a = weigh f l + f b := by
  induction l generalizing i with
  | nil => simp at h
  | cons x l ih =>
    cases i with
    | zero =>
      obtain rfl : x = a := by simpa using h
      simp only [List.set_cons_zero, weigh_cons]
      omega
    | succ i =>
      have hrest := ih (i := i) (by simpa using h)
      simp only [List.set_cons_succ, weigh_cons]
      omega

theorem weigh_eq_zero {f : α → Nat} {l : List α} : weigh f l = 0 ↔ ∀ a ∈ l, f a = 0 := by
  induction l with
  | nil => simp
  | cons x l ih => simp [ih]

theorem le_weigh {f : α → Nat} {l : List α} {a : α} (h : a ∈ l) : f a ≤ weigh f l := by
  induction l with
  | nil => cases h
  | cons x l ih =>
    rw [weigh_cons]
    rcases List.mem_cons.mp h with rfl | h
    · exact Nat.le_add_right _ _
    · have := ih h
      omega

/-- Weights that add up entry by entry add up. -/
theorem weigh_add_eq {f g f' g' : α → Nat} {l : List α} (h : ∀ a ∈ l, f a + g a = f' a + g' a) :
    weigh f l + weigh g l = weigh f' l + weigh g' l := by
  induction l with
  | nil => rfl
  | cons x l ih =>
    have hx := h x List.mem_cons_self
    have hrest := ih fun a ha => h a (List.mem_cons_of_mem _ ha)
    simp only [weigh_cons]
    omega

theorem weigh_congr {f g : α → Nat} {l : List α} (h : ∀ a ∈ l, f a = g a) : weigh f l = weigh g l := by
  induction l with
  | nil => rfl
  | cons x l ih => rw [weigh_cons, weigh_cons, h x List.mem_cons_self, ih fun a ha => h a (List.mem_cons_of_mem _ ha)]

end ShipInfer
