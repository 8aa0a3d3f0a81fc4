import Mathlib.Algebra.Ring.Nat
import ShipInfer.Lib.Dict

/-!
# Counters

A dictionary of counts in which a missing key counts zero.
-/

namespace ShipInfer

abbrev Counter (κ : Type*) := Dict κ Nat

namespace Counter

variable {κ : Type*}

def total (c : Counter κ) : Nat := c.values.sum

@[simp] theorem total_empty : total (Dict.empty : Counter κ) = 0 := rfl

theorem total_perm {c : Counter κ} {l : List (κ × Nat)} (h : c.entries.Perm l) : c.total = (l.map Prod.snd).sum :=
  (h.map Prod.snd).sum_nat

variable [DecidableEq κ]

/-- `c[k] += n` -/
def add (c : Counter κ) (k : κ) (n : Nat) : Counter κ := c.set k ((c.get? k).getD 0 + n)

/-- `c.update(d)`: the counts of `d` are added. -/
def update (c : Counter κ) (d : Dict κ Nat) : Counter κ := d.entries.foldl (fun c p => add c p.1 p.2) c

@[simp] theorem total_add (c : Counter κ) (k : κ) (n : Nat) : (add c k n).total = c.total + n := by
  rw [add, total_perm (c.set_entries_perm k _), List.map_cons, List.sum_cons]
  cases h : c.get? k with
  | none =>
    rw [Dict.erase_entries_of_new (Dict.get?_eq_none_iff.mp h), Option.getD_none, total, Dict.values]
    omega
  | some m =>
    rw [total_perm (Dict.entries_perm h), List.map_cons, List.sum_cons, Option.getD_some]
    omega

theorem total_update (c : Counter κ) (d : Dict κ Nat) : (update c d).total = c.total + Counter.total d := by
  have key : ∀ (l : List (κ × Nat)) (c : Counter κ),
      (l.foldl (fun c p => add c p.1 p.2) c).total = c.total + (l.map Prod.snd).sum := by
    intro l
    induction l with
    | nil => intro c; rfl
    | cons p l ih =>
      intro c
      rw [List.foldl_cons, ih, total_add, List.map_cons, List.sum_cons, Nat.add_assoc]
  exact key d.entries c

end Counter

end ShipInfer
