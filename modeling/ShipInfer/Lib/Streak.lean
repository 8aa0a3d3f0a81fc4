import Mathlib.Algebra.Order.BigOperators.Group.Finset
import Mathlib.Data.List.TakeWhile
import Mathlib.Data.Finset.Card

/-!
# Streaks

A history of instants, each a hit, an absence or neither. An instant that is neither breaks the
streak, and so does more than `bound` absences in a row; its length is the number of hits since.
-/

namespace ShipInfer.Streak

variable {X : Type*} (hit absent : X → Bool) (bound : Nat)

/-- The past ends with what breaks a streak. -/
def Broken (past : List X) : Prop :=
  (∃ x, past.getLast? = some x ∧ hit x = false ∧ absent x = false) ∨
    ∃ older gone, past = older ++ gone ∧ gone.length = bound + 1 ∧ ∀ x ∈ gone, absent x = true

/-- The `i`-th instant is a hit of the streak that the history ends with. -/
def Counts (history : List X) (i : Nat) : Prop :=
  (∃ x, history[i]? = some x ∧ hit x = true) ∧
    ∀ n, i < n → n ≤ history.length → ¬ Broken hit absent bound (history.take n)

open Classical in
/-- The hits of the streak that the history ends with. -/
noncomputable def length (history : List X) : Nat :=
  ((Finset.range history.length).filter (Counts hit absent bound history)).card

/-- The absences that the history ends with. -/
def absences (history : List X) : Nat := (history.reverse.takeWhile absent).length

variable {hit absent bound} {history : List X} {x : X}

@[simp] theorem length_nil : length hit absent bound ([] : List X) = 0 := by simp [length]

@[simp] theorem absences_snoc :
    absences absent (history ++ [x]) = if absent x = true then absences absent history + 1 else 0 := by
  simp only [absences, List.reverse_append, List.reverse_singleton, List.singleton_append, List.takeWhile_cons]
  split <;> rfl

theorem le_absences_iff (n : Nat) : n ≤ absences absent history ↔
    ∃ older gone, history = older ++ gone ∧ gone.length = n ∧ ∀ x ∈ gone, absent x = true := by
  constructor
  · intro hn
    refine ⟨(history.reverse.drop n).reverse, (history.reverse.take n).reverse, ?_, ?_, fun y hy => ?_⟩
    · rw [← List.reverse_append, List.take_append_drop, List.reverse_reverse]
    · have hle := (List.takeWhile_prefix (p := absent) (l := history.reverse)).length_le
      rw [List.length_reverse, List.length_take]
      exact Nat.min_eq_left (Nat.le_trans hn hle)
    · rw [List.mem_reverse] at hy
      have hstart : history.reverse.take n <+: history.reverse.takeWhile absent := by
        refine List.prefix_of_prefix_length_le (List.take_prefix _ _) (List.takeWhile_prefix _) ?_
        exact Nat.le_trans (List.length_take_le _ _) hn
      exact List.mem_takeWhile_imp (hstart.subset hy)
  · rintro ⟨older, gone, rfl, rfl, hgone⟩
    unfold absences
    have hall : ∀ y ∈ gone.reverse, absent y = true := fun y hy => hgone y (List.mem_reverse.mp hy)
    rw [List.reverse_append, List.takeWhile_append_of_pos hall, List.length_append, List.length_reverse]
    exact Nat.le_add_right _ _

theorem broken_snoc : Broken hit absent bound (history ++ [x]) ↔
    (hit x = false ∧ absent x = false) ∨ bound < absences absent (history ++ [x]) := by
  unfold Broken
  rw [← Nat.succ_le_iff, le_absences_iff]
  simp

theorem counts_lt {i : Nat} (h : Counts hit absent bound history i) : i < history.length := by
  obtain ⟨⟨y, hy, -⟩, -⟩ := h
  exact (List.getElem?_eq_some_iff.mp hy).1

theorem counts_snoc {i : Nat} (hi : i < history.length) : Counts hit absent bound (history ++ [x]) i ↔
    Counts hit absent bound history i ∧ ¬ Broken hit absent bound (history ++ [x]) := by
  unfold Counts
  rw [List.getElem?_append_left hi]
  constructor
  · rintro ⟨hhit, hrun⟩
    refine ⟨⟨hhit, fun n hn hle => ?_⟩, ?_⟩
    · have := hrun n hn (by rw [List.length_append]; omega)
      rwa [List.take_append_of_le_length hle] at this
    · have := hrun (history ++ [x]).length (by rw [List.length_append]; omega) (Nat.le_refl _)
      rwa [List.take_length] at this
  · rintro ⟨⟨hhit, hrun⟩, hlast⟩
    refine ⟨hhit, fun n hn hle => ?_⟩
    by_cases hle' : n ≤ history.length
    · rw [List.take_append_of_le_length hle']
      exact hrun n hn hle'
    · rw [List.take_of_length_le (by rw [List.length_append, List.length_singleton] at hle ⊢; omega)]
      exact hlast

theorem counts_last : Counts hit absent bound (history ++ [x]) history.length ↔
    hit x = true ∧ ¬ Broken hit absent bound (history ++ [x]) := by
  unfold Counts
  rw [List.getElem?_concat_length]
  constructor
  · rintro ⟨⟨y, hy, hhit⟩, hrun⟩
    cases hy
    have := hrun (history ++ [x]).length (by rw [List.length_append, List.length_singleton]; omega) (Nat.le_refl _)
    rw [List.take_length] at this
    exact ⟨hhit, this⟩
  · rintro ⟨hhit, hlast⟩
    refine ⟨⟨x, rfl, hhit⟩, fun n hn hle => ?_⟩
    rw [List.take_of_length_le (by rw [List.length_append, List.length_singleton]; omega)]
    exact hlast

theorem length_broken (h : Broken hit absent bound (history ++ [x])) :
    length hit absent bound (history ++ [x]) = 0 := by
  classical
  unfold length
  rw [Finset.card_eq_zero, Finset.filter_eq_empty_iff]
  intro i _ hcounts
  have hlt := counts_lt hcounts
  have hlast := hcounts.2 (history ++ [x]).length hlt (Nat.le_refl _)
  rw [List.take_length] at hlast
  exact hlast h

theorem length_kept (h : ¬ Broken hit absent bound (history ++ [x])) :
    length hit absent bound (history ++ [x]) = length hit absent bound history + if hit x = true then 1 else 0 := by
  classical
  unfold length
  have hrange : Finset.range (history ++ [x]).length = insert history.length (Finset.range history.length) := by
    rw [List.length_append, List.length_singleton, Finset.range_add_one]
  have hsame : (Finset.range history.length).filter (Counts hit absent bound (history ++ [x])) =
      (Finset.range history.length).filter (Counts hit absent bound history) := by
    refine Finset.filter_congr fun i hi => ?_
    rw [counts_snoc (Finset.mem_range.mp hi)]
    exact and_iff_left h
  rw [hrange, Finset.filter_insert, hsame]
  by_cases hhit : hit x = true
  · rw [if_pos (counts_last.mpr ⟨hhit, h⟩), if_pos hhit, Finset.card_insert_of_notMem]
    simp
  · rw [if_neg (fun hc => hhit (counts_last.mp hc).1), if_neg hhit, Nat.add_zero]

/-- A hit lengthens the streak by one. -/
theorem length_hit (hhit : hit x = true) (hpresent : absent x = false) :
    length hit absent bound (history ++ [x]) = length hit absent bound history + 1 := by
  rw [length_kept, if_pos hhit]
  rw [broken_snoc]
  simp [hhit, hpresent]

/-- Neither a hit nor an absence: there is no streak. -/
theorem length_miss (hhit : hit x = false) (hpresent : absent x = false) :
    length hit absent bound (history ++ [x]) = 0 :=
  length_broken (broken_snoc.mpr (.inl ⟨hhit, hpresent⟩))

/-- An absence leaves the streak as it is, until there are too many in a row. -/
theorem length_absent (hhit : hit x = false) (habsent : absent x = true) : length hit absent bound (history ++ [x]) =
    if absences absent history + 1 ≤ bound then length hit absent bound history else 0 := by
  have hbroken : Broken hit absent bound (history ++ [x]) ↔ ¬ absences absent history + 1 ≤ bound := by
    rw [broken_snoc, absences_snoc, if_pos habsent]
    simp only [habsent, Bool.true_eq_false, and_false, false_or]
    omega
  split
  · rename_i hle
    rw [length_kept (fun hb => hbroken.mp hb hle), if_neg (by rw [hhit]; decide), Nat.add_zero]
  · rename_i hgt
    exact length_broken (hbroken.mpr hgt)

end ShipInfer.Streak
