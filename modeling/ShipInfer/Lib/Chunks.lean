import Mathlib.Data.List.Basic

/-!
# A list cut into equal chunks

`chunks w n l` is the first `n` chunks of length `w` of `l`. Chunks of a
concatenation are the chunks of its parts, and a range of chunks is what the
chunks of the matching range of elements are.
-/

namespace ShipInfer

def chunks {α : Type*} (w : Nat) : Nat → List α → List (List α)
  | 0, _ => []
  | n + 1, l => l.take w :: chunks w n (l.drop w)

section
variable {α : Type*} {w : Nat}

@[simp] theorem length_chunks : ∀ (n : Nat) (l : List α), (chunks w n l).length = n
  | 0, _ => rfl
  | n + 1, l => by rw [chunks, List.length_cons, length_chunks n]

theorem chunks_append (m : Nat) (k : List α) : ∀ {n : Nat} {l : List α}, l.length = n * w →
    chunks w (n + m) (l ++ k) = chunks w n l ++ chunks w m k
  | 0, l, h => by
    have : l = [] := List.length_eq_zero_iff.mp (by omega)
    subst this; simp [chunks]
  | n + 1, l, h => by
    rw [Nat.succ_mul] at h
    have hd : (l.drop w).length = n * w := by rw [List.length_drop]; omega
    have hw : w ≤ l.length := by omega
    rw [Nat.succ_add, chunks, chunks, List.take_append_of_le_length hw, List.drop_append_of_le_length hw,
      chunks_append m k hd, List.cons_append]

theorem drop_chunks : ∀ (a n : Nat) (l : List α), (chunks w n l).drop a = chunks w (n - a) (l.drop (a * w))
  | 0, n, l => by simp
  | a + 1, 0, l => by simp [chunks]
  | a + 1, n + 1, l => by
    rw [chunks, List.drop_succ_cons, drop_chunks a n, List.drop_drop, Nat.succ_mul, Nat.succ_sub_succ, Nat.add_comm w]

theorem take_chunks : ∀ {m n : Nat} (l : List α), m ≤ n → (chunks w n l).take m = chunks w m (l.take (m * w))
  | 0, n, l, _ => by simp [chunks]
  | m + 1, 0, l, h => absurd h (by omega)
  | m + 1, n + 1, l, h => by
    rw [chunks, chunks, List.take_succ_cons, take_chunks (l.drop w) (Nat.le_of_succ_le_succ h), List.take_take,
      Nat.min_eq_left (by rw [Nat.succ_mul]; omega), List.drop_take, Nat.succ_mul, Nat.add_sub_cancel]

/-- Chunks `a` up to `a + m` are the chunks of their elements. -/
theorem slice_chunks {a m n : Nat} (l : List α) (h : a + m ≤ n) :
    ((chunks w n l).drop a).take m = chunks w m ((l.drop (a * w)).take (m * w)) := by
  rw [drop_chunks, take_chunks _ (by omega)]

end

end ShipInfer
