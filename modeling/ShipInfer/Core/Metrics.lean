import ShipInfer.Lib.Counter

/-!
# Counters shared by threads

`Counter` of `core/metrics`. An increment reads its cell and then writes it:
under the counter's lock when it found no cell, without it else. Each access is
one step, and other threads act between them.
-/

namespace ShipInfer

structure SharedCounter (κ : Type*) where
  values : Counter κ := .empty
  /-- The lock is held. -/
  locked : Bool := false

/-- Where a call of `inc` is. -/
inductive Inc
  | reading
  /-- There was no cell. -/
  | acquiring
  | writing (holds : Bool) (current : Nat)
  deriving DecidableEq

namespace SharedCounter

variable {κ : Type*} [DecidableEq κ]

/-- The next access of an increment by one; `none` when it is done. -/
def inc (c : SharedCounter κ) (k : κ) : Inc → SharedCounter κ × Option Inc
  | .reading =>
    match c.values.get? k with
    | none => (c, some .acquiring)
    | some current => (c, some (.writing false current))
  | .acquiring =>
    if c.locked then (c, some .acquiring)
    else ({ c with locked := true }, some (.writing true ((c.values.get? k).getD 0)))
  | .writing holds current =>
    ({ values := c.values.set k (current + 1), locked := if holds then false else c.locked }, none)

/-- A write finds its cell as it was read. -/
def Current (c : SharedCounter κ) (k : κ) : Inc → Prop
  | .reading | .acquiring => True
  | .writing _ current => (c.values.get? k).getD 0 = current

instance (c : SharedCounter κ) (k : κ) : ∀ i : Inc, Decidable (c.Current k i)
  | .reading => .isTrue trivial
  | .acquiring => .isTrue trivial
  | .writing _ current => inferInstanceAs (Decidable (_ = current))

/-- An increment that loses none adds one when it is done, and nothing before. -/
theorem total_inc {c : SharedCounter κ} {k : κ} {i : Inc} (h : c.Current k i) :
    (c.inc k i).1.values.total = c.values.total + if (c.inc k i).2 = none then 1 else 0 := by
  cases i with
  | reading =>
    unfold inc
    dsimp only
    split <;> simp
  | acquiring =>
    unfold inc
    dsimp only
    split <;> simp
  | writing holds current =>
    obtain rfl : (c.values.get? k).getD 0 = current := h
    exact Counter.total_add c.values k 1

end SharedCounter

end ShipInfer
