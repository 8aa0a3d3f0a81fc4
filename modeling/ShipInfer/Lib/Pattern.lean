import Mathlib.Data.List.TakeWhile

/-!
# Searches and greedy patterns

Where a text first or last occurs in another, patterns made of characters and greedy runs of
characters that are matched with backtracking, and the replacement of every leftmost match.
-/

namespace ShipInfer.Pattern

variable {α β : Type}

section
variable [DecidableEq α]

/-- Where `needle` first begins. -/
def find (needle : List α) : List α → Option Nat
  | [] => if needle = [] then some 0 else none
  | c :: s => if needle <+: c :: s then some 0 else (find needle s).map (· + 1)

/-- Where `c` last stands. -/
def rfind (c : α) : List α → Option Nat
  | [] => none
  | d :: s =>
    match rfind c s with
    | some i => some (i + 1)
    | none => if d = c then some 0 else none

/-- What stands before and after the first `sep`, `none` where there is no `sep`. -/
def partition (sep s : List α) : Option (List α × List α) :=
  (find sep s).map fun i => (s.take i, s.drop (i + sep.length))

/-- What stands before and after the last `c`, `none` where there is no `c`. -/
def rpartition (c : α) (s : List α) : Option (List α × List α) := (rfind c s).map fun i => (s.take i, s.drop (i + 1))

theorem find_first {c : α} {n a : List α} (r : List α) (h : c ∉ a) : find (c :: n) (a ++ (c :: n ++ r)) = some a.length := by
  induction a with
  | nil => simp [find]
  | cons d a ih =>
    simp only [List.mem_cons, not_or] at h
    have hi := ih h.2
    simp only [List.cons_append] at hi
    simp [find, h.1, hi]

/-- A text that is not empty is found where it stands and nowhere earlier. -/
theorem find_eq_some {needle s : List α} {i : Nat} (hne : needle ≠ []) (h : find needle s = some i) :
    (∃ r, s = s.take i ++ (needle ++ r) ∧ i ≤ s.length) ∧ ∀ f g, s = f ++ g → f.length < i → ¬ needle <+: g := by
  induction s generalizing i with
  | nil => simp [find, hne] at h
  | cons c s ih =>
    by_cases hp : needle <+: c :: s
    · simp only [find, hp, if_true, Option.some.injEq] at h
      subst h
      obtain ⟨r, hr⟩ := hp
      refine ⟨⟨r, by simp [hr], by simp⟩, ?_⟩
      intro f g _ hlt
      simp at hlt
    · simp only [find, hp, if_false, Option.map_eq_some_iff] at h
      obtain ⟨j, hj, rfl⟩ := h
      obtain ⟨⟨r, hr, hle⟩, hfirst⟩ := ih hj
      refine ⟨⟨r, by simpa using hr, by simpa using hle⟩, ?_⟩
      intro f g hfg hlt
      cases f with
      | nil =>
        simp only [List.nil_append] at hfg
        rwa [← hfg]
      | cons d f =>
        simp only [List.cons_append, List.cons.injEq] at hfg
        apply hfirst f g hfg.2
        simpa using hlt

theorem find_eq_none {needle s : List α} (hne : needle ≠ []) (h : find needle s = none) :
    ∀ f g, s = f ++ g → ¬ needle <+: g := by
  induction s with
  | nil =>
    intro f g hfg hp
    obtain ⟨-, rfl⟩ := List.append_eq_nil_iff.mp hfg.symm
    exact hne (List.prefix_nil.mp hp)
  | cons c s ih =>
    by_cases hp : needle <+: c :: s
    · simp [find, hp] at h
    · simp only [find, hp, if_false, Option.map_eq_none_iff] at h
      intro f g hfg
      cases f with
      | nil =>
        simp only [List.nil_append] at hfg
        rwa [← hfg]
      | cons d f =>
        simp only [List.cons_append, List.cons.injEq] at hfg
        exact ih h f g hfg.2

@[simp] theorem rfind_eq_none {c : α} {s : List α} : rfind c s = none ↔ c ∉ s := by
  induction s with
  | nil => simp [rfind]
  | cons d s ih =>
    cases hs : rfind c s with
    | none =>
      have hmem := ih.mp hs
      by_cases hd : d = c
      · simp [rfind, hs, hd]
      · have hcd : c ≠ d := fun he => hd he.symm
        simp [rfind, hs, hd, hcd, hmem]
    | some i =>
      have hmem : c ∈ s := by
        by_contra hn
        simp [ih.mpr hn] at hs
      simp [rfind, hs, hmem]

/-- The last place is the one no other follows. -/
theorem rfind_eq_some {c : α} {s : List α} {i : Nat} :
    rfind c s = some i ↔ ∃ a b, s = a ++ c :: b ∧ c ∉ b ∧ a.length = i := by
  induction s generalizing i with
  | nil => simp [rfind]
  | cons d s ih =>
    constructor
    · intro h
      cases hs : rfind c s with
      | some j =>
        obtain ⟨a, b, rfl, hb, rfl⟩ := ih.mp hs
        simp only [rfind, hs, Option.some.injEq] at h
        exact ⟨d :: a, b, rfl, hb, by simpa using h⟩
      | none =>
        simp only [rfind, hs] at h
        split at h
        · rename_i hd
          refine ⟨[], s, by simp [hd], rfind_eq_none.mp hs, ?_⟩
          simpa using h
        · cases h
    · intro h
      obtain ⟨a, b, hs, hb, rfl⟩ := h
      cases a with
      | nil =>
        simp only [List.nil_append, List.cons.injEq] at hs
        obtain ⟨rfl, rfl⟩ := hs
        simp [rfind, rfind_eq_none.mpr hb]
      | cons e a =>
        simp only [List.cons_append, List.cons.injEq] at hs
        obtain ⟨rfl, rfl⟩ := hs
        simp [rfind, ih.mpr ⟨a, b, rfl, hb, rfl⟩]

theorem partition_first {c : α} {n a : List α} (r : List α) (h : c ∉ a) :
    partition (c :: n) (a ++ (c :: n ++ r)) = some (a, r) := by
  simp only [partition, find_first r h, Option.map_some, List.take_left']
  rw [← List.append_assoc, List.drop_left' (by simp)]

theorem rpartition_last {c : α} {a b : List α} (h : c ∉ b) : rpartition c (a ++ c :: b) = some (a, b) := by
  have hi : rfind c (a ++ c :: b) = some a.length := rfind_eq_some.mpr ⟨a, b, rfl, h, rfl⟩
  simp only [rpartition, hi, Option.map_some, List.take_left']
  rw [List.append_cons, List.drop_left' (by simp)]

end

theorem takeWhile_dropWhile (p : α → Bool) (s : List α) : (s.dropWhile p).takeWhile p = [] := by
  induction s with
  | nil => rfl
  | cons c s ih =>
    by_cases hc : p c = true
    · simpa [hc] using ih
    · simp [hc]

theorem of_mem_head?_dropWhile {p : α → Bool} {s : List α} {c : α} (h : c ∈ (s.dropWhile p).head?) : p c = false := by
  have hnil := takeWhile_dropWhile p s
  cases hs : s.dropWhile p with
  | nil => simp [hs] at h
  | cons d t =>
    rw [hs] at h hnil
    obtain rfl : d = c := by simpa using h
    cases hd : p d with
    | false => rfl
    | true => simp [hd] at hnil

/-- A run that stops in a text does not depend on what follows it. -/
theorem takeWhile_append_of_stop {p : α → Bool} {s r : List α} (h : ∃ c ∈ s, p c = false) :
    (s ++ r).takeWhile p = s.takeWhile p := by
  induction s with
  | nil => simp at h
  | cons c s ih =>
    by_cases hc : p c = true
    · have hs : ∃ d ∈ s, p d = false := by simpa [hc] using h
      simp [hc, ih hs]
    · simp [hc]

/-- One character of a class, or as many as there are. -/
inductive Piece (α : Type) where
  | one (p : α → Bool)
  | many (p : α → Bool)

/-- As many characters of `p` as leave `k` something to accept, the longest run first. -/
def greedy (p : α → Bool) (k : List α → Option β) : List α → Option (List α × β)
  | [] => (k []).map ([], ·)
  | c :: s =>
    ((if p c then greedy p k s else none).map fun r => (c :: r.1, r.2)).or ((k (c :: s)).map ([], ·))

def Piece.run (k : List α → Option β) : Piece α → List α → Option (List α × β)
  | .one _, [] => none
  | .one p, c :: s => if p c then (k s).map ([c], ·) else none
  | .many p, s => greedy p k s

/-- The pieces of one group, with what the group took. -/
def runGroup (k : List α → Option β) : List (Piece α) → List α → Option (List α × β)
  | [], s => (k s).map ([], ·)
  | p :: ps, s => (p.run (runGroup k ps) s).map fun r => (r.1 ++ r.2.1, r.2.2)

/-- The first match of the groups one after another: what each took, and what is left. -/
def runGroups : List (List (Piece α)) → List α → Option (List (List α) × List α)
  | [], s => some ([], s)
  | g :: gs, s => (runGroup (runGroups gs) g s).map fun r => (r.1 :: r.2.1, r.2.2)

theorem runGroups_cons (g : List (Piece α)) (gs : List (List (Piece α))) (s : List α) :
    runGroups (g :: gs) s = (runGroup (runGroups gs) g s).map fun r => (r.1 :: r.2.1, r.2.2) := rfl

section
variable (k : List α → Option β) (p : α → Bool) (ps : List (Piece α)) (c : α) (s : List α)

theorem runGroup_nil : runGroup k [] s = (k s).map ([], ·) := rfl

@[simp] theorem runGroup_one_nil : runGroup k (.one p :: ps) [] = none := rfl

theorem runGroup_one (h : p c = true) :
    runGroup k (.one p :: ps) (c :: s) = (runGroup k ps s).map fun r => (c :: r.1, r.2) := by
  simp only [runGroup, Piece.run, h, if_true, Option.map_map]
  rfl

theorem runGroup_one_refused (h : ¬ p c = true) : runGroup k (.one p :: ps) (c :: s) = none := by
  simp [runGroup, Piece.run, h]

theorem runGroup_many :
    runGroup k (.many p :: ps) s = (greedy p (runGroup k ps) s).map fun r => (r.1 ++ r.2.1, r.2.2) := rfl

end

/-- No run is given back where `k` accepts nothing that could have been in it. -/
theorem greedy_of_refused {p : α → Bool} {k : List α → Option β} (h : ∀ c s, p c = true → k (c :: s) = none)
    (s : List α) : greedy p k s = (k (s.dropWhile p)).map (s.takeWhile p, ·) := by
  induction s with
  | nil => simp [greedy]
  | cons c s ih =>
    by_cases hc : p c = true
    · cases hk : k (s.dropWhile p) with
      | none => simp [greedy, hc, ih, h c s hc, hk]
      | some b => simp [greedy, hc, ih, hk]
    · simp [greedy, hc]

/-- What `k` makes of the text behind a `c`. -/
def behind [DecidableEq α] (c : α) (k : List α → β) : List α → Option β
  | [] => none
  | d :: r => if d = c then some (k r) else none

/-- A run before a character it may hold goes up to the last one. -/
theorem greedy_last [DecidableEq α] {p : α → Bool} {c : α} (hc : p c = true) (k : List α → β) (s : List α) :
    greedy p (behind c k) s = (rfind c (s.takeWhile p)).map fun i => (s.take i, k (s.drop (i + 1))) := by
  induction s with
  | nil => simp [greedy, behind, rfind]
  | cons d s ih =>
    by_cases hd : p d = true
    · cases hi : rfind c (s.takeWhile p) with
      | none =>
        rw [hi] at ih
        by_cases hdc : d = c
        · simp [greedy, behind, ih, rfind, hi, hdc, hc]
        · simp [greedy, behind, hd, ih, rfind, hi, hdc]
      | some i =>
        rw [hi] at ih
        simp [greedy, behind, hd, ih, rfind, hi]
    · have hdc : d ≠ c := by
        intro he
        subst he
        exact hd hc
      simp [greedy, behind, hd, rfind, hdc]

/-- Every leftmost match rewritten, the characters that are in none kept: `rewrite` gives the
new text of a match that begins here and what is left after it; `skip` characters are in the
match before. -/
def subFrom (rewrite : List α → Option (List α × List α)) : Nat → List α → List α
  | _, [] => []
  | skip + 1, _ :: s => subFrom rewrite skip s
  | 0, c :: s =>
    match rewrite (c :: s) with
    | some (out, rest) => out ++ subFrom rewrite (s.length - rest.length) s
    | none => c :: subFrom rewrite 0 s

def sub (rewrite : List α → Option (List α × List α)) (s : List α) : List α := subFrom rewrite 0 s

section
variable {rewrite : List α → Option (List α × List α)}

theorem subFrom_eq_drop (skip : Nat) (s : List α) : subFrom rewrite skip s = sub rewrite (s.drop skip) := by
  induction s generalizing skip with
  | nil => cases skip <;> simp [subFrom, sub]
  | cons c s ih =>
    cases skip with
    | zero => rfl
    | succ skip => simp [subFrom, ih]

@[simp] theorem sub_nil : sub rewrite [] = [] := rfl

theorem sub_miss {c : α} {s : List α} (h : rewrite (c :: s) = none) : sub rewrite (c :: s) = c :: sub rewrite s := by
  simp [sub, subFrom, h]

theorem sub_hit {x out rest : List α} (hx : x ≠ []) (h : rewrite (x ++ rest) = some (out, rest)) :
    sub rewrite (x ++ rest) = out ++ sub rewrite rest := by
  cases x with
  | nil => exact absurd rfl hx
  | cons c x =>
    rw [List.cons_append] at h
    have hdrop : (x ++ rest).drop ((x ++ rest).length - rest.length) = rest := by simp
    rw [List.cons_append, sub, subFrom, h]
    simp only
    rw [subFrom_eq_drop, hdrop]

/-- What begins no match is kept. -/
theorem sub_append_of_misses {d r : List α} (h : ∀ f g, d = f ++ g → g ≠ [] → rewrite (g ++ r) = none) :
    sub rewrite (d ++ r) = d ++ sub rewrite r := by
  induction d with
  | nil => rfl
  | cons c d ih =>
    have hmiss : rewrite (c :: (d ++ r)) = none := h [] (c :: d) rfl (by simp)
    rw [List.cons_append, sub_miss hmiss, ih, List.cons_append]
    intro f g hfg hg
    apply h (c :: f) g _ hg
    rw [hfg, List.cons_append]

end

end ShipInfer.Pattern
