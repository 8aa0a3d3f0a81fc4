import Mathlib.Algebra.BigOperators.Field
import Mathlib.Algebra.Order.BigOperators.Group.Finset
import Mathlib.Algebra.Order.Field.Basic
import Mathlib.Data.List.Perm.Lattice
import Mathlib.Tactic.Linarith

/-!
# Greedy loads, the largest first

Jobs are put on machines one by one, each on the machine that carries the least for its
capacity. Where the jobs come in descending order and the capacities are equal, no machine
carries more than 4/3 of what some machine carries in any other assignment. Whatever the
capacities, so it is when every job is small against an even spread.
-/

namespace ShipInfer.Greedy

section
variable {K ι : Type*} [DecidableEq ι]

/-- The jobs of one machine. -/
def own (l : List (K × ι)) (i : ι) : List K := (l.filter fun p => decide (p.2 = i)).map Prod.fst

theorem own_append (l m : List (K × ι)) (i : ι) : own (l ++ m) i = own l i ++ own m i := by
  simp [own]

theorem own_self (x : K) (i : ι) : own [(x, i)] i = [x] := by
  simp [own]

theorem own_ne {i j : ι} (x : K) (h : i ≠ j) : own [(x, i)] j = [] := by
  simp [own, h]

theorem mem_of_mem_own {l : List (K × ι)} {i : ι} {x : K} (h : x ∈ own l i) : x ∈ l.map Prod.fst := by
  obtain ⟨p, hp, rfl⟩ := List.mem_map.mp h
  exact List.mem_map_of_mem (List.mem_of_mem_filter hp)

theorem own_perm {l m : List (K × ι)} (h : l.Perm m) (i : ι) : (own l i).Perm (own m i) := (h.filter _).map _

/-- What the machines' jobs come to is what all come to. -/
theorem sum_own {A : Type*} [AddCommMonoid A] [Fintype ι] (f : K → A) (l : List (K × ι)) :
    ∑ i, ((own l i).map f).sum = ((l.map Prod.fst).map f).sum := by
  induction l with
  | nil => simp [own]
  | cons p l ih =>
    have hcons : ∀ i, ((own (p :: l) i).map f).sum = (if p.2 = i then f p.1 else 0) + ((own l i).map f).sum := by
      intro i
      by_cases h : p.2 = i <;> simp [own, h]
    simp only [hcons, Finset.sum_add_distrib, ih, List.map_cons, List.sum_cons]
    simp

end

section
variable {K ι : Type*} [AddCommMonoid K] [DecidableEq ι]

def load (l : List (K × ι)) (i : ι) : K := (own l i).sum

theorem load_append_self (l : List (K × ι)) (x : K) (i : ι) : load (l ++ [(x, i)]) i = load l i + x := by
  rw [load, own_append, own_self, List.sum_append, List.sum_singleton, load]

theorem load_append_ne (l : List (K × ι)) (x : K) {i j : ι} (h : i ≠ j) : load (l ++ [(x, i)]) j = load l j := by
  rw [load, own_append, own_ne x h, List.append_nil, load]

theorem sum_load [Fintype ι] (l : List (K × ι)) : ∑ i, load l i = (l.map Prod.fst).sum := by
  have hsum := sum_own id l
  simp only [List.map_id] at hsum
  exact hsum

end

variable {K ι : Type*} [Field K] [LinearOrder K] [IsStrictOrderedRing K] [DecidableEq ι]

theorem load_nonneg {l : List (K × ι)} (h : ∀ x ∈ l.map Prod.fst, 0 ≤ x) (i : ι) : 0 ≤ load l i :=
  List.sum_nonneg fun x hx => h x (mem_of_mem_own hx)

theorem le_load {l : List (K × ι)} (h : ∀ x ∈ l.map Prod.fst, 0 ≤ x) {p : K × ι} (hp : p ∈ l) : p.1 ≤ load l p.2 := by
  have hown : p.1 ∈ own l p.2 := List.mem_map_of_mem (List.mem_filter.mpr ⟨hp, by simp⟩)
  exact List.single_le_sum (fun x hx => h x (mem_of_mem_own hx)) _ hown

/-- The jobs so far, each put where there was the least for the capacity. -/
inductive Run (capacity : ι → K) : List (K × ι) → Prop
  | nil : Run capacity []
  | snoc {l : List (K × ι)} {x : K} {i : ι} (run : Run capacity l)
      (least : ∀ j, load l i / capacity i ≤ load l j / capacity j) : Run capacity (l ++ [(x, i)])

section
variable [Fintype ι]

/-! ## Small jobs -/

/-- Before its last job a machine carried no more than its part of an even spread. -/
theorem Run.even_before {capacity : ι → K} (hcapacity : ∀ i, 0 < capacity i) {l : List (K × ι)} (h : Run capacity l)
    (hpos : ∀ x ∈ l.map Prod.fst, 0 ≤ x) (i : ι) :
    load l i = 0 ∨ ∃ x ∈ l.map Prod.fst, (load l i - x) * ∑ j, capacity j ≤ capacity i * (l.map Prod.fst).sum := by
  induction h with
  | nil => exact .inl (by simp [load, own])
  | @snoc l x k _ least ih =>
    have hl : ∀ y ∈ l.map Prod.fst, 0 ≤ y := fun y hy => hpos y (by rw [List.map_append]; exact List.mem_append_left _ hy)
    have hx : 0 ≤ x := hpos x (by simp)
    have htotal : ((l ++ [(x, k)]).map Prod.fst).sum = (l.map Prod.fst).sum + x := by simp
    by_cases hk : k = i
    · subst hk
      right
      refine ⟨x, by simp, ?_⟩
      rw [load_append_self, add_sub_cancel_right, htotal]
      have heach : ∀ j, load l k * capacity j ≤ capacity k * load l j := by
        intro j
        have := (div_le_div_iff₀ (hcapacity k) (hcapacity j)).mp (least j)
        linarith
      have hsum : load l k * ∑ j, capacity j ≤ capacity k * ∑ j, load l j := by
        rw [Finset.mul_sum, Finset.mul_sum]
        exact Finset.sum_le_sum fun j _ => heach j
      rw [sum_load] at hsum
      have := mul_nonneg (hcapacity k).le hx
      linarith
    · rcases ih hl with hzero | ⟨y, hy, hle⟩
      · left
        rw [load_append_ne l x hk, hzero]
      · right
        refine ⟨y, by rw [List.map_append]; exact List.mem_append_left _ hy, ?_⟩
        rw [load_append_ne l x hk, htotal]
        have := mul_nonneg (hcapacity i).le hx
        linarith

/-- What an even spread gives is not more than some machine carries. -/
theorem sum_le_of_load_le {capacity : ι → K} {l : List (K × ι)} {most : K} (h : ∀ i, load l i ≤ most * capacity i) :
    (l.map Prod.fst).sum ≤ most * ∑ i, capacity i := by
  rw [← sum_load, Finset.mul_sum]
  exact Finset.sum_le_sum fun i _ => h i

/-- **With small jobs the rule is within 4/3**, whatever the capacities. -/
theorem Run.within_of_small {capacity : ι → K} (hcapacity : ∀ i, 0 < capacity i) {l other : List (K × ι)} (h : Run capacity l)
    (hpos : ∀ x ∈ l.map Prod.fst, 0 ≤ x)
    (hsmall : ∀ x ∈ l.map Prod.fst, ∀ i, 3 * x * ∑ j, capacity j ≤ capacity i * (l.map Prod.fst).sum)
    (hother : (other.map Prod.fst).Perm (l.map Prod.fst)) {most : K} (hmost : ∀ i, load other i ≤ most * capacity i) (i : ι) :
    load l i ≤ 4 / 3 * most * capacity i := by
  have hotherpos : ∀ x ∈ other.map Prod.fst, 0 ≤ x := fun x hx => hpos x (hother.mem_iff.mp hx)
  have hnonneg : 0 ≤ most * capacity i := (load_nonneg hotherpos i).trans (hmost i)
  rcases h.even_before hcapacity hpos i with hzero | ⟨x, hx, hbefore⟩
  · rw [hzero]
    linarith
  have htotal : (l.map Prod.fst).sum ≤ most * ∑ j, capacity j := by
    rw [← hother.sum_eq]
    exact sum_le_of_load_le hmost
  have hall : 0 < ∑ j, capacity j := Finset.sum_pos (fun j _ => hcapacity j) ⟨i, Finset.mem_univ i⟩
  have hspread : capacity i * (l.map Prod.fst).sum ≤ capacity i * (most * ∑ j, capacity j) :=
    mul_le_mul_of_nonneg_left htotal (hcapacity i).le
  have hlast := hsmall x hx i
  have hscaled : load l i * ∑ j, capacity j ≤ 4 / 3 * most * capacity i * ∑ j, capacity j := by linarith
  exact le_of_mul_le_mul_right hscaled hall

/-! ## Equal capacities -/

/-- A job counts once, and a big one twice. -/
def twice (least y : K) : Nat := if least ≤ y then 2 else 1

omit [Field K] [IsStrictOrderedRing K] in
theorem length_le_twice (least : K) (xs : List K) : xs.length ≤ (xs.map (twice least)).sum := by
  induction xs with
  | nil => simp
  | cons y xs ih =>
    simp only [List.length_cons, List.map_cons, List.sum_cons, twice]
    split <;> omega

omit [IsStrictOrderedRing K] in
/-- A machine that carries as much as the least has two jobs, or one that is big. -/
theorem two_le {xs : List K} {least : K} (hne : xs ≠ []) (hleast : least ≤ xs.sum) : 2 ≤ (xs.map (twice least)).sum := by
  match xs, hne with
  | [y], _ =>
    have hy : least ≤ y := by simpa using hleast
    simp [twice, hy]
  | y :: z :: rest, _ =>
    have := length_le_twice least (y :: z :: rest)
    simp only [List.length_cons] at this
    omega

/-- Where the least and one more job come to more than `most`, a machine that carries no more
than that has room for two jobs, or one that is big. -/
theorem le_two {xs : List K} {x least most : K} (hx : 0 ≤ x) (hmin : ∀ y ∈ xs, x ≤ y) (hsum : xs.sum ≤ most)
    (hthree : most < 3 * x) (hover : most < least + x) : (xs.map (twice least)).sum ≤ 2 := by
  match xs with
  | [] => simp
  | [y] =>
    simp only [List.map_cons, List.map_nil, List.sum_singleton, twice]
    split <;> omega
  | [y, z] =>
    have hy := hmin y (by simp)
    have hz := hmin z (by simp)
    simp only [List.sum_cons, List.sum_nil, add_zero] at hsum
    have hsmally : ¬least ≤ y := by
      intro hbig
      linarith
    have hsmallz : ¬least ≤ z := by
      intro hbig
      linarith
    simp [twice, hsmally, hsmallz]
  | y :: z :: w :: rest =>
    have hy := hmin y (by simp)
    have hz := hmin z (by simp)
    have hw := hmin w (by simp)
    have hrest : 0 ≤ rest.sum := List.sum_nonneg fun v hv => hx.trans (hmin v (by simp [hv]))
    simp only [List.sum_cons] at hsum
    linarith

/-- The last and smallest job, on the machine that carries the least. -/
theorem last_within {l other : List (K × ι)} {x most : K} {i : ι} (hx : 0 ≤ x) (hmin : ∀ y ∈ l.map Prod.fst, x ≤ y)
    (hleast : ∀ j, load l i ≤ load l j) (hother : (other.map Prod.fst).Perm (l.map Prod.fst ++ [x]))
    (hmost : ∀ j, load other j ≤ most) : load l i + x ≤ 4 / 3 * most := by
  have hpos : ∀ y ∈ l.map Prod.fst, 0 ≤ y := fun y hy => hx.trans (hmin y hy)
  have hotherMin : ∀ y ∈ other.map Prod.fst, x ≤ y := by
    intro y hy
    rcases List.mem_append.mp (hother.mem_iff.mp hy) with hy | hy
    · exact hmin y hy
    · exact (List.mem_singleton.mp hy).ge
  have hotherPos : ∀ y ∈ other.map Prod.fst, 0 ≤ y := fun y hy => hx.trans (hotherMin y hy)
  have hxmost : x ≤ most := by
    obtain ⟨p, hp, hpx⟩ := List.mem_map.mp (hother.mem_iff.mpr (List.mem_append_right _ (List.mem_singleton_self x)))
    exact hpx ▸ (le_load hotherPos hp).trans (hmost p.2)
  by_cases hthree : 3 * x ≤ most
  · -- The job is small: the others alone fill every machine up to there.
    have hcard : (Fintype.card ι : K) * load l i ≤ (l.map Prod.fst).sum := by
      rw [← sum_load, ← nsmul_eq_mul, ← Finset.card_univ, ← Finset.sum_const]
      exact Finset.sum_le_sum fun j _ => hleast j
    have hall : (l.map Prod.fst).sum + x ≤ (Fintype.card ι : K) * most := by
      have hsum := hother.sum_eq
      rw [List.sum_append, List.sum_singleton, ← sum_load] at hsum
      rw [← hsum, ← nsmul_eq_mul, ← Finset.card_univ, ← Finset.sum_const]
      exact Finset.sum_le_sum fun j _ => hmost j
    have hpositive : (0 : K) < Fintype.card ι := by
      exact_mod_cast Fintype.card_pos_iff.mpr ⟨i⟩
    have hle : load l i ≤ most := le_of_mul_le_mul_left (by linarith) hpositive
    linarith
  -- The job is big: no machine of the other assignment has three jobs.
  by_contra hfar
  have hover : most < load l i + x := by linarith [load_nonneg hpos i]
  have hbusy : ∀ j, own l j ≠ [] := by
    intro j hnil
    have hzero : load l j = 0 := by rw [load, hnil, List.sum_nil]
    have := hleast j
    linarith
  have hgreedy : ∑ _j : ι, 2 ≤ ∑ j, ((own l j).map (twice (load l i))).sum :=
    Finset.sum_le_sum fun j _ => two_le (hbusy j) (hleast j)
  have hbound : ∑ j, ((own other j).map (twice (load l i))).sum ≤ ∑ _j : ι, 2 :=
    Finset.sum_le_sum fun j _ => le_two hx (fun y hy => hotherMin y (mem_of_mem_own hy)) (hmost j) (not_le.mp hthree) hover
  have hmore := (hother.map (twice (load l i))).sum_nat
  have hone := length_le_twice (load l i) [x]
  rw [sum_own] at hgreedy hbound
  rw [List.map_append, List.sum_append] at hmore
  simp only [List.length_singleton] at hone
  omega

/-- **With equal capacities, the largest first, the rule is within 4/3.** -/
theorem Run.within_of_even {capacity : ι → K} {each : K} (heach : 0 < each) (heven : ∀ i, capacity i = each)
    {l : List (K × ι)} (h : Run capacity l) :
    (∀ x ∈ l.map Prod.fst, 0 ≤ x) → (l.map Prod.fst).Pairwise (fun x y => y ≤ x) →
      ∀ {other : List (K × ι)}, (other.map Prod.fst).Perm (l.map Prod.fst) → ∀ {most : K}, (∀ i, load other i ≤ most) →
        ∀ i, load l i ≤ 4 / 3 * most := by
  induction h with
  | nil =>
    intro hpos _ other hother most hmost i
    have hnil : other = [] := by simpa using hother
    have := hmost i
    rw [hnil] at this
    have hzero : load ([] : List (K × ι)) i = 0 := by simp [load, own]
    rw [hzero] at this ⊢
    linarith
  | @snoc l x k _ least ih =>
    intro hpos hdesc other hother most hmost i
    rw [List.map_append] at hpos hdesc hother
    have hl : ∀ y ∈ l.map Prod.fst, 0 ≤ y := fun y hy => hpos y (List.mem_append_left _ hy)
    have hx : 0 ≤ x := hpos x (by simp)
    have hmin : ∀ y ∈ l.map Prod.fst, x ≤ y := fun y hy =>
      (List.pairwise_append.mp hdesc).2.2 y hy x (by simp)
    by_cases hk : k = i
    · subst hk
      rw [load_append_self]
      refine last_within hx hmin (fun j => ?_) hother hmost
      have := least j
      rw [heven, heven] at this
      exact (div_le_div_iff_of_pos_right heach).mp this
    · rw [load_append_ne l x hk]
      -- Without the last job the other assignment carries no more.
      obtain ⟨p, hp, hpx⟩ := List.mem_map.mp (hother.mem_iff.mpr (List.mem_append_right _ (List.mem_singleton_self x)))
      have hsplit := List.perm_cons_erase hp
      have hfewer : ((other.erase p).map Prod.fst).Perm (l.map Prod.fst) := by
        have hcons := (hsplit.map Prod.fst).symm.trans (hother.trans (List.perm_append_singleton _ _))
        rw [List.map_cons, hpx] at hcons
        exact hcons.cons_inv
      refine ih hl (List.pairwise_append.mp hdesc).1 hfewer (fun j => ?_) i
      have hp0 : 0 ≤ p.1 := hpx ▸ hx
      have hload : load other j = load [p] j + load (other.erase p) j := by
        rw [load, (own_perm hsplit j).sum_eq, ← List.singleton_append, own_append, List.sum_append]
        rfl
      have hone : 0 ≤ load [p] j := load_nonneg (by simpa using hp0) j
      have := hmost j
      linarith

end

end ShipInfer.Greedy
