import Mathlib.Data.List.Sort
import Mathlib.Order.Compare
import Std.Data.TreeMap.Lemmas

/-!
# Maps in key order

`Std.TreeMap` over a linear order, read as the list of its pairs: the list is
strictly sorted by key, so it is known once its members are. Erasing filters
it, inserting a key above all others appends to it, and erasing the first pair
drops its head.
-/

namespace ShipInfer.SortedMap

open Std (TreeMap)

variable {α β : Type} [LinearOrder α]

theorem toList_sorted (t : TreeMap α β) : t.toList.Pairwise fun p q => p.1 < q.1 :=
  t.ordered_keys_toList.imp fun h => compare_lt_iff_lt.mp h

theorem mem_toList {t : TreeMap α β} {k : α} {v : β} : (k, v) ∈ t.toList ↔ t[k]? = some v :=
  TreeMap.mem_toList_iff_getElem?_eq_some

/-- A strictly sorted list with the map's pairs is the map's list. -/
theorem toList_eq {t : TreeMap α β} {l : List (α × β)} (hl : l.Pairwise fun p q => p.1 < q.1)
    (h : ∀ p, p ∈ l ↔ p ∈ t.toList) : t.toList = l := by
  have hn : ∀ {l : List (α × β)}, l.Pairwise (fun p q => p.1 < q.1) → l.Nodup := fun hl =>
    hl.imp fun hlt heq => absurd (heq ▸ hlt) (lt_irrefl _)
  have hp : t.toList.Perm l :=
    (List.perm_ext_iff_of_nodup (hn (toList_sorted t)) (hn hl)).mpr fun p => (h p).symm
  exact hp.eq_of_pairwise (fun p q _ _ hpq hqp => absurd (hpq.trans hqp) (lt_irrefl _)) (toList_sorted t) hl

theorem getElem?_insert [DecidableEq α] (t : TreeMap α β) (k : α) (v : β) (a : α) :
    (t.insert k v)[a]? = if a = k then some v else t[a]? := by
  rw [TreeMap.getElem?_insert]
  by_cases h : a = k
  · rw [if_pos h, if_pos (compare_eq_iff_eq.mpr h.symm)]
  · rw [if_neg h, if_neg fun hc => h (compare_eq_iff_eq.mp hc).symm]

theorem getElem?_erase [DecidableEq α] (t : TreeMap α β) (k a : α) :
    (t.erase k)[a]? = if a = k then none else t[a]? := by
  rw [TreeMap.getElem?_erase]
  by_cases h : a = k
  · rw [if_pos h, if_pos (compare_eq_iff_eq.mpr h.symm)]
  · rw [if_neg h, if_neg fun hc => h (compare_eq_iff_eq.mp hc).symm]

theorem mem_toList_erase {t : TreeMap α β} {k : α} {p : α × β} :
    p ∈ (t.erase k).toList ↔ p ∈ t.toList ∧ p.1 ≠ k := by
  obtain ⟨a, b⟩ := p
  rw [mem_toList, mem_toList, getElem?_erase]
  by_cases h : a = k <;> simp [h]

theorem mem_toList_insert {t : TreeMap α β} {k : α} {v : β} {p : α × β} :
    p ∈ (t.insert k v).toList ↔ p = (k, v) ∨ (p ∈ t.toList ∧ p.1 ≠ k) := by
  obtain ⟨a, b⟩ := p
  rw [mem_toList, mem_toList, getElem?_insert]
  by_cases h : a = k
  · subst h; simp [eq_comm]
  · simp [h]

theorem toList_erase (t : TreeMap α β) (k : α) :
    (t.erase k).toList = t.toList.filter fun p => decide (p.1 ≠ k) := by
  refine toList_eq ((toList_sorted t).sublist List.filter_sublist) fun p => ?_
  rw [mem_toList_erase, List.mem_filter, decide_eq_true_eq]

theorem toList_insert_of_lt {t : TreeMap α β} {k : α} {v : β} (h : ∀ p ∈ t.toList, p.1 < k) :
    (t.insert k v).toList = t.toList ++ [(k, v)] := by
  refine toList_eq ?_ fun p => ?_
  · rw [List.pairwise_append]
    refine ⟨toList_sorted t, List.pairwise_singleton _ _, fun p hp q hq => ?_⟩
    rw [List.mem_singleton.mp hq]; exact h p hp
  · rw [mem_toList_insert, List.mem_append, List.mem_singleton]
    constructor
    · rintro (hp | hp)
      · exact ⟨hp, (h p hp).ne⟩ |> fun hp' => .inr hp'
      · exact .inl hp
    · rintro (hp | hp)
      · exact .inr hp
      · exact .inl hp.1

theorem toList_insert_perm {t : TreeMap α β} {k : α} (v : β) (h : ∀ p ∈ t.toList, p.1 ≠ k) :
    (t.insert k v).toList.Perm (t.toList ++ [(k, v)]) := by
  have hn : ∀ t : TreeMap α β, t.toList.Nodup := fun t =>
    (toList_sorted t).imp fun hlt heq => absurd (heq ▸ hlt) (lt_irrefl _)
  refine (List.perm_ext_iff_of_nodup (hn _) ?_).mpr fun p => ?_
  · refine List.nodup_append.mpr ⟨hn t, List.nodup_singleton _, fun p hp q hq => ?_⟩
    rw [List.mem_singleton.mp hq]
    rintro rfl
    exact h _ hp rfl
  · rw [mem_toList_insert, List.mem_append, List.mem_singleton]
    constructor
    · rintro (hp | hp)
      · exact .inr hp
      · exact .inl hp.1
    · rintro (hp | hp)
      · exact .inr ⟨hp, h p hp⟩
      · exact .inl hp

theorem toList_nodup (t : TreeMap α β) : t.toList.Nodup :=
  (toList_sorted t).imp fun hlt heq => absurd (heq ▸ hlt) (lt_irrefl _)

theorem nodup_keys (t : TreeMap α β) : (t.toList.map Prod.fst).Nodup :=
  List.pairwise_map.mpr ((toList_sorted t).imp fun hlt => hlt.ne)

/-- A pair and the rest of the map. -/
theorem toList_perm {t : TreeMap α β} {k : α} {v : β} (h : t[k]? = some v) :
    t.toList.Perm ((k, v) :: (t.erase k).toList) := by
  have hnew : (k, v) ∉ (t.erase k).toList := fun hmem => (mem_toList_erase.mp hmem).2 rfl
  refine (List.perm_ext_iff_of_nodup (toList_nodup t) (List.nodup_cons.mpr ⟨hnew, toList_nodup _⟩)).mpr fun p => ?_
  rw [List.mem_cons, mem_toList_erase]
  constructor
  · intro hp
    by_cases hk : p.1 = k
    · obtain ⟨a, b⟩ := p
      have hval := mem_toList.mp hp
      dsimp only at hk
      rw [hk, h] at hval
      exact .inl (Prod.ext hk (Option.some.inj hval).symm)
    · exact .inr ⟨hp, hk⟩
  · intro hp
    cases hp with
    | inl hp => exact hp ▸ mem_toList.mpr h
    | inr hp => exact hp.1

theorem toList_insert (t : TreeMap α β) (k : α) (v : β) : (t.insert k v).toList.Perm ((k, v) :: (t.erase k).toList) := by
  have hnew : (k, v) ∉ (t.erase k).toList := fun hmem => (mem_toList_erase.mp hmem).2 rfl
  refine (List.perm_ext_iff_of_nodup (toList_nodup _) (List.nodup_cons.mpr ⟨hnew, toList_nodup _⟩)).mpr fun p => ?_
  rw [List.mem_cons, mem_toList_insert, mem_toList_erase]

/-- `m.erase(m.begin())`; an empty map stays empty. -/
def eraseFirst (t : TreeMap α β) : TreeMap α β :=
  match t.toList with
  | [] => t
  | p :: _ => t.erase p.1

theorem toList_eraseFirst (t : TreeMap α β) : (eraseFirst t).toList = t.toList.tail := by
  unfold eraseFirst
  have hs := toList_sorted t
  cases h : t.toList with
  | nil => exact h
  | cons p l =>
    rw [h, List.pairwise_cons] at hs
    rw [toList_erase, h, List.filter_cons_of_neg (by simp), List.tail_cons]
    exact List.filter_eq_self.mpr fun q hq => by simpa using (hs.1 q hq).ne'

/-- `while (m.size() > limit) m.erase(m.begin());` -/
def trim (t : TreeMap α β) (limit : Nat) : TreeMap α β := Nat.iterate eraseFirst (t.size - limit) t

theorem toList_iterate_eraseFirst : ∀ (n : Nat) (t : TreeMap α β),
    (Nat.iterate eraseFirst n t).toList = t.toList.drop n
  | 0, _ => rfl
  | n + 1, t => by
    show (Nat.iterate eraseFirst n (eraseFirst t)).toList = t.toList.drop (n + 1)
    rw [toList_iterate_eraseFirst n, toList_eraseFirst, List.drop_tail]

theorem toList_trim (t : TreeMap α β) (limit : Nat) :
    (trim t limit).toList = t.toList.drop (t.toList.length - limit) := by
  rw [trim, toList_iterate_eraseFirst, TreeMap.length_toList]

/-- What is below the rest comes first in the sorted order: dropping `n` pairs that
are below the others drops the first `n` of the sorted list. -/
theorem drop_perm {n : Nat} {l m : List (α × β)} (hp : l.Perm m) (hm : m.Pairwise fun p q => p.1 < q.1)
    (hl : ∀ p ∈ l.take n, ∀ q ∈ l.drop n, p.1 < q.1) : (l.drop n).Perm (m.drop n) := by
  let le : α × β → α × β → Bool := fun p q => decide (p.1 ≤ q.1)
  have trans : ∀ p q r, le p q = true → le q r = true → le p r = true := by
    simp only [le, decide_eq_true_eq]; exact fun p q r => le_trans
  have total : ∀ p q, (le p q || le q p) = true := by
    simp only [le, Bool.or_eq_true, decide_eq_true_eq]; exact fun p q => le_total _ _
  let low := (l.take n).mergeSort le
  let high := (l.drop n).mergeSort le
  have hlow : low.Perm (l.take n) := List.mergeSort_perm _ _
  have hhigh : high.Perm (l.drop n) := List.mergeSort_perm _ _
  have hperm : (low ++ high).Perm m :=
    (hlow.append hhigh).trans ((List.take_append_drop n l).symm ▸ hp)
  have hsorted : (low ++ high).Pairwise fun p q => le p q = true := by
    refine List.pairwise_append.mpr ⟨List.pairwise_mergeSort trans total _,
      List.pairwise_mergeSort trans total _, fun p h q h' => ?_⟩
    exact decide_eq_true (hl p (hlow.mem_iff.mp h) q (hhigh.mem_iff.mp h')).le
  have hkeys : ∀ p ∈ m, ∀ q ∈ m, p.1 = q.1 → p = q := by
    have hn : (m.map Prod.fst).Nodup := List.pairwise_map.mpr (hm.imp fun h => h.ne)
    exact fun p h q h' => List.inj_on_of_nodup_map hn h h'
  have heq : low ++ high = m := by
    refine hperm.eq_of_pairwise (fun p q h h' hpq hqp => ?_) hsorted (hm.imp fun h => decide_eq_true h.le)
    exact hkeys p (hperm.mem_iff.mp h) q h' (le_antisymm (of_decide_eq_true hpq) (of_decide_eq_true hqp))
  by_cases hlen : n ≤ l.length
  · have : low.length = n := by rw [hlow.length_eq, List.length_take, min_eq_left hlen]
    rw [← heq, ← this, List.drop_left, this]
    exact hhigh.symm
  · rw [List.drop_eq_nil_of_le (by omega), List.drop_eq_nil_of_le (by rw [← hp.length_eq]; omega)]

end ShipInfer.SortedMap
