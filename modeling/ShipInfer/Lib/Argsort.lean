import Mathlib.Data.List.Sort

/-!
# Ranking by a key, ties by position

A stable ascending sort read backwards puts the greatest key first and, of equal
keys, the one that stood last. On a list in order of position that is a strict
order, so the ranking is the only list in it (`descending_unique`).
-/

namespace ShipInfer

variable {α κ ι : Type*} [LinearOrder κ] [LinearOrder ι]

/-- A stable ascending sort. -/
def ascending (key : α → κ) (l : List α) : List α := l.insertionSort fun a b => key a ≤ key b

/-- The ascending sort, read backwards. -/
def descending (key : α → κ) (l : List α) : List α := (ascending key l).reverse

/-- The order a descending ranking is in. -/
def Outranks (key : α → κ) (pos : α → ι) (a b : α) : Prop := key b < key a ∨ key b = key a ∧ pos b < pos a

/-- Each of the first `n` has a greater key than all that come after it. -/
def Leads (key : α → κ) : Nat → List α → Prop
  | 0, _ => True
  | _, [] => True
  | n + 1, a :: l => (∀ b ∈ l, key b < key a) ∧ Leads key n l

instance decidableLeads (key : α → κ) : ∀ (n : Nat) (l : List α), Decidable (Leads key n l)
  | 0, _ => .isTrue trivial
  | _ + 1, [] => .isTrue trivial
  | n + 1, _ :: l =>
    have := decidableLeads key n l
    inferInstanceAs (Decidable (_ ∧ _))

section
variable {key : α → κ} {pos : α → ι}

theorem Outranks.asymm {a b : α} (h : Outranks key pos a b) : ¬ Outranks key pos b a := by
  intro h'
  rcases h with h | ⟨hk, hp⟩ <;> rcases h' with h' | ⟨hk', hp'⟩
  · exact lt_asymm h h'
  · exact h.ne hk'.symm
  · exact h'.ne hk.symm
  · exact lt_asymm hp hp'

theorem descending_perm (key : α → κ) (l : List α) : (descending key l).Perm l :=
  (List.reverse_perm _).trans (List.perm_insertionSort _ l)

theorem mem_descending {l : List α} {a : α} : a ∈ descending key l ↔ a ∈ l := (descending_perm key l).mem_iff

theorem orderedInsert_ranked {a : α} : ∀ {l : List α}, (∀ b ∈ l, pos a < pos b) →
    l.Pairwise (fun b c => Outranks key pos c b) →
    (l.orderedInsert (fun b c => key b ≤ key c) a).Pairwise (fun b c => Outranks key pos c b)
  | [], _, _ => by simp
  | b :: l, ha, hl => by
    have hhead : ∀ c ∈ l, Outranks key pos c b := fun _ hc => List.rel_of_pairwise_cons hl hc
    rw [List.orderedInsert_cons]
    split
    · rename_i hle
      have hab : Outranks key pos b a := by
        rcases hle.lt_or_eq with hlt | heq
        · exact .inl hlt
        · exact .inr ⟨heq, ha b List.mem_cons_self⟩
      refine List.pairwise_cons.mpr ⟨fun c hc => ?_, hl⟩
      rcases List.mem_cons.mp hc with rfl | hc
      · exact hab
      · rcases hhead c hc with hlt | ⟨heq, -⟩
        · exact .inl (hle.trans_lt hlt)
        · rcases (heq ▸ hle : key a ≤ key c).lt_or_eq with hlt | hac
          · exact .inl hlt
          · exact .inr ⟨hac, ha c (List.mem_cons_of_mem _ hc)⟩
    · rename_i hlt
      have ih := orderedInsert_ranked (fun c hc => ha c (List.mem_cons_of_mem _ hc)) (List.Pairwise.of_cons hl)
      refine List.pairwise_cons.mpr ⟨fun c hc => ?_, ih⟩
      rcases (List.mem_orderedInsert _).mp hc with rfl | hc
      · exact .inl (not_le.mp hlt)
      · exact hhead c hc

theorem descending_ranked : ∀ {l : List α}, l.Pairwise (fun a b => pos a < pos b) →
    (descending key l).Pairwise (Outranks key pos)
  | [], _ => .nil
  | a :: l, h => by
    have ih : (descending key l).Pairwise (Outranks key pos) := descending_ranked (List.Pairwise.of_cons h)
    refine List.pairwise_reverse.mpr (orderedInsert_ranked ?_ (List.pairwise_reverse.mp ih))
    intro b hb
    exact List.rel_of_pairwise_cons h ((List.mem_insertionSort _).mp hb)

/-- A ranked list is the ranking of its elements. -/
theorem descending_unique {l r : List α} (h : l.Pairwise fun a b => pos a < pos b) (hperm : r.Perm l)
    (hr : r.Pairwise (Outranks key pos)) : descending key l = r :=
  ((descending_perm key l).trans hperm.symm).eq_of_pairwise (fun _ _ _ _ hab hba => absurd hba hab.asymm)
    (descending_ranked h) hr

theorem ascending_pos {l : List α} (h : l.Pairwise fun a b => pos a ≠ pos b) :
    (ascending pos l).Pairwise fun a b => pos a < pos b := by
  have hperm : (ascending pos l).Perm l := List.perm_insertionSort _ l
  have hle : (ascending pos l).Pairwise fun a b => pos a ≤ pos b := by
    have : Std.Total fun a b : α => pos a ≤ pos b := ⟨fun a b => le_total _ _⟩
    have : IsTrans α fun a b => pos a ≤ pos b := ⟨fun a b c => le_trans⟩
    exact List.pairwise_insertionSort _ l
  have hne : (ascending pos l).Pairwise fun a b => pos a ≠ pos b := (hperm.pairwise_iff fun h => h.symm).mpr h
  exact (hle.and hne).imp fun h => lt_of_le_of_ne h.1 h.2

/-- Putting the best `n` back in order of position and ranking them again changes nothing. -/
theorem descending_ascending_take {l : List α} (h : l.Pairwise fun a b => pos a < pos b) (n : Nat) :
    descending key (ascending pos ((descending key l).take n)) = (descending key l).take n := by
  have hranked : ((descending key l).take n).Pairwise (Outranks key pos) :=
    (descending_ranked h).sublist (List.take_sublist _ _)
  have hne : ((descending key l).take n).Pairwise fun a b => pos a ≠ pos b := by
    have hall : (descending key l).Pairwise fun a b => pos a ≠ pos b :=
      ((descending_perm key l).pairwise_iff fun h => h.symm).mpr (h.imp fun hlt => hlt.ne)
    exact hall.sublist (List.take_sublist _ _)
  exact descending_unique (ascending_pos hne) (List.perm_insertionSort _ _).symm hranked

theorem descending_cons {a : α} {l : List α} (h : (a :: l).Pairwise fun b c => pos b < pos c)
    (ha : ∀ b ∈ l, key b < key a) : descending key (a :: l) = a :: descending key l := by
  refine descending_unique h ((descending_perm key l).cons a) (List.pairwise_cons.mpr ⟨fun b hb => ?_, ?_⟩)
  · exact .inl (ha b (mem_descending.mp hb))
  · exact descending_ranked (List.Pairwise.of_cons h)

/-- The ranking starts as the list does just when the list's first lead. -/
theorem take_descending_eq_iff : ∀ {l : List α} (n : Nat), l.Pairwise (fun a b => pos a < pos b) →
    ((descending key l).take n = l.take n ↔ Leads key n l)
  | _, 0, _ => by simp [Leads]
  | [], n + 1, _ => by simp [Leads, descending, ascending]
  | a :: l, n + 1, h => by
    have ih : (descending key l).take n = l.take n ↔ Leads key n l := take_descending_eq_iff n (List.Pairwise.of_cons h)
    constructor
    · intro heq
      have hlead : ∀ b ∈ l, key b < key a := by
        intro b hb
        have hpos : pos a < pos b := List.rel_of_pairwise_cons h hb
        have hranked : (descending key (a :: l)).Pairwise (Outranks key pos) := descending_ranked h
        have hmem : b ∈ descending key (a :: l) := mem_descending.mpr (List.mem_cons_of_mem a hb)
        cases hd : descending key (a :: l) with
        | nil => simp [hd] at hmem
        | cons c r =>
          rw [hd] at heq hranked hmem
          obtain rfl : c = a := (List.cons.inj heq).1
          rcases List.mem_cons.mp hmem with rfl | hr
          · exact absurd hpos (lt_irrefl _)
          · rcases List.rel_of_pairwise_cons hranked hr with hlt | ⟨-, hlt⟩
            · exact hlt
            · exact absurd hlt hpos.asymm
      rw [descending_cons h hlead] at heq
      exact ⟨hlead, ih.mp (List.cons.inj heq).2⟩
    · rintro ⟨hlead, hrest⟩
      rw [descending_cons h hlead, List.take_succ_cons, List.take_succ_cons, ih.mpr hrest]

end

end ShipInfer
