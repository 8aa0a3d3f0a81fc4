import ShipInfer.Runners.Walk

/-!
# Two scatter-backs, joined

What `_merge_meta` makes of two branches, key by key: the first to write a key keeps
it, and two scatter-backs join where they agree on every row both have.
-/

namespace ShipInfer.Runners.ChainWalk

open Chain

variable {π ρ ν : Type}

/-- No row has one value here and another there. -/
def AgreeOn (held rows : Dict Nat ρ) : Prop := ∀ row v v', held.get? row = some v → rows.get? row = some v' → v = v'

/-- Two values of one key the walk can join. -/
def Joinable : Option (MetaValue ρ ν) → Option (MetaValue ρ ν) → Prop
  | some (.rowIndexed held), some (.rowIndexed rows) => AgreeOn held rows
  | _, _ => True

/-- What becomes of two values of one key. -/
def JoinsTo : Option (MetaValue ρ ν) → Option (MetaValue ρ ν) → Option (MetaValue ρ ν) → Prop
  | none, value, result => result = value
  | some (.rowIndexed held), some (.rowIndexed rows), result =>
    ∃ union, result = some (.rowIndexed union) ∧ ∀ row, union.get? row = (held.get? row).or (rows.get? row)
  | some value, _, result => result = some value

/-- What a dictionary with one more row in front holds. -/
theorem get?_cons {p : Nat × ρ} {l : List (Nat × ρ)} (hn : ((p :: l).map Prod.fst).Nodup) (hl : (l.map Prod.fst).Nodup) :
    (⟨p :: l, hn⟩ : Dict Nat ρ).get? p.1 = some p.2 ∧ (⟨l, hl⟩ : Dict Nat ρ).get? p.1 = none ∧
      ∀ row, row ≠ p.1 → (⟨p :: l, hn⟩ : Dict Nat ρ).get? row = (⟨l, hl⟩ : Dict Nat ρ).get? row := by
  refine ⟨Dict.get?_eq_some_iff.mpr List.mem_cons_self, ?_, ?_⟩
  · apply Dict.get?_eq_none_iff.mpr
    rw [List.map_cons, List.nodup_cons] at hn
    exact hn.1
  · intro row hne
    simp only [Dict.get?]
    rw [Dict.lookup_cons_ite, if_neg hne]

variable [DecidableEq ρ]

/-! ## Rows -/

section
variable (node : ElementNode) (contributors : List (String × ChainItem π ρ ν)) (key : String)

theorem mergeRows_new {held : Dict Nat ρ} {p : Nat × ρ} {l : List (Nat × ρ)} (hn : ((p :: l).map Prod.fst).Nodup)
    (hl : (l.map Prod.fst).Nodup) (hget : held.get? p.1 = none) :
    mergeRows node contributors key held ⟨p :: l, hn⟩ = mergeRows node contributors key (held.set p.1 p.2) ⟨l, hl⟩ := by
  simp only [mergeRows, List.foldlM_cons, hget]
  rfl

theorem mergeRows_same {held : Dict Nat ρ} {p : Nat × ρ} {l : List (Nat × ρ)} (hn : ((p :: l).map Prod.fst).Nodup)
    (hl : (l.map Prod.fst).Nodup) (hget : held.get? p.1 = some p.2) :
    mergeRows node contributors key held ⟨p :: l, hn⟩ = mergeRows node contributors key held ⟨l, hl⟩ := by
  simp only [mergeRows, List.foldlM_cons, hget, if_true]
  rfl

theorem mergeRows_other {held : Dict Nat ρ} {p : Nat × ρ} {l : List (Nat × ρ)} (hn : ((p :: l).map Prod.fst).Nodup)
    {v : ρ} (hget : held.get? p.1 = some v) (hv : v ≠ p.2) :
    mergeRows node contributors key held ⟨p :: l, hn⟩ =
      .error (.collision node.name key p.1 (claimants key p.1 contributors)) := by
  simp only [mergeRows, List.foldlM_cons, hget, if_neg hv]
  rfl

theorem mergeRows_agree {held rows : Dict Nat ρ} (h : AgreeOn held rows) :
    ∃ union, mergeRows node contributors key held rows = .ok union ∧
      ∀ row, union.get? row = (held.get? row).or (rows.get? row) := by
  obtain ⟨l, hn⟩ := rows
  induction l generalizing held with
  | nil =>
    refine ⟨held, rfl, ?_⟩
    intro row
    simp [Dict.get?]
  | cons p l ih =>
    have hl : (l.map Prod.fst).Nodup := (List.nodup_cons.mp hn).2
    obtain ⟨hfirst, hlater, hother⟩ := get?_cons hn hl
    cases hget : held.get? p.1 with
    | none =>
      have hagree : AgreeOn (held.set p.1 p.2) ⟨l, hl⟩ := by
        intro row v v' hv hv'
        by_cases hrow : row = p.1
        · rw [hrow, hlater] at hv'
          cases hv'
        · rw [Dict.get?_set_ne hrow] at hv
          exact h row v v' hv ((hother row hrow).trans hv')
      obtain ⟨union, hunion, hrows⟩ := ih hl hagree
      refine ⟨union, ?_, ?_⟩
      · rw [mergeRows_new node contributors key hn hl hget]
        exact hunion
      · intro row
        rw [hrows row]
        by_cases hrow : row = p.1
        · rw [hrow, Dict.get?_set_self, hfirst, hget]
          rfl
        · rw [Dict.get?_set_ne hrow, hother row hrow]
    | some v =>
      have hv : v = p.2 := h p.1 v p.2 hget hfirst
      have hagree : AgreeOn held ⟨l, hl⟩ := by
        intro row v v' hv hv'
        by_cases hrow : row = p.1
        · rw [hrow, hlater] at hv'
          cases hv'
        · exact h row v v' hv ((hother row hrow).trans hv')
      obtain ⟨union, hunion, hrows⟩ := ih hl hagree
      refine ⟨union, ?_, ?_⟩
      · rw [mergeRows_same node contributors key hn hl (hv ▸ hget)]
        exact hunion
      · intro row
        rw [hrows row]
        by_cases hrow : row = p.1
        · rw [hrow, hget]
          rfl
        · rw [hother row hrow]

theorem mergeRows_clash {held rows : Dict Nat ρ} (h : ¬ AgreeOn held rows) :
    ∃ e, mergeRows node contributors key held rows = .error e := by
  simp only [AgreeOn, not_forall] at h
  obtain ⟨row, v, v', hv, hv', hne⟩ := h
  obtain ⟨l, hn⟩ := rows
  induction l generalizing held with
  | nil => cases hv'
  | cons p l ih =>
    have hl : (l.map Prod.fst).Nodup := (List.nodup_cons.mp hn).2
    obtain ⟨hfirst, -, hother⟩ := get?_cons hn hl
    by_cases hrow : row = p.1
    · subst hrow
      have hval : v' = p.2 := Option.some.inj (hv'.symm.trans hfirst)
      exact ⟨_, mergeRows_other node contributors key hn hv (hval ▸ hne)⟩
    · rw [hother row hrow] at hv'
      cases hget : held.get? p.1 with
      | none =>
        rw [mergeRows_new node contributors key hn hl hget]
        exact ih ((Dict.get?_set_ne hrow).trans hv) hl hv'
      | some w =>
        by_cases hw : w = p.2
        · rw [mergeRows_same node contributors key hn hl (hw ▸ hget)]
          exact ih hv hl hv'
        · exact ⟨_, mergeRows_other node contributors key hn hget hw⟩

/-! ## Metadata -/

theorem mergeEntry_join {merged : Dict String (MetaValue ρ ν)} {p : String × MetaValue ρ ν}
    (h : Joinable (merged.get? p.1) (some p.2)) : ∃ merged', mergeEntry node contributors merged p = .ok merged' ∧
      JoinsTo (merged.get? p.1) (some p.2) (merged'.get? p.1) ∧ ∀ k, k ≠ p.1 → merged'.get? k = merged.get? k := by
  obtain ⟨k, value⟩ := p
  unfold mergeEntry
  dsimp only at h ⊢
  cases hget : merged.get? k with
  | none => exact ⟨_, rfl, Dict.get?_set_self _ _ _, fun k' hk => Dict.get?_set_ne hk⟩
  | some held =>
    cases held with
    | other v => exact ⟨merged, rfl, hget, fun _ _ => rfl⟩
    | rowIndexed held =>
      cases value with
      | other v => exact ⟨merged, rfl, hget, fun _ _ => rfl⟩
      | rowIndexed rows =>
        rw [hget] at h
        obtain ⟨union, hunion, hrows⟩ := mergeRows_agree node contributors k h
        refine ⟨merged.set k (.rowIndexed union), by dsimp only; rw [hunion]; rfl, ⟨union, Dict.get?_set_self _ _ _, hrows⟩,
          fun k' hk => Dict.get?_set_ne hk⟩

theorem mergeEntry_clash {merged : Dict String (MetaValue ρ ν)} {p : String × MetaValue ρ ν}
    (h : ¬ Joinable (merged.get? p.1) (some p.2)) : ∃ e, mergeEntry node contributors merged p = .error e := by
  obtain ⟨k, value⟩ := p
  unfold mergeEntry
  dsimp only at h ⊢
  cases hget : merged.get? k with
  | none => rw [hget] at h; exact absurd trivial h
  | some held =>
    rw [hget] at h
    cases held with
    | other v => exact absurd trivial h
    | rowIndexed held =>
      cases value with
      | other v => exact absurd trivial h
      | rowIndexed rows =>
        obtain ⟨e, he⟩ := mergeRows_clash node contributors k h
        exact ⟨e, by dsimp only; rw [he]; rfl⟩

/-- One branch into what the others have left: every key joins by itself. -/
theorem mergeBranch_join : ∀ (l : List (String × MetaValue ρ ν)) (merged : Dict String (MetaValue ρ ν)), (l.map Prod.fst).Nodup →
    (∀ k, Joinable (merged.get? k) (l.lookup k)) → ∃ merged', l.foldlM (mergeEntry node contributors) merged = .ok merged' ∧
      ∀ k, (l.lookup k = none → merged'.get? k = merged.get? k) ∧
        (l.lookup k ≠ none → JoinsTo (merged.get? k) (l.lookup k) (merged'.get? k)) := by
  intro l
  induction l with
  | nil => exact fun merged _ _ => ⟨merged, rfl, fun k => ⟨fun _ => rfl, fun h => absurd rfl h⟩⟩
  | cons p l ih =>
    intro merged hn hjoin
    rw [List.map_cons, List.nodup_cons] at hn
    have hfirst : (p :: l).lookup p.1 = some p.2 := by rw [Dict.lookup_cons_ite, if_pos rfl]
    have hother : ∀ k, k ≠ p.1 → (p :: l).lookup k = l.lookup k := fun k hne => by rw [Dict.lookup_cons_ite, if_neg hne]
    have hlater : l.lookup p.1 = none := by
      cases hl : l.lookup p.1 with
      | none => rfl
      | some v => exact absurd (List.mem_map_of_mem ((Dict.lookup_eq_some_iff hn.2).mp hl)) hn.1
    obtain ⟨m, hm, hp, hkeep⟩ := mergeEntry_join node contributors (p := p) (by rw [← hfirst]; exact hjoin p.1)
    obtain ⟨merged', hl, hrest⟩ := ih m hn.2 fun k => by
      by_cases hk : k = p.1
      · rw [hk, hlater]
        unfold Joinable
        split <;> simp_all
      · rw [hkeep k hk, ← hother k hk]
        exact hjoin k
    refine ⟨merged', by rw [List.foldlM_cons, hm]; exact hl, fun k => ?_⟩
    by_cases hk : k = p.1
    · subst hk
      rw [hfirst]
      refine ⟨fun h => absurd h (Option.some_ne_none _), fun _ => ?_⟩
      rw [(hrest p.1).1 hlater]
      exact hp
    · rw [hother k hk, ← hkeep k hk]
      exact hrest k

theorem mergeBranch_clash : ∀ (l : List (String × MetaValue ρ ν)) (merged : Dict String (MetaValue ρ ν)), (l.map Prod.fst).Nodup →
    (∃ k, ¬ Joinable (merged.get? k) (l.lookup k)) → ∃ e, l.foldlM (mergeEntry node contributors) merged = .error e := by
  intro l
  induction l with
  | nil =>
    intro merged _ h
    obtain ⟨k, hk⟩ := h
    refine absurd ?_ hk
    unfold Joinable
    split <;> simp_all
  | cons p l ih =>
    intro merged hn h
    obtain ⟨k, hk⟩ := h
    rw [List.map_cons, List.nodup_cons] at hn
    rw [List.foldlM_cons]
    by_cases hp : Joinable (merged.get? p.1) (some p.2)
    · obtain ⟨m, hm, -, hkeep⟩ := mergeEntry_join node contributors hp
      rw [hm]
      refine ih m hn.2 ⟨k, ?_⟩
      rw [Dict.lookup_cons_ite] at hk
      by_cases hkp : k = p.1
      · subst hkp
        rw [if_pos rfl] at hk
        exact absurd hp hk
      · rwa [if_neg hkp, ← hkeep k hkp] at hk
    · obtain ⟨e, he⟩ := mergeEntry_clash node contributors hp
      exact ⟨e, by rw [he]; rfl⟩

end

end ShipInfer.Runners.ChainWalk
