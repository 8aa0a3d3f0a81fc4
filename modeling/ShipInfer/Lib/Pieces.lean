import Mathlib.Data.List.Nodup

/-!
# Ranges laid end to end, and a piece for each

A range of places is sent for and answered by a piece; the pieces are put together
again. `own` is the entry of a place in the piece its own range was answered with. In
the whole it stands at that place when every piece has the length of its range, and,
where entries can be told apart, only then.
-/

namespace ShipInfer

/-- Ranges that follow one another from one place to another. -/
def EndToEnd : Nat → List (Nat × Nat) → Nat → Prop
  | first, [], last => first = last
  | first, r :: ranges, last => r.1 = first ∧ r.1 ≤ r.2 ∧ EndToEnd r.2 ranges last

section
variable {α : Type*}

/-- The entry of a place, in the piece of the range the place is in. -/
def own : List (Nat × Nat) → List (List α) → Nat → Option α
  | r :: ranges, piece :: pieces, place =>
    if r.1 ≤ place ∧ place < r.2 then piece[place - r.1]? else own ranges pieces place
  | _, _, _ => none

/-- Every piece has the length of its range. -/
def Fitting (ranges : List (Nat × Nat)) (pieces : List (List α)) : Prop :=
  List.Forall₂ (fun r piece => piece.length = r.2 - r.1) ranges pieces

theorem EndToEnd.le : ∀ {ranges : List (Nat × Nat)} {first last : Nat}, EndToEnd first ranges last → first ≤ last
  | [], _, _, h => Nat.le_of_eq h
  | _ :: _, _, _, h => h.1 ▸ Nat.le_trans h.2.1 h.2.2.le

theorem Fitting.length_flatten : ∀ {ranges : List (Nat × Nat)} {pieces : List (List α)} {first last : Nat},
    EndToEnd first ranges last → Fitting ranges pieces → pieces.flatten.length = last - first
  | [], [], _, _, h, _ => by
    have : _ = _ := h
    subst this
    simp
  | r :: ranges, piece :: pieces, first, last, h, hf => by
    obtain ⟨hpiece, hrest⟩ := List.forall₂_cons.mp hf
    have hlen := Fitting.length_flatten h.2.2 hrest
    have hle := h.2.2.le
    obtain ⟨rfl, hr, -⟩ := h
    rw [List.flatten_cons, List.length_append, hpiece, hlen]
    omega

/-- In pieces that fit, what stands at a place of the whole is the place's own entry. -/
theorem own_eq_flatten : ∀ {ranges : List (Nat × Nat)} {pieces : List (List α)} {first last place : Nat},
    EndToEnd first ranges last → Fitting ranges pieces → first ≤ place → own ranges pieces place = pieces.flatten[place - first]?
  | [], [], _, _, _, _, _, _ => by simp [own]
  | r :: ranges, piece :: pieces, first, last, place, h, hf, hp => by
    obtain ⟨hpiece, hrest⟩ := List.forall₂_cons.mp hf
    obtain ⟨rfl, hr, hends⟩ := h
    rw [own, List.flatten_cons]
    by_cases hlt : place < r.2
    · rw [if_pos ⟨hp, hlt⟩, List.getElem?_append_left (by omega)]
    · rw [if_neg fun hc => hlt hc.2, own_eq_flatten hends hrest (Nat.le_of_not_lt hlt), List.getElem?_append_right (by omega)]
      congr 1
      omega

/-- Entries that can be told apart stand at their own places only if the pieces fit. -/
theorem fitting_of_own : ∀ {ranges : List (Nat × Nat)} {pieces : List (List α)} {first last : Nat},
    EndToEnd first ranges last → (∀ r ∈ ranges, r.1 < r.2) → pieces.length = ranges.length → pieces.flatten.Nodup →
    pieces.flatten.length = last - first →
    (∀ place, first ≤ place → place < last → own ranges pieces place = pieces.flatten[place - first]?) → Fitting ranges pieces
  | [], [], _, _, _, _, _, _, _, _ => .nil
  | r :: ranges, piece :: pieces, first, last, h, hlt, hcount, hnodup, hlen, hown => by
    obtain ⟨rfl, hr, hends⟩ := h
    have hle := hends.le
    have hpos := hlt r List.mem_cons_self
    rw [List.flatten_cons, List.length_append] at hlen
    rw [List.flatten_cons, List.nodup_append] at hnodup
    -- a shorter piece has no entry for a place that has one in the whole
    have hshort : ¬ piece.length < r.2 - r.1 := by
      intro hc
      have hat := hown (r.1 + piece.length) (by omega) (by omega)
      rw [own, if_pos ⟨by omega, by omega⟩, Nat.add_sub_cancel_left, List.getElem?_eq_none (Nat.le_refl _),
        List.flatten_cons, List.getElem?_append_right (Nat.le_refl _), Nat.sub_self] at hat
      have hnil := List.getElem?_eq_none_iff.mp hat.symm
      omega
    -- a longer one has, where the next piece should begin, an entry of its own
    have hlong : ¬ r.2 - r.1 < piece.length := by
      intro hc
      cases ranges with
      | nil =>
        have hend : r.2 = last := hends
        omega
      | cons r' ranges =>
        cases pieces with
        | nil => simp at hcount
        | cons piece' pieces =>
          have hr' := hlt r' (List.mem_cons_of_mem _ List.mem_cons_self)
          obtain ⟨hfirst, -, hends'⟩ := hends
          have hle' := hends'.le
          have hat := hown r.2 hr (by omega)
          rw [own, if_neg (by omega), own, if_pos (by omega), List.flatten_cons, List.getElem?_append_left hc, ← hfirst,
            Nat.sub_self, List.getElem?_eq_getElem (l := piece) (by omega)] at hat
          have hmem : piece[r'.1 - r.1] ∈ (piece' :: pieces).flatten := by
            rw [List.flatten_cons]
            exact List.mem_append_left _ (List.mem_of_getElem? hat)
          exact hnodup.2.2 _ (List.getElem_mem _) _ hmem rfl
    have hpiece : piece.length = r.2 - r.1 := by omega
    refine List.Forall₂.cons hpiece ?_
    refine fitting_of_own hends (fun r' hr' => hlt r' (List.mem_cons_of_mem _ hr')) (by simpa using hcount) hnodup.2.1
      (by omega) fun place hp hpl => ?_
    have hat := hown place (by omega) hpl
    rw [own, if_neg (by omega), List.flatten_cons, List.getElem?_append_right (by omega)] at hat
    rw [hat]
    congr 1
    omega

/-! ## Ranges of one size -/

/-- Ranges of one size, the last as long as it needs to be. -/
def slices (total limit : Nat) : List (Nat × Nat) :=
  (List.range ((total + limit - 1) / limit)).map fun k => (k * limit, min (k * limit + limit) total)

theorem slice_lt (total : Nat) {limit k : Nat} (hl : 0 < limit) (hk : k < (total + limit - 1) / limit) : k * limit < total := by
  have h := (Nat.le_div_iff_mul_le hl).mp hk
  rw [Nat.succ_mul] at h
  omega

theorem slices_cover (total : Nat) {limit : Nat} (hl : 0 < limit) : total ≤ (total + limit - 1) / limit * limit := by
  have h := Nat.lt_mul_of_div_lt (Nat.lt_succ_self ((total + limit - 1) / limit)) hl
  rw [Nat.succ_mul] at h
  omega

theorem slices_endToEnd {total limit : Nat} (hl : 0 < limit) : EndToEnd 0 (slices total limit) total := by
  have key : ∀ n k, k + n = (total + limit - 1) / limit →
      EndToEnd (min (k * limit) total) ((List.range' k n).map fun k => (k * limit, min (k * limit + limit) total)) total := by
    intro n
    induction n with
    | zero =>
      intro k hk
      have hcover := slices_cover total hl
      rw [← hk, Nat.add_zero] at hcover
      exact Nat.min_eq_right hcover
    | succ n ih =>
      intro k hk
      have hlt := slice_lt total hl (k := k) (by omega)
      have hrest := ih (k + 1) (by omega)
      rw [Nat.succ_mul] at hrest
      rw [List.range'_succ, List.map_cons]
      exact ⟨(Nat.min_eq_left (Nat.le_of_lt hlt)).symm, by dsimp only; omega, hrest⟩
  have h := key _ 0 (Nat.zero_add _)
  rwa [Nat.zero_mul, Nat.zero_min, ← List.range_eq_range'] at h

theorem slices_lt {total limit : Nat} (hl : 0 < limit) : ∀ r ∈ slices total limit, r.1 < r.2 := by
  intro r hr
  obtain ⟨k, hk, rfl⟩ := List.mem_map.mp hr
  have hlt := slice_lt total hl (List.mem_range.mp hk)
  dsimp only
  omega

end

end ShipInfer
