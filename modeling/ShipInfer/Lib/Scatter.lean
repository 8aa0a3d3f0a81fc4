import Mathlib.Data.List.Basic

/-!
# Filling slots, none twice

A loop that puts each item's value into the item's slot, skips an item of no slot
and refuses one whose slot is filled: it refuses just when two items are of one
slot, and leaves in each slot the value of the one item that is of it.
-/

namespace ShipInfer

variable {ι κ φ ν σ ε : Type*} [DecidableEq κ]

/-- The values the items have for a slot, in order. -/
def covers (slot : ι → Option κ) (value : ι → ν) (k : κ) (xs : List ι) : List ν :=
  (xs.filter fun x => decide (slot x = some k)).map value

section
variable {slot : ι → Option κ} {value : ι → ν}

theorem covers_cons_self {k : κ} {x : ι} {xs : List ι} (h : slot x = some k) :
    covers slot value k (x :: xs) = value x :: covers slot value k xs := by
  simp [covers, h]

theorem covers_map {μ : Type*} (f : ν → μ) (k : κ) (xs : List ι) :
    covers slot (fun x => f (value x)) k xs = (covers slot value k xs).map f := by
  simp [covers]

theorem covers_cons_ne {k : κ} {x : ι} {xs : List ι} (h : slot x ≠ some k) :
    covers slot value k (x :: xs) = covers slot value k xs := by
  simp [covers, h]

end

/-- The items of `A` go into slots one by one, in the states of `I`. -/
structure Fills (A : ι → Prop) (slot : ι → Option κ) (value : ι → ν) (look : σ → κ → Option ν) (I : σ → Prop)
    (step : σ → ι → Except ε σ) : Prop where
  skip : ∀ s x, A x → I s → slot x = none → step s x = .ok s
  refuse : ∀ s x k, A x → I s → slot x = some k → look s k ≠ none → ∃ e, step s x = .error e
  fill : ∀ s x k, A x → I s → slot x = some k → look s k = none →
    ∃ t, step s x = .ok t ∧ I t ∧ ∀ j, look t j = if j = k then some (value x) else look s j

section
variable {A : ι → Prop} {slot : ι → Option κ} {value : ι → ν} {look : σ → κ → Option ν} {I : σ → Prop}
  {step : σ → ι → Except ε σ}

/-- The loop from any state: what a slot holds at last is what it held and got. -/
theorem Fills.run (h : Fills A slot value look I step) : ∀ (xs : List ι) (s : σ), (∀ x ∈ xs, A x) → I s →
    ((∃ k, covers slot value k xs ≠ [] ∧ 2 ≤ ((look s k).toList ++ covers slot value k xs).length) ∧
        ∃ e, xs.foldlM step s = .error e) ∨
      ((∀ k, covers slot value k xs ≠ [] → ((look s k).toList ++ covers slot value k xs).length ≤ 1) ∧
        ∃ t, xs.foldlM step s = .ok t ∧ I t ∧ ∀ k, (look t k).toList = (look s k).toList ++ covers slot value k xs)
  | [], s, _, hI => .inr ⟨fun k hk => absurd rfl hk, s, rfl, hI, fun k => (List.append_nil _).symm⟩
  | x :: xs, s, hA, hI => by
    have hx := hA x List.mem_cons_self
    have hxs : ∀ y ∈ xs, A y := fun y hy => hA y (List.mem_cons_of_mem _ hy)
    rw [List.foldlM_cons]
    cases hslot : slot x with
    | none =>
      have hsame : ∀ k, covers slot value k (x :: xs) = covers slot value k xs := fun k =>
        covers_cons_ne (by simp [hslot])
      simp only [hsame, h.skip s x hx hI hslot]
      exact h.run xs s hxs hI
    | some k =>
      by_cases hlook : look s k = none
      · obtain ⟨t, ht, hIt, hget⟩ := h.fill s x k hx hI hslot hlook
        rw [ht]
        have hall : ∀ j, (look t j).toList ++ covers slot value j xs =
            (look s j).toList ++ covers slot value j (x :: xs) := by
          intro j
          rw [hget]
          by_cases hj : j = k
          · subst hj
            simp [hlook, covers_cons_self hslot]
          · rw [if_neg hj, covers_cons_ne (by rw [hslot]; simpa using Ne.symm hj)]
        have hnil : ∀ j, covers slot value j xs ≠ [] → covers slot value j (x :: xs) ≠ [] := by
          intro j hj
          by_cases hjk : slot x = some j
          · simp [covers_cons_self hjk]
          · rwa [covers_cons_ne hjk]
        rcases h.run xs t hxs hIt with ⟨⟨j, hj, hlen⟩, hfail⟩ | ⟨hfree, u, hu, hIu, hlast⟩
        · exact .inl ⟨⟨j, hnil j hj, by rwa [← hall]⟩, hfail⟩
        · refine .inr ⟨fun j hj => ?_, u, hu, hIu, fun j => by rw [hlast, hall]⟩
          by_cases hrest : covers slot value j xs = []
          · rw [← hall, hrest, List.append_nil]
            cases look t j <;> simp
          · rw [← hall]
            exact hfree j hrest
      · obtain ⟨e, he⟩ := h.refuse s x k hx hI hslot hlook
        obtain ⟨v, hv⟩ := Option.ne_none_iff_exists'.mp hlook
        refine .inl ⟨⟨k, by simp [covers_cons_self hslot], by simp [covers_cons_self hslot, hv]⟩, e, ?_⟩
        rw [he]
        rfl

/-- **Filling once.** From empty slots. -/
theorem Fills.loop (h : Fills A slot value look I step) (xs : List ι) {s : σ} (hA : ∀ x ∈ xs, A x) (hI : I s)
    (hempty : ∀ k, look s k = none) :
    ((∃ k, 2 ≤ (covers slot value k xs).length) ∧ ∃ e, xs.foldlM step s = .error e) ∨
      ((∀ k, (covers slot value k xs).length ≤ 1) ∧
        ∃ t, xs.foldlM step s = .ok t ∧ I t ∧ ∀ k, look t k = (covers slot value k xs).head?) := by
  have hrun := h.run xs s hA hI
  simp only [hempty, Option.toList_none, List.nil_append] at hrun
  rcases hrun with ⟨⟨k, -, hlen⟩, hfail⟩ | ⟨hfree, t, ht, hIt, hlast⟩
  · exact .inl ⟨⟨k, hlen⟩, hfail⟩
  · refine .inr ⟨fun k => ?_, t, ht, hIt, fun k => ?_⟩
    · by_cases hk : covers slot value k xs = []
      · simp [hk]
      · exact hfree k hk
    · rw [← hlast]
      cases look t k <;> rfl

end

/-- **Filling field by field.** A loop over fields with items of their own, each of
which is filled as by itself and leaves the other fields alone. -/
theorem fills_each [DecidableEq φ] (slot : ι → Option κ) (value : φ → ι → ν) (look : σ → κ → φ → Option ν)
    (I : σ → Prop) (A : φ → List ι → Prop) (step : σ → φ × List ι → Except ε σ)
    (h : ∀ s f xs, A f xs → I s → (∀ k, look s k f = none) →
      ((∃ k, 2 ≤ (covers slot (value f) k xs).length) ∧ ∃ e, step s (f, xs) = .error e) ∨
        ((∀ k, (covers slot (value f) k xs).length ≤ 1) ∧ ∃ t, step s (f, xs) = .ok t ∧ I t ∧
          ∀ k g, look t k g = if g = f then (covers slot (value f) k xs).head? else look s k g)) :
    ∀ (fields : List (φ × List ι)) (s : σ), (∀ p ∈ fields, A p.1 p.2) → I s → (fields.map Prod.fst).Nodup →
      (∀ p ∈ fields, ∀ k, look s k p.1 = none) →
      ((∃ p ∈ fields, ∃ k, 2 ≤ (covers slot (value p.1) k p.2).length) ∧ ∃ e, fields.foldlM step s = .error e) ∨
        ((∀ p ∈ fields, ∀ k, (covers slot (value p.1) k p.2).length ≤ 1) ∧ ∃ t, fields.foldlM step s = .ok t ∧ I t ∧
          (∀ p ∈ fields, ∀ k, look t k p.1 = (covers slot (value p.1) k p.2).head?) ∧
          ∀ g, g ∉ fields.map Prod.fst → ∀ k, look t k g = look s k g)
  | [], s, _, hI, _, _ => .inr ⟨by simp, s, rfl, hI, by simp, fun _ _ _ => rfl⟩
  | (f, xs) :: fields, s, hA, hI, hnodup, hempty => by
    rw [List.map_cons, List.nodup_cons] at hnodup
    rw [List.foldlM_cons]
    rcases h s f xs (hA (f, xs) List.mem_cons_self) hI (hempty (f, xs) List.mem_cons_self) with
      ⟨hmany, e, he⟩ | ⟨hone, t, ht, hIt, hget⟩
    · exact .inl ⟨⟨(f, xs), List.mem_cons_self, hmany⟩, e, by rw [he]; rfl⟩
    · rw [ht]
      have hne : ∀ p ∈ fields, p.1 ≠ f := by
        intro p hp hpf
        exact hnodup.1 (List.mem_map.mpr ⟨p, hp, hpf⟩)
      have hstill : ∀ p ∈ fields, ∀ k, look t k p.1 = none := by
        intro p hp k
        rw [hget, if_neg (hne p hp)]
        exact hempty p (List.mem_cons_of_mem _ hp) k
      rcases fills_each slot value look I A step h fields t
          (fun p hp => hA p (List.mem_cons_of_mem _ hp)) hIt hnodup.2 hstill with
        ⟨⟨p, hp, hmany⟩, hfail⟩ | ⟨hone', u, hu, hIu, hlast, hother⟩
      · exact .inl ⟨⟨p, List.mem_cons_of_mem _ hp, hmany⟩, hfail⟩
      · refine .inr ⟨fun p hp => ?_, u, hu, hIu, fun p hp k => ?_, fun g hg k => ?_⟩
        · rcases List.mem_cons.mp hp with rfl | hp
          · exact hone
          · exact hone' p hp
        · rcases List.mem_cons.mp hp with rfl | hp
          · rw [hother f hnodup.1, hget, if_pos rfl]
          · exact hlast p hp k
        · rw [List.map_cons, List.mem_cons, not_or] at hg
          rw [hother g hg.2, hget, if_neg hg.1]

theorem foldlM_flatMap {α β τ : Type*} {f : τ → β → Except ε τ} {g : α → List β} : ∀ (l : List α) (s : τ),
    (l.flatMap g).foldlM f s = l.foldlM (fun s a => (g a).foldlM f s) s
  | [], _ => rfl
  | a :: l, s => by
    rw [List.flatMap_cons, List.foldlM_append, List.foldlM_cons]
    cases (g a).foldlM f s with
    | error e => rfl
    | ok t => exact foldlM_flatMap l t

end ShipInfer
