import Mathlib.Data.List.Basic
import Mathlib.Data.Nat.Digits.Defs

/-!
# Numerals in texts

A numeral of a base up to sixteen is read off its text, and holds digits only. A text
that is built of parts with separators between them tells its parts, from the last on,
when what follows a separator does not hold it.
-/

namespace ShipInfer

section
variable {b : Nat}

theorem digitChar_injOn : ∀ d < 16, ∀ e < 16, Nat.digitChar d = Nat.digitChar e → d = e := by decide

theorem mem_toDigits (hb : 1 < b) (hb' : b ≤ 16) : ∀ {n : Nat} {c : Char}, c ∈ Nat.toDigits b n →
    ∃ d < 16, c = Nat.digitChar d := by
  intro n
  induction n using Nat.strongRecOn with
  | ind n ih =>
    intro c hc
    by_cases hn : n < b
    · rw [Nat.toDigits_of_lt_base hn, List.mem_singleton] at hc
      exact ⟨n, by omega, hc⟩
    · have hle : b ≤ n := Nat.not_lt.mp hn
      rw [Nat.toDigits_of_base_le hb hle] at hc
      rcases List.mem_append.mp hc with hc | hc
      · exact ih (n / b) (Nat.div_lt_self (by omega) hb) hc
      · have hmod : n % b < b := Nat.mod_lt n (by omega)
        exact ⟨n % b, by omega, List.mem_singleton.mp hc⟩

theorem toDigits_inj (hb : 1 < b) (hb' : b ≤ 16) : ∀ {m n : Nat}, Nat.toDigits b m = Nat.toDigits b n → m = n := by
  intro m
  induction m using Nat.strongRecOn with
  | ind m ih =>
    intro n h
    have hdigit : ∀ k, k % b < 16 := fun k => (Nat.mod_lt k (by omega)).trans_le hb'
    by_cases hm : m < b
    · by_cases hn : n < b
      · rw [Nat.toDigits_of_lt_base hm, Nat.toDigits_of_lt_base hn, List.cons.injEq] at h
        exact digitChar_injOn m (by omega) n (by omega) h.1
      · rw [Nat.toDigits_of_lt_base hm, Nat.toDigits_of_base_le hb (Nat.not_lt.mp hn)] at h
        have hlen := congrArg List.length h
        have hpos : 0 < (Nat.toDigits b (n / b)).length := Nat.length_toDigits_pos
        simp only [List.length_singleton, List.length_append] at hlen
        omega
    · by_cases hn : n < b
      · rw [Nat.toDigits_of_lt_base hn, Nat.toDigits_of_base_le hb (Nat.not_lt.mp hm)] at h
        have hlen := congrArg List.length h
        have hpos : 0 < (Nat.toDigits b (m / b)).length := Nat.length_toDigits_pos
        simp only [List.length_singleton, List.length_append] at hlen
        omega
      · rw [Nat.toDigits_of_base_le hb (Nat.not_lt.mp hm), Nat.toDigits_of_base_le hb (Nat.not_lt.mp hn)] at h
        obtain ⟨hinit, hlast⟩ := List.append_inj' h rfl
        have hdiv := ih (m / b) (Nat.div_lt_self (by omega) hb) hinit
        have hmod := digitChar_injOn _ (hdigit m) _ (hdigit n) (List.cons.inj hlast).1
        rw [← Nat.div_add_mod m b, ← Nat.div_add_mod n b, hdiv, hmod]

end

theorem mem_natText {n : Nat} {c : Char} (h : c ∈ (toString n).toList) : ∃ d < 16, c = Nat.digitChar d := by
  rw [Nat.toString_eq_repr, Nat.toList_repr] at h
  exact mem_toDigits (by decide) (by decide) h

theorem natText_inj {m n : Nat} (h : (toString m).toList = (toString n).toList) : m = n := by
  rw [Nat.toString_eq_repr, Nat.toString_eq_repr, Nat.toList_repr, Nat.toList_repr] at h
  exact toDigits_inj (by decide) (by decide) h

theorem colon_not_mem_natText (n : Nat) : ':' ∉ (toString n).toList := by
  intro h
  obtain ⟨d, hd, hc⟩ := mem_natText h
  revert d
  decide

/-- A separator that neither text before it holds splits two texts at one place. -/
theorem split_at_first {α : Type*} {sep : α} {a b s t : List α} (ha : sep ∉ a) (hb : sep ∉ b)
    (h : a ++ sep :: s = b ++ sep :: t) : a = b ∧ s = t := by
  induction a generalizing b with
  | nil =>
    cases b with
    | nil => exact ⟨rfl, (List.cons.inj h).2⟩
    | cons c b =>
      obtain ⟨rfl, -⟩ := List.cons.inj h
      exact absurd List.mem_cons_self hb
  | cons c a ih =>
    cases b with
    | nil =>
      obtain ⟨rfl, -⟩ := List.cons.inj h
      exact absurd List.mem_cons_self ha
    | cons d b =>
      obtain ⟨rfl, hrest⟩ := List.cons.inj h
      obtain ⟨rfl, hst⟩ := ih (fun hm => ha (List.mem_cons_of_mem _ hm)) (fun hm => hb (List.mem_cons_of_mem _ hm)) hrest
      exact ⟨rfl, hst⟩

/-- A separator that neither tail holds splits two texts at one place. -/
theorem split_at_last {α : Type*} {sep : α} {a b s t : List α} (hs : sep ∉ s) (ht : sep ∉ t)
    (h : a ++ sep :: s = b ++ sep :: t) : a = b ∧ s = t := by
  rcases List.append_eq_append_iff.mp h with ⟨as, hb, hs'⟩ | ⟨bs, ha, ht'⟩
  · cases as with
    | nil =>
      rw [List.append_nil] at hb
      exact ⟨hb.symm, (List.cons.inj hs').2⟩
    | cons c as =>
      rw [List.cons_append, List.cons.injEq] at hs'
      exact absurd (by rw [hs'.2]; simp) hs
  · cases bs with
    | nil =>
      rw [List.append_nil] at ha
      exact ⟨ha, (List.cons.inj ht').2.symm⟩
    | cons c bs =>
      rw [List.cons_append, List.cons.injEq] at ht'
      exact absurd (by rw [ht'.2]; simp) ht

end ShipInfer
