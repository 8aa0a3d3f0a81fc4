import Mathlib.Data.List.Nodup
import Mathlib.Data.List.Perm.Basic
import ShipInfer.Lib.Fold

/-!
# Dictionaries in insertion order

A dictionary whose keys come out in the order they were first set: setting a
key that is present replaces its value in place, setting a new one appends.
Equality of keys is all that is asked of them.
-/

namespace ShipInfer

/-- A dictionary: its pairs in insertion order, with no key twice. -/
structure Dict (κ : Type*) (ν : Type*) where
  entries : List (κ × ν)
  nodup : (entries.map Prod.fst).Nodup
  deriving DecidableEq

namespace Dict

variable {κ ν : Type*}

def empty : Dict κ ν := ⟨[], List.nodup_nil⟩

instance : Inhabited (Dict κ ν) := ⟨empty⟩

def keys (d : Dict κ ν) : List κ := d.entries.map Prod.fst

def values (d : Dict κ ν) : List ν := d.entries.map Prod.snd

def size (d : Dict κ ν) : Nat := d.entries.length

@[ext] theorem ext {d e : Dict κ ν} (h : d.entries = e.entries) : d = e := by
  cases d; cases e; cases h; rfl

theorem keys_nodup (d : Dict κ ν) : d.keys.Nodup := d.nodup

@[simp] theorem keys_length (d : Dict κ ν) : d.keys.length = d.size := by simp [keys, size]

@[simp] theorem keys_empty : (empty : Dict κ ν).keys = [] := rfl

@[simp] theorem entries_empty : (empty : Dict κ ν).entries = [] := rfl

theorem mem_keys_of_mem {d : Dict κ ν} {k : κ} {v : ν} (h : (k, v) ∈ d.entries) : k ∈ d.keys :=
  List.mem_map.mpr ⟨(k, v), h, rfl⟩

theorem exists_of_mem_keys {d : Dict κ ν} {k : κ} (h : k ∈ d.keys) : ∃ v, (k, v) ∈ d.entries := by
  obtain ⟨⟨_, v⟩, hp, rfl⟩ := List.mem_map.mp h
  exact ⟨v, hp⟩

/-- A key has one value. -/
theorem entry_unique {d : Dict κ ν} {k : κ} {v w : ν} (hv : (k, v) ∈ d.entries) (hw : (k, w) ∈ d.entries) :
    v = w := by
  have h := List.inj_on_of_nodup_map d.nodup hv hw rfl
  exact congrArg Prod.snd h

/-- Keeping the pairs that meet a test. -/
def filter (d : Dict κ ν) (p : κ × ν → Bool) : Dict κ ν :=
  ⟨d.entries.filter p, (List.Sublist.map Prod.fst List.filter_sublist).nodup d.nodup⟩

@[simp] theorem entries_filter (d : Dict κ ν) (p : κ × ν → Bool) :
    (d.filter p).entries = d.entries.filter p := rfl

/-- Changing the values, key by key. -/
def mapValues {μ : Type*} (d : Dict κ ν) (f : κ → ν → μ) : Dict κ μ :=
  ⟨d.entries.map fun p => (p.1, f p.1 p.2), by
    rw [List.map_map]; exact d.nodup⟩

@[simp] theorem entries_mapValues {μ : Type*} (d : Dict κ ν) (f : κ → ν → μ) :
    (d.mapValues f).entries = d.entries.map fun p => (p.1, f p.1 p.2) := rfl

@[simp] theorem keys_mapValues {μ : Type*} (d : Dict κ ν) (f : κ → ν → μ) : (d.mapValues f).keys = d.keys := by
  simp only [keys, entries_mapValues, List.map_map]; rfl

/-- Changing the values in order, when each change may fail. -/
def mapEntriesM {μ ε : Type*} (f : ν → Except ε μ) :
    (l : List (κ × ν)) → Except ε { m : List (κ × μ) // m.map Prod.fst = l.map Prod.fst }
  | [] => .ok ⟨[], rfl⟩
  | p :: l =>
    match f p.2, mapEntriesM f l with
    | .error e, _ => .error e
    | .ok _, .error e => .error e
    | .ok w, .ok m => .ok ⟨(p.1, w) :: m.1, by rw [List.map_cons, List.map_cons, m.2]⟩

def mapValuesM {μ ε : Type*} (f : ν → Except ε μ) (d : Dict κ ν) : Except ε (Dict κ μ) :=
  match mapEntriesM f d.entries with
  | .error e => .error e
  | .ok m => .ok ⟨m.1, by rw [m.2]; exact d.nodup⟩

theorem mapEntriesM_ok {μ ε : Type*} {f : ν → Except ε μ} {R : ν → μ → Prop} : ∀ {l : List (κ × ν)},
    (∀ p ∈ l, ∃ w, f p.2 = .ok w ∧ R p.2 w) →
      ∃ m, mapEntriesM f l = .ok m ∧ List.Forall₂ (fun p q => q.1 = p.1 ∧ R p.2 q.2) l m.1
  | [], _ => ⟨⟨[], rfl⟩, rfl, .nil⟩
  | p :: l, h => by
    obtain ⟨w, hw, hr⟩ := h p List.mem_cons_self
    obtain ⟨m, hm, hrs⟩ := mapEntriesM_ok (l := l) fun q hq => h q (List.mem_cons_of_mem _ hq)
    exact ⟨⟨(p.1, w) :: m.1, by rw [List.map_cons, List.map_cons, m.2]⟩, by rw [mapEntriesM, hw, hm],
      .cons ⟨rfl, hr⟩ hrs⟩

/-- When every change succeeds: the same keys, each value changed. -/
theorem mapValuesM_ok {μ ε : Type*} {f : ν → Except ε μ} {R : ν → μ → Prop} {d : Dict κ ν}
    (h : ∀ p ∈ d.entries, ∃ w, f p.2 = .ok w ∧ R p.2 w) :
    ∃ e, d.mapValuesM f = .ok e ∧ e.keys = d.keys ∧
      ∀ q ∈ e.entries, ∃ v, (q.1, v) ∈ d.entries ∧ R v q.2 := by
  obtain ⟨m, hm, hrs⟩ := mapEntriesM_ok h
  refine ⟨⟨m.1, by rw [m.2]; exact d.nodup⟩, by rw [mapValuesM, hm], m.2, fun q hq => ?_⟩
  obtain ⟨p, hp, hqp, hr⟩ := exists_of_mem_forall₂ hrs hq
  exact ⟨p.2, hqp ▸ hp, hr⟩

variable [DecidableEq κ]

def get? (d : Dict κ ν) (k : κ) : Option ν := d.entries.lookup k

def contains (d : Dict κ ν) (k : κ) : Bool := (d.get? k).isSome

/-- `d[k] = v` on the pairs. -/
def setEntries : List (κ × ν) → κ → ν → List (κ × ν)
  | [], k, v => [(k, v)]
  | (k', w) :: l, k, v => if k = k' then (k', v) :: l else (k', w) :: setEntries l k v

theorem keys_setEntries (k : κ) (v : ν) : ∀ l : List (κ × ν),
    (setEntries l k v).map Prod.fst =
      if k ∈ l.map Prod.fst then l.map Prod.fst else l.map Prod.fst ++ [k]
  | [] => by simp [setEntries]
  | (k', w) :: l => by
    unfold setEntries
    by_cases h : k = k'
    · simp [h]
    · rw [if_neg h, List.map_cons, keys_setEntries k v l]
      by_cases hm : k ∈ l.map Prod.fst
      · simp [hm]
      · rw [if_neg hm, if_neg (by simpa [h] using hm)]; simp

/-- `d[k] = v` -/
def set (d : Dict κ ν) (k : κ) (v : ν) : Dict κ ν :=
  ⟨setEntries d.entries k v, by
    rw [keys_setEntries]
    split
    · exact d.nodup
    · rename_i h
      exact List.nodup_append.mpr ⟨d.nodup, by simp, by
        intro a ha b hb; rw [List.mem_singleton] at hb; rintro rfl; exact h (hb ▸ ha)⟩⟩

/-- `d.pop(k, None)`, the value apart. -/
def erase (d : Dict κ ν) (k : κ) : Dict κ ν := d.filter fun p => decide (p.1 ≠ k)

theorem keys_set (d : Dict κ ν) (k : κ) (v : ν) :
    (d.set k v).keys = if k ∈ d.keys then d.keys else d.keys ++ [k] :=
  keys_setEntries k v d.entries

theorem mem_keys_set {d : Dict κ ν} {k a : κ} {v : ν} : a ∈ (d.set k v).keys ↔ a = k ∨ a ∈ d.keys := by
  rw [keys_set]
  by_cases h : k ∈ d.keys
  · rw [if_pos h]
    exact ⟨.inr, fun ha => ha.elim (fun e => e ▸ h) id⟩
  · rw [if_neg h, List.mem_append, List.mem_singleton, or_comm]

theorem lookup_cons_ite (k' : κ) (w : ν) (l : List (κ × ν)) (k : κ) :
    ((k', w) :: l).lookup k = if k = k' then some w else l.lookup k := by
  rw [List.lookup_cons]
  by_cases h : k = k'
  · simp [h]
  · simp [h, beq_eq_false_iff_ne.mpr h]

theorem lookup_eq_some_iff {l : List (κ × ν)} (hn : (l.map Prod.fst).Nodup) {k : κ} {v : ν} :
    l.lookup k = some v ↔ (k, v) ∈ l := by
  induction l with
  | nil => simp
  | cons p l ih =>
    obtain ⟨k', w⟩ := p
    rw [List.map_cons, List.nodup_cons] at hn
    rw [lookup_cons_ite]
    by_cases h : k = k'
    · subst h
      have hk : ∀ v, (k, v) ∉ l := fun v hv => hn.1 (List.mem_map.mpr ⟨(k, v), hv, rfl⟩)
      simp [hk, eq_comm]
    · simp [h, ih hn.2]

theorem get?_eq_some_iff {d : Dict κ ν} {k : κ} {v : ν} : d.get? k = some v ↔ (k, v) ∈ d.entries :=
  lookup_eq_some_iff d.nodup

theorem get?_eq_none_iff {d : Dict κ ν} {k : κ} : d.get? k = none ↔ k ∉ d.keys := by
  constructor
  · intro h hk
    obtain ⟨v, hv⟩ := exists_of_mem_keys hk
    rw [get?_eq_some_iff.mpr hv] at h; cases h
  · intro hk
    cases h : d.get? k with
    | none => rfl
    | some v => exact absurd (mem_keys_of_mem (get?_eq_some_iff.mp h)) hk

theorem contains_iff {d : Dict κ ν} {k : κ} : d.contains k = true ↔ k ∈ d.keys := by
  rw [contains, Option.isSome_iff_ne_none, ne_eq, get?_eq_none_iff, not_not]

instance (d : Dict κ ν) (k : κ) : Decidable (k ∈ d.keys) := inferInstanceAs (Decidable (k ∈ d.entries.map Prod.fst))

@[simp] theorem get?_empty (k : κ) : (empty : Dict κ ν).get? k = none := rfl

theorem lookup_setEntries (k : κ) (v : ν) (a : κ) : ∀ l : List (κ × ν),
    (setEntries l k v).lookup a = if a = k then some v else l.lookup a
  | [] => by rw [setEntries, lookup_cons_ite]
  | (k', w) :: l => by
    unfold setEntries
    by_cases hk : k = k'
    · subst hk
      rw [if_pos rfl, lookup_cons_ite, lookup_cons_ite]
      by_cases h : a = k <;> simp [h]
    · rw [if_neg hk, lookup_cons_ite, lookup_cons_ite, lookup_setEntries k v a l]
      by_cases h : a = k
      · subst h; simp [hk]
      · simp [h]

theorem get?_set (d : Dict κ ν) (k : κ) (v : ν) (a : κ) :
    (d.set k v).get? a = if a = k then some v else d.get? a :=
  lookup_setEntries k v a d.entries

@[simp] theorem get?_set_self (d : Dict κ ν) (k : κ) (v : ν) : (d.set k v).get? k = some v := by
  simp [get?_set]

theorem get?_set_ne {d : Dict κ ν} {k a : κ} {v : ν} (h : a ≠ k) : (d.set k v).get? a = d.get? a := by
  simp [get?_set, h]

theorem get?_filter (d : Dict κ ν) (p : κ × ν → Bool) (a : κ) :
    (d.filter p).get? a = (d.get? a).filter fun v => p (a, v) := by
  cases h : d.get? a with
  | none =>
    rw [get?_eq_none_iff] at h
    refine get?_eq_none_iff.mpr fun ha => ?_
    obtain ⟨v, hv⟩ := exists_of_mem_keys ha
    exact h (mem_keys_of_mem (List.mem_of_mem_filter hv))
  | some v =>
    rw [get?_eq_some_iff] at h
    by_cases hp : p (a, v) = true
    · simp only [Option.filter, hp, if_true, get?_eq_some_iff, entries_filter, List.mem_filter]
      exact ⟨h, trivial⟩
    · simp only [Option.filter, hp]
      rw [if_neg (by simp), get?_eq_none_iff]
      intro ha
      obtain ⟨w, hw⟩ := exists_of_mem_keys ha
      rw [entries_filter, List.mem_filter] at hw
      rw [entry_unique hw.1 h] at hw
      exact hp hw.2

theorem get?_erase (d : Dict κ ν) (k a : κ) : (d.erase k).get? a = if a = k then none else d.get? a := by
  rw [erase, get?_filter]
  by_cases h : a = k
  · cases hg : d.get? a <;> simp [Option.filter, h]
  · cases hg : d.get? a <;> simp [Option.filter, h]

theorem mem_set_entries {d : Dict κ ν} {k : κ} {v : ν} {p : κ × ν} :
    p ∈ (d.set k v).entries ↔ p = (k, v) ∨ (p ∈ d.entries ∧ p.1 ≠ k) := by
  obtain ⟨a, b⟩ := p
  rw [← get?_eq_some_iff, get?_set]
  by_cases h : a = k
  · subst h; simp [eq_comm]
  · simp [h, get?_eq_some_iff]

theorem mem_erase_entries {d : Dict κ ν} {k : κ} {p : κ × ν} :
    p ∈ (d.erase k).entries ↔ p ∈ d.entries ∧ p.1 ≠ k := by
  simp [erase, List.mem_filter]

theorem mem_keys_erase {d : Dict κ ν} {k a : κ} : a ∈ (d.erase k).keys ↔ a ∈ d.keys ∧ a ≠ k := by
  rw [← not_iff_not, ← get?_eq_none_iff, get?_erase, not_and_or, not_not, ← get?_eq_none_iff]
  by_cases h : a = k <;> simp [h]

theorem set_entries_of_new {d : Dict κ ν} {k : κ} {v : ν} (h : k ∉ d.keys) :
    (d.set k v).entries = d.entries ++ [(k, v)] := by
  have key : ∀ l : List (κ × ν), k ∉ l.map Prod.fst → setEntries l k v = l ++ [(k, v)] := by
    intro l
    induction l with
    | nil => intro _; rfl
    | cons p l ih =>
      intro hk
      simp only [List.map_cons, List.mem_cons, not_or] at hk
      obtain ⟨k', w⟩ := p
      simp only [setEntries, if_neg hk.1, ih hk.2, List.cons_append]
  exact key d.entries h

/-- `dict.update`: the pairs set one after the other. -/
def update (d : Dict κ ν) (l : List (κ × ν)) : Dict κ ν := l.foldl (fun d p => d.set p.1 p.2) d

theorem mem_keys_update (k : κ) : ∀ (l : List (κ × ν)) (d : Dict κ ν), k ∈ (d.update l).keys ↔ k ∈ d.keys ∨ k ∈ l.map Prod.fst
  | [], d => by simp [update]
  | p :: l, d => by
    have hrest := mem_keys_update k l (d.set p.1 p.2)
    rw [mem_keys_set, or_comm (a := k = p.1), or_assoc] at hrest
    rw [List.map_cons, List.mem_cons]
    exact hrest

theorem update_entries_of_new : ∀ {l : List (κ × ν)} {d : Dict κ ν}, (d.keys ++ l.map Prod.fst).Nodup →
    (d.update l).entries = d.entries ++ l
  | [], d, _ => (List.append_nil _).symm
  | (k, v) :: l, d, h => by
    have hk : k ∉ d.keys := by
      intro hmem
      exact (List.nodup_append.mp h).2.2 k hmem k List.mem_cons_self rfl
    have hkeys : (d.set k v).keys = d.keys ++ [k] := by rw [keys_set, if_neg hk]
    have hrest := update_entries_of_new (l := l) (d := d.set k v) (by simpa [hkeys] using h)
    rw [set_entries_of_new hk, List.append_assoc] at hrest
    exact hrest

theorem erase_entries_of_new {d : Dict κ ν} {k : κ} (h : k ∉ d.keys) : (d.erase k).entries = d.entries := by
  apply List.filter_eq_self.mpr
  intro p hp
  exact decide_eq_true fun he => h (he ▸ mem_keys_of_mem hp)

/-- A key's pair beside the pairs of the other keys. -/
theorem entries_perm {d : Dict κ ν} {k : κ} {v : ν} (h : d.get? k = some v) :
    d.entries.Perm ((k, v) :: (d.erase k).entries) := by
  have hnot : (k, v) ∉ (d.erase k).entries := fun hm => (mem_erase_entries.mp hm).2 rfl
  refine (List.perm_ext_iff_of_nodup (.of_map _ d.nodup) (List.nodup_cons.mpr ⟨hnot, .of_map _ (d.erase k).nodup⟩)).mpr ?_
  intro p
  rw [List.mem_cons, mem_erase_entries]
  constructor
  · intro hp
    by_cases hk : p.1 = k
    · have : p.2 = v := entry_unique (k := k) (hk ▸ hp) (get?_eq_some_iff.mp h)
      exact .inl (Prod.ext hk this)
    · exact .inr ⟨hp, hk⟩
  · rintro (rfl | ⟨hp, -⟩)
    · exact get?_eq_some_iff.mp h
    · exact hp

theorem set_entries_perm (d : Dict κ ν) (k : κ) (v : ν) : (d.set k v).entries.Perm ((k, v) :: (d.erase k).entries) := by
  have h := entries_perm (get?_set_self d k v)
  have he : ((d.set k v).erase k).entries.Perm (d.erase k).entries := by
    refine (List.perm_ext_iff_of_nodup (.of_map _ ((d.set k v).erase k).nodup) (.of_map _ (d.erase k).nodup)).mpr ?_
    intro p
    simp only [mem_erase_entries, mem_set_entries]
    constructor
    · rintro ⟨rfl | hp, hk⟩
      · exact absurd rfl hk
      · exact hp
    · intro hp
      exact ⟨.inr hp, hp.2⟩
  exact h.trans (he.cons _)

/-! ## Dictionaries of lists -/

theorem flatten_perm (d : Dict κ (List ν)) (k : κ) :
    d.values.flatten.Perm ((d.get? k).getD [] ++ (d.erase k).values.flatten) := by
  cases h : d.get? k with
  | none =>
    have herase := erase_entries_of_new (get?_eq_none_iff.mp h)
    simp [values, herase]
  | some l => exact ((entries_perm h).map Prod.snd).flatten

theorem flatten_set_perm (d : Dict κ (List ν)) (k : κ) (l : List ν) :
    (d.set k l).values.flatten.Perm (l ++ (d.erase k).values.flatten) :=
  ((set_entries_perm d k l).map Prod.snd).flatten

end Dict

end ShipInfer
