import Mathlib.Data.String.Basic
import ShipInfer.Reassembly.Conservation
import ShipInfer.Reassembly.Twin
import ShipInfer.Runtime.Staging

/-!
# Frames of the two collectors

A frame and a result on the two planes, and the frames that wait there: under their keys
in the one, under the texts of these in the other.
-/

namespace ShipInfer.Reassembly

open Std (TreeMap)
open Twin (keyText insertAll)

/-! ## Keys -/

theorem keyText_toList (key : PendingKey) : (keyText key).toList = key.1.toList ++ ':' :: (toString key.2).toList := by
  simp [keyText, String.toList_append]

/-- A key is read off its text: a number has no colon. -/
theorem keyText_inj {key key' : PendingKey} (h : keyText key = keyText key') : key = key' := by
  have htext := congrArg String.toList h
  rw [keyText_toList, keyText_toList] at htext
  obtain ⟨hcamera, hframe⟩ := split_at_last Runtime.intText_plain.1 Runtime.intText_plain.1 htext
  exact Prod.ext (String.toList_inj.mp hcamera) (Runtime.intText_inj hframe)

theorem mem_insertAll {s : String} : ∀ {names into : List String}, s ∈ insertAll names into ↔ s ∈ names ∨ s ∈ into
  | [], into => by simp [insertAll]
  | name :: names, into => by
    have hrest : s ∈ insertAll names (if name ∈ into then into else into.orderedInsert (· ≤ ·) name) ↔
        s ∈ names ∨ s ∈ (if name ∈ into then into else into.orderedInsert (· ≤ ·) name) := mem_insertAll
    refine hrest.trans ?_
    by_cases hname : name ∈ into
    · rw [if_pos hname, List.mem_cons]
      grind
    · rw [if_neg hname, List.mem_orderedInsert, List.mem_cons]
      grind

/-! ## Frames and results -/

/-- A frame on the two planes, at a time. -/
structure SameFrame (cfg : Config) (now : Int) (f : PendingFrame) (q : Twin.Pending) : Prop where
  state : f.state = q.state
  openedNs : f.openedNs = q.openedNs
  past : f.openedNs ≤ now
  deadlineNs : f.deadlineNs = FrameCollector.deadline cfg f.state f.openedNs
  delivered : ∀ s, s ∈ f.delivered ↔ s ∈ q.delivered
  expected : ∀ s, s ∈ f.expected ↔ s ∈ q.expected ∨ s ∈ q.delivered

/-- A result on the two planes: the same frame and reason, the same sets of stages. -/
structure SameResult (r : FrameResult) (q : Twin.Result) : Prop where
  state : r.state = q.state
  delivered : ∀ s, s ∈ r.delivered ↔ s ∈ q.delivered
  missing : ∀ s, s ∈ r.missing ↔ s ∈ q.missing
  reason : r.reason = q.reason
  waitedUs : r.waitedUs = q.waitedUs

/-- The same results, in whatever order. -/
def SameResults (l : List FrameResult) (m : List Twin.Result) : Prop := ∃ m', m'.Perm m ∧ List.Forall₂ SameResult l m'

structure SameAnswer (a : Answer FrameResult) (b : Answer Twin.Result) : Prop where
  admitted : a.admitted = b.admitted
  finished : SameResults a.finished b.finished

section
variable {cfg : Config} {now : Int} {f : PendingFrame} {q : Twin.Pending}

theorem SameFrame.complete (h : SameFrame cfg now f q) : f.isComplete = q.complete := by
  rw [Bool.eq_iff_iff]
  simp only [PendingFrame.isComplete, Twin.Pending.complete, List.all_eq_true, decide_eq_true_eq]
  constructor
  · intro hall s hs
    exact (h.delivered s).mp (hall s ((h.expected s).mpr (.inl hs)))
  · intro hall s hs
    cases (h.expected s).mp hs with
    | inl hs => exact (h.delivered s).mpr (hall s hs)
    | inr hs => exact (h.delivered s).mpr hs

theorem SameFrame.result (h : SameFrame cfg now f q) (reason : Reason) : SameResult (f.result reason now) (q.finish reason now) where
  state := h.state
  delivered := h.delivered
  missing s := by
    simp only [PendingFrame.result, PendingFrame.missing, List.mem_insertionSort, List.mem_filter, decide_eq_true_eq,
      Twin.Pending.finish, h.expected, h.delivered]
    exact and_congr_left fun hnot => or_iff_left hnot
  reason := rfl
  waitedUs := by
    simp only [PendingFrame.result, Twin.Pending.finish, h.openedNs]
    have hpast : 0 ≤ now - q.openedNs := by
      have hle := h.past
      rw [h.openedNs] at hle
      omega
    rw [Int.tdiv_eq_ediv_of_nonneg hpast]
    exact max_eq_right (Int.ediv_nonneg hpast (by decide))

theorem SameFrame.later (h : SameFrame cfg now f q) {after : Int} (hle : now ≤ after) : SameFrame cfg after f q :=
  { h with past := h.past.trans hle }

theorem SameResults.single {r : FrameResult} {q : Twin.Result} (h : SameResult r q) : SameResults [r] [q] :=
  ⟨[q], .refl _, .cons h .nil⟩

theorem SameResults.nil : SameResults [] [] := ⟨[], .refl _, .nil⟩

theorem SameResults.exists_of_mem {l : List FrameResult} {m : List Twin.Result} (h : SameResults l m) {r : FrameResult} (hr : r ∈ l) :
    ∃ q ∈ m, SameResult r q := by
  obtain ⟨m', hperm, hall⟩ := h
  obtain ⟨q, hq, hsame⟩ := exists_of_mem_forall₂ (R := fun q r => SameResult r q) hall.flip hr
  exact ⟨q, hperm.mem_iff.mp hq, hsame⟩

end

/-! ## The pending frames -/

/-- The frames that wait, under their keys and under the texts of these. -/
structure SamePending (cfg : Config) (now : Int) (d : Dict PendingKey PendingFrame) (m : TreeMap String Twin.Pending) : Prop where
  frames : ∀ key, Option.Rel (SameFrame cfg now) (d.get? key) m[keyText key]?
  keyed : ∀ text q, m[text]? = some q → ∃ key, keyText key = text

section
variable {cfg : Config} {now : Int} {d : Dict PendingKey PendingFrame} {m : TreeMap String Twin.Pending} {key : PendingKey}
  {f : PendingFrame} {q : Twin.Pending}

theorem samePending_empty : SamePending cfg now .empty ∅ where
  frames key := by
    rw [TreeMap.getElem?_emptyc]
    exact .none
  keyed text q h := by
    rw [TreeMap.getElem?_emptyc] at h
    cases h

theorem SamePending.get (h : SamePending cfg now d m) (hget : d.get? key = some f) :
    ∃ q, m[keyText key]? = some q ∧ SameFrame cfg now f q := by
  have hframe := h.frames key
  rw [hget] at hframe
  cases hq : m[keyText key]? with
  | none => rw [hq] at hframe; cases hframe
  | some q =>
    rw [hq] at hframe
    cases hframe with
    | some hsame => exact ⟨q, rfl, hsame⟩

theorem SamePending.none_iff (h : SamePending cfg now d m) : d.get? key = none ↔ m[keyText key]? = none := by
  have hframe := h.frames key
  cases hf : d.get? key with
  | none =>
    rw [hf] at hframe
    cases hq : m[keyText key]? with
    | none => exact ⟨fun _ => rfl, fun _ => rfl⟩
    | some q => rw [hq] at hframe; cases hframe
  | some f =>
    obtain ⟨q, hq, -⟩ := h.get hf
    rw [hq]
    constructor
    · intro h
      cases h
    · intro h
      cases h

theorem SamePending.back (h : SamePending cfg now d m) {text : String} (hq : m[text]? = some q) :
    ∃ key f, keyText key = text ∧ d.get? key = some f ∧ SameFrame cfg now f q := by
  obtain ⟨key, rfl⟩ := h.keyed text q hq
  cases hf : d.get? key with
  | none =>
    rw [h.none_iff.mp hf] at hq
    cases hq
  | some f =>
    obtain ⟨q', hq', hsame⟩ := h.get hf
    rw [hq, Option.some.injEq] at hq'
    exact ⟨key, f, rfl, hf, hq' ▸ hsame⟩

theorem SamePending.set (h : SamePending cfg now d m) (hsame : SameFrame cfg now f q) (key : PendingKey) :
    SamePending cfg now (d.set key f) (m.insert (keyText key) q) where
  frames k := by
    rw [Dict.get?_set, SortedMap.getElem?_insert]
    by_cases hk : k = key
    · rw [if_pos hk, if_pos (congrArg keyText hk)]
      exact .some hsame
    · rw [if_neg hk, if_neg fun ht => hk (keyText_inj ht)]
      exact h.frames k
  keyed text p hp := by
    rw [SortedMap.getElem?_insert] at hp
    split at hp
    next ht => exact ⟨key, ht.symm⟩
    · exact h.keyed text p hp

/-- The same frame put again. -/
theorem SamePending.put (h : SamePending cfg now d m) (hget : d.get? key = some f) (hsame : SameFrame cfg now f q) :
    SamePending cfg now d (m.insert (keyText key) q) where
  frames k := by
    rw [SortedMap.getElem?_insert]
    by_cases hk : k = key
    · rw [if_pos (congrArg keyText hk), hk, hget]
      exact .some hsame
    · rw [if_neg fun ht => hk (keyText_inj ht)]
      exact h.frames k
  keyed := (h.set hsame key).keyed

theorem SamePending.later (h : SamePending cfg now d m) {after : Int} (hle : now ≤ after) : SamePending cfg after d m where
  frames key := by
    have hframe := h.frames key
    generalize d.get? key = a at hframe ⊢
    generalize m[keyText key]? = b at hframe ⊢
    cases hframe with
    | some hsame => exact .some (hsame.later hle)
    | none => exact .none
  keyed := h.keyed

theorem SamePending.erase (h : SamePending cfg now d m) (key : PendingKey) :
    SamePending cfg now (d.erase key) (m.erase (keyText key)) where
  frames k := by
    rw [Dict.get?_erase, SortedMap.getElem?_erase]
    by_cases hk : k = key
    · rw [if_pos hk, if_pos (congrArg keyText hk)]
      exact .none
    · rw [if_neg hk, if_neg fun ht => hk (keyText_inj ht)]
      exact h.frames k
  keyed text p hp := by
    rw [SortedMap.getElem?_erase] at hp
    split at hp
    · cases hp
    · exact h.keyed text p hp

theorem exists_forall₂ {α β : Type*} {R : α → β → Prop} : ∀ {l : List α}, (∀ a ∈ l, ∃ b, R a b) → ∃ m, List.Forall₂ R l m
  | [], _ => ⟨[], .nil⟩
  | a :: l, h => by
    obtain ⟨b, hb⟩ := h a List.mem_cons_self
    obtain ⟨m, hm⟩ := exists_forall₂ fun a ha => h a (List.mem_cons_of_mem _ ha)
    exact ⟨b :: m, .cons hb hm⟩

/-- The two listed side by side. -/
theorem SamePending.listed (h : SamePending cfg now d m) : ∃ l, l.Perm m.toList ∧
    List.Forall₂ (fun p q => p ∈ d.entries ∧ q.1 = keyText p.1 ∧ SameFrame cfg now p.2 q.2) d.entries l := by
  obtain ⟨l, hl⟩ : ∃ l, List.Forall₂ (fun (p : PendingKey × PendingFrame) (q : String × Twin.Pending) =>
      (p ∈ d.entries ∧ q.1 = keyText p.1 ∧ SameFrame cfg now p.2 q.2) ∧ q ∈ m.toList) d.entries l := by
    refine exists_forall₂ fun p hp => ?_
    obtain ⟨q, hq, hsame⟩ := h.get (Dict.get?_eq_some_iff.mpr hp)
    exact ⟨(keyText p.1, q), ⟨hp, rfl, hsame⟩, SortedMap.mem_toList.mpr hq⟩
  have hkeys : l.map Prod.fst = d.entries.map fun p => keyText p.1 := by
    symm
    rw [← List.forall₂_eq_eq_eq, List.forall₂_map_left_iff, List.forall₂_map_right_iff]
    exact hl.imp fun p q hpq => hpq.1.2.1.symm
  have hnd : l.Nodup := by
    apply List.Nodup.of_map Prod.fst
    rw [hkeys]
    have htexts : (d.keys.map keyText).Nodup := d.keys_nodup.map fun _ _ => keyText_inj
    rwa [Dict.keys, List.map_map] at htexts
  have hnd' : m.toList.Nodup := (SortedMap.toList_sorted m).imp fun hlt heq => absurd (heq ▸ hlt) (lt_irrefl _)
  refine ⟨l, (List.perm_ext_iff_of_nodup hnd hnd').mpr fun q => ⟨fun hq => ?_, fun hq => ?_⟩, hl.imp fun _ _ h => h.1⟩
  · obtain ⟨p, -, hpq⟩ := exists_of_mem_forall₂ hl hq
    exact hpq.2
  · obtain ⟨key, f, htext, hget, -⟩ := h.back (SortedMap.mem_toList.mp hq)
    obtain ⟨q', hq', hpq⟩ := exists_of_mem_forall₂ (R := fun q p =>
      (p ∈ d.entries ∧ q.1 = keyText p.1 ∧ SameFrame cfg now p.2 q.2) ∧ q ∈ m.toList) hl.flip (Dict.get?_eq_some_iff.mp hget)
    have hval := SortedMap.mem_toList.mp hpq.2
    have hval' := SortedMap.mem_toList.mp hq
    rw [hpq.1.2.1, htext, hval', Option.some.injEq] at hval
    rw [show q = q' from Prod.ext (htext.symm.trans hpq.1.2.1.symm) hval]
    exact hq'

end

end ShipInfer.Reassembly
