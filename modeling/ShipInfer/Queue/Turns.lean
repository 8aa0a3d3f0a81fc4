import Mathlib.Data.List.Infix
import Mathlib.Data.Set.Insert
import ShipInfer.Lib.Machine
import ShipInfer.Queue.Buckets

/-!
# Keys take turns

Of the keys that a lane holds all the while, each is popped once before another is popped
twice, whatever is pushed, popped and evicted beside them.
-/

namespace ShipInfer.Queue.Lane

inductive Operation
  | push (item : WorkItem)
  | pop
  | evict

inductive Result
  | pushed
  | popped (item : WorkItem)
  | evicted (item : Option WorkItem)
  | raised (error : LaneError)

/-- A call that raises leaves the lane as it was. -/
def act (l : Lane) : Operation → Lane × Result
  | .push item => (l.push item, .pushed)
  | .pop =>
    match l.pop with
    | .error e => (l, .raised e)
    | .ok (item, l') => (l', .popped item)
  | .evict =>
    match l.evictFromLongest with
    | .error e => (l, .raised e)
    | .ok none => (l, .evicted none)
    | .ok (some (item, l')) => (l', .evicted (some item))

def run (l : Lane) (operations : List Operation) : Lane × List Result := Machine.exec act l operations

def Result.pops (key : String) : Result → Bool
  | .popped item => item.fairnessKey = key
  | _ => false

/-- How many items of a key were popped. -/
def popped (key : String) (results : List Result) : Nat := results.countP (Result.pops key)

/-- A lane in its shape, with each item in the bucket of its key. -/
structure Keyed (l : Lane) : Prop where
  rep : l.Rep
  keys : ∀ key, ∀ item ∈ l.bucket key, item.fairnessKey = key

/-- `a` is served before `b`. -/
def Before (l : Lane) (a b : String) : Prop := [a, b].Sublist l.order

section
variable {l l' : Lane} {item : WorkItem} {a b key : String}

theorem Keyed.nodup (h : l.Keyed) : l.order.Nodup := h.rep.order.nodup_iff.mpr l.byKey.keys_nodup

theorem Keyed.mem_order (h : l.Keyed) : key ∈ l.order ↔ l.bucket key ≠ [] := by
  rw [h.rep.order.mem_iff]
  constructor
  · intro hmem
    obtain ⟨bucket, hb⟩ := Dict.exists_of_mem_keys hmem
    have hne := h.rep.buckets _ hb
    simpa [Lane.bucket, Dict.get?_eq_some_iff.mpr hb] using hne
  · intro hne
    cases hg : l.byKey.get? key with
    | none => simp [Lane.bucket, hg] at hne
    | some bucket => exact Dict.mem_keys_of_mem (Dict.get?_eq_some_iff.mp hg)

theorem keyed_empty : Keyed {} := ⟨rep_empty, fun key item h => by simp [Lane.bucket] at h⟩

theorem Keyed.push (h : l.Keyed) (item : WorkItem) : (l.push item).Keyed := by
  refine ⟨(h.rep.push item).1, ?_⟩
  intro key other hother
  rw [bucket_push, List.mem_append] at hother
  rcases hother with hold | hnew
  · exact h.keys key other hold
  · by_cases hk : key = item.fairnessKey
    · rw [if_pos hk, List.mem_singleton] at hnew
      rw [hnew, hk]
    · simp [hk] at hnew

theorem Keyed.took (h : l.Keyed) (hrep : l'.Rep) (ht : l.Took item l') : l'.Keyed := by
  obtain ⟨key, hbucket⟩ := ht.bucket
  refine ⟨hrep, fun k other hother => h.keys k other ?_⟩
  rw [hbucket]
  exact List.mem_append_right _ hother

theorem Keyed.pop (h : l.Keyed) (hpop : l.pop = .ok (item, l')) :
    l'.Keyed ∧ ∃ rest, l.order = item.fairnessKey :: rest ∧
      (l'.order = rest ∨ l'.order = rest ++ [item.fairnessKey]) := by
  cases ho : l.order with
  | nil => simp [Lane.pop, ho] at hpop
  | cons key rest =>
    obtain ⟨head, bucket, hg⟩ := h.rep.head ho
    have hmem : head ∈ l.bucket key := by simp [Lane.bucket, hg]
    have hkey := h.keys key head hmem
    have hpos : l.size ≠ 0 := by
      rw [h.rep.size_eq]
      exact List.length_eq_zero_iff.not.mpr (List.ne_nil_of_mem (mem_items_iff.mpr ⟨key, hmem⟩))
    obtain ⟨_, _, -, hpop', hrep, -⟩ := h.rep.pop hpos
    have hsame := hpop.symm.trans hpop'
    cases hsame
    refine ⟨h.took hrep (pop_took hpop), ?_⟩
    simp only [Lane.pop, ho, hg] at hpop
    split at hpop
    · cases hpop
      exact ⟨rest, by rw [hkey], .inl rfl⟩
    · cases hpop
      exact ⟨rest, by rw [hkey], .inr (by rw [hkey])⟩

theorem Keyed.evict (h : l.Keyed) (hevict : l.evictFromLongest = .ok (some (item, l'))) :
    l'.Keyed ∧ (l'.order = l.order ∨ ∃ key, l'.order = l.order.erase key) := by
  have hrep : l'.Rep := by
    rcases h.rep.evictFromLongest with ⟨hnone, -⟩ | ⟨_, _, hsome, hrep, -⟩
    · simp [hnone] at hevict
    · rw [hevict] at hsome
      cases hsome
      exact hrep
  refine ⟨h.took hrep (evictFromLongest_took hevict), ?_⟩
  unfold Lane.evictFromLongest at hevict
  split at hevict
  · cases hevict
  · cases hevict
  · rename_i key head rest hmax
    split at hevict
    · split at hevict
      · cases hevict
        exact .inr ⟨key, rfl⟩
      · cases hevict
    · cases hevict
      exact .inl rfl

theorem Before.push (h : l.Before a b) (item : WorkItem) : (l.push item).Before a b := by
  unfold Before Lane.push at *
  split
  · exact h.trans (List.sublist_append_left _ _)
  · exact h

/-- Who stays keeps its place when another key goes. -/
theorem Before.evict (hl : l.Keyed) (h : l.Before a b) (ha : a ∈ l'.order) (hb : b ∈ l'.order)
    (ho : l'.order = l.order ∨ ∃ key, l'.order = l.order.erase key) : l'.Before a b := by
  rcases ho with ho | ⟨key, ho⟩
  · rw [Before, ho]
    exact h
  · rw [ho, hl.nodup.mem_erase_iff] at ha hb
    have herase := h.erase key
    have hne : [a, b].erase key = [a, b] := by
      apply List.erase_of_not_mem
      simp [ha.1.symm, hb.1.symm]
    rw [hne] at herase
    rw [Before, ho]
    exact herase

/-- A key that is popped goes behind the others. -/
theorem before_of_popped {rest : List String} (h : [a, b].Sublist (key :: rest)) (hn : (key :: rest).Nodup)
    (ho : l'.order = rest ∨ l'.order = rest ++ [key]) (ha : a ∈ l'.order) :
    (key = a ∧ l'.Before b a) ∨ (key ≠ a ∧ key ≠ b ∧ l'.Before a b) := by
  have hrest : key ∉ rest := (List.nodup_cons.mp hn).1
  cases h with
  | cons _ h =>
    right
    have hsub := h.subset
    refine ⟨fun he => hrest (he ▸ hsub (by simp)), fun he => hrest (he ▸ hsub (by simp)), ?_⟩
    rcases ho with ho | ho <;> rw [Before, ho]
    · exact h
    · exact h.trans (List.sublist_append_left _ _)
  | cons_cons _ h =>
    left
    refine ⟨rfl, ?_⟩
    rcases ho with ho | ho
    · rw [ho] at ha
      exact absurd ha hrest
    · rw [Before, ho]
      exact h.append (List.Sublist.refl [a])

/-- Who is next of two keys, and that the other had its turn. -/
def Even (a b : String) (results : List Result) (l : Lane) : Prop :=
  (l.Before a b ∧ popped a results = popped b results) ∨ (l.Before b a ∧ popped a results = popped b results + 1)

theorem popped_snoc (key : String) (results : List Result) (r : Result) :
    popped key (results ++ [r]) = popped key results + if r.pops key then 1 else 0 := by
  simp [popped, List.countP_append, List.countP_cons]

theorem Keyed.act (hl : l.Keyed) (o : Operation) : (l.act o).1.Keyed := by
  cases o with
  | push item => exact hl.push item
  | pop =>
    cases hp : l.pop with
    | error e => simpa [Lane.act, hp] using hl
    | ok p =>
      obtain ⟨item, l'⟩ := p
      simpa [Lane.act, hp] using (hl.pop hp).1
  | evict =>
    cases he : l.evictFromLongest with
    | error e => simpa [Lane.act, he] using hl
    | ok p =>
      cases p with
      | none => simpa [Lane.act, he] using hl
      | some p =>
        obtain ⟨item, l'⟩ := p
        simpa [Lane.act, he] using (hl.evict he).1

/-- What one call does to the turns of two keys that stay. -/
theorem Even.act {results : List Result} (hl : l.Keyed) (hne : a ≠ b) (h : Even a b results l) (o : Operation)
    (ha : a ∈ (l.act o).1.order) (hb : b ∈ (l.act o).1.order) :
    Even a b (results ++ [(l.act o).2]) (l.act o).1 := by
  unfold Even at *
  simp only [popped_snoc]
  cases o with
  | push item =>
    apply h.imp
    · intro h
      exact ⟨h.1.push item, by simpa [Lane.act, Result.pops] using h.2⟩
    · intro h
      exact ⟨h.1.push item, by simpa [Lane.act, Result.pops] using h.2⟩
  | pop =>
    cases hp : l.pop with
    | error e => simpa [Lane.act, hp, Result.pops] using h
    | ok p =>
      obtain ⟨item, l'⟩ := p
      obtain ⟨-, rest, ho, ho'⟩ := hl.pop hp
      simp only [Lane.act, hp, Result.pops, decide_eq_true_eq] at ha hb ⊢
      have hn := ho ▸ hl.nodup
      unfold Before at h
      rw [ho] at h
      rcases h with ⟨h, he⟩ | ⟨h, he⟩
      · rcases before_of_popped h hn ho' ha with ⟨hk, h'⟩ | ⟨hka, hkb, h'⟩
        · exact .inr ⟨h', by simp [hk, hne, he]⟩
        · exact .inl ⟨h', by simp [hka, hkb, he]⟩
      · rcases before_of_popped h hn ho' hb with ⟨hk, h'⟩ | ⟨hkb, hka, h'⟩
        · exact .inl ⟨h', by simp [hk, hne.symm, he]⟩
        · exact .inr ⟨h', by simp [hka, hkb, he]⟩
  | evict =>
    cases he : l.evictFromLongest with
    | error e => simpa [Lane.act, he, Result.pops] using h
    | ok p =>
      cases p with
      | none => simpa [Lane.act, he, Result.pops] using h
      | some p =>
        obtain ⟨item, l'⟩ := p
        simp only [Lane.act, he] at ha hb ⊢
        have ho := (hl.evict he).2
        apply h.imp
        · intro h
          exact ⟨h.1.evict hl ha hb ho, by simpa [Result.pops] using h.2⟩
        · intro h
          exact ⟨h.1.evict hl hb ha ho, by simpa [Result.pops] using h.2⟩

theorem keyed_run (hl : l.Keyed) (operations : List Operation) : (l.run operations).1.Keyed := by
  induction operations using List.reverseRecOn with
  | nil => exact hl
  | append_singleton operations o ih =>
    rw [Lane.run, Machine.exec_snoc]
    exact ih.act o

theorem even_run (hl : l.Keyed) (hne : a ≠ b) (hab : l.Before a b) (operations : List Operation)
    (h : ∀ begun, begun <+: operations → a ∈ (l.run begun).1.order ∧ b ∈ (l.run begun).1.order) :
    Even a b (l.run operations).2 (l.run operations).1 := by
  induction operations using List.reverseRecOn with
  | nil => exact .inl ⟨hab, rfl⟩
  | append_singleton operations o ih =>
    have hbefore := ih fun begun hb => h begun (hb.trans (List.prefix_append _ _))
    obtain ⟨ha, hb⟩ := h (operations ++ [o]) (List.prefix_refl _)
    rw [Lane.run, Machine.exec_snoc] at ha hb ⊢
    exact hbefore.act (keyed_run hl operations) hne o ha hb

theorem Even.le {results : List Result} (h : Even a b results l) :
    popped a results ≤ popped b results + 1 ∧ popped b results ≤ popped a results + 1 := by
  rcases h with ⟨-, he⟩ | ⟨-, he⟩
  · omega
  · omega

theorem before_total (hne : a ≠ b) : ∀ {order : List String}, a ∈ order → b ∈ order →
    [a, b].Sublist order ∨ [b, a].Sublist order
  | key :: order, ha, hb => by
    rcases List.mem_cons.mp ha with rfl | ha'
    · rcases List.mem_cons.mp hb with rfl | hb'
      · exact absurd rfl hne
      · exact .inl ((List.singleton_sublist.mpr hb').cons_cons _)
    · rcases List.mem_cons.mp hb with rfl | hb'
      · exact .inr ((List.singleton_sublist.mpr ha').cons_cons _)
      · exact (before_total hne ha' hb').imp (List.Sublist.cons _) (List.Sublist.cons _)

end

/-- **Round-robin.** Whatever a lane has been through, and whatever is pushed, popped and
evicted from then on: of the keys that hold items all the while, none is popped more than
once oftener than another. -/
theorem takes_turns (earlier during : List Operation) (keys : Set String)
    (h : ∀ begun, begun <+: during → ∀ key ∈ keys, (run (run {} earlier).1 begun).1.bucket key ≠ [])
    {a b : String} (ha : a ∈ keys) (hb : b ∈ keys) :
    popped a (run (run {} earlier).1 during).2 ≤ popped b (run (run {} earlier).1 during).2 + 1 := by
  have hl : Keyed (run {} earlier).1 := keyed_run keyed_empty earlier
  have hheld : ∀ key ∈ keys, ∀ begun, begun <+: during → key ∈ (run (run {} earlier).1 begun).1.order := by
    intro key hkey begun hbegun
    rw [(keyed_run hl begun).mem_order]
    exact h begun hbegun key hkey
  by_cases hne : a = b
  · rw [hne]
    apply Nat.le_succ
  · rcases before_total hne (hheld a ha [] List.nil_prefix) (hheld b hb [] List.nil_prefix) with hab | hba
    · exact (even_run hl hne hab during fun begun hp => ⟨hheld a ha begun hp, hheld b hb begun hp⟩).le.1
    · exact (even_run hl (Ne.symm hne) hba during fun begun hp => ⟨hheld b hb begun hp, hheld a ha begun hp⟩).le.2

/-- Two busy cameras, and a third that comes and is evicted. -/
theorem two_keys_in_turn :
    let frame (camera : String) (id : Int) : WorkItem :=
      { request := { modelName := "detect", inputs := .empty, requestId := id
                     context := { cameraId := camera, frameId := id } } }
    let earlier := [.push (frame "quay" 1), .push (frame "quay" 2), .push (frame "quay" 3), .push (frame "mast" 4),
      .push (frame "mast" 5)]
    let during := [.push (frame "gate" 6), .pop, .evict, .push (frame "quay" 7), .pop]
    popped "quay" (run (run {} earlier).1 during).2 = 1 ∧
      popped "mast" (run (run {} earlier).1 during).2 ≤ popped "quay" (run (run {} earlier).1 during).2 + 1 := by
  intro frame earlier during
  refine ⟨by decide +kernel, takes_turns earlier during {"quay", "mast"} ?_ (by simp) (by simp)⟩
  intro begun hbegun key hkey
  have hheld : ∀ begun ∈ during.inits, (run (run {} earlier).1 begun).1.bucket "quay" ≠ [] ∧
      (run (run {} earlier).1 begun).1.bucket "mast" ≠ [] := by decide +kernel
  obtain ⟨hquay, hmast⟩ := hheld begun ((List.mem_inits begun during).mpr hbegun)
  rcases hkey with rfl | rfl
  · exact hquay
  · exact hmast

end ShipInfer.Queue.Lane
