import ShipInfer.Queue.Conservation

/-!
# Who is where in the lanes

The lane of an item is the one of its priority, its bucket there the one of its
key, and a bucket is taken from the front only. So of the items of one key and
one priority, what has left and what is still there are, in this order, what was
taken in.
-/

namespace ShipInfer

def WorkItem.level (item : WorkItem) : Nat := item.request.priority.level

@[simp] theorem WorkItem.level_stamped (item : WorkItem) : item.stamped.level = item.level := rfl

@[simp] theorem WorkItem.fairnessKey_stamped (item : WorkItem) : item.stamped.fairnessKey = item.fairnessKey := rfl

namespace Queue

namespace Lane

def bucket (l : Lane) (key : String) : List WorkItem := (l.byKey.get? key).getD []

/-- The items of a lane: all of one level, each in the bucket of its key. -/
def Placed (l : Lane) (level : Nat) : Prop :=
  ∀ key, ∀ item ∈ l.bucket key, item.fairnessKey = key ∧ item.level = level

/-- One key's oldest item is gone. -/
def Took (l : Lane) (item : WorkItem) (l' : Lane) : Prop :=
  ∃ key rest, l.byKey.get? key = some (item :: rest) ∧
    l'.byKey = if rest.isEmpty then l.byKey.erase key else l.byKey.set key rest

variable {l l' : Lane} {item : WorkItem} {level : Nat}

theorem mem_items_iff : item ∈ l.items ↔ ∃ key, item ∈ l.bucket key := by
  simp only [items, Dict.values, List.mem_flatten, List.mem_map]
  constructor
  · intro h
    obtain ⟨_, ⟨⟨key, bucket⟩, hp, rfl⟩, hitem⟩ := h
    exact ⟨key, by simpa [Lane.bucket, Dict.get?_eq_some_iff.mpr hp] using hitem⟩
  · intro h
    obtain ⟨key, hitem⟩ := h
    unfold Lane.bucket at hitem
    cases hg : l.byKey.get? key with
    | none => simp [hg] at hitem
    | some bucket =>
      rw [hg, Option.getD_some] at hitem
      exact ⟨bucket, ⟨(key, bucket), Dict.get?_eq_some_iff.mp hg, rfl⟩, hitem⟩

theorem bucket_push (l : Lane) (item : WorkItem) (key : String) :
    (l.push item).bucket key = l.bucket key ++ if key = item.fairnessKey then [item] else [] := by
  unfold Lane.push
  cases hg : l.byKey.get? item.fairnessKey with
  | none =>
    by_cases hk : key = item.fairnessKey
    · simp [Lane.bucket, hk, hg]
    · simp [Lane.bucket, hk, Dict.get?_set_ne hk]
  | some bucket =>
    by_cases hk : key = item.fairnessKey
    · simp [Lane.bucket, hk, hg]
    · simp [Lane.bucket, hk, Dict.get?_set_ne hk]

theorem Took.bucket (h : l.Took item l') : ∃ key, ∀ k,
    l.bucket k = (if k = key then [item] else []) ++ l'.bucket k := by
  obtain ⟨key, rest, hg, hk⟩ := h
  refine ⟨key, fun k => ?_⟩
  by_cases he : k = key
  · subst he
    cases rest with
    | nil => simp [Lane.bucket, hg, hk, Dict.get?_erase]
    | cons next rest => simp [Lane.bucket, hg, hk]
  · cases rest with
    | nil => simp [Lane.bucket, hk, Dict.get?_erase, he]
    | cons next rest => simp [Lane.bucket, hk, Dict.get?_set_ne he, he]

theorem pop_took (h : l.pop = .ok (item, l')) : l.Took item l' := by
  unfold Lane.pop at h
  split at h
  · cases h
  · rename_i key order ho
    split at h
    · cases h
    · cases h
    · rename_i head rest hg
      split at h
      · rename_i hempty
        cases h
        exact ⟨key, rest, hg, by simp [hempty]⟩
      · rename_i hmore
        cases h
        exact ⟨key, rest, hg, by simp [hmore]⟩

/-- The key of what was taken is the key of the item. -/
theorem Placed.took (hp : l.Placed level) (h : l.Took item l') :
    item.level = level ∧ l'.Placed level ∧
      ∀ key, l.bucket key = (if key = item.fairnessKey then [item] else []) ++ l'.bucket key := by
  obtain ⟨key, hbucket⟩ := h.bucket
  have hitem : item ∈ l.bucket key := by rw [hbucket, if_pos rfl]; simp
  obtain ⟨rfl, hlevel⟩ := hp key item hitem
  refine ⟨hlevel, fun k other hother => ?_, hbucket⟩
  apply hp k other
  rw [hbucket]
  exact List.mem_append_right _ hother

theorem Placed.push (hp : l.Placed level) (hlevel : item.level = level) : (l.push item).Placed level := by
  intro key other hother
  rw [bucket_push, List.mem_append] at hother
  by_cases hk : key = item.fairnessKey
  · rw [if_pos hk, List.mem_singleton] at hother
    cases hother with
    | inl hold => exact hp key other hold
    | inr hnew => exact hnew ▸ ⟨hk.symm, hlevel⟩
  · simp only [if_neg hk, List.not_mem_nil, or_false] at hother
    exact hp key other hother

theorem placed_empty (level : Nat) : ({} : Lane).Placed level := by
  intro key item h
  simp [Lane.bucket] at h

theorem Placed.level_of_mem (hp : l.Placed level) (h : item ∈ l.items) : item.level = level := by
  obtain ⟨key, hitem⟩ := mem_items_iff.mp h
  exact (hp key item hitem).2

end Lane

/-! ## The lanes together -/

/-- The lanes from a level on, each with the items of its own. -/
def PlacedFrom (level : Nat) (lanes : List Lane) : Prop := ∀ i, (lanes.getD i {}).Placed (level + i)

theorem PlacedFrom.cons_iff {level : Nat} {lane : Lane} {lanes : List Lane} :
    PlacedFrom level (lane :: lanes) ↔ lane.Placed level ∧ PlacedFrom (level + 1) lanes := by
  constructor
  · intro h
    refine ⟨h 0, fun i => ?_⟩
    have := h (i + 1)
    rwa [show level + (i + 1) = level + 1 + i by omega] at this
  · intro h i
    cases i with
    | zero => exact h.1
    | succ i =>
      have := h.2 i
      rwa [show level + 1 + i = level + (i + 1) by omega] at this

theorem PlacedFrom.le_level {level : Nat} : ∀ {lanes : List Lane} (_ : PlacedFrom level lanes) {item : WorkItem},
    item ∈ lanes.flatMap Lane.items → level ≤ item.level
  | [], _, _, h => (List.not_mem_nil h).elim
  | lane :: lanes, hp, item, h => by
    obtain ⟨hlane, hrest⟩ := PlacedFrom.cons_iff.mp hp
    rw [List.flatMap_cons, List.mem_append] at h
    cases h with
    | inl h => exact (hlane.level_of_mem h).ge
    | inr h => exact (Nat.le_succ level).trans (hrest.le_level h)

/-- The items of one level and one key. -/
def ofKey (level : Nat) (key : String) (item : WorkItem) : Bool :=
  decide (item.level = level ∧ item.fairnessKey = key)

theorem filter_ofKey_eq_nil {items : List WorkItem} {level : Nat} (key : String)
    (h : ∀ item ∈ items, item.level ≠ level) : items.filter (ofKey level key) = [] := by
  apply List.filter_eq_nil_iff.mpr
  intro item hitem
  simp [ofKey, h item hitem]

/-! ## Eviction -/

/-- The oldest item of a longest key of its lane. -/
structure OldestOfLongest (lane : Lane) (victim : WorkItem) : Prop where
  oldest : (lane.bucket victim.fairnessKey).head? = some victim
  longest : ∀ key, (lane.bucket key).length ≤ (lane.bucket victim.fairnessKey).length

namespace Lane

variable {l l' : Lane} {item : WorkItem} {level : Nat}

theorem evictFromLongest_took (h : l.evictFromLongest = .ok (some (item, l'))) : l.Took item l' := by
  unfold Lane.evictFromLongest at h
  split at h
  · cases h
  · cases h
  · rename_i key head rest hmax
    have hm : (key, head :: rest) ∈ l.byKey.entries := List.argmax_mem (Option.mem_def.mpr hmax)
    have hg := Dict.get?_eq_some_iff.mpr hm
    split at h
    · rename_i hempty
      split at h
      · cases h
        exact ⟨key, rest, hg, by simp [hempty]⟩
      · cases h
    · rename_i hmore
      cases h
      exact ⟨key, rest, hg, by simp [hmore]⟩

theorem evictFromLongest_longest (hp : l.Placed level) (h : l.evictFromLongest = .ok (some (item, l'))) :
    OldestOfLongest l item := by
  obtain ⟨-, -, hbucket⟩ := hp.took (evictFromLongest_took h)
  refine ⟨by simp [hbucket], fun other => ?_⟩
  unfold Lane.evictFromLongest at h
  split at h
  · cases h
  · cases h
  · rename_i key head rest hmax
    have hm : (key, head :: rest) ∈ l.byKey.entries := List.argmax_mem (Option.mem_def.mpr hmax)
    have hg := Dict.get?_eq_some_iff.mpr hm
    have hhead : head = item := by
      split at h
      · split at h
        · cases h; rfl
        · cases h
      · cases h; rfl
    have hkey : key = item.fairnessKey := by
      refine (hp key item ?_).1.symm
      simp [Lane.bucket, hg, hhead]
    subst hkey
    cases ho : l.byKey.get? other with
    | none => simp [Lane.bucket, ho]
    | some bucket =>
      have := List.le_of_mem_argmax (Dict.get?_eq_some_iff.mp ho) (Option.mem_def.mpr hmax)
      simpa [Lane.bucket, ho, hg] using this

end Lane

namespace FairPriorityQueue

variable {cfg : Config} {s : FairPriorityQueue}

/-- What eviction takes from the lanes from a level on. -/
structure Evicts (level : Nat) (lanes lanes' : List Lane) (victim : WorkItem) : Prop where
  placed : PlacedFrom level lanes'
  le_level : level ≤ victim.level
  bucket : ∀ i key, (lanes.getD i {}).bucket key =
    (if ofKey (level + i) key victim then [victim] else []) ++ (lanes'.getD i {}).bucket key
  longest : OldestOfLongest (lanes.getD (victim.level - level) {}) victim
  lowest : ∀ item ∈ lanes.flatMap Lane.items, item.level ≤ victim.level

theorem evictLowest_evicts {level : Nat} {victim : WorkItem} : ∀ {lanes lanes' : List Lane}, (∀ lane ∈ lanes, lane.Rep) →
    PlacedFrom level lanes → evictLowest lanes = .ok (some (victim, lanes')) → Evicts level lanes lanes' victim
  | [], _, _, _, h => nomatch h
  | lane :: lanes, lanes', hrep, hplaced, h => by
    obtain ⟨hlane, hrest⟩ := PlacedFrom.cons_iff.mp hplaced
    have hreps : ∀ l ∈ lanes, l.Rep := fun l hl => hrep l (List.mem_cons_of_mem _ hl)
    unfold evictLowest at h
    split at h
    · cases h
    · rename_i more he
      cases h
      have ih := evictLowest_evicts hreps hrest he
      have hle := ih.le_level
      refine ⟨PlacedFrom.cons_iff.mpr ⟨hlane, ih.placed⟩, by omega, fun i key => ?_, ?_, fun item hitem => ?_⟩
      · cases i with
        | zero => simp [ofKey, show victim.level ≠ level by omega]
        | succ i =>
          have := ih.bucket i key
          rwa [show level + 1 + i = level + (i + 1) by omega] at this
      · have := ih.longest
        rwa [show victim.level - level = victim.level - (level + 1) + 1 by omega]
      · rw [List.flatMap_cons, List.mem_append] at hitem
        cases hitem with
        | inl hitem => rw [hlane.level_of_mem hitem]; omega
        | inr hitem => exact ih.lowest item hitem
    · rename_i hnone
      have hempty : lanes.flatMap Lane.items = [] := by
        cases evictLowest_spec hreps with
        | inl hn => exact hn.2
        | inr hs =>
          obtain ⟨_, _, hs, -⟩ := hs
          rw [hnone] at hs
          cases hs
      split at h
      · cases h
      · cases h
      · rename_i lane' he
        cases h
        obtain ⟨hlevel, hplaced', hbucket⟩ := hlane.took (Lane.evictFromLongest_took he)
        refine ⟨PlacedFrom.cons_iff.mpr ⟨hplaced', hrest⟩, hlevel.ge, fun i key => ?_, ?_, fun item hitem => ?_⟩
        · cases i with
          | zero => simpa [ofKey, hlevel, eq_comm] using hbucket key
          | succ i => simp [ofKey, show victim.level ≠ level + (i + 1) by omega]
        · rw [hlevel, Nat.sub_self]
          exact Lane.evictFromLongest_longest hlane he
        · rw [List.flatMap_cons, hempty, List.append_nil] at hitem
          rw [hlane.level_of_mem hitem, hlevel]

def bucket (s : FairPriorityQueue) (level : Nat) (key : String) : List WorkItem := (s.lanes.getD level {}).bucket key

def Placed (s : FairPriorityQueue) : Prop := PlacedFrom 0 s.lanes

end FairPriorityQueue

end Queue

end ShipInfer
