import Mathlib.Data.List.MinMax
import ShipInfer.Core.Request
import ShipInfer.Lib.Counter

/-!
# The lanes of the fair queue

`Lane` of `scheduling/queues/lanes.py`: a first-in first-out bucket for every
key, and the keys in the order of their turns.
-/

namespace ShipInfer.Queue

structure Lane where
  byKey : Dict String (List WorkItem) := .empty
  order : List String := []
  size : Nat := 0

/-- What a lane that lost its shape would raise. -/
inductive LaneError
  | indexError
  | keyError (key : String)
  | valueError (key : String)
  deriving DecidableEq

namespace Lane

def push (l : Lane) (item : WorkItem) : Lane :=
  match l.byKey.get? item.fairnessKey with
  | none =>
    { byKey := l.byKey.set item.fairnessKey [item], order := l.order ++ [item.fairnessKey], size := l.size + 1 }
  | some bucket => { l with byKey := l.byKey.set item.fairnessKey (bucket ++ [item]), size := l.size + 1 }

/-- The next key's oldest item; the key goes to the back of the turns, or away. -/
def pop (l : Lane) : Except LaneError (WorkItem × Lane) :=
  match l.order with
  | [] => .error .indexError
  | key :: order =>
    match l.byKey.get? key with
    | none => .error (.keyError key)
    | some [] => .error .indexError
    | some (item :: bucket) =>
      if bucket.isEmpty then .ok (item, { byKey := l.byKey.erase key, order := order, size := l.size - 1 })
      else .ok (item, { byKey := l.byKey.set key bucket, order := order ++ [key], size := l.size - 1 })

def peek (l : Lane) : Except LaneError (Option WorkItem) :=
  match l.order with
  | [] => .ok none
  | key :: _ =>
    match l.byKey.get? key with
    | none => .error (.keyError key)
    | some [] => .error .indexError
    | some (item :: _) => .ok (some item)

/-- The oldest item of the first of the longest keys. -/
def evictFromLongest (l : Lane) : Except LaneError (Option (WorkItem × Lane)) :=
  match l.byKey.entries.argmax fun p => p.2.length with
  | none => .ok none
  | some (_, []) => .error .indexError
  | some (key, item :: bucket) =>
    if bucket.isEmpty then
      if key ∈ l.order then
        .ok (some (item, { byKey := l.byKey.erase key, order := l.order.erase key, size := l.size - 1 }))
      else .error (.valueError key)
    else .ok (some (item, { l with byKey := l.byKey.set key bucket, size := l.size - 1 }))

/-- How many items each key holds. -/
def depths (l : Lane) : Counter String := l.byKey.mapValues fun _ bucket => bucket.length

def items (l : Lane) : List WorkItem := l.byKey.values.flatten

def drain (l : Lane) : List WorkItem × Lane := (l.items, {})

/-! ## Its shape -/

/-- The turns are the keys, no bucket is empty, and the size counts the items. -/
structure Rep (l : Lane) : Prop where
  order : l.order.Perm l.byKey.keys
  buckets : ∀ p ∈ l.byKey.entries, p.2 ≠ []
  size : l.size = (l.byKey.values.map List.length).sum

section
variable {l : Lane}

theorem Rep.size_eq (h : l.Rep) : l.size = l.items.length := by
  rw [h.size, items, List.length_flatten]

theorem rep_empty : Rep {} := ⟨.refl _, fun _ hp => (List.not_mem_nil hp).elim, rfl⟩

/-- One key's bucket beside the items of the others. -/
theorem flatten_perm {d : Dict String (List WorkItem)} {rest : List (String × List WorkItem)} {key : String}
    {bucket : List WorkItem} (h : d.entries.Perm ((key, bucket) :: rest)) :
    d.values.flatten.Perm (bucket ++ (rest.map Prod.snd).flatten) := (h.map Prod.snd).flatten

theorem Rep.push (h : l.Rep) (item : WorkItem) :
    (l.push item).Rep ∧ (l.push item).items.Perm (item :: l.items) ∧ (l.push item).size = l.size + 1 := by
  have key : (l.push item).items.Perm (item :: l.items) ∧ (l.push item).order.Perm (l.push item).byKey.keys ∧
      (∀ p ∈ (l.push item).byKey.entries, p.2 ≠ []) ∧ (l.push item).size = l.size + 1 := by
    unfold Lane.push
    cases hg : l.byKey.get? item.fairnessKey with
    | none =>
      have hnew := Dict.get?_eq_none_iff.mp hg
      have hentries := Dict.set_entries_of_new (v := [item]) hnew
      refine ⟨?_, ?_, ?_, rfl⟩
      · rw [items, Dict.values, hentries, List.map_append, List.flatten_append]
        exact List.perm_append_comm
      · rw [Dict.keys_set, if_neg hnew]
        exact h.order.append_right _
      · intro p hp
        rw [hentries, List.mem_append, List.mem_singleton] at hp
        rcases hp with hp | rfl
        · exact h.buckets p hp
        · exact List.cons_ne_nil _ _
    | some bucket =>
      have hset := l.byKey.set_entries_perm item.fairnessKey (bucket ++ [item])
      have hmem : item.fairnessKey ∈ l.byKey.keys := Dict.mem_keys_of_mem (Dict.get?_eq_some_iff.mp hg)
      refine ⟨?_, ?_, ?_, rfl⟩
      · refine (flatten_perm hset).trans (.trans ?_ ((flatten_perm (Dict.entries_perm hg)).symm.cons item))
        rw [List.append_assoc]
        exact List.perm_middle
      · rw [Dict.keys_set, if_pos hmem]
        exact h.order
      · intro p hp
        rcases List.mem_cons.mp (hset.subset hp) with rfl | hp
        · simp
        · exact h.buckets p (Dict.mem_erase_entries.mp hp).1
  obtain ⟨hitems, horder, hbuckets, hsize⟩ := key
  refine ⟨⟨horder, hbuckets, ?_⟩, hitems, hsize⟩
  rw [hsize, h.size_eq, ← List.length_flatten]
  exact hitems.length_eq.symm

/-- A lane less the oldest item of one of its keys. -/
theorem Rep.take (h : l.Rep) {key : String} {item : WorkItem} {bucket : List WorkItem}
    (hg : l.byKey.get? key = some (item :: bucket)) {l' : Lane}
    (hk : l'.byKey = if bucket.isEmpty then l.byKey.erase key else l.byKey.set key bucket)
    (ho : if bucket.isEmpty then l.order.Perm (key :: l'.order) else l.order.Perm l'.order)
    (hs : l'.size = l.size - 1) :
    l'.Rep ∧ l.items.Perm (item :: l'.items) ∧ l.size = l'.size + 1 := by
  have hperm := Dict.entries_perm hg
  have key : l.items.Perm (item :: l'.items) ∧ l'.order.Perm l'.byKey.keys ∧ ∀ p ∈ l'.byKey.entries, p.2 ≠ [] := by
    cases bucket with
    | nil =>
      rw [List.isEmpty_nil, if_pos rfl] at hk ho
      rw [items, items, hk]
      refine ⟨flatten_perm hperm, ?_, fun p hp => h.buckets p (Dict.mem_erase_entries.mp hp).1⟩
      exact (ho.symm.trans (h.order.trans (hperm.map Prod.fst))).cons_inv
    | cons next bucket =>
      rw [List.isEmpty_cons, if_neg (by simp)] at hk ho
      have hset := l.byKey.set_entries_perm key (next :: bucket)
      rw [items, items, hk]
      refine ⟨(flatten_perm hperm).trans ((flatten_perm hset).symm.cons item), ?_, fun p hp => ?_⟩
      · have hmem : key ∈ l.byKey.keys := Dict.mem_keys_of_mem (Dict.get?_eq_some_iff.mp hg)
        rw [Dict.keys_set, if_pos hmem]
        exact ho.symm.trans h.order
      · rcases List.mem_cons.mp (hset.subset hp) with rfl | hp
        · simp
        · exact h.buckets p (Dict.mem_erase_entries.mp hp).1
  obtain ⟨hitems, horder, hbuckets⟩ := key
  have hlen : l.size = l'.items.length + 1 := h.size_eq.trans hitems.length_eq
  refine ⟨⟨horder, hbuckets, ?_⟩, hitems, by omega⟩
  rw [← List.length_flatten]
  show l'.size = l'.items.length
  omega

/-- The head of the turns has a bucket, and the bucket a head. -/
theorem Rep.head (h : l.Rep) {key : String} {order : List String} (ho : l.order = key :: order) :
    ∃ item bucket, l.byKey.get? key = some (item :: bucket) := by
  have hm : key ∈ l.byKey.keys := h.order.subset (by rw [ho]; exact List.mem_cons_self)
  obtain ⟨bucket, hb⟩ := Dict.exists_of_mem_keys hm
  cases bucket with
  | nil => exact absurd rfl (h.buckets _ hb)
  | cons item bucket => exact ⟨item, bucket, Dict.get?_eq_some_iff.mpr hb⟩

theorem items_eq_nil (ho : l.byKey.entries = []) : l.items = [] := by
  rw [items, Dict.values, ho]; rfl

/-- While the size is not zero, a look shows the item that the next pop takes. -/
theorem Rep.pop (h : l.Rep) (hpos : l.size ≠ 0) :
    ∃ item l', l.peek = .ok (some item) ∧ l.pop = .ok (item, l') ∧ l'.Rep ∧ l.items.Perm (item :: l'.items) ∧
      l.size = l'.size + 1 := by
  cases ho : l.order with
  | nil =>
    have hk : l.byKey.entries = [] := by
      have := (ho ▸ h.order).symm.eq_nil
      exact List.map_eq_nil_iff.mp this
    rw [h.size_eq, items_eq_nil hk] at hpos
    exact absurd rfl hpos
  | cons key order =>
    obtain ⟨item, bucket, hg⟩ := h.head ho
    refine ⟨item, { byKey := if bucket.isEmpty then l.byKey.erase key else l.byKey.set key bucket
                    order := if bucket.isEmpty then order else order ++ [key]
                    size := l.size - 1 }, by simp only [peek, ho, hg], ?_, ?_⟩
    · simp only [Lane.pop, ho, hg]
      split <;> rfl
    · refine h.take hg rfl ?_ rfl
      rw [ho]
      split
      · exact .refl _
      · exact (List.perm_append_singleton key order).symm

/-- Eviction finds nobody in an empty lane only. -/
theorem Rep.evictFromLongest (h : l.Rep) :
    (l.evictFromLongest = .ok none ∧ l.size = 0) ∨
    ∃ item l', l.evictFromLongest = .ok (some (item, l')) ∧ l'.Rep ∧ l.items.Perm (item :: l'.items) ∧
      l.size = l'.size + 1 := by
  unfold Lane.evictFromLongest
  cases hmax : l.byKey.entries.argmax fun p => p.2.length with
  | none =>
    refine .inl ⟨rfl, ?_⟩
    rw [h.size_eq, items_eq_nil (List.argmax_eq_none.mp hmax)]
    rfl
  | some p =>
    obtain ⟨key, bucket⟩ := p
    have hm : (key, bucket) ∈ l.byKey.entries := List.argmax_mem (Option.mem_def.mpr hmax)
    cases bucket with
    | nil => exact absurd rfl (h.buckets _ hm)
    | cons item bucket =>
      have hg := Dict.get?_eq_some_iff.mpr hm
      have hin : key ∈ l.order := h.order.symm.subset (Dict.mem_keys_of_mem hm)
      refine .inr ⟨item,
        { byKey := if bucket.isEmpty then l.byKey.erase key else l.byKey.set key bucket
          order := if bucket.isEmpty then l.order.erase key else l.order
          size := l.size - 1 }, ?_, h.take hg rfl ?_ rfl⟩
      · simp only [hin, if_true]
        split <;> rfl
      · split
        · exact List.perm_cons_erase hin
        · exact .refl _

end

end Lane

end ShipInfer.Queue
