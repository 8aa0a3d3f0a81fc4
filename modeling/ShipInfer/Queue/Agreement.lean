import Mathlib.Data.List.Forall2
import Mathlib.Data.String.Basic
import ShipInfer.Queue.Eviction
import ShipInfer.Queue.Twin

/-!
# Where the two queues agree

The two planes keep the same buckets, the same turns and the same sums; the C++
lane lists its keys beside its buckets in the order the Python dictionary has
them. So they take, refuse, evict and serve alike, and count alike. What `close`
returns they order by other rules: the Python lanes by key as first seen, the C++
lanes by turn (`closes_by_turn`).
-/

namespace ShipInfer.Queue

open Std (TreeMap)

namespace Twin

/-- Items as the Python queue holds them. -/
def stamp (items : List WorkItem) : List WorkItem := items.map WorkItem.stamped

/-- One lane of each plane. -/
structure LaneAgrees (l : Queue.Lane) (t : Lane WorkItem) : Prop where
  buckets : ∀ key, l.byKey.get? key = (t.byKey.get? key).map stamp
  order : t.order = l.order
  seen : t.seen = l.byKey.keys
  size : t.size = l.size

/-- A count for every camera. -/
def Counts (t : TreeMap String Nat) (c : Counter String) : Prop := ∀ key, t[key]? = c.get? key

theorem counts_empty : Counts ∅ .empty := fun key => by simp

theorem getElem?_addDepth (t : TreeMap String Nat) (key : String) (n : Nat) (k : String) :
    (Lane.addDepth t key n)[k]? = if k = key then some (t[key]?.getD 0 + n) else t[k]? :=
  SortedMap.getElem?_insert t key _ k

theorem Counts.add {t : TreeMap String Nat} {c : Counter String} (h : Counts t c) (key : String) (n : Nat) :
    Counts (Lane.addDepth t key n) (c.add key n) := by
  intro k
  rw [getElem?_addDepth, Counter.add, Dict.get?_set, h key, h k]

section
variable {l : Queue.Lane} {t : Lane WorkItem}

theorem laneAgrees_empty : LaneAgrees {} {} := ⟨fun _ => rfl, rfl, rfl, rfl⟩

theorem LaneAgrees.bucket (h : LaneAgrees l t) {key : String} {bucket : List WorkItem}
    (hg : t.byKey.get? key = some bucket) : l.byKey.get? key = some (stamp bucket) := by
  rw [h.buckets, hg, Option.map_some]

theorem LaneAgrees.set (h : LaneAgrees l t) (key : String) (bucket : List WorkItem) (k : String) :
    (l.byKey.set key (stamp bucket)).get? k = ((t.byKey.set key bucket).get? k).map stamp := by
  rw [Dict.get?_set, Dict.get?_set]
  by_cases hk : k = key
  · simp [hk]
  · simpa [hk] using h.buckets k

theorem LaneAgrees.erase (h : LaneAgrees l t) (key k : String) :
    (l.byKey.erase key).get? k = ((t.byKey.erase key).get? k).map stamp := by
  rw [Dict.get?_erase, Dict.get?_erase]
  by_cases hk : k = key
  · simp [hk]
  · simpa [hk] using h.buckets k

theorem erase_seen (d : Dict String (List WorkItem)) (key : String) : d.keys.erase key = (d.erase key).keys := by
  rw [List.Nodup.erase_eq_filter d.keys_nodup]
  simp only [Dict.keys, Dict.erase, Dict.entries_filter, List.filter_map]
  congr 1
  apply List.filter_congr
  intro p _
  by_cases h : p.1 = key <;> simp [h]

theorem keys_set_of_some {d : Dict String (List WorkItem)} {key : String} {bucket : List WorkItem}
    (hg : d.get? key = some bucket) (bucket' : List WorkItem) : (d.set key bucket').keys = d.keys := by
  rw [Dict.keys_set, if_pos (Dict.mem_keys_of_mem (Dict.get?_eq_some_iff.mp hg))]

theorem LaneAgrees.push (h : LaneAgrees l t) (item : WorkItem) : LaneAgrees (l.push item.stamped) (t.push item) := by
  unfold Queue.Lane.push Lane.push
  have hg := h.buckets item.fairnessKey
  simp only [WorkItem.fairnessKey_stamped, QueueItem.camera]
  cases hb : t.byKey.get? item.fairnessKey with
  | none =>
    rw [hb, Option.map_none] at hg
    rw [hg]
    refine ⟨h.set item.fairnessKey [item], by rw [h.order], ?_, by rw [h.size]⟩
    rw [h.seen, Dict.keys_set, if_neg (Dict.get?_eq_none_iff.mp hg)]
  | some bucket =>
    rw [hb, Option.map_some] at hg
    rw [hg]
    have hset := h.set item.fairnessKey (bucket ++ [item])
    rw [stamp, List.map_append] at hset
    exact ⟨hset, h.order, h.seen.trans (keys_set_of_some hg _).symm, by rw [h.size]⟩

/-- A bucket's front, on both planes. -/
theorem LaneAgrees.take (h : LaneAgrees l t) {key : String} {item : WorkItem} {bucket : List WorkItem}
    (hg : t.byKey.get? key = some (item :: bucket)) {l' : Queue.Lane} {t' : Lane WorkItem}
    (hl : l'.byKey = if (stamp bucket).isEmpty then l.byKey.erase key else l.byKey.set key (stamp bucket))
    (ht : t'.byKey = if bucket.isEmpty then t.byKey.erase key else t.byKey.set key bucket)
    (hseen : t'.seen = if bucket.isEmpty then t.seen.erase key else t.seen)
    (horder : t'.order = l'.order) (hsize : t'.size = l'.size) : LaneAgrees l' t' := by
  cases bucket with
  | nil =>
    rw [List.isEmpty_nil, if_pos rfl] at ht hseen
    rw [stamp, List.map_nil, List.isEmpty_nil, if_pos rfl] at hl
    refine ⟨fun k => ?_, horder, ?_, hsize⟩
    · rw [hl, ht]
      exact h.erase key k
    · rw [hseen, h.seen, hl, erase_seen]
  | cons next bucket =>
    rw [List.isEmpty_cons, if_neg (by simp)] at ht hseen
    rw [stamp, List.map_cons, List.isEmpty_cons, if_neg (by simp)] at hl
    refine ⟨fun k => ?_, horder, ?_, hsize⟩
    · rw [hl, ht]
      exact h.set key (next :: bucket) k
    · rw [hseen, h.seen, hl, keys_set_of_some (h.bucket hg)]

theorem LaneAgrees.peek (h : LaneAgrees l t) (hrep : l.Rep) (hpos : l.size ≠ 0) :
    ∃ item l' t', l.peek = .ok (some item.stamped) ∧ l.pop = .ok (item.stamped, l') ∧ t.peek = .ok (some item) ∧
      t.pop = .ok (item, t') ∧ l'.Rep ∧ l.size = l'.size + 1 ∧ LaneAgrees l' t' := by
  obtain ⟨head, l', hpeek, hpop, hrep', -, hsize⟩ := hrep.pop hpos
  cases ho : l.order with
  | nil => simp [Queue.Lane.pop, ho] at hpop
  | cons key order =>
    obtain ⟨_, _, hgl⟩ := hrep.head ho
    have hgt := h.buckets key
    cases hb : t.byKey.get? key with
    | none => rw [hb, hgl] at hgt; cases hgt
    | some bucket =>
      cases bucket with
      | nil => rw [hb, hgl] at hgt; cases hgt
      | cons item bucket =>
        have hgl := h.bucket hb
        have hto : t.order = key :: order := h.order.trans ho
        simp only [stamp, List.map_cons] at hgl
        have hhead : head = item.stamped := by
          simp only [Queue.Lane.peek, ho, hgl] at hpeek
          cases hpeek
          rfl
        subst hhead
        have hparts : l'.byKey = (if (stamp bucket).isEmpty then l.byKey.erase key else l.byKey.set key (stamp bucket)) ∧
            l'.order = (if bucket.isEmpty then order else order ++ [key]) ∧ l'.size = l.size - 1 := by
          simp only [Queue.Lane.pop, ho, hgl] at hpop
          cases bucket with
          | nil => cases hpop; exact ⟨rfl, rfl, rfl⟩
          | cons next bucket => cases hpop; exact ⟨rfl, rfl, rfl⟩
        obtain ⟨hbyKey, horder', hsize'⟩ := hparts
        refine ⟨item, l', { byKey := if bucket.isEmpty then t.byKey.erase key else t.byKey.set key bucket
                            order := if bucket.isEmpty then order else order ++ [key]
                            seen := if bucket.isEmpty then t.seen.erase key else t.seen
                            size := t.size - 1 }, hpeek, hpop, ?_, ?_, hrep', hsize,
          h.take hb hbyKey rfl rfl horder'.symm (by rw [hsize', h.size])⟩
        · simp only [Lane.peek, hto, hb]
        · simp only [Lane.pop, hto, hb]
          cases bucket <;> rfl

/-! ## The victim -/

/-- The scan for the deepest key is `max` over the dictionary. -/
theorem worst_eq (h : LaneAgrees l t) : ∀ (entries : List (String × List WorkItem)) (best : String × List WorkItem),
    (∀ p ∈ entries, l.byKey.get? p.1 = some p.2) →
      ∃ p, entries.foldl (List.argAux fun b c => c.2.length < b.2.length) (some best) = some p ∧
        Lane.worst t.byKey (entries.map Prod.fst) (best.1, best.2.length) = .ok p.1
  | [], best, _ => ⟨best, rfl, rfl⟩
  | p :: entries, best, hall => by
    have hp := h.buckets p.1
    rw [hall p List.mem_cons_self] at hp
    cases hb : t.byKey.get? p.1 with
    | none => rw [hb] at hp; cases hp
    | some bucket =>
      rw [hb, Option.map_some, Option.some.injEq] at hp
      have hlen : p.2.length = bucket.length := by rw [hp, stamp, List.length_map]
      have hrest := fun best => worst_eq h entries best fun q hq => hall q (List.mem_cons_of_mem _ hq)
      rw [List.foldl_cons, List.map_cons]
      simp only [Lane.worst, hb, List.argAux]
      by_cases hdeep : best.2.length < p.2.length
      · rw [if_pos hdeep, ← hlen, if_pos hdeep]
        exact hrest p
      · rw [if_neg hdeep, ← hlen, if_neg hdeep]
        exact hrest best

/-- The key both planes evict from. -/
theorem LaneAgrees.deepest (h : LaneAgrees l t) (hrep : l.Rep) (hne : l.byKey.entries ≠ []) :
    ∃ key item bucket, (l.byKey.entries.argmax fun p => p.2.length) = some (key, item.stamped :: stamp bucket) ∧
      Lane.worst t.byKey t.seen ("", 0) = .ok key ∧ t.byKey.get? key = some (item :: bucket) ∧ key ∈ l.order := by
  have hget : ∀ p ∈ l.byKey.entries, l.byKey.get? p.1 = some p.2 := fun p hp => Dict.get?_eq_some_iff.mpr hp
  have hfound : ∃ q, (l.byKey.entries.argmax fun p => p.2.length) = some q ∧
      Lane.worst t.byKey t.seen ("", 0) = .ok q.1 := by
    rw [h.seen, Dict.keys]
    cases he : l.byKey.entries with
    | nil => exact absurd he hne
    | cons p entries =>
      rw [he] at hget
      obtain ⟨q, hq, hworst⟩ := worst_eq h entries p fun r hr => hget r (List.mem_cons_of_mem _ hr)
      refine ⟨q, hq, ?_⟩
      have hp := h.buckets p.1
      rw [hget p List.mem_cons_self] at hp
      cases hb : t.byKey.get? p.1 with
      | none => rw [hb] at hp; cases hp
      | some bucket =>
        rw [hb, Option.map_some, Option.some.injEq] at hp
        have hlen : p.2.length = bucket.length := by rw [hp, stamp, List.length_map]
        have hpos : 0 < bucket.length := by
          rw [← hlen]
          exact List.length_pos_iff.mpr (hrep.buckets p (by rw [he]; exact List.mem_cons_self))
        rw [List.map_cons, Lane.worst, hb]
        dsimp only
        rw [if_pos hpos, ← hlen]
        exact hworst
  obtain ⟨⟨key, bucket⟩, hmax, hworst⟩ := hfound
  have hmem : (key, bucket) ∈ l.byKey.entries := List.argmax_mem (Option.mem_def.mpr hmax)
  have hb := h.buckets key
  rw [hget _ hmem] at hb
  cases hg : t.byKey.get? key with
  | none => rw [hg] at hb; cases hb
  | some front =>
    rw [hg, Option.map_some, Option.some.injEq] at hb
    subst hb
    cases front with
    | nil => exact absurd rfl (hrep.buckets _ hmem)
    | cons item bucket =>
      exact ⟨key, item, bucket, hmax, hworst, hg, hrep.order.symm.subset (Dict.mem_keys_of_mem hmem)⟩

theorem LaneAgrees.isEmpty (h : LaneAgrees l t) : t.byKey.entries.isEmpty = l.byKey.entries.isEmpty := by
  rw [Bool.eq_iff_iff, List.isEmpty_iff, List.isEmpty_iff]
  constructor
  · intro ht
    apply List.eq_nil_iff_forall_not_mem.mpr
    intro p hp
    have hb := h.buckets p.1
    rw [Dict.get?_eq_some_iff.mpr hp, Dict.get?, ht] at hb
    cases hb
  · intro hl
    apply List.eq_nil_iff_forall_not_mem.mpr
    intro p hp
    have hb := h.bucket (Dict.get?_eq_some_iff.mpr hp)
    rw [Dict.get?, hl] at hb
    cases hb

theorem LaneAgrees.evictFromLongest (h : LaneAgrees l t) (hrep : l.Rep) :
    (l.evictFromLongest = .ok none ∧ t.evictFromLongest = .ok none) ∨
    ∃ item l' t', l.evictFromLongest = .ok (some (item.stamped, l')) ∧ t.evictFromLongest = .ok (some (item, t')) ∧
      LaneAgrees l' t' := by
  by_cases hne : l.byKey.entries = []
  · left
    constructor
    · simp [Queue.Lane.evictFromLongest, hne]
    · simp [Lane.evictFromLongest, h.isEmpty, hne]
  · right
    obtain ⟨key, item, bucket, hmax, hworst, hg, horder⟩ := h.deepest hrep hne
    have hempty : t.byKey.entries.isEmpty = false := by
      rw [h.isEmpty, List.isEmpty_eq_false_iff]
      exact hne
    refine ⟨item,
      { byKey := if (stamp bucket).isEmpty then l.byKey.erase key else l.byKey.set key (stamp bucket)
        order := if bucket.isEmpty then l.order.erase key else l.order
        size := l.size - 1 },
      { byKey := if bucket.isEmpty then t.byKey.erase key else t.byKey.set key bucket
        order := if bucket.isEmpty then t.order.erase key else t.order
        seen := if bucket.isEmpty then t.seen.erase key else t.seen
        size := t.size - 1 }, ?_, ?_, h.take hg rfl rfl rfl (by rw [h.order]) (by rw [h.size])⟩
    · unfold Queue.Lane.evictFromLongest
      rw [hmax]
      cases bucket with
      | nil => simp [stamp, horder]
      | cons next bucket => simp [stamp]
    · unfold Lane.evictFromLongest
      rw [hempty, hworst]
      simp only [hg]
      cases bucket <;> rfl

/-! ## Draining a lane for good -/

/-- What `close` takes from a lane: the buckets, by key as first seen, or by turn. -/
theorem LaneAgrees.drain (h : LaneAgrees l t) (hrep : l.Rep) :
    ∃ items, t.drain = .ok (items, {}) ∧ stamp items = l.order.flatMap l.bucket := by
  have hall : ∀ key ∈ t.order, ∃ bucket, t.byKey.get? key = some bucket ∧ stamp bucket = l.bucket key := by
    intro key hkey
    obtain ⟨bucket, hb⟩ := Dict.exists_of_mem_keys (hrep.order.subset (h.order ▸ hkey))
    have hg := h.buckets key
    rw [Dict.get?_eq_some_iff.mpr hb] at hg
    cases hgt : t.byKey.get? key with
    | none => rw [hgt] at hg; cases hg
    | some front =>
      rw [hgt, Option.map_some, Option.some.injEq] at hg
      exact ⟨front, rfl, by simp [Queue.Lane.bucket, Dict.get?_eq_some_iff.mpr hb, hg]⟩
  have hmap : ∀ keys : List String, (∀ key ∈ keys, key ∈ t.order) →
      ∃ buckets, (keys.mapM fun key => t.byKey.get? key) = some buckets ∧ stamp buckets.flatten = keys.flatMap l.bucket := by
    intro keys
    induction keys with
    | nil => intro _; exact ⟨[], rfl, rfl⟩
    | cons key keys ih =>
      intro hkeys
      obtain ⟨bucket, hb, hstamp⟩ := hall key (hkeys key List.mem_cons_self)
      obtain ⟨buckets, hbs, hstamps⟩ := ih fun k hk => hkeys k (List.mem_cons_of_mem _ hk)
      refine ⟨bucket :: buckets, ?_, ?_⟩
      · simp [List.mapM_cons, hb, hbs]
      · rw [List.flatten_cons, stamp, List.map_append, List.flatMap_cons, ← hstamp, ← hstamps]
        rfl
  obtain ⟨buckets, hbs, hstamps⟩ := hmap t.order fun _ hk => hk
  exact ⟨buckets.flatten, by simp only [Lane.drain, hbs], by rw [hstamps, h.order]⟩

theorem items_by_key (l : Queue.Lane) : l.items = l.byKey.keys.flatMap l.bucket := by
  unfold Queue.Lane.items Dict.values Dict.keys
  rw [List.flatMap_map, ← List.flatMap_def]
  apply List.flatMap_congr
  intro p hp
  simp [Queue.Lane.bucket, Dict.get?_eq_some_iff.mpr hp]

/-! ## Depths -/

/-- `counts[key] += n`, as a function of the key. -/
def bump (f : String → Option Nat) (p : String × Nat) (key : String) : Option Nat :=
  if key = p.1 then some ((f p.1).getD 0 + p.2) else f key

/-- Where no key comes twice, the order of the additions does not matter. -/
theorem foldl_bump : ∀ (entries : List (String × Nat)), (entries.map Prod.fst).Nodup → ∀ (f : String → Option Nat) (key : String),
    entries.foldl bump f key = ((entries.lookup key).map fun n => (f key).getD 0 + n).or (f key)
  | [], _, _, _ => rfl
  | p :: entries, hn, f, key => by
    obtain ⟨k, n⟩ := p
    rw [List.map_cons, List.nodup_cons] at hn
    rw [List.foldl_cons, foldl_bump entries hn.2, Dict.lookup_cons_ite]
    by_cases hk : key = k
    · subst hk
      have hnone : entries.lookup key = none := by
        cases hl : entries.lookup key with
        | none => rfl
        | some m => exact absurd (List.mem_map.mpr ⟨_, (Dict.lookup_eq_some_iff hn.2).mp hl, rfl⟩) hn.1
      simp [hnone, bump]
    · simp [bump, hk]

theorem get?_update (c : Counter String) : ∀ entries : List (String × Nat),
    (entries.foldl (fun c p => Counter.add c p.1 p.2) c).get? = entries.foldl bump c.get?
  | [] => rfl
  | p :: entries => by
    rw [List.foldl_cons, List.foldl_cons, get?_update _ entries]
    congr 1
    funext key
    rw [Counter.add, Dict.get?_set, bump]

theorem getElem?_addDepths (out : TreeMap String Nat) : ∀ entries : List (String × List WorkItem),
    (fun key => (entries.foldl (fun out p => Lane.addDepth out p.1 p.2.length) out)[key]?) =
      (entries.map fun p => (p.1, p.2.length)).foldl bump fun key => out[key]?
  | [] => rfl
  | p :: entries => by
    rw [List.foldl_cons, List.map_cons, List.foldl_cons, getElem?_addDepths _ entries]
    congr 1
    funext key
    rw [getElem?_addDepth, bump]

theorem lookup_depths (d : Dict String (List WorkItem)) (key : String) :
    (d.entries.map fun p => (p.1, p.2.length)).lookup key = (d.get? key).map List.length := by
  unfold Dict.get?
  induction d.entries with
  | nil => rfl
  | cons p entries ih =>
    rw [List.map_cons, Dict.lookup_cons_ite, ih, Dict.lookup_cons_ite]
    by_cases hk : key = p.1 <;> simp [hk]

theorem LaneAgrees.depths (h : LaneAgrees l t) {out : TreeMap String Nat} {c : Counter String} (hc : Counts out c) :
    Counts (t.addDepths out) (c.update l.depths) := by
  have hkeys : ∀ d : Dict String (List WorkItem), ((d.entries.map fun p => (p.1, p.2.length)).map Prod.fst).Nodup := by
    intro d
    rw [List.map_map]
    exact d.nodup
  intro key
  have ht := congrFun (getElem?_addDepths out t.byKey.entries) key
  have hl := congrFun (get?_update c l.depths.entries) key
  rw [foldl_bump _ (hkeys _), lookup_depths] at ht
  rw [foldl_bump _ l.depths.nodup, show l.depths.entries = l.byKey.entries.map fun p => (p.1, p.2.length) from rfl,
    lookup_depths, h.buckets] at hl
  rw [Lane.addDepths, Counter.update]
  refine ht.trans (.trans ?_ hl.symm)
  cases t.byKey.get? key with
  | none => simp [hc key]
  | some bucket => simp [hc key, stamp]

end

/-! ## The two queues -/

/-- The fields of the one are those of the other. -/
structure Agrees (s : Queue.FairPriorityQueue) (t : FairPriorityQueue WorkItem) : Prop where
  lanes : List.Forall₂ LaneAgrees s.lanes t.lanes
  size : t.size = s.size
  closed : t.closed = s.closed
  accepted : t.accepted = s.accepted
  rejected : t.rejected = s.rejected
  evicted : t.evicted = s.evicted
  expired : t.expired = s.expired
  rejectedByCamera : Counts t.rejectedByCamera s.rejectedByCamera
  evictedByCamera : Counts t.evictedByCamera s.evictedByCamera
  expiredByCamera : Counts t.expiredByCamera s.expiredByCamera
  producers : t.producers = s.producers
  consumers : t.consumers = s.consumers

/-- The reason the C++ queue gives for a failure of the Python queue. -/
def reason : QueueError → DropReason
  | .full _ _ _ => .evicted
  | .deadlinePassed => .expired
  | _ => .closed

/-- What is handed to the drop handler is what the Python queue fails. -/
def Drops (handler : Bool) (failed : List (WorkItem × QueueError)) (dropped : List (WorkItem × DropReason)) : Prop :=
  dropped.map (fun p => (p.1.stamped, p.2)) = if handler then failed.map fun p => (p.1, reason p.2) else []

/-- Items of lanes, those of a key together and in order; the keys in any order. -/
def SameByKey (items items' : List WorkItem) : Prop :=
  ∃ lanes : List (List (List WorkItem) × List (List WorkItem)), (∀ lane ∈ lanes, lane.1.Perm lane.2) ∧
    items = lanes.flatMap (fun lane => lane.1.flatten) ∧ items' = lanes.flatMap fun lane => lane.2.flatten

/-- What a call of the one answers beside that of the other. -/
inductive Answers (handler : Bool) : Queue.Output → Output WorkItem → Prop
  | accepted {item : WorkItem} {failed dropped} : Drops handler failed dropped →
      Answers handler ⟨.accepted item.stamped, failed⟩ ⟨.accepted item, dropped⟩
  | rejected {item : WorkItem} {queue depth capacity} :
      Answers handler ⟨.refused item (.full queue depth capacity), []⟩ ⟨.rejected item, []⟩
  | closed {item : WorkItem} {queue} : Answers handler ⟨.refused item (.closed queue), []⟩ ⟨.closed item, []⟩
  | batch {items : List WorkItem} {failed dropped} : Drops handler failed dropped →
      Answers handler ⟨.batch (stamp items), failed⟩ ⟨.batch items, dropped⟩
  | drained {items items' : List WorkItem} {error : QueueError} : SameByKey items (stamp items') →
      Answers handler ⟨.drained items, items.map fun item => (item, error)⟩
        ⟨.drained (if handler then [] else items'), if handler then items'.map fun item => (item, .closed) else []⟩
  | asleep : Answers handler ⟨.asleep, []⟩ ⟨.asleep, []⟩
  | idle : Answers handler ⟨.idle, []⟩ ⟨.idle, []⟩

/-- What a call leaves and answers on the two planes. -/
def Alike (handler : Bool) (a : Queue.Answer) (b : Answer WorkItem) : Prop := Agrees a.1 b.1 ∧ Answers handler a.2 b.2

namespace FairPriorityQueue

open Queue.FairPriorityQueue (Inv)

variable {cfg : Config} {handler : Bool} {s : Queue.FairPriorityQueue} {t : FairPriorityQueue WorkItem}

theorem drops_nil (handler : Bool) : Drops handler [] [] := by cases handler <;> rfl

theorem clampPriority_level (p : Priority) : clampPriority p.level = p.level := by cases p <;> rfl

theorem forall₂_modify_push {item : WorkItem} : ∀ {ls : List Queue.Lane} {ts : List (Lane WorkItem)} (i : Nat),
    List.Forall₂ LaneAgrees ls ts →
      List.Forall₂ LaneAgrees (ls.modify i (·.push item.stamped)) (ts.modify i (·.push item))
  | _, _, i, .nil => by simp
  | _, _, 0, .cons h hs => .cons (h.push item) hs
  | _, _, i + 1, .cons h hs => .cons h (forall₂_modify_push i hs)

theorem accept_alike (h : Agrees s t) (item : WorkItem) {failed : List (WorkItem × QueueError)}
    {dropped : List (WorkItem × DropReason)} (hd : Drops handler failed dropped) :
    Alike handler (s.accept item failed) (t.accept item dropped) := by
  refine ⟨{ h with lanes := ?_, size := ?_, accepted := ?_ }, .accepted hd⟩
  · have hlevel : clampPriority (QueueItem.priority item) = item.request.priority.level :=
      clampPriority_level item.request.priority
    simp only [accept, hlevel]
    exact forall₂_modify_push _ h.lanes
  · exact congrArg (· + 1) h.size
  · exact congrArg (· + 1) h.accepted

theorem reject_alike (h : Agrees s t) (hopen : s.closed = false) (item : WorkItem) :
    Alike handler (Queue.FairPriorityQueue.reject cfg s item) (reject t item) := by
  rw [reject, if_neg (by simp [h.closed, hopen])]
  refine ⟨{ h with rejected := ?_, rejectedByCamera := ?_ }, .rejected⟩
  · exact congrArg (· + 1) h.rejected
  · exact h.rejectedByCamera.add item.fairnessKey 1

theorem refuseClosed_alike (h : Agrees s t) (hclosed : s.closed = true) (item : WorkItem) :
    Alike handler (Queue.FairPriorityQueue.refuseClosed cfg s item) (reject t item) := by
  rw [reject, if_pos (by rw [h.closed, hclosed])]
  exact ⟨h, .closed⟩

theorem blockLocked_alike (h : Agrees s t) (item : WorkItem) (deadline : Int) (clock : Clock) :
    Alike handler (s.blockLocked cfg item deadline clock) (t.blockLocked cfg item deadline clock) := by
  unfold Queue.FairPriorityQueue.blockLocked blockLocked
  rw [h.size, h.closed]
  by_cases hfull : cfg.capacity ≤ s.size ∧ s.closed = false
  · rw [if_pos hfull, if_pos hfull]
    by_cases hlate : deadline ≤ clock.check
    · rw [if_pos (by omega), if_pos hlate]
      exact reject_alike h hfull.2 item
    · rw [if_neg (by omega), if_neg hlate]
      exact ⟨{ h with size := rfl, closed := rfl, producers := by rw [h.producers] }, .asleep⟩
  · rw [if_neg hfull, if_neg hfull]
    by_cases hclosed : s.closed = true
    · rw [if_pos hclosed, if_pos hclosed]
      exact refuseClosed_alike h hclosed item
    · rw [if_neg hclosed, if_neg hclosed]
      exact accept_alike h item (drops_nil handler)

theorem evictLowest_alike {ls : List Queue.Lane} {ts : List (Lane WorkItem)} (h : List.Forall₂ LaneAgrees ls ts)
    (hrep : ∀ l ∈ ls, l.Rep) :
    (Queue.FairPriorityQueue.evictLowest ls = .ok none ∧ evictLowest ts = .ok none) ∨
    ∃ victim ls' ts', Queue.FairPriorityQueue.evictLowest ls = .ok (some (victim.stamped, ls')) ∧
      evictLowest ts = .ok (some (victim, ts')) ∧ List.Forall₂ LaneAgrees ls' ts' := by
  induction h with
  | nil => exact .inl ⟨rfl, rfl⟩
  | @cons l t ls ts h hs ih =>
    rcases ih fun l hl => hrep l (List.mem_cons_of_mem _ hl) with
      ⟨hl, ht⟩ | ⟨victim, ls', ts', hl, ht, hrest⟩
    · rcases h.evictFromLongest (hrep l List.mem_cons_self) with ⟨hl', ht'⟩ | ⟨victim, l', t', hl', ht', hlane⟩
      · left
        constructor
        · simp only [Queue.FairPriorityQueue.evictLowest, hl, hl']
        · simp only [evictLowest, ht, ht']
      · right
        refine ⟨victim, l' :: ls, t' :: ts, ?_, ?_, .cons hlane hs⟩
        · simp only [Queue.FairPriorityQueue.evictLowest, hl, hl']
        · simp only [evictLowest, ht, ht']
    · right
      refine ⟨victim, l :: ls', t :: ts', ?_, ?_, .cons h hrest⟩
      · simp only [Queue.FairPriorityQueue.evictLowest, hl]
      · simp only [evictLowest, ht]

theorem dropOldest_alike (h : Agrees s t) (hi : s.Inv cfg) (hopen : s.closed = false) (item : WorkItem) :
    Alike handler (s.dropOldest cfg item) (t.dropOldest handler item) := by
  unfold Queue.FairPriorityQueue.dropOldest dropOldest
  rcases evictLowest_alike h.lanes hi.rep with ⟨hl, ht⟩ | ⟨victim, ls, ts, hl, ht, hlanes⟩
  · rw [hl, ht]
    exact reject_alike h hopen item
  · rw [hl, ht]
    dsimp only
    refine accept_alike ?_ item (by cases handler <;> rfl)
    exact ⟨hlanes, congrArg (· - 1) h.size, h.closed, h.accepted, h.rejected, congrArg (· + 1) h.evicted, h.expired,
      h.rejectedByCamera, h.evictedByCamera.add victim.fairnessKey 1, h.expiredByCamera, h.producers, h.consumers⟩

theorem put_alike (h : Agrees s t) (hi : s.Inv cfg) (item : WorkItem) (clock : Clock) :
    Alike handler (s.put cfg item clock) (t.put cfg handler item clock) := by
  unfold Queue.FairPriorityQueue.put put
  rw [h.closed, h.size]
  by_cases hclosed : s.closed = true
  · rw [if_pos hclosed, if_pos hclosed]
    exact ⟨h, .closed⟩
  rw [if_neg hclosed, if_neg hclosed]
  rw [Bool.not_eq_true] at hclosed
  by_cases hroom : s.size < cfg.capacity
  · rw [if_pos hroom, if_neg (by omega)]
    exact accept_alike h item (drops_nil handler)
  rw [if_neg hroom, if_pos (by omega)]
  cases cfg.overflow with
  | reject => exact reject_alike h hclosed item
  | block => exact blockLocked_alike h item _ clock
  | dropOldest => exact dropOldest_alike h hi hclosed item

theorem putWakes_alike (h : Agrees s t) (i : Nat) (clock : Clock) :
    Alike handler (s.putWakes cfg i clock) (t.putWakes cfg i clock) := by
  unfold Queue.FairPriorityQueue.putWakes putWakes
  rw [h.producers]
  cases hget : s.producers[i]? with
  | none => exact ⟨h, .idle⟩
  | some p =>
    obtain ⟨item, deadline⟩ := p
    dsimp only
    have hs : Agrees { s with producers := s.producers.eraseIdx i } { t with producers := s.producers.eraseIdx i } :=
      { h with producers := rfl }
    by_cases hlate : deadline ≤ clock.check ∧ cfg.capacity ≤ s.size
    · rw [if_pos (by rw [h.size]; exact hlate)]
      unfold Queue.FairPriorityQueue.blockLocked
      dsimp only
      by_cases hclosed : s.closed = true
      · rw [if_neg (by simp [hclosed]), if_pos hclosed]
        exact refuseClosed_alike hs hclosed item
      · rw [Bool.not_eq_true] at hclosed
        rw [if_pos ⟨hlate.2, hclosed⟩, if_pos (by omega)]
        exact reject_alike hs hclosed item
    · rw [if_neg (by rw [h.size]; exact hlate)]
      exact blockLocked_alike hs item deadline clock

/-! ## The consumer -/

/-- What the two drains have taken and charged. -/
structure DrainAgrees (handler : Bool) (d : Queue.FairPriorityQueue.Drain) (e : Drain WorkItem) : Prop where
  size : e.size = d.size
  expired : e.expired = d.expired
  expiredByCamera : Counts e.expiredByCamera d.expiredByCamera
  batch : d.batch = stamp e.batch
  rows : e.rows = d.rows
  dropped : Drops handler d.failed e.dropped

inductive SameExit : Queue.FairPriorityQueue.Exit → Exit → Prop
  | laneDone : SameExit .laneDone .laneDone
  | returned : SameExit .returned .budgetHit

variable {d : Queue.FairPriorityQueue.Drain} {e : Drain WorkItem} {now : Int} {maxRows : Nat}

theorem headRows_eq (item : WorkItem) : headRows item = item.stamped.rows := by
  have hpos := item.rows_pos
  have hrows : QueueItem.rows item = item.rows := rfl
  rw [headRows, hrows, if_neg (by omega)]
  rfl

theorem DrainAgrees.take (h : DrainAgrees handler d e) (item : WorkItem) :
    DrainAgrees handler (d.take item.stamped) (e.take item) := by
  refine { h with size := ?_, batch := ?_, rows := ?_ }
  · exact congrArg (· - 1) h.size
  · simp [Queue.FairPriorityQueue.Drain.take, Drain.take, h.batch, stamp]
  · simp [Queue.FairPriorityQueue.Drain.take, Drain.take, h.rows, headRows_eq]

theorem DrainAgrees.expire (h : DrainAgrees handler d e) (item : WorkItem) :
    DrainAgrees handler (d.expire item.stamped) (e.expire handler item) := by
  refine { h with size := ?_, expired := ?_, expiredByCamera := ?_, dropped := ?_ }
  · exact congrArg (· - 1) h.size
  · exact congrArg (· + 1) h.expired
  · exact h.expiredByCamera.add item.fairnessKey 1
  · have hd := h.dropped
    unfold Drops at hd ⊢
    simp only [Queue.FairPriorityQueue.Drain.expire, Drain.expire, List.map_append, hd]
    cases handler <;> simp [handed, reason]

theorem drainLane_alike : ∀ (n : Nat) {l : Queue.Lane} {t : Lane WorkItem} {d : Queue.FairPriorityQueue.Drain}
    {e : Drain WorkItem}, LaneAgrees l t → l.Rep → l.size = n → DrainAgrees handler d e →
      LaneAgrees (Queue.FairPriorityQueue.drainLane cfg now maxRows n l d).1 (drainLane cfg handler now maxRows n t e).1 ∧
        DrainAgrees handler (Queue.FairPriorityQueue.drainLane cfg now maxRows n l d).2.1
          (drainLane cfg handler now maxRows n t e).2.1 ∧
        SameExit (Queue.FairPriorityQueue.drainLane cfg now maxRows n l d).2.2
          (drainLane cfg handler now maxRows n t e).2.2
  | 0, _, _, _, _, h, _, _, hd => ⟨h, hd, .laneDone⟩
  | n + 1, l, t, d, e, h, hrep, hn, hd => by
    obtain ⟨item, l', t', hpeek, hpop, hpeek', hpop', hrep', hsize, hlane⟩ := h.peek hrep (by omega)
    simp only [Queue.FairPriorityQueue.drainLane, drainLane, hpeek, hpop, hpeek', hpop', headRows_eq, hd.rows]
    have hempty : e.batch.isEmpty = false ↔ d.batch ≠ [] := by
      rw [hd.batch, stamp, ne_eq, List.map_eq_nil_iff, List.isEmpty_eq_false_iff]
    by_cases hfull : d.batch ≠ [] ∧ maxRows < d.rows + item.stamped.rows
    · rw [if_pos hfull, if_pos ⟨hempty.mpr hfull.1, hfull.2⟩]
      exact ⟨h, hd, .returned⟩
    have hroom : ¬(e.batch.isEmpty = false ∧ maxRows < d.rows + item.stamped.rows) :=
      fun hc => hfull ⟨hempty.mp hc.1, hc.2⟩
    rw [if_neg hfull, if_neg hroom]
    have hlate : QueueItem.expired item now = item.stamped.request.isExpired now := rfl
    rw [hlate]
    by_cases hexpired : cfg.dropExpired = true ∧ item.stamped.request.isExpired now = true
    · rw [if_pos hexpired, if_pos hexpired]
      exact drainLane_alike n hlane hrep' (by omega) (hd.expire item)
    rw [if_neg hexpired, if_neg hexpired, (hd.take item).rows]
    by_cases hbudget : maxRows ≤ (d.take item.stamped).rows
    · rw [if_pos hbudget, if_pos hbudget]
      exact ⟨hlane, hd.take item, .returned⟩
    · rw [if_neg hbudget, if_neg hbudget]
      exact drainLane_alike n hlane hrep' (by omega) (hd.take item)

theorem drainLanes_alike {ls : List Queue.Lane} {ts : List (Lane WorkItem)} (h : List.Forall₂ LaneAgrees ls ts)
    (hrep : ∀ l ∈ ls, l.Rep) {d : Queue.FairPriorityQueue.Drain} {e : Drain WorkItem} (hd : DrainAgrees handler d e) :
    List.Forall₂ LaneAgrees (Queue.FairPriorityQueue.drainLanes cfg now maxRows ls d).1
      (drainLanes cfg handler now maxRows ts e).1 ∧
      DrainAgrees handler (Queue.FairPriorityQueue.drainLanes cfg now maxRows ls d).2.1
        (drainLanes cfg handler now maxRows ts e).2.1 ∧
      SameExit (Queue.FairPriorityQueue.drainLanes cfg now maxRows ls d).2.2
        (drainLanes cfg handler now maxRows ts e).2.2 := by
  induction h generalizing d e with
  | nil => exact ⟨.nil, hd, .laneDone⟩
  | @cons l t ls ts h hs ih =>
    have hone : LaneAgrees (Queue.FairPriorityQueue.drainLane cfg now maxRows l.size l d).1
        (drainLane cfg handler now maxRows l.size t e).1 ∧ _ :=
      drainLane_alike l.size h (hrep l List.mem_cons_self) rfl hd
    unfold Queue.FairPriorityQueue.drainLanes drainLanes
    rw [h.size]
    generalize Queue.FairPriorityQueue.drainLane cfg now maxRows l.size l d = r at hone
    generalize drainLane cfg handler now maxRows l.size t e = q at hone
    obtain ⟨l', d', exit⟩ := r
    obtain ⟨t', e', exit'⟩ := q
    obtain ⟨hlane, hdrain, hexit⟩ := hone
    dsimp only at hlane hdrain hexit
    cases hexit with
    | returned => exact ⟨.cons hlane hs, hdrain, .returned⟩
    | laneDone =>
      obtain ⟨hlanes, hdrains, hexits⟩ := ih (fun l hl => hrep l (List.mem_cons_of_mem _ hl)) hdrain
      exact ⟨.cons hlane hlanes, hdrains, hexits⟩

theorem drainLocked_alike (h : Agrees s t) (hi : s.Inv cfg) (maxRows : Nat) (now : Int) :
    Alike handler (s.drainLocked cfg maxRows now) (t.drainLocked cfg handler maxRows now) := by
  have hstart : DrainAgrees handler
      { size := s.size, expired := s.expired, expiredByCamera := s.expiredByCamera }
      { size := t.size, expired := t.expired, expiredByCamera := t.expiredByCamera } :=
    ⟨h.size, h.expired, h.expiredByCamera, rfl, rfl, drops_nil handler⟩
  obtain ⟨hlanes, hdrain, hexit⟩ : List.Forall₂ LaneAgrees (Queue.FairPriorityQueue.drainLanes cfg now maxRows s.lanes _).1
    (drainLanes cfg handler now maxRows t.lanes _).1 ∧ _ := drainLanes_alike h.lanes hi.rep hstart
  unfold Queue.FairPriorityQueue.drainLocked drainLocked
  dsimp only
  generalize Queue.FairPriorityQueue.drainLanes cfg now maxRows s.lanes _ = r at hlanes hdrain hexit ⊢
  generalize drainLanes cfg handler now maxRows t.lanes _ = q at hlanes hdrain hexit ⊢
  obtain ⟨ls, d, exit⟩ := r
  obtain ⟨ts, e, exit'⟩ := q
  dsimp only at hlanes hdrain hexit ⊢
  have hagrees : Agrees { s with lanes := ls, size := d.size, expired := d.expired, expiredByCamera := d.expiredByCamera }
      { t with lanes := ts, size := e.size, expired := e.expired, expiredByCamera := e.expiredByCamera } :=
    ⟨hlanes, hdrain.size, h.closed, h.accepted, h.rejected, h.evicted, hdrain.expired, h.rejectedByCamera,
      h.evictedByCamera, hdrain.expiredByCamera, h.producers, h.consumers⟩
  have hanswers : Answers handler ⟨.batch (stamp e.batch), d.failed⟩ ⟨.batch e.batch, e.dropped⟩ := .batch hdrain.dropped
  rw [← hdrain.batch] at hanswers
  cases hexit with
  | laneDone => exact ⟨hagrees, hanswers⟩
  | returned => exact ⟨hagrees, hanswers⟩

theorem fillLocked_alike (h : Agrees s t) (hi : s.Inv cfg) (window : BatchWindow) (deadline : Int) (clock : Clock) :
    Alike handler (s.fillLocked cfg window deadline clock) (t.fillLocked cfg handler window deadline clock) := by
  unfold Queue.FairPriorityQueue.fillLocked fillLocked
  rw [h.size, h.closed]
  by_cases hwait : s.size < window.maxBatchSize ∧ s.closed = false ∧ s.size ∉ window.preferredSizes ∧
      0 < deadline - clock.check
  · obtain ⟨hmore, hopen, hpreferred, htime⟩ := hwait
    rw [if_pos ⟨hmore, hopen, hpreferred, htime⟩, if_pos ⟨hmore, hopen, hpreferred, by omega⟩]
    exact ⟨{ h with size := rfl, closed := rfl, consumers := by rw [h.consumers] }, .asleep⟩
  · rw [if_neg hwait, if_neg fun hc => hwait ⟨hc.1, hc.2.1, hc.2.2.1, by have := hc.2.2.2; omega⟩]
    exact drainLocked_alike h hi _ _

theorem getBatch_alike (h : Agrees s t) (hi : s.Inv cfg) (window : BatchWindow) (clock : Clock) :
    Alike handler (s.getBatch cfg window clock) (t.getBatch cfg handler window clock) := by
  unfold Queue.FairPriorityQueue.getBatch getBatch
  rw [h.size, h.closed]
  by_cases hnone : s.size = 0
  · rw [if_pos hnone, if_pos hnone]
    by_cases hclosed : s.closed = true
    · rw [if_pos hclosed, if_pos hclosed]
      exact ⟨h, @Answers.batch handler [] [] [] (drops_nil handler)⟩
    · rw [if_neg hclosed, if_neg hclosed]
      exact ⟨{ h with size := rfl, closed := rfl, consumers := by rw [h.consumers] }, .asleep⟩
  rw [if_neg hnone, if_neg hnone]
  by_cases hwait : 0 < window.maxDelayUs ∧ s.size < window.maxBatchSize
  · rw [if_pos hwait, if_pos hwait]
    exact fillLocked_alike h hi window _ clock
  · rw [if_neg hwait, if_neg hwait]
    exact drainLocked_alike h hi _ _

theorem getBatchWakes_alike (h : Agrees s t) (hi : s.Inv cfg) (i : Nat) (clock : Clock) :
    Alike handler (s.getBatchWakes cfg i clock) (t.getBatchWakes cfg handler i clock) := by
  unfold Queue.FairPriorityQueue.getBatchWakes getBatchWakes
  rw [h.consumers]
  have hs : Agrees { s with consumers := s.consumers.eraseIdx i } { t with consumers := s.consumers.eraseIdx i } :=
    { h with consumers := rfl }
  cases hget : s.consumers[i]? with
  | none => exact ⟨h, .idle⟩
  | some waiting =>
    cases waiting with
    | first window => exact getBatch_alike hs (hi.sleepers _ _) window clock
    | fill window deadline => exact fillLocked_alike hs (hi.sleepers _ _) window deadline clock

/-! ## Closing -/

/-- Lane by lane: what the C++ lanes let go, in the order of their turns. -/
theorem drains_alike : ∀ {ls : List Queue.Lane} {ts : List (Lane WorkItem)}, List.Forall₂ LaneAgrees ls ts →
    (∀ l ∈ ls, l.Rep) → ∃ drains, ts.mapM Lane.drain = .ok drains ∧
      stamp (drains.flatMap Prod.fst) = ls.flatMap (fun l => l.order.flatMap l.bucket) ∧
      List.Forall₂ LaneAgrees (ls.map fun l => l.drain.2) (drains.map Prod.snd)
  | _, _, .nil, _ => ⟨[], rfl, rfl, .nil⟩
  | l :: ls, t :: ts, .cons h hs, hrep => by
    obtain ⟨items, hdrain, hitems⟩ := h.drain (hrep l List.mem_cons_self)
    obtain ⟨drains, hdrains, hall, hlanes⟩ := drains_alike hs fun l hl => hrep l (List.mem_cons_of_mem _ hl)
    refine ⟨(items, {}) :: drains, ?_, ?_, .cons laneAgrees_empty hlanes⟩
    · rw [List.mapM_cons, hdrain, hdrains]
      rfl
    · rw [List.flatMap_cons, stamp, List.map_append, List.flatMap_cons]
      exact congrArg₂ (· ++ ·) hitems hall

theorem sameByKey {ls : List Queue.Lane} (hrep : ∀ l ∈ ls, l.Rep) :
    SameByKey (ls.flatMap Queue.Lane.items) (ls.flatMap fun l => l.order.flatMap l.bucket) := by
  refine ⟨ls.map fun l => (l.byKey.keys.map l.bucket, l.order.map l.bucket), ?_, ?_, ?_⟩
  · intro lane hlane
    obtain ⟨l, hl, rfl⟩ := List.mem_map.mp hlane
    exact ((hrep l hl).order.map _).symm
  · rw [List.flatMap_map]
    apply List.flatMap_congr
    intro l _
    rw [items_by_key, List.flatMap_def]
  · rw [List.flatMap_map]
    apply List.flatMap_congr
    intro l _
    rw [List.flatMap_def]

theorem close_alike (h : Agrees s t) (hi : s.Inv cfg) (error : Option String) :
    Alike handler (s.close cfg error) (t.close handler) := by
  obtain ⟨drains, hdrains, hitems, hlanes⟩ := drains_alike h.lanes hi.rep
  unfold Queue.FairPriorityQueue.close close
  rw [hdrains]
  dsimp only
  refine ⟨{ h with lanes := hlanes, size := rfl, closed := rfl }, .drained ?_⟩
  rw [hitems]
  exact sameByKey hi.rep

/-! ## Whole traces -/

theorem step_alike (h : Agrees s t) (hi : s.Inv cfg) (e : Event) :
    Alike handler (s.step cfg e) (t.step cfg handler e) := by
  cases e with
  | put item clock => exact put_alike h hi item clock
  | putWakes i clock => exact putWakes_alike h i clock
  | getBatch window clock => exact getBatch_alike h hi window clock
  | getBatchWakes i clock => exact getBatchWakes_alike h hi i clock
  | close error => exact close_alike h hi error

theorem agrees_empty : Agrees {} {} where
  lanes := List.forall₂_iff_get.mpr ⟨rfl, fun i hi hi' => by
    simp only [List.get_eq_getElem, List.getElem_replicate]
    exact laneAgrees_empty⟩
  size := rfl
  closed := rfl
  accepted := rfl
  rejected := rfl
  evicted := rfl
  expired := rfl
  rejectedByCamera := counts_empty
  evictedByCamera := counts_empty
  expiredByCamera := counts_empty
  producers := rfl
  consumers := rfl

/-- The same numbers; the C++ queue also knows its peak. -/
structure SameStats (a : Queue.QueueStats) (b : QueueStats) : Prop where
  depth : b.depth = a.depth
  capacity : b.capacity = a.capacity
  accepted : b.accepted = a.accepted
  rejected : b.rejected = a.rejected
  evicted : b.evicted = a.evicted
  expired : b.expired = a.expired
  depthByCamera : Counts b.depthByCamera a.depthByCamera
  rejectedByCamera : Counts b.rejectedByCamera a.rejectedByCamera
  evictedByCamera : Counts b.evictedByCamera a.evictedByCamera
  expiredByCamera : Counts b.expiredByCamera a.expiredByCamera

theorem depths_alike : ∀ {ls : List Queue.Lane} {ts : List (Lane WorkItem)} {out : TreeMap String Nat} {c : Counter String},
    List.Forall₂ LaneAgrees ls ts → Counts out c →
      Counts (ts.foldl (fun out lane => lane.addDepths out) out) (ls.foldl (fun c lane => c.update lane.depths) c)
  | _, _, _, _, .nil, hc => hc
  | l :: ls, t :: ts, _, _, .cons h hs, hc => by
    rw [List.foldl_cons, List.foldl_cons]
    exact depths_alike hs (h.depths hc)

theorem stats_alike (h : Agrees s t) : SameStats (s.stats cfg) (t.stats cfg) :=
  ⟨h.size, rfl, h.accepted, h.rejected, h.evicted, h.expired, depths_alike h.lanes counts_empty, h.rejectedByCamera,
    h.evictedByCamera, h.expiredByCamera⟩

theorem agrees_run (cfg : Config) (handler : Bool) (events : List Event) :
    (Agrees (Queue.run cfg {} events).1 (run cfg handler {} events).1 ∧ (Queue.run cfg {} events).1.Inv cfg) ∧
      List.Forall₂ (Answers handler) (Queue.run cfg {} events).2 (run cfg handler {} events).2 := by
  refine Machine.exec_related (R := fun (s : Queue.FairPriorityQueue) t => Agrees s t ∧ s.Inv cfg) ?_ events {} {}
    ⟨agrees_empty, Queue.FairPriorityQueue.inv_empty cfg⟩
  intro s t e h
  obtain ⟨hagrees, hanswers⟩ : Alike handler (s.step cfg e) (t.step cfg handler e) := step_alike h.1 h.2 e
  exact ⟨⟨hagrees, (h.2.step e).inv⟩, hanswers⟩

end FairPriorityQueue

end Twin

end ShipInfer.Queue
