import ShipInfer.Queue.Agreement
import ShipInfer.Queue.Fifo

/-!
# An empty batch

A worker takes an empty batch for a closed queue. A consumer that has waited for its batch
to fill drains what it finds, and that can be nothing: all of it expired, or another
consumer was there before it.
-/

namespace ShipInfer.Queue

/-- The drain fails the item instead of serving it. -/
def Late (cfg : Config) (now : Int) (item : WorkItem) : Prop :=
  cfg.dropExpired = true ∧ item.request.isExpired now = true

/-- What a consumer can see of a queue, of whichever kind. -/
structure Front where
  depth : Nat
  closed : Bool
  consumers : List Waiting
  items : List WorkItem

namespace Front

/-- The wait for a batch to fill goes on. -/
def Fills (q : Front) (window : BatchWindow) (deadline : Int) (clock : Clock) : Prop :=
  q.depth < window.maxBatchSize ∧ q.closed = false ∧ q.depth ∉ window.preferredSizes ∧ clock.check < deadline

instance (q : Front) (window : BatchWindow) (deadline : Int) (clock : Clock) :
    Decidable (q.Fills window deadline clock) := inferInstanceAs (Decidable (_ ∧ _))

/-- The time that the items are held against, if `get_batch` comes to its drain. -/
def filled (q : Front) (window : BatchWindow) (deadline : Int) (clock : Clock) : Option Int :=
  if q.Fills window deadline clock then none else some clock.drain

def called (q : Front) (window : BatchWindow) (clock : Clock) : Option Int :=
  if q.depth = 0 then none
  else if 0 < window.maxDelayUs ∧ q.depth < window.maxBatchSize then
    q.filled window (clock.start + window.maxDelayNs) clock
  else some clock.drain

def woken (q : Front) (waiting : Waiting) (clock : Clock) : Option Int :=
  match waiting with
  | .first window => q.called window clock
  | .fill window deadline => q.filled window deadline clock

def drainsAt (q : Front) : Event → Option Int
  | .getBatch window clock => q.called window clock
  | .getBatchWakes i clock => q.consumers[i]?.bind fun waiting => q.woken waiting clock
  | _ => none

/-- Of what is queued when `get_batch` comes to its drain, something can be served, or the
queue is closed. -/
def FreshAt (cfg : Config) (q : Front) (time : Option Int) : Prop :=
  ∀ now, time = some now → q.closed = true ∨ ∃ item ∈ q.items, ¬ Late cfg now item

def Fresh (cfg : Config) (q : Front) (e : Event) : Prop := q.FreshAt cfg (q.drainsAt e)

/-- An empty batch is that of a closed queue. -/
def Honest (q : Front) (batch : Option (List WorkItem)) : Prop := batch = some [] → q.closed = true

section
variable {cfg : Config} {q : Front} {batch : Option (List WorkItem)}

theorem freshAt_none : q.FreshAt cfg none := fun _ h => by cases h

theorem honest_of_closed (h : q.closed = true) : q.Honest batch := fun _ => h

theorem honest_none : q.Honest none := fun h => by cases h

/-- The one way to an empty batch in an open queue is a drain of late items only. -/
theorem honest_iff_freshAt {now : Int} (h : batch = some [] ↔ ∀ item ∈ q.items, Late cfg now item) :
    q.Honest batch ↔ q.FreshAt cfg (some now) := by
  constructor
  · intro hhonest t ht
    cases ht
    by_cases hlate : ∀ item ∈ q.items, Late cfg now item
    · exact .inl (hhonest (h.mpr hlate))
    · simpa using Or.inr hlate
  · intro hfresh hempty
    rcases hfresh now rfl with hclosed | ⟨item, hmem, hlive⟩
    · exact hclosed
    · exact absurd (h.mp hempty item hmem) hlive

end

end Front

def Output.batch? (o : Output) : Option (List WorkItem) :=
  match o.reply with
  | .batch items => some items
  | _ => none

def Twin.Output.batch? (o : Twin.Output WorkItem) : Option (List WorkItem) :=
  match o.reply with
  | .batch items => some items
  | _ => none

/-! ## The fair queue -/

namespace FairPriorityQueue

def front (s : FairPriorityQueue) : Front := ⟨s.size, s.closed, s.consumers, s.items⟩

variable {cfg : Config} {now : Int} {maxRows : Nat} {s : FairPriorityQueue}

theorem drainLane_grows (n : Nat) (lane : Lane) (d : Drain) :
    d.batch <+: (drainLane cfg now maxRows n lane d).2.1.batch := by
  induction n generalizing lane d with
  | zero => exact List.prefix_refl _
  | succ n ih =>
    simp only [drainLane]
    split
    · exact List.prefix_refl _
    · exact List.prefix_refl _
    split
    · exact List.prefix_refl _
    split
    · exact List.prefix_refl _
    split
    · rename_i item lane' _ _
      exact ih lane' (d.expire item)
    have htake : ∀ item, d.batch <+: (d.take item).batch := fun item => List.prefix_append _ _
    split
    · exact htake _
    · exact (htake _).trans (ih _ _)

theorem drainLanes_grows (lanes : List Lane) (d : Drain) :
    d.batch <+: (drainLanes cfg now maxRows lanes d).2.1.batch := by
  induction lanes generalizing d with
  | nil => exact List.prefix_refl _
  | cons lane lanes ih =>
    have hone : d.batch <+: (drainLane cfg now maxRows lane.size lane d).2.1.batch := drainLane_grows lane.size lane d
    simp only [drainLanes]
    split
    · rename_i heq
      rw [heq] at hone
      exact hone.trans (ih _)
    · rename_i heq
      rw [heq] at hone
      exact hone

/-- A drain gives nothing just when all that it goes over is late, and then it goes over all. -/
def Barren (cfg : Config) (now : Int) (items : List WorkItem) (d : Drain) (exit : Exit) : Prop :=
  (d.batch = [] ↔ ∀ item ∈ items, Late cfg now item) ∧ (d.batch = [] → exit = .laneDone)

theorem drainLane_barren : ∀ (n : Nat) {lane : Lane} {d : Drain}, lane.Rep → lane.size = n → d.batch = [] →
    Barren cfg now lane.items (drainLane cfg now maxRows n lane d).2.1 (drainLane cfg now maxRows n lane d).2.2
  | 0, lane, d, hrep, hn, hd => by
    have hnone : lane.items = [] := List.eq_nil_of_length_eq_zero (hrep.size_eq.symm.trans hn)
    simp [Barren, drainLane, hd, hnone]
  | n + 1, lane, d, hrep, hn, hd => by
    obtain ⟨item, lane', hpeek, hpop, hrep', hperm, hsize⟩ := hrep.pop (by omega)
    have hitems : (∀ other ∈ lane.items, Late cfg now other) ↔
        Late cfg now item ∧ ∀ other ∈ lane'.items, Late cfg now other := by
      simp [hperm.mem_iff]
    unfold Barren
    rw [hitems]
    simp only [drainLane, hpeek, hpop]
    rw [if_neg (by simp [hd])]
    by_cases hlate : cfg.dropExpired = true ∧ item.request.isExpired now = true
    · rw [if_pos hlate]
      obtain ⟨hiff, hexit⟩ := drainLane_barren n hrep' (by omega) (show (d.expire item).batch = [] from hd)
      exact ⟨hiff.trans (and_iff_right hlate).symm, hexit⟩
    · rw [if_neg hlate]
      have htake : (d.take item).batch = [item] := by simp [Drain.take, hd]
      have hne : ∀ batch : List WorkItem, (d.take item).batch <+: batch → batch ≠ [] := by
        intro batch hb he
        rw [htake, he] at hb
        simp at hb
      split
      · have hfull := hne _ (List.prefix_refl _)
        exact ⟨iff_of_false hfull fun h => hlate h.1, fun h => absurd h hfull⟩
      · have hmore : (drainLane cfg now maxRows n lane' (d.take item)).2.1.batch ≠ [] :=
          hne _ (drainLane_grows n lane' (d.take item))
        exact ⟨iff_of_false hmore fun h => hlate h.1, fun h => absurd h hmore⟩

theorem drainLanes_barren : ∀ (lanes : List Lane) {d : Drain}, (∀ lane ∈ lanes, lane.Rep) → d.batch = [] →
    Barren cfg now (lanes.flatMap Lane.items) (drainLanes cfg now maxRows lanes d).2.1
      (drainLanes cfg now maxRows lanes d).2.2
  | [], d, _, hd => by simp [Barren, drainLanes, hd]
  | lane :: lanes, d, hrep, hd => by
    have hone : Barren cfg now lane.items (drainLane cfg now maxRows lane.size lane d).2.1
        (drainLane cfg now maxRows lane.size lane d).2.2 := drainLane_barren lane.size (hrep lane List.mem_cons_self) rfl hd
    have hitems : (∀ item ∈ (lane :: lanes).flatMap Lane.items, Late cfg now item) ↔
        (∀ item ∈ lane.items, Late cfg now item) ∧ ∀ item ∈ lanes.flatMap Lane.items, Late cfg now item := by
      rw [List.flatMap_cons, List.forall_mem_append]
    unfold Barren
    rw [hitems]
    simp only [drainLanes]
    generalize drainLane cfg now maxRows lane.size lane d = r at hone
    obtain ⟨lane', d', exit⟩ := r
    obtain ⟨hiff, hexit⟩ := hone
    dsimp only at hiff hexit
    by_cases hd' : d'.batch = []
    · have hrest : Barren cfg now (lanes.flatMap Lane.items) (drainLanes cfg now maxRows lanes d').2.1
          (drainLanes cfg now maxRows lanes d').2.2 :=
        drainLanes_barren lanes (fun l hl => hrep l (List.mem_cons_of_mem lane hl)) hd'
      rw [hexit hd']
      exact ⟨hrest.1.trans (and_iff_right (hiff.mp hd')).symm, hrest.2⟩
    · have hmore : (drainLanes cfg now maxRows lanes d').2.1.batch ≠ [] := by
        intro he
        have hgrows : d'.batch <+: (drainLanes cfg now maxRows lanes d').2.1.batch := drainLanes_grows lanes d'
        rw [he] at hgrows
        exact hd' (List.prefix_nil.mp hgrows)
      have hnot : ¬((∀ item ∈ lane.items, Late cfg now item) ∧ ∀ item ∈ lanes.flatMap Lane.items, Late cfg now item) :=
        fun h => hd' (hiff.mpr h.1)
      cases exit with
      | laneDone => exact ⟨iff_of_false hmore hnot, fun h => absurd h hmore⟩
      | returned => exact ⟨iff_of_false hd' hnot, fun h => absurd h hd'⟩
      | raised e => exact ⟨iff_of_false hd' hnot, fun h => absurd h hd'⟩

theorem drainLocked_honest (h : s.Inv cfg) (maxRows : Nat) (now : Int) :
    s.front.Honest (s.drainLocked cfg maxRows now).2.batch? ↔ s.front.FreshAt cfg (some now) := by
  apply Front.honest_iff_freshAt
  obtain ⟨hiff, hexit⟩ : Barren cfg now (s.lanes.flatMap Lane.items)
    (drainLanes cfg now maxRows s.lanes
      { size := s.size, expired := s.expired, expiredByCamera := s.expiredByCamera }).2.1
    (drainLanes cfg now maxRows s.lanes
      { size := s.size, expired := s.expired, expiredByCamera := s.expiredByCamera }).2.2 :=
    drainLanes_barren s.lanes h.rep rfl
  have hitems : s.front.items = s.lanes.flatMap Lane.items := rfl
  rw [hitems, ← hiff]
  unfold FairPriorityQueue.drainLocked
  dsimp only
  generalize drainLanes cfg now maxRows s.lanes _ = r at hexit ⊢
  obtain ⟨lanes, d, exit⟩ := r
  cases exit with
  | laneDone => simp [Output.batch?]
  | returned => simp [Output.batch?]
  | raised e =>
    simp only [Output.batch?, reduceCtorEq, false_iff]
    intro he
    cases hexit he

theorem fillLocked_honest (h : s.Inv cfg) (window : BatchWindow) (deadline : Int) (clock : Clock) :
    s.front.Honest (s.fillLocked cfg window deadline clock).2.batch? ↔
      s.front.FreshAt cfg (s.front.filled window deadline clock) := by
  unfold FairPriorityQueue.fillLocked Front.filled
  by_cases hfills : s.front.Fills window deadline clock
  · obtain ⟨hmore, hopen, hsize, htime⟩ := id hfills
    rw [if_pos hfills, if_pos ⟨hmore, hopen, hsize, by omega⟩]
    exact iff_of_true Front.honest_none Front.freshAt_none
  · rw [if_neg hfills, if_neg fun hc => hfills ⟨hc.1, hc.2.1, hc.2.2.1, by have := hc.2.2.2; omega⟩]
    exact drainLocked_honest h _ _

theorem getBatch_honest (h : s.Inv cfg) (window : BatchWindow) (clock : Clock) :
    s.front.Honest (s.getBatch cfg window clock).2.batch? ↔ s.front.FreshAt cfg (s.front.called window clock) := by
  have hdepth : s.front.depth = s.size := rfl
  unfold FairPriorityQueue.getBatch Front.called
  rw [hdepth]
  split
  · split
    · rename_i hclosed
      exact iff_of_true (Front.honest_of_closed hclosed) Front.freshAt_none
    · exact iff_of_true Front.honest_none Front.freshAt_none
  split
  · exact fillLocked_honest h window _ clock
  · exact drainLocked_honest h _ _

theorem batch?_of_producer {o : Output} (h : ToProducer o.reply) : o.batch? = none := by
  obtain ⟨reply, failed⟩ := o
  cases reply with
  | batch items => exact h.elim
  | _ => rfl

theorem step_honest (h : s.Inv cfg) (e : Event) :
    s.front.Honest (s.step cfg e).2.batch? ↔ s.front.Fresh cfg e := by
  cases e with
  | put item clock =>
    have hb : (s.put cfg item clock).2.batch? = none := batch?_of_producer (toProducer_put s item clock)
    simp only [FairPriorityQueue.step, hb]
    exact iff_of_true Front.honest_none Front.freshAt_none
  | putWakes i clock =>
    have hb : (s.putWakes cfg i clock).2.batch? = none := batch?_of_producer (toProducer_putWakes s i clock)
    simp only [FairPriorityQueue.step, hb]
    exact iff_of_true Front.honest_none Front.freshAt_none
  | close error => exact iff_of_true Front.honest_none Front.freshAt_none
  | getBatch window clock => exact getBatch_honest h window clock
  | getBatchWakes i clock =>
    have hconsumers : s.front.consumers = s.consumers := rfl
    simp only [FairPriorityQueue.step, getBatchWakes, Front.Fresh, Front.drainsAt, hconsumers]
    have hi := h.sleepers s.producers (s.consumers.eraseIdx i)
    cases hget : s.consumers[i]? with
    | none => exact iff_of_true Front.honest_none Front.freshAt_none
    | some waiting =>
      cases waiting with
      | first window => exact getBatch_honest hi window clock
      | fill window deadline => exact fillLocked_honest hi window deadline clock

end FairPriorityQueue

/-! ## The first-in first-out queue -/

namespace FifoQueue

def front (s : FifoQueue) : Front := ⟨s.items.length, s.closed, s.consumers, s.items⟩

variable {cfg : Config}

theorem drain_grows {now : Int} {maxRows : Nat} (items : List WorkItem) (d : Drain) :
    d.batch <+: (drain cfg now maxRows items d).2.batch := by
  induction items generalizing d with
  | nil => exact List.prefix_refl _
  | cons item items ih =>
    have htake : d.batch <+: (d.take item).batch := List.prefix_append _ _
    simp only [drain]
    split
    · exact List.prefix_refl _
    split
    · exact ih (d.expire item)
    split
    · exact htake
    · exact htake.trans (ih _)

theorem drain_barren {now : Int} {maxRows : Nat} : ∀ (items : List WorkItem) {d : Drain}, d.batch = [] →
    ((drain cfg now maxRows items d).2.batch = [] ↔ ∀ item ∈ items, Late cfg now item)
  | [], d, hd => by simp [drain, hd]
  | item :: items, d, hd => by
    simp only [drain]
    rw [if_neg (by simp [hd]), List.forall_mem_cons]
    by_cases hlate : cfg.dropExpired = true ∧ item.request.isExpired now = true
    · rw [if_pos hlate]
      have hrest : (drain cfg now maxRows items (d.expire item)).2.batch = [] ↔ ∀ item ∈ items, Late cfg now item :=
        drain_barren items hd
      exact hrest.trans (and_iff_right hlate).symm
    · rw [if_neg hlate]
      have htake : (d.take item).batch = [item] := by simp [Drain.take, hd]
      have hne : ∀ batch : List WorkItem, (d.take item).batch <+: batch → batch ≠ [] := by
        intro batch hb he
        rw [htake, he] at hb
        simp at hb
      split
      · exact iff_of_false (hne _ (List.prefix_refl _)) fun h => hlate h.1
      · exact iff_of_false (hne _ (drain_grows items _)) fun h => hlate h.1

theorem drainLocked_honest (s : FifoQueue) (maxRows : Nat) (now : Int) :
    s.front.Honest (s.drainLocked cfg maxRows now).2.batch? ↔ s.front.FreshAt cfg (some now) := by
  apply Front.honest_iff_freshAt
  have hitems : s.front.items = s.items := rfl
  rw [hitems, Output.batch?, drainLocked]
  simpa using drain_barren s.items rfl

theorem fillLocked_honest (s : FifoQueue) (window : BatchWindow) (deadline : Int) (clock : Clock) :
    s.front.Honest (s.fillLocked cfg window deadline clock).2.batch? ↔
      s.front.FreshAt cfg (s.front.filled window deadline clock) := by
  unfold fillLocked Front.filled
  by_cases hfills : s.front.Fills window deadline clock
  · obtain ⟨hmore, hopen, hsize, htime⟩ := id hfills
    rw [if_pos hfills, if_pos ⟨hmore, hopen, hsize, by omega⟩]
    exact iff_of_true Front.honest_none Front.freshAt_none
  · rw [if_neg hfills, if_neg fun hc => hfills ⟨hc.1, hc.2.1, hc.2.2.1, by have := hc.2.2.2; omega⟩]
    exact drainLocked_honest s _ _

theorem getBatch_honest (s : FifoQueue) (window : BatchWindow) (clock : Clock) :
    s.front.Honest (s.getBatch cfg window clock).2.batch? ↔ s.front.FreshAt cfg (s.front.called window clock) := by
  have hdepth : s.front.depth = s.items.length := rfl
  unfold getBatch Front.called
  rw [hdepth]
  simp only [List.isEmpty_iff, List.length_eq_zero_iff]
  split
  · split
    · rename_i hclosed
      exact iff_of_true (Front.honest_of_closed hclosed) Front.freshAt_none
    · exact iff_of_true Front.honest_none Front.freshAt_none
  split
  · exact fillLocked_honest s window _ clock
  · exact drainLocked_honest s _ _

theorem batch?_refuse (s : FifoQueue) (item : WorkItem) : (refuse cfg s item).2.batch? = none := by
  unfold refuse
  split <;> rfl

theorem batch?_blockLocked (s : FifoQueue) (item : WorkItem) (deadline : Int) (clock : Clock) :
    (blockLocked cfg s item deadline clock).2.batch? = none := by
  unfold blockLocked
  split
  · split
    · exact batch?_refuse s item
    · rfl
  split
  · exact batch?_refuse s item
  · rfl

theorem batch?_put (s : FifoQueue) (item : WorkItem) (clock : Clock) : (s.put cfg item clock).2.batch? = none := by
  unfold put
  split
  · exact batch?_refuse s item
  split
  · cases cfg.overflow with
    | reject => exact batch?_refuse s item
    | block => exact batch?_blockLocked s item _ clock
    | dropOldest =>
      simp only [dropOldest]
      split <;> rfl
  · rfl

theorem batch?_putWakes (s : FifoQueue) (i : Nat) (clock : Clock) : (s.putWakes cfg i clock).2.batch? = none := by
  unfold putWakes
  split
  · rfl
  · exact batch?_blockLocked _ _ _ clock

theorem step_honest (s : FifoQueue) (e : Event) :
    s.front.Honest (s.step cfg e).2.batch? ↔ s.front.Fresh cfg e := by
  cases e with
  | put item clock =>
    simp only [step, batch?_put]
    exact iff_of_true Front.honest_none Front.freshAt_none
  | putWakes i clock =>
    simp only [step, batch?_putWakes]
    exact iff_of_true Front.honest_none Front.freshAt_none
  | close error => exact iff_of_true Front.honest_none Front.freshAt_none
  | getBatch window clock => exact getBatch_honest s window clock
  | getBatchWakes i clock =>
    have hconsumers : s.front.consumers = s.consumers := rfl
    simp only [step, getBatchWakes, Front.Fresh, Front.drainsAt, hconsumers]
    cases hget : s.consumers[i]? with
    | none => exact iff_of_true Front.honest_none Front.freshAt_none
    | some waiting =>
      cases waiting with
      | first window => exact getBatch_honest { s with consumers := s.consumers.eraseIdx i } window clock
      | fill window deadline => exact fillLocked_honest { s with consumers := s.consumers.eraseIdx i } window deadline clock

end FifoQueue

/-! ## The fair queue of the C++ plane -/

namespace Twin

namespace FairPriorityQueue

def items (s : FairPriorityQueue WorkItem) : List WorkItem := s.lanes.flatMap fun lane => lane.byKey.values.flatten

def front (s : FairPriorityQueue WorkItem) : Front := ⟨s.size, s.closed, s.consumers, s.items⟩

variable {cfg : Config} {handler : Bool} {s : Queue.FairPriorityQueue} {t : FairPriorityQueue WorkItem}

theorem mem_lane_items {l : Queue.Lane} {t : Lane WorkItem} (h : LaneAgrees l t) {item : WorkItem} :
    item ∈ l.items ↔ ∃ other ∈ t.byKey.values.flatten, other.stamped = item := by
  simp only [Queue.Lane.items, Dict.values, List.mem_flatten, List.mem_map]
  constructor
  · intro hmem
    obtain ⟨_, ⟨⟨key, bucket⟩, hp, rfl⟩, hitem⟩ := hmem
    have hg := h.buckets key
    rw [Dict.get?_eq_some_iff.mpr hp] at hg
    obtain ⟨bucket', hg', hstamp⟩ := Option.map_eq_some_iff.mp hg.symm
    rw [← hstamp, stamp, List.mem_map] at hitem
    obtain ⟨other, hother, heq⟩ := hitem
    exact ⟨other, ⟨bucket', ⟨(key, bucket'), Dict.get?_eq_some_iff.mp hg', rfl⟩, hother⟩, heq⟩
  · intro hmem
    obtain ⟨other, ⟨_, ⟨⟨key, bucket⟩, hp, rfl⟩, hother⟩, rfl⟩ := hmem
    have hg := h.bucket (Dict.get?_eq_some_iff.mpr hp)
    exact ⟨stamp bucket, ⟨(key, stamp bucket), Dict.get?_eq_some_iff.mp hg, rfl⟩, List.mem_map_of_mem hother⟩

theorem mem_items {ls : List Queue.Lane} {ts : List (Lane WorkItem)} (h : List.Forall₂ LaneAgrees ls ts)
    {item : WorkItem} : item ∈ ls.flatMap Queue.Lane.items ↔
      ∃ other ∈ ts.flatMap (fun lane => lane.byKey.values.flatten), other.stamped = item := by
  induction h with
  | nil => simp
  | cons hl _ ih =>
    simp only [List.flatMap_cons, List.mem_append, mem_lane_items hl, ih, or_and_right, exists_or]

theorem fresh_iff (h : Agrees s t) (e : Event) : t.front.Fresh cfg e ↔ s.front.Fresh cfg e := by
  have hdrains : t.front.drainsAt e = s.front.drainsAt e := by
    have hfront : t.front = { s.front with items := t.items } := by
      simp [front, Queue.FairPriorityQueue.front, h.size, h.closed, h.consumers]
    rw [hfront]
    rfl
  unfold Front.Fresh Front.FreshAt
  rw [hdrains]
  refine forall₂_congr fun now _ => or_congr (Eq.congr_left h.closed) ?_
  have hmem : ∀ item, item ∈ s.front.items ↔ ∃ other ∈ t.front.items, other.stamped = item :=
    fun item => mem_items h.lanes
  constructor
  · intro hlive
    obtain ⟨item, hitem, hlive⟩ := hlive
    exact ⟨item.stamped, (hmem _).mpr ⟨item, hitem, rfl⟩, hlive⟩
  · intro hlive
    obtain ⟨item, hitem, hlive⟩ := hlive
    obtain ⟨other, hother, rfl⟩ := (hmem item).mp hitem
    exact ⟨other, hother, hlive⟩

theorem honest_iff (h : Agrees s t) {o : Queue.Output} {o' : Output WorkItem} (ho : Answers handler o o') :
    t.front.Honest o'.batch? ↔ s.front.Honest o.batch? := by
  have hclosed : t.front.closed = s.front.closed := h.closed
  unfold Front.Honest
  rw [hclosed]
  cases ho with
  | batch hdrops => simp [Output.batch?, Queue.Output.batch?, stamp]
  | _ => simp [Output.batch?, Queue.Output.batch?]

theorem step_honest (h : Agrees s t) (hi : s.Inv cfg) (e : Event) :
    t.front.Honest (t.step cfg handler e).2.batch? ↔ t.front.Fresh cfg e := by
  have halike : Alike handler (s.step cfg e) (t.step cfg handler e) := step_alike h hi e
  rw [honest_iff h halike.2, Queue.FairPriorityQueue.step_honest hi, fresh_iff h]

end FairPriorityQueue

/-! ## The first-in first-out queue of the C++ plane -/

namespace FifoQueue

def front (s : FifoQueue WorkItem) : Front := ⟨s.items.length, s.closed, s.consumers, s.items⟩

variable {cfg : Config} {handler : Bool}

theorem drain_grows {now : Int} {maxRows : Nat} (items : List WorkItem) (d : Drain WorkItem) :
    d.batch <+: (drain cfg handler now maxRows items d).2.batch := by
  induction items generalizing d with
  | nil => exact List.prefix_refl _
  | cons item items ih =>
    have htake : d.batch <+: (d.take item).batch := List.prefix_append _ _
    simp only [drain]
    split
    · exact List.prefix_refl _
    split
    · exact ih (d.expire handler item)
    split
    · exact htake
    · exact htake.trans (ih _)

theorem drain_barren {now : Int} {maxRows : Nat} : ∀ (items : List WorkItem) {d : Drain WorkItem}, d.batch = [] →
    ((drain cfg handler now maxRows items d).2.batch = [] ↔ ∀ item ∈ items, Late cfg now item)
  | [], d, hd => by simp [drain, hd]
  | item :: items, d, hd => by
    simp only [drain]
    rw [if_neg (by simp [hd]), List.forall_mem_cons]
    by_cases hlate : cfg.dropExpired = true ∧ item.request.isExpired now = true
    · have hexpired : cfg.dropExpired = true ∧ QueueItem.expired item now = true := hlate
      have hrest : (drain cfg handler now maxRows items (d.expire handler item)).2.batch = [] ↔
          ∀ item ∈ items, Late cfg now item := drain_barren items hd
      rw [if_pos hexpired]
      exact hrest.trans (and_iff_right hlate).symm
    · have hexpired : ¬ (cfg.dropExpired = true ∧ QueueItem.expired item now = true) := hlate
      rw [if_neg hexpired]
      have htake : (d.take item).batch = [item] := by simp [Drain.take, hd]
      have hne : ∀ batch : List WorkItem, (d.take item).batch <+: batch → batch ≠ [] := by
        intro batch hb he
        rw [htake, he] at hb
        simp at hb
      split
      · exact iff_of_false (hne _ (List.prefix_refl _)) fun h => hlate h.1
      · exact iff_of_false (hne _ (drain_grows items _)) fun h => hlate h.1

theorem drainLocked_honest (s : FifoQueue WorkItem) (maxRows : Nat) (now : Int) :
    s.front.Honest (s.drainLocked cfg handler maxRows now).2.batch? ↔ s.front.FreshAt cfg (some now) := by
  apply Front.honest_iff_freshAt
  have hitems : s.front.items = s.items := rfl
  rw [hitems, Output.batch?, drainLocked]
  simpa using drain_barren s.items rfl

theorem fillLocked_honest (s : FifoQueue WorkItem) (window : BatchWindow) (deadline : Int) (clock : Clock) :
    s.front.Honest (s.fillLocked cfg handler window deadline clock).2.batch? ↔
      s.front.FreshAt cfg (s.front.filled window deadline clock) := by
  unfold fillLocked Front.filled
  by_cases hfills : s.front.Fills window deadline clock
  · obtain ⟨hmore, hopen, hsize, htime⟩ := id hfills
    rw [if_pos hfills, if_pos ⟨hmore, hopen, hsize, htime⟩]
    exact iff_of_true Front.honest_none Front.freshAt_none
  · rw [if_neg hfills, if_neg fun hc => hfills ⟨hc.1, hc.2.1, hc.2.2.1, hc.2.2.2⟩]
    exact drainLocked_honest s _ _

theorem getBatch_honest (s : FifoQueue WorkItem) (window : BatchWindow) (clock : Clock) :
    s.front.Honest (s.getBatch cfg handler window clock).2.batch? ↔
      s.front.FreshAt cfg (s.front.called window clock) := by
  have hdepth : s.front.depth = s.items.length := rfl
  unfold getBatch Front.called
  rw [hdepth]
  simp only [List.isEmpty_iff, List.length_eq_zero_iff]
  split
  · split
    · rename_i hclosed
      exact iff_of_true (Front.honest_of_closed hclosed) Front.freshAt_none
    · exact iff_of_true Front.honest_none Front.freshAt_none
  split
  · exact fillLocked_honest s window _ clock
  · exact drainLocked_honest s _ _

theorem batch?_reject (s : FifoQueue WorkItem) (item : WorkItem) : (reject s item).2.batch? = none := by
  unfold reject
  split <;> rfl

theorem batch?_blockLocked (s : FifoQueue WorkItem) (item : WorkItem) (deadline : Int) (clock : Clock) :
    (blockLocked cfg s item deadline clock).2.batch? = none := by
  unfold blockLocked
  split
  · split
    · exact batch?_reject s item
    · rfl
  split
  · exact batch?_reject s item
  · rfl

theorem batch?_put (s : FifoQueue WorkItem) (item : WorkItem) (clock : Clock) :
    (s.put cfg handler item clock).2.batch? = none := by
  unfold put
  split
  · rfl
  split
  · cases cfg.overflow with
    | reject => exact batch?_reject s item
    | block => exact batch?_blockLocked s item _ clock
    | dropOldest =>
      simp only [dropOldest]
      split <;> rfl
  · rfl

theorem batch?_putWakes (s : FifoQueue WorkItem) (i : Nat) (clock : Clock) :
    (s.putWakes cfg i clock).2.batch? = none := by
  unfold putWakes
  split
  · rfl
  dsimp only
  split
  · exact batch?_reject _ _
  · exact batch?_blockLocked _ _ _ clock

theorem step_honest (s : FifoQueue WorkItem) (e : Event) :
    s.front.Honest (s.step cfg handler e).2.batch? ↔ s.front.Fresh cfg e := by
  cases e with
  | put item clock =>
    simp only [step, batch?_put]
    exact iff_of_true Front.honest_none Front.freshAt_none
  | putWakes i clock =>
    simp only [step, batch?_putWakes]
    exact iff_of_true Front.honest_none Front.freshAt_none
  | close error => exact iff_of_true Front.honest_none Front.freshAt_none
  | getBatch window clock => exact getBatch_honest s window clock
  | getBatchWakes i clock =>
    have hconsumers : s.front.consumers = s.consumers := rfl
    simp only [step, getBatchWakes, Front.Fresh, Front.drainsAt, hconsumers]
    cases hget : s.consumers[i]? with
    | none => exact iff_of_true Front.honest_none Front.freshAt_none
    | some waiting =>
      cases waiting with
      | first window => exact getBatch_honest { s with consumers := s.consumers.eraseIdx i } window clock
      | fill window deadline => exact fillLocked_honest { s with consumers := s.consumers.eraseIdx i } window deadline clock

end FifoQueue

end Twin

/-! ## Runs -/

/-- Along the script, only a closed queue gives an empty batch. -/
def EmptyMeansClosed {σ ω : Type} (step : σ → Event → σ × ω) (front : σ → Front) (batch? : ω → Option (List WorkItem))
    (start : σ) (events : List Event) : Prop :=
  Machine.Along step (fun s e => (front s).Honest (batch? (step s e).2)) start events

/-- Along the script, whenever `get_batch` comes to its drain in an open queue, something
there is not late. -/
def FreshAlong {σ ω : Type} (cfg : Config) (step : σ → Event → σ × ω) (front : σ → Front) (start : σ)
    (events : List Event) : Prop :=
  Machine.Along step (fun s e => (front s).Fresh cfg e) start events

/-- **Empty batches.** In every queue, of whichever kind and plane, the empty batches of a
run are all those of a closed queue just when no drain of the run, in an open queue, finds
late items only. -/
theorem empty_means_closed_iff (cfg : Config) (handler : Bool) (events : List Event) :
    (EmptyMeansClosed (FairPriorityQueue.step cfg) FairPriorityQueue.front Output.batch? {} events ↔
      FreshAlong cfg (FairPriorityQueue.step cfg) FairPriorityQueue.front {} events) ∧
    (EmptyMeansClosed (FifoQueue.step cfg) FifoQueue.front Output.batch? {} events ↔
      FreshAlong cfg (FifoQueue.step cfg) FifoQueue.front {} events) ∧
    (EmptyMeansClosed (Twin.FairPriorityQueue.step cfg handler) Twin.FairPriorityQueue.front Twin.Output.batch? {} events ↔
      FreshAlong cfg (Twin.FairPriorityQueue.step cfg handler) Twin.FairPriorityQueue.front {} events) ∧
    (EmptyMeansClosed (Twin.FifoQueue.step cfg handler) Twin.FifoQueue.front Twin.Output.batch? {} events ↔
      FreshAlong cfg (Twin.FifoQueue.step cfg handler) Twin.FifoQueue.front {} events) := by
  refine ⟨?_, ?_, ?_, ?_⟩
  · exact Machine.along_congr (I := FairPriorityQueue.Inv cfg) (fun s e h => (h.step e).inv)
      (fun s e h => FairPriorityQueue.step_honest h e) events (FairPriorityQueue.inv_empty cfg)
  · exact Machine.along_congr (I := fun _ => True) (fun _ _ _ => trivial)
      (fun s e _ => FifoQueue.step_honest s e) events trivial
  · refine Machine.along_congr (I := fun t => ∃ s, Twin.Agrees s t ∧ s.Inv cfg) ?_ ?_ events
      ⟨{}, Twin.FairPriorityQueue.agrees_empty, FairPriorityQueue.inv_empty cfg⟩
    · intro t e h
      obtain ⟨s, hs, hi⟩ := h
      exact ⟨_, (Twin.FairPriorityQueue.step_alike hs hi e).1, (hi.step e).inv⟩
    · intro t e h
      obtain ⟨s, hs, hi⟩ := h
      exact Twin.FairPriorityQueue.step_honest hs hi e
  · exact Machine.along_congr (I := fun _ => True) (fun _ _ _ => trivial)
      (fun s e _ => Twin.FifoQueue.step_honest s e) events trivial

/-- A request past its deadline, alone in an open queue. -/
theorem empty_batch_of_open_queue :
    let cfg : Config := { name := "detect", capacity := 4, capacity_pos := Nat.succ_pos 3 }
    let window : BatchWindow :=
      { maxBatchSize := 2
        maxBatchSize_pos := Nat.succ_pos 1
        preferred_within := fun _ h => (List.not_mem_nil h).elim }
    let item : WorkItem := { request := { modelName := "detect", inputs := .empty, requestId := 1, deadlineNs := 5 } }
    let events : List Event := [.put item ⟨0, 0, 0⟩, .getBatch window ⟨10, 10, 10⟩]
    ¬ EmptyMeansClosed (FairPriorityQueue.step cfg) FairPriorityQueue.front Output.batch? {} events ∧
    ¬ EmptyMeansClosed (FifoQueue.step cfg) FifoQueue.front Output.batch? {} events ∧
    ¬ EmptyMeansClosed (Twin.FairPriorityQueue.step cfg true) Twin.FairPriorityQueue.front Twin.Output.batch? {} events ∧
    ¬ EmptyMeansClosed (Twin.FifoQueue.step cfg true) Twin.FifoQueue.front Twin.Output.batch? {} events := by
  intro cfg window item events
  refine ⟨?_, ?_, ?_, ?_⟩
  · intro h
    have hclosed := h.2.1 rfl
    cases hclosed
  · intro h
    have hclosed := h.2.1 rfl
    cases hclosed
  · intro h
    have hclosed := h.2.1 rfl
    cases hclosed
  · intro h
    have hclosed := h.2.1 rfl
    cases hclosed

end ShipInfer.Queue
