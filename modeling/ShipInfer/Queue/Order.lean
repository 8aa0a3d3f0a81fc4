import ShipInfer.Queue.Buckets

/-!
# The order of service

A batch holds no more rows than it may, unless it is one item; it goes down the
priorities, and what it leaves behind is of no higher one; and the items of one
camera and one priority are served in the order they were taken in.
-/

namespace ShipInfer.Queue

namespace FairPriorityQueue

variable {cfg : Config} {now : Int} {maxRows : Nat}

/-! ## The drain -/

/-- The rows are those of the batch, and fit unless the batch is one item; who was
failed was late. -/
structure Drain.Fits (now : Int) (maxRows : Nat) (d : Drain) : Prop where
  rows : d.rows = (d.batch.map WorkItem.rows).sum
  within : d.rows ≤ maxRows ∨ d.batch.length ≤ 1
  late : ∀ p ∈ d.failed, p.1.request.isExpired now = true

theorem Drain.Fits.take {d : Drain} (h : d.Fits now maxRows) {item : WorkItem}
    (hroom : ¬(d.batch ≠ [] ∧ maxRows < d.rows + item.rows)) : (d.take item).Fits now maxRows := by
  refine ⟨by simp [Drain.take, h.rows], ?_, h.late⟩
  · by_cases hb : d.batch = []
    · simp [Drain.take, hb]
    · simp only [Drain.take]
      exact .inl (by simpa [hb] using hroom)

theorem Drain.Fits.expire {d : Drain} (h : d.Fits now maxRows) {item : WorkItem}
    (hlate : item.request.isExpired now = true) : (d.expire item).Fits now maxRows := by
  refine ⟨h.rows, h.within, fun p hp => ?_⟩
  cases List.mem_append.mp hp with
  | inl hp => exact h.late p hp
  | inr hp => exact List.mem_singleton.mp hp ▸ hlate

/-- What the loop over one lane does to it and to the batch. -/
structure Serves (now : Int) (level maxRows : Nat) (lane lane' : Lane) (d d' : Drain) (exit : Exit) : Prop where
  rep : lane'.Rep
  placed : lane'.Placed level
  fits : d'.Fits now maxRows
  done : exit = .laneDone → lane'.items = []
  batch : ∃ new, d'.batch = d.batch ++ new ∧ (∀ item ∈ new, item.level = level) ∧
    ∀ key, ∃ taken, lane.bucket key = taken ++ lane'.bucket key ∧ (new.filter (ofKey level key)).Sublist taken

theorem drainLane_serves {level : Nat} : ∀ (n : Nat) {lane : Lane} {d : Drain}, lane.Rep → lane.size = n →
    lane.Placed level → d.Fits now maxRows →
      Serves now level maxRows lane (drainLane cfg now maxRows n lane d).1 d (drainLane cfg now maxRows n lane d).2.1
        (drainLane cfg now maxRows n lane d).2.2
  | 0, lane, d, hrep, hn, hplaced, hfits =>
    ⟨hrep, hplaced, hfits, fun _ => List.eq_nil_of_length_eq_zero (hrep.size_eq.symm.trans hn),
      [], (List.append_nil _).symm, by simp, fun key => ⟨[], rfl, .refl _⟩⟩
  | n + 1, lane, d, hrep, hn, hplaced, hfits => by
    obtain ⟨item, lane', hpeek, hpop, hrep', -, hsize⟩ := hrep.pop (by omega)
    obtain ⟨hlevel, hplaced', hbucket⟩ := hplaced.took (Lane.pop_took hpop)
    simp only [drainLane, hpeek, hpop]
    split
    · exact ⟨hrep, hplaced, hfits, Exit.noConfusion, [], (List.append_nil _).symm, by simp, fun key => ⟨[], rfl, .refl _⟩⟩
    rename_i hroom
    -- The item is gone: expired, or put in the batch.
    have hexpired : ∀ {lane'' : Lane} {d' : Drain} {exit : Exit}, Serves now level maxRows lane' lane'' (d.expire item) d' exit →
        Serves now level maxRows lane lane'' d d' exit := by
      intro lane'' d' exit h
      obtain ⟨new, hbatch, hnew, hkeys⟩ := h.batch
      refine ⟨h.rep, h.placed, h.fits, h.done, new, hbatch, hnew, fun key => ?_⟩
      obtain ⟨taken, htaken, hsub⟩ := hkeys key
      exact ⟨_, by rw [hbucket, htaken, List.append_assoc], hsub.trans (List.sublist_append_right _ _)⟩
    have htaken : ∀ {lane'' : Lane} {d' : Drain} {exit : Exit}, Serves now level maxRows lane' lane'' (d.take item) d' exit →
        Serves now level maxRows lane lane'' d d' exit := by
      intro lane'' d' exit h
      obtain ⟨new, hbatch, hnew, hkeys⟩ := h.batch
      refine ⟨h.rep, h.placed, h.fits, h.done, item :: new, ?_, ?_, fun key => ?_⟩
      · simpa [Drain.take] using hbatch
      · intro other hother
        cases List.mem_cons.mp hother with
        | inl he => exact he ▸ hlevel
        | inr hmem => exact hnew other hmem
      · obtain ⟨taken, htaken, hsub⟩ := hkeys key
        refine ⟨_, by rw [hbucket, htaken, List.append_assoc], ?_⟩
        by_cases hk : key = item.fairnessKey
        · simpa [ofKey, hlevel, hk] using hk ▸ hsub
        · simpa [ofKey, hk, Ne.symm hk] using hsub
    split
    · rename_i hlate
      exact hexpired (drainLane_serves n hrep' (by omega) hplaced' (hfits.expire hlate.2))
    split
    · exact htaken ⟨hrep', hplaced', hfits.take hroom, Exit.noConfusion, [], (List.append_nil _).symm, by simp,
        fun key => ⟨[], rfl, .refl _⟩⟩
    · exact htaken (drainLane_serves n hrep' (by omega) hplaced' (hfits.take hroom))

/-- What the loop over the lanes does to them and to the batch: what it puts in goes
down the priorities, and what it leaves is of no higher one. -/
structure ServesAll (now : Int) (level maxRows : Nat) (lanes lanes' : List Lane) (d d' : Drain) : Prop where
  placed : PlacedFrom level lanes'
  fits : d'.Fits now maxRows
  batch : ∃ new, d'.batch = d.batch ++ new ∧ (∀ item ∈ new, level ≤ item.level) ∧
    new.Pairwise (fun a b => a.level ≤ b.level) ∧
    (∀ item ∈ new, ∀ other ∈ lanes'.flatMap Lane.items, item.level ≤ other.level) ∧
    ∀ i key, ∃ taken, (lanes.getD i {}).bucket key = taken ++ (lanes'.getD i {}).bucket key ∧
      (new.filter (ofKey (level + i) key)).Sublist taken

theorem drainLanes_serves {level : Nat} : ∀ (lanes : List Lane) {d : Drain}, (∀ lane ∈ lanes, lane.Rep) →
    PlacedFrom level lanes → d.Fits now maxRows →
      ServesAll now level maxRows lanes (drainLanes cfg now maxRows lanes d).1 d (drainLanes cfg now maxRows lanes d).2.1
  | [], d, _, hplaced, hfits =>
    ⟨hplaced, hfits, [], (List.append_nil _).symm, by simp, .nil, by simp, fun i key => ⟨[], rfl, .refl _⟩⟩
  | lane :: lanes, d, hrep, hplaced, hfits => by
    obtain ⟨hlane, hrest⟩ := PlacedFrom.cons_iff.mp hplaced
    have hone : Serves now level maxRows lane (drainLane cfg now maxRows lane.size lane d).1 d
        (drainLane cfg now maxRows lane.size lane d).2.1 (drainLane cfg now maxRows lane.size lane d).2.2 :=
      drainLane_serves lane.size (hrep lane List.mem_cons_self) rfl hlane hfits
    unfold drainLanes
    generalize drainLane cfg now maxRows lane.size lane d = r at hone
    obtain ⟨lane', d', exit⟩ := r
    dsimp only at hone
    obtain ⟨new, hbatch, hnew, hkeys⟩ := hone.batch
    -- The batch is closed within this lane.
    have hstop : ServesAll now level maxRows (lane :: lanes) (lane' :: lanes) d d' := by
      refine ⟨PlacedFrom.cons_iff.mpr ⟨hone.placed, hrest⟩, hone.fits, new, hbatch, fun item h => (hnew item h).ge,
        List.pairwise_of_forall_mem_list fun a ha b hb => ((hnew a ha).trans (hnew b hb).symm).le, ?_, fun i key => ?_⟩
      · intro item hitem other hother
        rw [hnew item hitem]
        exact (PlacedFrom.cons_iff.mpr ⟨hone.placed, hrest⟩).le_level hother
      · cases i with
        | zero => exact hkeys key
        | succ i =>
          refine ⟨[], rfl, ?_⟩
          rw [filter_ofKey_eq_nil key fun item h => by rw [hnew item h]; omega]
    cases exit with
    | raised e => exact hstop
    | returned => exact hstop
    | laneDone =>
      dsimp only
      have hempty := hone.done rfl
      have hall := drainLanes_serves lanes (fun l hl => hrep l (List.mem_cons_of_mem _ hl)) hrest hone.fits
      obtain ⟨more, hbatch', hmore, hsorted, hleft, hkeys'⟩ := hall.batch
      refine ⟨PlacedFrom.cons_iff.mpr ⟨hone.placed, hall.placed⟩, hall.fits, new ++ more, ?_, ?_, ?_, ?_, fun i key => ?_⟩
      · rw [hbatch', hbatch, List.append_assoc]
      · intro item hitem
        cases List.mem_append.mp hitem with
        | inl h => exact (hnew item h).ge
        | inr h => exact (Nat.le_succ level).trans (hmore item h)
      · refine List.pairwise_append.mpr ⟨?_, hsorted, fun a ha b hb => ?_⟩
        · exact List.pairwise_of_forall_mem_list fun a ha b hb => ((hnew a ha).trans (hnew b hb).symm).le
        · rw [hnew a ha]
          exact (Nat.le_succ level).trans (hmore b hb)
      · intro item hitem other hother
        rw [List.flatMap_cons, hempty, List.nil_append] at hother
        cases List.mem_append.mp hitem with
        | inl h =>
          rw [hnew item h]
          exact (Nat.le_succ level).trans (hall.placed.le_level hother)
        | inr h => exact hleft item h other hother
      · rw [List.filter_append]
        cases i with
        | zero =>
          obtain ⟨taken, htaken, hsub⟩ := hkeys key
          refine ⟨taken, htaken, ?_⟩
          have hnone : more.filter (ofKey (level + 0) key) = [] :=
            filter_ofKey_eq_nil key fun item h => by have := hmore item h; omega
          rw [hnone, List.append_nil]
          exact hsub
        | succ i =>
          obtain ⟨taken, htaken, hsub⟩ := hkeys' i key
          refine ⟨taken, htaken, ?_⟩
          have hnone : new.filter (ofKey (level + (i + 1)) key) = [] :=
            filter_ofKey_eq_nil key fun item h => by rw [hnew item h]; omega
          rw [hnone, List.nil_append, show level + (i + 1) = level + 1 + i by omega]
          exact hsub

/-! ## Pieces -/

/-- A piece takes from a bucket's front what it delivers of it, in order, and adds at
its back what `put` took. -/
structure InOrder (s : FairPriorityQueue) (a : Answer) : Prop where
  placed : a.1.Placed
  bucket : ∀ level key, ∃ taken,
    s.bucket level key ++ a.2.accepted.filter (ofKey level key) = taken ++ a.1.bucket level key ∧
      (a.2.delivered.filter (ofKey level key)).Sublist taken

section
variable {s : FairPriorityQueue}

/-- A piece that leaves the lanes alone. -/
theorem Placed.still (h : s.Placed) {a : Answer} (hl : a.1.lanes = s.lanes) (ha : a.2.accepted = [])
    (hd : a.2.delivered = []) : InOrder s a := by
  refine ⟨?_, fun level key => ⟨[], ?_, by simp [hd]⟩⟩
  · unfold FairPriorityQueue.Placed
    rwa [hl]
  · simp [FairPriorityQueue.bucket, hl, ha]

theorem getD_modify_push (lanes : List Lane) (n : Nat) (item : WorkItem) (i : Nat) (hn : n < lanes.length) :
    (lanes.modify n (·.push item)).getD i {} = if i = n then (lanes.getD i {}).push item else lanes.getD i {} := by
  rw [List.getD_eq_getElem?_getD, List.getElem?_modify, List.getD_eq_getElem?_getD]
  by_cases h : i = n
  · subst h
    simp [List.getElem?_eq_getElem hn]
  · simp [h, Ne.symm h]

theorem Placed.accept (h : s.Placed) (hlen : s.lanes.length = priorityLevels) (item : WorkItem)
    (failed : List (WorkItem × QueueError)) : InOrder s (s.accept item failed) := by
  have hn : item.request.priority.level < s.lanes.length := hlen ▸ item.request.priority.level_lt
  have hlane := fun i => getD_modify_push s.lanes item.request.priority.level item.stamped i hn
  constructor
  · intro i
    simp only [FairPriorityQueue.accept, enqueue, hlane]
    by_cases hi : i = item.request.priority.level
    · rw [if_pos hi]
      exact (h i).push (show item.request.priority.level = 0 + i by omega)
    · rw [if_neg hi]
      exact h i
  · intro level key
    refine ⟨[], ?_, .refl _⟩
    simp only [FairPriorityQueue.accept, enqueue, FairPriorityQueue.bucket, hlane, Output.accepted, List.nil_append]
    by_cases hi : level = item.request.priority.level
    · rw [if_pos hi, Lane.bucket_push]
      congr 1
      have hlevel : item.level = level := hi.symm
      by_cases hk : key = item.fairnessKey
      · simp [ofKey, hlevel, hk]
      · simp [ofKey, hk, Ne.symm hk]
    · rw [if_neg hi, filter_ofKey_eq_nil, List.append_nil]
      intro other hother
      rw [List.mem_singleton.mp hother]
      exact Ne.symm hi

theorem Placed.dropOldest (h : s.Placed) (hi : s.Inv cfg) (item : WorkItem) :
    InOrder s (dropOldest cfg s item) := by
  unfold FairPriorityQueue.dropOldest
  cases hv : evictLowest s.lanes with
  | error e => exact h.still rfl rfl rfl
  | ok found =>
    cases found with
    | none => exact h.still rfl rfl rfl
    | some p =>
      obtain ⟨victim, lanes⟩ := p
      dsimp only
      have hlen : lanes.length = s.lanes.length := by
        cases evictLowest_spec hi.rep with
        | inl hn => rw [hv] at hn; cases hn.1
        | inr hs =>
          obtain ⟨_, _, hs, -, hlen, -⟩ := hs
          rw [hv] at hs
          cases hs
          exact hlen
      have hevicts := evictLowest_evicts hi.rep h hv
      have hrest := Placed.accept (s := { s with
        lanes := lanes
        size := s.size - 1
        evicted := s.evicted + 1
        evictedByCamera := s.evictedByCamera.add victim.fairnessKey 1 }) hevicts.placed (hlen.trans hi.levels) item
        [(victim, .full cfg.name (s.size - 1 + 1) cfg.capacity)]
      refine ⟨hrest.placed, fun level key => ?_⟩
      obtain ⟨taken, htaken, hsub⟩ := hrest.bucket level key
      have hbucket := hevicts.bucket level key
      rw [Nat.zero_add] at hbucket
      refine ⟨(if ofKey level key victim then [victim] else []) ++ taken, ?_, hsub.trans (List.sublist_append_right _ _)⟩
      rw [FairPriorityQueue.bucket, hbucket, List.append_assoc, List.append_assoc]
      exact congrArg _ htaken

theorem Placed.blockLocked (h : s.Placed) (hi : s.Inv cfg) (item : WorkItem) (deadline : Int) (clock : Clock) :
    InOrder s (blockLocked cfg s item deadline clock) := by
  unfold FairPriorityQueue.blockLocked
  split
  · split <;> exact h.still rfl rfl rfl
  · split
    · exact h.still rfl rfl rfl
    · exact h.accept hi.levels item []

theorem Placed.put (h : s.Placed) (hi : s.Inv cfg) (item : WorkItem) (clock : Clock) :
    InOrder s (s.put cfg item clock) := by
  unfold FairPriorityQueue.put
  split
  · exact h.still rfl rfl rfl
  split
  · exact h.accept hi.levels item []
  · cases cfg.overflow with
    | reject => exact h.still rfl rfl rfl
    | block => exact h.blockLocked hi item _ clock
    | dropOldest => exact h.dropOldest hi item

/-- What a batch is served of. -/
structure Served (now : Int) (maxRows : Nat) (a : Answer) (batch : List WorkItem) : Prop where
  budget : (batch.map WorkItem.rows).sum ≤ maxRows ∨ batch.length ≤ 1
  sorted : batch.Pairwise fun a b => a.level ≤ b.level
  left : ∀ item ∈ batch, ∀ other ∈ a.1.items, item.level ≤ other.level
  late : ∀ p ∈ a.2.failed, p.1.request.isExpired now = true

theorem Placed.drainLocked (h : s.Placed) (hi : s.Inv cfg) (maxRows : Nat) (now : Int) :
    InOrder s (s.drainLocked cfg maxRows now) ∧
      ∀ batch, (s.drainLocked cfg maxRows now).2.reply = .batch batch →
        Served now maxRows (s.drainLocked cfg maxRows now) batch := by
  have hfits : Drain.Fits now maxRows { size := s.size, expired := s.expired, expiredByCamera := s.expiredByCamera } :=
    ⟨rfl, .inr (Nat.zero_le 1), fun _ hp => (List.not_mem_nil hp).elim⟩
  have hall : ServesAll now 0 maxRows s.lanes (drainLanes cfg now maxRows s.lanes _).1 _
      (drainLanes cfg now maxRows s.lanes _).2.1 := drainLanes_serves s.lanes hi.rep h hfits
  have hexit := (hi.drainLocked maxRows now).raises
  unfold FairPriorityQueue.drainLocked at hexit ⊢
  dsimp only at hexit ⊢
  generalize drainLanes cfg now maxRows s.lanes _ = r at hall hexit ⊢
  obtain ⟨lanes, d, exit⟩ := r
  obtain ⟨new, hbatch, -, hsorted, hleft, hkeys⟩ := hall.batch
  dsimp only at hall hexit hbatch hsorted hleft hkeys ⊢
  rw [List.nil_append] at hbatch
  subst hbatch
  have horder : InOrder s ({ s with
      lanes := lanes
      size := d.size
      expired := d.expired
      expiredByCamera := d.expiredByCamera }, { reply := .batch d.batch, failed := d.failed }) := by
    refine ⟨hall.placed, fun level key => ?_⟩
    obtain ⟨taken, htaken, hsub⟩ := hkeys level key
    rw [Nat.zero_add] at hsub
    exact ⟨taken, (List.append_nil _).trans htaken, hsub⟩
  have hserved : ∀ batch, Reply.batch d.batch = .batch batch → Served now maxRows ({ s with
      lanes := lanes
      size := d.size
      expired := d.expired
      expiredByCamera := d.expiredByCamera }, { reply := .batch d.batch, failed := d.failed }) batch := by
    intro batch hb
    cases hb
    exact ⟨hall.fits.rows ▸ hall.fits.within, hsorted, hleft, hall.fits.late⟩
  cases exit with
  | raised e => exact absurd rfl (hexit e)
  | returned => exact ⟨horder, hserved⟩
  | laneDone => exact ⟨horder, hserved⟩

theorem InOrder.of_sleepers {producers : List (WorkItem × Int)} {consumers : List Waiting} {a : Answer}
    (h : InOrder { s with producers := producers, consumers := consumers } a) : InOrder s a :=
  ⟨h.placed, h.bucket⟩

/-- The window and the clock that a consumer who gets a batch drains with. -/
def drainsWith (s : FairPriorityQueue) : Event → Option (BatchWindow × Clock)
  | .getBatch window clock => some (window, clock)
  | .getBatchWakes i clock =>
    match s.consumers[i]? with
    | some (.first window) => some (window, clock)
    | some (.fill window _) => some (window, clock)
    | none => none
  | _ => none

/-- What a consumer's piece does. -/
def Consumes (s : FairPriorityQueue) (window : BatchWindow) (clock : Clock) (a : Answer) : Prop :=
  InOrder s a ∧ ∀ batch, a.2.reply = .batch batch → Served clock.drain window.maxBatchSize a batch

theorem Consumes.of_sleepers {producers : List (WorkItem × Int)} {consumers : List Waiting} {window : BatchWindow}
    {clock : Clock} {a : Answer} (h : Consumes { s with producers := producers, consumers := consumers } window clock a) :
    Consumes s window clock a := ⟨h.1.of_sleepers, h.2⟩

theorem Placed.asleep (h : s.Placed) (window : BatchWindow) (clock : Clock) (consumers : List Waiting) :
    Consumes s window clock ({ s with consumers := consumers }, { reply := .asleep }) :=
  ⟨h.still rfl rfl rfl, fun _ => Reply.noConfusion⟩

theorem Placed.fillLocked (h : s.Placed) (hi : s.Inv cfg) (window : BatchWindow) (deadline : Int) (clock : Clock) :
    Consumes s window clock (s.fillLocked cfg window deadline clock) := by
  unfold FairPriorityQueue.fillLocked
  split
  · exact h.asleep window clock _
  · exact h.drainLocked hi _ _

theorem Placed.getBatch (h : s.Placed) (hi : s.Inv cfg) (window : BatchWindow) (clock : Clock) :
    Consumes s window clock (s.getBatch cfg window clock) := by
  unfold FairPriorityQueue.getBatch
  split
  · split
    · refine ⟨h.still rfl rfl rfl, fun batch hb => ?_⟩
      cases hb
      exact ⟨.inr (Nat.zero_le 1), .nil, by simp, by simp⟩
    · exact h.asleep window clock _
  split
  · exact h.fillLocked hi window _ clock
  · exact h.drainLocked hi _ _

theorem close_inOrder (s : FairPriorityQueue) (error : Option String) : InOrder s (s.close cfg error) := by
  have hlane : ∀ i, ((s.close cfg error).1.lanes.getD i {}) = {} := by
    intro i
    rw [List.getD_eq_getElem?_getD]
    simp only [FairPriorityQueue.close, List.getElem?_map]
    cases s.lanes[i]? <;> rfl
  constructor
  · intro i
    rw [hlane]
    exact Lane.placed_empty _
  · intro level key
    refine ⟨s.bucket level key, ?_, List.nil_sublist _⟩
    rw [FairPriorityQueue.bucket, FairPriorityQueue.bucket, hlane]
    simp [Lane.bucket, FairPriorityQueue.close, Output.accepted]

theorem Placed.step (h : s.Placed) (hi : s.Inv cfg) (e : Event) : InOrder s (s.step cfg e) := by
  cases e with
  | put item clock => exact h.put hi item clock
  | putWakes i clock =>
    simp only [FairPriorityQueue.step, putWakes]
    split
    · exact h.still rfl rfl rfl
    · exact .of_sleepers (Placed.blockLocked (s := { s with producers := s.producers.eraseIdx i }) h (hi.sleepers _ _) _ _ clock)
  | getBatch window clock => exact (h.getBatch hi window clock).1
  | getBatchWakes i clock =>
    simp only [FairPriorityQueue.step, getBatchWakes]
    split
    · exact h.still rfl rfl rfl
    · exact .of_sleepers (Placed.getBatch (s := { s with consumers := s.consumers.eraseIdx i }) h (hi.sleepers _ _) _ clock).1
    · exact .of_sleepers (Placed.fillLocked (s := { s with consumers := s.consumers.eraseIdx i }) h (hi.sleepers _ _) _ _ clock).1
  | close error => exact close_inOrder s error

theorem Placed.consumes (h : s.Placed) (hi : s.Inv cfg) {e : Event} {window : BatchWindow} {clock : Clock}
    (he : s.drainsWith e = some (window, clock)) : Consumes s window clock (s.step cfg e) := by
  cases e with
  | put item clock => cases he
  | putWakes i clock => cases he
  | close error => cases he
  | getBatch window clock =>
    cases he
    exact h.getBatch hi window clock
  | getBatchWakes i clock =>
    simp only [FairPriorityQueue.step, getBatchWakes]
    unfold drainsWith at he
    dsimp only at he
    split at he
    · rename_i hget
      cases he
      simp only [hget]
      exact .of_sleepers (Placed.getBatch (s := { s with consumers := s.consumers.eraseIdx i }) h (hi.sleepers _ _) _ clock)
    · rename_i hget
      cases he
      simp only [hget]
      exact .of_sleepers (Placed.fillLocked (s := { s with consumers := s.consumers.eraseIdx i }) h (hi.sleepers _ _) _ _ clock)
    · cases he

end

/-! ## Runs -/

theorem placed_empty : ({} : FairPriorityQueue).Placed := by
  intro i
  rw [List.getD_eq_getElem?_getD]
  cases h : ({} : FairPriorityQueue).lanes[i]? with
  | none => exact Lane.placed_empty _
  | some lane =>
    have : lane = {} := List.eq_of_mem_replicate (List.mem_of_getElem? h)
    rw [this]
    exact Lane.placed_empty _

/-- What a run has taken in of a key and a level is what has left, in this order, and
then what is still there. -/
structure Ordered (cfg : Config) (os : List Output) (s : FairPriorityQueue) : Prop where
  inv : s.Inv cfg
  placed : s.Placed
  bucket : ∀ level key, ∃ gone,
    (along Output.accepted os).filter (ofKey level key) = gone ++ s.bucket level key ∧
      ((along Output.delivered os).filter (ofKey level key)).Sublist gone

theorem Ordered.step {os : List Output} {s : FairPriorityQueue} (h : Ordered cfg os s) (e : Event) :
    Ordered cfg (os ++ [(s.step cfg e).2]) (s.step cfg e).1 := by
  have hstep := h.placed.step h.inv e
  refine ⟨(h.inv.step e).inv, hstep.placed, fun level key => ?_⟩
  obtain ⟨gone, hgone, hsub⟩ := h.bucket level key
  obtain ⟨taken, htaken, hsub'⟩ := hstep.bucket level key
  have hsnoc : ∀ part : Output → List WorkItem, along part (os ++ [(s.step cfg e).2]) =
      along part os ++ part (s.step cfg e).2 := by
    intro part
    simp [along]
  refine ⟨gone ++ taken, ?_, ?_⟩
  · rw [hsnoc, List.filter_append, hgone, List.append_assoc, htaken, List.append_assoc]
  · rw [hsnoc, List.filter_append]
    exact hsub.append hsub'

theorem ordered_run (cfg : Config) (events : List Event) : Ordered cfg (run cfg {} events).2 (run cfg {} events).1 := by
  apply Machine.exec_induction (I := Ordered cfg)
  · refine ⟨inv_empty cfg, placed_empty, fun level key => ⟨[], ?_, .refl _⟩⟩
    simp only [along, List.flatMap_nil, List.filter_nil, List.nil_append, FairPriorityQueue.bucket]
    rw [List.getD_eq_getElem?_getD]
    cases h : ({} : FairPriorityQueue).lanes[level]? with
    | none => rfl
    | some lane => rw [List.eq_of_mem_replicate (List.mem_of_getElem? h)]; rfl
  · intro os s e h
    exact h.step e

/-- The items of one camera and one priority. -/
def ofCamera (camera : String) (priority : Priority) (item : WorkItem) : Bool :=
  decide (item.request.context.cameraId = camera ∧ item.request.priority = priority)

theorem level_injective {p q : Priority} (h : p.level = q.level) : p = q := by
  cases p <;> cases q <;> first | rfl | cases h

/-- The items of a camera share a key. -/
theorem ofCamera_ofKey (camera : String) (priority : Priority) (items : List WorkItem) :
    items.filter (ofCamera camera priority) =
      (items.filter (ofKey priority.level (if camera = "" then "-" else camera))).filter (ofCamera camera priority) := by
  rw [List.filter_filter]
  apply List.filter_congr
  intro item _
  unfold ofCamera ofKey WorkItem.level WorkItem.fairnessKey
  by_cases h : item.request.context.cameraId = camera ∧ item.request.priority = priority
  · simp [h.1, h.2]
  · simp [h]

/-- **Order of service.** A batch fits its budget unless it is a single item; when an
item is put in it, what else is left of the queue and not late is of no higher
priority; and the items of a camera and a priority leave in the order they came. -/
theorem drain_order (cfg : Config) (events : List Event) :
    let s := (run cfg {} events).1
    let outputs := (run cfg {} events).2
    (∀ e window clock batch, s.drainsWith e = some (window, clock) → (s.step cfg e).2.reply = .batch batch →
      ((batch.map WorkItem.rows).sum ≤ window.maxBatchSize ∨ batch.length ≤ 1) ∧
      ∀ before item after, batch = before ++ item :: after →
        ∀ rest, s.items.Perm (before ++ [item] ++ rest) →
          ∀ other ∈ rest, other.request.isExpired clock.drain = false →
            item.request.priority.level ≤ other.request.priority.level) ∧
    ∀ camera priority, ((along Output.delivered outputs).filter (ofCamera camera priority)).Sublist
      ((along Output.accepted outputs).filter (ofCamera camera priority)) := by
  intro s outputs
  have hrun : Ordered cfg outputs s := ordered_run cfg events
  constructor
  · intro e window clock batch he hb
    obtain ⟨-, hserved⟩ := hrun.placed.consumes hrun.inv he
    have hbatch := hserved batch hb
    refine ⟨hbatch.budget, fun before item after hsplit rest hrest other hother hunexpired => ?_⟩
    have hkept : (before ++ [item] ++ rest).Perm
        (before ++ [item] ++ (after ++ (s.step cfg e).2.failed.map Prod.fst ++ (s.step cfg e).1.items)) := by
      have hitems := (hrun.inv.step e).items
      have haccepted : (s.step cfg e).2.accepted = [] := by simp [Output.accepted, hb]
      have hdelivered : (s.step cfg e).2.delivered = batch := by simp [Output.delivered, hb]
      have hleft := left_step hrun.inv e
      rw [hdelivered, hsplit] at hleft
      rw [haccepted, List.append_nil] at hitems
      refine hrest.symm.trans (hitems.trans ((hleft.append_right _).trans (.of_eq ?_)))
      simp
    have hmem := (List.perm_append_left_iff _).mp hkept |>.subset hother
    rw [List.mem_append, List.mem_append] at hmem
    have hsorted := hsplit ▸ hbatch.sorted
    cases hmem with
    | inl hmem =>
      cases hmem with
      | inl hafter => exact (List.pairwise_cons.mp (List.pairwise_append.mp hsorted).2.1).1 other hafter
      | inr hfailed =>
        obtain ⟨p, hp, rfl⟩ := List.mem_map.mp hfailed
        rw [hbatch.late p hp] at hunexpired
        cases hunexpired
    | inr hleft => exact hbatch.left item (by simp [hsplit]) other hleft
  · intro camera priority
    obtain ⟨gone, hgone, hsub⟩ := hrun.bucket priority.level (if camera = "" then "-" else camera)
    rw [ofCamera_ofKey, ofCamera_ofKey camera priority (along Output.accepted outputs), hgone]
    exact (hsub.trans (List.sublist_append_left _ _)).filter _

/-- Of two cameras, the one that waits longer first; the third item does not fit. -/
theorem two_cameras_in_turn :
    let cfg : Config := { name := "detect", capacity := 4, capacity_pos := Nat.succ_pos 3 }
    let window : BatchWindow :=
      { maxBatchSize := 2
        maxBatchSize_pos := Nat.succ_pos 1
        preferred_within := fun _ h => (List.not_mem_nil h).elim }
    let clock : Clock := ⟨0, 0, 0⟩
    let frame (camera : String) (id : Int) : WorkItem :=
      { request := { modelName := "detect", inputs := .empty, requestId := id, context := { cameraId := camera, frameId := id } } }
    let s := (run cfg {} [.put (frame "quay" 1) clock, .put (frame "quay" 2) clock, .put (frame "mast" 3) clock]).1
    (s.step cfg (.getBatch window clock)).2.reply = .batch [frame "quay" 1, frame "mast" 3] ∧
      ([frame "quay" 1, frame "mast" 3].map WorkItem.rows).sum ≤ 2 := by
  intro cfg window clock frame s
  have hbatch : (s.step cfg (.getBatch window clock)).2.reply = .batch [frame "quay" 1, frame "mast" 3] := by rfl
  refine ⟨hbatch, ?_⟩
  have hbudget := ((drain_order cfg [.put (frame "quay" 1) clock, .put (frame "quay" 2) clock,
    .put (frame "mast" 3) clock]).1 (.getBatch window clock) window clock _ rfl hbatch).1
  exact hbudget.resolve_right (by simp)

end FairPriorityQueue

end ShipInfer.Queue
