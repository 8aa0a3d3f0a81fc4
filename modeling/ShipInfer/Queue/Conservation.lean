import ShipInfer.Queue.Model

/-!
# Nothing is lost in the queue

Every piece moves items between the lanes and its output: what was in the lanes
and what `put` took is, item for item, what the piece let out and what the
lanes hold after it (`Conserves`). The counters follow the output.
-/

namespace ShipInfer.Queue

open scoped List

/-! ## Outputs -/

namespace Output

/-- All that leaves with an output. -/
def left (o : Output) : List WorkItem := o.delivered ++ o.evicted ++ o.expired ++ o.drained

theorem evicted_eq_nil {o : Output} (h : ∀ p ∈ o.failed, ∀ q d c, p.2 ≠ .full q d c) : o.evicted = [] := by
  apply List.filterMap_eq_nil_iff.mpr
  intro p hp
  obtain ⟨item, error⟩ := p
  cases error with
  | full q d c => exact absurd rfl (h _ hp q d c)
  | _ => rfl

theorem expired_eq_nil {o : Output} (h : ∀ p ∈ o.failed, p.2 ≠ .deadlinePassed) : o.expired = [] := by
  apply List.filterMap_eq_nil_iff.mpr
  intro p hp
  obtain ⟨item, error⟩ := p
  cases error with
  | deadlinePassed => exact absurd rfl (h _ hp)
  | _ => rfl

theorem expired_eq_map (reply : Reply) : ∀ {failed : List (WorkItem × QueueError)},
    (∀ p ∈ failed, p.2 = .deadlinePassed) → ({ reply := reply, failed := failed } : Output).expired = failed.map Prod.fst
  | [], _ => rfl
  | (item, error) :: failed, h => by
    have he : error = .deadlinePassed := h _ List.mem_cons_self
    subst he
    have ih := expired_eq_map reply fun p hp => h p (List.mem_cons_of_mem _ hp)
    unfold Output.expired at ih ⊢
    rw [List.filterMap_cons, ih]
    rfl

end Output

namespace FairPriorityQueue

/-! ## The lanes together -/

theorem flatMap_modify {item : WorkItem} {f : Lane → Lane} : ∀ {lanes : List Lane} {i : Nat}, i < lanes.length →
    (∀ lane ∈ lanes, (f lane).items.Perm (item :: lane.items)) →
    ((lanes.modify i f).flatMap Lane.items).Perm (item :: lanes.flatMap Lane.items)
  | [], _, h, _ => absurd h (Nat.not_lt_zero _)
  | lane :: lanes, 0, _, hf => by
    rw [List.modify_zero_cons, List.flatMap_cons, List.flatMap_cons]
    exact (hf lane List.mem_cons_self).append_right _
  | lane :: lanes, i + 1, h, hf => by
    rw [List.modify_succ_cons, List.flatMap_cons, List.flatMap_cons]
    have ih := flatMap_modify (Nat.lt_of_succ_lt_succ h) fun l hl => hf l (List.mem_cons_of_mem _ hl)
    exact (ih.append_left _).trans List.perm_middle

/-- Eviction finds nobody only where all lanes are empty. -/
theorem evictLowest_spec : ∀ {lanes : List Lane}, (∀ lane ∈ lanes, lane.Rep) →
    (evictLowest lanes = .ok none ∧ lanes.flatMap Lane.items = []) ∨
    ∃ victim lanes', evictLowest lanes = .ok (some (victim, lanes')) ∧ (∀ lane ∈ lanes', lane.Rep) ∧
      lanes'.length = lanes.length ∧ (lanes.flatMap Lane.items).Perm (victim :: lanes'.flatMap Lane.items)
  | [], _ => .inl ⟨rfl, rfl⟩
  | lane :: lanes, h => by
    have hlane := h lane List.mem_cons_self
    rcases evictLowest_spec fun l hl => h l (List.mem_cons_of_mem _ hl) with
      ⟨hnone, hempty⟩ | ⟨victim, lanes', hsome, hrep, hlen, hperm⟩
    · rcases hlane.evictFromLongest with ⟨hl, hsize⟩ | ⟨victim, lane', hl, hrep', hperm', -⟩
      · refine .inl ⟨by simp only [evictLowest, hnone, hl], ?_⟩
        rw [List.flatMap_cons, hempty, List.append_nil]
        exact List.eq_nil_of_length_eq_zero (hlane.size_eq.symm.trans hsize)
      · refine .inr ⟨victim, lane' :: lanes, by simp only [evictLowest, hnone, hl], ?_, rfl, ?_⟩
        · intro l hm
          rcases List.mem_cons.mp hm with rfl | hm
          · exact hrep'
          · exact h l (List.mem_cons_of_mem _ hm)
        · rw [List.flatMap_cons, List.flatMap_cons]
          exact hperm'.append_right _
    · refine .inr ⟨victim, lane :: lanes', by simp only [evictLowest, hsome], ?_, ?_, ?_⟩
      · intro l hm
        rcases List.mem_cons.mp hm with rfl | hm
        · exact hlane
        · exact hrep l hm
      · rw [List.length_cons, List.length_cons, hlen]
      · rw [List.flatMap_cons, List.flatMap_cons]
        exact (hperm.append_left _).trans List.perm_middle

/-! ## The drain -/

/-- What the drain has charged is what it has failed. -/
structure Drain.Sound (before : Nat) (d : Drain) : Prop where
  expired : d.expired = before + d.failed.length
  byCamera : d.expiredByCamera.total = d.expired
  reason : ∀ p ∈ d.failed, p.2 = .deadlinePassed

/-- All that the drain has let out. -/
def Drain.out (d : Drain) : List WorkItem := d.batch ++ d.failed.map Prod.fst

variable {cfg : Config} {now : Int} {maxRows before : Nat}

theorem Drain.Sound.take {d : Drain} (h : d.Sound before) (item : WorkItem) : (d.take item).Sound before :=
  ⟨h.expired, h.byCamera, h.reason⟩

theorem Drain.Sound.expire {d : Drain} (h : d.Sound before) (item : WorkItem) : (d.expire item).Sound before := by
  refine ⟨?_, ?_, fun p hp => ?_⟩
  · simp only [Drain.expire, List.length_append, List.length_singleton, h.expired, Nat.add_assoc]
  · simp only [Drain.expire, Counter.total_add, h.byCamera]
  · rcases List.mem_append.mp hp with hp | hp
    · exact h.reason p hp
    · rw [List.mem_singleton.mp hp]

theorem Drain.out_take (d : Drain) (item : WorkItem) : (d.take item).out.Perm (d.out ++ [item]) := by
  simp only [Drain.out, Drain.take, List.append_assoc]
  exact List.perm_append_comm.append_left _

theorem Drain.out_expire (d : Drain) (item : WorkItem) : (d.expire item).out.Perm (d.out ++ [item]) := by
  simp only [Drain.out, Drain.expire, List.map_append, List.append_assoc]
  exact .refl _

/-- What a loop of the drain leaves of its lane, or of its lanes. -/
structure Drained (before rest : Nat) (items items' : List WorkItem) (d d' : Drain) (exit : Exit) : Prop where
  sound : d'.Sound before
  perm : (d.out ++ items).Perm (d'.out ++ items')
  size : d'.size = items'.length + rest
  done : exit = .laneDone → items' = []
  exit : ∀ e, exit ≠ .raised e

theorem drainLane_spec {rest : Nat} : ∀ (n : Nat) {lane : Lane} {d : Drain}, lane.Rep → lane.size = n →
    d.Sound before → d.size = lane.items.length + rest →
    (drainLane cfg now maxRows n lane d).1.Rep ∧
      Drained before rest lane.items (drainLane cfg now maxRows n lane d).1.items d
        (drainLane cfg now maxRows n lane d).2.1 (drainLane cfg now maxRows n lane d).2.2
  | 0, _, _, hrep, hn, hd, hsize => ⟨hrep, hd, .refl _, hsize,
      fun _ => List.eq_nil_of_length_eq_zero (hrep.size_eq.symm.trans hn), fun _ => Exit.noConfusion⟩
  | n + 1, lane, d, hrep, hn, hd, hsize => by
    obtain ⟨item, lane', hpeek, hpop, hrep', hperm, hlane⟩ := hrep.pop (by omega)
    have hitems : lane.items.length = lane'.items.length + 1 := hperm.length_eq
    -- One item out, whichever way, and the rest of the loop.
    have hround : ∀ d' : Drain, d'.out.Perm (d.out ++ [item]) →
        (d.out ++ lane.items).Perm (d'.out ++ lane'.items) := by
      intro d' hout
      refine (hperm.append_left _).trans (.trans ?_ (hout.symm.append_right _))
      rw [List.append_assoc]
      exact .refl _
    have hmore : ∀ d' : Drain, d'.Sound before → d'.out.Perm (d.out ++ [item]) → d'.size = d.size - 1 →
        (drainLane cfg now maxRows n lane' d').1.Rep ∧
          Drained before rest lane.items (drainLane cfg now maxRows n lane' d').1.items d
            (drainLane cfg now maxRows n lane' d').2.1 (drainLane cfg now maxRows n lane' d').2.2 := by
      intro d' hd' hout hs
      obtain ⟨hr, ih⟩ := drainLane_spec n hrep' (by omega) hd' (show d'.size = lane'.items.length + rest by omega)
      exact ⟨hr, ih.sound, (hround d' hout).trans ih.perm, ih.size, ih.done, ih.exit⟩
    simp only [drainLane, hpeek, hpop]
    split
    · exact ⟨hrep, hd, .refl _, hsize, Exit.noConfusion, fun _ => Exit.noConfusion⟩
    split
    · exact hmore _ (hd.expire item) (d.out_expire item) rfl
    split
    · refine ⟨hrep', hd.take item, hround _ (d.out_take item), ?_, Exit.noConfusion, fun _ => Exit.noConfusion⟩
      show d.size - 1 = lane'.items.length + rest
      omega
    · exact hmore _ (hd.take item) (d.out_take item) rfl

theorem drainLanes_spec : ∀ (lanes : List Lane) {d : Drain}, (∀ lane ∈ lanes, lane.Rep) →
    d.Sound before → d.size = (lanes.flatMap Lane.items).length →
    (∀ lane ∈ (drainLanes cfg now maxRows lanes d).1, lane.Rep) ∧
      (drainLanes cfg now maxRows lanes d).1.length = lanes.length ∧
      Drained before 0 (lanes.flatMap Lane.items) ((drainLanes cfg now maxRows lanes d).1.flatMap Lane.items) d
        (drainLanes cfg now maxRows lanes d).2.1 (drainLanes cfg now maxRows lanes d).2.2
  | [], _, h, hd, hsize => ⟨h, rfl, hd, .refl _, hsize, fun _ => rfl, fun _ => Exit.noConfusion⟩
  | lane :: lanes, d, h, hd, hsize => by
    rw [List.flatMap_cons, List.length_append] at hsize
    obtain ⟨hrep, hlane⟩ := drainLane_spec lane.size
      (h lane List.mem_cons_self) rfl hd hsize
    unfold drainLanes
    generalize drainLane cfg now maxRows lane.size lane d = r at hrep hlane
    obtain ⟨lane', d', exit⟩ := r
    dsimp only at hrep hlane
    have hperm : (d.out ++ (lane :: lanes).flatMap Lane.items).Perm
        (d'.out ++ (lane'.items ++ lanes.flatMap Lane.items)) := by
      rw [List.flatMap_cons, ← List.append_assoc, ← List.append_assoc]
      exact hlane.perm.append_right _
    have hall : ∀ lanes' : List Lane, (∀ l ∈ lanes', l.Rep) → ∀ l ∈ lane' :: lanes', l.Rep := by
      intro lanes' hl l hm
      rcases List.mem_cons.mp hm with rfl | hm
      · exact hrep
      · exact hl l hm
    have hrest : ∀ l ∈ lanes, l.Rep := fun l hl => h l (List.mem_cons_of_mem _ hl)
    cases exit with
    | raised e => exact absurd rfl (hlane.exit e)
    | returned =>
      refine ⟨hall lanes hrest, rfl, hlane.sound, hperm, ?_, Exit.noConfusion, hlane.exit⟩
      rw [List.flatMap_cons, List.length_append]
      exact hlane.size
    | laneDone =>
      dsimp only
      have hempty := hlane.done rfl
      have hsize' := hlane.size
      rw [hempty, List.length_nil, Nat.zero_add] at hsize'
      obtain ⟨hreps, hlen, ih⟩ := drainLanes_spec lanes hrest hlane.sound hsize'
      rw [hempty] at hperm
      refine ⟨hall _ hreps, congrArg (· + 1) hlen, ih.sound, ?_, ?_, fun he => ?_, ih.exit⟩
      · show (d.out ++ (lane :: lanes).flatMap Lane.items).Perm (_ ++ (lane'.items ++ _))
        rw [hempty]
        exact hperm.trans ih.perm
      · rw [List.flatMap_cons, hempty]
        exact ih.size
      · rw [List.flatMap_cons, hempty]
        exact ih.done he

/-! ## Pieces -/

structure Inv (cfg : Config) (s : FairPriorityQueue) : Prop where
  levels : s.lanes.length = priorityLevels
  rep : ∀ lane ∈ s.lanes, lane.Rep
  size : s.size = s.items.length
  bounded : s.size ≤ cfg.capacity
  rejected : s.rejectedByCamera.total = s.rejected
  evicted : s.evictedByCamera.total = s.evicted
  expired : s.expiredByCamera.total = s.expired

/-- A piece loses nothing, counts what it does, and raises nothing of its own. -/
structure Conserves (cfg : Config) (s : FairPriorityQueue) (a : Answer) : Prop where
  inv : a.1.Inv cfg
  items : (s.items ++ a.2.accepted).Perm (a.2.left ++ a.1.items)
  accepted : a.1.accepted = s.accepted + a.2.accepted.length
  evicted : a.1.evicted = s.evicted + a.2.evicted.length
  expired : a.1.expired = s.expired + a.2.expired.length
  raises : ∀ e, a.2.reply ≠ .raised e

section
variable {s : FairPriorityQueue}

theorem items_enqueue (h : s.lanes.length = priorityLevels) (hrep : ∀ lane ∈ s.lanes, lane.Rep) (item : WorkItem) :
    (s.enqueue item).items.Perm (item.stamped :: s.items) :=
  flatMap_modify (h ▸ item.request.priority.level_lt) fun lane hl => ((hrep lane hl).push _).2.1

theorem Inv.enqueue (h : s.Inv cfg) (hroom : s.size < cfg.capacity) (item : WorkItem) : (s.enqueue item).Inv cfg := by
  refine ⟨?_, fun lane hl => ?_, ?_, hroom, h.rejected, h.evicted, h.expired⟩
  · rw [FairPriorityQueue.enqueue, List.length_modify, h.levels]
  · obtain ⟨i, hi, rfl⟩ := List.mem_iff_getElem.mp hl
    rw [FairPriorityQueue.enqueue, List.length_modify] at hi
    simp only [FairPriorityQueue.enqueue, List.getElem_modify]
    split
    · exact ((h.rep _ (List.getElem_mem hi)).push _).1
    · exact h.rep _ (List.getElem_mem hi)
  · rw [(items_enqueue h.levels h.rep item).length_eq, List.length_cons, ← h.size]
    rfl

theorem Inv.accept (h : s.Inv cfg) (hroom : s.size < cfg.capacity) (item : WorkItem) :
    Conserves cfg s (s.accept item []) :=
  ⟨h.enqueue hroom item, List.perm_append_comm.trans (items_enqueue h.levels h.rep item).symm, rfl, rfl, rfl,
    fun _ => Reply.noConfusion⟩

/-- A piece that takes nothing and lets nothing out. -/
theorem Inv.still (h : s.Inv cfg) {reply : Reply} (ha : ({ reply := reply } : Output).accepted = [])
    (hl : ({ reply := reply } : Output).left = []) (hr : ∀ e, reply ≠ .raised e) : Conserves cfg s (s, { reply := reply }) := by
  refine ⟨h, ?_, ?_, rfl, rfl, hr⟩
  · rw [ha, hl, List.append_nil]; exact .refl _
  · rw [ha]; rfl

theorem Inv.reject (h : s.Inv cfg) (item : WorkItem) : Conserves cfg s (reject cfg s item) := by
  refine ⟨⟨h.levels, h.rep, h.size, h.bounded, ?_, h.evicted, h.expired⟩, ?_, rfl, rfl, rfl, fun _ => Reply.noConfusion⟩
  · simp only [FairPriorityQueue.reject, Counter.total_add, h.rejected]
  · exact (List.append_nil _).symm ▸ .refl _

/-- Who sleeps does not matter to the items. -/
theorem Conserves.of_sleepers {producers : List (WorkItem × Int)} {consumers : List Waiting} {a : Answer}
    (h : Conserves cfg { s with producers := producers, consumers := consumers } a) : Conserves cfg s a :=
  ⟨h.inv, h.items, h.accepted, h.evicted, h.expired, h.raises⟩

theorem Inv.sleepers (h : s.Inv cfg) (producers : List (WorkItem × Int)) (consumers : List Waiting) :
    ({ s with producers := producers, consumers := consumers } : FairPriorityQueue).Inv cfg :=
  ⟨h.levels, h.rep, h.size, h.bounded, h.rejected, h.evicted, h.expired⟩

theorem Inv.dropOldest (h : s.Inv cfg) (hfull : ¬s.size < cfg.capacity) (item : WorkItem) :
    Conserves cfg s (dropOldest cfg s item) := by
  unfold FairPriorityQueue.dropOldest
  rcases evictLowest_spec h.rep with ⟨hnone, -⟩ | ⟨victim, lanes, hsome, hrep, hlen, hperm⟩
  · rw [hnone]
    exact h.reject item
  · rw [hsome]
    dsimp only
    have hsize : s.size = (lanes.flatMap Lane.items).length + 1 := h.size.trans hperm.length_eq
    have hbound := h.bounded
    have hinv : ({ s with
        lanes := lanes
        size := s.size - 1
        evicted := s.evicted + 1
        evictedByCamera := s.evictedByCamera.add victim.fairnessKey 1 } : FairPriorityQueue).Inv cfg := by
      refine ⟨hlen.trans h.levels, hrep, ?_, ?_, h.rejected, ?_, h.expired⟩
      · show s.size - 1 = (lanes.flatMap Lane.items).length
        omega
      · exact (Nat.sub_le _ _).trans hbound
      · simp only [Counter.total_add, h.evicted]
    have hroom : s.size - 1 < cfg.capacity := by omega
    have ha := hinv.accept hroom item
    refine ⟨ha.inv, ?_, ha.accepted, rfl, rfl, fun _ => Reply.noConfusion⟩
    exact (hperm.append_right _).trans (ha.items.cons victim)

theorem Inv.blockLocked (h : s.Inv cfg) (item : WorkItem) (deadline : Int) (clock : Clock) :
    Conserves cfg s (blockLocked cfg s item deadline clock) := by
  unfold FairPriorityQueue.blockLocked
  split
  · split
    · exact h.reject item
    · exact .of_sleepers ((h.sleepers _ _).still rfl rfl fun _ => Reply.noConfusion)
  · rename_i hwait
    split
    · exact h.still rfl rfl fun _ => Reply.noConfusion
    · rename_i hopen
      rw [Bool.not_eq_true] at hopen
      exact h.accept (by simpa [hopen] using hwait) item

theorem Inv.put (h : s.Inv cfg) (item : WorkItem) (clock : Clock) : Conserves cfg s (s.put cfg item clock) := by
  unfold FairPriorityQueue.put
  split
  · exact h.still rfl rfl fun _ => Reply.noConfusion
  split
  · rename_i hroom
    exact h.accept hroom item
  · rename_i hfull
    cases cfg.overflow with
    | reject => exact h.reject item
    | block => exact h.blockLocked item _ clock
    | dropOldest => exact h.dropOldest hfull item

theorem Inv.drainLocked (h : s.Inv cfg) (maxRows : Nat) (now : Int) : Conserves cfg s (s.drainLocked cfg maxRows now) := by
  have hd : Drain.Sound s.expired { size := s.size, expired := s.expired, expiredByCamera := s.expiredByCamera } :=
    ⟨rfl, h.expired, fun _ hp => by cases hp⟩
  obtain ⟨hrep, hlen, hdrained⟩ := drainLanes_spec s.lanes h.rep hd h.size
  unfold FairPriorityQueue.drainLocked
  dsimp only
  generalize drainLanes cfg now maxRows s.lanes _ = r at hrep hlen hdrained ⊢
  obtain ⟨lanes, d, exit⟩ := r
  dsimp only at hrep hlen hdrained ⊢
  have hlength := hdrained.perm.length_eq
  have hbound := h.bounded
  have hsize := hdrained.size
  have hstart := h.size
  simp only [Drain.out, List.length_append, List.map_nil, List.length_nil, items] at hlength hstart
  have hinv : ({ s with
      lanes := lanes
      size := d.size
      expired := d.expired
      expiredByCamera := d.expiredByCamera } : FairPriorityQueue).Inv cfg :=
    ⟨hlen.trans h.levels, hrep, hsize, show d.size ≤ cfg.capacity by omega, h.rejected, h.evicted, hdrained.sound.byCamera⟩
  have hanswer : Conserves cfg s ({ s with
      lanes := lanes
      size := d.size
      expired := d.expired
      expiredByCamera := d.expiredByCamera }, { reply := .batch d.batch, failed := d.failed }) := by
    have hexpired := Output.expired_eq_map (.batch d.batch) hdrained.sound.reason
    have hevicted : ({ reply := .batch d.batch, failed := d.failed } : Output).evicted = [] :=
      Output.evicted_eq_nil fun p hp q n c he => by
        rw [hdrained.sound.reason p hp] at he; cases he
    refine ⟨hinv, ?_, rfl, ?_, ?_, fun _ => Reply.noConfusion⟩
    · rw [Output.left, hexpired, hevicted]
      show (s.lanes.flatMap Lane.items ++ []).Perm _
      rw [List.append_nil, List.append_nil]
      refine hdrained.perm.trans ?_
      simp only [Drain.out, Output.delivered, Output.drained, List.append_nil]
      exact .refl _
    · rw [hevicted]; rfl
    · rw [hexpired, List.length_map]
      exact hdrained.sound.expired
  cases exit with
  | raised e => exact absurd rfl (hdrained.exit e)
  | returned => exact hanswer
  | laneDone => exact hanswer

theorem Inv.fillLocked (h : s.Inv cfg) (window : BatchWindow) (deadline : Int) (clock : Clock) :
    Conserves cfg s (s.fillLocked cfg window deadline clock) := by
  unfold FairPriorityQueue.fillLocked
  split
  · exact .of_sleepers ((h.sleepers _ _).still rfl rfl fun _ => Reply.noConfusion)
  · exact h.drainLocked _ _

theorem Inv.getBatch (h : s.Inv cfg) (window : BatchWindow) (clock : Clock) :
    Conserves cfg s (s.getBatch cfg window clock) := by
  unfold FairPriorityQueue.getBatch
  split
  · split
    · exact h.still rfl rfl fun _ => Reply.noConfusion
    · exact .of_sleepers ((h.sleepers _ _).still rfl rfl fun _ => Reply.noConfusion)
  split
  · exact h.fillLocked window _ clock
  · exact h.drainLocked _ _

theorem Inv.close (h : s.Inv cfg) (error : Option String) : Conserves cfg s (s.close cfg error) := by
  have hitems : (s.close cfg error).1.items = [] := by
    unfold FairPriorityQueue.items FairPriorityQueue.close
    rw [List.flatMap_map]
    exact List.flatMap_eq_nil_iff.mpr fun _ _ => rfl
  have hreason : ∀ p ∈ (s.close cfg error).2.failed, p.2 = closeReason cfg error := by
    intro p hp
    obtain ⟨item, -, rfl⟩ := List.mem_map.mp hp
    rfl
  have hevicted : (s.close cfg error).2.evicted = [] := Output.evicted_eq_nil fun p hp q n c he => by
    rw [hreason p hp] at he
    cases error <;> cases he
  have hexpired : (s.close cfg error).2.expired = [] := Output.expired_eq_nil fun p hp he => by
    rw [hreason p hp] at he
    cases error <;> cases he
  refine ⟨⟨?_, fun lane hl => ?_, ?_, Nat.zero_le _, h.rejected, h.evicted, h.expired⟩, ?_, rfl, ?_, ?_,
    fun _ => Reply.noConfusion⟩
  · exact (List.length_map _).trans h.levels
  · obtain ⟨_, -, rfl⟩ := List.mem_map.mp hl
    exact Lane.rep_empty
  · rw [hitems]; rfl
  · rw [Output.left, hevicted, hexpired, hitems]
    exact .refl _
  · rw [hevicted]; rfl
  · rw [hexpired]; rfl

/-- **Every piece conserves.** -/
theorem Inv.step (h : s.Inv cfg) (e : Event) : Conserves cfg s (s.step cfg e) := by
  cases e with
  | put item clock => exact h.put item clock
  | putWakes i clock =>
    simp only [FairPriorityQueue.step, putWakes]
    split
    · exact h.still rfl rfl fun _ => Reply.noConfusion
    · exact .of_sleepers ((h.sleepers _ _).blockLocked _ _ clock)
  | getBatch window clock => exact h.getBatch window clock
  | getBatchWakes i clock =>
    simp only [FairPriorityQueue.step, getBatchWakes]
    split
    · exact h.still rfl rfl fun _ => Reply.noConfusion
    · exact .of_sleepers ((h.sleepers _ _).getBatch _ clock)
    · exact .of_sleepers ((h.sleepers _ _).fillLocked _ _ clock)
  | close error => exact h.close error

theorem inv_empty (cfg : Config) : Inv cfg {} := by
  have hlane : ∀ lane ∈ List.replicate priorityLevels ({} : Lane), lane = {} := fun lane hl => List.eq_of_mem_replicate hl
  refine ⟨rfl, fun lane hl => ?_, rfl, Nat.zero_le _, rfl, rfl, rfl⟩
  rw [hlane lane hl]
  exact Lane.rep_empty

end

/-! ## Runs -/

/-- From any state of the invariant, over any run. -/
theorem run_conserves : ∀ (events : List Event) {s : FairPriorityQueue}, s.Inv cfg →
    (run cfg s events).1.Inv cfg ∧
    (s.items ++ along Output.accepted (run cfg s events).2).Perm
      (along Output.left (run cfg s events).2 ++ (run cfg s events).1.items) ∧
    (run cfg s events).1.accepted = s.accepted + (along Output.accepted (run cfg s events).2).length ∧
    (run cfg s events).1.evicted = s.evicted + (along Output.evicted (run cfg s events).2).length ∧
    (run cfg s events).1.expired = s.expired + (along Output.expired (run cfg s events).2).length
  | [], s, h => ⟨h, by rw [show along Output.accepted (run cfg s []).2 = [] from rfl, List.append_nil]; exact .refl _,
      rfl, rfl, rfl⟩
  | e :: events, s, h => by
    have hstep := h.step e
    obtain ⟨hinv, hperm, hacc, hev, hex⟩ := run_conserves events hstep.inv
    have hcons : ∀ part, along part (run cfg s (e :: events)).2 =
        part (s.step cfg e).2 ++ along part (run cfg (s.step cfg e).1 events).2 := fun part => List.flatMap_cons
    simp only [hcons, List.length_append]
    refine ⟨hinv, ?_, ?_, ?_, ?_⟩
    · calc s.items ++ ((s.step cfg e).2.accepted ++ along Output.accepted (run cfg (s.step cfg e).1 events).2)
          = (s.items ++ (s.step cfg e).2.accepted) ++ along Output.accepted (run cfg (s.step cfg e).1 events).2 :=
            (List.append_assoc _ _ _).symm
        _ ~ ((s.step cfg e).2.left ++ (s.step cfg e).1.items) ++
            along Output.accepted (run cfg (s.step cfg e).1 events).2 := hstep.items.append_right _
        _ = (s.step cfg e).2.left ++ ((s.step cfg e).1.items ++
            along Output.accepted (run cfg (s.step cfg e).1 events).2) := List.append_assoc _ _ _
        _ ~ (s.step cfg e).2.left ++ (along Output.left (run cfg (s.step cfg e).1 events).2 ++
            (run cfg (s.step cfg e).1 events).1.items) := hperm.append_left _
        _ = ((s.step cfg e).2.left ++ along Output.left (run cfg (s.step cfg e).1 events).2) ++
            (run cfg (s.step cfg e).1 events).1.items := (List.append_assoc _ _ _).symm
    · rw [← Nat.add_assoc, ← hstep.accepted]; exact hacc
    · rw [← Nat.add_assoc, ← hstep.evicted]; exact hev
    · rw [← Nat.add_assoc, ← hstep.expired]; exact hex

theorem depth_by_camera {lanes : List Lane} (h : ∀ lane ∈ lanes, lane.Rep) (c : Counter String) :
    (lanes.foldl (fun depths lane => depths.update lane.depths) c).total =
      c.total + (lanes.flatMap Lane.items).length := by
  induction lanes generalizing c with
  | nil => rfl
  | cons lane lanes ih =>
    have hlane : lane.depths.total = lane.items.length := by
      rw [← (h lane List.mem_cons_self).size_eq, (h lane List.mem_cons_self).size]
      simp only [Counter.total, Lane.depths, Dict.values, Dict.entries_mapValues, List.map_map]
      rfl
    rw [List.foldl_cons, ih (fun l hl => h l (List.mem_cons_of_mem _ hl)), Counter.total_update, hlane,
      List.flatMap_cons, List.length_append, Nat.add_assoc]

/-- An item that was taken left in one way, once, or is still in the lanes. -/
theorem along_left (outputs : List Output) :
    along Output.left outputs ~ along Output.delivered outputs ++ along Output.evicted outputs ++
      along Output.expired outputs ++ along Output.drained outputs := by
  unfold along
  refine (List.flatMap_append_perm _ _ _).symm.trans (.append_right _ ?_)
  refine (List.flatMap_append_perm _ _ _).symm.trans (.append_right _ ?_)
  exact (List.flatMap_append_perm _ _ _).symm

/-- **Conservation.** Whatever the capacity, the policy and the interleaving. -/
theorem queue_conserves (cfg : Config) (events : List Event) :
    let s := (run cfg {} events).1
    let outputs := (run cfg {} events).2
    s.size ≤ cfg.capacity ∧
    along Output.accepted outputs ~ along Output.delivered outputs ++ along Output.evicted outputs ++
      along Output.expired outputs ++ along Output.drained outputs ++ s.items ∧
    s.accepted = (along Output.delivered outputs).length + s.evicted + s.expired +
      (along Output.drained outputs).length + s.size ∧
    (s.stats cfg).rejectedByCamera.total = s.rejected ∧
    (s.stats cfg).evictedByCamera.total = s.evicted ∧
    (s.stats cfg).expiredByCamera.total = s.expired ∧
    (s.stats cfg).depthByCamera.total = s.size ∧
    s.lanes.length = priorityLevels ∧ ∀ lane ∈ s.lanes, lane.Rep := by
  intro s outputs
  obtain ⟨hinv, hperm, hacc, hev, hex⟩ := run_conserves events (inv_empty cfg)
  have hitems : along Output.accepted outputs ~ along Output.delivered outputs ++ along Output.evicted outputs ++
      along Output.expired outputs ++ along Output.drained outputs ++ s.items :=
    hperm.trans ((along_left outputs).append_right _)
  have hlength := hitems.length_eq
  simp only [List.length_append] at hlength
  have hacc : s.accepted = 0 + (along Output.accepted outputs).length := hacc
  have hev : s.evicted = 0 + (along Output.evicted outputs).length := hev
  have hex : s.expired = 0 + (along Output.expired outputs).length := hex
  have hsize : s.size = s.items.length := hinv.size
  refine ⟨hinv.bounded, hitems, ?_, hinv.rejected, hinv.evicted, hinv.expired, ?_, hinv.levels, hinv.rep⟩
  · omega
  · exact (depth_by_camera hinv.rep _).trans (by rw [hsize]; exact Nat.zero_add _)

/-! ## Whom a piece fails -/

theorem evicted_expired_perm (reply : Reply) : ∀ {failed : List (WorkItem × QueueError)},
    (∀ p ∈ failed, (∃ q d c, p.2 = .full q d c) ∨ p.2 = .deadlinePassed) →
      (({ reply := reply, failed := failed } : Output).evicted ++
        ({ reply := reply, failed := failed } : Output).expired).Perm (failed.map Prod.fst)
  | [], _ => .refl _
  | (item, error) :: failed, h => by
    have ih := evicted_expired_perm reply fun p hp => h p (List.mem_cons_of_mem _ hp)
    rcases h _ List.mem_cons_self with ⟨q, d, c, he⟩ | he
    · dsimp only at he
      subst he
      exact ih.cons item
    · dsimp only at he
      subst he
      exact List.perm_middle.trans (ih.cons item)

/-- All that leaves with an output is delivered or failed. -/
theorem left_perm {reply : Reply} {failed : List (WorkItem × QueueError)}
    (hd : ({ reply := reply, failed := failed } : Output).drained = [])
    (h : ∀ p ∈ failed, (∃ q d c, p.2 = .full q d c) ∨ p.2 = .deadlinePassed) :
    ({ reply := reply, failed := failed } : Output).left.Perm
      (({ reply := reply, failed := failed } : Output).delivered ++ failed.map Prod.fst) := by
  unfold Output.left
  rw [hd, List.append_nil, List.append_assoc]
  exact (evicted_expired_perm reply h).append_left _

section
variable {s : FairPriorityQueue}

theorem left_perm_quiet {reply : Reply} (hd : ({ reply := reply } : Output).drained = []) :
    ({ reply := reply } : Output).left.Perm (({ reply := reply } : Output).delivered ++ []) :=
  left_perm hd fun _ hp => (List.not_mem_nil hp).elim

theorem left_blockLocked (s : FairPriorityQueue) (item : WorkItem) (deadline : Int) (clock : Clock) :
    (s.blockLocked cfg item deadline clock).2.left.Perm ((s.blockLocked cfg item deadline clock).2.delivered ++
      (s.blockLocked cfg item deadline clock).2.failed.map Prod.fst) := by
  unfold blockLocked
  split
  · split <;> exact left_perm_quiet rfl
  · split <;> exact left_perm_quiet rfl

theorem left_put (s : FairPriorityQueue) (item : WorkItem) (clock : Clock) :
    (s.put cfg item clock).2.left.Perm
      ((s.put cfg item clock).2.delivered ++ (s.put cfg item clock).2.failed.map Prod.fst) := by
  unfold put
  split
  · exact left_perm_quiet rfl
  split
  · exact left_perm_quiet rfl
  · cases cfg.overflow with
    | reject => exact left_perm_quiet rfl
    | block => exact left_blockLocked s item _ clock
    | dropOldest =>
      dsimp only
      unfold dropOldest
      split
      · exact left_perm_quiet rfl
      · exact left_perm_quiet rfl
      · refine left_perm rfl fun p hp => ?_
        rw [List.mem_singleton.mp hp]
        exact .inl ⟨_, _, _, rfl⟩

theorem left_drainLocked (h : s.Inv cfg) (maxRows : Nat) (now : Int) :
    (s.drainLocked cfg maxRows now).2.left.Perm ((s.drainLocked cfg maxRows now).2.delivered ++
      (s.drainLocked cfg maxRows now).2.failed.map Prod.fst) := by
  have hd : Drain.Sound s.expired { size := s.size, expired := s.expired, expiredByCamera := s.expiredByCamera } :=
    ⟨rfl, h.expired, fun _ hp => by cases hp⟩
  obtain ⟨-, -, hdrained⟩ := drainLanes_spec s.lanes h.rep hd h.size
  unfold drainLocked
  dsimp only
  split
  · exact left_perm rfl fun p hp => .inr (hdrained.sound.reason p hp)
  · exact left_perm rfl fun p hp => .inr (hdrained.sound.reason p hp)

theorem left_fillLocked (h : s.Inv cfg) (window : BatchWindow) (deadline : Int) (clock : Clock) :
    (s.fillLocked cfg window deadline clock).2.left.Perm ((s.fillLocked cfg window deadline clock).2.delivered ++
      (s.fillLocked cfg window deadline clock).2.failed.map Prod.fst) := by
  unfold fillLocked
  split
  · exact left_perm_quiet rfl
  · exact left_drainLocked h _ _

theorem left_getBatch (h : s.Inv cfg) (window : BatchWindow) (clock : Clock) :
    (s.getBatch cfg window clock).2.left.Perm ((s.getBatch cfg window clock).2.delivered ++
      (s.getBatch cfg window clock).2.failed.map Prod.fst) := by
  unfold getBatch
  split
  · split <;> exact left_perm_quiet rfl
  split
  · exact left_fillLocked h window _ clock
  · exact left_drainLocked h _ _

theorem left_close (s : FairPriorityQueue) (error : Option String) :
    (s.close cfg error).2.left.Perm ((s.close cfg error).2.delivered ++ (s.close cfg error).2.failed.map Prod.fst) := by
  have hmap : (s.close cfg error).2.failed.map Prod.fst = (s.close cfg error).2.drained := by
    simp only [close, List.map_map, Output.drained]
    exact List.map_id _
  have hreason : ∀ p ∈ (s.close cfg error).2.failed, p.2 = closeReason cfg error := by
    intro p hp
    obtain ⟨item, -, rfl⟩ := List.mem_map.mp hp
    rfl
  have hevicted : (s.close cfg error).2.evicted = [] := Output.evicted_eq_nil fun p hp q n c he => by
    rw [hreason p hp] at he
    cases error <;> cases he
  have hexpired : (s.close cfg error).2.expired = [] := Output.expired_eq_nil fun p hp he => by
    rw [hreason p hp] at he
    cases error <;> cases he
  rw [hmap, Output.left, hevicted, hexpired, List.append_nil, List.append_nil]

theorem left_step (h : s.Inv cfg) (e : Event) :
    (s.step cfg e).2.left.Perm ((s.step cfg e).2.delivered ++ (s.step cfg e).2.failed.map Prod.fst) := by
  cases e with
  | put item clock => exact left_put s item clock
  | putWakes i clock =>
    simp only [FairPriorityQueue.step, putWakes]
    split
    · exact left_perm_quiet rfl
    · exact left_blockLocked _ _ _ clock
  | getBatch window clock => exact left_getBatch h window clock
  | getBatchWakes i clock =>
    simp only [FairPriorityQueue.step, getBatchWakes]
    split
    · exact left_perm_quiet rfl
    · exact left_getBatch (h.sleepers _ _) _ clock
    · exact left_fillLocked (h.sleepers _ _) _ _ clock
  | close error => exact left_close s error

/-! ## What a caller is told -/

/-- A reply to a producer. -/
def ToProducer : Reply → Prop
  | .accepted _ | .refused _ _ | .asleep | .raised _ | .idle => True
  | .batch _ | .drained _ => False

/-- A reply to a consumer. -/
def ToConsumer : Reply → Prop
  | .batch _ | .asleep | .raised _ | .idle => True
  | .accepted _ | .refused _ _ | .drained _ => False

theorem toProducer_blockLocked (s : FairPriorityQueue) (item : WorkItem) (deadline : Int) (clock : Clock) :
    ToProducer (s.blockLocked cfg item deadline clock).2.reply := by
  unfold blockLocked
  split
  · split <;> trivial
  · split <;> trivial

theorem toProducer_put (s : FairPriorityQueue) (item : WorkItem) (clock : Clock) : ToProducer (s.put cfg item clock).2.reply := by
  unfold put
  split
  · trivial
  split
  · trivial
  · cases cfg.overflow with
    | reject => trivial
    | block => exact toProducer_blockLocked s item _ clock
    | dropOldest =>
      dsimp only
      unfold dropOldest
      split <;> trivial

theorem toProducer_putWakes (s : FairPriorityQueue) (i : Nat) (clock : Clock) :
    ToProducer (s.putWakes cfg i clock).2.reply := by
  unfold putWakes
  split
  · trivial
  · exact toProducer_blockLocked _ _ _ clock

theorem toConsumer_drainLocked (s : FairPriorityQueue) (maxRows : Nat) (now : Int) :
    ToConsumer (s.drainLocked cfg maxRows now).2.reply := by
  unfold drainLocked
  dsimp only
  split <;> trivial

theorem toConsumer_fillLocked (s : FairPriorityQueue) (window : BatchWindow) (deadline : Int) (clock : Clock) :
    ToConsumer (s.fillLocked cfg window deadline clock).2.reply := by
  unfold fillLocked
  split
  · trivial
  · exact toConsumer_drainLocked s _ _

theorem toConsumer_getBatch (s : FairPriorityQueue) (window : BatchWindow) (clock : Clock) :
    ToConsumer (s.getBatch cfg window clock).2.reply := by
  unfold getBatch
  split
  · split <;> trivial
  split
  · exact toConsumer_fillLocked s window _ clock
  · exact toConsumer_drainLocked s _ _

theorem toConsumer_getBatchWakes (s : FairPriorityQueue) (i : Nat) (clock : Clock) :
    ToConsumer (s.getBatchWakes cfg i clock).2.reply := by
  unfold getBatchWakes
  split
  · trivial
  · exact toConsumer_getBatch _ _ clock
  · exact toConsumer_fillLocked _ _ _ clock

theorem delivered_of_producer {o : Output} (h : ToProducer o.reply) : o.delivered = [] ∧ o.drained = [] := by
  obtain ⟨reply, failed⟩ := o
  cases reply with
  | batch items | drained items => exact h.elim
  | _ => exact ⟨rfl, rfl⟩

theorem accepted_of_consumer {o : Output} (h : ToConsumer o.reply) : o.accepted = [] ∧ o.drained = [] := by
  obtain ⟨reply, failed⟩ := o
  cases reply with
  | accepted item | refused item error | drained items => exact h.elim
  | _ => exact ⟨rfl, rfl⟩

/-! ## Closed -/

/-- A piece other than `close` leaves the queue open or closed as it is, and takes
nothing when it is closed. -/
structure Latched (s : FairPriorityQueue) (a : Answer) : Prop where
  closed : a.1.closed = s.closed
  refuses : s.closed = true → a.2.accepted = []

theorem Latched.of_sleepers {producers : List (WorkItem × Int)} {consumers : List Waiting} {a : Answer}
    (h : Latched { s with producers := producers, consumers := consumers } a) : Latched s a :=
  ⟨h.closed, h.refuses⟩

theorem latched_blockLocked (s : FairPriorityQueue) (item : WorkItem) (deadline : Int) (clock : Clock) :
    Latched s (s.blockLocked cfg item deadline clock) := by
  unfold blockLocked
  split
  · split <;> exact ⟨rfl, fun _ => rfl⟩
  · split
    · exact ⟨rfl, fun _ => rfl⟩
    · exact ⟨rfl, fun h => absurd h ‹_›⟩

theorem latched_put (s : FairPriorityQueue) (item : WorkItem) (clock : Clock) : Latched s (s.put cfg item clock) := by
  unfold put
  split
  · exact ⟨rfl, fun _ => rfl⟩
  · rename_i hopen
    split
    · exact ⟨rfl, fun h => absurd h hopen⟩
    · cases cfg.overflow with
      | reject => exact ⟨rfl, fun _ => rfl⟩
      | block => exact latched_blockLocked s item _ clock
      | dropOldest =>
        dsimp only
        unfold dropOldest
        split <;> exact ⟨rfl, fun h => absurd h hopen⟩

theorem latched_drainLocked (s : FairPriorityQueue) (maxRows : Nat) (now : Int) :
    Latched s (s.drainLocked cfg maxRows now) := by
  unfold drainLocked
  dsimp only
  split <;> exact ⟨rfl, fun _ => rfl⟩

theorem latched_fillLocked (s : FairPriorityQueue) (window : BatchWindow) (deadline : Int) (clock : Clock) :
    Latched s (s.fillLocked cfg window deadline clock) := by
  unfold fillLocked
  split
  · exact ⟨rfl, fun _ => rfl⟩
  · exact latched_drainLocked s _ _

theorem latched_getBatch (s : FairPriorityQueue) (window : BatchWindow) (clock : Clock) :
    Latched s (s.getBatch cfg window clock) := by
  unfold getBatch
  split
  · split <;> exact ⟨rfl, fun _ => rfl⟩
  split
  · exact latched_fillLocked s window _ clock
  · exact latched_drainLocked s _ _

theorem latched_step (s : FairPriorityQueue) {e : Event} (h : ∀ error, e ≠ .close error) : Latched s (s.step cfg e) := by
  cases e with
  | put item clock => exact latched_put s item clock
  | putWakes i clock =>
    simp only [FairPriorityQueue.step, putWakes]
    split
    · exact ⟨rfl, fun _ => rfl⟩
    · exact .of_sleepers (latched_blockLocked { s with producers := s.producers.eraseIdx i } _ _ clock)
  | getBatch window clock => exact latched_getBatch s window clock
  | getBatchWakes i clock =>
    simp only [FairPriorityQueue.step, getBatchWakes]
    split
    · exact ⟨rfl, fun _ => rfl⟩
    · exact .of_sleepers (latched_getBatch { s with consumers := s.consumers.eraseIdx i } _ clock)
    · exact .of_sleepers (latched_fillLocked { s with consumers := s.consumers.eraseIdx i } _ _ clock)
  | close error => exact absurd rfl (h error)

theorem close_items (s : FairPriorityQueue) (error : Option String) : (s.close cfg error).1.items = [] := by
  unfold items close
  rw [List.flatMap_map]
  exact List.flatMap_eq_nil_iff.mpr fun _ _ => rfl

/-- A closed queue is empty, and so it stays. -/
theorem closed_step (hi : s.Inv cfg) (hs : s.closed = true → s.items = []) (e : Event) :
    ((s.step cfg e).1.closed = true → (s.step cfg e).1.items = []) ∧ (s.closed = true → (s.step cfg e).1.closed = true) ∧
      (s.closed = true → (s.step cfg e).2.left = []) := by
  by_cases he : ∃ error, e = .close error
  · obtain ⟨error, rfl⟩ := he
    refine ⟨fun _ => close_items s error, fun _ => rfl, fun hc => ?_⟩
    have hperm := (hi.step (.close error)).items
    rw [hs hc] at hperm
    exact (List.append_eq_nil_iff.mp hperm.symm.eq_nil).1
  · have hl : Latched s (s.step cfg e) := latched_step s fun error h => he ⟨error, h⟩
    have hnil : s.closed = true → (s.step cfg e).2.left = [] ∧ (s.step cfg e).1.items = [] := by
      intro hc
      have hperm := (hi.step e).items
      rw [hs hc, hl.refuses hc] at hperm
      exact List.append_eq_nil_iff.mp hperm.symm.eq_nil
    exact ⟨fun hc => (hnil (hl.closed ▸ hc)).2, fun hc => hl.closed.trans hc, fun hc => (hnil hc).1⟩

/-! ## Who offers an item -/

def requestIds (items : List WorkItem) : List Int := items.map (·.request.requestId)

/-- The requests of the producers asleep. -/
def sleeping (s : FairPriorityQueue) : List Int := s.producers.map (·.1.request.requestId)

/-- The requests a piece offers the queue. -/
def offered : Event → List Int
  | .put item _ => [item.request.requestId]
  | _ => []

/-- A piece takes or parks only what is offered to it, and only once. -/
def Parks (s : FairPriorityQueue) (new : List Int) (a : Answer) : Prop :=
  (requestIds a.2.accepted ++ a.1.sleeping).Subperm (s.sleeping ++ new)

theorem parks_still (s : FairPriorityQueue) (new : List Int) {a : Answer} (ha : a.2.accepted = [])
    (hp : a.1.producers = s.producers) : Parks s new a := by
  unfold Parks
  rw [ha, sleeping, hp]
  exact (List.sublist_append_left _ _).subperm

theorem parks_accept (s : FairPriorityQueue) (item : WorkItem) {s' : FairPriorityQueue}
    (failed : List (WorkItem × QueueError)) (hp : s'.producers = s.producers) :
    Parks s [item.request.requestId] (s'.accept item failed) := by
  refine List.Perm.subperm ?_
  show ([item.request.requestId] ++ s'.sleeping).Perm (s.sleeping ++ [item.request.requestId])
  rw [sleeping, hp]
  exact List.perm_append_comm

theorem parks_blockLocked (s : FairPriorityQueue) (item : WorkItem) (deadline : Int) (clock : Clock) :
    Parks s [item.request.requestId] (s.blockLocked cfg item deadline clock) := by
  unfold blockLocked
  split
  · split
    · exact parks_still s _ rfl rfl
    · refine List.Perm.subperm ?_
      simp [sleeping, requestIds, Output.accepted]
  · split
    · exact parks_still s _ rfl rfl
    · exact parks_accept s item [] rfl

theorem parks_put (s : FairPriorityQueue) (item : WorkItem) (clock : Clock) :
    Parks s [item.request.requestId] (s.put cfg item clock) := by
  unfold put
  split
  · exact parks_still s _ rfl rfl
  split
  · exact parks_accept s item [] rfl
  · cases cfg.overflow with
    | reject => exact parks_still s _ rfl rfl
    | block => exact parks_blockLocked s item _ clock
    | dropOldest =>
      dsimp only
      unfold dropOldest
      split
      · exact parks_still s _ rfl rfl
      · exact parks_still s _ rfl rfl
      · exact parks_accept s item _ rfl

theorem parks_putWakes (s : FairPriorityQueue) (i : Nat) (clock : Clock) : Parks s [] (s.putWakes cfg i clock) := by
  unfold putWakes
  split
  · exact parks_still s _ rfl rfl
  · rename_i item deadline hget
    obtain ⟨hi, hitem⟩ := List.getElem?_eq_some_iff.mp hget
    refine (parks_blockLocked { s with producers := s.producers.eraseIdx i } item deadline clock).trans (List.Perm.subperm ?_)
    have hperm := (List.getElem_cons_eraseIdx_perm hi).map (·.1.request.requestId)
    rw [hitem] at hperm
    rw [List.append_nil]
    exact List.perm_append_comm.trans hperm

theorem producers_drainLocked (s : FairPriorityQueue) (maxRows : Nat) (now : Int) :
    (s.drainLocked cfg maxRows now).1.producers = s.producers := by
  unfold drainLocked
  dsimp only
  split <;> rfl

theorem producers_fillLocked (s : FairPriorityQueue) (window : BatchWindow) (deadline : Int) (clock : Clock) :
    (s.fillLocked cfg window deadline clock).1.producers = s.producers := by
  unfold fillLocked
  split
  · rfl
  · exact producers_drainLocked s _ _

theorem producers_getBatch (s : FairPriorityQueue) (window : BatchWindow) (clock : Clock) :
    (s.getBatch cfg window clock).1.producers = s.producers := by
  unfold getBatch
  split
  · split <;> rfl
  split
  · exact producers_fillLocked s window _ clock
  · exact producers_drainLocked s _ _

theorem producers_getBatchWakes (s : FairPriorityQueue) (i : Nat) (clock : Clock) :
    (s.getBatchWakes cfg i clock).1.producers = s.producers := by
  unfold getBatchWakes
  split
  · rfl
  · exact producers_getBatch _ _ clock
  · exact producers_fillLocked _ _ _ clock

theorem parks_step (s : FairPriorityQueue) (e : Event) : Parks s (offered e) (s.step cfg e) := by
  cases e with
  | put item clock => exact parks_put s item clock
  | putWakes i clock => exact parks_putWakes s i clock
  | getBatch window clock =>
    exact parks_still s _ (accepted_of_consumer (toConsumer_getBatch s window clock)).1 (producers_getBatch s window clock)
  | getBatchWakes i clock =>
    exact parks_still s _ (accepted_of_consumer (toConsumer_getBatchWakes s i clock)).1 (producers_getBatchWakes s i clock)
  | close error => exact parks_still s _ rfl rfl

end

end FairPriorityQueue

end ShipInfer.Queue
