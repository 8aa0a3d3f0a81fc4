import ShipInfer.Runners.Ledger

/-!
# What a runner counts is answered

Each item has a request of its own, drawn once. An item that is counted has a
resolved future, or its thread is just about to resolve it.
-/

namespace ShipInfer.Runners

open Queue.FairPriorityQueue (requestIds offered parks_step parks_put accepted_of_consumer toConsumer_getBatch
  toConsumer_getBatchWakes)

variable {π ρ ν : Type}

/-- The item that is counted, and just about to be resolved. -/
def Worker.awaiting (worker : Worker π ρ ν) : List WorkItem :=
  match worker.phase with
  | .resolving work _ _ => [work]
  | _ => []

def Stopping.awaiting : Stopping → List WorkItem
  | .failing item _ _ => [item]
  | _ => []

/-- The items the closed queue failed that are not counted yet. -/
def Stopping.charged : Stopping → List WorkItem
  | .charging left => left
  | .chargingOne item left _ => item :: left
  | _ => []

namespace InprocessRunner

variable {cfg : RunnerConfig} {s s' : InprocessRunner π ρ ν} {w : Nat} {worker worker' : Worker π ρ ν}

/-! ## Requests are drawn once -/

/-- What a step accepts or parks was parked before, or is drawn by it. -/
def Draws (s : InprocessRunner π ρ ν) (r : InprocessRunner π ρ ν × Output) : Prop :=
  ∃ new, (requestIds r.2.accepted ++ r.1.queue.sleeping).Subperm (s.queue.sleeping ++ new) ∧
    (new = [] ∧ r.1.nextRequestId = s.nextRequestId ∨
      new = [s.nextRequestId] ∧ r.1.nextRequestId = s.nextRequestId + 1)

/-- A step that leaves the queue to others. -/
structure Aside (s : InprocessRunner π ρ ν) (r : InprocessRunner π ρ ν × Output) : Prop where
  queue : r.1.queue = s.queue
  next : r.1.nextRequestId = s.nextRequestId
  accepted : r.2.accepted = []

theorem Aside.draws {r : InprocessRunner π ρ ν × Output} (h : Aside s r) : Draws s r := by
  refine ⟨[], ?_, .inl ⟨rfl, h.next⟩⟩
  rw [h.accepted, h.queue, List.append_nil]
  exact .refl _

theorem draws_piece (e : Queue.Event) (he : offered e = []) (hq : s'.queue = (s.queue.step cfg.queue e).1)
    (hn : s'.nextRequestId = s.nextRequestId) : Draws s (s', (s.ofQueue (s.queue.step cfg.queue e)).2) := by
  refine ⟨[], ?_, .inl ⟨rfl, hn⟩⟩
  have hparks : Queue.FairPriorityQueue.Parks s.queue (offered e) (s.queue.step cfg.queue e) := parks_step s.queue e
  rw [he] at hparks
  rw [hq]
  exact hparks

theorem aside_submitCounts (s : InprocessRunner π ρ ν) (i : Nat) : Aside s (s.submitCounts i) := by
  unfold submitCounts
  split
  · exact ⟨rfl, rfl, rfl⟩
  · dsimp only
    split <;> exact ⟨rfl, rfl, rfl⟩

theorem aside_go (s : InprocessRunner π ρ ν) (w : Nat) (worker : Worker π ρ ν) : Aside s (s.go w worker) := by
  unfold go
  split
  case h_6 =>
    unfold count
    dsimp only
    split <;> exact ⟨rfl, rfl, rfl⟩
  all_goals exact ⟨rfl, rfl, rfl⟩

theorem draws_stop (s : InprocessRunner π ρ ν) : Draws s (s.stop cfg) := by
  unfold stop
  split
  case h_2 => exact draws_piece (.close none) rfl rfl rfl
  case h_5 | h_10 =>
    dsimp only
    split <;> exact Aside.draws ⟨rfl, rfl, rfl⟩
  case h_6 | h_7 => split <;> exact Aside.draws ⟨rfl, rfl, rfl⟩
  all_goals exact Aside.draws ⟨rfl, rfl, rfl⟩

/-! ## What is counted is answered -/

/-- The future of the item is resolved. -/
def Resolved (s : InprocessRunner π ρ ν) (item : WorkItem) : Prop := s.futures.contains item.request.requestId = true

def awaiting (s : InprocessRunner π ρ ν) : List WorkItem := s.workers.flatMap Worker.awaiting ++ s.stopping.awaiting

theorem contains_settle {futures : Dict Int (Resolution π ρ ν)} {id : Int} {resolution : Resolution π ρ ν} (a : Int) :
    (settle futures id resolution).contains a = true ↔ a = id ∨ futures.contains a = true := by
  unfold settle
  split
  · rename_i h
    refine ⟨.inr, ?_⟩
    rintro (rfl | ha)
    · exact h
    · exact ha
  · rw [Dict.contains_iff, Dict.mem_keys_set, Dict.contains_iff]

theorem contains_settleAll {ω : Type} {id : ω → Int} {resolution : ω → Resolution π ρ ν} (a : Int) :
    ∀ {l : List ω} {futures : Dict Int (Resolution π ρ ν)},
      (l.foldl (fun futures p => settle futures (id p) (resolution p)) futures).contains a = true ↔
        a ∈ l.map id ∨ futures.contains a = true
  | [], _ => by simp
  | p :: l, futures => by
    rw [List.foldl_cons, contains_settleAll a, contains_settle, List.map_cons, List.mem_cons]
    constructor
    · rintro (h | h | h)
      · exact .inl (.inr h)
      · exact .inl (.inl h)
      · exact .inr h
    · rintro ((h | h) | h)
      · exact .inr (.inl h)
      · exact .inl h
      · exact .inr (.inr h)

/-- One step resolves what was awaiting it, or leaves it so, and resolves what it
counts, or leaves it awaiting. -/
structure Answers (s : InprocessRunner π ρ ν) (r : InprocessRunner π ρ ν × Output) : Prop where
  keeps : ∀ item, s.Resolved item → r.1.Resolved item
  awaiting : ∀ item ∈ s.awaiting, r.1.Resolved item ∨ item ∈ r.1.awaiting
  counted : ∀ p ∈ r.2.counted, r.1.Resolved p.1 ∨ p.1 ∈ r.1.awaiting
  charged : ∀ item ∈ r.1.stopping.charged, r.1.Resolved item

/-- The queue's failures are resolved. -/
def Charged (s : InprocessRunner π ρ ν) : Prop := ∀ item ∈ s.stopping.charged, s.Resolved item

theorem Charged.same (h : s.Charged) {counted : List (WorkItem × ItemOutcome)} {accepted : List WorkItem}
    (hkeeps : ∀ item, s.Resolved item → s'.Resolved item) (hw : s'.workers = s.workers) (hs : s'.stopping = s.stopping)
    (hcounted : ∀ p ∈ counted, s'.Resolved p.1) : Answers s (s', { accepted := accepted, counted := counted }) := by
  refine ⟨hkeeps, fun item hitem => .inr ?_, fun p hp => .inl (hcounted p hp), ?_⟩
  · rw [InprocessRunner.awaiting, hw, hs]
    exact hitem
  · rw [hs]
    exact fun item hitem => hkeeps item (h item hitem)

/-- A worker moves: it resolves what it was about to. -/
theorem Charged.replace (h : s.Charged) (hget : s.workers[w]? = some worker) {counted : List (WorkItem × ItemOutcome)}
    {accepted : List WorkItem} (hkeeps : ∀ item, s.Resolved item → s'.Resolved item)
    (hw : s'.workers = s.workers.set w worker') (hs : s'.stopping = s.stopping)
    (hold : ∀ item ∈ worker.awaiting, s'.Resolved item)
    (hcounted : ∀ p ∈ counted, s'.Resolved p.1 ∨ p.1 ∈ worker'.awaiting) :
    Answers s (s', { accepted := accepted, counted := counted }) := by
  have hset := flatMap_set_perm (f := Worker.awaiting) worker' hget
  have hmem (item : WorkItem) : item ∈ s.workers.flatMap Worker.awaiting ∨ item ∈ worker'.awaiting →
      item ∈ s'.workers.flatMap Worker.awaiting ∨ item ∈ worker.awaiting := by
    rw [hw, ← List.mem_append, ← List.mem_append]
    exact fun hm => hset.mem_iff.mpr hm
  refine ⟨hkeeps, fun item hitem => ?_, fun p hp => ?_, ?_⟩
  · rcases List.mem_append.mp hitem with hitem | hitem
    · rcases hmem item (.inl hitem) with hm | hm
      · exact .inr (List.mem_append_left _ hm)
      · exact .inl (hold item hm)
    · refine .inr (List.mem_append_right _ ?_)
      rw [hs]
      exact hitem
  · rcases hcounted p hp with hp | hp
    · exact .inl hp
    · rcases hmem p.1 (.inr hp) with hm | hm
      · exact .inr (List.mem_append_left _ hm)
      · exact .inl (hold p.1 hm)
  · rw [hs]
    exact fun item hitem => hkeeps item (h item hitem)

theorem resolved_ofQueue (s : InprocessRunner π ρ ν) (a : Queue.Answer) (item : WorkItem) :
    (s.ofQueue a).1.Resolved item ↔ item.request.requestId ∈ a.2.failed.map (·.1.request.requestId) ∨ s.Resolved item :=
  contains_settleAll _

/-- What the queue counts it failed. -/
theorem counted_ofQueue_resolved (s : InprocessRunner π ρ ν) (a : Queue.Answer) :
    ∀ p ∈ (s.ofQueue a).2.counted, (s.ofQueue a).1.Resolved p.1 := by
  intro p hp
  refine (resolved_ofQueue s a p.1).mpr (.inl ?_)
  have hfst : p.1 ∈ a.2.evicted ++ a.2.expired := by
    rw [← counted_ofQueue s a]
    exact List.mem_map_of_mem hp
  have hfailed : ∃ q ∈ a.2.failed, q.1 = p.1 := by
    rcases List.mem_append.mp hfst with hm | hm
    · obtain ⟨q, hq, hsome⟩ := List.mem_filterMap.mp hm
      refine ⟨q, hq, ?_⟩
      split at hsome
      · exact Option.some.inj hsome
      · cases hsome
    · obtain ⟨q, hq, hsome⟩ := List.mem_filterMap.mp hm
      refine ⟨q, hq, ?_⟩
      split at hsome
      · exact Option.some.inj hsome
      · cases hsome
  obtain ⟨q, hq, heq⟩ := hfailed
  rw [← heq]
  exact List.mem_map_of_mem hq

theorem Charged.go (h : s.Charged) (hget : s.workers[w]? = some worker) : Answers s (s.go w worker) := by
  obtain ⟨phase, slot⟩ := worker
  have hnone {p : WorkItem × ItemOutcome} (hp : p ∈ ([] : List (WorkItem × ItemOutcome))) {q : Prop} : q := by cases hp
  cases phase with
  | resolving work rest resolution =>
    refine h.replace hget (fun item => ?_) rfl rfl (fun item hitem => ?_) fun _ hp => hnone hp
    · exact fun hr => (contains_settle _).mpr (.inr hr)
    · rw [List.mem_singleton.mp hitem]
      exact (contains_settle _).mpr (.inl rfl)
  | counting work rest ending inc resolution =>
    unfold InprocessRunner.go count
    dsimp only
    split
    · refine h.replace hget (fun _ => id) rfl rfl (fun _ hitem => ?_) fun p hp => .inr ?_
      · cases hitem
      · rw [List.mem_singleton.mp hp]
        exact List.mem_singleton_self _
    · exact h.replace hget (fun _ => id) rfl rfl (fun _ hitem => by cases hitem) fun _ hp => hnone hp
  | serving rest =>
    cases rest with
    | nil => exact h.replace hget (fun _ => id) rfl rfl (fun _ hitem => by cases hitem) fun _ hp => hnone hp
    | cons work rest => exact h.replace hget (fun _ => id) rfl rfl (fun _ hitem => by cases hitem) fun _ hp => hnone hp
  | looping | checking | holding items | narrowing work rest =>
    exact h.replace hget (fun _ => id) rfl rfl (fun _ hitem => by cases hitem) fun _ hp => hnone hp
  | polling | asleep | walking work rest | exited => exact h.same (fun _ => id) rfl rfl fun _ hp => hnone hp

/-- A step of `stop` by itself: it resolves what it was about to. -/
theorem Charged.stopping {counted : List (WorkItem × ItemOutcome)} {accepted : List WorkItem}
    (hkeeps : ∀ item, s.Resolved item → s'.Resolved item)
    (hworkers : ∀ item ∈ s.workers.flatMap Worker.awaiting, item ∈ s'.workers.flatMap Worker.awaiting)
    (hold : ∀ item ∈ s.stopping.awaiting, s'.Resolved item)
    (hcounted : ∀ p ∈ counted, s'.Resolved p.1 ∨ p.1 ∈ s'.stopping.awaiting)
    (hcharged : ∀ item ∈ s'.stopping.charged, s'.Resolved item) :
    Answers s (s', { accepted := accepted, counted := counted }) := by
  refine ⟨hkeeps, fun item hitem => ?_, fun p hp => (hcounted p hp).imp_right (List.mem_append_right _), hcharged⟩
  rcases List.mem_append.mp hitem with hm | hm
  · exact .inr (List.mem_append_left _ (hworkers item hm))
  · exact .inl (hold item hm)

/-- It neither counts nor resolves, and takes over nothing of the queue. -/
theorem Charged.goes (h : s.Charged) (hf : s'.futures = s.futures) (hw : s'.workers = s.workers)
    (hold : s.stopping.awaiting = []) (hcharged : s'.stopping.charged ⊆ s.stopping.charged) : Answers s (s', {}) := by
  refine stopping (fun item hr => ?_) (by rw [hw]; exact fun _ => id) ?_ (fun _ hp => by cases hp) fun item hitem => ?_
  · unfold Resolved
    rw [hf]
    exact hr
  · rw [hold]
    exact fun _ hitem => by cases hitem
  · unfold Resolved
    rw [hf]
    exact h item (hcharged hitem)

theorem Charged.stop (h : s.Charged) : Answers s (s.stop cfg) := by
  unfold InprocessRunner.stop
  split
  · rename_i hs
    exact h.goes rfl rfl (by rw [hs]; rfl) (List.nil_subset _)
  · rename_i hs
    refine stopping (fun item => ?_) (fun _ => id) ?_ (fun p hp => .inl ?_) fun item hitem => ?_
    · exact fun hr => (resolved_ofQueue s _ item).mpr (.inr hr)
    · rw [hs]
      exact fun _ hitem => by cases hitem
    · exact counted_ofQueue_resolved s _ p hp
    · refine (resolved_ofQueue s (s.queue.close cfg.queue none) item).mpr (.inl ?_)
      have hfailed : (item, Queue.FairPriorityQueue.closeReason cfg.queue none) ∈ (s.queue.close cfg.queue none).2.failed :=
        List.mem_map_of_mem hitem
      exact List.mem_map_of_mem hfailed
  · rename_i hs
    exact h.goes rfl rfl (by rw [hs]; rfl) (List.nil_subset _)
  · rename_i item left hs
    exact h.goes rfl rfl (by rw [hs]; rfl) (by rw [hs]; exact List.Subset.refl _)
  · rename_i item left i hs
    dsimp only
    split
    · unfold Charged at h
      rw [hs] at h
      refine stopping (fun _ => id) (fun _ => id) ?_ (fun p hp => .inl ?_) fun a ha => ?_
      · rw [hs]
        exact fun _ hitem => by cases hitem
      · rw [List.mem_singleton.mp hp]
        exact h item List.mem_cons_self
      · exact h a (List.mem_cons_of_mem _ ha)
    · exact h.goes rfl rfl (by rw [hs]; rfl) (by rw [hs]; exact List.Subset.refl _)
  · rename_i hs
    split
    · exact h.goes rfl rfl (by rw [hs]; rfl) (List.nil_subset _)
    · exact h.goes rfl rfl (by rw [hs]; rfl) (List.Subset.refl _)
  · rename_i k hs
    split
    · exact h.goes rfl rfl (by rw [hs]; rfl) (List.nil_subset _)
    · rename_i worker hget
      refine stopping (fun _ => id) (fun item hitem => ?_) ?_ (fun _ hp => by cases hp) fun _ hitem => by cases hitem
      · have hset := flatMap_set_perm (f := Worker.awaiting) { worker with slot := [] } hget
        exact (((List.perm_append_right_iff _).mp hset).mem_iff).mpr hitem
      · rw [hs]
        exact fun _ hitem => by cases hitem
  · rename_i k hs
    exact h.goes rfl rfl (by rw [hs]; rfl) (List.nil_subset _)
  · rename_i item left k hs
    exact h.goes rfl rfl (by rw [hs]; rfl) (List.nil_subset _)
  · rename_i item left i k hs
    dsimp only
    split
    · refine stopping (fun _ => id) (fun _ => id) ?_ (fun p hp => .inr ?_) fun _ hitem => by cases hitem
      · rw [hs]
        exact fun _ hitem => by cases hitem
      · rw [List.mem_singleton.mp hp]
        exact List.mem_singleton_self item
    · exact h.goes rfl rfl (by rw [hs]; rfl) (List.nil_subset _)
  · rename_i item left k hs
    refine stopping (fun a ha => ?_) (fun _ => id) ?_ (fun _ hp => by cases hp) fun _ hitem => by cases hitem
    · exact (contains_settle _).mpr (.inr ha)
    · rw [hs]
      intro a ha
      rw [List.mem_singleton.mp ha]
      exact (contains_settle _).mpr (.inl rfl)
  · rename_i hs
    exact h.goes rfl rfl (by rw [hs]; rfl) (List.Subset.refl _)

theorem Charged.submitCounts (h : s.Charged) (i : Nat) : Answers s (s.submitCounts i) := by
  unfold InprocessRunner.submitCounts
  split
  · exact h.same (fun _ => id) rfl rfl fun _ hp => by cases hp
  · dsimp only
    split <;> exact h.same (fun _ => id) rfl rfl fun _ hp => by cases hp

theorem Charged.polled (h : s.Charged) (hget : s.workers[w]? = some worker)
    (hphase : worker.phase = .polling ∨ worker.phase = .asleep) (a : Queue.Answer) : Answers s (s.polled w worker a) := by
  refine h.replace hget (fun item hr => ?_) rfl rfl (fun item hitem => ?_) fun p hp => .inl ?_
  · exact (resolved_ofQueue s a item).mpr (.inr hr)
  · unfold Worker.awaiting at hitem
    rcases hphase with hp | hp <;> (rw [hp] at hitem; cases hitem)
  · exact counted_ofQueue_resolved s a p hp

theorem Charged.offer (h : s.Charged) (a : Queue.Answer) (hf : s'.futures = (s.ofQueue a).1.futures)
    (hw : s'.workers = s.workers) (hs : s'.stopping = s.stopping) : Answers s (s', (s.ofQueue a).2) := by
  refine h.same (fun item hr => ?_) hw hs fun p hp => ?_
  · unfold Resolved
    rw [hf]
    exact (resolved_ofQueue s a item).mpr (.inr hr)
  · unfold Resolved
    rw [hf]
    exact counted_ofQueue_resolved s a p hp

section
variable [DecidableEq ρ]

theorem draws_act (s : InprocessRunner π ρ ν) (w : Nat) (worker : Worker π ρ ν) (act : Act π ρ ν) :
    Draws s (s.act cfg w worker act) := by
  cases act with
  | go => exact (aside_go s w worker).draws
  | getBatch clock =>
    simp only [InprocessRunner.act]
    split
    · exact draws_piece (.getBatch cfg.window clock) rfl rfl rfl
    · exact Aside.draws ⟨rfl, rfl, rfl⟩
  | wake i clock =>
    simp only [InprocessRunner.act]
    split
    · exact draws_piece (.getBatchWakes i clock) rfl rfl rfl
    · exact Aside.draws ⟨rfl, rfl, rfl⟩
  | walk env =>
    simp only [InprocessRunner.act]
    split <;> exact Aside.draws ⟨rfl, rfl, rfl⟩
  | raises cls message =>
    simp only [InprocessRunner.act]
    split <;> exact Aside.draws ⟨rfl, rfl, rfl⟩

theorem draws_step (s : InprocessRunner π ρ ν) (e : Event π ρ ν) : Draws s (s.step cfg e) := by
  cases e with
  | submit item priority enqueuedNs clock =>
    exact ⟨[s.nextRequestId], parks_put s.queue (chainWork cfg s.nextRequestId item priority enqueuedNs) clock, .inr ⟨rfl, rfl⟩⟩
  | submitWakes i clock => exact draws_piece (.putWakes i clock) rfl rfl rfl
  | submitCounts i => exact (aside_submitCounts s i).draws
  | cancel requestId =>
    simp only [InprocessRunner.step]
    split <;> exact Aside.draws ⟨rfl, rfl, rfl⟩
  | work w act =>
    simp only [InprocessRunner.step]
    split
    · exact Aside.draws ⟨rfl, rfl, rfl⟩
    · exact draws_act s w _ act
  | stop => exact draws_stop s
  | abandon =>
    simp only [InprocessRunner.step]
    split <;> exact Aside.draws ⟨rfl, rfl, rfl⟩

/-- The requests of the items accepted, and of those still parked, are different
and were all drawn. -/
theorem requests_nodup (events : List (Event π ρ ν)) :
    let r := run cfg events
    (requestIds (r.2.flatMap Output.accepted) ++ r.1.queue.sleeping).Nodup ∧
      ∀ id ∈ requestIds (r.2.flatMap Output.accepted) ++ r.1.queue.sleeping, id < r.1.nextRequestId := by
  intro r
  refine Machine.exec_induction (f := step cfg) (s := init cfg) (I := fun os s =>
    (requestIds (os.flatMap Output.accepted) ++ s.queue.sleeping).Nodup ∧
      ∀ id ∈ requestIds (os.flatMap Output.accepted) ++ s.queue.sleeping, id < s.nextRequestId) ?_ ?_ events
  · exact ⟨.nil, by rintro _ ⟨⟩⟩
  · rintro os s e ⟨hnodup, hbelow⟩
    obtain ⟨new, hsub, hnew⟩ : Draws s (s.step cfg e) := draws_step s e
    have hall : (requestIds (os.flatMap Output.accepted) ++ s.queue.sleeping ++ new).Nodup := by
      rcases hnew with ⟨rfl, -⟩ | ⟨rfl, -⟩
      · simpa using hnodup
      · refine List.nodup_append.mpr ⟨hnodup, List.nodup_singleton _, fun a ha b hb => ?_⟩
        rw [List.mem_singleton.mp hb]
        exact (hbelow a ha).ne
    have hgrow : (requestIds ((os ++ [(s.step cfg e).2]).flatMap Output.accepted) ++ (s.step cfg e).1.queue.sleeping).Subperm
        (requestIds (os.flatMap Output.accepted) ++ s.queue.sleeping ++ new) := by
      rw [List.append_assoc, List.flatMap_append, List.flatMap_singleton, requestIds, List.map_append, List.append_assoc]
      exact List.subperm_append_left _ |>.mpr hsub
    refine ⟨?_, fun id hid => ?_⟩
    · obtain ⟨l, hperm, hsublist⟩ := hgrow
      exact hperm.nodup_iff.mp (hall.sublist hsublist)
    · have hmem := hgrow.subset hid
      rcases hnew with ⟨rfl, hn⟩ | ⟨rfl, hn⟩
      · rw [List.append_nil] at hmem
        rw [hn]
        exact hbelow id hmem
      · rw [hn]
        rcases List.mem_append.mp hmem with hmem | hmem
        · exact (hbelow id hmem).trans (Int.lt_succ _)
        · rw [List.mem_singleton.mp hmem]
          exact Int.lt_succ _

theorem Charged.act (h : s.Charged) (hget : s.workers[w]? = some worker) (act : Act π ρ ν) :
    Answers s (s.act cfg w worker act) := by
  cases act with
  | go => exact h.go hget
  | getBatch clock =>
    simp only [InprocessRunner.act]
    split
    · exact h.polled hget (.inl ‹_›) _
    · exact h.same (fun _ => id) rfl rfl fun _ hp => by cases hp
  | wake i clock =>
    simp only [InprocessRunner.act]
    split
    · exact h.polled hget (.inr ‹_›) _
    · exact h.same (fun _ => id) rfl rfl fun _ hp => by cases hp
  | walk env =>
    obtain ⟨phase, slot⟩ := worker
    cases phase with
    | walking work rest => exact h.replace hget (fun _ => id) rfl rfl (fun _ hitem => by cases hitem) fun _ hp => by cases hp
    | _ => exact h.same (fun _ => id) rfl rfl fun _ hp => by cases hp
  | raises cls message =>
    obtain ⟨phase, slot⟩ := worker
    cases phase with
    | walking work rest => exact h.replace hget (fun _ => id) rfl rfl (fun _ hitem => by cases hitem) fun _ hp => by cases hp
    | _ => exact h.same (fun _ => id) rfl rfl fun _ hp => by cases hp

theorem Charged.step (h : s.Charged) (e : Event π ρ ν) : Answers s (s.step cfg e) := by
  cases e with
  | submit item priority enqueuedNs clock => exact h.offer _ rfl rfl rfl
  | submitWakes i clock => exact h.offer _ rfl rfl rfl
  | submitCounts i => exact h.submitCounts i
  | cancel requestId =>
    simp only [InprocessRunner.step]
    split
    · exact h.same (fun _ hr => (contains_settle _).mpr (.inr hr)) rfl rfl fun _ hp => by cases hp
    · exact h.same (fun _ => id) rfl rfl fun _ hp => by cases hp
  | work w act =>
    simp only [InprocessRunner.step]
    split
    · exact h.same (fun _ => id) rfl rfl fun _ hp => by cases hp
    · exact h.act ‹_› act
  | stop => exact h.stop
  | abandon =>
    simp only [InprocessRunner.step]
    split
    · rename_i hs
      exact h.goes rfl rfl (by rw [hs]; rfl) (List.nil_subset _)
    · exact h.same (fun _ => id) rfl rfl fun _ hp => by cases hp

/-- What was counted has a resolved future, or its thread is about to resolve it. -/
theorem counted_resolved (cfg : RunnerConfig) (events : List (Event π ρ ν)) :
    let r := run cfg events
    ∀ p ∈ r.2.flatMap Output.counted, r.1.Resolved p.1 ∨ p.1 ∈ r.1.awaiting := by
  intro r
  have hkept : (∀ p ∈ r.2.flatMap Output.counted, r.1.Resolved p.1 ∨ p.1 ∈ r.1.awaiting) ∧ r.1.Charged := by
    refine Machine.exec_induction (f := step cfg) (s := init cfg) (I := fun os s =>
      (∀ p ∈ os.flatMap Output.counted, s.Resolved p.1 ∨ p.1 ∈ s.awaiting) ∧ s.Charged) ?_ ?_ events
    · exact ⟨by rintro _ ⟨⟩, by rintro _ ⟨⟩⟩
    · rintro os s e ⟨hcounted, hcharged⟩
      have hstep : Answers s (s.step cfg e) := hcharged.step e
      refine ⟨fun p hp => ?_, hstep.charged⟩
      rw [List.flatMap_append, List.flatMap_singleton] at hp
      rcases List.mem_append.mp hp with hp | hp
      · rcases hcounted p hp with hr | hr
        · exact .inl (hstep.keeps _ hr)
        · exact hstep.awaiting _ hr
      · exact hstep.counted p hp
  exact hkept.1

end

end InprocessRunner

end ShipInfer.Runners
