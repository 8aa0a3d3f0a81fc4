import ShipInfer.Engine.Instance

/-!
# Every accepted item is answered once

An item the instance took is in its queue, in the worker's hands, or settled.
When the queue is closed it is empty and stays so, and a worker that is over has
nothing in hand; so once `stop` is done, all that was accepted is settled.
-/

namespace ShipInfer.Engine.ModelInstance

open Queue (FairPriorityQueue)
open Queue.FairPriorityQueue (left_step closed_step delivered_of_producer toProducer_put toProducer_putWakes)

variable {cfg : Config} {s s' : ModelInstance}

/-- The items inside. -/
def items (s : ModelInstance) : List WorkItem := s.queue.items ++ s.worker.inFlight

/-- Without a thread nothing runs, and what `stop` has waited for is over. -/
structure Joined (s : ModelInstance) : Prop where
  unstarted : s.stopping = .no ∧ s.thread = false ∨ s.stopping = .flagged false ∨ s.stopping = .closed false →
    s.worker = .unstarted
  returned : s.stopping = .returned false → s.worker = .unstarted ∨ s.worker = .exited

structure Inv (cfg : Config) (s : ModelInstance) : Prop where
  queue : s.queue.Inv cfg.queue
  drained : s.queue.closed = true → s.queue.items = []
  closed : (∃ thread, s.stopping = .closed thread) ∨ (∃ abandoned, s.stopping = .returned abandoned) →
    s.queue.closed = true
  joined : s.Joined

/-- One step keeps the ledger of items. -/
def Settles (s : ModelInstance) (r : Step) : Prop :=
  (s.items ++ r.2.accepted).Perm (r.2.settled.map Prod.fst ++ r.1.items)

theorem settles_quiet (hq : s'.queue.items = s.queue.items) (hw : s'.worker.inFlight = s.worker.inFlight) :
    Settles s (s', {}) := by
  rw [Settles, items, items, hq, hw, List.append_nil]
  exact .refl _

theorem Inv.quiet (h : s.Inv cfg) : s.Inv cfg ∧ Settles s (s, {}) := ⟨h, settles_quiet rfl rfl⟩

/-- A step of the queue: what it delivers goes to the worker. -/
theorem settles_queue (h : s.queue.Inv cfg.queue) (e : Queue.Event) (hq : s'.queue = (s.queue.step cfg.queue e).1)
    (hw : s'.worker.inFlight.Perm (s.worker.inFlight ++ (s.queue.step cfg.queue e).2.delivered)) :
    Settles s (s', (s.ofQueue (s.queue.step cfg.queue e)).2) := by
  have hfst : (s.ofQueue (s.queue.step cfg.queue e)).2.settled.map Prod.fst =
      (s.queue.step cfg.queue e).2.failed.map Prod.fst := List.map_map
  have hperm := (h.step e).items
  have hleft := left_step h e
  refine List.perm_iff_count.mpr fun a => ?_
  have hitems := hperm.count_eq a
  have hout := hleft.count_eq a
  have hin := hw.count_eq a
  rw [hfst]
  simp only [items, hq, List.count_append] at hitems hout hin ⊢
  show _ + _ + List.count a (s.queue.step cfg.queue e).2.accepted = _
  omega

/-- A worker that runs may go anywhere, as long as the queue keeps its shape. -/
theorem Inv.move (h : s.Inv cfg) (hs : s'.stopping = s.stopping) (ht : s'.thread = s.thread)
    (hrun : s.worker ≠ .unstarted ∧ s.worker ≠ .exited) (hq : s'.queue.Inv cfg.queue)
    (hd : s'.queue.closed = true → s'.queue.items = []) (hc : s.queue.closed = true → s'.queue.closed = true) :
    s'.Inv cfg := by
  refine ⟨hq, hd, fun hstop => hc (h.closed (hs ▸ hstop)), fun hu => ?_, fun hr => ?_⟩
  · exact absurd (h.joined.unstarted (hs ▸ ht ▸ hu)) hrun.1
  · rcases h.joined.returned (hs ▸ hr) with hw | hw
    · exact absurd hw hrun.1
    · exact absurd hw hrun.2

/-- The same, and what the worker has in hand stays or is settled. -/
theorem Inv.work (h : s.Inv cfg) (hrun : s.worker ≠ .unstarted ∧ s.worker ≠ .exited) {w : Worker} {running ready : Bool}
    {startError : Option String} {settled : List (WorkItem × Outcome)}
    (hw : s.worker.inFlight = settled.map Prod.fst ++ w.inFlight) :
    ({ s with worker := w, running := running, ready := ready, startError := startError } : ModelInstance).Inv cfg ∧
      Settles s ({ s with worker := w, running := running, ready := ready, startError := startError },
        { settled := settled }) := by
  refine ⟨h.move rfl rfl hrun h.queue h.drained id, ?_⟩
  unfold Settles items
  rw [hw, List.append_nil, ← List.append_assoc, ← List.append_assoc]
  exact List.perm_append_comm.append_right _

/-- A step of the queue by a worker that runs. -/
theorem Inv.queueMove (h : s.Inv cfg) (e : Queue.Event) (hs : s'.stopping = s.stopping) (ht : s'.thread = s.thread)
    (hrun : s.worker ≠ .unstarted ∧ s.worker ≠ .exited) (hq : s'.queue = (s.queue.step cfg.queue e).1)
    (hw : s'.worker.inFlight = s.worker.inFlight ++ (s.queue.step cfg.queue e).2.delivered) :
    s'.Inv cfg ∧ Settles s (s', (s.ofQueue (s.queue.step cfg.queue e)).2) := by
  obtain ⟨hd, hc, -⟩ := closed_step h.queue h.drained e
  refine ⟨h.move hs ht hrun ?_ ?_ ?_, settles_queue h.queue e hq (.of_eq hw)⟩
  · rw [hq]
    exact (h.queue.step e).inv
  · rw [hq]
    exact hd
  · rw [hq]
    exact hc

/-- A step of the queue by another thread, where the worker stands still. -/
theorem Inv.queueStep (h : s.Inv cfg) (e : Queue.Event) (hnone : (s.queue.step cfg.queue e).2.delivered = []) :
    (s.ofQueue (s.queue.step cfg.queue e)).1.Inv cfg ∧ Settles s (s.ofQueue (s.queue.step cfg.queue e)) := by
  obtain ⟨hd, hc, -⟩ := closed_step h.queue h.drained e
  refine ⟨⟨(h.queue.step e).inv, hd, fun hs => hc (h.closed hs), h.joined.1, h.joined.2⟩, ?_⟩
  refine settles_queue h.queue e rfl ?_
  rw [hnone, List.append_nil]

theorem delivered_close (q : FairPriorityQueue) (error : Option String) :
    (q.step cfg.queue (.close error)).2.delivered = [] := rfl

theorem inFlight_afterPoll (o : Queue.Output) : (afterPoll o.reply).inFlight = o.delivered := by
  obtain ⟨reply, failed⟩ := o
  cases reply with
  | batch items => cases items <;> rfl
  | _ => rfl

theorem Inv.polled (h : s.Inv cfg) (hrun : s.worker ≠ .unstarted ∧ s.worker ≠ .exited) (hw : s.worker.inFlight = [])
    (e : Queue.Event) :
    (s.polled (s.queue.step cfg.queue e)).1.Inv cfg ∧ Settles s (s.polled (s.queue.step cfg.queue e)) := by
  refine h.queueMove e rfl rfl hrun rfl ?_
  rw [hw]
  exact inFlight_afterPoll _

theorem Inv.poll (h : s.Inv cfg) (hw : s.worker = .looping) (clock : Queue.Clock) :
    (s.poll cfg clock).1.Inv cfg ∧ Settles s (s.poll cfg clock) := by
  unfold ModelInstance.poll
  split
  · exact h.polled (by rw [hw]; simp) (by rw [hw]; rfl) (.getBatch cfg.window clock)
  · exact h.work (by rw [hw]; simp) (by rw [hw]; rfl)

theorem Inv.die (h : s.Inv cfg) (error : String) : (s.die error).1.Inv cfg ∧ Settles s (s.die error) := by
  unfold ModelInstance.die
  cases hw : s.worker with
  | unstarted | starting | closing items | sweeping items | exited => exact h.quiet
  | asleep =>
    refine ⟨h.move rfl rfl (by rw [hw]; simp) ?_ h.drained id, settles_quiet rfl (by rw [hw]; rfl)⟩
    exact h.queue.sleepers _ _
  | _ => exact h.work (by rw [hw]; simp) (by rw [hw]; rfl)

theorem Inv.settle (h : s.Inv cfg) : (s.settle cfg).1.Inv cfg ∧ Settles s (s.settle cfg) := by
  unfold ModelInstance.settle
  split
  · rename_i hw
    exact h.work (by rw [hw]; simp) (by rw [hw]; rfl)
  · rename_i hw
    exact h.work (by rw [hw]; simp) (by rw [hw]; rfl)
  · rename_i hw
    exact h.work (by rw [hw]; simp) (by rw [hw]; rfl)
  · exact h.quiet

/-- `stop` moves on: it may only count on a closed queue when it is closed. -/
theorem Inv.stopping (h : s.Inv cfg) {stopping : Stopping} {thread running ready : Bool}
    (hc : (∃ thread, stopping = .closed thread) ∨ (∃ abandoned, stopping = .returned abandoned) → s.queue.closed = true)
    (hj : ({ s with stopping := stopping, thread := thread, running := running, ready := ready } : ModelInstance).Joined) :
    ({ s with stopping := stopping, thread := thread, running := running, ready := ready } : ModelInstance).Inv cfg ∧
      Settles s ({ s with stopping := stopping, thread := thread, running := running, ready := ready }, {}) :=
  ⟨⟨h.queue, h.drained, hc, hj⟩, settles_quiet rfl rfl⟩

theorem Inv.stop (h : s.Inv cfg) : s.stop.1.Inv cfg ∧ Settles s s.stop := by
  unfold ModelInstance.stop
  split
  · rename_i hs
    refine h.stopping (by simp) ⟨fun hu => ?_, by simp⟩
    rcases hu with ⟨hno, -⟩ | ht | hclosed
    · exact Stopping.noConfusion hno
    · exact h.joined.unstarted (.inl ⟨hs, Stopping.flagged.inj ht⟩)
    · exact Stopping.noConfusion hclosed
  · exact h.quiet

theorem Inv.stopReturns (h : s.Inv cfg) :
    (s.step cfg .stopReturns).1.Inv cfg ∧ Settles s (s.step cfg .stopReturns) := by
  simp only [ModelInstance.step]
  split
  · rename_i thread hs
    refine h.stopping (fun _ => h.closed (.inl ⟨thread, hs⟩)) ⟨by simp, fun hr => ?_⟩
    cases thread with
    | false => exact .inl (h.joined.unstarted (.inr (.inr hs)))
    | true => exact .inr (by simpa using hr)
  · exact h.quiet

theorem Inv.stopCloses (h : s.Inv cfg) : (s.step cfg .stopCloses).1.Inv cfg ∧ Settles s (s.step cfg .stopCloses) := by
  simp only [ModelInstance.step]
  split
  · rename_i thread hs
    obtain ⟨hd, -, -⟩ := closed_step h.queue h.drained (.close none)
    refine ⟨⟨(h.queue.step (.close none)).inv, hd, fun _ => rfl, ⟨fun hu => ?_, by rintro ⟨⟩⟩⟩, ?_⟩
    · refine h.joined.unstarted (.inr (.inl ?_))
      rcases hu with ⟨hno, -⟩ | ht | hclosed
      · exact Stopping.noConfusion hno
      · exact Stopping.noConfusion ht
      · exact hs.trans (congrArg Stopping.flagged (Stopping.closed.inj hclosed))
    · exact settles_queue h.queue (.close none) rfl (by simp [delivered_close])
  · exact h.quiet

theorem Inv.start (h : s.Inv cfg) : (s.step cfg .start).1.Inv cfg ∧ Settles s (s.step cfg .start) := by
  simp only [ModelInstance.step]
  split
  · rename_i hw hs
    refine ⟨⟨h.queue, h.drained, h.closed, ⟨?_, ?_⟩⟩, settles_quiet rfl (by rw [hw]; rfl)⟩ <;> simp [hs]
  · exact h.quiet

theorem Inv.step (h : s.Inv cfg) (e : Event) : (s.step cfg e).1.Inv cfg ∧ Settles s (s.step cfg e) := by
  cases e with
  | enqueue item clock => exact h.queueStep (.put item clock) (delivered_of_producer (toProducer_put _ _ _)).1
  | enqueueWakes i clock => exact h.queueStep (.putWakes i clock) (delivered_of_producer (toProducer_putWakes _ _ _)).1
  | start => exact h.start
  | die error => exact h.die error
  | settle => exact h.settle
  | stop => exact h.stop
  | stopCloses => exact h.stopCloses
  | stopReturns => exact h.stopReturns
  | poll clock =>
    simp only [ModelInstance.step]
    split
    · exact h.poll ‹_› clock
    · exact h.quiet
  | pollWakes clock =>
    simp only [ModelInstance.step]
    split
    · exact h.polled (by simp [*]) (by simp [*, Worker.inFlight]) (.getBatchWakes 0 clock)
    · exact h.quiet
  | startFails error =>
    simp only [ModelInstance.step]
    split
    · rename_i hw
      refine h.queueMove (.close (some error)) rfl rfl (by simp [hw]) rfl ?_
      rw [hw, delivered_close, List.append_nil]
      rfl
    · exact h.quiet
  | closeQueue =>
    simp only [ModelInstance.step]
    split
    · rename_i hw
      refine h.queueMove (.close none) rfl rfl (by simp [hw]) rfl ?_
      rw [hw, delivered_close, List.append_nil]
      rfl
    · exact h.quiet
  | deny =>
    simp only [ModelInstance.step]
    split
    · split
      · exact h.quiet
      · exact h.work (by simp [*]) (by simp [*, Worker.inFlight])
    · exact h.quiet
  | started | startDies | permit | executed | executionFails error | endBatch =>
    simp only [ModelInstance.step]
    split
    all_goals first | exact h.quiet | exact h.work (by simp [*]) (by simp [*, Worker.inFlight])

theorem inv_empty (cfg : Config) : Inv cfg {} where
  queue := Queue.FairPriorityQueue.inv_empty _
  drained _ := rfl
  closed := by simp
  joined := ⟨fun _ => rfl, by simp⟩

theorem Inv.returned (h : s.Inv cfg) {abandoned : Bool} (hs : s.stopping = .returned abandoned) :
    s.items = s.worker.inFlight := by
  simp [items, h.drained (h.closed (.inr ⟨_, hs⟩))]

theorem Inv.stopped (h : s.Inv cfg) (hs : s.Stopped) : s.items = [] := by
  have hover : s.worker = .unstarted ∨ s.worker = .exited := by
    rcases hs with hr | ⟨-, hw⟩
    · exact h.joined.returned hr
    · exact .inr hw
  have hinside : s.items = s.worker.inFlight := by rcases hs with hr | ⟨hr, -⟩ <;> exact h.returned hr
  rcases hover with hw | hw <;> simp [hinside, hw, Worker.inFlight]

/-- In every run each item that `enqueue` accepted is inside or settled, and settled
once. When `stop` has returned, only a worker it abandoned holds any; when the
instance has stopped, all are settled. -/
theorem accepted_settled (cfg : Config) (events : List Event) :
    let r := run cfg events
    (r.2.flatMap Output.accepted).Perm ((r.2.flatMap Output.settled).map Prod.fst ++ r.1.items) ∧
      (∀ abandoned, r.1.stopping = .returned abandoned → r.1.items = r.1.worker.inFlight) ∧
      (r.1.Stopped → (r.2.flatMap Output.accepted).Perm ((r.2.flatMap Output.settled).map Prod.fst)) := by
  intro r
  have hledger : r.1.Inv cfg ∧ (items {} ++ r.2.flatMap Output.accepted).Perm
      (r.2.flatMap (fun o => o.settled.map Prod.fst) ++ r.1.items) := by
    refine Machine.exec_ledger ?_ events (inv_empty cfg)
    exact fun _ e h => h.step e
  obtain ⟨hinv, hperm⟩ := hledger
  have hflat : (r.2.flatMap Output.accepted).Perm ((r.2.flatMap Output.settled).map Prod.fst ++ r.1.items) := by
    rw [List.map_flatMap]
    exact hperm
  refine ⟨hflat, fun _ => hinv.returned, fun hs => ?_⟩
  have hnone : r.1.items = [] := hinv.stopped hs
  rw [hnone, List.append_nil] at hflat
  exact hflat

end ShipInfer.Engine.ModelInstance
