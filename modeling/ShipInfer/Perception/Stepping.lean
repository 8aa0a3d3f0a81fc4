import ShipInfer.Perception.Runner
import ShipInfer.Reassembly.Conservation

/-!
# What a step of the pipeline runner does

Said once for all steps, with what they check (`Step`).
-/

namespace ShipInfer.Perception

open Reassembly (PendingKey FrameResult FrameCollector Reason)

namespace PipelineRunner

variable {cfg : RunnerConfig} {s s' : PipelineRunner} {w : Nat}

theorem isEmpty_iff {hand : Hand} : hand.isEmpty = true ↔ hand = {} := by
  obtain ⟨results, current⟩ := hand
  cases current with
  | none => simp [Hand.isEmpty]
  | popped r future => simp [Hand.isEmpty]
  | settling future verdict => simp [Hand.isEmpty]

theorem phaseOf_eq {phase : Phase} (h : s.phaseOf w = some phase) : s.workers[w]? = some { phase := phase } := by
  unfold phaseOf at h
  split at h
  · cases h
  next worker hw =>
    split at h
    next hempty =>
      cases h
      obtain ⟨phase, hand⟩ := worker
      have hnone : hand = {} := isEmpty_iff.mp hempty
      rw [hw, hnone]
    · cases h

/-- Where a step leads, by what the thread that takes it does. -/
inductive Step (cfg : RunnerConfig) (s : PipelineRunner) : PipelineRunner → Prop
  | put (request : InferenceRequest) (hopen : s.queueClosed = false) :
    Step cfg s { s with
      queue := s.queue ++ [{ number := s.put.length, request := request }]
      put := s.put ++ [{ number := s.put.length, request := request }] }
  | queueFails (item : Item) (hmem : item ∈ s.queue) :
    Step cfg s { s with queue := s.queue.erase item, settled := s.settled ++ [(item, .failed .queue)] }
  | getBatch (w : Nat) (batch : List Item) (hw : s.workers[w]? = some { phase := .batch [] })
    (hbatch : batch.Perm (s.queue.filter fun item => decide (item ∈ batch))) :
    Step cfg s { s with
      queue := s.queue.filter fun item => decide (item ∉ batch)
      taken := s.taken ++ batch
      workers := s.workers.set w { phase := .batch batch } }
  | exit (w : Nat) (hw : s.workers[w]? = some { phase := .batch [] }) :
    Step cfg s { s with workers := s.workers.set w { phase := .exited } }
  | discard (w : Nat) (item : Item) (rest : List Item) (error : RunnerError)
    (hw : s.workers[w]? = some { phase := .batch (item :: rest) }) :
    Step cfg s { s with
      settled := s.settled ++ [(item, .failed error)]
      workers := s.workers.set w { phase := .batch rest } }
  | skip (w : Nat) (item : Item) (rest : List Item) (hw : s.workers[w]? = some { phase := .batch (item :: rest) })
    (hdone : item ∈ s.settled.map Prod.fst) :
    Step cfg s { s with workers := s.workers.set w { phase := .batch rest } }
  | begin (w : Nat) (item : Item) (state : Reassembly.FrameState) (frame : FrameState) (rest : List Item)
    (hw : s.workers[w]? = some { phase := .batch (item :: rest) }) (hstate : state.context = item.request.context) :
    Step cfg s { s with workers := s.workers.set w { phase := .registering item state frame rest } }
  | register (w : Nat) (item : Item) (state : Reassembly.FrameState) (frame : FrameState) (rest : List Item)
    (hw : s.workers[w]? = some { phase := .registering item state frame rest }) :
    Step cfg s { s with
      awaiting := if s.awaiting.contains state.key then s.awaiting else s.awaiting.set state.key item
      workers := s.workers.set w { phase := .opening item state frame rest } }
  | «open» (w : Nat) (item : Item) (state : Reassembly.FrameState) (frame : FrameState) (rest : List Item)
    (stages : List String) (now evictNow : Int) (calls : List PipelineGraph.Call)
    (hw : s.workers[w]? = some { phase := .opening item state frame rest }) :
    Step cfg s { s with
      collector := { (s.collector.open cfg.reassembly state stages now evictNow).1 with publishing := [] }
      workers := s.workers.set w
        { phase := if (s.collector.open cfg.reassembly state stages now evictNow).2.isOpened then .running state.key calls rest
            else .refused item rest
          hand := { results := (s.collector.open cfg.reassembly state stages now evictNow).1.publishing } } }
  | unregister (w : Nat) (item : Item) (rest : List Item) (hw : s.workers[w]? = some { phase := .refused item rest }) :
    Step cfg s { s with
      awaiting := if s.awaiting.get? item.key = some item then s.awaiting.erase item.key else s.awaiting
      workers := s.workers.set w { phase := .failing item rest } }
  | fail (w : Nat) (item : Item) (rest : List Item) (hw : s.workers[w]? = some { phase := .failing item rest }) :
    Step cfg s { s with
      settled := s.settled ++ [(item, .failed .refused)]
      workers := s.workers.set w { phase := .batch rest } }
  | silent (w : Nat) (key : PendingKey) (call : PipelineGraph.Call) (calls : List PipelineGraph.Call) (rest : List Item)
    (hw : s.workers[w]? = some { phase := .running key (call :: calls) rest }) :
    Step cfg s { s with workers := s.workers.set w { phase := .running key calls rest } }
  | expect (w : Nat) (key : PendingKey) (stages : List String) (call : PipelineGraph.Call)
    (calls : List PipelineGraph.Call) (rest : List Item)
    (hw : s.workers[w]? = some { phase := .running key (call :: calls) rest }) :
    Step cfg s { s with
      collector := (s.collector.expect key stages).1
      workers := s.workers.set w { phase := .running key calls rest } }
  | deliver (w : Nat) (key : PendingKey) (stage : String) (call : PipelineGraph.Call)
    (calls : List PipelineGraph.Call) (rest : List Item)
    (hw : s.workers[w]? = some { phase := .running key (call :: calls) rest }) :
    Step cfg s { s with
      collector := (s.collector.deliver key stage).1
      workers := s.workers.set w { phase := .running key calls rest } }
  | «seal» (w : Nat) (key : PendingKey) (rest : List Item) (now : Int)
    (hw : s.workers[w]? = some { phase := .running key [] rest }) :
    Step cfg s { s with
      collector := { s.collector.seal key now with publishing := [] }
      workers := s.workers.set w { phase := .batch rest, hand := { results := (s.collector.seal key now).publishing } } }
  | pop (thread : Thread) (r : FrameResult) (results : List FrameResult)
    (hhand : s.handOf thread = some { results := r :: results }) :
    Step cfg s ({ s with
      collector := ({ s.collector with publishing := [r] }.publish 0).1
      awaiting := s.awaiting.erase r.state.key }.setHand
        { results := results, current := .popped r (s.awaiting.get? r.state.key) } thread)
  | emit (thread : Thread) (r : FrameResult) (future : Option Item) (results : List FrameResult) (delivery : Delivery)
    (hhand : s.handOf thread = some { results := results, current := .popped r future }) :
    Step cfg s ({ s with handed := s.handed ++ (resolve r delivery).1 }.setHand
      { results := results, current := .settling future (resolve r delivery).2 } thread)
  | settle (thread : Thread) (future : Option Item) (verdict : Verdict) (results : List FrameResult)
    (hhand : s.handOf thread = some { results := results, current := .settling future verdict }) :
    Step cfg s ({ s with settled := s.settled ++ future.toList.map fun item => (item, verdict) }.setHand
      { results := results } thread)
  | sweep (now : Int) (hidle : s.sweeper = {}) (hin : s.sweeperExited = false) :
    Step cfg s { s with
      collector := { s.collector.sweep now with publishing := [] }
      sweeper := { results := (s.collector.sweep now).publishing } }
  | sweeperExits (hidle : s.sweeper = {}) : Step cfg s { s with sweeperExited := true }
  | stop (hphase : s.stopPhase = .notCalled) : Step cfg s { s with stopping := true, stopPhase := .closing }
  | closeQueue (hphase : s.stopPhase = .closing) :
    Step cfg s { s with queueClosed := true, queue := [], stopPhase := .failing s.queue s.queue }
  | failLost (item : Item) (todo lost : List Item) (hphase : s.stopPhase = .failing (item :: todo) lost) :
    Step cfg s { s with stopPhase := .failing todo lost, settled := s.settled ++ [(item, .failed .queue)] }
  | lostFailed (lost : List Item) (hphase : s.stopPhase = .failing [] lost) :
    Step cfg s { s with stopPhase := .forgetting lost }
  | forgetLost (item : Item) (todo : List Item) (hphase : s.stopPhase = .forgetting (item :: todo)) :
    Step cfg s { s with awaiting := s.awaiting.erase item.key, stopPhase := .forgetting todo }
  | lostForgotten (hphase : s.stopPhase = .forgetting []) : Step cfg s { s with stopPhase := .joining }
  | join (inTime : Bool) (hphase : s.stopPhase = .joining) (hexited : ∀ worker ∈ s.workers, worker = { phase := .exited })
    (hsweeper : inTime = true → s.sweeperExited = true) :
    Step cfg s { s with stopPhase := .draining, sweeperInTime := s.sweeperInTime && inTime }
  | drain (now : Int) (hphase : s.stopPhase = .draining) :
    Step cfg s { s with
      collector := { s.collector.drain now with publishing := [] }
      stopper := { results := (s.collector.drain now).publishing }
      stopPhase := .emitting }
  | snapshot (hphase : s.stopPhase = .emitting) (hidle : s.stopper = {}) :
    Step cfg s { s with stopPhase := .cancelling s.awaiting.entries }
  | cancel (key : PendingKey) (item : Item) (todo : List (PendingKey × Item))
    (hphase : s.stopPhase = .cancelling ((key, item) :: todo)) :
    Step cfg s { s with
      awaiting := s.awaiting.erase key
      stopPhase := .cancelling todo
      settled := s.settled ++ [(item, .failed .stopped)] }
  | «return» (hphase : s.stopPhase = .cancelling []) : Step cfg s { s with stopPhase := .returned }

theorem fromRequest_context {inputName : String} {request : InferenceRequest} {state : Reassembly.FrameState}
    {frame : FrameState} (h : fromRequest inputName request = some (state, frame)) : state.context = request.context := by
  unfold fromRequest at h
  split at h
  · cases h
  · split at h
    · split at h
      · cases h
        rfl
      · cases h
    · cases h

theorem budgeted_context (budgetNs : Int) (state : Reassembly.FrameState) (now : Int) :
    (budgeted budgetNs state now).context = state.context := by
  unfold budgeted
  split <;> rfl

theorem isExited_eq {worker : Worker} (h : Worker.isExited worker = true) : worker = { phase := .exited } := by
  obtain ⟨phase, hand⟩ := worker
  unfold Worker.isExited at h
  split at h
  next hphase =>
    have hnone : hand = {} := isEmpty_iff.mp h
    dsimp only at hphase
    rw [hphase, hnone]
  · cases h

/-! ### Every step is one of these -/

theorem runFrame_step {now : Int} (h : s.runFrame cfg w now = some s') : Step cfg s s' := by
  unfold runFrame at h
  split at h
  next item rest hphase =>
    have hw := phaseOf_eq hphase
    split at h
    · cases h
      exact .discard w item rest .deadlinePassed hw
    · split at h
      · cases h
        split
        next hdone => exact .skip w item rest hw (of_decide_eq_true hdone)
        · exact .discard w item rest .pipelineFailed hw
      next state frame hfrom =>
        cases h
        exact .begin w item _ frame rest hw ((budgeted_context _ _ _).trans (fromRequest_context hfrom))
  · cases h

theorem observe_step (h : s.observe cfg w = some s') : Step cfg s s' := by
  unfold PipelineRunner.observe at h
  split at h
  next key call calls rest hphase =>
    have hw := phaseOf_eq hphase
    cases h
    cases call with
    | planned stages => exact .expect w key stages (.planned stages) calls rest hw
    | finished stage status =>
      cases status with
      | ran => exact .deliver w key stage (.finished stage .ran) calls rest hw
      | skipped => exact .silent w key (.finished stage .skipped) calls rest hw
      | failed => exact .silent w key (.finished stage .failed) calls rest hw
  · cases h

theorem pop_step {thread : Thread} (h : s.pop thread = some s') : Step cfg s s' := by
  unfold pop at h
  split at h
  next r results hhand =>
    cases h
    exact .pop thread r results hhand
  · cases h

theorem emit_step {thread : Thread} {delivery : Delivery} (h : s.emit thread delivery = some s') : Step cfg s s' := by
  unfold emit at h
  split at h
  next results r future hhand =>
    cases h
    exact .emit thread r future results delivery hhand
  · cases h

theorem settle_step {thread : Thread} (h : s.settle thread = some s') : Step cfg s s' := by
  unfold settle at h
  split at h
  next results future verdict hhand =>
    have hstep : Step cfg s _ := .settle thread future verdict results hhand
    cases future with
    | none =>
      cases h
      simpa using hstep
    | some item =>
      cases h
      cases thread <;> exact hstep
  · cases h

theorem step_spec {act : Act} (h : s.step cfg act = some s') : Step cfg s s' := by
  cases act with
  | put request =>
    change s.putItem request = some s' at h
    unfold putItem at h
    split at h
    · cases h
    next hopen =>
      cases h
      exact .put request (by simpa using hopen)
  | queueFails item =>
    change s.queueFails item = some s' at h
    unfold queueFails at h
    split at h
    next hmem =>
      cases h
      exact .queueFails item hmem
    · cases h
  | getBatch w batch =>
    change s.getBatch w batch = some s' at h
    unfold getBatch at h
    split at h
    next hphase =>
      split at h
      next hbatch =>
        cases h
        exact .getBatch w batch (phaseOf_eq hphase) hbatch
      · cases h
    · cases h
  | exit w =>
    change s.exit w = some s' at h
    unfold exit at h
    split at h
    next hphase =>
      split at h
      · cases h
        exact .exit w (phaseOf_eq hphase)
      · cases h
    · cases h
  | runFrame w now => exact runFrame_step h
  | register w =>
    change s.register w = some s' at h
    unfold register at h
    split at h
    next item state frame rest hphase =>
      cases h
      exact .register w item state frame rest (phaseOf_eq hphase)
    · cases h
  | «open» w now evictNow outcomes =>
    change s.open cfg w now evictNow outcomes = some s' at h
    unfold PipelineRunner.open at h
    split at h
    next item state frame rest hphase =>
      cases h
      exact .open w item state frame rest _ now evictNow _ (phaseOf_eq hphase)
    · cases h
  | unregister w =>
    change s.unregister w = some s' at h
    unfold unregister at h
    split at h
    next item rest hphase =>
      cases h
      exact .unregister w item rest (phaseOf_eq hphase)
    · cases h
  | fail w =>
    change s.fail w = some s' at h
    unfold fail at h
    split at h
    next item rest hphase =>
      cases h
      exact .fail w item rest (phaseOf_eq hphase)
    · cases h
  | observe w => exact observe_step h
  | «seal» w now =>
    change s.seal w now = some s' at h
    unfold PipelineRunner.seal at h
    split at h
    next key rest hphase =>
      cases h
      exact .seal w key rest now (phaseOf_eq hphase)
    · cases h
  | pop thread => exact pop_step h
  | emit thread delivery => exact emit_step h
  | settle thread => exact settle_step h
  | sweep now =>
    change s.sweep now = some s' at h
    unfold PipelineRunner.sweep at h
    split at h
    next hidle =>
      cases h
      rw [Bool.and_eq_true, Bool.not_eq_true'] at hidle
      exact .sweep now (isEmpty_iff.mp hidle.1) hidle.2
    · cases h
  | sweeperExits =>
    change s.sweeperExits = some s' at h
    unfold sweeperExits at h
    split at h
    next hidle =>
      cases h
      rw [Bool.and_eq_true] at hidle
      exact .sweeperExits (isEmpty_iff.mp hidle.1)
    · cases h
  | stop =>
    change s.stop = some s' at h
    unfold stop at h
    split at h
    next hphase =>
      cases h
      exact .stop hphase
    · cases h
  | closeQueue =>
    change s.closeQueue = some s' at h
    unfold closeQueue at h
    split at h
    next hphase =>
      cases h
      exact .closeQueue hphase
    · cases h
  | failLost =>
    change s.failLost = some s' at h
    unfold failLost at h
    split at h
    next item todo lost hphase =>
      cases h
      exact .failLost item todo lost hphase
    next lost hphase =>
      cases h
      exact .lostFailed lost hphase
    · cases h
  | forgetLost =>
    change s.forgetLost = some s' at h
    unfold forgetLost at h
    split at h
    next item todo hphase =>
      cases h
      exact .forgetLost item todo hphase
    next hphase =>
      cases h
      exact .lostForgotten hphase
    · cases h
  | join inTime =>
    change s.join inTime = some s' at h
    unfold join at h
    split at h
    next hphase =>
      split at h
      next hjoined =>
        cases h
        rw [Bool.and_eq_true, List.all_eq_true] at hjoined
        refine .join inTime hphase (fun worker hworker => isExited_eq (hjoined.1 worker hworker)) fun hin => ?_
        simpa [hin] using hjoined.2
      · cases h
    · cases h
  | drain now =>
    change s.drain now = some s' at h
    unfold PipelineRunner.drain at h
    split at h
    next hphase =>
      cases h
      exact .drain now hphase
    · cases h
  | snapshot =>
    change s.snapshot = some s' at h
    unfold snapshot at h
    split at h
    next hphase =>
      split at h
      next hidle =>
        cases h
        exact .snapshot hphase (isEmpty_iff.mp hidle)
      · cases h
    · cases h
  | cancel =>
    change s.cancel = some s' at h
    unfold cancel at h
    split at h
    next key item todo hphase =>
      cases h
      exact .cancel key item todo hphase
    · cases h
  | «return» =>
    change s.returns = some s' at h
    unfold returns at h
    split at h
    next hphase =>
      cases h
      exact .return hphase
    · cases h

end PipelineRunner

end ShipInfer.Perception
