import ShipInfer.Lib.Machine
import ShipInfer.Perception.Graph

/-!
# The pipeline runner

`PipelineRunner` of `pipeline/runner.py`: its workers, its sweeper and `stop`, on the
collector of `pipeline/reassembly/collector.py`. A step is what one thread does between
two points where another can come in. What the clock reads, which items a worker gets,
what the stages of a graph do, and how the building and the publishing of an event end
come with the step. The queue may fail an item at any time.
-/

namespace ShipInfer.Perception

open Reassembly (PendingKey FrameResult FrameCollector Reason)

/-! ## Items and what becomes of them -/

/-- A request with its future, which the number stands for. -/
structure Item where
  number : Nat
  request : InferenceRequest
  deriving DecidableEq

def Item.key (item : Item) : PendingKey := item.request.context.key

inductive RunnerError
  | queue
  | deadlinePassed
  | pipelineFailed
  | refused
  | evicted
  | noEvent
  | sinkDropped
  | stopped
  deriving DecidableEq

/-- What a future is settled with; an event by the result it is built from. -/
inductive Verdict
  | event (result : FrameResult)
  | failed (error : RunnerError)
  deriving DecidableEq

structure RunnerConfig where
  reassembly : Reassembly.Config
  graph : PipelineGraph
  inputName : String
  /-- 0 disables it. -/
  budgetNs : Int

/-- `FrameState.from_request`: what the collector reads of the frame, and what the graph does. -/
def fromRequest (inputName : String) (request : InferenceRequest) : Option (Reassembly.FrameState × FrameState) :=
  match request.inputs.get? inputName with
  | none => none
  | some tensor =>
    match tensor.shape with
    | [1, height, width, 3] =>
      if tensor.dtype = .uint8 then
        some ({ context := request.context, deadlineNs := request.deadlineNs }, { image := height * width * 3 })
      else none
    | _ => none

/-- The deadline of a frame, its budget counted from now. -/
def budgeted (budgetNs : Int) (state : Reassembly.FrameState) (now : Int) : Reassembly.FrameState :=
  if budgetNs = 0 then state
  else
    { state with
      deadlineNs := if state.deadlineNs = 0 then now + budgetNs else min state.deadlineNs (now + budgetNs) }

/-! ## Threads -/

/-- Where a thread is in `_emit`. -/
inductive Emitting
  | none
  | popped (result : FrameResult) (future : Option Item)
  | settling (future : Option Item) (verdict : Verdict)

/-- The results a thread has yet to emit, and the one it emits. -/
structure Hand where
  results : List FrameResult := []
  current : Emitting := .none

def Hand.isEmpty (hand : Hand) : Bool :=
  match hand.current with
  | .none => hand.results.isEmpty
  | .popped _ _ => false
  | .settling _ _ => false

/-- How the building and the publishing of an event end. -/
inductive Delivery
  | buildFails
  | dropped
  | recordFails
  | published

/-- Where a worker is in `_work` and `_run_frame`, with the rest of its batch. -/
inductive Phase
  | batch (rest : List Item)
  | registering (item : Item) (state : Reassembly.FrameState) (frame : FrameState) (rest : List Item)
  | opening (item : Item) (state : Reassembly.FrameState) (frame : FrameState) (rest : List Item)
  | refused (item : Item) (rest : List Item)
  | failing (item : Item) (rest : List Item)
  | running (key : PendingKey) (calls : List PipelineGraph.Call) (rest : List Item)
  | exited

structure Worker where
  phase : Phase := .batch []
  hand : Hand := {}

/-- Where `stop` is. -/
inductive StopPhase
  | notCalled
  | closing
  | failing (todo lost : List Item)
  | forgetting (todo : List Item)
  | joining
  | draining
  | emitting
  | cancelling (todo : List (PendingKey × Item))
  | returned
  deriving DecidableEq

structure PipelineRunner where
  queue : List Item := []
  queueClosed : Bool := false
  stopping : Bool := false
  collector : FrameCollector := {}
  /-- `_awaiting` -/
  awaiting : Dict PendingKey Item := .empty
  workers : List Worker
  sweeper : Hand := {}
  sweeperExited : Bool := false
  stopper : Hand := {}
  stopPhase : StopPhase := .notCalled
  /-- Whether the sweeper was joined in time. -/
  sweeperInTime : Bool := true
  /-- What was put on the queue, what a worker took from it, what became of the futures and
  what the sink was handed. -/
  put : List Item := []
  taken : List Item := []
  settled : List (Item × Verdict) := []
  handed : List FrameResult := []

inductive Thread
  | worker (w : Nat)
  | sweeper
  | stopper

inductive Act
  | put (request : InferenceRequest)
  | queueFails (item : Item)
  | getBatch (w : Nat) (batch : List Item)
  | exit (w : Nat)
  | runFrame (w : Nat) (now : Int)
  | register (w : Nat)
  | «open» (w : Nat) (now evictNow : Int) (outcomes : Stage → Outcome)
  | unregister (w : Nat)
  | fail (w : Nat)
  | observe (w : Nat)
  | «seal» (w : Nat) (now : Int)
  | pop (thread : Thread)
  | emit (thread : Thread) (delivery : Delivery)
  | settle (thread : Thread)
  | sweep (now : Int)
  | sweeperExits
  | stop
  | closeQueue
  | failLost
  | forgetLost
  | join (sweeperInTime : Bool)
  | drain (now : Int)
  | snapshot
  | cancel
  | «return»

namespace PipelineRunner

def start (workers : Nat) : PipelineRunner := { workers := List.replicate workers {} }

/-- An item's future gets its verdict. -/
def settleWith (s : PipelineRunner) (item : Item) (verdict : Verdict) : PipelineRunner :=
  { s with settled := s.settled ++ [(item, verdict)] }

def isDone (s : PipelineRunner) (item : Item) : Bool := decide (item ∈ s.settled.map Prod.fst)

/-- A worker goes on. -/
def goto (s : PipelineRunner) (w : Nat) (phase : Phase) : PipelineRunner :=
  { s with workers := s.workers.set w { phase := phase } }

/-- A worker with nothing to emit, where it is. -/
def phaseOf (s : PipelineRunner) (w : Nat) : Option Phase :=
  match s.workers[w]? with
  | none => none
  | some worker => if worker.hand.isEmpty then some worker.phase else none

/-- What a call of the collector took out goes to the hands of its caller. -/
def takeOut (c : FrameCollector) : FrameCollector × Hand := ({ c with publishing := [] }, { results := c.publishing })

/-! ### The queue -/

def putItem (s : PipelineRunner) (request : InferenceRequest) : Option PipelineRunner :=
  if s.queueClosed then none
  else
    let item : Item := { number := s.put.length, request := request }
    some { s with queue := s.queue ++ [item], put := s.put ++ [item] }

/-- An item that is past its deadline, or makes room for another. -/
def queueFails (s : PipelineRunner) (item : Item) : Option PipelineRunner :=
  if item ∈ s.queue then some ({ s with queue := s.queue.erase item }.settleWith item (.failed .queue)) else none

/-! ### The workers -/

def getBatch (s : PipelineRunner) (w : Nat) (batch : List Item) : Option PipelineRunner :=
  match s.phaseOf w with
  | some (.batch []) =>
    if batch.Perm (s.queue.filter fun item => decide (item ∈ batch)) then
      some ({ s with
        queue := s.queue.filter fun item => decide (item ∉ batch)
        taken := s.taken ++ batch }.goto w (.batch batch))
    else none
  | _ => none

def exit (s : PipelineRunner) (w : Nat) : Option PipelineRunner :=
  match s.phaseOf w with
  | some (.batch []) => if s.stopping || s.queueClosed then some (s.goto w .exited) else none
  | _ => none

/-- The next frame of a batch, up to its state. -/
def runFrame (cfg : RunnerConfig) (s : PipelineRunner) (w : Nat) (now : Int) : Option PipelineRunner :=
  match s.phaseOf w with
  | some (.batch (item :: rest)) =>
    if item.request.isExpired now then some ((s.goto w (.batch rest)).settleWith item (.failed .deadlinePassed))
    else
      match fromRequest cfg.inputName item.request with
      | none =>
        let s := s.goto w (.batch rest)
        some (if s.isDone item then s else s.settleWith item (.failed .pipelineFailed))
      | some (state, frame) => some (s.goto w (.registering item (budgeted cfg.budgetNs state now) frame rest))
  | _ => none

/-- `self._awaiting.setdefault(key, item.future)` -/
def register (s : PipelineRunner) (w : Nat) : Option PipelineRunner :=
  match s.phaseOf w with
  | some (.registering item state frame rest) =>
    let awaiting := if s.awaiting.contains state.key then s.awaiting else s.awaiting.set state.key item
    some ({ s with awaiting := awaiting }.goto w (.opening item state frame rest))
  | _ => none

def «open» (cfg : RunnerConfig) (s : PipelineRunner) (w : Nat) (now evictNow : Int) (outcomes : Stage → Outcome) :
    Option PipelineRunner :=
  match s.phaseOf w with
  | some (.opening item state frame rest) =>
    let r := s.collector.open cfg.reassembly state [cfg.graph.entry.name] now evictNow
    let c := takeOut r.1
    let phase :=
      if r.2.isOpened then .running state.key ((cfg.graph.execute outcomes frame).flatMap PipelineGraph.Turn.calls) rest
      else .refused item rest
    some { s with collector := c.1, workers := s.workers.set w { phase := phase, hand := c.2 } }
  | _ => none

/-- `if self._awaiting.get(key) is item.future: del self._awaiting[key]` -/
def unregister (s : PipelineRunner) (w : Nat) : Option PipelineRunner :=
  match s.phaseOf w with
  | some (.refused item rest) =>
    let awaiting := if s.awaiting.get? item.key = some item then s.awaiting.erase item.key else s.awaiting
    some ({ s with awaiting := awaiting }.goto w (.failing item rest))
  | _ => none

def fail (s : PipelineRunner) (w : Nat) : Option PipelineRunner :=
  match s.phaseOf w with
  | some (.failing item rest) => some ((s.goto w (.batch rest)).settleWith item (.failed .refused))
  | _ => none

/-- A call of the graph to its observer. -/
def observe (cfg : RunnerConfig) (s : PipelineRunner) (w : Nat) : Option PipelineRunner :=
  match s.phaseOf w with
  | some (.running key (call :: calls) rest) =>
    let c :=
      match PipelineGraph.observe key call with
      | none => s.collector
      | some event => (s.collector.step cfg.reassembly event).1
    some ({ s with collector := c }.goto w (.running key calls rest))
  | _ => none

def «seal» (s : PipelineRunner) (w : Nat) (now : Int) : Option PipelineRunner :=
  match s.phaseOf w with
  | some (.running key [] rest) =>
    let c := takeOut (s.collector.seal key now)
    some { s with collector := c.1, workers := s.workers.set w { phase := .batch rest, hand := c.2 } }
  | _ => none

/-! ### Emission -/

def handOf (s : PipelineRunner) : Thread → Option Hand
  | .worker w => (s.workers[w]?).map Worker.hand
  | .sweeper => some s.sweeper
  | .stopper => some s.stopper

def setHand (s : PipelineRunner) (hand : Hand) : Thread → PipelineRunner
  | .worker w => { s with workers := s.workers.modify w fun worker => { worker with hand := hand } }
  | .sweeper => { s with sweeper := hand }
  | .stopper => { s with stopper := hand }

/-- `_publish`, up to where `_emit` takes the future. -/
def pop (s : PipelineRunner) (thread : Thread) : Option PipelineRunner :=
  match s.handOf thread with
  | some { results := r :: results, current := .none } =>
    some ({ s with
      collector := ({ s.collector with publishing := [r] }.publish 0).1
      awaiting := s.awaiting.erase r.state.key }.setHand
        { results := results, current := .popped r (s.awaiting.get? r.state.key) } thread)
  | _ => none

/-- `_emit_resolved`: what the sink is handed, and what the future is to get. -/
def resolve (r : FrameResult) : Delivery → List FrameResult × Verdict
  | delivery =>
    if r.reason = .evicted then ([], .failed .evicted)
    else
      match delivery with
      | .buildFails => ([], .failed .noEvent)
      | .dropped => ([r], .failed .sinkDropped)
      | .recordFails => ([r], .failed .noEvent)
      | .published => ([r], .event r)

def emit (s : PipelineRunner) (thread : Thread) (delivery : Delivery) : Option PipelineRunner :=
  match s.handOf thread with
  | some { results := results, current := .popped r future } =>
    some ({ s with handed := s.handed ++ (resolve r delivery).1 }.setHand
      { results := results, current := .settling future (resolve r delivery).2 } thread)
  | _ => none

def settle (s : PipelineRunner) (thread : Thread) : Option PipelineRunner :=
  match s.handOf thread with
  | some { results := results, current := .settling future verdict } =>
    let s := s.setHand { results := results } thread
    match future with
    | none => some s
    | some item => some (s.settleWith item verdict)
  | _ => none

/-! ### The sweeper and `stop` -/

def sweep (s : PipelineRunner) (now : Int) : Option PipelineRunner :=
  if s.sweeper.isEmpty && !s.sweeperExited then
    let c := takeOut (s.collector.sweep now)
    some { s with collector := c.1, sweeper := c.2 }
  else none

def sweeperExits (s : PipelineRunner) : Option PipelineRunner :=
  if s.sweeper.isEmpty && s.stopping then some { s with sweeperExited := true } else none

def stop (s : PipelineRunner) : Option PipelineRunner :=
  match s.stopPhase with
  | .notCalled => some { s with stopping := true, stopPhase := .closing }
  | _ => none

def closeQueue (s : PipelineRunner) : Option PipelineRunner :=
  match s.stopPhase with
  | .closing => some { s with queueClosed := true, queue := [], stopPhase := .failing s.queue s.queue }
  | _ => none

def failLost (s : PipelineRunner) : Option PipelineRunner :=
  match s.stopPhase with
  | .failing (item :: todo) lost => some ({ s with stopPhase := .failing todo lost }.settleWith item (.failed .queue))
  | .failing [] lost => some { s with stopPhase := .forgetting lost }
  | _ => none

def forgetLost (s : PipelineRunner) : Option PipelineRunner :=
  match s.stopPhase with
  | .forgetting (item :: todo) => some { s with awaiting := s.awaiting.erase item.key, stopPhase := .forgetting todo }
  | .forgetting [] => some { s with stopPhase := .joining }
  | _ => none

def Worker.isExited (worker : Worker) : Bool :=
  match worker.phase with
  | .exited => worker.hand.isEmpty
  | _ => false

/-- Every worker joined in time, the sweeper or not. -/
def join (s : PipelineRunner) (sweeperInTime : Bool) : Option PipelineRunner :=
  match s.stopPhase with
  | .joining =>
    if s.workers.all Worker.isExited && (!sweeperInTime || s.sweeperExited) then
      some { s with stopPhase := .draining, sweeperInTime := s.sweeperInTime && sweeperInTime }
    else none
  | _ => none

def drain (s : PipelineRunner) (now : Int) : Option PipelineRunner :=
  match s.stopPhase with
  | .draining =>
    let c := takeOut (s.collector.drain now)
    some { s with collector := c.1, stopper := c.2, stopPhase := .emitting }
  | _ => none

/-- `list(self._awaiting.items())` -/
def snapshot (s : PipelineRunner) : Option PipelineRunner :=
  match s.stopPhase with
  | .emitting => if s.stopper.isEmpty then some { s with stopPhase := .cancelling s.awaiting.entries } else none
  | _ => none

def cancel (s : PipelineRunner) : Option PipelineRunner :=
  match s.stopPhase with
  | .cancelling ((key, item) :: todo) =>
    some ({ s with awaiting := s.awaiting.erase key, stopPhase := .cancelling todo }.settleWith item (.failed .stopped))
  | _ => none

def returns (s : PipelineRunner) : Option PipelineRunner :=
  match s.stopPhase with
  | .cancelling [] => some { s with stopPhase := .returned }
  | _ => none

/-! ### Steps -/

def step (cfg : RunnerConfig) (s : PipelineRunner) : Act → Option PipelineRunner
  | .put request => s.putItem request
  | .queueFails item => s.queueFails item
  | .getBatch w batch => s.getBatch w batch
  | .exit w => s.exit w
  | .runFrame w now => s.runFrame cfg w now
  | .register w => s.register w
  | .open w now evictNow outcomes => s.open cfg w now evictNow outcomes
  | .unregister w => s.unregister w
  | .fail w => s.fail w
  | .observe w => s.observe cfg w
  | .seal w now => s.seal w now
  | .pop thread => s.pop thread
  | .emit thread delivery => s.emit thread delivery
  | .settle thread => s.settle thread
  | .sweep now => s.sweep now
  | .sweeperExits => s.sweeperExits
  | .stop => s.stop
  | .closeQueue => s.closeQueue
  | .failLost => s.failLost
  | .forgetLost => s.forgetLost
  | .join sweeperInTime => s.join sweeperInTime
  | .drain now => s.drain now
  | .snapshot => s.snapshot
  | .cancel => s.cancel
  | .return => s.returns

/-- A runner of so many workers from its start on. -/
def machine (cfg : RunnerConfig) (workers : Nat) : Machine PipelineRunner Act where
  init s := s = start workers
  step s act t := s.step cfg act = some t

end PipelineRunner

end ShipInfer.Perception
