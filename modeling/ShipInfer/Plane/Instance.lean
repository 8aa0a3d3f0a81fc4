import ShipInfer.Queue.Model

/-!
# The instance of the C++ plane

`ModelInstance` of `csrc/shipinfer/engine/instance.cpp`, with the request and the
work item of `engine/request.h`. A step is what one thread does between two points
where another can come in. Which call of the engine throws, what the clock reads
and which items of the queue a call meets first comes with the step.
-/

namespace ShipInfer.Plane

open Queue (OverflowPolicy BatchWindow)

/-! ## Requests, items and responses -/

/-- `FrameTag` -/
structure FrameTag where
  cameraId : String := ""
  frameId : Int := -1
  deriving DecidableEq

structure InferenceRequest (α : Type) where
  tag : FrameTag := {}
  /-- What memory holds from the pointer on. -/
  data : Nat → α
  rows : Nat := 0
  rowElems : Nat := 0
  payloadDevice : Device := {}
  receivedNs : Int := 0

structure OutputTensor (α : Type) where
  name : String
  data : List α
  rowElems : Nat
  dims : List Nat
  deriving DecidableEq

structure InferenceResponse (α : Type) where
  modelName : String
  tag : FrameTag
  outputs : List (OutputTensor α)
  rows : Nat
  executedOn : Device
  timings : Timings
  deriving DecidableEq

/-- A request with the promise its caller waits on, which `id` stands for. -/
structure WorkItem (α : Type) where
  id : Nat
  request : InferenceRequest α
  enqueuedNs : Int := 0
  settled : Bool := false

/-- `rows()` -/
def WorkItem.rows {α : Type} (item : WorkItem α) : Nat := if item.request.rows = 0 then 1 else item.request.rows

theorem WorkItem.rows_pos {α : Type} (item : WorkItem α) : 0 < item.rows := by
  unfold rows
  split <;> omega

inductive Error
  | rowWidth (rowElems width : Nat)
  | tooManyRows (rows maxBatch : Nat)
  | queueFull (depth capacity : Nat)
  | deadlinePassed
  | stopped
  /-- A call of the engine threw. -/
  | engine (what : String)
  deriving DecidableEq

/-- What a promise is settled with. -/
inductive Outcome (α : Type)
  | completed (response : InferenceResponse α)
  | failed (error : Error)

/-! ## The engine and the configuration -/

structure OutputMeta where
  name : String
  dims : List Nat
  /-- `output_row_elems` -/
  width : Nat
  deriving DecidableEq

def elementsPerRow (dims : List Nat) : Nat := dims.foldr (· * ·) 1

structure Engine (α : Type) where
  device : Device := {}
  maxBatch : Nat
  inputRowElems : Nat
  outputs : List OutputMeta
  /-- What memory holds from the pointer of each output on, once so many rows of the
  input binding were run. -/
  execute : (Nat → α) → Nat → Nat → Nat → α

/-- The checked arguments of the constructor. -/
structure Config (α : Type) where
  name : String
  engine : Engine α
  window : BatchWindow
  queueCapacity : Nat
  overflow : OverflowPolicy := .reject
  capacity_pos : 1 ≤ queueCapacity
  /-- `require_shapes_agree` -/
  shaped : ∀ output ∈ engine.outputs, elementsPerRow output.dims = output.width
  within : window.maxBatchSize ≤ engine.maxBatch

variable {α : Type}

/-! ## A batch -/

/-- Which call of the engine throws while a batch is assembled. -/
inductive AssemblyFault
  | inputRowElems (what : String)
  | maxBatch (what : String)
  /-- `write_rows`, after so many calls of it went well. -/
  | writeRows (done : Nat) (what : String)

structure Batch (α : Type) where
  items : List (WorkItem α)
  spans : List (Nat × Nat)
  rows : Nat
  batchedNs : Int

/-- The loop over the items: their spans, and the offset behind the last. -/
def measure (width : Nat) : Nat → List (WorkItem α) → Except Error (List (Nat × Nat) × Nat)
  | offset, [] => .ok ([], offset)
  | offset, item :: items =>
    if item.request.rowElems ≠ width then .error (.rowWidth item.request.rowElems width)
    else
      match measure width (offset + item.rows) items with
      | .error e => .error e
      | .ok (spans, total) => .ok ((offset, offset + item.rows) :: spans, total)

/-- `write_rows` -/
def writeRows (width : Nat) (binding : Nat → α) (offset : Nat) (src : Nat → α) (rows : Nat) : Nat → α := fun k =>
  if offset * width ≤ k ∧ k < (offset + rows) * width then src (k - offset * width) else binding k

/-- The items written one after another, each at its span. -/
def writeItems (width : Nat) (binding : Nat → α) (items : List (WorkItem α × (Nat × Nat))) : Nat → α :=
  items.foldl (fun binding p => writeRows width binding p.2.1 p.1.request.data p.1.rows) binding

/-- What `execute_batch` does up to the run, and the input binding it leaves. -/
def assemble (cfg : Config α) (fault : Option AssemblyFault) (batchedNs : Int) (binding : Nat → α)
    (items : List (WorkItem α)) : Except Error (Batch α) × (Nat → α) :=
  let width := cfg.engine.inputRowElems
  match fault with
  | some (.inputRowElems what) => (.error (.engine what), binding)
  | fault =>
    match measure width 0 items with
    | .error e => (.error e, binding)
    | .ok (spans, rows) =>
      match fault with
      | some (.maxBatch what) => (.error (.engine what), binding)
      | fault =>
        if cfg.engine.maxBatch < rows then (.error (.tooManyRows rows cfg.engine.maxBatch), binding)
        else
          match fault with
          | some (.writeRows done what) =>
            if done < items.length then
              (.error (.engine what), writeItems width binding ((items.zip spans).take done))
            else
              (.ok { items := items, spans := spans, rows := rows, batchedNs := batchedNs },
                writeItems width binding (items.zip spans))
          | _ =>
            (.ok { items := items, spans := spans, rows := rows, batchedNs := batchedNs },
              writeItems width binding (items.zip spans))

/-- The words `start * width` up to `stop * width` behind a pointer. -/
def slice (base : Nat → α) (width : Nat) (span : Nat × Nat) : List α :=
  (List.range ((span.2 - span.1) * width)).map fun k => base (span.1 * width + k)

def outputTensors (engine : Engine α) (memory : Nat → Nat → α) (span : Nat × Nat) : List (OutputTensor α) :=
  engine.outputs.zipIdx.map fun p =>
    { name := p.1.name
      data := slice (memory p.2) p.1.width span
      rowElems := p.1.width
      dims := p.1.dims }

def respond (cfg : Config α) (memory : Nat → Nat → α) (timings : Timings) (item : WorkItem α) (span : Nat × Nat) :
    InferenceResponse α where
  modelName := cfg.name
  tag := item.request.tag
  outputs := outputTensors cfg.engine memory span
  rows := span.2 - span.1
  executedOn := cfg.engine.device
  timings := { timings with receivedNs := item.request.receivedNs, queuedNs := item.enqueuedNs }

/-! ## The threads -/

/-- Where the worker thread is, with the items out of the queue. -/
inductive Worker (α : Type)
  | unstarted
  | preparing
  /-- Before it looks at `running_`. -/
  | looping
  | assembling (items : List (WorkItem α))
  | executing (batch : Batch α)
  /-- Reads the names, shapes and pointers of the outputs. -/
  | reading (batch : Batch α) (memory : Nat → Nat → α) (timings : Timings)
  | scattering (memory : Nat → Nat → α) (timings : Timings) (done : List (WorkItem α))
      (todo : List (WorkItem α × (Nat × Nat)))
  | failing (error : Error) (items : List (WorkItem α))
  /-- In the handler, before `ready_` and `running_` are cleared. -/
  | dying (items : List (WorkItem α))
  /-- Fails what was in flight. -/
  | abandoning (items : List (WorkItem α))
  /-- Fails what it drained. -/
  | draining (items : List (WorkItem α))
  | finished

/-- Where a call of `stop` is. -/
inductive StopCall (α : Type)
  | entered
  | halted
  | unadvertised
  | draining (items : List (WorkItem α))

structure State (α : Type) where
  closed : Bool := false
  queue : List (WorkItem α) := []
  ready : Bool := false
  running : Bool := false
  startedOnce : Bool := false
  worker : Worker α := .unstarted
  /-- Past the look at `ready_`, before or in `put`. -/
  putting : List (WorkItem α) := []
  /-- Evicted by a `put` that has released the lock and not failed it yet. -/
  evicting : List (WorkItem α) := []
  stops : List (StopCall α) := []
  binding : Nat → α
  nextId : Nat := 0

structure Output (α : Type) where
  accepted : List (WorkItem α) := []
  /-- Left with the caller. -/
  refused : List (WorkItem α) := []
  settled : List (WorkItem α × Outcome α) := []
  /-- A call of `stop` returned. -/
  returned : Bool := false

/-- What the surroundings decide for one step of the worker. -/
structure Choice where
  /-- The items `get_batch` meets, each by its place among those left, and whether
  its deadline has passed. -/
  picks : List (Nat × Bool) := []
  assembly : Option AssemblyFault := none
  /-- The call of the engine throws. -/
  throws : Option String := none
  startNs : Int := 0
  endNs : Int := 0

inductive Event (α : Type)
  | start
  | enqueue (request : InferenceRequest α) (now : Int)
  /-- The `put` of one caller: the victim it would evict, and whether it has waited
  long enough for room. -/
  | put (i : Nat) (victim : Nat) (timedOut : Bool)
  | failEvicted (i : Nat)
  | work (choice : Choice)
  | stop
  | stopStep (i : Nat)

/-- `complete` and `fail`: the first call settles, a later one is ignored. -/
def settle (item : WorkItem α) (outcome : Outcome α) : List (WorkItem α × Outcome α) :=
  if item.settled then [] else [(item, outcome)]

namespace State

/-! ## Callers -/

/-- `enqueue` up to `put`. -/
def enqueue (s : State α) (request : InferenceRequest α) (now : Int) : State α × Output α :=
  let item : WorkItem α := { id := s.nextId, request := request, enqueuedNs := now }
  let received := if request.receivedNs = 0 then { request with receivedNs := now } else request
  if s.ready then
    ({ s with putting := s.putting ++ [{ item with request := received }], nextId := s.nextId + 1 }, {})
  else ({ s with nextId := s.nextId + 1 }, { refused := [item] })

/-- `put` of the queue, up to where it releases its lock. -/
def put (cfg : Config α) (s : State α) (i victim : Nat) (timedOut : Bool) : State α × Output α :=
  match s.putting[i]? with
  | none => (s, {})
  | some item =>
    let left := s.putting.eraseIdx i
    if s.closed then ({ s with putting := left }, { refused := [item] })
    else if s.queue.length < cfg.queueCapacity then
      ({ s with putting := left, queue := s.queue ++ [item] }, { accepted := [item] })
    else
      match cfg.overflow with
      | .reject => ({ s with putting := left }, { refused := [item] })
      | .block => if timedOut then ({ s with putting := left }, { refused := [item] }) else (s, {})
      | .dropOldest =>
        match s.queue[victim]? with
        | none => ({ s with putting := left }, { refused := [item] })
        | some evicted =>
          ({ s with
              putting := left
              queue := s.queue.eraseIdx victim ++ [item]
              evicting := s.evicting ++ [evicted] },
            { accepted := [item] })

def failEvicted (cfg : Config α) (s : State α) (i : Nat) : State α × Output α :=
  match s.evicting[i]? with
  | none => (s, {})
  | some item =>
    ({ s with evicting := s.evicting.eraseIdx i },
      { settled := settle item (.failed (.queueFull (cfg.queueCapacity + 1) cfg.queueCapacity)) })

def start (s : State α) : State α × Output α :=
  if s.startedOnce then (s, {}) else ({ s with startedOnce := true, running := true, worker := .preparing }, {})

/-! ## The worker -/

structure Drain (α : Type) where
  queue : List (WorkItem α)
  batch : List (WorkItem α) := []
  rows : Nat := 0
  expired : List (WorkItem α) := []

/-- `drain_locked` along the items it meets. -/
def drain (maxRows : Nat) : List (Nat × Bool) → Drain α → Drain α
  | [], d => d
  | (i, expired) :: picks, d =>
    match d.queue[i]? with
    | none => d
    | some item =>
      if d.batch ≠ [] ∧ maxRows < d.rows + item.rows then d
      else if expired then
        drain maxRows picks { d with queue := d.queue.eraseIdx i, expired := d.expired ++ [item] }
      else
        let d := { d with queue := d.queue.eraseIdx i, batch := d.batch ++ [item], rows := d.rows + item.rows }
        if maxRows ≤ d.rows then d else drain maxRows picks d

/-- One round of the loop, up to the batch. -/
def loop (cfg : Config α) (s : State α) (picks : List (Nat × Bool)) : State α × Output α :=
  if !s.running then ({ s with ready := false, worker := .abandoning [] }, {})
  else if s.queue = [] then
    if s.closed then ({ s with ready := false, worker := .abandoning [] }, {}) else (s, {})
  else
    let d := drain cfg.window.maxBatchSize picks { queue := s.queue }
    let s := { s with queue := d.queue }
    let output := { settled := d.expired.flatMap fun item => settle item (.failed .deadlinePassed) }
    if d.batch = [] then (s, output) else ({ s with worker := .assembling d.batch }, output)

def close (s : State α) : State α := { s with closed := true, queue := [] }

/-- One step of the worker thread. -/
def work (cfg : Config α) (s : State α) (choice : Choice) : State α × Output α :=
  match s.worker with
  | .unstarted => (s, {})
  | .preparing =>
    match choice.throws with
    | some _ => ({ s.close with worker := .draining s.queue }, {})
    | none => ({ s with ready := true, worker := .looping }, {})
  | .looping => s.loop cfg choice.picks
  | .assembling items =>
    match assemble cfg choice.assembly choice.startNs s.binding items with
    | (.error e, binding) => ({ s with binding := binding, worker := .failing e items }, {})
    | (.ok batch, binding) => ({ s with binding := binding, worker := .executing batch }, {})
  | .executing batch =>
    match choice.throws with
    | some what => ({ s with worker := .failing (.engine what) batch.items }, {})
    | none =>
      let timings : Timings :=
        { batchedNs := batch.batchedNs, computeStartNs := choice.startNs, computeEndNs := choice.endNs }
      ({ s with worker := .reading batch (cfg.engine.execute s.binding batch.rows) timings }, {})
  | .reading batch memory timings =>
    match choice.throws with
    | some _ => ({ s with worker := .dying batch.items }, {})
    | none =>
      let timings := { timings with completedNs := choice.endNs }
      ({ s with worker := .scattering memory timings [] (batch.items.zip batch.spans) }, {})
  | .scattering memory timings done todo =>
    match todo with
    | [] => ({ s with worker := .looping }, {})
    | p :: todo' =>
      match choice.throws with
      | some _ => ({ s with worker := .dying (done ++ todo.map Prod.fst) }, {})
      | none =>
        ({ s with worker := .scattering memory timings (done ++ [{ p.1 with settled := true }]) todo' },
          { settled := settle p.1 (.completed (respond cfg memory timings p.1 p.2)) })
  | .failing error items =>
    match items with
    | [] => ({ s with worker := .looping }, {})
    | item :: items => ({ s with worker := .failing error items }, { settled := settle item (.failed error) })
  | .dying items => ({ s with ready := false, running := false, worker := .abandoning items }, {})
  | .abandoning items =>
    match items with
    | [] => ({ s.close with worker := .draining s.queue }, {})
    | item :: items => ({ s with worker := .abandoning items }, { settled := settle item (.failed .stopped) })
  | .draining items =>
    match items with
    | [] => ({ s with worker := .finished }, {})
    | item :: items => ({ s with worker := .draining items }, { settled := settle item (.failed .stopped) })
  | .finished => (s, {})

/-! ## Stopping -/

/-- Nothing to join, or it has ended. -/
def joined (s : State α) : Bool :=
  match s.worker with
  | .unstarted | .finished => true
  | _ => false

def stopStep (s : State α) (i : Nat) : State α × Output α :=
  match s.stops[i]? with
  | none => (s, {})
  | some .entered => ({ s with running := false, stops := s.stops.set i .halted }, {})
  | some .halted => ({ s with ready := false, stops := s.stops.set i .unadvertised }, {})
  | some .unadvertised => ({ s.close with stops := s.stops.set i (.draining s.queue) }, {})
  | some (.draining (item :: items)) =>
    ({ s with stops := s.stops.set i (.draining items) }, { settled := settle item (.failed .stopped) })
  | some (.draining []) => if s.joined then ({ s with stops := s.stops.eraseIdx i }, { returned := true }) else (s, {})

end State

def step (cfg : Config α) (s : State α) : Event α → State α × Output α
  | .start => s.start
  | .enqueue request now => s.enqueue request now
  | .put i victim timedOut => s.put cfg i victim timedOut
  | .failEvicted i => s.failEvicted cfg i
  | .work choice => s.work cfg choice
  | .stop => ({ s with stops := s.stops ++ [.entered] }, {})
  | .stopStep i => s.stopStep i

/-! ## The way of an item -/

def heldBy : Worker α → List (WorkItem α)
  | .assembling items | .failing _ items | .dying items | .abandoning items | .draining items => items
  | .executing batch | .reading batch _ _ => batch.items
  | .scattering _ _ done todo => done ++ todo.map Prod.fst
  | .unstarted | .preparing | .looping | .finished => []

def StopCall.held : StopCall α → List (WorkItem α)
  | .draining items => items
  | _ => []

namespace State

/-- Out of the queue, in the hand of a caller of `enqueue` or `stop`. -/
def callersHold (s : State α) : List (WorkItem α) := s.evicting ++ s.stops.flatMap StopCall.held

/-- Accepted and not settled. -/
def pending (s : State α) : List (WorkItem α) :=
  (s.queue ++ (heldBy s.worker ++ s.callersHold)).filter (!·.settled)

end State

end ShipInfer.Plane
