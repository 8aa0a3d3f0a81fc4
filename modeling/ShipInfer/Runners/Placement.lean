import Mathlib.Data.List.Count
import ShipInfer.Core.Request
import ShipInfer.Ingest.Manager
import ShipInfer.Topology.Chain

/-!
# The cameras of a runner

`add_camera`, `remove_camera`, `drain`, `start` and `stop` of `runners/inprocess.py`, each
under `_lifecycle`, over the ingest manager, the bands of `runners/bands.py` and the elements
of the chain. What the calls out of an operation come back with is part of the operation.
-/

namespace ShipInfer.Ingest.IngestManager

/-- `add_camera` from beginning to end, with nobody else at the manager. -/
def addCamera (m : IngestManager) (camera : String) (built starts : Bool) : IngestManager × IngestOutput :=
  if m.actors.contains camera then (m, .duplicate camera)
  else if built then
    let cleared := ((m.step (.add camera)).1.step (.clear m.built.length)).1
    if starts then (cleared.step (.launch m.built.length)).1.step (.recheck m.built.length)
    else cleared.step (.launchFails m.built.length)
  else (m, .raised)

/-- The next `n` signals of a removal or a stop. -/
def signalled (m : IngestManager) (k n : Nat) : IngestManager := (fun m => m.requestStop k)^[n] m

/-- `remove_camera` as far as the join. -/
def removeCamera (m : IngestManager) (camera : String) : IngestManager × IngestOutput :=
  let r := m.remove camera
  (r.1.signalled m.stopping.length 1, r.2)

/-- `stop` as far as the joins. -/
def stopAll (m : IngestManager) : IngestManager := m.stop.signalled m.stopping.length (2 * m.actors.size)

variable {m : IngestManager} {camera : String}

@[simp] theorem actors_requestStop (m : IngestManager) (k : Nat) : (m.requestStop k).actors = m.actors := by
  unfold requestStop
  split
  · dsimp only
    split <;> rfl
  · rfl

@[simp] theorem actors_signalled (m : IngestManager) (k n : Nat) : (m.signalled k n).actors = m.actors := by
  induction n generalizing m with
  | zero => rfl
  | succ n ih => exact (ih (m.requestStop k)).trans (actors_requestStop m k)

@[simp] theorem actors_stopAll (m : IngestManager) : m.stopAll.actors = .empty := actors_signalled _ _ _

theorem addCamera_of_held (h : m.actors.contains camera = true) (built starts : Bool) :
    m.addCamera camera built starts = (m, .duplicate camera) := by
  simp [addCamera, h]

theorem addCamera_of_unbuilt (h : m.actors.contains camera = false) (starts : Bool) :
    m.addCamera camera false starts = (m, .raised) := by
  simp [addCamera, h]

/-- The re-check finds the actor. -/
theorem addCamera_of_new (h : m.actors.contains camera = false) :
    (m.addCamera camera true true).2 = .quiet ∧
      (m.addCamera camera true true).1.actors = m.actors.set camera m.built.length := by
  simp [addCamera, h, step, add, onActor, setActor, recheck]

theorem removeCamera_of_held (h : m.actors.contains camera = true) :
    (m.removeCamera camera).2 = .quiet ∧ (m.removeCamera camera).1.actors = m.actors.erase camera := by
  obtain ⟨i, hi⟩ := Option.isSome_iff_exists.mp h
  simp [removeCamera, remove, hi]

theorem removeCamera_of_missing (h : m.actors.contains camera = false) :
    (m.removeCamera camera).2 ≠ .quiet ∧ (m.removeCamera camera).1.actors = m.actors := by
  have hi : m.actors.get? camera = none := by simpa [Dict.contains] using h
  simp [removeCamera, remove, hi]

end ShipInfer.Ingest.IngestManager

namespace ShipInfer.Runners

open Ingest (IngestManager IngestOutput)
open Chain (Caps ElementNode crossCameraSlots)

structure PriorityBands where
  configured : Dict String Priority := .empty
  placements : Dict String Priority := .empty

namespace PriorityBands

def configure (b : PriorityBands) (bands : List (String × Priority)) : PriorityBands :=
  { b with configured := b.configured.update bands }

def recordPlacement (b : PriorityBands) (camera : String) : Option Priority → PriorityBands
  | none => { b with placements := b.placements.erase camera }
  | some band => { b with placements := b.placements.set camera band }

def placed (b : PriorityBands) (camera : String) : Option Priority := b.placements.get? camera

def restore (b : PriorityBands) (camera : String) (previous : Option Priority) : PriorityBands :=
  b.recordPlacement camera previous

def forgetPlacement (b : PriorityBands) (camera : String) : PriorityBands :=
  { b with placements := b.placements.erase camera }

def clearPlacements (b : PriorityBands) : PriorityBands := { b with placements := .empty }

def learn (b : PriorityBands) (camera : String) : Priority × PriorityBands :=
  match b.configured.get? camera with
  | some band => (band, b)
  | none => (.normal, { b with configured := b.configured.set camera .normal })

def forCamera (b : PriorityBands) (camera : String) : Priority × PriorityBands :=
  match b.placed camera, b.configured.get? camera with
  | some band, _ => (band, b)
  | none, some band => (band, b)
  | none, none => b.learn camera

@[simp] theorem placed_configure (b : PriorityBands) (bands : List (String × Priority)) (camera : String) :
    (b.configure bands).placed camera = b.placed camera := rfl

@[simp] theorem placed_recordPlacement (b : PriorityBands) (camera : String) (band : Option Priority) (d : String) :
    (b.recordPlacement camera band).placed d = if d = camera then band else b.placed d := by
  cases band with
  | none => simp [recordPlacement, placed, Dict.get?_erase]
  | some band => simp [recordPlacement, placed, Dict.get?_set]

@[simp] theorem placed_restore (b : PriorityBands) (camera : String) (previous : Option Priority) (d : String) :
    (b.restore camera previous).placed d = if d = camera then previous else b.placed d :=
  placed_recordPlacement b camera previous d

@[simp] theorem placed_forgetPlacement (b : PriorityBands) (camera d : String) :
    (b.forgetPlacement camera).placed d = if d = camera then none else b.placed d :=
  placed_recordPlacement b camera none d

@[simp] theorem placed_clearPlacements (b : PriorityBands) (camera : String) :
    b.clearPlacements.placed camera = none := rfl

@[simp] theorem placed_forCamera (b : PriorityBands) (camera d : String) :
    (b.forCamera camera).2.placed d = b.placed d := by
  unfold forCamera
  split
  · rfl
  · rfl
  · unfold learn
    split <;> rfl

end PriorityBands

structure CameraSpec where
  cameraId : String
  url : String
  fps : Rat := 0
  loop : Bool := true
  priority : Option Priority := none
  deriving DecidableEq

structure CameraConfig where
  cameraId : String
  uri : String
  fps : Rat
  source : Option String
  loop : Bool
  priority : Priority
  deriving DecidableEq

structure Head where
  caps : Caps
  source : Option String

inductive CameraRefusal
  | serverState (camera : String)
  | duplicate (camera : String)
  | configuration (detail : String)
  /-- Whatever else a call raises. -/
  | raised
  deriving DecidableEq

inductive Announcement
  | cameraAdded (camera : String)
  | cameraRemoved (camera : String)
  deriving DecidableEq

/-- How a hook of an element ends; `escaped` is no `Exception`. -/
inductive HookEnd
  | returned
  | raised
  | escaped
  deriving DecidableEq

structure PlacedElement where
  node : ElementNode
  isOpen : Bool := false
  /-- What it has been told since it was last opened. -/
  told : List Announcement := []

namespace PlacedElement

def tell (e : PlacedElement) (a : Announcement) : PlacedElement := { e with told := e.told ++ [a] }

/-- `Element.open`, when its hook returns. -/
def opened (e : PlacedElement) : PlacedElement := if e.isOpen then e else { e with isOpen := true, told := [] }

/-- `Element.close`: it is marked closed before its hook runs. -/
def closed (e : PlacedElement) : PlacedElement := { e with isOpen := false }

end PlacedElement

/-- `_announce`, and whether it comes to its end. -/
def announce (a : Announcement) : List PlacedElement → (Nat → HookEnd) → List PlacedElement × Bool
  | [], _ => ([], true)
  | e :: es, hook =>
    if hook 0 = .escaped then (e.tell a :: es, false)
    else
      let r := announce a es fun i => hook (i + 1)
      (e.tell a :: r.1, r.2)

def announceRemoved : List String → List PlacedElement → (Nat → Nat → HookEnd) → List PlacedElement × Bool
  | [], es, _ => (es, true)
  | camera :: cameras, es, hook =>
    let r := announce (.cameraRemoved camera) es (hook 0)
    if r.2 then announceRemoved cameras r.1 fun k => hook (k + 1) else r

/-- Opening in order, until an `open` raises. -/
def openAll : List PlacedElement → (Nat → Bool) → List PlacedElement × Bool
  | [], _ => ([], true)
  | e :: es, opens =>
    if e.isOpen || opens 0 then
      let r := openAll es fun i => opens (i + 1)
      (e.opened :: r.1, r.2)
    else (e :: es, false)

/-- Closing in order, until a `close` lets something escape that is no `Exception`. -/
def closeAll : List PlacedElement → (Nat → HookEnd) → List PlacedElement × Bool
  | [], _ => ([], true)
  | e :: es, hook =>
    if e.isOpen && decide (hook 0 = .escaped) then (e.closed :: es, false)
    else
      let r := closeAll es fun i => hook (i + 1)
      (e.closed :: r.1, r.2)

/-- What the calls out of `add_camera` come back with. -/
structure AddCalls where
  /-- `configured_cameras` -/
  configured : Except CameraRefusal (List (String × Priority)) := .ok []
  /-- The validators of `CameraConfig` accept the values. -/
  valid : Bool := true
  /-- `CameraActor` can be constructed, and its thread starts. -/
  built : Bool := true
  starts : Bool := true
  hook : Nat → HookEnd := fun _ => .returned

/-- What the calls out of `_do_stop` come back with. -/
structure StopCalls where
  /-- The actors that had to be abandoned; `none`: joining them raises. -/
  joined : Option Nat := some 0
  /-- The queue closes, the workers are joined and the items in flight failed. -/
  drained : Bool := true
  close : Nat → HookEnd := fun _ => .returned

structure StartCalls where
  /-- The queue is open or can be built anew. -/
  queue : Bool := true
  opens : Nat → Bool := fun _ => true
  threads : Bool := true
  unwind : StopCalls := {}

inductive Operation
  | start (calls : StartCalls)
  | addCamera (camera : CameraSpec) (calls : AddCalls)
  /-- Whether the thread was joined; `none`: joining it raises. -/
  | removeCamera (camera : String) (joined : Option Bool) (hook : Nat → HookEnd)
  | drain (joined : Option Nat) (hook : Nat → Nat → HookEnd)
  | stop (calls : StopCalls)

inductive PlacementReply
  | done
  /-- The slots of the warning that none of them lists the camera, if it is given. -/
  | added (orphaned : Option (List String))
  | removed (clean : Bool)
  | drained (abandoned : Nat)
  deriving DecidableEq

/-- `_head` of the chain. -/
abbrev HeadOf := Except CameraRefusal Head

structure Placement where
  running : Bool := false
  manager : Option IngestManager := none
  bands : PriorityBands := {}
  elements : List PlacedElement
  /-- The band on the spec that a camera's last actor was made for. -/
  named : String → Option Priority := fun _ => none

namespace Placement

/-- The runner of a chain. -/
def init (nodes : List ElementNode) : Placement := { elements := nodes.map fun node => { node := node } }

/-- The ingest manager holds the camera. -/
def holds (s : Placement) (camera : String) : Bool := s.manager.any (·.actors.contains camera)

/-- `_ingest` -/
def ingest (head : HeadOf) (s : Placement) (configured : Except CameraRefusal (List (String × Priority))) :
    Except CameraRefusal (Placement × IngestManager) :=
  match s.manager with
  | some m => .ok (s, m)
  | none => do
    let _ ← head
    let bands ← configured
    .ok ({ s with manager := some {}, bands := s.bands.configure bands }, {})

/-- `_admit_at` -/
def admitAt (s : Placement) (camera : CameraSpec) : Placement :=
  { s with bands := s.bands.recordPlacement camera.cameraId camera.priority }

/-- `_camera_config` -/
def cameraConfig (head : HeadOf) (s : Placement) (camera : CameraSpec) (valid : Bool) :
    Except CameraRefusal CameraConfig × Placement :=
  match head with
  | .error e => (.error e, s)
  | .ok head =>
    let r := s.bands.forCamera camera.cameraId
    (if valid then .ok { cameraId := camera.cameraId, uri := camera.url, fps := camera.fps, source := head.source
                         loop := camera.loop, priority := r.1 }
      else .error .raised,
      { s with bands := r.2 })

/-- The `try` of `add_camera`. -/
def startActor (head : HeadOf) (s : Placement) (m : IngestManager) (camera : CameraSpec) (calls : AddCalls) :
    Placement × Except CameraRefusal Unit :=
  match s.cameraConfig head camera calls.valid with
  | (.error e, s) => (s, .error e)
  | (.ok config, s) =>
    let r := m.addCamera config.cameraId calls.built calls.starts
    let held := { s with manager := some r.1, named := Function.update s.named config.cameraId camera.priority }
    match r.2 with
    | .quiet => (held, .ok ())
    | .duplicate camera => (s, .error (.duplicate camera))
    | .removedWhileStarting camera => ({ s with manager := some r.1 }, .error (.serverState camera))
    | _ => (if calls.built then held else s, .error .raised)

/-- `_warn_if_no_group_owns` -/
def warnIfNoGroupOwns (s : Placement) (camera : String) : Option (List String) :=
  let slots := crossCameraSlots (s.elements.map (·.node))
  if slots.length < 2 then none
  else if slots.any fun n => n.element.cameraGroup.any fun g => decide (camera ∈ g.cameras) then none
  else some ((slots.map (·.name)).mergeSort fun a b => decide (a ≤ b))

def addCamera (head : HeadOf) (s : Placement) (camera : CameraSpec) (calls : AddCalls) :
    Placement × Except CameraRefusal PlacementReply :=
  if s.running then
    match s.ingest head calls.configured with
    | .error e => (s, .error e)
    | .ok (s, m) =>
      if m.actors.contains camera.cameraId then (s, .error (.duplicate camera.cameraId))
      else
        match (s.admitAt camera).startActor head m camera calls with
        | (t, .error e) =>
          ({ t with bands := t.bands.restore camera.cameraId (s.bands.placed camera.cameraId) }, .error e)
        | (t, .ok _) =>
          let r := announce (.cameraAdded camera.cameraId) t.elements calls.hook
          let t := { t with elements := r.1 }
          (t, if r.2 then .ok (.added (t.warnIfNoGroupOwns camera.cameraId)) else .error .raised)
  else (s, .error (.serverState camera.cameraId))

def removeCamera (s : Placement) (camera : String) (joined : Option Bool) (hook : Nat → HookEnd) :
    Placement × Except CameraRefusal PlacementReply :=
  match s.manager with
  | none => (s, .error (.configuration camera))
  | some m =>
    match m.removeCamera camera with
    | (m, .quiet) =>
      let s := { s with manager := some m }
      match joined with
      | none => (s, .error .raised)
      | some clean =>
        let r := announce (.cameraRemoved camera) s.elements hook
        ({ s with bands := s.bands.forgetPlacement camera, elements := r.1 },
          if r.2 then .ok (.removed clean) else .error .raised)
    | (m, _) => ({ s with manager := some m }, .error (.configuration camera))

def drain (s : Placement) (joined : Option Nat) (hook : Nat → Nat → HookEnd) :
    Placement × Except CameraRefusal PlacementReply :=
  match s.manager with
  | none => (s, .ok (.drained 0))
  | some m =>
    let placed := m.actors.keys.mergeSort fun a b => decide (a ≤ b)
    let s := { s with manager := some m.stopAll }
    match joined with
    | none => (s, .error .raised)
    | some abandoned =>
      let r := announceRemoved placed s.elements hook
      ({ s with bands := s.bands.clearPlacements, elements := r.1 },
        if r.2 then .ok (.drained abandoned) else .error .raised)

/-- `_stop_ingest`, and whether it returns. -/
def stopIngest (s : Placement) (joined : Option Nat) : Placement × Bool :=
  if s.manager.isSome && joined.isNone then ({ s with manager := none }, false)
  else ({ s with manager := none, bands := s.bands.clearPlacements }, true)

/-- `_do_stop`: the elements are closed last, in reverse. -/
def doStop (s : Placement) (calls : StopCalls) : Placement × Except CameraRefusal PlacementReply :=
  let r := s.stopIngest calls.joined
  if r.2 && calls.drained then
    let closed := closeAll r.1.elements.reverse calls.close
    ({ r.1 with elements := closed.1.reverse }, if closed.2 then .ok .done else .error .raised)
  else (r.1, .error .raised)

/-- `_do_start` -/
def doStart (head : HeadOf) (s : Placement) (calls : StartCalls) : Placement × Except CameraRefusal PlacementReply :=
  match head with
  | .error e => (s, .error e)
  | .ok _ =>
    if calls.queue then
      let r := openAll s.elements calls.opens
      ({ s with elements := r.1 }, if r.2 && calls.threads then .ok .done else .error .raised)
    else (s, .error .raised)

def start (head : HeadOf) (s : Placement) (calls : StartCalls) : Placement × Except CameraRefusal PlacementReply :=
  if s.running then (s, .ok .done)
  else
    match s.doStart head calls with
    | (s, .ok reply) => ({ s with running := true }, .ok reply)
    | (s, .error e) => ((s.doStop calls.unwind).1, .error e)

def stop (s : Placement) (calls : StopCalls) : Placement × Except CameraRefusal PlacementReply :=
  if s.running then { s with running := false }.doStop calls else (s, .ok .done)

def step (head : HeadOf) (s : Placement) : Operation → Placement × Except CameraRefusal PlacementReply
  | .start calls => s.start head calls
  | .addCamera camera calls => s.addCamera head camera calls
  | .removeCamera camera joined hook => s.removeCamera camera joined hook
  | .drain joined hook => s.drain joined hook
  | .stop calls => s.stop calls

def run (head : HeadOf) (nodes : List ElementNode) (operations : List Operation) :
    Placement × List (Except CameraRefusal PlacementReply) :=
  Machine.exec (step head) (init nodes) operations

end Placement

/-! ## What an operation that nothing cuts short does -/

/-- The announcements of the camera balance but for one arrival if it is held. -/
def PlacedElement.Balanced (e : PlacedElement) (held : String → Bool) : Prop :=
  ∀ camera, e.told.count (.cameraAdded camera) = e.told.count (.cameraRemoved camera) + if held camera then 1 else 0

def StopCalls.Uncut (calls : StopCalls) : Prop :=
  calls.joined ≠ none ∧ calls.drained = true ∧ ∀ i, calls.close i ≠ .escaped

/-- Once it writes, nothing is raised out of it but a refusal: the actor that is in the
map starts, what has been taken out of the map is joined, a shutdown reaches the elements
and no hook lets anything escape but an `Exception`. -/
def Operation.Uncut : Operation → Prop
  | .start calls => calls.unwind.Uncut
  | .addCamera _ calls => calls.starts = true ∧ ∀ i, calls.hook i ≠ .escaped
  | .removeCamera _ joined hook => joined ≠ none ∧ ∀ i, hook i ≠ .escaped
  | .drain joined hook => joined ≠ none ∧ ∀ k i, hook k i ≠ .escaped
  | .stop calls => calls.Uncut

theorem announce_eq (a : Announcement) (es : List PlacedElement) {hook : Nat → HookEnd}
    (h : ∀ i, hook i ≠ .escaped) : announce a es hook = (es.map (·.tell a), true) := by
  induction es generalizing hook with
  | nil => rfl
  | cons e es ih => simp [announce, h 0, ih fun i => h (i + 1)]

theorem announceRemoved_eq (cameras : List String) (es : List PlacedElement) {hook : Nat → Nat → HookEnd}
    (h : ∀ k i, hook k i ≠ .escaped) : announceRemoved cameras es hook =
      (es.map fun e => { e with told := e.told ++ cameras.map .cameraRemoved }, true) := by
  induction cameras generalizing es hook with
  | nil => simp [announceRemoved]
  | cons camera cameras ih =>
    rw [announceRemoved, announce_eq _ es (h 0), if_pos rfl, ih _ fun k => h (k + 1)]
    simp [PlacedElement.tell]

theorem closeAll_eq (es : List PlacedElement) {hook : Nat → HookEnd} (h : ∀ i, hook i ≠ .escaped) :
    closeAll es hook = (es.map (·.closed), true) := by
  induction es generalizing hook with
  | nil => rfl
  | cons e es ih => simp [closeAll, h 0, ih fun i => h (i + 1)]

theorem openAll_eq (es : List PlacedElement) {opens : Nat → Bool} (h : (openAll es opens).2 = true) :
    (openAll es opens).1 = es.map (·.opened) := by
  induction es generalizing opens with
  | nil => rfl
  | cons e es ih =>
    rw [openAll] at h ⊢
    split
    · rename_i hopens
      rw [if_pos hopens] at h
      simp only [List.map_cons, ih h]
    · rename_i hopens
      rw [if_neg hopens] at h
      cases h

namespace Placement

variable {head : HeadOf} {s t : Placement} {camera : CameraSpec} {calls : AddCalls}

/-- Neither the table of the bands, nor the elements, nor the cameras that are held. -/
structure Untouched (s t : Placement) : Prop where
  placed : ∀ c, t.bands.placed c = s.bands.placed c
  elements : t.elements = s.elements
  holds : t.holds = s.holds
  named : t.named = s.named
  running : t.running = s.running

theorem Untouched.refl (s : Placement) : Untouched s s := ⟨fun _ => rfl, rfl, rfl, rfl, rfl⟩

theorem ingest_ok {configured : Except CameraRefusal (List (String × Priority))} {m : IngestManager}
    (h : s.ingest head configured = .ok (t, m)) : Untouched s t ∧ t.manager = some m := by
  unfold ingest at h
  split at h
  · rename_i m' hm
    obtain ⟨rfl, rfl⟩ := Prod.mk.inj (Except.ok.inj h)
    exact ⟨.refl s, hm⟩
  · rename_i hm
    cases hh : head with
    | error e => simp [hh, bind, Except.bind] at h
    | ok _ =>
      cases hc : configured with
      | error e => simp [hh, hc, bind, Except.bind] at h
      | ok bands =>
        rw [hh, hc] at h
        obtain ⟨rfl, rfl⟩ := Prod.mk.inj (Except.ok.inj h)
        refine ⟨⟨fun _ => rfl, rfl, ?_, rfl, rfl⟩, rfl⟩
        funext c
        simp [holds, hm, Dict.contains]

/-- The camera is in the manager and nothing else has changed, or nothing has. -/
theorem startActor_cases {m : IngestManager} (hm : s.manager = some m)
    (hnew : m.actors.contains camera.cameraId = false) (hstarts : calls.starts = true) :
    (∃ e, (s.startActor head m camera calls).2 = .error e ∧ Untouched s (s.startActor head m camera calls).1) ∨
      ((s.startActor head m camera calls).2 = .ok () ∧
        (∀ c, (s.startActor head m camera calls).1.bands.placed c = s.bands.placed c) ∧
        (s.startActor head m camera calls).1.elements = s.elements ∧
        (s.startActor head m camera calls).1.running = s.running ∧
        (s.startActor head m camera calls).1.named = Function.update s.named camera.cameraId camera.priority ∧
        ∀ c, (s.startActor head m camera calls).1.holds c = (decide (c = camera.cameraId) || s.holds c)) := by
  unfold startActor cameraConfig
  cases head with
  | error e => exact .inl ⟨e, rfl, .refl s⟩
  | ok head =>
    cases hvalid : calls.valid with
    | false => exact .inl ⟨.raised, rfl, ⟨by simp, rfl, rfl, rfl, rfl⟩⟩
    | true =>
      cases hbuilt : calls.built with
      | false =>
        simp only [if_true, Ingest.IngestManager.addCamera_of_unbuilt hnew]
        exact .inl ⟨.raised, rfl, ⟨by simp, rfl, rfl, rfl, rfl⟩⟩
      | true =>
        obtain ⟨hquiet, hactors⟩ := Ingest.IngestManager.addCamera_of_new hnew
        simp only [if_true, hstarts, hquiet]
        refine .inr ⟨trivial, by simp, trivial, trivial, trivial, ?_⟩
        intro c
        by_cases hc : c = camera.cameraId
        · simp [holds, hm, hactors, Dict.contains, hc]
        · simp [holds, hm, hactors, Dict.contains, Dict.get?_set, hc]

/-- What an accepted add has done. -/
structure Added (camera : CameraSpec) (s t : Placement) : Prop where
  wasRunning : s.running = true
  running : t.running = true
  new : s.holds camera.cameraId = false
  holds : ∀ c, t.holds c = (decide (c = camera.cameraId) || s.holds c)
  placed : ∀ c, t.bands.placed c = if c = camera.cameraId then camera.priority else s.bands.placed c
  named : t.named = Function.update s.named camera.cameraId camera.priority
  elements : t.elements = s.elements.map (·.tell (.cameraAdded camera.cameraId))

/-- An add that nothing cuts short is refused and touches nothing, or is accepted. -/
theorem addCamera_cases (hcalls : (Operation.addCamera camera calls).Uncut) :
    (∃ e, (s.addCamera head camera calls).2 = .error e ∧ Untouched s (s.addCamera head camera calls).1) ∨
      ((∃ reply, (s.addCamera head camera calls).2 = .ok reply) ∧
        Added camera s (s.addCamera head camera calls).1) := by
  obtain ⟨hstarts, hhook⟩ := hcalls
  unfold addCamera
  by_cases hrunning : s.running = true
  · rw [if_pos hrunning]
    cases hi : s.ingest head calls.configured with
    | error e => exact .inl ⟨e, rfl, .refl s⟩
    | ok p =>
      obtain ⟨u, m⟩ := p
      obtain ⟨hu, hm⟩ := ingest_ok hi
      by_cases hnew : m.actors.contains camera.cameraId = true
      · simp only [hnew, if_true]
        exact .inl ⟨_, rfl, hu⟩
      · simp only [hnew]
        have hholds : u.holds camera.cameraId = false := by simpa [holds, hm] using hnew
        have hadmit : (u.admitAt camera).holds = u.holds := rfl
        generalize ha : (u.admitAt camera).startActor head m camera calls = r
        have hcases := @startActor_cases head (u.admitAt camera) _ _ _ hm (by simpa using hnew) hstarts
        rw [ha] at hcases
        obtain ⟨v, answer⟩ := r
        rcases hcases with ⟨e, rfl, hv⟩ | ⟨rfl, hplaced, helements, hrun, hnamed, hheld⟩
        · refine .inl ⟨e, rfl, ?_, hv.elements.trans hu.elements, hv.holds.trans hu.holds, hv.named.trans hu.named,
            hv.running.trans hu.running⟩
          intro c
          have hc : v.bands.placed c = (u.admitAt camera).bands.placed c := hv.placed c
          by_cases hcamera : c = camera.cameraId
          · simp [hcamera, hu.placed]
          · simp [hcamera, hc, admitAt, hu.placed]
        · refine .inr ?_
          simp only [announce_eq _ _ hhook, if_true]
          refine ⟨⟨_, rfl⟩, hrunning, hrun.trans (hu.running.trans hrunning), ?_, ?_, ?_, ?_, ?_⟩
          · rw [← hu.holds, hholds]
          · intro c
            rw [← hu.holds]
            exact hheld c
          · intro c
            have hc : v.bands.placed c = (u.admitAt camera).bands.placed c := hplaced c
            simp [hc, admitAt, hu.placed]
          · rw [← hu.named]
            exact hnamed
          · rw [← hu.elements]
            exact congrArg _ helements
  · rw [if_neg hrunning]
    exact .inl ⟨_, rfl, .refl s⟩

/-! ## The tables agree -/

/-- The bands are those of the held cameras whose spec named one. -/
def BandsAgree (s : Placement) : Prop := ∀ c, s.bands.placed c = if s.holds c then s.named c else none

structure Agree (s : Placement) : Prop where
  bands : s.BandsAgree
  told : ∀ e ∈ s.elements, e.isOpen = true → e.Balanced s.holds
  lifecycle : ∀ e ∈ s.elements, e.isOpen = s.running
  stopped : s.running = false → s.manager = none

theorem agree_init (nodes : List Chain.ElementNode) : (init nodes).Agree where
  bands := fun _ => rfl
  told := by simp [init]
  lifecycle := by simp [init]
  stopped := fun _ => rfl

theorem Agree.untouched (h : s.Agree) (hu : Untouched s t) (hmanager : s.running = false → t.manager = s.manager) :
    t.Agree where
  bands := by
    intro c
    rw [hu.placed, hu.holds, hu.named]
    exact h.bands c
  told := by
    rw [hu.elements, hu.holds]
    exact h.told
  lifecycle := by
    rw [hu.elements, hu.running]
    exact h.lifecycle
  stopped := by
    intro hrunning
    rw [hu.running] at hrunning
    rw [hmanager hrunning, h.stopped hrunning]

theorem Agree.added (h : s.Agree) (ha : Added camera s t) : t.Agree where
  bands := by
    intro c
    rw [ha.placed, ha.holds, ha.named]
    by_cases hc : c = camera.cameraId
    · simp [hc]
    · simp [hc, h.bands c]
  told := by
    intro e' he' hopen c
    rw [ha.elements] at he'
    obtain ⟨e, he, rfl⟩ := List.mem_map.mp he'
    have hbalanced := h.told e he hopen c
    rw [ha.holds]
    by_cases hc : c = camera.cameraId
    · subst hc
      rw [ha.new] at hbalanced
      simp [PlacedElement.tell, hbalanced]
    · have hne : Announcement.cameraAdded camera.cameraId ≠ .cameraAdded c := by
        intro heq
        exact hc (Announcement.cameraAdded.inj heq).symm
      simp [PlacedElement.tell, hbalanced, hc, hne]
  lifecycle := by
    intro e' he'
    rw [ha.elements] at he'
    obtain ⟨e, he, rfl⟩ := List.mem_map.mp he'
    rw [ha.running, ← ha.wasRunning]
    exact h.lifecycle e he
  stopped := by simp [ha.running]

theorem Agree.addCamera (h : s.Agree) (hcalls : (Operation.addCamera camera calls).Uncut) :
    (s.addCamera head camera calls).1.Agree := by
  rcases @addCamera_cases head s _ _ hcalls with ⟨e, -, hu⟩ | ⟨-, ha⟩
  · refine h.untouched hu ?_
    intro hrunning
    simp [Placement.addCamera, hrunning]
  · exact h.added ha

theorem holds_of_manager {m : IngestManager} (hm : s.manager = some m) (c : String) :
    s.holds c = m.actors.contains c := by
  simp [holds, hm]

theorem Agree.removeCamera (h : s.Agree) {id : String} {joined : Option Bool} {hook : Nat → HookEnd}
    (hcalls : (Operation.removeCamera id joined hook).Uncut) : (s.removeCamera id joined hook).1.Agree := by
  obtain ⟨hjoined, hhook⟩ := hcalls
  obtain ⟨clean, rfl⟩ := Option.ne_none_iff_exists'.mp hjoined
  unfold Placement.removeCamera
  cases hm : s.manager with
  | none => exact h
  | some m =>
    have hrunning : s.running ≠ false := by
      intro hrunning
      simp [h.stopped hrunning] at hm
    dsimp only
    cases hheld : m.actors.contains id with
    | false =>
      obtain ⟨hrefused, hactors⟩ := Ingest.IngestManager.removeCamera_of_missing hheld
      generalize m.removeCamera id = r at hrefused hactors ⊢
      obtain ⟨m', answer⟩ := r
      have hsame : Untouched s { s with manager := some m' } := by
        refine ⟨fun _ => rfl, rfl, ?_, rfl, rfl⟩
        funext c
        rw [holds_of_manager hm, holds_of_manager (m := m') rfl, hactors]
      split
      · rename_i hquiet
        exact absurd (congrArg Prod.snd hquiet) hrefused
      · rename_i hanswer
        obtain ⟨rfl, -⟩ := Prod.mk.inj hanswer
        exact h.untouched hsame fun hstopped => absurd hstopped hrunning
    | true =>
      obtain ⟨hquiet, hactors⟩ := Ingest.IngestManager.removeCamera_of_held hheld
      generalize m.removeCamera id = r at hquiet hactors ⊢
      obtain ⟨m', answer⟩ := r
      obtain rfl : answer = .quiet := hquiet
      simp only [announce_eq _ _ hhook]
      have hholds (c : String) : m'.actors.contains c = if c = id then false else s.holds c := by
        rw [holds_of_manager hm, hactors, Dict.contains, Dict.get?_erase]
        split <;> rfl
      constructor
      · intro c
        rw [PriorityBands.placed_forgetPlacement, holds_of_manager (m := m') rfl, hholds]
        by_cases hc : c = id
        · simp [hc]
        · simp [hc, h.bands c]
      · intro e' he' hopen c
        obtain ⟨e, he, rfl⟩ := List.mem_map.mp he'
        have hbalanced := h.told e he hopen c
        rw [holds_of_manager (m := m') rfl, hholds]
        by_cases hc : c = id
        · subst hc
          rw [holds_of_manager hm, hheld] at hbalanced
          simp [PlacedElement.tell, hbalanced]
        · have hne : Announcement.cameraRemoved id ≠ .cameraRemoved c := by
            intro heq
            exact hc (Announcement.cameraRemoved.inj heq).symm
          simp [PlacedElement.tell, hbalanced, hc, hne]
      · intro e' he'
        obtain ⟨e, he, rfl⟩ := List.mem_map.mp he'
        exact h.lifecycle e he
      · intro hstopped
        exact absurd hstopped hrunning

theorem Agree.drain (h : s.Agree) {joined : Option Nat} {hook : Nat → Nat → HookEnd}
    (hcalls : (Operation.drain joined hook).Uncut) : (s.drain joined hook).1.Agree := by
  obtain ⟨hjoined, hhook⟩ := hcalls
  obtain ⟨abandoned, rfl⟩ := Option.ne_none_iff_exists'.mp hjoined
  unfold Placement.drain
  cases hm : s.manager with
  | none => exact h
  | some m =>
    simp only [announceRemoved_eq _ _ hhook]
    have hempty (c : String) : m.stopAll.actors.contains c = false := by simp [Dict.contains]
    constructor
    · intro c
      rw [PriorityBands.placed_clearPlacements, holds_of_manager (m := m.stopAll) rfl, hempty]
      rfl
    · intro e' he' hopen c
      obtain ⟨e, he, rfl⟩ := List.mem_map.mp he'
      have hbalanced := h.told e he hopen c
      have hnodup : (m.actors.keys.mergeSort fun a b => decide (a ≤ b)).Nodup :=
        (List.mergeSort_perm _ _).nodup_iff.mpr m.actors.keys_nodup
      have hremoved : ((m.actors.keys.mergeSort fun a b => decide (a ≤ b)).map Announcement.cameraRemoved).count
          (.cameraRemoved c) = if s.holds c then 1 else 0 := by
        rw [List.count_map_of_injective _ _ fun _ _ heq => Announcement.cameraRemoved.inj heq, hnodup.count,
          holds_of_manager hm]
        simp [List.mem_mergeSort, Dict.contains_iff]
      have hadded : ((m.actors.keys.mergeSort fun a b => decide (a ≤ b)).map Announcement.cameraRemoved).count
          (.cameraAdded c) = 0 := by
        rw [List.count_eq_zero]
        simp
      rw [holds_of_manager (m := m.stopAll) rfl, hempty]
      simp only [List.count_append, hremoved, hadded, hbalanced, Bool.false_eq_true, if_false]
    · intro e' he'
      obtain ⟨e, he, rfl⟩ := List.mem_map.mp he'
      exact h.lifecycle e he
    · intro hstopped
      simp [h.stopped hstopped] at hm

/-- A shutdown that nothing cuts short. -/
theorem doStop_eq (s : Placement) {calls : StopCalls} (hcalls : calls.Uncut) : (s.doStop calls).1 =
    { s with manager := none, bands := s.bands.clearPlacements, elements := s.elements.map (·.closed) } := by
  obtain ⟨hjoined, hdrained, hclose⟩ := hcalls
  obtain ⟨abandoned, hjoined⟩ := Option.ne_none_iff_exists'.mp hjoined
  simp [doStop, stopIngest, hjoined, hdrained, closeAll_eq _ hclose]

theorem agree_doStop (hrunning : s.running = false) {calls : StopCalls} (hcalls : calls.Uncut) :
    (s.doStop calls).1.Agree := by
  rw [doStop_eq s hcalls]
  constructor
  · intro c
    rfl
  · intro e' he' hopen
    obtain ⟨e, he, rfl⟩ := List.mem_map.mp he'
    cases hopen
  · intro e' he'
    obtain ⟨e, he, rfl⟩ := List.mem_map.mp he'
    exact hrunning.symm
  · intro _
    rfl

/-- A start that opens every element, over a runner that holds nothing. -/
theorem Agree.doStart (h : s.Agree) (hrunning : s.running = false) {calls : StartCalls} {reply : PlacementReply}
    (hstart : s.doStart head calls = (t, .ok reply)) : Agree { t with running := true } := by
  unfold Placement.doStart at hstart
  cases head with
  | error e => cases hstart
  | ok _ =>
    cases hqueue : calls.queue with
    | false => simp [hqueue] at hstart
    | true =>
      simp only [hqueue, if_true] at hstart
      obtain ⟨rfl, hok⟩ := Prod.mk.inj hstart
      cases hopens : (openAll s.elements calls.opens).2 with
      | false => simp [hopens] at hok
      | true =>
        have hnone := h.stopped hrunning
        rw [openAll_eq _ hopens]
        constructor
        · exact h.bands
        · intro e' he' _ c
          obtain ⟨e, he, rfl⟩ := List.mem_map.mp he'
          have hclosed : e.isOpen = false := (h.lifecycle e he).trans hrunning
          simp [PlacedElement.opened, hclosed, holds, hnone]
        · intro e' he'
          obtain ⟨e, he, rfl⟩ := List.mem_map.mp he'
          have hclosed : e.isOpen = false := (h.lifecycle e he).trans hrunning
          simp [PlacedElement.opened, hclosed]
        · intro hstopped
          cases hstopped

theorem Agree.start (h : s.Agree) {calls : StartCalls} (hcalls : calls.unwind.Uncut) :
    (s.start head calls).1.Agree := by
  unfold Placement.start
  by_cases hrunning : s.running = true
  · rw [if_pos hrunning]
    exact h
  · rw [if_neg hrunning]
    generalize hstart : s.doStart head calls = r
    obtain ⟨t, answer⟩ := r
    have hstopped : s.running = false := by simpa using hrunning
    cases answer with
    | ok reply => exact h.doStart hstopped hstart
    | error e =>
      have hkept : t.running = s.running := by
        have ht : (s.doStart head calls).1.running = s.running := by
          unfold Placement.doStart
          split
          · rfl
          · split <;> rfl
        rw [hstart] at ht
        exact ht
      exact agree_doStop (hkept.trans hstopped) hcalls

theorem Agree.step (h : s.Agree) {operation : Operation} (hcalls : operation.Uncut) :
    (s.step head operation).1.Agree := by
  cases operation with
  | start calls => exact h.start hcalls
  | addCamera camera calls => exact h.addCamera hcalls
  | removeCamera camera joined hook => exact h.removeCamera hcalls
  | drain joined hook => exact h.drain hcalls
  | stop calls =>
    show (s.stop calls).1.Agree
    unfold Placement.stop
    split
    · exact agree_doStop rfl hcalls
    · exact h

/-- Every element has been told of each held camera once more than of its going. -/
def ElementsAgree (s : Placement) : Prop := ∀ e ∈ s.elements, e.Balanced s.holds

/-- The elements are open while the runner runs, and then they agree with the manager as
the bands always do; a refused add touches nothing. -/
structure TablesAgree (head : HeadOf) (s : Placement) : Prop where
  bands : s.BandsAgree
  opened : ∀ e ∈ s.elements, e.isOpen = s.running
  told : ∀ e ∈ s.elements, e.isOpen = true → e.Balanced s.holds
  refused : ∀ camera calls error, (Operation.addCamera camera calls).Uncut →
    (s.addCamera head camera calls).2 = .error error → Untouched s (s.addCamera head camera calls).1

theorem tables_agree (head : HeadOf) (nodes : List Chain.ElementNode) (operations : List Operation)
    (h : ∀ operation ∈ operations, operation.Uncut) : (run head nodes operations).1.TablesAgree head := by
  have hagree : (run head nodes operations).1.Agree := by
    have hall : ∀ s : Placement, s.Agree → (Machine.exec (step head) s operations).1.Agree := by
      induction operations with
      | nil => exact fun s hs => hs
      | cons operation operations ih =>
        intro s hs
        exact ih (fun o ho => h o (List.mem_cons_of_mem _ ho)) _ (hs.step (h operation List.mem_cons_self))
    exact hall _ (agree_init nodes)
  refine ⟨hagree.bands, hagree.lifecycle, hagree.told, ?_⟩
  intro camera calls error hcalls hrefused
  rcases @addCamera_cases head _ _ _ hcalls with ⟨-, -, hu⟩ | ⟨⟨reply, haccepted⟩, -⟩
  · exact hu
  · rw [haccepted] at hrefused
    cases hrefused

/-- A chain whose frames are on the host, and a tracker in it. -/
def hostHead : HeadOf := .ok { caps := ⟨.any, .only .cpu⟩, source := none }

def trackNode : Chain.ElementNode where
  name := "track"
  kind := .track
  element := { impl := "shipvision" }
  inputs := []
  outputs := []

def quay (band : Option Priority) : CameraSpec := { cameraId := "quay", url := "rtsp://quay", priority := band }

theorem refused_duplicate_agrees :
    (run hostHead [trackNode] [.start {}, .addCamera (quay (some .high)) {}, .addCamera (quay none) {}]).1.bands.placed
        "quay" = some .high ∧
      (run hostHead [trackNode] [.start {}, .addCamera (quay (some .high)) {},
        .addCamera (quay none) {}]).1.TablesAgree hostHead :=
  ⟨by decide +kernel, tables_agree hostHead [trackNode] _ (by simp [Operation.Uncut, StopCalls.Uncut])⟩

/-- A shutdown tells no element that its cameras are gone; and an actor whose thread
does not start is held by the manager with its band taken back. -/
theorem stop_announces_nothing :
    ¬(run hostHead [trackNode] [.start {}, .addCamera (quay none) {}, .stop {}]).1.ElementsAgree ∧
      ¬(run hostHead [trackNode] [.start {}, .addCamera (quay (some .high)) { starts := false }]).1.BandsAgree := by
  constructor
  · intro h
    exact absurd (h _ List.mem_cons_self "quay") (by decide +kernel)
  · intro h
    exact absurd (h "quay") (by decide +kernel)

end Placement

end ShipInfer.Runners
