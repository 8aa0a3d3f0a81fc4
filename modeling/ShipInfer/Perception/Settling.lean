import ShipInfer.Perception.Stepping
import ShipInfer.Reassembly.Keys

/-!
# Every future is settled once

A frame is known by its tag. At any time the tag of an item that was put is in one place:
waiting to be worked on, parked under `_awaiting`, in the hands of a thread that took the
future, or done. The tags under `_awaiting` are the parked ones, which is what lets
whichever thread finishes a frame find just the future of that frame.
-/

namespace ShipInfer.Perception

open Reassembly (PendingKey FrameResult FrameCollector)

/-! ## Places -/

def Item.keys (items : List Item) : List PendingKey := items.map Item.key

/-- The tags of the items that wait to be worked on. -/
def Phase.waiting : Phase → List PendingKey
  | .batch rest => Item.keys rest
  | .registering item _ _ rest => item.key :: Item.keys rest
  | .opening _ _ _ rest => Item.keys rest
  | .refused _ rest => Item.keys rest
  | .failing item rest => item.key :: Item.keys rest
  | .running _ _ rest => Item.keys rest
  | .exited => []

def Phase.parked : Phase → List PendingKey
  | .batch _ => []
  | .registering _ _ _ _ => []
  | .opening item _ _ _ => [item.key]
  | .refused item _ => [item.key]
  | .failing _ _ => []
  | .running _ _ _ => []
  | .exited => []

def Hand.parked (hand : Hand) : List PendingKey := hand.results.map fun r => r.state.key

/-- The tag of the future a thread took, before the sink is handed the event and after. -/
def Hand.popped (hand : Hand) : List PendingKey :=
  match hand.current with
  | .none => []
  | .popped _ future => Item.keys future.toList
  | .settling _ _ => []

def Hand.settling (hand : Hand) : List PendingKey :=
  match hand.current with
  | .none => []
  | .popped _ _ => []
  | .settling future _ => Item.keys future.toList

def StopPhase.waiting : StopPhase → List PendingKey
  | .failing todo _ => Item.keys todo
  | _ => []

/-- What a thread holds is about items that were put. -/
def Hand.Sound (known : List Item) (hand : Hand) : Prop :=
  (∀ r ∈ hand.results, ∃ item ∈ known, r.state.context = item.request.context) ∧
    match hand.current with
    | .none => True
    | .popped r future => ∃ item ∈ known, future = some item ∧ r.state.context = item.request.context
    | .settling future verdict => ∃ item ∈ known, future = some item ∧
      ∀ r, verdict = .event r → r.state.context = item.request.context

def Phase.Sound (known : List Item) : Phase → Prop
  | .batch rest => ∀ item ∈ rest, item ∈ known
  | .registering item state _ rest => (∀ i ∈ item :: rest, i ∈ known) ∧ state.context = item.request.context
  | .opening item state _ rest => (∀ i ∈ item :: rest, i ∈ known) ∧ state.context = item.request.context
  | .refused item rest => ∀ i ∈ item :: rest, i ∈ known
  | .failing item rest => ∀ i ∈ item :: rest, i ∈ known
  | .running _ _ rest => ∀ item ∈ rest, item ∈ known
  | .exited => True

namespace PipelineRunner

/-- The sum over the workers. -/
def overWorkers (s : PipelineRunner) (f : Worker → Nat) : Nat := (s.workers.map f).sum

def waiting (s : PipelineRunner) (key : PendingKey) : Nat :=
  (Item.keys s.queue).count key + s.overWorkers (fun worker => worker.phase.waiting.count key) + s.stopPhase.waiting.count key

/-- The tags under `_awaiting`. -/
def parked (s : PipelineRunner) (key : PendingKey) : Nat :=
  s.overWorkers (fun worker => worker.phase.parked.count key) + s.overWorkers (fun worker => worker.hand.parked.count key) +
    s.sweeper.parked.count key + s.stopper.parked.count key + s.collector.pending.keys.count key

def popped (s : PipelineRunner) (key : PendingKey) : Nat :=
  s.overWorkers (fun worker => worker.hand.popped.count key) + s.sweeper.popped.count key +
    s.stopper.popped.count key

def settling (s : PipelineRunner) (key : PendingKey) : Nat :=
  s.overWorkers (fun worker => worker.hand.settling.count key) + s.sweeper.settling.count key +
    s.stopper.settling.count key

def done (s : PipelineRunner) (key : PendingKey) : Nat := (s.settled.map fun p => p.1.key).count key

theorem sum_set {α : Type} (f : α → Nat) : ∀ {l : List α} {i : Nat} {a : α} (b : α), l[i]? = some a →
    ((l.set i b).map f).sum + f a = (l.map f).sum + f b
  | [], _, _, _, h => by simp at h
  | a :: l, 0, _, b, h => by
    cases h
    simp only [List.set_cons_zero, List.map_cons, List.sum_cons]
    omega
  | a :: l, i + 1, _, b, h => by
    have hrest := sum_set f (l := l) (i := i) b (by simpa using h)
    simp only [List.set_cons_succ, List.map_cons, List.sum_cons]
    omega

/-! ## What holds between steps -/

/-- All threads joined. -/
def Joined (s : PipelineRunner) : Prop :=
  (∀ worker ∈ s.workers, worker = { phase := .exited }) ∧ s.sweeperExited = true

/-- How far `stop` got. -/
def Stops (s : PipelineRunner) : Prop :=
  match s.stopPhase with
  | .notCalled => True
  | .closing => True
  | .failing todo lost => s.queueClosed = true ∧ s.queue = [] ∧ (∀ item ∈ todo, item ∈ s.put) ∧
    ∀ item ∈ lost, item ∈ todo ∨ 0 < s.done item.key
  | .forgetting todo => s.queueClosed = true ∧ s.queue = [] ∧ ∀ item ∈ todo, 0 < s.done item.key
  | .joining => s.queueClosed = true ∧ s.queue = []
  | .draining => s.queueClosed = true ∧ s.queue = [] ∧ s.Joined
  | .emitting => s.queueClosed = true ∧ s.queue = [] ∧ s.Joined ∧ s.collector.pending.entries = []
  | .cancelling todo => s.queueClosed = true ∧ s.queue = [] ∧ s.Joined ∧ s.collector.pending.entries = [] ∧ todo = []
  | .returned => s.queueClosed = true ∧ s.queue = [] ∧ s.Joined ∧ s.collector.pending.entries = []

structure Inv (cfg : RunnerConfig) (s : PipelineRunner) : Prop where
  tags : (Item.keys s.put).Nodup
  inTime : s.sweeperInTime = true
  ledger : ∀ key, s.waiting key + s.parked key + s.popped key + s.settling key + s.done key = (Item.keys s.put).count key
  awaiting : ∀ key, 0 < s.parked key ↔ ∃ item, s.awaiting.get? key = some item
  awaited : ∀ key item, s.awaiting.get? key = some item → item ∈ s.put ∧ item.key = key
  handed : ∀ key, (s.handed.map fun r => r.state.key).count key ≤ s.settling key + s.done key
  keeps : s.collector.Keeps cfg.reassembly
  clear : s.collector.publishing = []
  pending : ∀ p ∈ s.collector.pending.entries, ∃ item ∈ s.put, p.2.state.context = item.request.context
  queued : ∀ item ∈ s.queue, item ∈ s.put
  taken : ∀ item ∈ s.taken, item ∈ s.put
  settled : ∀ p ∈ s.settled, p.1 ∈ s.put ∧ ∀ r, p.2 = .event r → r.state.context = p.1.request.context
  phases : ∀ worker ∈ s.workers, worker.phase.Sound s.put
  hands : ∀ worker ∈ s.workers, worker.hand.Sound s.put
  sweeper : s.sweeper.Sound s.put
  stopper : s.stopper.Sound s.put
  swept : s.sweeperExited = true → s.sweeper = {}
  idle : s.stopPhase ≠ .emitting → s.stopper = {}
  stops : s.Stops

variable {cfg : RunnerConfig} {s s' : PipelineRunner} {w : Nat}

theorem Inv.unique (h : Inv cfg s) {a b : Item} (ha : a ∈ s.put) (hb : b ∈ s.put) (hkey : a.key = b.key) : a = b :=
  List.inj_on_of_nodup_map h.tags ha hb hkey

theorem Inv.once (h : Inv cfg s) (key : PendingKey) :
    s.waiting key + s.parked key + s.popped key + s.settling key + s.done key ≤ 1 :=
  h.ledger key ▸ List.nodup_iff_count_le_one.mp h.tags key

theorem Stops.keep (h : s.Stops) (hphase : s'.stopPhase = s.stopPhase) (hclosed : s'.queueClosed = s.queueClosed)
    (hqueue : s.queueClosed = true → s.queue = [] → s'.queue = []) (hput : s.put ⊆ s'.put) (hdone : ∀ key, s.done key ≤ s'.done key)
    (hjoined : s.Joined → s'.Joined ∧ (s.collector.pending.entries = [] → s'.collector.pending.entries = [])) : s'.Stops := by
  unfold Stops at h ⊢
  rw [hphase, hclosed]
  cases hs : s.stopPhase with
  | notCalled => trivial
  | closing => trivial
  | failing todo lost =>
    rw [hs] at h
    obtain ⟨hc, hq, htodo, hlost⟩ := h
    exact ⟨hc, hqueue hc hq, fun item hi => hput (htodo item hi), fun item hi => (hlost item hi).imp id fun hd => hd.trans_le (hdone _)⟩
  | forgetting todo =>
    rw [hs] at h
    exact ⟨h.1, hqueue h.1 h.2.1, fun item hi => (h.2.2 item hi).trans_le (hdone _)⟩
  | joining =>
    rw [hs] at h
    exact ⟨h.1, hqueue h.1 h.2⟩
  | draining =>
    rw [hs] at h
    exact ⟨h.1, hqueue h.1 h.2.1, (hjoined h.2.2).1⟩
  | emitting =>
    rw [hs] at h
    exact ⟨h.1, hqueue h.1 h.2.1, (hjoined h.2.2.1).1, (hjoined h.2.2.1).2 h.2.2.2⟩
  | cancelling todo =>
    rw [hs] at h
    exact ⟨h.1, hqueue h.1 h.2.1, (hjoined h.2.2.1).1, (hjoined h.2.2.1).2 h.2.2.2.1, h.2.2.2.2⟩
  | returned =>
    rw [hs] at h
    exact ⟨h.1, hqueue h.1 h.2.1, (hjoined h.2.2.1).1, (hjoined h.2.2.1).2 h.2.2.2⟩

/-- While a worker is at work nothing is joined. -/
theorem Stops.work (h : s.Stops) {old : Worker} (hw : s.workers[w]? = some old) (hold : old ≠ { phase := .exited })
    (hphase : s'.stopPhase = s.stopPhase) (hclosed : s'.queueClosed = s.queueClosed)
    (hqueue : s.queue = [] → s'.queue = []) (hput : s'.put = s.put) (hdone : ∀ key, s.done key ≤ s'.done key) : s'.Stops :=
  h.keep hphase hclosed (fun _ => hqueue) (by rw [hput]; exact fun _ => id) hdone
    fun hjoined => absurd (hjoined.1 old (List.mem_of_getElem? hw)) hold

/-- What a worker's step changes of the counts. -/
structure Moved (l l' : List Worker) (old new : Worker) (key : PendingKey) : Prop where
  waiting : (l'.map fun worker => worker.phase.waiting.count key).sum + old.phase.waiting.count key =
    (l.map fun worker => worker.phase.waiting.count key).sum + new.phase.waiting.count key
  parked : (l'.map fun worker => worker.phase.parked.count key).sum + old.phase.parked.count key =
    (l.map fun worker => worker.phase.parked.count key).sum + new.phase.parked.count key
  hand : (l'.map fun worker => worker.hand.parked.count key).sum + old.hand.parked.count key =
    (l.map fun worker => worker.hand.parked.count key).sum + new.hand.parked.count key
  popped : (l'.map fun worker => worker.hand.popped.count key).sum + old.hand.popped.count key =
    (l.map fun worker => worker.hand.popped.count key).sum + new.hand.popped.count key
  settling : (l'.map fun worker => worker.hand.settling.count key).sum + old.hand.settling.count key =
    (l.map fun worker => worker.hand.settling.count key).sum + new.hand.settling.count key

theorem moved_set {l : List Worker} {old : Worker} (hw : l[w]? = some old) (new : Worker) (key : PendingKey) :
    Moved l (l.set w new) old new key :=
  ⟨sum_set _ new hw, sum_set _ new hw, sum_set _ new hw, sum_set _ new hw, sum_set _ new hw⟩

theorem all_set {l : List Worker} {new : Worker} {P : Worker → Prop} (h : ∀ worker ∈ l, P worker) (hnew : P new) :
    ∀ worker ∈ l.set w new, P worker := by
  intro worker hmem
  cases List.mem_or_eq_of_mem_set hmem with
  | inl hold => exact h worker hold
  | inr he => exact he ▸ hnew

theorem sound_empty (known : List Item) : Hand.Sound known {} := ⟨fun _ hr => (List.not_mem_nil hr).elim, trivial⟩

theorem Inv.phase (h : Inv cfg s) {phase : Phase} (hw : s.workers[w]? = some { phase := phase }) : phase.Sound s.put :=
  h.phases _ (List.mem_of_getElem? hw)

/-! ## The steps of the workers -/

/-- A worker's step that moves no tag but those it holds itself. -/
theorem Inv.shift (h : Inv cfg s) {old : Phase} (new : Phase) (hw : s.workers[w]? = some { phase := old }) (hold : old ≠ .exited)
    (hwaiting : ∀ key, new.waiting.count key = old.waiting.count key) (hparked : ∀ key, new.parked.count key = old.parked.count key)
    (hsound : new.Sound s.put) {c : FrameCollector} (hkeeps : c.Keeps cfg.reassembly) (hclear : c.publishing = [])
    (hkeys : ∀ key, c.pending.keys.count key = s.collector.pending.keys.count key)
    (hpending : ∀ p ∈ c.pending.entries, ∃ item ∈ s.put, p.2.state.context = item.request.context) :
    Inv cfg { s with collector := c, workers := s.workers.set w { phase := new } } := by
  have hm := moved_set hw { phase := new }
  have hparkedAll : ∀ key, ({ s with collector := c, workers := s.workers.set w { phase := new } } : PipelineRunner).parked key = s.parked key := by
    intro key
    have hk := hm key
    have h₁ := hk.parked
    have h₂ := hk.hand
    have h₃ := hparked key
    simp only [parked, overWorkers, hkeys key] at h₁ h₂ ⊢
    omega
  refine { h with
    ledger := fun key => ?_
    awaiting := fun key => ?_
    handed := fun key => ?_
    keeps := hkeeps
    clear := hclear
    pending := hpending
    phases := all_set h.phases hsound
    hands := all_set h.hands (sound_empty _)
    stops := h.stops.work hw (fun he => hold (congrArg Worker.phase he)) rfl rfl id rfl fun _ => le_refl _ }
  · have hk := hm key
    have hl := h.ledger key
    have h₁ := hk.waiting
    have h₂ := hk.popped
    have h₃ := hk.settling
    have h₄ := hparkedAll key
    have h₅ := hwaiting key
    simp only [waiting, popped, settling, done, overWorkers] at hl h₁ h₂ h₃ h₄ ⊢
    omega
  · rw [hparkedAll key]
    exact h.awaiting key
  · have hk := hm key
    have hh := h.handed key
    have h₃ := hk.settling
    simp only [settling, done, overWorkers] at hh h₃ ⊢
    omega

/-- A worker's call of the collector that takes nothing out. -/
theorem Inv.tell (h : Inv cfg s) {key : PendingKey} {call : PipelineGraph.Call} (calls : List PipelineGraph.Call) {rest : List Item}
    (hw : s.workers[w]? = some { phase := .running key (call :: calls) rest }) {c : FrameCollector}
    (ht : FrameCollector.Touches cfg.reassembly s.collector c) :
    Inv cfg { s with collector := c, workers := s.workers.set w { phase := .running key calls rest } } := by
  have hmem := h.phase hw
  refine h.shift (.running key calls rest) hw (fun he => nomatch he) (fun _ => rfl) (fun _ => rfl) hmem ht.keeps
    (ht.publishing.trans h.clear) (fun k => by rw [ht.keys]) fun p hp => ?_
  obtain ⟨q, hq, hstate⟩ := ht.states p hp
  rw [hstate]
  exact h.pending q hq

theorem done_append (s : PipelineRunner) (item : Item) (verdict : Verdict) (key : PendingKey) :
    ((s.settled ++ [(item, verdict)]).map fun p => p.1.key).count key = s.done key + [item.key].count key := by
  rw [List.map_append, List.count_append]
  rfl

/-- A worker settles the future of the item at its head. -/
theorem Inv.discard (h : Inv cfg s) {old : Phase} {item : Item} {rest : List Item} (error : RunnerError)
    (hw : s.workers[w]? = some { phase := old }) (hold : old.waiting = item.key :: Item.keys rest) (hparked : old.parked = [])
    (hsound : ∀ i ∈ item :: rest, i ∈ s.put) :
    Inv cfg { s with settled := s.settled ++ [(item, .failed error)], workers := s.workers.set w { phase := .batch rest } } := by
  have hm := moved_set hw { phase := .batch rest }
  have hne : (⟨old, {}⟩ : Worker) ≠ { phase := .exited } := by
    intro he
    have hphase : old = .exited := congrArg Worker.phase he
    rw [hphase] at hold
    cases hold
  refine { h with
    ledger := fun key => ?_
    awaiting := fun key => ?_
    handed := fun key => ?_
    settled := ?_
    phases := all_set h.phases fun i hi => hsound i (List.mem_cons_of_mem _ hi)
    hands := all_set h.hands (sound_empty _)
    stops := h.stops.work hw hne rfl rfl id rfl fun key => ?_ }
  · have hk := hm key
    have hl := h.ledger key
    have h₁ := hk.waiting
    have h₂ := hk.popped
    have h₃ := hk.settling
    have h₄ := hk.parked
    have h₅ := hk.hand
    have h₆ := done_append s item (.failed error) key
    have h₇ : (item.key :: Item.keys rest).count key = [item.key].count key + (Item.keys rest).count key := by
      rw [← List.count_append]
      rfl
    rw [hparked] at h₄
    rw [hold] at h₁
    simp only [waiting, parked, popped, settling, done, overWorkers, Phase.waiting, Phase.parked] at hl h₁ h₂ h₃ h₄ h₅ h₆ ⊢
    omega
  · have hk := hm key
    have h₄ := hk.parked
    have h₅ := hk.hand
    rw [hparked] at h₄
    have hall : ({ s with settled := s.settled ++ [(item, .failed error)], workers := s.workers.set w { phase := .batch rest } } :
        PipelineRunner).parked key = s.parked key := by
      simp only [parked, overWorkers, Phase.parked] at h₄ h₅ ⊢
      omega
    rw [hall]
    exact h.awaiting key
  · have hk := hm key
    have hh := h.handed key
    have h₃ := hk.settling
    have h₆ := done_append s item (.failed error) key
    simp only [settling, done, overWorkers] at hh h₃ h₆ ⊢
    omega
  · intro p hp
    cases List.mem_append.mp hp with
    | inl hp => exact h.settled p hp
    | inr hp =>
      rw [List.mem_singleton.mp hp]
      exact ⟨hsound item List.mem_cons_self, fun r hr => nomatch hr⟩
  · have h₆ := done_append s item (.failed error) key
    simp only [done] at h₆ ⊢
    omega

theorem Inv.getBatch (h : Inv cfg s) {batch : List Item} (hw : s.workers[w]? = some { phase := .batch [] })
    (hbatch : batch.Perm (s.queue.filter fun item => decide (item ∈ batch))) :
    Inv cfg { s with
      queue := s.queue.filter fun item => decide (item ∉ batch)
      taken := s.taken ++ batch
      workers := s.workers.set w { phase := .batch batch } } := by
  have hm := moved_set hw { phase := .batch batch }
  have hfrom : ∀ item ∈ batch, item ∈ s.put := fun item hi => h.queued item (List.mem_filter.mp (hbatch.mem_iff.mp hi)).1
  have hsplit : ∀ key, (Item.keys s.queue).count key =
      (Item.keys batch).count key + (Item.keys (s.queue.filter fun item => decide (item ∉ batch))).count key := by
    intro key
    have hperm := (List.filter_append_perm (fun item => decide (item ∈ batch)) s.queue).map Item.key
    have hcount := hperm.count_eq key
    rw [List.map_append, List.count_append] at hcount
    have hin := (hbatch.map Item.key).count_eq key
    simp only [Item.keys, decide_not] at hcount hin ⊢
    omega
  refine { h with
    ledger := fun key => ?_
    awaiting := fun key => ?_
    handed := fun key => ?_
    queued := fun item hi => h.queued item (List.mem_filter.mp hi).1
    taken := ?_
    phases := all_set h.phases hfrom
    hands := all_set h.hands (sound_empty _)
    stops := h.stops.work hw (fun he => nomatch congrArg Worker.phase he) rfl rfl (fun hq => ?_) rfl fun _ => le_refl _ }
  · have hk := hm key
    have hl := h.ledger key
    have hs := hsplit key
    have h₁ := hk.waiting
    have h₂ := hk.popped
    have h₃ := hk.settling
    have h₄ := hk.parked
    have h₅ := hk.hand
    have hnil : (Item.keys []).count key = 0 := rfl
    simp only [waiting, parked, popped, settling, done, overWorkers, Phase.waiting, Phase.parked] at hl h₁ h₂ h₃ h₄ h₅ ⊢
    omega
  · have hk := hm key
    have h₄ := hk.parked
    have h₅ := hk.hand
    rw [← h.awaiting key]
    simp only [parked, overWorkers, Phase.parked] at h₄ h₅ ⊢
    omega
  · have hk := hm key
    have hh := h.handed key
    have h₃ := hk.settling
    simp only [settling, done, overWorkers] at hh h₃ ⊢
    omega
  · intro item hi
    cases List.mem_append.mp hi with
    | inl hi => exact h.taken item hi
    | inr hi => exact hfrom item hi
  · dsimp only
    rw [hq]
    rfl

theorem Inv.register (h : Inv cfg s) {item : Item} {state : Reassembly.FrameState} {frame : FrameState} {rest : List Item}
    (hw : s.workers[w]? = some { phase := .registering item state frame rest }) :
    Inv cfg { s with
      awaiting := if s.awaiting.contains state.key then s.awaiting else s.awaiting.set state.key item
      workers := s.workers.set w { phase := .opening item state frame rest } } := by
  have hm := moved_set hw { phase := .opening item state frame rest }
  obtain ⟨hmem, hcontext⟩ := h.phase hw
  have hkey : state.key = item.key := congrArg RequestContext.key hcontext
  have hcons : ∀ key, (item.key :: Item.keys rest).count key = [item.key].count key + (Item.keys rest).count key := by
    intro key
    rw [← List.count_append]
    rfl
  have hparked : ∀ key, ({ s with
      awaiting := if s.awaiting.contains state.key then s.awaiting else s.awaiting.set state.key item
      workers := s.workers.set w { phase := .opening item state frame rest } } : PipelineRunner).parked key =
        s.parked key + [item.key].count key := by
    intro key
    have hk := hm key
    have h₄ := hk.parked
    have h₅ := hk.hand
    have hnil : ([] : List PendingKey).count key = 0 := rfl
    simp only [parked, overWorkers, Phase.parked] at h₄ h₅ ⊢
    omega
  have hfree : s.parked item.key = 0 := by
    have honce := h.once item.key
    have hk := hm item.key
    have h₁ := hk.waiting
    have hc := hcons item.key
    have hone : [item.key].count item.key = 1 := List.count_singleton_self
    simp only [waiting, overWorkers, Phase.waiting] at honce h₁
    omega
  have hget : s.awaiting.get? item.key = none := by
    cases hg : s.awaiting.get? item.key with
    | none => rfl
    | some other =>
      have hpos := (h.awaiting item.key).mpr ⟨other, hg⟩
      omega
  have hset : (if s.awaiting.contains state.key then s.awaiting else s.awaiting.set state.key item) =
      s.awaiting.set item.key item := by
    rw [hkey]
    unfold Dict.contains
    rw [hget]
    rfl
  refine { h with
    ledger := fun key => ?_
    awaiting := fun key => ?_
    awaited := fun key other => ?_
    handed := fun key => ?_
    phases := all_set h.phases ⟨hmem, hcontext⟩
    hands := all_set h.hands (sound_empty _)
    stops := h.stops.work hw (fun he => nomatch congrArg Worker.phase he) rfl rfl id rfl fun _ => le_refl _ }
  · have hk := hm key
    have hl := h.ledger key
    have h₁ := hk.waiting
    have h₂ := hk.popped
    have h₃ := hk.settling
    have h₄ := hparked key
    have hc := hcons key
    simp only [waiting, popped, settling, done, overWorkers, Phase.waiting] at hl h₁ h₂ h₃ h₄ ⊢
    omega
  · rw [hparked key, hset, Dict.get?_set]
    by_cases hk : key = item.key
    · subst hk
      simp
    · rw [if_neg hk, List.count_singleton, if_neg (by simpa using Ne.symm hk)]
      exact h.awaiting key
  · rw [hset, Dict.get?_set]
    split
    next hk =>
      intro ho
      cases ho
      exact ⟨hmem item List.mem_cons_self, hk.symm⟩
    · exact h.awaited key other
  · have hk := hm key
    have hh := h.handed key
    have h₃ := hk.settling
    simp only [settling, done, overWorkers] at hh h₃ ⊢
    omega

/-- What a call took out of the collector is about items that were put. -/
theorem Inv.tracked (h : Inv cfg s) {c : FrameCollector} (ht : s.collector.Tracks c) : Hand.Sound s.put { results := c.publishing } := by
  refine ⟨fun r hr => ?_, trivial⟩
  cases ht r hr with
  | inl hr =>
    rw [h.clear] at hr
    cases hr
  | inr hp =>
    obtain ⟨p, hp, hstate⟩ := hp
    rw [hstate]
    exact h.pending p hp

/-- A worker's call of the collector that takes frames out, into its hands. -/
theorem Inv.collects (h : Inv cfg s) {old new : Phase} (hw : s.workers[w]? = some { phase := old }) (hold : old ≠ .exited)
    {c : FrameCollector} (hwaiting : ∀ key, new.waiting.count key = old.waiting.count key)
    (hinside : ∀ key, new.parked.count key + c.inside.count key = old.parked.count key + s.collector.inside.count key)
    (hsound : new.Sound s.put) (hkeeps : c.Keeps cfg.reassembly) (htracks : s.collector.Tracks c)
    (hpending : ∀ p ∈ c.pending.entries, ∃ item ∈ s.put, p.2.state.context = item.request.context) :
    Inv cfg { s with
      collector := { c with publishing := [] }
      workers := s.workers.set w { phase := new, hand := { results := c.publishing } } } := by
  have hm := moved_set hw { phase := new, hand := { results := c.publishing } }
  have hparked : ∀ key, ({ s with
      collector := { c with publishing := [] }
      workers := s.workers.set w { phase := new, hand := { results := c.publishing } } } : PipelineRunner).parked key =
        s.parked key := by
    intro key
    have hk := hm key
    have h₄ := hk.parked
    have h₅ := hk.hand
    have hi := hinside key
    have hnil : ([] : List PendingKey).count key = 0 := rfl
    rw [FrameCollector.inside_counts, FrameCollector.inside_counts, h.clear] at hi
    simp only [parked, overWorkers, Hand.parked, List.map_nil] at hi h₄ h₅ ⊢
    omega
  refine { h with
    ledger := fun key => ?_
    awaiting := fun key => ?_
    handed := fun key => ?_
    keeps := ⟨hkeeps.bounded, hkeeps.keyed, hkeeps.indexed⟩
    clear := rfl
    pending := hpending
    phases := all_set h.phases hsound
    hands := all_set h.hands (h.tracked htracks)
    stops := h.stops.work hw (fun he => hold (congrArg Worker.phase he)) rfl rfl id rfl fun _ => le_refl _ }
  · have hk := hm key
    have hl := h.ledger key
    have h₁ := hk.waiting
    have h₂ := hk.popped
    have h₃ := hk.settling
    have h₄ := hparked key
    have h₅ := hwaiting key
    simp only [waiting, popped, settling, done, overWorkers, Hand.popped, Hand.settling] at hl h₁ h₂ h₃ h₄ ⊢
    omega
  · rw [hparked key]
    exact h.awaiting key
  · have hk := hm key
    have hh := h.handed key
    have h₃ := hk.settling
    simp only [settling, done, overWorkers, Hand.settling] at hh h₃ ⊢
    omega

theorem Inv.open (h : Inv cfg s) {item : Item} {state : Reassembly.FrameState} {frame : FrameState} {rest : List Item}
    (stages : List String) (now evictNow : Int) (calls : List PipelineGraph.Call)
    (hw : s.workers[w]? = some { phase := .opening item state frame rest }) :
    Inv cfg { s with
      collector := { (s.collector.open cfg.reassembly state stages now evictNow).1 with publishing := [] }
      workers := s.workers.set w
        { phase := if (s.collector.open cfg.reassembly state stages now evictNow).2.isOpened then .running state.key calls rest
            else .refused item rest
          hand := { results := (s.collector.open cfg.reassembly state stages now evictNow).1.publishing } } } := by
  obtain ⟨hmem, hcontext⟩ := h.phase hw
  have hkey : state.key = item.key := congrArg RequestContext.key hcontext
  obtain ⟨hkeeps, hpending, htracks, hinside⟩ := FrameCollector.open_opens h.keeps state stages now evictNow
  refine h.collects hw (fun he => nomatch he) (fun key => ?_) (fun key => ?_) ?_ hkeeps htracks fun p hp => ?_
  · split <;> rfl
  · have hcount := hinside.count_eq key
    rw [hcount]
    split
    next hopened =>
      rw [hkey]
      show 0 + (item.key :: s.collector.inside).count key = [item.key].count key + s.collector.inside.count key
      rw [Nat.zero_add, ← List.count_append, List.singleton_append]
    · rfl
  · split
    · exact fun i hi => hmem i (List.mem_cons_of_mem _ hi)
    · exact hmem
  · cases hpending p hp with
    | inl hp => exact h.pending p hp
    | inr he =>
      rw [he]
      exact ⟨item, hmem item List.mem_cons_self, hcontext⟩

theorem Inv.seal (h : Inv cfg s) {key : PendingKey} {rest : List Item} (now : Int)
    (hw : s.workers[w]? = some { phase := .running key [] rest }) :
    Inv cfg { s with
      collector := { s.collector.seal key now with publishing := [] }
      workers := s.workers.set w { phase := .batch rest, hand := { results := (s.collector.seal key now).publishing } } } := by
  have hmoves := FrameCollector.seal_moves s.collector key now
  have hwaiting : ∀ k, (Phase.batch rest).waiting.count k = (Phase.running key [] rest).waiting.count k := fun _ => rfl
  refine h.collects hw (fun he => nomatch he) hwaiting (fun k => ?_) ?_ (h.keeps.moves hmoves)
    hmoves.tracks fun p hp => h.pending p (hmoves.waiting p hp)
  · rw [(FrameCollector.seal_inside h.keeps key now).count_eq k]
    rfl
  · have hmem := h.phase hw
    exact hmem

theorem Inv.unregister (h : Inv cfg s) {item : Item} {rest : List Item} (hw : s.workers[w]? = some { phase := .refused item rest }) :
    Inv cfg { s with
      awaiting := if s.awaiting.get? item.key = some item then s.awaiting.erase item.key else s.awaiting
      workers := s.workers.set w { phase := .failing item rest } } := by
  have hm := moved_set hw { phase := .failing item rest }
  have hmem := h.phase hw
  have hparked : ∀ key, ({ s with
      awaiting := if s.awaiting.get? item.key = some item then s.awaiting.erase item.key else s.awaiting
      workers := s.workers.set w { phase := .failing item rest } } : PipelineRunner).parked key + [item.key].count key =
        s.parked key := by
    intro key
    have hk := hm key
    have h₄ := hk.parked
    have h₅ := hk.hand
    have hnil : ([] : List PendingKey).count key = 0 := rfl
    simp only [parked, overWorkers, Phase.parked] at h₄ h₅ ⊢
    omega
  have hone : [item.key].count item.key = 1 := List.count_singleton_self
  obtain ⟨other, hother⟩ := (h.awaiting item.key).mp (by have hp := hparked item.key; omega)
  have hsame : other = item :=
    h.unique (h.awaited _ _ hother).1 (hmem item List.mem_cons_self) (h.awaited _ _ hother).2
  have herase : (if s.awaiting.get? item.key = some item then s.awaiting.erase item.key else s.awaiting) =
      s.awaiting.erase item.key := by
    rw [if_pos (hsame ▸ hother)]
  have hbusy : ({ phase := .refused item rest } : Worker) ≠ { phase := .exited } := by
    intro he
    cases congrArg Worker.phase he
  refine { h with
    ledger := fun key => ?_
    awaiting := fun key => ?_
    awaited := fun key other => ?_
    handed := fun key => ?_
    phases := all_set h.phases hmem
    hands := all_set h.hands (sound_empty _)
    stops := h.stops.work hw hbusy rfl rfl id rfl fun _ => le_refl _ }
  · have hk := hm key
    have hl := h.ledger key
    have h₁ := hk.waiting
    have h₂ := hk.popped
    have h₃ := hk.settling
    have h₄ := hparked key
    have hc : (item.key :: Item.keys rest).count key = [item.key].count key + (Item.keys rest).count key := by
      rw [← List.count_append]
      rfl
    simp only [waiting, popped, settling, done, overWorkers, Phase.waiting] at hl h₁ h₂ h₃ h₄ ⊢
    omega
  · have hp := hparked key
    rw [herase] at hp ⊢
    rw [Dict.get?_erase]
    by_cases hk : key = item.key
    · subst hk
      have honce := h.once item.key
      rw [if_pos rfl]
      constructor
      · intro hpos
        omega
      · intro hsome
        obtain ⟨_, hsome⟩ := hsome
        cases hsome
    · rw [if_neg hk, ← h.awaiting key]
      have hzero : [item.key].count key = 0 := by rw [List.count_singleton, if_neg (by simpa using Ne.symm hk)]
      rw [hzero] at hp
      omega
  · rw [herase, Dict.get?_erase]
    split
    · intro ho
      cases ho
    · exact h.awaited key other
  · have hk := hm key
    have hh := h.handed key
    have h₃ := hk.settling
    simp only [settling, done, overWorkers] at hh h₃ ⊢
    omega

/-! ## The steps of an emission -/

/-- What a change of one thread's hand changes of the counts. -/
structure Handed (s s' : PipelineRunner) (old new : Hand) (key : PendingKey) : Prop where
  waiting : s'.waiting key = s.waiting key
  parked : s'.parked key + old.parked.count key = s.parked key + new.parked.count key
  popped : s'.popped key + old.popped.count key = s.popped key + new.popped.count key
  settling : s'.settling key + old.settling.count key = s.settling key + new.settling.count key

theorem workers_modify {worker : Worker} (hw : s.workers[w]? = some worker) (new : Hand) :
    s.workers.modify w (fun worker => { worker with hand := new }) = s.workers.set w { worker with hand := new } := by
  rw [List.modify_eq_set_getElem?, hw]
  rfl

theorem handed_setHand {thread : Thread} {old : Hand} (hhand : s.handOf thread = some old) (new : Hand) (key : PendingKey) :
    Handed s (s.setHand new thread) old new key := by
  cases thread with
  | worker w =>
    obtain ⟨worker, hw, rfl⟩ := Option.map_eq_some_iff.mp hhand
    have hk := moved_set hw { worker with hand := new } key
    have h₁ := hk.waiting
    have h₂ := hk.popped
    have h₃ := hk.settling
    have h₄ := hk.parked
    have h₅ := hk.hand
    unfold setHand
    dsimp only
    rw [workers_modify hw new]
    constructor
    · simp only [PipelineRunner.waiting, overWorkers] at h₁ ⊢
      omega
    · simp only [PipelineRunner.parked, overWorkers] at h₄ h₅ ⊢
      omega
    · simp only [PipelineRunner.popped, overWorkers] at h₂ ⊢
      omega
    · simp only [PipelineRunner.settling, overWorkers] at h₃ ⊢
      omega
  | sweeper =>
    cases hhand
    constructor
    · rfl
    · simp only [PipelineRunner.parked, overWorkers, setHand]
      omega
    · simp only [PipelineRunner.popped, overWorkers, setHand]
      omega
    · simp only [PipelineRunner.settling, overWorkers, setHand]
      omega
  | stopper =>
    cases hhand
    constructor
    · rfl
    · simp only [PipelineRunner.parked, overWorkers, setHand]
      omega
    · simp only [PipelineRunner.popped, overWorkers, setHand]
      omega
    · simp only [PipelineRunner.settling, overWorkers, setHand]
      omega

theorem handOf_sound (h : Inv cfg s) {thread : Thread} {old : Hand} (hhand : s.handOf thread = some old) : old.Sound s.put := by
  cases thread with
  | worker w =>
    obtain ⟨worker, hw, rfl⟩ := Option.map_eq_some_iff.mp hhand
    exact h.hands _ (List.mem_of_getElem? hw)
  | sweeper =>
    cases hhand
    exact h.sweeper
  | stopper =>
    cases hhand
    exact h.stopper

/-- A thread that emits goes on with it. -/
theorem Inv.hold (h : Inv cfg s) {thread : Thread} {old new : Hand} (hhand : s.handOf thread = some old) (hbusy : old ≠ {})
    (hsound : new.Sound s.put) {c : FrameCollector} {awaiting : Dict PendingKey Item} {handed : List FrameResult}
    {settled : List (Item × Verdict)}
    (hs' : s' = { s with collector := c, awaiting := awaiting, handed := handed, settled := settled }.setHand new thread)
    (hkeeps : c.Keeps cfg.reassembly) (hclear : c.publishing = []) (hpending : c.pending = s.collector.pending)
    (hledger : ∀ key, new.parked.count key + new.popped.count key + new.settling.count key + (settled.map fun p => p.1.key).count key =
      old.parked.count key + old.popped.count key + old.settling.count key + s.done key)
    (hawaiting : ∀ key, old.parked.count key < s.parked key + new.parked.count key ↔ ∃ item, awaiting.get? key = some item)
    (hawaited : ∀ key item, awaiting.get? key = some item → s.awaiting.get? key = some item)
    (hhanded : ∀ key, (handed.map fun r => r.state.key).count key + old.settling.count key ≤
      s.settling key + new.settling.count key + (settled.map fun p => p.1.key).count key)
    (hdone : ∀ key, s.done key ≤ (settled.map fun p => p.1.key).count key)
    (hsettled : ∀ p ∈ settled, p.1 ∈ s.put ∧ ∀ r, p.2 = .event r → r.state.context = p.1.request.context) : Inv cfg s' := by
  have hcounts : ∀ key, Handed s s' old new key := by
    intro key
    have hhand' : handOf { s with collector := c, awaiting := awaiting, handed := handed, settled := settled } thread = some old := by
      cases thread <;> exact hhand
    have hk := handed_setHand hhand' new key
    rw [hs']
    refine ⟨hk.waiting, ?_, hk.popped, hk.settling⟩
    rw [hk.parked]
    simp only [PipelineRunner.parked, overWorkers, hpending]
  have hdone' : ∀ key, s'.done key = (settled.map fun p => p.1.key).count key := by
    intro key
    rw [hs']
    cases thread <;> rfl
  have hledger' : ∀ key, s'.waiting key + s'.parked key + s'.popped key + s'.settling key + s'.done key =
      (Item.keys s.put).count key := by
    intro key
    have hl := h.ledger key
    have hl' := hledger key
    obtain ⟨h₁, h₂, h₃, h₄⟩ := hcounts key
    have h₅ := hdone' key
    omega
  have hawaiting' : ∀ key, 0 < s'.parked key ↔ ∃ item, awaiting.get? key = some item := by
    intro key
    have h₂ := (hcounts key).parked
    rw [← hawaiting key]
    omega
  have hhanded' : ∀ key, (handed.map fun r => r.state.key).count key ≤ s'.settling key + s'.done key := by
    intro key
    have hh := hhanded key
    have h₄ := (hcounts key).settling
    have h₅ := hdone' key
    omega
  have hstops : s'.Stops := by
    refine h.stops.keep ?_ ?_ (fun _ hq => ?_) ?_ (fun key => (hdone key).trans_eq (hdone' key).symm) fun hjoined => ⟨?_, ?_⟩
    · rw [hs']
      cases thread <;> rfl
    · rw [hs']
      cases thread <;> rfl
    · rw [hs']
      cases thread <;> exact hq
    · rw [hs']
      cases thread <;> exact fun _ => id
    · cases thread with
      | worker w =>
        obtain ⟨worker, hw, rfl⟩ := Option.map_eq_some_iff.mp hhand
        exact absurd (congrArg Worker.hand (hjoined.1 worker (List.mem_of_getElem? hw))) hbusy
      | sweeper =>
        cases hhand
        exact absurd (h.swept hjoined.2) hbusy
      | stopper =>
        rw [hs']
        exact hjoined
    · intro hnone
      rw [hs']
      cases thread <;> exact (congrArg Dict.entries hpending).trans hnone
  subst hs'
  cases thread with
  | worker w =>
    obtain ⟨worker, hw, rfl⟩ := Option.map_eq_some_iff.mp hhand
    have hset := workers_modify hw new
    have hmem := List.mem_of_getElem? hw
    exact { h with
      ledger := hledger'
      awaiting := hawaiting'
      awaited := fun key item hi => h.awaited key item (hawaited key item hi)
      handed := hhanded'
      keeps := hkeeps
      clear := hclear
      pending := by
        intro p hp
        exact h.pending p (hpending ▸ hp)
      settled := hsettled
      phases := by
        show ∀ worker ∈ s.workers.modify w _, _
        rw [hset]
        exact all_set h.phases (h.phases worker hmem)
      hands := by
        show ∀ worker ∈ s.workers.modify w _, _
        rw [hset]
        exact all_set h.hands hsound
      stops := hstops }
  | sweeper =>
    cases hhand
    exact { h with
      ledger := hledger'
      awaiting := hawaiting'
      awaited := fun key item hi => h.awaited key item (hawaited key item hi)
      handed := hhanded'
      keeps := hkeeps
      clear := hclear
      pending := by
        intro p hp
        exact h.pending p (hpending ▸ hp)
      settled := hsettled
      sweeper := hsound
      swept := fun hexited => absurd (h.swept hexited) hbusy
      stops := hstops }
  | stopper =>
    cases hhand
    exact { h with
      ledger := hledger'
      awaiting := hawaiting'
      awaited := fun key item hi => h.awaited key item (hawaited key item hi)
      handed := hhanded'
      keeps := hkeeps
      clear := hclear
      pending := by
        intro p hp
        exact h.pending p (hpending ▸ hp)
      settled := hsettled
      stopper := hsound
      idle := fun hphase => absurd (h.idle hphase) hbusy
      stops := hstops }

/-- What a thread holds is among what is held. -/
theorem held_le {thread : Thread} {old : Hand} (hhand : s.handOf thread = some old) (key : PendingKey) :
    old.parked.count key ≤ s.parked key ∧ old.popped.count key ≤ s.popped key ∧ old.settling.count key ≤ s.settling key := by
  obtain ⟨-, h₂, h₃, h₄⟩ := handed_setHand hhand {} key
  have hnil : ([] : List PendingKey).count key = 0 := rfl
  have hparked : (({} : Hand).parked).count key = 0 := rfl
  have hpopped : (({} : Hand).popped).count key = 0 := rfl
  have hsettling : (({} : Hand).settling).count key = 0 := rfl
  omega

theorem publish_one {c : FrameCollector} (hk : c.Keeps cfg.reassembly) (r : FrameResult) :
    ({ c with publishing := [r] }.publish 0).1.Keeps cfg.reassembly ∧ ({ c with publishing := [r] }.publish 0).1.publishing = [] ∧
      ({ c with publishing := [r] }.publish 0).1.pending = c.pending := by
  unfold FrameCollector.publish
  simp only [List.getElem?_cons_zero, List.eraseIdx_cons_zero]
  split
  · exact ⟨⟨hk.bounded, hk.keyed, hk.indexed⟩, rfl, rfl⟩
  · exact ⟨⟨hk.bounded, hk.keyed, hk.indexed⟩, rfl, rfl⟩

theorem Inv.pop (h : Inv cfg s) {thread : Thread} {r : FrameResult} {results : List FrameResult}
    (hhand : s.handOf thread = some { results := r :: results }) :
    Inv cfg ({ s with
      collector := ({ s.collector with publishing := [r] }.publish 0).1
      awaiting := s.awaiting.erase r.state.key }.setHand
        { results := results, current := .popped r (s.awaiting.get? r.state.key) } thread) := by
  have hcons : ∀ key, ((r :: results).map fun r => r.state.key).count key =
      [r.state.key].count key + (results.map fun r => r.state.key).count key := by
    intro key
    rw [← List.count_append]
    rfl
  have hone : [r.state.key].count r.state.key = 1 := List.count_singleton_self
  have hle := (held_le hhand r.state.key).1
  rw [Hand.parked, hcons] at hle
  obtain ⟨item, hitem⟩ := (h.awaiting r.state.key).mp (by omega)
  obtain ⟨hmem, hkey⟩ := h.awaited _ _ hitem
  obtain ⟨hresults, -⟩ := handOf_sound h hhand
  obtain ⟨origin, horigin, hcontext⟩ := hresults r List.mem_cons_self
  have hsame : origin = item := by
    apply h.unique horigin hmem
    rw [hkey]
    exact congrArg RequestContext.key hcontext.symm
  obtain ⟨hkeeps, hclear, hpending⟩ := publish_one h.keeps r
  have hpopped : ∀ key, (Item.keys (s.awaiting.get? r.state.key).toList).count key = [r.state.key].count key := by
    intro key
    rw [hitem, ← hkey]
    rfl
  have hbusy : ({ results := r :: results } : Hand) ≠ {} := by
    intro he
    cases congrArg Hand.results he
  refine h.hold hhand hbusy ?_ rfl hkeeps hclear hpending (fun key => ?_) (fun key => ?_)
    (fun key other ho => ?_) (fun key => ?_) (fun _ => le_refl _) h.settled
  · exact ⟨fun r' hr' => hresults r' (List.mem_cons_of_mem _ hr'), item, hmem, hitem, hsame ▸ hcontext⟩
  · have hc := hcons key
    have hp := hpopped key
    have hnil : ([] : List PendingKey).count key = 0 := rfl
    simp only [Hand.parked, Hand.popped, Hand.settling, done]
    omega
  · have hc := hcons key
    have honce := h.once key
    have hle := (held_le hhand key).1
    rw [Dict.get?_erase]
    simp only [Hand.parked] at hle ⊢
    by_cases hk : key = r.state.key
    · subst hk
      rw [if_pos rfl]
      constructor
      · intro hlt
        omega
      · intro hsome
        obtain ⟨_, hsome⟩ := hsome
        cases hsome
    · have hzero : [r.state.key].count key = 0 := by rw [List.count_singleton, if_neg (by simpa using Ne.symm hk)]
      rw [if_neg hk, ← h.awaiting key]
      omega
  · rw [Dict.get?_erase] at ho
    split at ho
    · cases ho
    · exact ho
  · have hh := h.handed key
    have hnil : ([] : List PendingKey).count key = 0 := rfl
    simp only [Hand.settling, done] at hh ⊢
    omega

theorem resolve_cases (r : FrameResult) (delivery : Delivery) :
    ((resolve r delivery).1 = [] ∨ (resolve r delivery).1 = [r]) ∧ ∀ r', (resolve r delivery).2 = .event r' → r' = r := by
  unfold resolve
  dsimp only
  split
  · exact ⟨.inl rfl, fun r' hr' => nomatch hr'⟩
  · cases delivery with
    | buildFails => exact ⟨.inl rfl, fun r' hr' => nomatch hr'⟩
    | dropped => exact ⟨.inr rfl, fun r' hr' => nomatch hr'⟩
    | recordFails => exact ⟨.inr rfl, fun r' hr' => nomatch hr'⟩
    | published => exact ⟨.inr rfl, fun r' hr' => by cases hr'; rfl⟩

theorem Inv.emit (h : Inv cfg s) {thread : Thread} {r : FrameResult} {future : Option Item} {results : List FrameResult}
    (delivery : Delivery) (hhand : s.handOf thread = some { results := results, current := .popped r future }) :
    Inv cfg ({ s with handed := s.handed ++ (resolve r delivery).1 }.setHand
      { results := results, current := .settling future (resolve r delivery).2 } thread) := by
  obtain ⟨hresults, item, hmem, rfl, hcontext⟩ := handOf_sound h hhand
  obtain ⟨hhanded, hverdict⟩ := resolve_cases r delivery
  refine h.hold hhand (fun he => nomatch congrArg Hand.current he) ?_ rfl h.keeps h.clear rfl (fun key => ?_) (fun key => ?_)
    (fun _ _ ho => ho) (fun key => ?_) (fun _ => le_refl _) h.settled
  · exact ⟨hresults, item, hmem, rfl, fun r' hr' => hverdict r' hr' ▸ hcontext⟩
  · have hnil : ([] : List PendingKey).count key = 0 := rfl
    simp only [Hand.parked, Hand.popped, Hand.settling, done]
    omega
  · have hle := (held_le hhand key).1
    rw [← h.awaiting key]
    simp only [Hand.parked] at hle ⊢
    omega
  · have hh := h.handed key
    have honce := h.once key
    have hle := (held_le hhand key).2.1
    have hkey : r.state.key = item.key := congrArg RequestContext.key hcontext
    have hnil : ([] : List PendingKey).count key = 0 := rfl
    rw [List.map_append, List.count_append]
    cases hhanded with
    | inl hnone =>
      rw [hnone, List.map_nil]
      simp only [Hand.settling, done] at hh ⊢
      omega
    | inr hsome =>
      rw [hsome, List.map_singleton, hkey]
      have hitem : (Item.keys (some item).toList).count key = [item.key].count key := rfl
      simp only [Hand.popped, Hand.settling, done] at hle hh honce ⊢
      omega

theorem Inv.settle (h : Inv cfg s) {thread : Thread} {future : Option Item} {verdict : Verdict} {results : List FrameResult}
    (hhand : s.handOf thread = some { results := results, current := .settling future verdict }) :
    Inv cfg ({ s with settled := s.settled ++ future.toList.map fun item => (item, verdict) }.setHand
      { results := results } thread) := by
  obtain ⟨hresults, item, hmem, rfl, hevent⟩ := handOf_sound h hhand
  have happend := done_append s item verdict
  have hitem : ∀ key, (Item.keys (some item).toList).count key = [item.key].count key := fun _ => rfl
  refine h.hold hhand (fun he => nomatch congrArg Hand.current he) ?_ rfl h.keeps h.clear rfl (fun key => ?_)
    (fun key => ?_) (fun _ _ ho => ho) (fun key => ?_) (fun key => ?_) fun p hp => ?_
  · exact ⟨hresults, trivial⟩
  · have ha := happend key
    have hi := hitem key
    have hnil : ([] : List PendingKey).count key = 0 := rfl
    simp only [Hand.parked, Hand.popped, Hand.settling, Option.toList_some, List.map_singleton] at hi ⊢
    omega
  · have hle := (held_le hhand key).1
    rw [← h.awaiting key]
    simp only [Hand.parked] at hle ⊢
    omega
  · have ha := happend key
    have hi := hitem key
    have hh := h.handed key
    have hnil : ([] : List PendingKey).count key = 0 := rfl
    simp only [Hand.settling, Option.toList_some, List.map_singleton] at hi ⊢
    omega
  · have ha := happend key
    simp only [Option.toList_some, List.map_singleton]
    omega
  · cases List.mem_append.mp hp with
    | inl hp => exact h.settled p hp
    | inr hp =>
      rw [List.mem_singleton.mp hp]
      exact ⟨hmem, hevent⟩

/-! ## The queue, the sweeper and `stop` -/

theorem Inv.putItem (h : Inv cfg s) (item : Item) (hopen : s.queueClosed = false) (htags : (Item.keys (s.put ++ [item])).Nodup) :
    Inv cfg { s with queue := s.queue ++ [item], put := s.put ++ [item] } := by
  have hsub : ∀ {i : Item}, i ∈ s.put → i ∈ s.put ++ [item] := fun hi => List.mem_append_left _ hi
  have hhand : ∀ {hand : Hand}, hand.Sound s.put → hand.Sound (s.put ++ [item]) := by
    intro hand hs
    obtain ⟨hresults, hcurrent⟩ := hs
    refine ⟨fun r hr => (hresults r hr).imp fun i hi => ⟨hsub hi.1, hi.2⟩, ?_⟩
    split
    · trivial
    next hc =>
      rw [hc] at hcurrent
      exact hcurrent.imp fun i hi => ⟨hsub hi.1, hi.2⟩
    next hc =>
      rw [hc] at hcurrent
      exact hcurrent.imp fun i hi => ⟨hsub hi.1, hi.2⟩
  have hphase : ∀ {phase : Phase}, phase.Sound s.put → phase.Sound (s.put ++ [item]) := by
    intro phase hs
    cases phase with
    | batch rest => exact fun i hi => hsub (hs i hi)
    | registering j state frame rest => exact ⟨fun i hi => hsub (hs.1 i hi), hs.2⟩
    | opening j state frame rest => exact ⟨fun i hi => hsub (hs.1 i hi), hs.2⟩
    | refused j rest => exact fun i hi => hsub (hs i hi)
    | failing j rest => exact fun i hi => hsub (hs i hi)
    | running key calls rest => exact fun i hi => hsub (hs i hi)
    | exited => trivial
  refine { h with
    tags := htags
    ledger := fun key => ?_
    awaited := fun key other ho => ⟨hsub (h.awaited key other ho).1, (h.awaited key other ho).2⟩
    pending := fun p hp => (h.pending p hp).imp fun i hi => ⟨hsub hi.1, hi.2⟩
    queued := fun i hi => ?_
    taken := fun i hi => hsub (h.taken i hi)
    settled := fun p hp => ⟨hsub (h.settled p hp).1, (h.settled p hp).2⟩
    phases := fun worker hw => hphase (h.phases worker hw)
    hands := fun worker hw => hhand (h.hands worker hw)
    sweeper := hhand h.sweeper
    stopper := hhand h.stopper
    stops := h.stops.keep rfl rfl (fun hclosed => ?_) (fun _ => hsub) (fun _ => le_refl _) fun hjoined => ⟨hjoined, id⟩ }
  · have hl := h.ledger key
    simp only [waiting, parked, popped, settling, done, overWorkers, Item.keys, List.map_append, List.count_append] at hl ⊢
    omega
  · cases List.mem_append.mp hi with
    | inl hi => exact hsub (h.queued i hi)
    | inr hi => exact List.mem_append_right _ hi
  · rw [hopen] at hclosed
    cases hclosed

theorem Inv.queueFails (h : Inv cfg s) {item : Item} (hmem : item ∈ s.queue) :
    Inv cfg { s with queue := s.queue.erase item, settled := s.settled ++ [(item, .failed .queue)] } := by
  have happend := done_append s item (.failed .queue)
  have hqueue : ∀ key, (Item.keys s.queue).count key = [item.key].count key + (Item.keys (s.queue.erase item)).count key := by
    intro key
    have hperm := ((List.perm_cons_erase hmem).map Item.key).count_eq key
    rw [List.map_cons, ← List.singleton_append, List.count_append] at hperm
    exact hperm
  refine { h with
    ledger := fun key => ?_
    handed := fun key => ?_
    queued := fun i hi => h.queued i (List.mem_of_mem_erase hi)
    settled := fun p hp => ?_
    stops := h.stops.keep rfl rfl (fun _ hq => ?_) (fun _ => id) (fun key => ?_) fun hjoined => ⟨hjoined, id⟩ }
  · have hl := h.ledger key
    have ha := happend key
    have hq := hqueue key
    simp only [waiting, parked, popped, settling, done, overWorkers] at hl ha ⊢
    omega
  · have hh := h.handed key
    have ha := happend key
    simp only [settling, done, overWorkers] at hh ha ⊢
    omega
  · cases List.mem_append.mp hp with
    | inl hp => exact h.settled p hp
    | inr hp =>
      rw [List.mem_singleton.mp hp]
      exact ⟨h.queued item hmem, fun r hr => nomatch hr⟩
  · rw [hq] at hmem
    cases hmem
  · have ha := happend key
    simp only [done] at ha ⊢
    omega

theorem Inv.sweep (h : Inv cfg s) (now : Int) (hidle : s.sweeper = {}) (hin : s.sweeperExited = false) :
    Inv cfg { s with
      collector := { s.collector.sweep now with publishing := [] }
      sweeper := { results := (s.collector.sweep now).publishing } } := by
  have hmoves : FrameCollector.Moves s.collector (s.collector.sweep now) := FrameCollector.removeAll_moves _ _ _ _
  have hinside : ∀ key, (s.collector.sweep now).inside.count key = s.collector.inside.count key := fun key =>
    (FrameCollector.removeAll_inside _ _ _ h.keeps).count_eq key
  have hkeeps := h.keeps.moves hmoves
  have hparked : ∀ key, ({ s with
      collector := { s.collector.sweep now with publishing := [] }
      sweeper := { results := (s.collector.sweep now).publishing } } : PipelineRunner).parked key = s.parked key := by
    intro key
    have hi := hinside key
    rw [FrameCollector.inside_counts, FrameCollector.inside_counts, h.clear] at hi
    simp only [parked, overWorkers, Hand.parked, hidle, List.map_nil, List.count_nil] at hi ⊢
    omega
  refine { h with
    ledger := fun key => ?_
    awaiting := fun key => ?_
    handed := fun key => ?_
    keeps := ⟨hkeeps.bounded, hkeeps.keyed, hkeeps.indexed⟩
    clear := rfl
    pending := fun p hp => h.pending p (hmoves.waiting p hp)
    sweeper := h.tracked hmoves.tracks
    swept := fun hexited => ?_
    stops := h.stops.keep rfl rfl (fun _ => id) (fun _ => id) (fun _ => le_refl _) fun hjoined => ?_ }
  · have hl := h.ledger key
    have hp := hparked key
    simp only [waiting, popped, settling, done, overWorkers, Hand.popped, Hand.settling, hidle] at hl hp ⊢
    omega
  · rw [hparked key]
    exact h.awaiting key
  · have hh := h.handed key
    simp only [settling, done, overWorkers, Hand.settling, hidle] at hh ⊢
    omega
  · rw [hin] at hexited
    cases hexited
  · have hexited := hjoined.2
    rw [hin] at hexited
    cases hexited

/-- `stop` goes on, with no item in hand before or after. -/
theorem Inv.turn (h : Inv cfg s) {phase : StopPhase} {stopping inTime : Bool} (hinTime : inTime = true)
    (hold : s.stopPhase.waiting = []) (hnew : phase.waiting = []) (hidle : s.stopper = {})
    (hstops : { s with stopping := stopping, stopPhase := phase, sweeperInTime := inTime }.Stops) :
    Inv cfg { s with stopping := stopping, stopPhase := phase, sweeperInTime := inTime } := by
  refine { h with
    inTime := hinTime
    ledger := fun key => ?_
    idle := fun _ => hidle
    stops := hstops }
  have hl := h.ledger key
  simp only [waiting, parked, popped, settling, done, overWorkers, hold, hnew] at hl ⊢
  omega

theorem Inv.closeQueue (h : Inv cfg s) (hphase : s.stopPhase = .closing) :
    Inv cfg { s with queueClosed := true, queue := [], stopPhase := .failing s.queue s.queue } := by
  refine { h with
    ledger := fun key => ?_
    queued := fun i hi => (List.not_mem_nil hi).elim
    idle := fun _ => h.idle (by rw [hphase]; exact fun he => nomatch he)
    stops := ⟨rfl, rfl, h.queued, fun i hi => .inl hi⟩ }
  have hl := h.ledger key
  have hnil : ([] : List PendingKey).count key = 0 := rfl
  simp only [waiting, parked, popped, settling, done, overWorkers, hphase, StopPhase.waiting, Item.keys, List.map_nil] at hl ⊢
  omega

theorem Inv.failLost (h : Inv cfg s) {item : Item} {todo lost : List Item} (hphase : s.stopPhase = .failing (item :: todo) lost) :
    Inv cfg { s with stopPhase := .failing todo lost, settled := s.settled ++ [(item, .failed .queue)] } := by
  have happend := done_append s item (.failed .queue)
  have hstops := h.stops
  unfold Stops at hstops
  rw [hphase] at hstops
  obtain ⟨hclosed, hqueue, htodo, hlost⟩ := hstops
  have hdone : ∀ key, ({ s with stopPhase := .failing todo lost, settled := s.settled ++ [(item, .failed .queue)] } :
      PipelineRunner).done key = s.done key + [item.key].count key := happend
  refine { h with
    ledger := fun key => ?_
    handed := fun key => ?_
    settled := fun p hp => ?_
    idle := fun _ => h.idle (by rw [hphase]; exact fun he => nomatch he)
    stops := ⟨hclosed, hqueue, fun i hi => htodo i (List.mem_cons_of_mem _ hi), fun i hi => ?_⟩ }
  · have hl := h.ledger key
    have ha := happend key
    have hc : (Item.keys (item :: todo)).count key = [item.key].count key + (Item.keys todo).count key := by
      rw [← List.count_append]
      rfl
    simp only [waiting, parked, popped, settling, done, overWorkers, hphase, StopPhase.waiting] at hl ha ⊢
    omega
  · have hh := h.handed key
    have ha := happend key
    simp only [settling, done, overWorkers] at hh ha ⊢
    omega
  · cases List.mem_append.mp hp with
    | inl hp => exact h.settled p hp
    | inr hp =>
      rw [List.mem_singleton.mp hp]
      exact ⟨htodo item List.mem_cons_self, fun r hr => nomatch hr⟩
  · have hd := hdone i.key
    cases hlost i hi with
    | inl htodo =>
      cases List.mem_cons.mp htodo with
      | inl he =>
        have hone : [item.key].count i.key = 1 := by rw [he, List.count_singleton_self]
        exact .inr (by omega)
      | inr htodo => exact .inl htodo
    | inr hdone => exact .inr (by omega)

/-- What is erased of `_awaiting` for a lost item was not there. -/
theorem Inv.forgetLost (h : Inv cfg s) {item : Item} {todo : List Item} (hphase : s.stopPhase = .forgetting (item :: todo)) :
    Inv cfg { s with awaiting := s.awaiting.erase item.key, stopPhase := .forgetting todo } := by
  have hstops := h.stops
  unfold Stops at hstops
  rw [hphase] at hstops
  obtain ⟨hclosed, hqueue, htodo⟩ := hstops
  have hget : ∀ key, (s.awaiting.erase item.key).get? key = s.awaiting.get? key := by
    intro key
    rw [Dict.get?_erase]
    by_cases hk : key = item.key
    · rw [if_pos hk]
      cases hg : s.awaiting.get? key with
      | none => rfl
      | some other =>
        have hpos := (h.awaiting key).mpr ⟨other, hg⟩
        have hdone := htodo item List.mem_cons_self
        have honce := h.once key
        rw [← hk] at hdone
        omega
    · rw [if_neg hk]
  refine { h with
    ledger := fun key => ?_
    awaiting := fun key => ?_
    awaited := fun key other => ?_
    idle := fun _ => h.idle (by rw [hphase]; exact fun he => nomatch he)
    stops := ⟨hclosed, hqueue, fun i hi => htodo i (List.mem_cons_of_mem _ hi)⟩ }
  · have hl := h.ledger key
    simp only [waiting, parked, popped, settling, done, overWorkers, hphase, StopPhase.waiting] at hl ⊢
    omega
  · rw [hget key]
    exact h.awaiting key
  · rw [hget key]
    exact h.awaited key other

theorem Inv.drain (h : Inv cfg s) (now : Int) (hphase : s.stopPhase = .draining) :
    Inv cfg { s with
      collector := { s.collector.drain now with publishing := [] }
      stopper := { results := (s.collector.drain now).publishing }
      stopPhase := .emitting } := by
  have hmoves := FrameCollector.drain_moves s.collector now
  have hkeeps := h.keeps.moves hmoves
  have hidle : s.stopper = {} := h.idle (by rw [hphase]; exact fun he => nomatch he)
  have hstops := h.stops
  unfold Stops at hstops
  rw [hphase] at hstops
  have hparked : ∀ key, ({ s with
      collector := { s.collector.drain now with publishing := [] }
      stopper := { results := (s.collector.drain now).publishing }
      stopPhase := .emitting } : PipelineRunner).parked key = s.parked key := by
    intro key
    have hi := (FrameCollector.drain_inside h.keeps now).count_eq key
    rw [FrameCollector.inside_counts, FrameCollector.inside_counts, h.clear] at hi
    simp only [parked, overWorkers, Hand.parked, hidle, List.map_nil, List.count_nil] at hi ⊢
    omega
  refine { h with
    ledger := fun key => ?_
    awaiting := fun key => ?_
    handed := fun key => ?_
    keeps := ⟨hkeeps.bounded, hkeeps.keyed, hkeeps.indexed⟩
    clear := rfl
    pending := fun p hp => h.pending p (hmoves.waiting p hp)
    stopper := h.tracked hmoves.tracks
    idle := fun hne => absurd rfl hne
    stops := ⟨hstops.1, hstops.2.1, hstops.2.2, rfl⟩ }
  · have hl := h.ledger key
    have hp := hparked key
    simp only [waiting, popped, settling, done, overWorkers, Hand.popped, Hand.settling, hidle, hphase, StopPhase.waiting] at hl hp ⊢
    omega
  · rw [hparked key]
    exact h.awaiting key
  · have hh := h.handed key
    simp only [settling, done, overWorkers, Hand.settling, hidle] at hh ⊢
    omega

/-- Once all is emitted nothing is left under `_awaiting`. -/
theorem Inv.awaiting_nil (h : Inv cfg s) (hjoined : s.Joined) (hpending : s.collector.pending.entries = [])
    (hstopper : s.stopper = {}) : s.awaiting.entries = [] := by
  have hparked : ∀ key, s.parked key = 0 := by
    intro key
    have hsum : ∀ f : Worker → Nat, f { phase := .exited } = 0 → s.overWorkers f = 0 := by
      intro f hf
      have hmap : s.workers.map f = s.workers.map fun _ => 0 :=
        List.map_congr_left fun worker hworker => by rw [hjoined.1 worker hworker, hf]
      rw [overWorkers, hmap]
      simp
    have hkeys : s.collector.pending.keys = [] := List.map_eq_nil_iff.mpr hpending
    unfold parked
    rw [hsum _ rfl, hsum _ rfl, h.swept hjoined.2, hstopper, hkeys]
    rfl
  rw [List.eq_nil_iff_forall_not_mem]
  intro p hp
  have hpos := (h.awaiting p.1).mpr ⟨p.2, Dict.get?_eq_some_iff.mpr hp⟩
  rw [hparked] at hpos
  exact absurd hpos (lt_irrefl 0)

theorem Inv.step (h : Inv cfg s) (hstep : Step cfg s s') (htags : (Item.keys s'.put).Nodup) (hinTime : s'.sweeperInTime = true) :
    Inv cfg s' := by
  cases hstep with
  | put request hopen => exact h.putItem _ hopen htags
  | queueFails item hmem => exact h.queueFails hmem
  | getBatch w batch hw hbatch => exact h.getBatch hw hbatch
  | exit w hw =>
    exact h.shift .exited hw (fun he => nomatch he) (fun _ => rfl) (fun _ => rfl) trivial h.keeps h.clear (fun _ => rfl) h.pending
  | discard w item rest error hw => exact h.discard error hw rfl rfl (h.phase hw)
  | skip w item rest hw hdone =>
    -- the item at the head of a batch is not done
    have honce := h.once item.key
    have hle : 1 ≤ s.overWorkers fun worker => worker.phase.waiting.count item.key := by
      have hk := (moved_set hw { phase := .exited } item.key).waiting
      have hone : (Item.keys (item :: rest)).count item.key = 1 + (Item.keys rest).count item.key := by
        rw [Item.keys, List.map_cons, List.count_cons_self, Nat.add_comm]
        rfl
      have hnil : ([] : List PendingKey).count item.key = 0 := rfl
      simp only [overWorkers, Phase.waiting] at hk ⊢
      omega
    have hpos : 0 < s.done item.key := by
      obtain ⟨p, hp, he⟩ := List.mem_map.mp hdone
      apply List.count_pos_iff.mpr
      exact List.mem_map.mpr ⟨p, hp, congrArg Item.key he⟩
    simp only [waiting] at honce
    omega
  | begin w item state frame rest hw hstate =>
    have hmem := h.phase hw
    exact h.shift (.registering item state frame rest) hw (fun he => nomatch he) (fun _ => rfl) (fun _ => rfl) ⟨hmem, hstate⟩ h.keeps h.clear (fun _ => rfl) h.pending
  | register w item state frame rest hw => exact h.register hw
  | «open» w item state frame rest stages now evictNow calls hw => exact h.open stages now evictNow calls hw
  | unregister w item rest hw => exact h.unregister hw
  | fail w item rest hw => exact h.discard .refused hw rfl rfl (h.phase hw)
  | silent w key call calls rest hw =>
    have hmem := h.phase hw
    exact h.shift (.running key calls rest) hw (fun he => nomatch he) (fun _ => rfl) (fun _ => rfl) hmem h.keeps h.clear
      (fun _ => rfl) h.pending
  | expect w key stages call calls rest hw =>
    exact h.tell calls hw (FrameCollector.expect_touches h.keeps key stages)
  | deliver w key stage call calls rest hw =>
    exact h.tell calls hw (FrameCollector.deliver_touches h.keeps key stage)
  | «seal» w key rest now hw => exact h.seal now hw
  | pop thread r results hhand => exact h.pop hhand
  | emit thread r future results delivery hhand => exact h.emit delivery hhand
  | settle thread future verdict results hhand => exact h.settle hhand
  | sweep now hidle hin => exact h.sweep now hidle hin
  | sweeperExits hidle =>
    refine { h with swept := fun _ => hidle, stops := h.stops.keep rfl rfl (fun _ => id) (fun _ => id) (fun _ => le_refl _) fun hjoined => ?_ }
    exact ⟨⟨hjoined.1, rfl⟩, id⟩
  | stop hphase =>
    have hidle := h.idle (by rw [hphase]; exact fun he => nomatch he)
    exact h.turn h.inTime (by rw [hphase]; rfl) rfl hidle trivial
  | closeQueue hphase => exact h.closeQueue hphase
  | failLost item todo lost hphase => exact h.failLost hphase
  | lostFailed lost hphase =>
    have hidle := h.idle (by rw [hphase]; exact fun he => nomatch he)
    have hstops := h.stops
    unfold Stops at hstops
    rw [hphase] at hstops
    refine h.turn h.inTime (by rw [hphase]; rfl) rfl hidle ⟨hstops.1, hstops.2.1, fun item hi => ?_⟩
    exact (hstops.2.2.2 item hi).resolve_left List.not_mem_nil
  | forgetLost item todo hphase => exact h.forgetLost hphase
  | lostForgotten hphase =>
    have hidle := h.idle (by rw [hphase]; exact fun he => nomatch he)
    have hstops := h.stops
    unfold Stops at hstops
    rw [hphase] at hstops
    exact h.turn h.inTime (by rw [hphase]; rfl) rfl hidle ⟨hstops.1, hstops.2.1⟩
  | join inTime hphase hexited hsweeper =>
    have hidle := h.idle (by rw [hphase]; exact fun he => nomatch he)
    have hstops := h.stops
    unfold Stops at hstops
    rw [hphase] at hstops
    have hin : inTime = true := (Bool.and_eq_true _ _ ▸ hinTime).2
    exact h.turn hinTime (by rw [hphase]; rfl) rfl hidle ⟨hstops.1, hstops.2, hexited, hsweeper hin⟩
  | drain now hphase => exact h.drain now hphase
  | snapshot hphase hidle =>
    have hstops := h.stops
    unfold Stops at hstops
    rw [hphase] at hstops
    obtain ⟨hclosed, hqueue, hjoined, hpending⟩ := hstops
    exact h.turn h.inTime (by rw [hphase]; rfl) rfl hidle
      ⟨hclosed, hqueue, hjoined, hpending, h.awaiting_nil hjoined hpending hidle⟩
  | cancel key item todo hphase =>
    have hstops := h.stops
    unfold Stops at hstops
    rw [hphase] at hstops
    exact nomatch hstops.2.2.2.2
  | «return» hphase =>
    have hidle := h.idle (by rw [hphase]; exact fun he => nomatch he)
    have hstops := h.stops
    unfold Stops at hstops
    rw [hphase] at hstops
    exact h.turn h.inTime (by rw [hphase]; rfl) rfl hidle ⟨hstops.1, hstops.2.1, hstops.2.2.1, hstops.2.2.2.1⟩

/-! ## Runs -/

theorem Step.grows (h : Step cfg s s') : s.put <+: s'.put ∧ (s'.sweeperInTime = true → s.sweeperInTime = true) := by
  cases h with
  | put request hopen => exact ⟨List.prefix_append _ _, id⟩
  | pop thread r results hhand => cases thread <;> exact ⟨List.prefix_rfl, id⟩
  | emit thread r future results delivery hhand => cases thread <;> exact ⟨List.prefix_rfl, id⟩
  | settle thread future verdict results hhand => cases thread <;> exact ⟨List.prefix_rfl, id⟩
  | join inTime hphase hexited hsweeper => exact ⟨List.prefix_rfl, fun hin => (Bool.and_eq_true _ _ ▸ hin).1⟩
  | _ => exact ⟨List.prefix_rfl, id⟩

theorem inv_start (cfg : RunnerConfig) (workers : Nat) : Inv cfg (start workers) := by
  have hzero : ∀ f : Worker → Nat, f {} = 0 → (start workers).overWorkers f = 0 := by
    intro f hf
    simp [overWorkers, start, hf]
  have hparked : ∀ key, (start workers).parked key = 0 := by
    intro key
    unfold parked
    rw [hzero _ rfl, hzero _ rfl]
    rfl
  have hsettling : ∀ key, (start workers).settling key = 0 := by
    intro key
    unfold settling
    rw [hzero _ rfl]
    rfl
  exact {
    tags := List.nodup_nil
    inTime := rfl
    ledger := fun key => by
      rw [hparked, hsettling, waiting, popped, hzero _ rfl, hzero _ rfl]
      rfl
    awaiting := fun key => by
      rw [hparked]
      exact ⟨fun hpos => absurd hpos (lt_irrefl 0), fun hsome => nomatch hsome.choose_spec⟩
    awaited := fun _ _ hsome => nomatch hsome
    handed := fun key => Nat.zero_le _
    keeps := ⟨Nat.zero_le _, fun _ hp => (List.not_mem_nil hp).elim,
      FrameCollector.indexed_empty.congr fun _ => ⟨False.elim, fun h => List.not_mem_nil h⟩⟩
    clear := rfl
    pending := fun _ hp => (List.not_mem_nil hp).elim
    queued := fun _ hi => (List.not_mem_nil hi).elim
    taken := fun _ hi => (List.not_mem_nil hi).elim
    settled := fun _ hp => (List.not_mem_nil hp).elim
    phases := fun worker hw => by
      rw [List.eq_of_mem_replicate hw]
      exact fun _ hi => (List.not_mem_nil hi).elim
    hands := fun worker hw => by
      rw [List.eq_of_mem_replicate hw]
      exact sound_empty _
    sweeper := sound_empty _
    stopper := sound_empty _
    swept := fun _ => rfl
    idle := fun _ => rfl
    stops := trivial }

theorem inv_of_reachable {workers : Nat} (h : (machine cfg workers).Reachable s) :
    (Item.keys s.put).Nodup → s.sweeperInTime = true → Inv cfg s := by
  refine h.invariant (I := fun s => (Item.keys s.put).Nodup → s.sweeperInTime = true → Inv cfg s) (fun s hs => ?_)
    fun s act t ih hstep => ?_
  · rw [show s = start workers from hs]
    exact fun _ _ => inv_start cfg workers
  · intro htags htime
    have hs := step_spec hstep
    obtain ⟨hput, htime'⟩ := hs.grows
    have hbefore : (Item.keys s.put).Nodup := htags.sublist (hput.sublist.map _)
    exact (ih hbefore (htime' htime)).step hs htags htime

/-- Nothing is left anywhere once `stop` has returned. -/
theorem Inv.all_done (h : Inv cfg s) (hreturned : s.stopPhase = .returned) {item : Item} (hmem : item ∈ s.put) :
    0 < s.done item.key := by
  have hstops := h.stops
  unfold Stops at hstops
  rw [hreturned] at hstops
  obtain ⟨hclosed, hqueue, hjoined, hpending⟩ := hstops
  have hstopper : s.stopper = {} := h.idle (by rw [hreturned]; exact fun he => nomatch he)
  have hsum : ∀ f : Worker → Nat, f { phase := .exited } = 0 → s.overWorkers f = 0 := by
    intro f hf
    have hmap : s.workers.map f = s.workers.map fun _ => 0 :=
      List.map_congr_left fun worker hworker => by rw [hjoined.1 worker hworker, hf]
    rw [overWorkers, hmap]
    simp
  have hkeys : s.collector.pending.keys = [] := List.map_eq_nil_iff.mpr hpending
  have hone : 0 < (Item.keys s.put).count item.key := List.count_pos_iff.mpr (List.mem_map_of_mem hmem)
  have hl := h.ledger item.key
  rw [waiting, parked, popped, settling, hsum _ rfl, hsum _ rfl, hsum _ rfl, hsum _ rfl, hsum _ rfl, hqueue, hreturned,
    h.swept hjoined.2, hstopper, hkeys] at hl
  have hrest : (Item.keys []).count item.key = 0 := rfl
  simp only [StopPhase.waiting, Hand.parked, Hand.popped, Hand.settling, List.map_nil, List.count_nil, Item.keys] at hl hone
  omega

/-- The futures of an item settled are those of its tag. -/
theorem Inv.settled_count (h : Inv cfg s) {item : Item} (hmem : item ∈ s.put) :
    (s.settled.map Prod.fst).count item = s.done item.key := by
  have hinj : ∀ p ∈ s.settled, p.1.key = item.key ↔ p.1 = item := fun p hp =>
    ⟨fun he => h.unique (h.settled p hp).1 hmem he, fun he => congrArg Item.key he⟩
  unfold done List.count
  rw [List.countP_map, List.countP_map]
  apply List.countP_congr
  intro p hp
  simp only [Function.comp_apply, beq_iff_eq]
  exact (hinj p hp).symm

/-- A future is settled at most once, and once when `stop` has returned with all threads joined in time;
by the event of its own frame, if by one; and no frame's event is handed out twice. -/
theorem answered_once (cfg : RunnerConfig) (workers : Nat) (s : PipelineRunner) (h : (machine cfg workers).Reachable s)
    (htags : (Item.keys s.put).Nodup) (hjoined : s.sweeperInTime = true) :
    (∀ item ∈ s.taken, (s.settled.map Prod.fst).count item ≤ 1) ∧
      (s.stopPhase = .returned → ∀ item ∈ s.taken, (s.settled.map Prod.fst).count item = 1) ∧
      (∀ item r, (item, .event r) ∈ s.settled → r.state.context = item.request.context) ∧
      (s.handed.map fun r => r.state.key).Nodup := by
  have hi := inv_of_reachable h htags hjoined
  have hle : ∀ item ∈ s.taken, (s.settled.map Prod.fst).count item ≤ 1 := by
    intro item hitem
    have honce := hi.once item.key
    rw [hi.settled_count (hi.taken item hitem)]
    omega
  refine ⟨hle, fun hreturned item hitem => ?_, fun item r hmem => (hi.settled _ hmem).2 r rfl, ?_⟩
  · have hpos := hi.all_done hreturned (hi.taken item hitem)
    rw [← hi.settled_count (hi.taken item hitem)] at hpos
    exact le_antisymm (hle item hitem) hpos
  · apply List.nodup_iff_count_le_one.mpr
    intro key
    have hh := hi.handed key
    have honce := hi.once key
    omega

/-! ### A frame from its queue to its event -/

/-- One detector, over frames of one pixel. -/
def oneStage : RunnerConfig where
  reassembly := ⟨2, 1000, Reassembly.greediestCameraEviction⟩
  graph := { stages := [{ name := "detect", consumes := ["image"] }], fieldMap := [], nonempty := by decide, names_nodup := by decide }
  inputName := "frame"
  budgetNs := 0

def onePixel : InferenceRequest where
  modelName := "detect"
  inputs := Dict.empty.set "frame" { dtype := .uint8, shape := [1, 1, 1, 3], data := [0, 0, 0], sized := by decide }
  requestId := 1
  context := { cameraId := "quay", frameId := 7 }

def runsThrough : Stage → Outcome := fun _ => {}

def fromQueue : List Act :=
  [.put onePixel, .getBatch 0 [{ number := 0, request := onePixel }], .runFrame 0 0, .register 0, .open 0 0 0 runsThrough,
    .observe 0, .observe 0]

def shutdown (inTime : Bool) : List Act :=
  ([.stop, .closeQueue, .failLost, .forgetLost, .exit 0] : List Act) ++ (if inTime then [Act.sweeperExits] else []) ++
    ([.join inTime, .drain 0, .snapshot, .return] : List Act)

def sealed : List Act :=
  fromQueue ++ ([.seal 0 1, .pop (.worker 0), .emit (.worker 0) .published, .settle (.worker 0)] : List Act) ++
    shutdown true

/-- The sweeper takes the frame out past its timeout, and its future, and is not joined in time. -/
def sweptLate : List Act :=
  fromQueue ++ ([.sweep 2000000000, .pop .sweeper, .seal 0 2000000000] : List Act) ++ shutdown false

theorem reachable_script (script : List Act) (hscript : (script.foldlM (step oneStage) (start 1)).isSome = true) :
    (machine oneStage 1).Reachable ((script.foldlM (step oneStage) (start 1)).get hscript) :=
  Machine.reachable_foldlM (M := machine oneStage 1) (fun _ _ _ h => h) script (.init rfl) (Option.some_get _).symm

theorem sealed_runs : (sealed.foldlM (step oneStage) (start 1)).isSome = true := by decide +kernel

theorem sealed_returned : ((sealed.foldlM (step oneStage) (start 1)).get sealed_runs).stopPhase = .returned := by
  decide +kernel

theorem sweptLate_runs : (sweptLate.foldlM (step oneStage) (start 1)).isSome = true := by decide +kernel

theorem sealed_answered : ∃ s, (machine oneStage 1).Reachable s ∧ s.stopPhase = .returned ∧ s.taken ≠ [] ∧
    ∀ item ∈ s.taken, (s.settled.map Prod.fst).count item = 1 :=
  ⟨_, reachable_script sealed sealed_runs, sealed_returned, by decide +kernel,
    (answered_once oneStage 1 _ (reachable_script sealed sealed_runs) (by decide +kernel) (by decide +kernel)).2.1
      sealed_returned⟩

/-- With every worker joined in time but the sweeper not, `stop` returns before the future is settled. -/
theorem swept_unanswered : ∃ s, (machine oneStage 1).Reachable s ∧ (Item.keys s.put).Nodup ∧ s.stopPhase = .returned ∧
    ∃ item ∈ s.taken, (s.settled.map Prod.fst).count item = 0 :=
  ⟨_, reachable_script sweptLate sweptLate_runs, by decide +kernel, by decide +kernel, by decide +kernel⟩

end PipelineRunner

end ShipInfer.Perception
