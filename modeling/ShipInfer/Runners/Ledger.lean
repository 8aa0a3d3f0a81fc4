import ShipInfer.Runners.Inprocess

/-!
# Every accepted item is answered and counted once

An item the runner accepted is owed by the queue, by a worker or by `stop`, or
it is counted; a counted one has a resolved future, or its thread is just about
to resolve it. When no increment was lost, the totals say the same of numbers.
-/

namespace ShipInfer.Runners

open Queue (FairPriorityQueue)
open Queue.FairPriorityQueue (ToProducer ToConsumer delivered_of_producer accepted_of_consumer toProducer_put
  toProducer_putWakes toConsumer_getBatch toConsumer_getBatchWakes)

/-! ## One element of a list replaced -/

theorem flatMap_set_perm {α β : Type*} {f : α → List β} {a : α} (b : α) : ∀ {l : List α} {i : Nat}, l[i]? = some a →
    ((l.set i b).flatMap f ++ f a).Perm (l.flatMap f ++ f b)
  | [], _, h => by simp at h
  | c :: l, 0, h => by
    obtain rfl : c = a := by simpa using h
    simp only [List.set_cons_zero, List.flatMap_cons]
    rw [List.append_assoc, List.append_assoc]
    refine List.perm_append_comm.trans ?_
    rw [List.append_assoc]
    refine (List.perm_append_comm.append_left _).trans ?_
    rw [← List.append_assoc]
    exact List.perm_append_comm
  | c :: l, i + 1, h => by
    simp only [List.set_cons_succ, List.flatMap_cons, List.append_assoc]
    exact (flatMap_set_perm b (by simpa using h)).append_left _

/-! ## Who owes an answer -/

variable {π ρ ν : Type}

def Phase.owed (slot : List WorkItem) : Phase π ρ ν → List WorkItem
  | .looping | .polling | .asleep | .checking | .exited => slot
  | .holding items => items
  | .walking work rest | .counting work rest .. => work :: rest
  | .serving rest | .resolving _ rest _ | .narrowing _ rest => rest

/-- The items of a worker that are not counted yet. -/
def Worker.owed (worker : Worker π ρ ν) : List WorkItem := worker.phase.owed worker.slot

/-- The slot a phase goes with; only the stop signal leaves a rest behind. -/
def Phase.Slotted (stopping : Bool) (slot : List WorkItem) : Phase π ρ ν → Prop
  | .looping | .exited => slot = [] ∨ stopping = true
  | .polling | .asleep | .checking | .holding _ => slot = []
  | .serving rest => slot = rest
  | .walking work rest | .counting work rest .. | .resolving work rest _ | .narrowing work rest => slot = work :: rest

def Worker.Slotted (stopping : Bool) (worker : Worker π ρ ν) : Prop := worker.phase.Slotted stopping worker.slot

namespace Stopping

/-- The items `stop` took over that are not counted yet. -/
def owed : Stopping → List WorkItem
  | .charging left | .stranded left _ | .failing _ left _ => left
  | .chargingOne item left _ | .strandedOne item left _ _ => item :: left
  | .no | .signalled | .joining | .sweeping _ | .stopped => []

/-- The workers were joined, or abandoned. -/
def joined : Stopping → Bool
  | .sweeping _ | .stranded .. | .strandedOne .. | .failing .. | .stopped => true
  | .no | .signalled | .charging _ | .chargingOne .. | .joining => false

/-- The slot was emptied. -/
def Swept (i : Nat) : Stopping → Prop
  | .sweeping k | .stranded _ k | .strandedOne _ _ _ k | .failing _ _ k => i < k
  | .stopped => True
  | .no | .signalled | .charging _ | .chargingOne .. | .joining => False

theorem isSet_of_joined {s : Stopping} (h : s.joined = true) : s.isSet = true := by
  cases s with
  | no => cases h
  | _ => rfl

end Stopping

namespace InprocessRunner

variable {cfg : RunnerConfig} {s s' : InprocessRunner π ρ ν} {w : Nat} {worker worker' : Worker π ρ ν}

/-- The items inside that are not counted yet. -/
def owed (s : InprocessRunner π ρ ν) : List WorkItem :=
  s.queue.items ++ (s.workers.flatMap Worker.owed ++ s.stopping.owed)

structure Inv (cfg : RunnerConfig) (s : InprocessRunner π ρ ν) : Prop where
  queue : s.queue.Inv cfg.queue
  slotted : ∀ worker ∈ s.workers, worker.Slotted s.stopping.isSet
  joined : s.stopping.joined = true → ∀ worker ∈ s.workers, worker.phase.hasExited = true
  swept : ∀ i worker, s.workers[i]? = some worker → s.stopping.Swept i → worker.slot = []

/-- One step keeps the ledger of items. -/
def Settles (s : InprocessRunner π ρ ν) (r : InprocessRunner π ρ ν × Output) : Prop :=
  (s.owed ++ r.2.accepted).Perm (r.2.counted.map Prod.fst ++ r.1.owed)

theorem settles_quiet (hq : s'.queue = s.queue) (hw : s'.workers = s.workers) (hs : s'.stopping.owed = s.stopping.owed) :
    Settles s (s', {}) := by
  rw [Settles, owed, owed, hq, hw, hs, List.append_nil]
  exact .refl _

theorem Inv.quiet (h : s.Inv cfg) : s.Inv cfg ∧ Settles s (s, {}) := ⟨h, settles_quiet rfl rfl rfl⟩

/-- Where nothing moves that the ledger knows. -/
theorem Inv.same (h : s.Inv cfg) (hq : s'.queue = s.queue) (hw : s'.workers = s.workers) (hs : s'.stopping = s.stopping) :
    s'.Inv cfg ∧ Settles s (s', {}) := by
  refine ⟨⟨hq ▸ h.queue, ?_, ?_, ?_⟩, settles_quiet hq hw (by rw [hs])⟩
  · rw [hw, hs]
    exact h.slotted
  · rw [hw, hs]
    exact h.joined
  · rw [hw, hs]
    exact h.swept

/-! ## A worker moves -/

/-- A worker that runs may change, as long as its slot goes with its phase. -/
theorem Inv.replace (h : s.Inv cfg) (hget : s.workers[w]? = some worker) (hrun : worker.phase.hasExited = false)
    (hq : s'.queue.Inv cfg.queue) (hs : s'.stopping = s.stopping) (hw : s'.workers = s.workers.set w worker')
    (hok : worker'.Slotted s.stopping.isSet) : s'.Inv cfg := by
  have hopen : s.stopping.joined = false := by
    by_contra hj
    rw [Bool.not_eq_false] at hj
    simp [h.joined hj worker (List.mem_of_getElem? hget)] at hrun
  refine ⟨hq, fun x hx => ?_, fun hj => ?_, fun i x hi hswept => ?_⟩
  · rw [hw] at hx
    rw [hs]
    rcases List.mem_or_eq_of_mem_set hx with hx | rfl
    · exact h.slotted x hx
    · exact hok
  · rw [hs, hopen] at hj
    cases hj
  · rw [hs] at hswept
    have hno : ¬s.stopping.Swept i := by
      revert hopen
      cases s.stopping <;> simp [Stopping.Swept, Stopping.joined]
    exact absurd hswept hno

/-- What it owed it counts, or goes on owing. -/
theorem settles_worker (counted : List (WorkItem × ItemOutcome)) (hget : s.workers[w]? = some worker)
    (hq : s'.queue = s.queue) (hs : s'.stopping = s.stopping) (hw : s'.workers = s.workers.set w worker')
    (howed : worker.owed = counted.map Prod.fst ++ worker'.owed) : Settles s (s', { counted := counted }) := by
  have hset := flatMap_set_perm (f := Worker.owed) worker' hget
  refine List.perm_iff_count.mpr fun x => ?_
  have hcount := hset.count_eq x
  rw [howed] at hcount
  simp only [owed, hq, hs, hw, List.count_append, List.count_nil] at hcount ⊢
  omega

/-- It counts nothing, and owes what it owed. -/
theorem Inv.move (h : s.Inv cfg) (hget : s.workers[w]? = some worker) (hrun : worker.phase.hasExited = false)
    (hq : s'.queue = s.queue) (hs : s'.stopping = s.stopping) (hw : s'.workers = s.workers.set w worker')
    (hok : worker'.Slotted s.stopping.isSet) (howed : worker.owed = worker'.owed) :
    s'.Inv cfg ∧ Settles s (s', {}) :=
  ⟨h.replace hget hrun (hq ▸ h.queue) hs hw hok, settles_worker [] hget hq hs hw howed⟩

/-! ## A piece of the queue -/

theorem counted_ofQueue (s : InprocessRunner π ρ ν) (a : Queue.Answer) :
    (s.ofQueue a).2.counted.map Prod.fst = a.2.evicted ++ a.2.expired := by
  simp [ofQueue, Function.comp_def]

/-- What a piece delivers or drains somebody else owes from then on. -/
theorem settles_queue (h : s.queue.Inv cfg.queue) (e : Queue.Event) (hq : s'.queue = (s.queue.step cfg.queue e).1)
    (hrest : (s'.workers.flatMap Worker.owed ++ s'.stopping.owed).Perm
      (s.workers.flatMap Worker.owed ++ s.stopping.owed ++
        ((s.queue.step cfg.queue e).2.delivered ++ (s.queue.step cfg.queue e).2.drained))) :
    Settles s (s', (s.ofQueue (s.queue.step cfg.queue e)).2) := by
  have hitems := (h.step e).items
  refine List.perm_iff_count.mpr fun x => ?_
  have hin := hrest.count_eq x
  have hout := hitems.count_eq x
  rw [counted_ofQueue]
  simp only [owed, hq, Queue.Output.left, List.count_append] at hin hout ⊢
  show _ + _ + List.count x (s.queue.step cfg.queue e).2.accepted = _
  omega

/-- A piece by another thread than the workers and `stop`. -/
theorem Inv.offer (h : s.Inv cfg) (e : Queue.Event) (hreply : ToProducer (s.queue.step cfg.queue e).2.reply)
    (hq : s'.queue = (s.queue.step cfg.queue e).1)
    (hw : s'.workers = s.workers) (hs : s'.stopping = s.stopping) :
    s'.Inv cfg ∧ Settles s (s', (s.ofQueue (s.queue.step cfg.queue e)).2) := by
  obtain ⟨hdel, hdrain⟩ := delivered_of_producer hreply
  refine ⟨⟨hq ▸ (h.queue.step e).inv, ?_, ?_, ?_⟩, settles_queue h.queue e hq ?_⟩
  · rw [hw, hs]
    exact h.slotted
  · rw [hw, hs]
    exact h.joined
  · rw [hw, hs]
    exact h.swept
  · rw [hw, hs, hdel, hdrain, List.append_nil, List.append_nil]

theorem owed_afterPoll {phase : Phase π ρ ν} (hphase : phase.owed [] = []) (o : Queue.Output) :
    (afterPoll phase o.reply).owed [] = o.delivered := by
  obtain ⟨reply, failed⟩ := o
  cases reply with
  | batch items => cases items <;> rfl
  | asleep => rfl
  | raised error => rfl
  | accepted item => exact hphase
  | refused item error => exact hphase
  | drained items => exact hphase
  | idle => exact hphase

theorem slotted_afterPoll {phase : Phase π ρ ν} {b : Bool} (hphase : phase.Slotted b []) (reply : Queue.Reply) :
    (afterPoll phase reply).Slotted b [] := by
  cases reply with
  | batch items => cases items <;> rfl
  | asleep => rfl
  | raised error => exact .inl rfl
  | accepted item => exact hphase
  | refused item error => exact hphase
  | drained items => exact hphase
  | idle => exact hphase

/-- A worker takes a batch, with nothing in its slot. -/
theorem Inv.polled (h : s.Inv cfg) (hget : s.workers[w]? = some worker) (hslot : worker.slot = [])
    (hphase : worker.phase = .polling ∨ worker.phase = .asleep) (e : Queue.Event)
    (hreply : ToConsumer (s.queue.step cfg.queue e).2.reply) : (s.polled w worker (s.queue.step cfg.queue e)).1.Inv cfg ∧
      Settles s (s.polled w worker (s.queue.step cfg.queue e)) := by
  obtain ⟨phase, slot⟩ := worker
  obtain rfl : slot = [] := hslot
  have hrun : phase.hasExited = false := by rcases hphase with hp | hp <;> (rw [show phase = _ from hp]; rfl)
  have howed : phase.owed [] = [] := by rcases hphase with hp | hp <;> (rw [show phase = _ from hp]; rfl)
  have hok : phase.Slotted s.stopping.isSet [] := by
    rcases hphase with hp | hp <;> (rw [show phase = _ from hp]; rfl)
  refine ⟨h.replace hget hrun (h.queue.step e).inv rfl rfl (slotted_afterPoll hok _), settles_queue h.queue e rfl ?_⟩
  have hset := flatMap_set_perm (f := Worker.owed)
    { phase := afterPoll phase (s.queue.step cfg.queue e).2.reply, slot := [] } hget
  have hnew : Worker.owed { phase := afterPoll phase (s.queue.step cfg.queue e).2.reply, slot := [] } =
      (s.queue.step cfg.queue e).2.delivered := owed_afterPoll howed _
  have hold : Worker.owed { phase := phase, slot := [] } = [] := howed
  rw [hnew, hold, List.append_nil] at hset
  rw [(accepted_of_consumer hreply).2, List.append_nil]
  refine (hset.append_right _).trans ?_
  rw [List.append_assoc, List.append_assoc]
  exact List.perm_append_comm.append_left _

/-! ## The worker loop -/

theorem Inv.go (h : s.Inv cfg) (hget : s.workers[w]? = some worker) :
    (s.go w worker).1.Inv cfg ∧ Settles s (s.go w worker) := by
  have hslot : worker.Slotted s.stopping.isSet := h.slotted _ (List.mem_of_getElem? hget)
  obtain ⟨phase, slot⟩ := worker
  cases phase with
  | looping =>
    by_cases hset : s.stopping.isSet = true
    · refine h.move hget rfl rfl rfl rfl ?_ ?_
      · rw [if_pos hset]
        exact .inr hset
      · rw [if_pos hset]
        rfl
    · have hempty : slot = [] := hslot.resolve_right hset
      refine h.move hget rfl rfl rfl rfl ?_ ?_
      · rw [if_neg hset]
        exact hempty
      · rw [if_neg hset]
        rfl
  | checking =>
    have hempty : slot = [] := hslot
    refine h.move hget rfl rfl rfl rfl ?_ ?_
    · cases s.queue.closed <;> exact .inl hempty
    · cases s.queue.closed <;> rfl
  | holding items => exact h.move hget rfl rfl rfl rfl rfl rfl
  | serving rest =>
    obtain rfl : slot = rest := hslot
    cases slot with
    | nil => exact h.move hget rfl rfl rfl rfl (.inl rfl) rfl
    | cons work rest =>
      by_cases hset : s.stopping.isSet = true
      · refine h.move hget rfl rfl rfl rfl ?_ ?_
        · rw [if_pos hset]
          exact .inr hset
        · rw [if_pos hset]
          rfl
      · refine h.move hget rfl rfl rfl rfl ?_ ?_
        · rw [if_neg hset]
          rfl
        · rw [if_neg hset]
          rfl
  | counting work rest ending inc resolution =>
    unfold InprocessRunner.go InprocessRunner.count
    dsimp only
    split
    · exact ⟨h.replace hget rfl h.queue rfl rfl hslot, settles_worker [(work, .counted ending)] hget rfl rfl rfl rfl⟩
    · exact h.move hget rfl rfl rfl rfl hslot rfl
  | resolving work rest resolution => exact h.move hget rfl rfl rfl rfl hslot rfl
  | narrowing work rest => exact h.move hget rfl rfl rfl rfl rfl rfl
  | polling => exact h.quiet
  | asleep => exact h.quiet
  | walking work rest => exact h.quiet
  | exited => exact h.quiet

theorem Inv.walked (h : s.Inv cfg) {slot : List WorkItem} {work : WorkItem} {rest : List WorkItem}
    (hget : s.workers[w]? = some { phase := .walking work rest, slot := slot }) (v : Ending × Resolution π ρ ν) :
    (s.walked w { phase := .walking work rest, slot := slot } work rest v).1.Inv cfg ∧
      Settles s (s.walked w { phase := .walking work rest, slot := slot } work rest v) := by
  have hslot : slot = work :: rest := h.slotted _ (List.mem_of_getElem? hget)
  exact h.move hget rfl rfl rfl rfl hslot rfl

/-! ## Stop -/

/-- A step of `stop` that leaves the workers and the queue. -/
theorem Inv.stopping (h : s.Inv cfg) (hq : s'.queue = s.queue) (hw : s'.workers = s.workers)
    (hset : s.stopping.isSet = true → s'.stopping.isSet = true)
    (hjoined : s'.stopping.joined = true → ∀ worker ∈ s.workers, worker.phase.hasExited = true)
    (hswept : ∀ i worker, s.workers[i]? = some worker → s'.stopping.Swept i → worker.slot = []) : s'.Inv cfg := by
  refine ⟨hq ▸ h.queue, fun worker hm => ?_, hw ▸ hjoined, hw ▸ hswept⟩
  rw [hw] at hm
  have hold := h.slotted worker hm
  revert hold
  unfold Worker.Slotted
  cases hp : worker.phase with
  | looping | exited => exact fun hold => hold.imp_right hset
  | _ => exact id

theorem not_swept {stopping : Stopping} (h : stopping.joined = false) (i : Nat) : ¬stopping.Swept i := by
  cases stopping with
  | no | signalled | charging left | chargingOne item left i | joining => exact id
  | _ => cases h

/-- Before the workers are joined. -/
theorem Inv.unjoined (h : s.Inv cfg) (hq : s'.queue = s.queue) (hw : s'.workers = s.workers)
    (hset : s'.stopping.isSet = true) (hj : s'.stopping.joined = false) : s'.Inv cfg :=
  h.stopping hq hw (fun _ => hset) (fun hjoined => absurd hjoined (by simp [hj]))
    fun i _ _ hswept => absurd hswept (not_swept hj i)

/-- Behind that, with no further slot emptied. -/
theorem Inv.rejoined (h : s.Inv cfg) (hq : s'.queue = s.queue) (hw : s'.workers = s.workers)
    (hset : s'.stopping.isSet = true) (hj : s.stopping.joined = true)
    (hswept : ∀ i, s'.stopping.Swept i → s.stopping.Swept i) : s'.Inv cfg :=
  h.stopping hq hw (fun _ => hset) (fun _ => h.joined hj) fun i worker hget hs => h.swept i worker hget (hswept i hs)

/-- What `stop` owed it counts, or goes on owing. -/
theorem settles_stop (counted : List (WorkItem × ItemOutcome)) (hq : s'.queue = s.queue) (hw : s'.workers = s.workers)
    (howed : s.stopping.owed = counted.map Prod.fst ++ s'.stopping.owed) : Settles s (s', { counted := counted }) := by
  refine List.perm_iff_count.mpr fun x => ?_
  simp only [owed, hq, hw, howed, List.count_append, List.count_nil]
  omega

theorem Inv.stopCloses (h : s.Inv cfg) (hs : s.stopping = .signalled) :
    ({ (s.ofQueue (s.queue.close cfg.queue none)).1 with
        stopping := .charging (s.queue.close cfg.queue none).2.drained } : InprocessRunner π ρ ν).Inv cfg ∧
      Settles s ({ (s.ofQueue (s.queue.close cfg.queue none)).1 with
        stopping := .charging (s.queue.close cfg.queue none).2.drained },
        (s.ofQueue (s.queue.close cfg.queue none)).2) := by
  refine ⟨⟨(h.queue.step (.close none)).inv, ?_, fun hj => ?_, fun _ _ _ hswept => hswept.elim⟩, ?_⟩
  · have hold := h.slotted
    rw [hs] at hold
    exact hold
  · cases hj
  · refine settles_queue h.queue (.close none) rfl ?_
    rw [hs]
    simp only [Stopping.owed, List.append_nil]
    exact .refl _

theorem Inv.stopSweeps (h : s.Inv cfg) {k : Nat} (hs : s.stopping = .sweeping k) (hget : s.workers[k]? = some worker) :
    ({ s.setWorker k { worker with slot := [] } with
        stopping := .stranded worker.slot (k + 1) } : InprocessRunner π ρ ν).Inv cfg ∧
      Settles s ({ s.setWorker k { worker with slot := [] } with stopping := .stranded worker.slot (k + 1) }, {}) := by
  have hexited := h.joined (by rw [hs]; rfl)
  have hphase : worker.phase = .exited := by
    have hw := hexited worker (List.mem_of_getElem? hget)
    cases hp : worker.phase with
    | exited => rfl
    | _ => rw [hp] at hw; cases hw
  refine ⟨⟨h.queue, fun x hx => ?_, fun _ x hx => ?_, fun i x hi hswept => ?_⟩, ?_⟩
  · rcases List.mem_or_eq_of_mem_set hx with hx | rfl
    · have hold := h.slotted x hx
      rw [hs] at hold
      exact hold
    · unfold Worker.Slotted
      rw [hphase]
      exact .inl rfl
  · rcases List.mem_or_eq_of_mem_set hx with hx | rfl
    · exact hexited x hx
    · rw [hphase]
      rfl
  · by_cases hik : i = k
    · subst hik
      have hlen : i < s.workers.length := (List.getElem?_eq_some_iff.mp hget).1
      simp only [setWorker, List.getElem?_set_self hlen, Option.some.injEq] at hi
      rw [← hi]
    · simp only [setWorker, List.getElem?_set_ne (Ne.symm hik)] at hi
      refine h.swept i x hi ?_
      rw [hs]
      have hlt : i < k + 1 := hswept
      show i < k
      omega
  · have hset := flatMap_set_perm (f := Worker.owed) { worker with slot := [] } hget
    have hold : worker.owed = worker.slot := by rw [Worker.owed, hphase]; rfl
    have hnew : Worker.owed { worker with slot := [] } = [] := by rw [Worker.owed, hphase]; rfl
    rw [hold, hnew] at hset
    refine List.perm_iff_count.mpr fun x => ?_
    have hcount := hset.count_eq x
    simp only [owed, hs, setWorker, Stopping.owed, List.map_nil, List.count_append, List.count_nil] at hcount ⊢
    omega

theorem Inv.stop (h : s.Inv cfg) : (s.stop cfg).1.Inv cfg ∧ Settles s (s.stop cfg) := by
  unfold InprocessRunner.stop
  split
  · rename_i hs
    exact ⟨h.unjoined rfl rfl rfl rfl, settles_quiet rfl rfl (by rw [hs]; rfl)⟩
  · exact h.stopCloses ‹_›
  · rename_i hs
    exact ⟨h.unjoined rfl rfl rfl rfl, settles_quiet rfl rfl (by rw [hs]; rfl)⟩
  · rename_i hs
    exact ⟨h.unjoined rfl rfl rfl rfl, settles_quiet rfl rfl (by rw [hs]; rfl)⟩
  · rename_i item left i hs
    dsimp only
    split
    · exact ⟨h.unjoined rfl rfl rfl rfl, settles_stop [(item, .counted .queueClosed)] rfl rfl (by rw [hs]; rfl)⟩
    · exact ⟨h.unjoined rfl rfl rfl rfl, settles_quiet rfl rfl (by rw [hs]; rfl)⟩
  · rename_i hs
    split
    · rename_i hall
      refine ⟨h.stopping rfl rfl (fun _ => rfl) (fun _ => List.all_eq_true.mp hall) ?_, settles_quiet rfl rfl (by rw [hs]; rfl)⟩
      exact fun i _ _ hswept => absurd hswept (Nat.not_lt_zero i)
    · exact h.quiet
  · rename_i k hs
    split
    · rename_i hget
      refine ⟨h.stopping rfl rfl (fun _ => rfl) (fun _ => h.joined (by rw [hs]; rfl)) ?_,
        settles_quiet rfl rfl (by rw [hs]; rfl)⟩
      intro i worker hi _
      refine h.swept i worker hi ?_
      rw [hs]
      exact (List.getElem?_eq_some_iff.mp hi).1.trans_le (List.getElem?_eq_none_iff.mp hget)
    · exact h.stopSweeps hs ‹_›
  · rename_i k hs
    exact ⟨h.rejoined rfl rfl rfl (by rw [hs]; rfl) (by rw [hs]; exact fun _ => id), settles_quiet rfl rfl (by rw [hs]; rfl)⟩
  · rename_i item left k hs
    exact ⟨h.rejoined rfl rfl rfl (by rw [hs]; rfl) (by rw [hs]; exact fun _ => id), settles_quiet rfl rfl (by rw [hs]; rfl)⟩
  · rename_i item left i k hs
    dsimp only
    split
    · refine ⟨h.rejoined rfl rfl rfl (by rw [hs]; rfl) (by rw [hs]; exact fun _ => id), ?_⟩
      exact settles_stop [(item, .counted (countFailure .requestCancelled))] rfl rfl (by rw [hs]; rfl)
    · exact ⟨h.rejoined rfl rfl rfl (by rw [hs]; rfl) (by rw [hs]; exact fun _ => id),
        settles_quiet rfl rfl (by rw [hs]; rfl)⟩
  · rename_i item left k hs
    exact ⟨h.rejoined rfl rfl rfl (by rw [hs]; rfl) (by rw [hs]; exact fun _ => id), settles_quiet rfl rfl (by rw [hs]; rfl)⟩
  · exact h.quiet

/-! ## Every step, and a whole run -/

theorem Inv.submitCounts (h : s.Inv cfg) (i : Nat) : (s.submitCounts i).1.Inv cfg ∧ Settles s (s.submitCounts i) := by
  unfold InprocessRunner.submitCounts
  split
  · exact h.quiet
  · dsimp only
    split
    · exact h.same rfl rfl rfl
    · exact h.same rfl rfl rfl

theorem inv_init (cfg : RunnerConfig) : (init cfg : InprocessRunner π ρ ν).Inv cfg where
  queue := Queue.FairPriorityQueue.inv_empty _
  slotted worker hm := by
    rw [List.eq_of_mem_replicate hm]
    exact .inl rfl
  joined := by rintro ⟨⟩
  swept _ _ _ hswept := hswept.elim

theorem owed_init (cfg : RunnerConfig) : (init cfg : InprocessRunner π ρ ν).owed = [] := by
  have hworkers : (List.replicate cfg.workers ({} : Worker π ρ ν)).flatMap Worker.owed = [] :=
    List.flatMap_eq_nil_iff.mpr fun worker hm => by rw [List.eq_of_mem_replicate hm]; rfl
  rw [owed, show (init cfg : InprocessRunner π ρ ν).workers.flatMap Worker.owed = [] from hworkers]
  rfl

variable [DecidableEq ρ]

/-- No worker is abandoned: the time to join them is over only when they are. -/
def patient (s : InprocessRunner π ρ ν) : Event π ρ ν → Bool
  | .abandon => s.workers.all (·.phase.hasExited)
  | _ => true

theorem Inv.act (h : s.Inv cfg) (hget : s.workers[w]? = some worker) (act : Act π ρ ν) :
    (s.act cfg w worker act).1.Inv cfg ∧ Settles s (s.act cfg w worker act) := by
  have hslot := h.slotted _ (List.mem_of_getElem? hget)
  unfold Worker.Slotted at hslot
  cases act with
  | go => exact h.go hget
  | getBatch clock =>
    unfold InprocessRunner.act
    dsimp only
    split
    · rename_i hp
      rw [hp] at hslot
      exact h.polled hget hslot (.inl hp) (.getBatch cfg.window clock) (toConsumer_getBatch _ _ _)
    · exact h.quiet
  | wake i clock =>
    unfold InprocessRunner.act
    dsimp only
    split
    · rename_i hp
      rw [hp] at hslot
      exact h.polled hget hslot (.inr hp) (.getBatchWakes i clock) (toConsumer_getBatchWakes _ _ _)
    · exact h.quiet
  | walk env =>
    obtain ⟨phase, slot⟩ := worker
    cases phase with
    | walking work rest => exact h.walked hget _
    | _ => exact h.quiet
  | raises cls message =>
    obtain ⟨phase, slot⟩ := worker
    cases phase with
    | walking work rest => exact h.walked hget _
    | _ => exact h.quiet

theorem Inv.step (h : s.Inv cfg) {e : Event π ρ ν} (he : s.patient e = true) :
    (s.step cfg e).1.Inv cfg ∧ Settles s (s.step cfg e) := by
  cases e with
  | submit item priority enqueuedNs clock =>
    exact h.offer (.put (chainWork cfg s.nextRequestId item priority enqueuedNs) clock) (toProducer_put _ _ _) rfl rfl rfl
  | submitWakes i clock => exact h.offer (.putWakes i clock) (toProducer_putWakes _ _ _) rfl rfl rfl
  | submitCounts i => exact h.submitCounts i
  | cancel requestId =>
    simp only [InprocessRunner.step]
    split
    · exact h.same rfl rfl rfl
    · exact h.quiet
  | work w act =>
    simp only [InprocessRunner.step]
    split
    · exact h.quiet
    · exact h.act ‹_› act
  | stop => exact h.stop
  | abandon =>
    simp only [InprocessRunner.step]
    split
    · rename_i hs
      refine ⟨h.stopping rfl rfl (fun _ => rfl) (fun _ => List.all_eq_true.mp he) ?_,
        settles_quiet rfl rfl (by rw [hs]; rfl)⟩
      exact fun i _ _ hswept => absurd hswept (Nat.not_lt_zero i)
    · exact h.quiet

/-- What came in is counted, or somebody owes it. -/
theorem accepted_counted {events : List (Event π ρ ν)}
    (h : Machine.Along (step cfg) (fun s e => s.patient e = true) (init cfg) events) :
    let r := run cfg events
    r.1.Inv cfg ∧ (r.2.flatMap Output.accepted).Perm ((r.2.flatMap Output.counted).map Prod.fst ++ r.1.owed) := by
  intro r
  have hledger : (Machine.exec (step cfg) (init cfg) events).1.Inv cfg ∧
      ((init cfg).owed ++ (run cfg events).2.flatMap Output.accepted).Perm
        ((run cfg events).2.flatMap (fun o => o.counted.map Prod.fst) ++ (run cfg events).1.owed) :=
    Machine.Along.ledger (fun _ _ hinv he => hinv.step he) events h (inv_init cfg)
  rw [owed_init, List.nil_append] at hledger
  rw [List.map_flatMap]
  exact hledger

end InprocessRunner

end ShipInfer.Runners
