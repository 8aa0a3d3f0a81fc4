import ShipInfer.Runners.Answering

/-!
# The totals of a runner

Where no increment is lost a total is the number of the items counted under it;
so when nothing is in progress the totals that `stats` reports add up.
-/

namespace ShipInfer.Runners

open Chain
open Queue.FairPriorityQueue (requestIds accepted_of_consumer toConsumer_getBatch toConsumer_getBatchWakes)

variable {π ρ ν : Type}

/-- A worker that is between no two accesses that belong together. -/
def Phase.resting : Phase π ρ ν → Bool
  | .looping | .polling | .asleep | .checking | .serving _ | .walking .. | .exited => true
  | .holding _ | .counting .. | .resolving .. | .narrowing .. => false

def Stopping.resting : Stopping → Bool
  | .no | .signalled | .joining | .sweeping _ | .stopped => true
  | .charging _ | .chargingOne .. | .stranded .. | .strandedOne .. | .failing .. => false

namespace InprocessRunner

variable {cfg : RunnerConfig} {s s' : InprocessRunner π ρ ν} {w : Nat} {worker : Worker π ρ ν}

/-! ## The totals, where no increment is lost -/

/-- The increment a step moves on, with its counter. -/
def increment (s : InprocessRunner π ρ ν) : Event π ρ ν → Option (Metric × String × Inc)
  | .submitCounts i => s.submitting[i]?.map fun sub => (.admission sub.admission, sub.camera, sub.inc)
  | .work w .go =>
    match (s.workers[w]?.map Worker.phase : Option (Phase π ρ ν)) with
    | some (.counting work _ ending inc _) => some (.ending ending, work.request.context.cameraId, inc)
    | _ => none
  | .stop =>
    match s.stopping with
    | .chargingOne item _ inc => some (.ending .queueClosed, item.request.context.cameraId, inc)
    | .strandedOne item _ inc _ => some (.ending (countFailure .requestCancelled), item.request.context.cameraId, inc)
    | _ => none
  | _ => none

/-- No increment is lost: between its read and its write no other of the same counter
for the same camera is written. -/
def lossless (s : InprocessRunner π ρ ν) (e : Event π ρ ν) : Bool :=
  match s.increment e with
  | none => true
  | some (metric, camera, inc) => decide ((s.metrics metric).Current camera inc)

/-- The items whose `submit` is behind its `put`, and has not counted them. -/
def pending (s : InprocessRunner π ρ ν) : Nat := (s.submitting.map Submission.admission).count .accepted

def outcomes (counted : List (WorkItem × ItemOutcome)) (outcome : ItemOutcome) : Nat :=
  counted.countP fun p => decide (p.2 = outcome)

/-- One step adds to the totals what it counts. -/
structure Tallies (s : InprocessRunner π ρ ν) (r : InprocessRunner π ρ ν × Output) : Prop where
  ending : ∀ e, r.1.total (.ending e) = s.total (.ending e) + outcomes r.2.counted (.counted e)
  accepted : r.1.total (.admission .accepted) + r.1.pending =
    s.total (.admission .accepted) + s.pending + r.2.accepted.length
  evicted : r.1.queue.evicted = s.queue.evicted + outcomes r.2.counted .queueEvicted
  expired : r.1.queue.expired = s.queue.expired + outcomes r.2.counted .queueExpired

theorem tallies_quiet (hm : s'.metrics = s.metrics) (hsub : s'.submitting = s.submitting) (hq : s'.queue = s.queue) :
    Tallies s (s', {}) := by
  refine ⟨fun e => ?_, ?_, ?_, ?_⟩
  · simp [total, hm, outcomes]
  · simp [total, pending, hm, hsub]
  · simp [hq, outcomes]
  · simp [hq, outcomes]

theorem total_inc {metric : Metric} {camera : String} {i : Inc} (h : (s.metrics metric).Current camera i) (m : Metric) :
    (s.inc metric camera i).1.total m = s.total m + if m = metric ∧ (s.inc metric camera i).2 = none then 1 else 0 := by
  by_cases hm : m = metric
  · subst hm
    have hinc := SharedCounter.total_inc h
    simpa [total, inc] using hinc
  · simp [total, inc, hm]

/-- A step that counts an item once its increment is done. -/
theorem tallies_count {ending : Ending} {camera : String} {i : Inc} (h : (s.metrics (.ending ending)).Current camera i)
    {counted : List (WorkItem × ItemOutcome)} (hm : s'.metrics = (s.inc (.ending ending) camera i).1.metrics)
    (hsub : s'.submitting = s.submitting) (hq : s'.queue = s.queue)
    (hcounted : (s.inc (.ending ending) camera i).2 = none ∧ (∃ item, counted = [(item, .counted ending)]) ∨
      (s.inc (.ending ending) camera i).2 ≠ none ∧ counted = []) : Tallies s (s', { counted := counted }) := by
  have htotal (m : Metric) : s'.total m = (s.inc (.ending ending) camera i).1.total m := by
    rw [total, hm, total]
  have hpending : s'.pending = s.pending := by rw [pending, hsub, pending]
  refine ⟨fun e => ?_, ?_, ?_, ?_⟩
  · rw [htotal, total_inc h]
    rcases hcounted with ⟨hdone, item, rfl⟩ | ⟨hmore, rfl⟩
    · by_cases he : e = ending
      · simp [hdone, he, outcomes]
      · simp [he, Ne.symm he, outcomes]
    · simp [hmore, outcomes]
  · rw [htotal, total_inc h, hpending]
    simp
  · rcases hcounted with ⟨-, item, rfl⟩ | ⟨-, rfl⟩ <;> simp [hq, outcomes]
  · rcases hcounted with ⟨-, item, rfl⟩ | ⟨-, rfl⟩ <;> simp [hq, outcomes]

theorem outcomes_ofQueue (s : InprocessRunner π ρ ν) (a : Queue.Answer) :
    (∀ e, outcomes (s.ofQueue a).2.counted (.counted e) = 0) ∧
      outcomes (s.ofQueue a).2.counted .queueEvicted = a.2.evicted.length ∧
      outcomes (s.ofQueue a).2.counted .queueExpired = a.2.expired.length := by
  refine ⟨fun e => ?_, ?_, ?_⟩
  · simp [outcomes, ofQueue, List.countP_eq_zero]
  · simp [outcomes, ofQueue, List.countP_map, Function.comp_def]
  · simp [outcomes, ofQueue, List.countP_map, Function.comp_def]

/-- A piece of the queue; who is accepted has its increment before it. -/
theorem tallies_piece (h : s.queue.Inv cfg.queue) (e : Queue.Event) (hq : s'.queue = (s.queue.step cfg.queue e).1)
    (hm : s'.metrics = s.metrics) (hsub : s'.pending = s.pending + (s.queue.step cfg.queue e).2.accepted.length) :
    Tallies s (s', (s.ofQueue (s.queue.step cfg.queue e)).2) := by
  obtain ⟨hnone, hevicted, hexpired⟩ := outcomes_ofQueue s (s.queue.step cfg.queue e)
  have hconserves := h.step e
  refine ⟨fun ending => ?_, ?_, ?_, ?_⟩
  · rw [hnone, Nat.add_zero, total, hm, total]
  · rw [total, hm, hsub, ← Nat.add_assoc]
    rfl
  · rw [hq, hevicted]
    exact hconserves.evicted
  · rw [hq, hexpired]
    exact hconserves.expired

theorem pending_admitting (s : InprocessRunner π ρ ν) (a : Queue.Answer) :
    (s.admitting a).1.pending = s.pending + a.2.accepted.length := by
  obtain ⟨q, reply, failed⟩ := a
  have hnew : ((submissions reply).map Submission.admission).count .accepted =
      ({ reply := reply, failed := failed } : Queue.Output).accepted.length := by
    cases reply with
    | refused item error => cases error <;> rfl
    | _ => rfl
  unfold pending admitting
  rw [List.map_append, List.count_append]
  exact congrArg (s.pending + ·) hnew

theorem pending_eraseIdx {i : Nat} {sub : Submission} (hget : s.submitting[i]? = some sub) :
    s.pending = ((s.submitting.eraseIdx i).map Submission.admission).count .accepted +
      if sub.admission = .accepted then 1 else 0 := by
  obtain ⟨hi, hsub⟩ := List.getElem?_eq_some_iff.mp hget
  have hperm := ((List.getElem_cons_eraseIdx_perm hi).map Submission.admission).count_eq Admission.accepted
  rw [hsub, List.map_cons, List.count_cons] at hperm
  rw [pending, ← hperm]
  simp

theorem map_set_same {α β : Type*} {f : α → β} {a b : α} (hf : f b = f a) : ∀ {l : List α} {i : Nat}, l[i]? = some a →
    (l.set i b).map f = l.map f
  | [], _, _ => rfl
  | c :: l, 0, h => by
    obtain rfl : c = a := by simpa using h
    rw [List.set_cons_zero, List.map_cons, List.map_cons, hf]
  | c :: l, i + 1, h => by
    rw [List.set_cons_succ, List.map_cons, List.map_cons, map_set_same hf (by simpa using h)]

theorem tallies_submitCounts {i : Nat} (hl : s.lossless (.submitCounts i) = true) : Tallies s (s.submitCounts i) := by
  unfold InprocessRunner.submitCounts
  split
  · exact tallies_quiet rfl rfl rfl
  · rename_i sub hget
    have hcurrent : (s.metrics (.admission sub.admission)).Current sub.camera sub.inc := by
      simpa [lossless, increment, hget] using hl
    have htotal := total_inc hcurrent
    dsimp only
    split
    · rename_i hdone
      refine ⟨fun e => (htotal (.ending e)).trans (by simp [outcomes]), ?_, rfl, rfl⟩
      have haccepted := htotal (.admission .accepted)
      rw [pending_eraseIdx hget]
      show InprocessRunner.total _ _ + ((s.submitting.eraseIdx i).map Submission.admission).count .accepted = _
      by_cases ha : sub.admission = .accepted
      · rw [if_pos ⟨by rw [ha], hdone⟩] at haccepted
        rw [if_pos ha]
        show (s.inc _ _ _).1.total _ + _ = _
        simp only [haccepted, List.length_nil]
        omega
      · rw [if_neg fun h => ha (Metric.admission.inj h.1).symm] at haccepted
        rw [if_neg ha]
        show (s.inc _ _ _).1.total _ + _ = _
        simp only [haccepted, List.length_nil]
        omega
    · rename_i next hmore
      refine ⟨fun e => (htotal (.ending e)).trans (by simp [outcomes]), ?_, rfl, rfl⟩
      have haccepted := htotal (.admission .accepted)
      rw [if_neg fun h => by simp [hmore] at h, Nat.add_zero] at haccepted
      have hpending : ((s.submitting.set i { sub with inc := next }).map Submission.admission).count .accepted = s.pending :=
        congrArg (List.count Admission.accepted) (map_set_same (a := sub) (b := { sub with inc := next }) rfl hget)
      show (s.inc _ _ _).1.total _ + List.count _ _ = _
      rw [haccepted, hpending]
      rfl

theorem tallies_go (hget : s.workers[w]? = some worker) (hl : s.lossless (.work w .go) = true) : Tallies s (s.go w worker) := by
  obtain ⟨phase, slot⟩ := worker
  cases phase with
  | counting work rest ending inc resolution =>
    have hcurrent : (s.metrics (.ending ending)).Current work.request.context.cameraId inc := by
      simpa [lossless, increment, hget] using hl
    unfold InprocessRunner.go count
    dsimp only
    split
    · rename_i hdone
      exact tallies_count hcurrent rfl rfl rfl (.inl ⟨hdone, work, rfl⟩)
    · rename_i hmore
      exact tallies_count hcurrent rfl rfl rfl (.inr ⟨by simp [hmore], rfl⟩)
  | serving rest => cases rest <;> exact tallies_quiet rfl rfl rfl
  | _ => exact tallies_quiet rfl rfl rfl

theorem tallies_stop (h : s.queue.Inv cfg.queue) (hl : s.lossless .stop = true) : Tallies s (s.stop cfg) := by
  unfold InprocessRunner.stop
  split
  case h_2 => exact tallies_piece h (.close none) rfl rfl rfl
  case h_5 item left i hs =>
    have hcurrent : (s.metrics (.ending .queueClosed)).Current item.request.context.cameraId i := by
      simpa [lossless, increment, hs] using hl
    dsimp only
    split
    · rename_i hdone
      exact tallies_count hcurrent rfl rfl rfl (.inl ⟨hdone, item, rfl⟩)
    · rename_i hmore
      exact tallies_count hcurrent rfl rfl rfl (.inr ⟨by simp [hmore], rfl⟩)
  case h_10 item left i k hs =>
    have hcurrent : (s.metrics (.ending (countFailure .requestCancelled))).Current item.request.context.cameraId i := by
      simpa [lossless, increment, hs] using hl
    dsimp only
    split
    · rename_i hdone
      exact tallies_count hcurrent rfl rfl rfl (.inl ⟨hdone, item, rfl⟩)
    · rename_i hmore
      exact tallies_count hcurrent rfl rfl rfl (.inr ⟨by simp [hmore], rfl⟩)
  case h_6 | h_7 => split <;> exact tallies_quiet rfl rfl rfl
  all_goals exact tallies_quiet rfl rfl rfl

theorem pending_polled (s : InprocessRunner π ρ ν) (w : Nat) (worker : Worker π ρ ν) {a : Queue.Answer}
    (h : Queue.FairPriorityQueue.ToConsumer a.2.reply) : (s.polled w worker a).1.pending = s.pending + a.2.accepted.length := by
  rw [(accepted_of_consumer h).1]
  rfl

/-! ## When nothing is in progress -/

/-- Every thread is done with the item it counted, accepted or took last. -/
def quiet (s : InprocessRunner π ρ ν) : Bool :=
  s.submitting.isEmpty && s.workers.all (·.phase.resting) && s.stopping.resting

/-- What is in flight: queued, or in a slot. -/
def inFlight (s : InprocessRunner π ρ ν) : List WorkItem := s.queue.items ++ s.slots

theorem owed_resting {stopping : Bool} (h : worker.Slotted stopping) (hr : worker.phase.resting = true) :
    worker.owed = worker.slot := by
  obtain ⟨phase, slot⟩ := worker
  cases phase with
  | looping | polling | asleep | checking | exited => rfl
  | serving rest | walking work rest => exact h.symm
  | _ => cases hr

theorem Inv.owed_quiet (h : s.Inv cfg) (hq : s.quiet = true) : s.owed = s.inFlight ∧ s.awaiting = [] := by
  simp only [InprocessRunner.quiet, Bool.and_eq_true, List.isEmpty_iff] at hq
  obtain ⟨⟨-, hworkers⟩, hstop⟩ := hq
  have hrest := List.all_eq_true.mp hworkers
  have howed : s.workers.flatMap Worker.owed = s.workers.flatMap Worker.slot :=
    List.flatMap_congr fun worker hm => owed_resting (h.slotted worker hm) (hrest worker hm)
  have hnone : s.workers.flatMap Worker.awaiting = [] := by
    refine List.flatMap_eq_nil_iff.mpr fun worker hm => ?_
    have hr := hrest worker hm
    obtain ⟨phase, slot⟩ := worker
    cases phase <;> first | rfl | cases hr
  have hslots : s.workers.flatMap Worker.slot = s.slots := by
    unfold slots
    split
    · rename_i hs
      refine List.flatMap_eq_nil_iff.mpr fun worker hm => ?_
      obtain ⟨i, hi⟩ := List.getElem?_of_mem hm
      exact h.swept i worker hi (by rw [hs]; trivial)
    · rfl
  have hover : s.stopping.owed = [] ∧ s.stopping.awaiting = [] := by
    revert hstop
    cases s.stopping <;> simp [Stopping.resting, Stopping.owed, Stopping.awaiting]
  rw [owed, awaiting, howed, hslots, hnone, hover.1, hover.2, List.append_nil]
  exact ⟨rfl, rfl⟩

theorem filter_key {α β : Type*} [DecidableEq β] {key : α → β} {a : α} : ∀ {l : List α}, (l.map key).Nodup → a ∈ l →
    (l.filter fun b => decide (key b = key a)) = [a]
  | [], _, h => by cases h
  | b :: l, hn, h => by
    rw [List.map_cons, List.nodup_cons] at hn
    rcases List.mem_cons.mp h with rfl | h
    · rw [List.filter_cons_of_pos (by simp)]
      refine congrArg (a :: ·) (List.filter_eq_nil_iff.mpr fun c hc => ?_)
      simp only [decide_eq_true_eq]
      exact fun heq => hn.1 (heq ▸ List.mem_map_of_mem hc)
    · have hne : key b ≠ key a := fun heq => hn.1 (heq ▸ List.mem_map_of_mem h)
      rw [List.filter_cons_of_neg (by simpa using hne)]
      exact filter_key hn.2 h

theorem length_outcomes (counted : List (WorkItem × ItemOutcome)) :
    counted.length = outcomes counted (.counted .walked) + outcomes counted (.counted .failed) +
      outcomes counted (.counted .expired) + outcomes counted (.counted .timedOut) +
      outcomes counted (.counted .backpressure) + outcomes counted (.counted .queueClosed) +
      outcomes counted .queueEvicted + outcomes counted .queueExpired := by
  unfold outcomes
  induction counted with
  | nil => rfl
  | cons p counted ih =>
    obtain ⟨item, outcome⟩ := p
    simp only [List.length_cons, List.countP_cons, ih]
    cases outcome with
    | counted e => cases e <;> simp <;> omega
    | queueEvicted => simp; omega
    | queueExpired => simp; omega

/-- Where no increment is lost, each total is the number of what was counted under it. -/
structure Tallied (outputs : List Output) (s : InprocessRunner π ρ ν) : Prop where
  ending : ∀ e, s.total (.ending e) = outcomes (outputs.flatMap Output.counted) (.counted e)
  accepted : s.total (.admission .accepted) + s.pending = (outputs.flatMap Output.accepted).length
  evicted : s.queue.evicted = outcomes (outputs.flatMap Output.counted) .queueEvicted
  expired : s.queue.expired = outcomes (outputs.flatMap Output.counted) .queueExpired

section
variable [DecidableEq ρ]

theorem tallies_act (h : s.queue.Inv cfg.queue) (hget : s.workers[w]? = some worker) (act : Act π ρ ν)
    (hl : s.lossless (.work w act) = true) : Tallies s (s.act cfg w worker act) := by
  cases act with
  | go => exact tallies_go hget hl
  | getBatch clock =>
    simp only [InprocessRunner.act]
    split
    · exact tallies_piece h (.getBatch cfg.window clock) rfl rfl (pending_polled s w worker (toConsumer_getBatch _ _ _))
    · exact tallies_quiet rfl rfl rfl
  | wake i clock =>
    simp only [InprocessRunner.act]
    split
    · exact tallies_piece h (.getBatchWakes i clock) rfl rfl (pending_polled s w worker (toConsumer_getBatchWakes _ _ _))
    · exact tallies_quiet rfl rfl rfl
  | walk env =>
    simp only [InprocessRunner.act]
    split <;> exact tallies_quiet rfl rfl rfl
  | raises cls message =>
    simp only [InprocessRunner.act]
    split <;> exact tallies_quiet rfl rfl rfl

theorem tallies_step (h : s.queue.Inv cfg.queue) {e : Event π ρ ν} (hl : s.lossless e = true) :
    Tallies s (s.step cfg e) := by
  cases e with
  | submit item priority enqueuedNs clock =>
    exact tallies_piece h (.put (chainWork cfg s.nextRequestId item priority enqueuedNs) clock) rfl rfl (pending_admitting _ _)
  | submitWakes i clock => exact tallies_piece h (.putWakes i clock) rfl rfl (pending_admitting _ _)
  | submitCounts i => exact tallies_submitCounts hl
  | cancel requestId =>
    simp only [InprocessRunner.step]
    split <;> exact tallies_quiet rfl rfl rfl
  | work w act =>
    simp only [InprocessRunner.step]
    split
    · exact tallies_quiet rfl rfl rfl
    · exact tallies_act h ‹_› act hl
  | stop => exact tallies_stop h hl
  | abandon =>
    simp only [InprocessRunner.step]
    split <;> exact tallies_quiet rfl rfl rfl

theorem tallied {events : List (Event π ρ ν)} (hp : Machine.Along (step cfg) (fun s e => s.patient e = true) (init cfg) events)
    (hl : Machine.Along (step cfg) (fun s e => s.lossless e = true) (init cfg) events) :
    Tallied (run cfg events).2 (run cfg events).1 := by
  have hboth : Machine.Along (step cfg) (fun s e => s.patient e = true ∧ s.lossless e = true) (init cfg) events := hp.and hl
  have hkept : (run cfg events).1.Inv cfg ∧ Tallied (run cfg events).2 (run cfg events).1 := by
    refine Machine.Along.induction (I := fun os s => s.Inv cfg ∧ Tallied os s) ?_ events hboth
      ⟨inv_init cfg, fun e => rfl, rfl, rfl, rfl⟩
    rintro os s e ⟨hinv, ht⟩ ⟨hpatient, hlossless⟩
    have hstep : Tallies s (s.step cfg e) := tallies_step hinv.queue hlossless
    refine ⟨(hinv.step hpatient).1, fun ending => ?_, ?_, ?_, ?_⟩
    · rw [hstep.ending, ht.ending, List.flatMap_append, List.flatMap_singleton, outcomes, outcomes, outcomes, List.countP_append]
    · rw [hstep.accepted, ht.accepted, List.flatMap_append, List.flatMap_singleton, List.length_append]
    · rw [hstep.evicted, ht.evicted, List.flatMap_append, List.flatMap_singleton, outcomes, outcomes, outcomes, List.countP_append]
    · rw [hstep.expired, ht.expired, List.flatMap_append, List.flatMap_singleton, outcomes, outcomes, outcomes, List.countP_append]
  exact hkept.2

/-- In every run that abandons no worker, whenever nothing is in progress: the totals
add up if no increment was lost, and each accepted item that is not in flight has a
resolved future and was counted under one outcome. -/
theorem accepted_accounted (cfg : RunnerConfig) (events : List (Event π ρ ν))
    (hp : Machine.Along (step cfg) (fun s e => s.patient e = true) (init cfg) events) :
    let r := run cfg events
    r.1.quiet = true →
      (Machine.Along (step cfg) (fun s e => s.lossless e = true) (init cfg) events → r.1.stats.AddsUp) ∧
      ∀ item ∈ r.2.flatMap Output.accepted, item ∉ r.1.inFlight → r.1.Resolved item ∧
        ∃ outcome, ((r.2.flatMap Output.counted).filter fun p =>
          decide (p.1.request.requestId = item.request.requestId)) = [(item, outcome)] := by
  intro r hq
  obtain ⟨hinv, hperm⟩ := accepted_counted hp
  obtain ⟨howed, hawaiting⟩ := hinv.owed_quiet hq
  rw [howed] at hperm
  refine ⟨fun hl => ?_, fun item hitem hout => ?_⟩
  · have ht : Tallied r.2 r.1 := tallied hp hl
    have hlength := hperm.length_eq
    have hpending : r.1.pending = 0 := by
      simp only [InprocessRunner.quiet, Bool.and_eq_true, List.isEmpty_iff] at hq
      rw [pending, hq.1.1]
      rfl
    have haccepted := ht.accepted
    rw [hpending, Nat.add_zero, hlength, List.length_append, List.length_map, length_outcomes] at haccepted
    show r.1.total _ = r.1.total _ + r.1.total _ + r.1.total _ + r.1.total _ + r.1.total _ + r.1.total _ +
      r.1.queue.evicted + r.1.queue.expired + (r.1.queue.size + r.1.slots.length)
    rw [haccepted, ht.ending, ht.ending, ht.ending, ht.ending, ht.ending, ht.ending, ht.evicted, ht.expired,
      hinv.queue.size, inFlight, List.length_append]
  · have hcounted : item ∈ (r.2.flatMap Output.counted).map Prod.fst :=
      (List.mem_append.mp (hperm.mem_iff.mp hitem)).resolve_right hout
    obtain ⟨p, hp, rfl⟩ := List.mem_map.mp hcounted
    have hresolved : r.1.Resolved p.1 := by
      rcases counted_resolved cfg events p hp with hr | hr
      · exact hr
      · rw [hawaiting] at hr
        cases hr
    have hids : ((r.2.flatMap Output.counted).map fun p => p.1.request.requestId).Nodup := by
      have hdrawn : (requestIds (r.2.flatMap Output.accepted) ++ r.1.queue.sleeping).Nodup := (requests_nodup events).1
      have hall : (requestIds (r.2.flatMap Output.accepted)).Nodup := (List.nodup_append.mp hdrawn).1
      have hboth := (hperm.map fun item : WorkItem => item.request.requestId).nodup_iff.mp hall
      rw [List.map_append, List.map_map] at hboth
      exact (List.nodup_append.mp hboth).1
    exact ⟨hresolved, p.2, filter_key hids hp⟩

end

/-- A decoder and an output. -/
def straight : Topology where
  name := "ships"
  nodes := [
    { name := "decode", kind := .decode, element := { impl := "replay" }, inputs := [], outputs := ["output"] },
    { name := "output", kind := .output, element := { impl := "log" }, inputs := ["decode"], outputs := [] }]
  edges := [{ producer := "decode", consumer := "output", caps := ⟨.any, .only .cpu⟩ }]

theorem four_slots : 0 < 4 := by decide

def oneWorker : RunnerConfig where
  topology := straight
  queue := { name := "lane", capacity := 4, capacity_pos := four_slots }
  window := { maxBatchSize := 2, maxBatchSize_pos := Nat.zero_lt_two, preferred_within := by rintro _ ⟨⟩ }
  workers := 1
  workers_pos := Nat.zero_lt_one

/-- One camera's frames. -/
def accept (frame : Int) : Event Unit Unit Unit :=
  .submit { context := { cameraId := "cam-7", frameId := frame }, caps := ⟨.any, .only .cpu⟩, payload := some (), metadata := .empty }
    .normal 0 ⟨0, 0, 0⟩

/-- The second and the third increment overlap. -/
def overlapping : List (Event Unit Unit Unit) :=
  [accept 1, .submitCounts 0, .submitCounts 0, .submitCounts 0, accept 2, accept 3, .submitCounts 0, .submitCounts 1,
    .submitCounts 0, .submitCounts 0]

/-- Three items are queued, nothing is in progress, and the runner says it accepted two. -/
theorem increment_lost :
    Machine.Along (step oneWorker) (fun s e => s.patient e = true) (init oneWorker) overlapping ∧
      (run oneWorker overlapping).1.quiet = true ∧ (run oneWorker overlapping).1.stats.accepted = 2 ∧
      (run oneWorker overlapping).1.stats.inFlight = 3 ∧ ¬(run oneWorker overlapping).1.stats.AddsUp := by
  decide +kernel

def passOn : WalkEnv Unit Unit Unit where
  str _ := ""
  process node item := if node.kind = .output then .ok none else .ok (some item)

/-- Of three items one is walked, one is left in its slot by the stop, and one in the queue. -/
def halted : List (Event Unit Unit Unit) :=
  [accept 1, .submitCounts 0, .submitCounts 0, .submitCounts 0, accept 2, .submitCounts 0, .submitCounts 0, accept 3,
    .submitCounts 0, .submitCounts 0, .work 0 .go, .work 0 (.getBatch ⟨0, 0, 0⟩), .work 0 .go, .work 0 .go,
    .work 0 (.walk passOn), .work 0 .go, .work 0 .go, .work 0 .go, .work 0 .go, .work 0 .go, .stop, .work 0 .go,
    .work 0 .go] ++ List.replicate 18 Event.stop

theorem halted_accounted : (run oneWorker halted).1.stats.accepted = 3 ∧ (run oneWorker halted).1.stats.AddsUp ∧
    ∀ item ∈ (run oneWorker halted).2.flatMap Output.accepted, item ∉ (run oneWorker halted).1.inFlight →
      (run oneWorker halted).1.Resolved item ∧ ∃ outcome, ((run oneWorker halted).2.flatMap Output.counted).filter (fun p =>
        decide (p.1.request.requestId = item.request.requestId)) = [(item, outcome)] :=
  have h := accepted_accounted oneWorker halted (by decide +kernel) (by decide +kernel)
  ⟨by decide +kernel, h.1 (by decide +kernel), h.2⟩

end InprocessRunner

end ShipInfer.Runners
