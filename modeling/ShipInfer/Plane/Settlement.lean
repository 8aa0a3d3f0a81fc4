import ShipInfer.Plane.Assembly

/-!
# What the instance of the C++ plane answers

Items are counted by the promise they carry: what a state holds unsettled, what a
step accepts and what it settles balance. What the worker holds on its way to an
answer carries the rows the answer is made of.
-/

namespace ShipInfer.Plane

variable {α : Type}

/-! ## Counting promises -/

/-- The unsettled items with a promise. -/
def live (id : Nat) (items : List (WorkItem α)) : Nat := items.countP fun item => !item.settled && item.id == id

def gone (id : Nat) (settled : List (WorkItem α × Outcome α)) : Nat := settled.countP fun p => p.1.id == id

@[simp] theorem live_nil (id : Nat) : live id ([] : List (WorkItem α)) = 0 := rfl

@[simp] theorem live_append (id : Nat) (l m : List (WorkItem α)) : live id (l ++ m) = live id l + live id m :=
  List.countP_append

theorem live_cons (id : Nat) (item : WorkItem α) (l : List (WorkItem α)) :
    live id (item :: l) = live id [item] + live id l := by
  rw [← List.singleton_append, live_append]

@[simp] theorem gone_nil (id : Nat) : gone id ([] : List (WorkItem α × Outcome α)) = 0 := rfl

@[simp] theorem gone_append (id : Nat) (l m : List (WorkItem α × Outcome α)) :
    gone id (l ++ m) = gone id l + gone id m :=
  List.countP_append

@[simp] theorem gone_settle (id : Nat) (item : WorkItem α) (outcome : Outcome α) :
    gone id (settle item outcome) = live id [item] := by
  unfold settle gone live
  cases h : item.settled <;> simp [h]

theorem gone_settle_all (id : Nat) (error : Error) (items : List (WorkItem α)) :
    gone id (items.flatMap fun item => settle item (.failed error)) = live id items := by
  induction items with
  | nil => rfl
  | cons item items ih => rw [List.flatMap_cons, gone_append, gone_settle, ih, ← live_append, List.singleton_append]

@[simp] theorem live_settled (id : Nat) (item : WorkItem α) : live id [{ item with settled := true }] = 0 := rfl

theorem live_unsettled {item : WorkItem α} (h : item.settled = false) (id : Nat) :
    live id [item] = if item.id = id then 1 else 0 := by
  by_cases hid : item.id = id <;> simp [live, h, hid]

theorem live_done {id : Nat} {items : List (WorkItem α)} (h : ∀ item ∈ items, item.settled = true) : live id items = 0 := by
  rw [live, List.countP_eq_zero]
  intro item hitem
  simp [h item hitem]

theorem live_eq_count {items : List (WorkItem α)} (h : ∀ item ∈ items, item.settled = false) (id : Nat) :
    (items.map WorkItem.id).count id = live id items := by
  rw [List.count, List.countP_map, live]
  apply List.countP_congr
  intro item hitem
  simp [h item hitem]

theorem live_filter (id : Nat) (items : List (WorkItem α)) :
    live id (items.filter (!·.settled)) = live id items := by
  rw [live, List.countP_filter, live]
  apply List.countP_congr
  intro item _
  simp only [Bool.and_eq_true]
  tauto

theorem live_eraseIdx (id : Nat) {items : List (WorkItem α)} {i : Nat} {item : WorkItem α} (h : items[i]? = some item) :
    live id items = live id [item] + live id (items.eraseIdx i) := by
  obtain ⟨hi, hget⟩ := List.getElem?_eq_some_iff.mp h
  have hperm := List.getElem_cons_eraseIdx_perm hi
  rw [hget] at hperm
  rw [← live_cons]
  exact (hperm.countP_eq _).symm

/-- What the calls of `stop` hold. -/
def stopsHold (stops : List (StopCall α)) : List (WorkItem α) := stops.flatMap StopCall.held

theorem live_stops_set (id : Nat) : ∀ {stops : List (StopCall α)} {i : Nat} {call : StopCall α} (call' : StopCall α),
    stops[i]? = some call →
      live id (stopsHold (stops.set i call')) + live id call.held = live id (stopsHold stops) + live id call'.held
  | c :: stops, 0, call, call', h => by
    cases h
    simp only [stopsHold, List.set_cons_zero, List.flatMap_cons, live_append]
    omega
  | c :: stops, i + 1, call, call', h => by
    have ih := live_stops_set id (i := i) call' (by simpa using h)
    simp only [stopsHold, List.set_cons_succ, List.flatMap_cons, live_append] at ih ⊢
    omega

theorem live_stops_eraseIdx (id : Nat) : ∀ {stops : List (StopCall α)} {i : Nat} {call : StopCall α},
    stops[i]? = some call → live id (stopsHold stops) = live id call.held + live id (stopsHold (stops.eraseIdx i))
  | c :: stops, 0, call, h => by
    cases h
    simp only [stopsHold, List.flatMap_cons, live_append, List.eraseIdx_cons_zero]
  | c :: stops, i + 1, call, h => by
    have ih := live_stops_eraseIdx id (i := i) (by simpa using h)
    simp only [stopsHold, List.flatMap_cons, live_append, List.eraseIdx_cons_succ] at ih ⊢
    omega

/-- What a state holds of a promise outside of `putting`. -/
def tally (id : Nat) (s : State α) : Nat :=
  live id s.queue + live id (heldBy s.worker) + live id s.evicting + live id (stopsHold s.stops)

theorem live_pending (id : Nat) (s : State α) : live id s.pending = tally id s := by
  unfold State.pending
  rw [live_filter, tally, State.callersHold, live_append, live_append, live_append, stopsHold]
  omega

/-- A step balances: what it accepts is settled or held, and what it is asked to take
is accepted, refused or still on the way. -/
structure Balanced (id : Nat) (s : State α) (r : State α × Output α) : Prop where
  grows : s.nextId ≤ r.1.nextId
  held : tally id r.1 + gone id r.2.settled = tally id s + live id r.2.accepted
  taken : live id r.1.putting + live id r.2.accepted + live id r.2.refused =
    live id s.putting + if s.nextId ≤ id ∧ id < r.1.nextId then 1 else 0

/-- A step that numbers no item. -/
theorem Balanced.of {id : Nat} {s : State α} {r : State α × Output α} (hnext : r.1.nextId = s.nextId)
    (hheld : tally id r.1 + gone id r.2.settled = tally id s + live id r.2.accepted)
    (htaken : live id r.1.putting + live id r.2.accepted + live id r.2.refused = live id s.putting) :
    Balanced id s r := by
  refine ⟨hnext.ge, hheld, ?_⟩
  rw [hnext, if_neg (by omega), htaken, Nat.add_zero]

theorem Balanced.refl (id : Nat) (s : State α) : Balanced id s (s, {}) := .of rfl (by simp) (by simp)

theorem enqueue_balanced (id : Nat) (s : State α) (request : InferenceRequest α) (now : Int) :
    Balanced id s (s.enqueue request now) := by
  have hid : (s.nextId ≤ id ∧ id < s.nextId + 1) ↔ s.nextId = id := by omega
  unfold State.enqueue
  dsimp only
  by_cases hready : s.ready = true
  · rw [if_pos hready]
    refine ⟨Nat.le_succ _, by simp [tally], ?_⟩
    simp only [hid]
    simp [live_unsettled]
  · rw [if_neg hready]
    refine ⟨Nat.le_succ _, by simp [tally], ?_⟩
    simp only [hid]
    simp [live_unsettled]

theorem put_balanced (id : Nat) (cfg : Config α) (s : State α) (i victim : Nat) (timedOut : Bool) :
    Balanced id s (s.put cfg i victim timedOut) := by
  unfold State.put
  split
  · exact .refl id s
  · rename_i item hitem
    have hput := live_eraseIdx id hitem
    have hrefused : Balanced id s ({ s with putting := s.putting.eraseIdx i }, { refused := [item] }) := by
      refine .of rfl (by simp [tally]) ?_
      simp
      omega
    dsimp only
    split
    · exact hrefused
    · split
      · refine .of rfl ?_ ?_
        · simp [tally]
          omega
        · simp
          omega
      · split
        · exact hrefused
        · split
          · exact hrefused
          · exact .refl id s
        · split
          · exact hrefused
          · rename_i evicted hevicted
            have hqueue := live_eraseIdx id hevicted
            refine .of rfl ?_ ?_
            · simp [tally]
              omega
            · simp
              omega

theorem failEvicted_balanced (id : Nat) (cfg : Config α) (s : State α) (i : Nat) :
    Balanced id s (s.failEvicted cfg i) := by
  unfold State.failEvicted
  split
  · exact .refl id s
  · rename_i item hitem
    have hevicting := live_eraseIdx id hitem
    refine .of rfl ?_ (by simp)
    simp [tally]
    omega

theorem stopStep_balanced (id : Nat) (s : State α) (i : Nat) : Balanced id s (s.stopStep i) := by
  unfold State.stopStep
  split
  · exact .refl id s
  · rename_i hcall
    have hset := live_stops_set id .halted hcall
    refine .of rfl ?_ (by simp)
    simp [tally, StopCall.held] at hset ⊢
    omega
  · rename_i hcall
    have hset := live_stops_set id .unadvertised hcall
    refine .of rfl ?_ (by simp)
    simp [tally, StopCall.held] at hset ⊢
    omega
  · rename_i hcall
    have hset := live_stops_set id (.draining s.queue) hcall
    refine .of rfl ?_ (by simp [State.close])
    simp [tally, StopCall.held, State.close] at hset ⊢
    omega
  · rename_i item items hcall
    have hset := live_stops_set id (.draining items) hcall
    have hcons := live_cons id item items
    refine .of rfl ?_ (by simp)
    simp [tally, StopCall.held] at hset ⊢
    omega
  · rename_i hcall
    split
    · have herase := live_stops_eraseIdx id hcall
      refine .of rfl ?_ (by simp)
      simp [tally, StopCall.held] at herase ⊢
      omega
    · exact .refl id s

/-! ## The worker -/

theorem drain_balanced (id maxRows : Nat) : ∀ (picks : List (Nat × Bool)) (d : State.Drain α),
    live id (State.drain maxRows picks d).queue + live id (State.drain maxRows picks d).batch +
        live id (State.drain maxRows picks d).expired =
      live id d.queue + live id d.batch + live id d.expired := by
  intro picks
  induction picks with
  | nil => intro d; rfl
  | cons pick picks ih =>
    intro d
    obtain ⟨i, expired⟩ := pick
    unfold State.drain
    split
    · rfl
    · rename_i item hitem
      have hqueue := live_eraseIdx id hitem
      split
      · rfl
      · split
        · rw [ih]
          simp
          omega
        · dsimp only
          split
          · simp
            omega
          · rw [ih]
            simp
            omega

/-! ## The invariant -/

/-- What the worker's answers will be made of. -/
def Serving (f : Nat → List α → List α) (cfg : Config α) (binding : Nat → α) : Worker α → Prop
  | .executing batch =>
    measure cfg.engine.inputRowElems 0 batch.items = .ok (batch.spans, batch.rows) ∧
      batch.rows ≤ cfg.engine.maxBatch ∧
      ∃ before, binding = writeItems cfg.engine.inputRowElems before (batch.items.zip batch.spans)
  | .reading batch memory _ =>
    batch.spans.length = batch.items.length ∧ ∀ p ∈ batch.items.zip batch.spans, p.2.2 - p.2.1 = p.1.rows ∧
      outputTensors cfg.engine memory p.2 = ownOutputs f cfg.engine p.1.request p.1.rows
  | .scattering memory _ done todo =>
    (∀ item ∈ done, item.settled = true) ∧ ∀ p ∈ todo, p.2.2 - p.2.1 = p.1.rows ∧
      outputTensors cfg.engine memory p.2 = ownOutputs f cfg.engine p.1.request p.1.rows
  | _ => True

structure Inv (f : Nat → List α → List α) (cfg : Config α) (s : State α) : Prop where
  putting : ∀ item ∈ s.putting, item.settled = false
  queue : ∀ item ∈ s.queue, item.settled = false
  evicting : ∀ item ∈ s.evicting, item.settled = false
  stops : ∀ item ∈ stopsHold s.stops, item.settled = false
  closed : s.closed = true → s.queue = []
  /-- A call that drains has closed the queue. -/
  draining : ∀ call ∈ s.stops, ∀ items, call = .draining items → s.closed = true
  unstarted : s.startedOnce = false → s.worker = .unstarted
  serving : Serving f cfg s.binding s.worker

/-- What a step settles with an answer, it settles with the request's own rows; what
it accepts is not settled. -/
structure Answers (f : Nat → List α → List α) (cfg : Config α) (o : Output α) : Prop where
  own : ∀ item response, (item, Outcome.completed response) ∈ o.settled →
    response.rows = item.rows ∧ response.outputs = ownOutputs f cfg.engine item.request item.rows
  accepted : ∀ item ∈ o.accepted, item.settled = false

theorem answers_none {f : Nat → List α → List α} {cfg : Config α} {o : Output α} (hs : o.settled = [])
    (ha : o.accepted = []) : Answers f cfg o :=
  ⟨by simp [hs], by simp [ha]⟩

theorem mem_settle {item : WorkItem α} {outcome : Outcome α} {p : WorkItem α × Outcome α}
    (h : p ∈ settle item outcome) : p = (item, outcome) := by
  unfold settle at h
  split at h
  · cases h
  · exact List.mem_singleton.mp h

theorem answers_failed {f : Nat → List α → List α} {cfg : Config α} {o : Output α} {item : WorkItem α} {error : Error}
    (hs : o.settled = settle item (.failed error)) (ha : o.accepted = []) : Answers f cfg o := by
  refine ⟨?_, by simp [ha]⟩
  intro other response hmem
  rw [hs] at hmem
  cases mem_settle hmem

theorem answers_accepted {f : Nat → List α → List α} {cfg : Config α} {o : Output α} {item : WorkItem α}
    (hitem : item.settled = false) (hs : o.settled = []) (ha : o.accepted = [item]) : Answers f cfg o :=
  ⟨by simp [hs], by simpa [ha] using hitem⟩

theorem mem_stopsHold_set {stops : List (StopCall α)} {i : Nat} {call' : StopCall α} {item : WorkItem α}
    (h : item ∈ stopsHold (stops.set i call')) : item ∈ stopsHold stops ∨ item ∈ call'.held := by
  obtain ⟨c, hc, hitem⟩ := List.mem_flatMap.mp h
  rcases List.mem_or_eq_of_mem_set hc with hc | rfl
  · exact .inl (List.mem_flatMap.mpr ⟨c, hc, hitem⟩)
  · exact .inr hitem

variable {f : Nat → List α → List α} {cfg : Config α} {s : State α}

theorem enqueue_inv (h : Inv f cfg s) (request : InferenceRequest α) (now : Int) :
    Inv f cfg (s.enqueue request now).1 ∧ Answers f cfg (s.enqueue request now).2 := by
  unfold State.enqueue
  dsimp only
  by_cases hready : s.ready = true
  · rw [if_pos hready]
    refine ⟨{ h with putting := ?_ }, answers_none rfl rfl⟩
    intro item hitem
    rcases List.mem_append.mp hitem with hitem | hitem
    · exact h.putting item hitem
    · rw [List.mem_singleton.mp hitem]
  · rw [if_neg hready]
    exact ⟨{ h with }, answers_none rfl rfl⟩

theorem put_inv (h : Inv f cfg s) (i victim : Nat) (timedOut : Bool) :
    Inv f cfg (s.put cfg i victim timedOut).1 ∧ Answers f cfg (s.put cfg i victim timedOut).2 := by
  unfold State.put
  split
  · exact ⟨h, answers_none rfl rfl⟩
  · rename_i item hitem
    have hunsettled : item.settled = false := h.putting item (List.mem_of_getElem? hitem)
    have hputting : ∀ x ∈ s.putting.eraseIdx i, x.settled = false :=
      fun x hx => h.putting x (List.mem_of_mem_eraseIdx hx)
    have hadd : ∀ l : List (WorkItem α), (∀ x ∈ l, x.settled = false) → ∀ x ∈ l ++ [item], x.settled = false := by
      intro l hl x hx
      rcases List.mem_append.mp hx with hx | hx
      · exact hl x hx
      · rw [List.mem_singleton.mp hx]
        exact hunsettled
    have hrefused : Inv f cfg { s with putting := s.putting.eraseIdx i } := { h with putting := hputting }
    dsimp only
    split
    · exact ⟨hrefused, answers_none rfl rfl⟩
    · rename_i hopen
      split
      · exact ⟨{ h with
          putting := hputting
          queue := hadd _ h.queue
          closed := fun hc => absurd hc hopen }, answers_accepted hunsettled rfl rfl⟩
      · split
        · exact ⟨hrefused, answers_none rfl rfl⟩
        · split
          · exact ⟨hrefused, answers_none rfl rfl⟩
          · exact ⟨h, answers_none rfl rfl⟩
        · split
          · exact ⟨hrefused, answers_none rfl rfl⟩
          · rename_i evicted hevicted
            refine ⟨{ h with
              putting := hputting
              queue := hadd _ fun x hx => h.queue x (List.mem_of_mem_eraseIdx hx)
              evicting := ?_
              closed := fun hc => absurd hc hopen }, answers_accepted hunsettled rfl rfl⟩
            intro x hx
            rcases List.mem_append.mp hx with hx | hx
            · exact h.evicting x hx
            · rw [List.mem_singleton.mp hx]
              exact h.queue evicted (List.mem_of_getElem? hevicted)

theorem failEvicted_inv (h : Inv f cfg s) (i : Nat) :
    Inv f cfg (s.failEvicted cfg i).1 ∧ Answers f cfg (s.failEvicted cfg i).2 := by
  unfold State.failEvicted
  split
  · exact ⟨h, answers_none rfl rfl⟩
  · exact ⟨{ h with evicting := fun x hx => h.evicting x (List.mem_of_mem_eraseIdx hx) }, answers_failed rfl rfl⟩

/-- A call of `stop` moves on, holding items that are not settled. -/
theorem Inv.set (h : Inv f cfg s) (i : Nat) (call' : StopCall α)
    (hheld : ∀ item ∈ call'.held, item.settled = false)
    (hdraining : ∀ items, call' = .draining items → s.closed = true) (running ready : Bool) :
    Inv f cfg { s with running := running, ready := ready, stops := s.stops.set i call' } :=
  { h with
    stops := by
      intro item hitem
      rcases mem_stopsHold_set hitem with hitem | hitem
      · exact h.stops item hitem
      · exact hheld item hitem
    draining := by
      intro c hc items hitems
      rcases List.mem_or_eq_of_mem_set hc with hc | rfl
      · exact h.draining c hc items hitems
      · exact hdraining items hitems }

theorem Inv.close (h : Inv f cfg s) : Inv f cfg s.close :=
  { h with
    queue := by simp [State.close]
    closed := fun _ => rfl
    draining := fun _ _ _ _ => rfl }

theorem stopStep_inv (h : Inv f cfg s) (i : Nat) :
    Inv f cfg (s.stopStep i).1 ∧ Answers f cfg (s.stopStep i).2 := by
  unfold State.stopStep
  split
  · exact ⟨h, answers_none rfl rfl⟩
  · exact ⟨h.set i .halted (by simp [StopCall.held]) (by simp) false s.ready, answers_none rfl rfl⟩
  · exact ⟨h.set i .unadvertised (by simp [StopCall.held]) (by simp) s.running false, answers_none rfl rfl⟩
  · exact ⟨h.close.set i (.draining s.queue) h.queue (fun _ _ => rfl) s.running s.ready, answers_none rfl rfl⟩
  · rename_i item items hcall
    have hitems : ∀ x ∈ items, x.settled = false := by
      intro x hx
      apply h.stops x
      exact List.mem_flatMap.mpr ⟨_, List.mem_of_getElem? hcall, List.mem_cons_of_mem item hx⟩
    have hclosed : s.closed = true := h.draining _ (List.mem_of_getElem? hcall) _ rfl
    exact ⟨h.set i (.draining items) hitems (fun _ _ => hclosed) s.running s.ready, answers_failed rfl rfl⟩
  · split
    · refine ⟨{ h with stops := ?_, draining := ?_ }, answers_none rfl rfl⟩
      · intro item hitem
        obtain ⟨c, hc, hitem⟩ := List.mem_flatMap.mp hitem
        exact h.stops item (List.mem_flatMap.mpr ⟨c, List.mem_of_mem_eraseIdx hc, hitem⟩)
      · intro c hc
        exact h.draining c (List.mem_of_mem_eraseIdx hc)
    · exact ⟨h, answers_none rfl rfl⟩

theorem drain_queue_mem (maxRows : Nat) : ∀ (picks : List (Nat × Bool)) (d : State.Drain α),
    ∀ item ∈ (State.drain maxRows picks d).queue, item ∈ d.queue := by
  intro picks
  induction picks with
  | nil => intro d item hitem; exact hitem
  | cons pick picks ih =>
    intro d item hitem
    obtain ⟨i, expired⟩ := pick
    unfold State.drain at hitem
    split at hitem
    · exact hitem
    · split at hitem
      · exact hitem
      · split at hitem
        · exact List.mem_of_mem_eraseIdx (ih _ item hitem)
        · dsimp only at hitem
          split at hitem
          · exact List.mem_of_mem_eraseIdx hitem
          · exact List.mem_of_mem_eraseIdx (ih _ item hitem)

/-- The worker moves on. -/
theorem Inv.moves (h : Inv f cfg s) (hs : s.startedOnce = true) (ready running : Bool) {worker : Worker α}
    (hserving : Serving f cfg s.binding worker) :
    Inv f cfg { s with ready := ready, running := running, worker := worker } :=
  { h with
    unstarted := fun hn => absurd (hs.symm.trans hn) (by simp)
    serving := hserving }

/-- The worker moves on with the input binding written to. -/
theorem Inv.assembled (h : Inv f cfg s) (hs : s.startedOnce = true) {binding : Nat → α} {worker : Worker α}
    (hserving : Serving f cfg binding worker) : Inv f cfg { s with binding := binding, worker := worker } :=
  { h with
    unstarted := fun hn => absurd (hs.symm.trans hn) (by simp)
    serving := hserving }

theorem loop_inv (h : Inv f cfg s) (hs : s.startedOnce = true) (picks : List (Nat × Bool)) :
    Inv f cfg (s.loop cfg picks).1 ∧ Answers f cfg (s.loop cfg picks).2 := by
  unfold State.loop
  split
  · exact ⟨h.moves hs false s.running trivial, answers_none rfl rfl⟩
  · split
    · split
      · exact ⟨h.moves hs false s.running trivial, answers_none rfl rfl⟩
      · exact ⟨h, answers_none rfl rfl⟩
    · rename_i hqueue
      dsimp only
      have hleft := drain_queue_mem cfg.window.maxBatchSize picks { queue := s.queue }
      have hdrained : Inv f cfg
          { s with queue := (State.drain cfg.window.maxBatchSize picks { queue := s.queue }).queue } :=
        { h with
          queue := fun x hx => h.queue x (hleft x hx)
          closed := fun hc => absurd (h.closed hc) hqueue }
      have hanswers : Answers f cfg
          { settled := (State.drain cfg.window.maxBatchSize picks { queue := s.queue }).expired.flatMap
              fun item => settle item (.failed .deadlinePassed) } := by
        refine ⟨?_, by simp⟩
        intro item response hmem
        obtain ⟨_, _, hmem⟩ := List.mem_flatMap.mp hmem
        cases mem_settle hmem
      split
      · exact ⟨hdrained, hanswers⟩
      · exact ⟨hdrained.moves hs s.ready s.running trivial, hanswers⟩

theorem work_inv (hf : RowWise f cfg.engine) (h : Inv f cfg s) (choice : Choice) :
    Inv f cfg (s.work cfg choice).1 ∧ Answers f cfg (s.work cfg choice).2 := by
  by_cases hs : s.startedOnce = true
  case neg =>
    rw [State.work, h.unstarted (by simpa using hs)]
    exact ⟨h, answers_none rfl rfl⟩
  have hserving := h.serving
  unfold State.work
  split
  · exact ⟨h, answers_none rfl rfl⟩
  · split
    · exact ⟨h.close.moves hs s.ready s.running trivial, answers_none rfl rfl⟩
    · exact ⟨h.moves hs true s.running trivial, answers_none rfl rfl⟩
  · exact loop_inv h hs choice.picks
  · split
    · exact ⟨h.assembled hs trivial, answers_none rfl rfl⟩
    · rename_i items _ batch binding hassemble
      obtain ⟨hitems, hmeasure, hrows, hbinding⟩ := assemble_ok hassemble
      refine ⟨h.assembled hs ⟨?_, hrows, s.binding, ?_⟩, answers_none rfl rfl⟩
      · rw [hitems]
        exact hmeasure
      · rw [hitems]
        exact hbinding
  · rename_i batch hworker
    rw [hworker] at hserving
    obtain ⟨hmeasure, hrows, before, hbinding⟩ := hserving
    split
    · exact ⟨h.moves hs s.ready s.running trivial, answers_none rfl rfl⟩
    · refine ⟨h.moves hs s.ready s.running ⟨length_measure hmeasure, fun p hp => ⟨?_, ?_⟩⟩, answers_none rfl rfl⟩
      · have hspan := ((measure_spans hmeasure).2 p hp).2.2.1
        omega
      · rw [hbinding]
        exact outputTensors_own hf hmeasure hrows p hp
  · rename_i batch memory timings hworker
    rw [hworker] at hserving
    split
    · exact ⟨h.moves hs s.ready s.running trivial, answers_none rfl rfl⟩
    · exact ⟨h.moves hs s.ready s.running ⟨by simp, hserving.2⟩, answers_none rfl rfl⟩
  · rename_i memory timings done todo hworker
    rw [hworker] at hserving
    split
    · exact ⟨h.moves hs s.ready s.running trivial, answers_none rfl rfl⟩
    · rename_i p todo'
      have hp := List.forall_mem_cons.mp hserving.2
      split
      · exact ⟨h.moves hs s.ready s.running trivial, answers_none rfl rfl⟩
      · refine ⟨h.moves hs s.ready s.running ⟨?_, hp.2⟩, ?_, by simp⟩
        · intro item hitem
          rcases List.mem_append.mp hitem with hitem | hitem
          · exact hserving.1 item hitem
          · rw [List.mem_singleton.mp hitem]
        · intro item response hmem
          cases mem_settle hmem
          exact hp.1
  · split
    · exact ⟨h.moves hs s.ready s.running trivial, answers_none rfl rfl⟩
    · exact ⟨h.moves hs s.ready s.running trivial, answers_failed rfl rfl⟩
  · exact ⟨h.moves hs false false trivial, answers_none rfl rfl⟩
  · split
    · exact ⟨h.close.moves hs s.ready s.running trivial, answers_none rfl rfl⟩
    · exact ⟨h.moves hs s.ready s.running trivial, answers_failed rfl rfl⟩
  · split
    · exact ⟨h.moves hs s.ready s.running trivial, answers_none rfl rfl⟩
    · exact ⟨h.moves hs s.ready s.running trivial, answers_failed rfl rfl⟩
  · exact ⟨h, answers_none rfl rfl⟩

theorem step_inv (hf : RowWise f cfg.engine) (h : Inv f cfg s) (e : Event α) :
    Inv f cfg (step cfg s e).1 ∧ Answers f cfg (step cfg s e).2 := by
  cases e with
  | start =>
    show Inv f cfg s.start.1 ∧ Answers f cfg s.start.2
    unfold State.start
    split
    · exact ⟨h, answers_none rfl rfl⟩
    · exact ⟨{ h with unstarted := by simp, serving := trivial }, answers_none rfl rfl⟩
  | enqueue request now => exact enqueue_inv h request now
  | put i victim timedOut => exact put_inv h i victim timedOut
  | failEvicted i => exact failEvicted_inv h i
  | work choice => exact work_inv hf h choice
  | stop =>
    refine ⟨{ h with stops := ?_, draining := ?_ }, answers_none rfl rfl⟩
    · intro item hitem
      simp only [stopsHold, step, List.flatMap_append, List.flatMap_cons, List.flatMap_nil, StopCall.held,
        List.append_nil] at hitem
      exact h.stops item hitem
    · intro call hcall items hitems
      rcases List.mem_append.mp hcall with hcall | hcall
      · exact h.draining call hcall items hitems
      · rw [List.mem_singleton.mp hcall] at hitems
        cases hitems
  | stopStep i => exact stopStep_inv h i

theorem loop_balanced (id : Nat) (cfg : Config α) (s : State α) (picks : List (Nat × Bool))
    (hworker : s.worker = .looping) : Balanced id s (s.loop cfg picks) := by
  unfold State.loop
  split
  · exact .of rfl (by simp [tally, hworker, heldBy]) (by simp)
  · split
    · split
      · exact .of rfl (by simp [tally, hworker, heldBy]) (by simp)
      · exact .refl id s
    · have hdrain := drain_balanced id cfg.window.maxBatchSize picks { queue := s.queue }
      dsimp only
      split
      · rename_i hbatch
        refine .of rfl ?_ (by simp)
        simp only [hbatch, live_nil, tally, gone_settle_all] at hdrain ⊢
        omega
      · refine .of rfl ?_ (by simp)
        simp only [hworker, live_nil, tally, gone_settle_all, heldBy] at hdrain ⊢
        omega

theorem work_balanced (id : Nat) (h : Inv f cfg s) (choice : Choice) : Balanced id s (s.work cfg choice) := by
  have hserving := h.serving
  unfold State.work
  split
  · exact .refl id s
  · rename_i hworker
    split
    · exact .of rfl (by simp [tally, hworker, heldBy, State.close]) (by simp [State.close])
    · exact .of rfl (by simp [tally, hworker, heldBy]) (by simp)
  · rename_i hworker
    exact loop_balanced id cfg s choice.picks hworker
  · rename_i items hworker
    split
    · exact .of rfl (by simp [tally, hworker, heldBy]) (by simp)
    · rename_i batch binding hassemble
      exact .of rfl (by simp [tally, hworker, heldBy, (assemble_ok hassemble).1]) (by simp)
  · rename_i batch hworker
    split
    · exact .of rfl (by simp [tally, hworker, heldBy]) (by simp)
    · exact .of rfl (by simp [tally, hworker, heldBy]) (by simp)
  · rename_i batch memory timings hworker
    rw [hworker] at hserving
    split
    · exact .of rfl (by simp [tally, hworker, heldBy]) (by simp)
    · have hzip : (batch.items.zip batch.spans).map Prod.fst = batch.items := List.map_fst_zip hserving.1.ge
      exact .of rfl (by simp [tally, hworker, heldBy, hzip]) (by simp)
  · rename_i memory timings done todo hworker
    rw [hworker] at hserving
    split
    · have hdone : live id done = 0 := live_done hserving.1
      exact .of rfl (by simp [tally, hworker, heldBy, hdone]) (by simp)
    · rename_i p todo'
      have hcons := live_cons id p.1 (todo'.map Prod.fst)
      split
      · exact .of rfl (by simp [tally, hworker, heldBy]) (by simp)
      · refine .of rfl ?_ (by simp)
        simp only [tally, hworker, heldBy, List.map_cons, live_append, live_settled, live_nil, gone_settle, hcons]
        omega
  · rename_i error items hworker
    split
    · exact .of rfl (by simp [tally, hworker, heldBy]) (by simp)
    · rename_i item items
      have hcons := live_cons id item items
      refine .of rfl ?_ (by simp)
      simp [tally, hworker, heldBy]
      omega
  · rename_i items hworker
    exact .of rfl (by simp [tally, hworker, heldBy]) (by simp)
  · rename_i items hworker
    split
    · exact .of rfl (by simp [tally, hworker, heldBy, State.close]) (by simp [State.close])
    · rename_i item items
      have hcons := live_cons id item items
      refine .of rfl ?_ (by simp)
      simp [tally, hworker, heldBy]
      omega
  · rename_i items hworker
    split
    · exact .of rfl (by simp [tally, hworker, heldBy]) (by simp)
    · rename_i item items
      have hcons := live_cons id item items
      refine .of rfl ?_ (by simp)
      simp [tally, hworker, heldBy]
      omega
  · exact .refl id s

theorem step_balanced (id : Nat) (h : Inv f cfg s) (e : Event α) : Balanced id s (step cfg s e) := by
  cases e with
  | start =>
    show Balanced id s s.start
    unfold State.start
    split
    · exact .refl id s
    · rename_i hs
      have hworker := h.unstarted (by simpa using hs)
      exact .of rfl (by simp [tally, hworker, heldBy]) (by simp)
  | enqueue request now => exact enqueue_balanced id s request now
  | put i victim timedOut => exact put_balanced id cfg s i victim timedOut
  | failEvicted i => exact failEvicted_balanced id cfg s i
  | work choice => exact work_balanced id h choice
  | stop => exact .of rfl (by simp [step, tally, stopsHold, StopCall.held]) (by simp [step])
  | stopStep i => exact stopStep_balanced id s i

/-! ## Runs -/

def acceptedAlong (outputs : List (Output α)) : List (WorkItem α) := outputs.flatMap Output.accepted

def settledAlong (outputs : List (Output α)) : List (WorkItem α × Outcome α) := outputs.flatMap Output.settled

/-- The promises of the items accepted along a run. -/
def acceptedIds (outputs : List (Output α)) : List Nat := (acceptedAlong outputs).map WorkItem.id

def settledIds (outputs : List (Output α)) : List Nat := (settledAlong outputs).map fun p => p.1.id

/-- An instance nobody has started, its input binding not written to. -/
def fresh (binding : Nat → α) : State α := { binding := binding }

theorem fresh_inv (f : Nat → List α → List α) (cfg : Config α) (binding : Nat → α) : Inv f cfg (fresh binding) where
  putting := by simp [fresh]
  queue := by simp [fresh]
  evicting := by simp [fresh]
  stops := by simp [fresh, stopsHold]
  closed := fun _ => rfl
  draining := by simp [fresh]
  unstarted := fun _ => rfl
  serving := trivial

/-- What a run has done with the items up to here. -/
structure Ledger (f : Nat → List α → List α) (cfg : Config α) (outputs : List (Output α)) (s : State α) : Prop where
  inv : Inv f cfg s
  answers : ∀ o ∈ outputs, Answers f cfg o
  accepted : ∀ item ∈ acceptedAlong outputs, item.settled = false
  held : ∀ id, gone id (settledAlong outputs) + tally id s = live id (acceptedAlong outputs)
  once : ∀ id, live id (acceptedAlong outputs) + live id s.putting ≤ if id < s.nextId then 1 else 0

theorem ledger_run (hf : RowWise f cfg.engine) (binding : Nat → α) (script : List (Event α)) :
    Ledger f cfg (Machine.exec (step cfg) (fresh binding) script).2 (Machine.exec (step cfg) (fresh binding) script).1 := by
  apply Machine.exec_induction (I := fun os s => Ledger f cfg os s)
  · exact ⟨fresh_inv f cfg binding, by simp, by simp [acceptedAlong],
      by simp [settledAlong, acceptedAlong, tally, fresh, stopsHold, heldBy], by simp [acceptedAlong, fresh]⟩
  · intro os s e h
    obtain ⟨hinv, hanswers⟩ := step_inv hf h.inv e
    have hacc : acceptedAlong (os ++ [(step cfg s e).2]) = acceptedAlong os ++ (step cfg s e).2.accepted := by
      simp [acceptedAlong]
    have hset : settledAlong (os ++ [(step cfg s e).2]) = settledAlong os ++ (step cfg s e).2.settled := by
      simp [settledAlong]
    refine ⟨hinv, ?_, ?_, ?_, ?_⟩
    · intro o ho
      rcases List.mem_append.mp ho with ho | ho
      · exact h.answers o ho
      · rw [List.mem_singleton.mp ho]
        exact hanswers
    · intro item hitem
      rw [hacc] at hitem
      rcases List.mem_append.mp hitem with hitem | hitem
      · exact h.accepted item hitem
      · exact hanswers.accepted item hitem
    · intro id
      have hstep := (step_balanced id h.inv e).held
      have hheld := h.held id
      rw [hacc, hset, gone_append, live_append]
      omega
    · intro id
      have hstep := (step_balanced id h.inv e).taken
      have hgrows := (step_balanced id h.inv e).grows
      have honce := h.once id
      rw [hacc, live_append]
      split at hstep
      · rename_i hnew
        rw [if_neg (by omega)] at honce
        rw [if_pos hnew.2]
        omega
      · split at honce
        · split <;> omega
        · split <;> omega

theorem Ledger.settled_perm {os : List (Output α)} (h : Ledger f cfg os s) :
    (acceptedIds os).Perm (settledIds os ++ s.pending.map WorkItem.id) := by
  rw [List.perm_iff_count]
  intro id
  have hpending : ∀ item ∈ s.pending, item.settled = false := by
    intro item hitem
    simpa using (List.mem_filter.mp hitem).2
  have hheld := h.held id
  rw [acceptedIds, live_eq_count h.accepted, List.count_append, live_eq_count hpending, live_pending, settledIds,
    List.count, List.countP_map]
  exact hheld.symm

theorem Ledger.accepted_nodup {os : List (Output α)} (h : Ledger f cfg os s) : (acceptedIds os).Nodup := by
  rw [List.nodup_iff_count_le_one]
  intro id
  have honce := h.once id
  rw [acceptedIds, live_eq_count h.accepted]
  split at honce <;> omega

theorem Ledger.settled_nodup {os : List (Output α)} (h : Ledger f cfg os s) : (settledIds os).Nodup :=
  (List.nodup_append.mp (h.settled_perm.nodup h.accepted_nodup)).1

/-- Everything accepted is settled just when nothing is pending. -/
theorem Ledger.all_settled_iff {os : List (Output α)} (h : Ledger f cfg os s) :
    (∀ id ∈ acceptedIds os, id ∈ settledIds os) ↔ s.pending = [] := by
  constructor
  · intro hall
    by_contra hne
    obtain ⟨item, hitem⟩ := List.exists_mem_of_ne_nil _ hne
    have hp : item.id ∈ s.pending.map WorkItem.id := List.mem_map_of_mem hitem
    have hsettled : item.id ∈ settledIds os := hall _ (h.settled_perm.mem_iff.mpr (List.mem_append_right _ hp))
    have hnodup := h.settled_perm.nodup h.accepted_nodup
    exact (List.nodup_append.mp hnodup).2.2 _ hsettled _ hp rfl
  · intro hnil id hid
    have hmem := h.settled_perm.mem_iff.mp hid
    simpa [hnil] using hmem

/-! ## A stop that returns -/

theorem put_returned (cfg : Config α) (s : State α) (i victim : Nat) (timedOut : Bool) :
    (s.put cfg i victim timedOut).2.returned = false := by
  unfold State.put
  dsimp only
  repeat' split
  all_goals rfl

/-- The worker accepts nothing and ends no `stop`, and no one opens a queue again. -/
theorem work_quiet (cfg : Config α) (s : State α) (choice : Choice) :
    (s.work cfg choice).2.returned = false ∧ (s.work cfg choice).2.accepted = [] ∧
      (s.closed = true → (s.work cfg choice).1.closed = true) := by
  unfold State.work State.loop
  dsimp only
  repeat' split
  all_goals first
    | exact ⟨rfl, rfl, id⟩
    | exact ⟨rfl, rfl, fun _ => rfl⟩

theorem returned_cases {e : Event α} (h : (step cfg s e).2.returned = true) :
    ∃ i, s.stops[i]? = some (.draining []) ∧ s.joined = true ∧
      (step cfg s e).1 = { s with stops := s.stops.eraseIdx i } := by
  cases e with
  | start =>
    rw [step, State.start] at h
    split at h <;> cases h
  | enqueue request now =>
    rw [step, State.enqueue] at h
    dsimp only at h
    by_cases hready : s.ready = true
    · rw [if_pos hready] at h
      cases h
    · rw [if_neg hready] at h
      cases h
  | put i victim timedOut => cases (put_returned cfg s i victim timedOut).symm.trans h
  | failEvicted i =>
    rw [step, State.failEvicted] at h
    split at h <;> cases h
  | work choice => cases (work_quiet cfg s choice).1.symm.trans h
  | stop => cases h
  | stopStep i =>
    rw [step, State.stopStep] at h
    split at h
    · cases h
    · cases h
    · cases h
    · cases h
    · cases h
    · rename_i hcall
      split at h
      · rename_i hjoined
        refine ⟨i, hcall, hjoined, ?_⟩
        rw [step, State.stopStep, hcall]
        simp [hjoined]
      · cases h

theorem stopsHold_eraseIdx : ∀ {stops : List (StopCall α)} {i : Nat} {call : StopCall α}, stops[i]? = some call →
    call.held = [] → stopsHold (stops.eraseIdx i) = stopsHold stops
  | c :: stops, 0, call, h, hheld => by
    cases h
    simp [stopsHold, hheld]
  | c :: stops, i + 1, call, h, hheld => by
    have ih : stopsHold (stops.eraseIdx i) = stopsHold stops := stopsHold_eraseIdx (by simpa using h) hheld
    simpa [stopsHold] using ih

/-- When a call of `stop` returns, only other callers can hold what is pending. -/
theorem returned_pending (hI : Inv f cfg s) {e : Event α} (h : (step cfg s e).2.returned = true) :
    (step cfg s e).1.closed = true ∧ (step cfg s e).1.pending = s.callersHold := by
  obtain ⟨i, hcall, hjoined, heq⟩ := returned_cases h
  have hclosed : s.closed = true := hI.draining _ (List.mem_of_getElem? hcall) [] rfl
  have hworker : heldBy s.worker = [] := by
    unfold State.joined at hjoined
    split at hjoined
    · rename_i hw
      rw [hw, heldBy]
    · rename_i hw
      rw [hw, heldBy]
    · cases hjoined
  have hstops := stopsHold_eraseIdx hcall rfl
  rw [heq]
  refine ⟨hclosed, ?_⟩
  unfold State.pending State.callersHold
  show (s.queue ++ (heldBy s.worker ++ (s.evicting ++ stopsHold (s.stops.eraseIdx i)))).filter _ = _
  rw [hI.closed hclosed, hworker, hstops, List.nil_append, List.nil_append]
  apply List.filter_eq_self.mpr
  intro item hitem
  rcases List.mem_append.mp hitem with hitem | hitem
  · simp [hI.evicting item hitem]
  · simp [hI.stops item hitem]

theorem closed_kept (hc : s.closed = true) (e : Event α) :
    (step cfg s e).1.closed = true ∧ (step cfg s e).2.accepted = [] := by
  cases e with
  | start =>
    rw [step, State.start]
    split <;> exact ⟨hc, rfl⟩
  | enqueue request now =>
    rw [step, State.enqueue]
    dsimp only
    by_cases hready : s.ready = true
    · rw [if_pos hready]
      exact ⟨hc, rfl⟩
    · rw [if_neg hready]
      exact ⟨hc, rfl⟩
  | put i victim timedOut =>
    rw [step, State.put]
    split
    · exact ⟨hc, rfl⟩
    · dsimp only
      rw [if_pos hc]
      exact ⟨hc, rfl⟩
  | failEvicted i =>
    rw [step, State.failEvicted]
    split <;> exact ⟨hc, rfl⟩
  | work choice => exact ⟨(work_quiet cfg s choice).2.2 hc, (work_quiet cfg s choice).2.1⟩
  | stop => exact ⟨hc, rfl⟩
  | stopStep i =>
    rw [step, State.stopStep]
    split
    · exact ⟨hc, rfl⟩
    · exact ⟨hc, rfl⟩
    · exact ⟨hc, rfl⟩
    · exact ⟨rfl, rfl⟩
    · exact ⟨hc, rfl⟩
    · split <;> exact ⟨hc, rfl⟩

theorem pending_eq_nil_iff : s.pending = [] ↔ ∀ id, tally id s = 0 := by
  constructor
  · intro h id
    rw [← live_pending, h, live_nil]
  · intro h
    by_contra hne
    obtain ⟨item, hitem⟩ := List.exists_mem_of_ne_nil _ hne
    have hzero := h item.id
    rw [← live_pending, live, List.countP_eq_zero] at hzero
    have hunsettled : (!item.settled) = true := (List.mem_filter.mp hitem).2
    exact hzero item hitem (by simp [hunsettled])

/-- With the queue closed and nothing pending, nothing comes in again. -/
theorem settled_for_good (hf : RowWise f cfg.engine) : ∀ (script : List (Event α)) {s : State α}, Inv f cfg s →
    s.closed = true → s.pending = [] → (Machine.exec (step cfg) s script).1.pending = []
  | [], _, _, _, hp => hp
  | e :: script, s, hI, hc, hp => by
    obtain ⟨hclosed, haccepted⟩ : (step cfg s e).1.closed = true ∧ (step cfg s e).2.accepted = [] := closed_kept hc e
    apply settled_for_good hf script (step_inv hf hI e).1 hclosed
    rw [pending_eq_nil_iff] at hp ⊢
    intro id
    have hstep := (step_balanced id hI e).held
    have hzero := hp id
    rw [haccepted, live_nil] at hstep
    omega

/-- Every accepted item is settled once. When a call of `stop` returns, all that was
accepted is settled just when no other caller of `enqueue` or `stop` holds an item it
took out of the queue, and then all stays so. A completed request got its own rows, as
many as it has, just when it has any. -/
theorem answers_once (cfg : Config α) (f : Nat → List α → List α) (hf : RowWise f cfg.engine) (binding : Nat → α)
    (script : List (Event α)) :
    let run := Machine.exec (step cfg) (fresh binding)
    (settledIds (run script).2).Nodup ∧
      (acceptedIds (run script).2).Perm (settledIds (run script).2 ++ (run script).1.pending.map WorkItem.id) ∧
      (∀ before e after, script = before ++ e :: after → (step cfg (run before).1 e).2.returned = true →
        ((∀ id ∈ acceptedIds (run (before ++ [e])).2, id ∈ settledIds (run (before ++ [e])).2) ↔
          (run before).1.callersHold = []) ∧
        ((run before).1.callersHold = [] → ∀ id ∈ acceptedIds (run script).2, id ∈ settledIds (run script).2)) ∧
      ∀ item response, (item, Outcome.completed response) ∈ settledAlong (run script).2 →
        (OwnRows f cfg.engine item.request response ↔ item.request.rows ≠ 0) := by
  intro run
  have hledger : ∀ is, Ledger f cfg (run is).2 (run is).1 := ledger_run hf binding
  refine ⟨(hledger script).settled_nodup, (hledger script).settled_perm, ?_, ?_⟩
  · intro before e after hscript hreturned
    have hI := (hledger before).inv
    obtain ⟨hclosed, hpending⟩ := returned_pending hI hreturned
    have hsnoc : (run (before ++ [e])).1 = (step cfg (run before).1 e).1 := by
      show (Machine.exec _ _ _).1 = _
      rw [Machine.exec_append]
      rfl
    have hall := (hledger (before ++ [e])).all_settled_iff
    rw [hsnoc, hpending] at hall
    refine ⟨hall, ?_⟩
    intro hhold
    rw [(hledger script).all_settled_iff, hscript, List.append_cons]
    show (Machine.exec (step cfg) (fresh binding) (before ++ [e] ++ after)).1.pending = []
    rw [Machine.exec_append]
    apply settled_for_good hf after
    · exact (hledger (before ++ [e])).inv
    · show (run (before ++ [e])).1.closed = true
      rw [hsnoc]
      exact hclosed
    · show (run (before ++ [e])).1.pending = []
      rw [hsnoc, hpending, hhold]
  · intro item response hmem
    obtain ⟨o, ho, hmem⟩ := List.mem_flatMap.mp hmem
    obtain ⟨hrows, houtputs⟩ := ((hledger script).answers o ho).own item response hmem
    constructor
    · rintro ⟨hown, _⟩ hzero
      have hpos := item.rows_pos
      omega
    · intro hne
      have hr : item.rows = item.request.rows := if_neg hne
      rw [hr] at hrows houtputs
      exact ⟨hrows, houtputs⟩

/-! ## What goes wrong -/

/-- One request is answered, a second is still queued when `stop` comes. -/
def morning : List (Event Nat) :=
  [.start, .work {}, .enqueue (cropRequest [1, 2, 3, 4] 2) 10, .put 0 0 false, .work { picks := [(0, false)] },
    .work {}, .work {}, .work {}, .work {}, .work {}, .enqueue (cropRequest [5, 6] 1) 20, .put 0 0 false, .stop,
    .stopStep 0, .stopStep 0, .stopStep 0, .stopStep 0, .work {}, .work {}, .work {}]

theorem morning_answers_once :
    (settledIds (Machine.exec (step scoring) (fresh fun _ => 0) (morning ++ [.stopStep 0])).2).Nodup ∧
      ∀ id ∈ acceptedIds (Machine.exec (step scoring) (fresh fun _ => 0) (morning ++ [.stopStep 0])).2,
        id ∈ settledIds (Machine.exec (step scoring) (fresh fun _ => 0) (morning ++ [.stopStep 0])).2 := by
  have h := answers_once scoring scorerRow scorer_rowWise (fun _ => 0) (morning ++ [.stopStep 0])
  exact ⟨h.1, (h.2.2.1 morning (.stopStep 0) [] rfl rfl).2 rfl⟩

/-- A request without rows is answered with one. -/
def rowless : List (Event Nat) :=
  [.start, .work {}, .enqueue (cropRequest [] 0) 10, .put 0 0 false, .work { picks := [(0, false)] },
    .work {}, .work {}, .work {}, .work {}]

/-- `stop` returns between an eviction and the failure of what was evicted. -/
def evicted : List (Event Nat) :=
  [.start, .work {}, .enqueue (cropRequest [1, 2] 1) 10, .put 0 0 false, .enqueue (cropRequest [3, 4] 1) 20,
    .put 0 0 false, .stop, .stopStep 0, .stopStep 0, .stopStep 0, .stopStep 0, .work {}, .work {}, .work {}]

theorem stop_and_rowless_fail :
    (∃ item response, (item, Outcome.completed response) ∈
        settledAlong (Machine.exec (step scoring) (fresh fun _ => 0) rowless).2 ∧
        ¬OwnRows scorerRow scorer item.request response) ∧
      (step scoring (Machine.exec (step scoring) (fresh fun _ => 0) evicted).1 (.stopStep 0)).2.returned = true ∧
        ∃ id ∈ acceptedIds (Machine.exec (step scoring) (fresh fun _ => 0) (evicted ++ [.stopStep 0])).2,
          id ∉ settledIds (Machine.exec (step scoring) (fresh fun _ => 0) (evicted ++ [.stopStep 0])).2 := by
  refine ⟨⟨_, _, List.mem_singleton_self _, ?_⟩, rfl, 0, ?_, ?_⟩
  · rintro ⟨hrows, _⟩
    exact absurd hrows (by decide)
  · decide
  · decide

end ShipInfer.Plane
