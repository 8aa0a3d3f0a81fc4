import ShipInfer.Queue.Order

/-!
# Whom a full queue evicts

The victim is the oldest item of a longest key of the last lane that holds any, so
of a priority no higher than anything queued. Than the incoming item's it may well
be higher: when all that is queued outranks the newcomer, a newcomer of the lowest
priority displaces an item of the highest.
-/

namespace ShipInfer.Queue.FairPriorityQueue

variable {cfg : Config}

theorem closed_empty (cfg : Config) (events : List Event) :
    (run cfg {} events).1.closed = true → (run cfg {} events).1.items = [] := by
  have hstep : ∀ (_ : List Output) (s : FairPriorityQueue) (e : Event), s.Inv cfg ∧ (s.closed = true → s.items = []) →
      (s.step cfg e).1.Inv cfg ∧ ((s.step cfg e).1.closed = true → (s.step cfg e).1.items = []) := by
    intro _ s e h
    exact ⟨(h.1.step e).inv, (closed_step h.1 h.2 e).1⟩
  exact (Machine.exec_induction (I := fun (_ : List Output) (s : FairPriorityQueue) => s.Inv cfg ∧ (s.closed = true → s.items = []))
    ⟨inv_empty cfg, fun _ => rfl⟩ hstep events).2

/-- **Eviction.** A full queue that drops the oldest takes the newcomer and evicts
the oldest item of a longest key of its lane; the victim does not outrank the
newcomer just when something in the queue does not. -/
theorem eviction_respects_priority (cfg : Config) (hpolicy : cfg.overflow = .dropOldest) (events : List Event)
    (item : WorkItem) (clock : Clock) (hfull : cfg.capacity ≤ (run cfg {} events).1.size) :
    let s := (run cfg {} events).1
    ∃ victim, (s.put cfg item clock).2.evicted = [victim] ∧ (s.put cfg item clock).2.accepted = [item.stamped] ∧
      OldestOfLongest (s.lanes.getD victim.request.priority.level {}) victim ∧
      (¬victim.request.priority.level < item.request.priority.level ↔
        ∃ other ∈ s.items, ¬other.request.priority.level < item.request.priority.level) := by
  intro s
  have hrun : Ordered cfg (run cfg {} events).2 s := ordered_run cfg events
  have hpos := cfg.capacity_pos
  have hsize : s.size = s.items.length := hrun.inv.size
  have hfull : cfg.capacity ≤ s.size := hfull
  have hopen : ¬s.closed = true := by
    intro hclosed
    rw [closed_empty cfg events hclosed] at hsize
    simp only [List.length_nil] at hsize
    omega
  cases evictLowest_spec hrun.inv.rep with
  | inl hnone =>
    have hempty : s.items = [] := hnone.2
    rw [hempty, List.length_nil] at hsize
    omega
  | inr hsome =>
    obtain ⟨victim, lanes, hvictim, -, -, hperm⟩ := hsome
    have hevicts := evictLowest_evicts hrun.inv.rep hrun.placed hvictim
    have hput : s.put cfg item clock = s.dropOldest cfg item := by
      rw [FairPriorityQueue.put, if_neg hopen, if_neg (by omega), hpolicy]
    refine ⟨victim, ?_, ?_, hevicts.longest, fun h => ?_, fun h => ?_⟩
    · rw [hput, FairPriorityQueue.dropOldest, hvictim]
      rfl
    · rw [hput, FairPriorityQueue.dropOldest, hvictim]
      rfl
    · exact ⟨victim, hperm.symm.subset List.mem_cons_self, h⟩
    · obtain ⟨other, hother, hle⟩ := h
      have hlowest : other.request.priority.level ≤ victim.request.priority.level := hevicts.lowest other hother
      omega

section
variable (camera : String) (id : Int) (priority : Priority)

/-- A queue of one place, and frames for it. -/
def tight : Config := { name := "detect", capacity := 1, overflow := .dropOldest, capacity_pos := Nat.zero_lt_one }

def frame : WorkItem :=
  { request :=
      { modelName := "detect", inputs := .empty, requestId := id, context := { cameraId := camera, frameId := id }
        priority := priority } }

end

/-- A newcomer displaces an item that it does not outrank. -/
theorem normal_displaces_background :
    ∃ victim, ((run tight {} [.put (frame "quay" 1 .background) ⟨0, 0, 0⟩]).1.put tight (frame "mast" 2 .normal)
      ⟨0, 0, 0⟩).2.evicted = [victim] ∧ ¬victim.request.priority.level < Priority.normal.level := by
  obtain ⟨victim, hvictim, -, -, hiff⟩ := eviction_respects_priority tight rfl
    [.put (frame "quay" 1 .background) ⟨0, 0, 0⟩] (frame "mast" 2 .normal) ⟨0, 0, 0⟩ (by decide)
  exact ⟨victim, hvictim, hiff.mpr ⟨(frame "quay" 1 .background).stamped, by decide, by decide⟩⟩

/-- A queue full of tracking work loses it to background work. -/
theorem background_displaces_tracking :
    ¬∀ (cfg : Config) (events : List Event) (item : WorkItem) (clock : Clock), cfg.overflow = .dropOldest →
      cfg.capacity ≤ (run cfg {} events).1.size →
        ∀ victim ∈ ((run cfg {} events).1.put cfg item clock).2.evicted,
          ¬victim.request.priority.level < item.request.priority.level := by
  intro h
  exact h tight [.put (frame "quay" 1 .trackingCritical) ⟨0, 0, 0⟩] (frame "mast" 2 .background) ⟨0, 0, 0⟩ rfl
    (by decide) (frame "quay" 1 .trackingCritical).stamped (by decide) (by decide)

end ShipInfer.Queue.FairPriorityQueue
