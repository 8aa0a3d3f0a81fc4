import Mathlib.Algebra.Order.BigOperators.Group.Finset
import Mathlib.Data.Fintype.Basic
import ShipInfer.Barrier.Safety

/-!
# The permits and the parked callers

A permit is taken where a caller parks and given back where it is unparked, and
nowhere else: over all barriers of a budget, as many callers are parked as
permits are out. A parked caller is answered at the first wake-up after its
instant was sealed, resolved or out of time.
-/

namespace ShipInfer.Barrier

variable {Camera Payload Results : Type}

namespace State

/-- The parked callers, as listed and as counted. -/
def calls (s : State Camera Payload Results) : List (Waiter Camera Payload Results) × Nat := (s.parked, s.waiters)

section
variable (s : State Camera Payload Results) (cfg : Config)

@[simp] theorem calls_missed (r : Reason) (i : Nat) : (s.missed r i).1.calls = s.calls := rfl

@[simp] theorem calls_modify (i : Nat) (f : Bucket Camera Payload Results → Bucket Camera Payload Results) :
    (s.modify i f).calls = s.calls := rfl

@[simp] theorem calls_endBucket (b : Bucket Camera Payload Results) (r : Reason) (res : Option Results) :
    (s.endBucket b r res).calls = s.calls := rfl

@[simp] theorem calls_close (b : Bucket Camera Payload Results) (r : Reason)
    (associate : Associate Camera Payload Results) : (s.close b r associate).1.calls = s.calls := by
  unfold close
  cases associate b.entries <;> simp only [calls_endBucket] <;> rfl

@[simp] theorem calls_discard (reason : Bucket Camera Payload Results → Reason) :
    ∀ (bs : List (Bucket Camera Payload Results)) (s : State Camera Payload Results),
      (s.discard reason bs).calls = s.calls
  | [], _ => rfl
  | b :: bs, s => by rw [discard, calls_discard reason bs, calls_endBucket]

@[simp] theorem calls_retire (now : ℚ) : (s.retire now).calls = s.calls := by
  unfold retire
  split
  · rfl
  · split
    · rfl
    · simp only [calls_discard]

@[simp] theorem calls_openInstant (captureS now : ℚ) : (openInstant cfg s captureS now).1.calls = s.calls := by
  show s.evict.calls = s.calls
  simp only [evict, calls_discard]

@[simp] theorem calls_closeAll (r : Reason) : (s.closeAll r).calls = s.calls := by
  simp only [closeAll, calls_discard]; rfl

variable [DecidableEq Camera]

@[simp] theorem calls_refreshLive : (refreshLive cfg s).calls = s.calls := by
  unfold refreshLive
  dsimp only
  by_cases hc : cfg.configuredMaxInstants.isSome = true
  · rw [if_pos hc]; rfl
  · rw [if_neg hc]; rfl

@[simp] theorem calls_cameraAdded (cameraId : Camera) : (s.cameraAdded cfg cameraId).calls = s.calls := by
  simp only [cameraAdded, calls_refreshLive]; rfl

@[simp] theorem calls_dropCamera (cameraId : Camera) : (s.dropCamera cfg cameraId).calls = s.calls := by
  show (refreshLive cfg _).calls = s.calls
  rw [calls_refreshLive]; rfl

@[simp] theorem calls_see (cameraId : Camera) : (s.see cfg cameraId).calls = s.calls := by
  unfold see
  split
  · rfl
  · rw [calls_refreshLive]; rfl

@[simp] theorem calls_checkBackward (call : Call Camera Payload Results) :
    (checkBackward cfg s call).1.calls = s.calls := by
  unfold checkBackward
  split
  · rfl
  · split
    · dsimp only
      split <;> rfl
    · rfl

theorem calls_place (call : Call Camera Payload Results) (now : ℚ) :
    match place cfg s call now with
    | .error r => r.1.calls = s.calls
    | .ok r => r.1.calls = s.calls := by
  unfold place
  cases hm : matchOpen cfg s call.captureS with
  | none =>
    cases hl : lateInstant s call.captureS with
    | some late => rfl
    | none => exact calls_openInstant s cfg call.captureS now
  | some b =>
    dsimp only
    cases hr : b.reported.get? call.cameraId with
    | none => rfl
    | some reported =>
      dsimp only
      by_cases hc : call.captureS ≤ reported
      · rw [if_pos hc]; rfl
      · rw [if_neg hc]
        simp only [calls_openInstant, calls_modify]

@[simp] theorem calls_joinBucket (call : Call Camera Payload Results) (newest : Option ℚ) (i : Nat) :
    (s.joinBucket call newest i).calls = s.calls := rfl

end

/-- A critical section and the budget: the callers parked here change as the
permits that are out, and the budget is never over-released. -/
structure Paid (s : State Camera Payload Results) (budget : WaiterBudget)
    (r : State Camera Payload Results × WaiterBudget × Option (Call Camera Payload Results × Answer Results)) :
    Prop where
  balanced : r.2.1.Balanced
  permits : r.2.1.permits = budget.permits
  held : r.2.1.held + s.parked.length = budget.held + r.1.parked.length
  counted : r.1.waiters = r.1.parked.length
  paid : ∀ call, r.2.2 ≠ some (call, .overReleased)

section
variable {cfg : Config} {s : State Camera Payload Results} {budget : WaiterBudget}

/-- A critical section that parks and unparks nobody. -/
theorem Paid.of_calls (hb : budget.Balanced) (hw : s.waiters = s.parked.length)
    {r : State Camera Payload Results × WaiterBudget × Option (Call Camera Payload Results × Answer Results)}
    (hc : r.1.calls = s.calls) (he : r.2.1 = budget) (hr : ∀ call, r.2.2 ≠ some (call, .overReleased)) :
    Paid s budget r := by
  simp only [calls, Prod.mk.injEq] at hc
  exact ⟨he ▸ hb, by rw [he], by rw [hc.1, he], by rw [hc.1, hc.2, hw], hr⟩

theorem close_answer (s : State Camera Payload Results) (b : Bucket Camera Payload Results) (r : Reason)
    (associate : Associate Camera Payload Results) : (s.close b r associate).2 ≠ .overReleased := by
  unfold close
  cases associate b.entries <;> simp

theorem wake_paid (hb : budget.Balanced) (hw : s.waiters = s.parked.length) (hh : s.parked.length ≤ budget.held)
    (ticket : Nat) : Paid s budget (s.wake budget ticket) := by
  unfold wake
  split
  · exact .of_calls hb hw rfl rfl fun _ h => by cases h
  rename_i w hf
  split
  · exact .of_calls hb hw rfl rfl fun _ h => by cases h
  rename_i b hbk
  split
  · exact .of_calls hb hw rfl rfl fun _ h => by cases h
  -- the permit taken when `w` parked is out, so it can be given back
  have hmem := List.mem_of_find?_eq_some hf
  have hlen : (s.unpark w).parked.length = s.parked.length - 1 :=
    List.length_eraseP_of_mem hmem (decide_eq_true rfl)
  have hpos := List.length_pos_of_mem hmem
  obtain ⟨budget', hrel, hbal, hheld, hperm⟩ := WaiterBudget.release_of_held hb (by omega)
  have key : ∀ {t : State Camera Payload Results} {reply}, t.calls = (s.unpark w).calls →
      (∀ call, reply ≠ some (call, Answer.overReleased)) → Paid s budget (t, budget', reply) := by
    intro t reply ht hr
    simp only [calls, Prod.mk.injEq] at ht
    refine ⟨hbal, hperm, ?_, ?_, hr⟩
    · show budget'.held + s.parked.length = budget.held + t.parked.length
      rw [ht.1, hlen]; omega
    · rw [ht.1, ht.2, hlen]
      show s.waiters - 1 = _
      rw [hw]
  dsimp only
  rw [hrel]
  dsimp only
  split
  · exact key rfl (by simp)
  split
  · refine key (calls_close _ _ _ _) fun call h => ?_
    simp only [Option.some.injEq, Prod.mk.injEq] at h
    exact close_answer _ _ _ _ h.2
  · exact key rfl (by simp)

variable [DecidableEq Camera] (cfg)

theorem submit_paid (hb : budget.Balanced) (hw : s.waiters = s.parked.length) (call : Call Camera Payload Results) :
    Paid s budget (s.submit cfg budget call) := by
  unfold submit
  by_cases hc : s.closed = true
  · rw [if_pos hc]; exact .of_calls hb hw rfl rfl fun _ h => by cases h
  rw [if_neg hc]
  dsimp only
  have hq : (checkBackward cfg ((s.retire s.clock).see cfg call.cameraId) call).1.calls = s.calls := by simp
  rcases hk : checkBackward cfg ((s.retire s.clock).see cfg call.cameraId) call with ⟨t, newest⟩
  rw [hk] at hq
  cases newest with
  | none => exact .of_calls hb hw hq rfl fun _ h => by cases h
  | some newest =>
    dsimp only at hq ⊢
    have hp := calls_place t cfg call s.clock
    rcases hpl : place cfg t call s.clock with r | r
    · rw [hpl] at hp
      exact .of_calls hb hw (hp.trans hq) rfl fun _ h => by cases h
    · rw [hpl] at hp
      have hj : (r.1.joinBucket call newest r.2.instant).calls = s.calls := hp.trans hq
      dsimp only
      split
      · refine .of_calls hb hw ((calls_close _ _ _ _).trans hj) rfl fun c h => ?_
        simp only [Option.some.injEq, Prod.mk.injEq] at h
        exact close_answer _ _ _ _ h.2
      · simp only [calls, Prod.mk.injEq] at hj
        split
        · rename_i budget' ha
          rw [WaiterBudget.acquire_false ha]
          exact .of_calls hb hw (Prod.ext hj.1 hj.2) rfl fun _ h => by cases h
        · rename_i budget' ha
          obtain ⟨hbal, hheld, hperm⟩ := WaiterBudget.acquire_true ha hb
          refine ⟨hbal, hperm, ?_, ?_, by simp⟩
          · show budget'.held + s.parked.length = budget.held + (_ ++ [_]).length
            rw [List.length_append, List.length_singleton]
            show budget'.held + s.parked.length = budget.held + (r.1.joinBucket call newest r.2.instant).parked.length.succ
            rw [hj.1]; omega
          · show (r.1.joinBucket call newest r.2.instant).waiters + 1 = (_ ++ [_]).length
            rw [List.length_append, List.length_singleton, hj.2, hw]
            show s.parked.length + 1 = (r.1.joinBucket call newest r.2.instant).parked.length + 1
            rw [hj.1]

theorem step_paid (hb : budget.Balanced) (hw : s.waiters = s.parked.length) (hh : s.parked.length ≤ budget.held)
    (i : Input Camera Payload Results) : Paid s budget (s.step cfg budget i) := by
  cases i with
  | submit call => exact submit_paid cfg hb hw call
  | wake ticket => exact wake_paid hb hw hh ticket
  | cameraAdded cameraId => exact .of_calls hb hw (calls_cameraAdded s cfg cameraId) rfl fun _ h => by cases h
  | dropCamera cameraId => exact .of_calls hb hw (calls_dropCamera s cfg cameraId) rfl fun _ h => by cases h
  | advance elapsed => exact .of_calls hb hw rfl rfl fun _ h => by cases h
  | closeAll reason => exact .of_calls hb hw (calls_closeAll s reason) rfl fun _ h => by cases h

end

/-- A parked caller waits only for an instant that is open, unsealed and inside its window. -/
theorem wake_answers {cfg : Config} {s : State Camera Payload Results} (h : s.Inv cfg) (budget : WaiterBudget)
    {w : Waiter Camera Payload Results} (hw : s.parked.find? (fun v => decide (v.ticket = w.ticket)) = some w)
    {b : Bucket Camera Payload Results} (hb : b ∈ s.all) (hi : b.instant = w.instant)
    (hready : b.done = true ∨ b.ready = true ∨ b.deadline ≤ s.clock) :
    ∃ a, (s.wake budget w.ticket).2.2 = some (w.call, a) := by
  have hfind : s.all.find? (fun c => decide (c.instant = w.instant)) = some b := by
    obtain ⟨c, hc⟩ : ∃ c, s.all.find? (fun c => decide (c.instant = w.instant)) = some c :=
      Option.isSome_iff_exists.mp (List.find?_isSome.mpr ⟨b, hb, decide_eq_true hi⟩)
    have hci : c.instant = w.instant := by simpa using List.find?_some hc
    rw [hc, h.unique (List.mem_of_find?_eq_some hc) hb (hci.trans hi.symm)]
  unfold wake
  rw [hw]
  dsimp only
  rw [hfind]
  dsimp only
  rw [if_neg (by
    rintro ⟨hf, hd⟩
    simp only [Bool.or_eq_false_iff] at hf
    rcases hready with h₁ | h₁ | h₁
    · rw [hf.1] at h₁; cases h₁
    · rw [hf.2] at h₁; cases h₁
    · linarith)]
  split
  · exact ⟨_, rfl⟩
  split
  · exact ⟨_, rfl⟩
  split <;> exact ⟨_, rfl⟩

end State

/-! ## Over all barriers -/

section
variable {ι : Type} [Fintype ι] [DecidableEq ι] [DecidableEq Camera] {cfg : ι → Config} {permits : Int}

/-- The invariant of the permits. -/
structure System.Paid (permits : Int) (y : System ι Camera Payload Results) : Prop where
  balanced : y.budget.Balanced
  permits : (y.budget.permits : Int) = permits
  counted : ∀ i, (y.barriers i).waiters = (y.barriers i).parked.length
  held : ∑ i, (y.barriers i).parked.length = y.budget.held

theorem System.Paid.step {y z : System ι Camera Payload Results}
    {l : (ι × Input Camera Payload Results) × Option (Call Camera Payload Results × Answer Results)}
    (h : y.Paid permits) (hs : (system cfg permits).step y l z) :
    z.Paid permits ∧ ∀ call, l.2 ≠ some (call, .overReleased) := by
  obtain ⟨⟨i, input⟩, reply⟩ := l
  obtain ⟨hi, hne, hb, hr⟩ := system_step hs
  have hle : (y.barriers i).parked.length ≤ y.budget.held := by
    rw [← h.held]
    exact Finset.single_le_sum (f := fun j => (y.barriers j).parked.length) (fun _ _ => Nat.zero_le _) (Finset.mem_univ i)
  have hp := State.step_paid (cfg i) h.balanced (h.counted i) hle input
  rw [hr]
  refine ⟨⟨hb ▸ hp.balanced, ?_, fun j => ?_, ?_⟩, hp.paid⟩
  · rw [hb, hp.permits, h.permits]
  · by_cases hj : j = i
    · rw [hj, hi]; exact hp.counted
    · rw [hne j hj]; exact h.counted j
  · have hrest : ∑ j ∈ Finset.univ.erase i, (z.barriers j).parked.length =
        ∑ j ∈ Finset.univ.erase i, (y.barriers j).parked.length :=
      Finset.sum_congr rfl fun j hj => by rw [hne j (Finset.ne_of_mem_erase hj)]
    have hy := Finset.sum_erase_add Finset.univ (fun j => (y.barriers j).parked.length) (Finset.mem_univ i)
    have hz := Finset.sum_erase_add Finset.univ (fun j => (z.barriers j).parked.length) (Finset.mem_univ i)
    have hh := hp.held
    have hheld := h.held
    rw [← hi] at hh
    rw [hb]
    omega

theorem System.reachable_paid {y : System ι Camera Payload Results} (h : (system cfg permits).Reachable y) :
    y.Paid permits := by
  refine h.invariant (fun y hy => ?_) fun y l z hy hs => (hy.step hs).1
  obtain ⟨hbal, hheld⟩ := WaiterBudget.new_balanced hy.1.symm
  have hnone : ∀ i, (y.barriers i).parked = [] ∧ (y.barriers i).waiters = 0 := by
    intro i
    obtain ⟨clock, hc⟩ := hy.2 i
    rw [hc]; exact ⟨rfl, rfl⟩
  refine ⟨hbal, WaiterBudget.new_permits hy.1.symm, fun i => ?_, ?_⟩
  · rw [(hnone i).1, (hnone i).2]; rfl
  · rw [hheld]
    exact Finset.sum_eq_zero fun i _ => by rw [(hnone i).1]; rfl

/-- **The barrier never starves its callers.** In every state any barriers on
one budget reach, the parked callers are as many as the permits that are out, no
more than the budget has; with nobody parked every permit is back; and no exit
gives back a permit it does not hold. -/
theorem barrier_never_starves {y : System ι Camera Payload Results} (hy : (system cfg permits).Reachable y) :
    (∑ i, (y.barriers i).waiters = y.budget.held ∧ ∀ i, (y.barriers i).waiters = (y.barriers i).parked.length) ∧
      (y.budget.held : Int) ≤ permits ∧ (y.budget.semaphore + y.budget.held : Int) = permits ∧
      ((∀ i, (y.barriers i).parked = []) → y.budget.held = 0 ∧ (y.budget.semaphore : Int) = permits) ∧
      ∀ l z, (system cfg permits).step y l z → ∀ call, l.2 ≠ some (call, .overReleased) := by
  have h := System.reachable_paid hy
  have hbal := h.balanced
  have hperm := h.permits
  unfold WaiterBudget.Balanced at hbal
  refine ⟨⟨?_, h.counted⟩, by omega, by omega, fun hnone => ?_, fun l z hs => (h.step hs).2⟩
  · rw [← h.held]
    exact Finset.sum_congr rfl fun i _ => h.counted i
  · have hzero : y.budget.held = 0 := by
      rw [← h.held]
      exact Finset.sum_eq_zero fun i _ => by rw [hnone i]; rfl
    exact ⟨hzero, by omega⟩

theorem pair_never_starves :
    let y := (Machine.exec (System.run fun _ : Bool => pairConfig) pairStart pairScript).1
    (∑ i, (y.barriers i).waiters = y.budget.held ∧ ∀ i, (y.barriers i).waiters = (y.barriers i).parked.length) ∧
      (y.budget.held : Int) ≤ 1 ∧ (y.budget.semaphore + y.budget.held : Int) = 1 ∧
      ((∀ i, (y.barriers i).parked = []) → y.budget.held = 0 ∧ (y.budget.semaphore : Int) = 1) ∧
      ∀ l z, (system (fun _ : Bool => pairConfig) 1).step y l z → ∀ call, l.2 ≠ some (call, .overReleased) :=
  barrier_never_starves (Machine.reachable_exec pairScript (.init pairStart_init))

end

end ShipInfer.Barrier
