import Mathlib.Data.List.Perm.Subperm
import ShipInfer.Queue.Conservation
import ShipInfer.Scheduling.Dispatcher

/-!
# Dispatch by one caller

`Dispatcher.dispatch` of `scheduling/dispatcher.py` and of `scheduling/dispatcher.h`, over
any policy and any queues. The world that queues, policy and other threads live in is a
parameter, so an answer may depend on all that went on before it.
-/

namespace ShipInfer.Scheduling

/-- What `enqueue` does with the item: it takes it, refuses it (`QueueFullError`,
`RequestCancelledError`, or `Rejected` and `Closed`), or raises something else. -/
inductive Put
  | accepted
  | full (queue : String) (depth capacity : Nat)
  | closed (queue : String)
  | raised (error : String)
  deriving DecidableEq

def Put.Refuses : Put → Prop
  | .full _ _ _ | .closed _ => True
  | .accepted | .raised _ => False

theorem Put.full_refuses {queue : String} {depth capacity : Nat} : (Put.full queue depth capacity).Refuses := trivial

theorem Put.closed_refuses {queue : String} : (Put.closed queue).Refuses := trivial

def Put.isFull : Put → Bool
  | .full _ _ _ => true
  | _ => false

def Put.isClosed : Put → Bool
  | .closed _ => true
  | _ => false

inductive DispatchError
  /-- Nothing is ready. -/
  | notReady (model : String)
  | full (queue : String) (depth capacity : Nat)
  | closed (queue : String)
  | other (error : String)
  /-- Of the C++ plane: every ready instance closed. -/
  | stopping (model : String) (ready : Nat)
  /-- Of the C++ plane: the pool's depth and capacity. -/
  | saturated (model : String) (ready depth capacity : Nat)
  deriving DecidableEq

inductive Outcome (ι : Type)
  | placed (instance_ : ι) (attempts : Nat) (spilled : Bool)
  | failed (error : DispatchError)
  deriving DecidableEq

/-- The instances tried with what each answered, and how the call ends. -/
structure Dispatch (ι σ : Type) where
  tried : List (ι × Put)
  outcome : Outcome ι
  world : σ

variable {ι σ : Type}

/-- One more instance tried before. -/
def Dispatch.after (i : ι) (answer : Put) (r : Dispatch ι σ) : Dispatch ι σ :=
  { r with tried := (i, answer) :: r.tried }

/-- The instances of a model are objects of their own. -/
structure Pool (ι σ : Type) where
  model : String
  instances : List ι
  distinct : instances.Nodup
  isReady : σ → ι → Bool
  depth : σ → ι → Nat
  capacity : σ → ι → Nat
  enqueue : σ → ι → Put × σ

/-- One of the candidates, which are never none. -/
structure Policy (ι σ : Type) where
  select : σ → List ι → ι × σ
  select_mem : ∀ s candidates, candidates ≠ [] → (select s candidates).1 ∈ candidates

namespace Pool

variable [DecidableEq ι] (pool : Pool ι σ) (policy : Policy ι σ)

def readyInstances (s : σ) : List ι := pool.instances.filter (pool.isReady s)

/-! ## The Python plane -/

/-- The spill loop: only a full queue leads to the next. -/
def spill : Nat → DispatchError → σ → List ι → Dispatch ι σ
  | _, lastError, s, [] => { tried := [], outcome := .failed lastError, world := s }
  | attempt, _, s, candidate :: remaining =>
    match pool.enqueue s candidate with
    | (.accepted, s) => { tried := [(candidate, .accepted)], outcome := .placed candidate attempt true, world := s }
    | (.full queue depth capacity, s) =>
      (spill (attempt + 1) (.full queue depth capacity) s remaining).after candidate (.full queue depth capacity)
    | (.closed queue, s) => { tried := [(candidate, .closed queue)], outcome := .failed (.closed queue), world := s }
    | (.raised error, s) => { tried := [(candidate, .raised error)], outcome := .failed (.other error), world := s }

def dispatch (s : σ) : Dispatch ι σ :=
  let ready := pool.readyInstances s
  if ready = [] then { tried := [], outcome := .failed (.notReady pool.model), world := s }
  else
    let chosen := policy.select s ready
    match pool.enqueue chosen.2 chosen.1 with
    | (.accepted, s) => { tried := [(chosen.1, .accepted)], outcome := .placed chosen.1 1 false, world := s }
    | (.full queue depth capacity, s) =>
      (pool.spill 2 (.full queue depth capacity) s (State.spillOrder ready chosen.1 (pool.depth s))).after chosen.1
        (.full queue depth capacity)
    | (.closed queue, s) => { tried := [(chosen.1, .closed queue)], outcome := .failed (.closed queue), world := s }
    | (.raised error, s) => { tried := [(chosen.1, .raised error)], outcome := .failed (.other error), world := s }

/-! ## The C++ plane -/

/-- The pool closed, or is full. -/
def refused (ready : List ι) (closed : Nat) (s : σ) : DispatchError :=
  if closed = ready.length then .stopping pool.model ready.length
  else .saturated pool.model ready.length (ready.map (pool.depth s)).sum (ready.map (pool.capacity s)).sum

/-- The spill loop of the C++ plane, with the count of closed instances. -/
def cppSpill (ready : List ι) : Nat → Nat → σ → List ι → Dispatch ι σ
  | _, closed, s, [] => { tried := [], outcome := .failed (pool.refused ready closed s), world := s }
  | attempt, closed, s, candidate :: remaining =>
    match pool.enqueue s candidate with
    | (.accepted, s) => { tried := [(candidate, .accepted)], outcome := .placed candidate attempt true, world := s }
    | (.full queue depth capacity, s) =>
      (cppSpill ready (attempt + 1) closed s remaining).after candidate (.full queue depth capacity)
    | (.closed queue, s) => (cppSpill ready (attempt + 1) (closed + 1) s remaining).after candidate (.closed queue)
    | (.raised error, s) => { tried := [(candidate, .raised error)], outcome := .failed (.other error), world := s }

def cppDispatch (s : σ) : Dispatch ι σ :=
  let ready := pool.readyInstances s
  if ready = [] then { tried := [], outcome := .failed (.notReady pool.model), world := s }
  else
    let chosen := policy.select s ready
    match pool.enqueue chosen.2 chosen.1 with
    | (.accepted, s) => { tried := [(chosen.1, .accepted)], outcome := .placed chosen.1 1 false, world := s }
    | (.full queue depth capacity, s) =>
      (pool.cppSpill ready 2 0 s (State.spillOrder ready chosen.1 (pool.depth s))).after chosen.1 (.full queue depth capacity)
    | (.closed queue, s) =>
      (pool.cppSpill ready 2 1 s (State.spillOrder ready chosen.1 (pool.depth s))).after chosen.1 (.closed queue)
    | (.raised error, s) => { tried := [(chosen.1, .raised error)], outcome := .failed (.other error), world := s }

/-! ## What is promised -/

end Pool

/-- The call failed. -/
def Outcome.Failed : Outcome ι → Prop
  | .placed _ _ _ => False
  | .failed _ => True

/-- Where the item was placed. -/
def Outcome.at? : Outcome ι → Option ι
  | .placed i _ _ => some i
  | .failed _ => none

/-- The item goes to one of the ready instances at most, none is tried twice, and the call
fails only when each has refused; so it does not fail when one would accept. -/
structure Delivers (pool : Pool ι σ) (ready : List ι) (r : Dispatch ι σ) : Prop where
  once : r.tried.filter (fun p => p.2 = .accepted) = (r.outcome.at?.map fun i => (i, Put.accepted)).toList
  each : (r.tried.map Prod.fst).Nodup
  among : ∀ p ∈ r.tried, p.1 ∈ ready
  refused : r.outcome.Failed → ∀ i ∈ ready, ∃ answer, (i, answer) ∈ r.tried ∧ answer.Refuses
  delivers : (∃ i ∈ ready, ∀ s, (pool.enqueue s i).1 = .accepted) → ¬ r.outcome.Failed

namespace Pool

variable [DecidableEq ι] (pool : Pool ι σ) (policy : Policy ι σ)

/-- In the order they would be tried: full until one accepts, or to the end, where the last
may be closed. -/
def Clear : σ → List ι → Prop
  | _, [] => True
  | s, i :: rest =>
    (pool.enqueue s i).1 = .accepted ∨ ((pool.enqueue s i).1.isFull ∧ Clear (pool.enqueue s i).2 rest) ∨
      ((pool.enqueue s i).1.isClosed ∧ rest = [])

/-- The same, where closed is as good as full. -/
def CppClear : σ → List ι → Prop
  | _, [] => True
  | s, i :: rest =>
    (pool.enqueue s i).1 = .accepted ∨ ((pool.enqueue s i).1.Refuses ∧ CppClear (pool.enqueue s i).2 rest)

/-- The order of trial: the policy's choice, then the others by the depths read when it has refused. -/
def order (s : σ) : List ι :=
  let ready := pool.readyInstances s
  let chosen := policy.select s ready
  if ready = [] then []
  else chosen.1 :: State.spillOrder ready chosen.1 (pool.depth (pool.enqueue chosen.2 chosen.1).2)

end Pool

/-! ## One try after the other -/

/-- The tries go along the order, with answers of `enqueue`, up to the first that accepts. -/
structure Sound (pool : Pool ι σ) (order : List ι) (r : Dispatch ι σ) : Prop where
  along : r.tried.map Prod.fst <+: order
  once : r.tried.filter (fun p => p.2 = .accepted) = (r.outcome.at?.map fun i => (i, Put.accepted)).toList
  answers : ∀ p ∈ r.tried, ∃ s, (pool.enqueue s p.1).1 = p.2

/-- The call failed only when all of the order refused. -/
def Answered (order : List ι) (r : Dispatch ι σ) : Prop :=
  r.outcome.Failed → ∀ i ∈ order, ∃ answer, (i, answer) ∈ r.tried ∧ answer.Refuses

section
variable {pool : Pool ι σ} {i : ι} {rest : List ι} {s s' : σ} {answer : Put} {r : Dispatch ι σ}

theorem Sound.accepted (h : pool.enqueue s i = (.accepted, s')) (rest : List ι) (attempts : Nat) (spilled : Bool) :
    Sound pool (i :: rest) { tried := [(i, .accepted)], outcome := .placed i attempts spilled, world := s' } where
  along := by simp
  once := by simp [Outcome.at?]
  answers := by
    intro p hp
    rw [List.mem_singleton.mp hp]
    exact ⟨s, by rw [h]⟩

theorem Sound.stops (h : pool.enqueue s i = (answer, s')) (hne : answer ≠ .accepted) (rest : List ι)
    (error : DispatchError) :
    Sound pool (i :: rest) { tried := [(i, answer)], outcome := .failed error, world := s' } where
  along := by simp
  once := by simp [Outcome.at?, hne]
  answers := by
    intro p hp
    rw [List.mem_singleton.mp hp]
    exact ⟨s, by rw [h]⟩

theorem Sound.after (hr : Sound pool rest r) (h : pool.enqueue s i = (answer, s')) (hne : answer ≠ .accepted) :
    Sound pool (i :: rest) (r.after i answer) where
  along := List.cons_prefix_cons.mpr ⟨rfl, hr.along⟩
  once := by
    rw [Dispatch.after, List.filter_cons_of_neg (by simpa using hne)]
    exact hr.once
  answers := by
    intro p hp
    cases List.mem_cons.mp hp with
    | inl he => exact ⟨s, by rw [he, h]⟩
    | inr hp => exact hr.answers p hp

theorem sound_nil (error : DispatchError) (s : σ) :
    Sound pool [] { tried := [], outcome := .failed error, world := s } :=
  ⟨List.prefix_refl _, rfl, by simp⟩

theorem answered_accepted (order : List ι) (i : ι) (attempts : Nat) (spilled : Bool) (s : σ) :
    Answered order { tried := [(i, .accepted)], outcome := .placed i attempts spilled, world := s } := fun h => h.elim

theorem answered_after (hi : i ∉ rest) (ha : answer.Refuses) : Answered (i :: rest) (r.after i answer) ↔ Answered rest r := by
  unfold Answered
  refine imp_congr_right fun _ => ?_
  rw [List.forall_mem_cons]
  constructor
  · intro h j hj
    obtain ⟨answer', hmem, hrefuses⟩ := h.2 j hj
    cases List.mem_cons.mp hmem with
    | inl he =>
      cases he
      exact absurd hj hi
    | inr hmem => exact ⟨answer', hmem, hrefuses⟩
  · intro h
    refine ⟨⟨answer, List.mem_cons_self, ha⟩, fun j hj => ?_⟩
    obtain ⟨answer', hmem, hrefuses⟩ := h j hj
    exact ⟨answer', List.mem_cons_of_mem _ hmem, hrefuses⟩

/-- A refusal that ends the call is right after the last instance only. -/
theorem answered_closed (hi : i ∉ rest) (queue : String) (error : DispatchError) :
    Answered (i :: rest) { tried := [(i, .closed queue)], outcome := .failed error, world := s } ↔ rest = [] := by
  constructor
  · intro h
    apply List.eq_nil_iff_forall_not_mem.mpr
    intro j hj
    obtain ⟨_, hmem, -⟩ := h trivial j (List.mem_cons_of_mem i hj)
    cases List.mem_singleton.mp hmem
    exact hi hj
  · intro h _ j hj
    rw [h, List.mem_singleton] at hj
    exact ⟨.closed queue, by simp [hj], trivial⟩

theorem not_answered_raised (rest : List ι) (text : String) (error : DispatchError) :
    ¬ Answered (i :: rest) { tried := [(i, .raised text)], outcome := .failed error, world := s } := by
  intro h
  obtain ⟨_, hmem, hrefuses⟩ := h trivial i List.mem_cons_self
  cases List.mem_singleton.mp hmem
  exact hrefuses

theorem Sound.delivers_iff {order ready : List ι} (h : Sound pool order r) (hperm : order.Perm ready) (hn : ready.Nodup) :
    Delivers pool ready r ↔ Answered order r := by
  have hmem : ∀ i, i ∈ order ↔ i ∈ ready := fun i => hperm.mem_iff
  constructor
  · intro hd hfailed i hi
    exact hd.refused hfailed i ((hmem i).mp hi)
  · intro ha
    have hrefused : r.outcome.Failed → ∀ i ∈ ready, ∃ answer, (i, answer) ∈ r.tried ∧ answer.Refuses :=
      fun hfailed i hi => ha hfailed i ((hmem i).mpr hi)
    refine ⟨h.once, h.along.sublist.nodup (hperm.nodup_iff.mpr hn), fun p hp => ?_, hrefused, ?_⟩
    · exact (hmem p.1).mp (h.along.subset (List.mem_map_of_mem hp))
    · rintro ⟨i, hi, haccepts⟩ hfailed
      obtain ⟨answer, htried, hrefuses⟩ := hrefused hfailed i hi
      obtain ⟨s, hs⟩ := h.answers _ htried
      have hs : Put.accepted = answer := (haccepts s).symm.trans hs
      subst hs
      exact hrefuses

end

/-! ## The loops -/

namespace Pool

section
variable (pool : Pool ι σ)

theorem spill_sound (order : List ι) (attempt : Nat) (lastError : DispatchError) (s : σ) :
    Sound pool order (pool.spill attempt lastError s order) := by
  induction order generalizing attempt lastError s with
  | nil => exact sound_nil lastError s
  | cons candidate remaining ih =>
    unfold spill
    split
    · rename_i h
      exact .accepted h _ _ _
    · rename_i h
      exact (ih _ _ _).after h (by simp)
    · rename_i h
      exact .stops h (by simp) _ _
    · rename_i h
      exact .stops h (by simp) _ _

theorem cppSpill_sound (ready order : List ι) (attempt closed : Nat) (s : σ) :
    Sound pool order (pool.cppSpill ready attempt closed s order) := by
  induction order generalizing attempt closed s with
  | nil => exact sound_nil _ s
  | cons candidate remaining ih =>
    unfold cppSpill
    split
    · rename_i h
      exact .accepted h _ _ _
    · rename_i h
      exact (ih _ _ _).after h (by simp)
    · rename_i h
      exact (ih _ _ _).after h (by simp)
    · rename_i h
      exact .stops h (by simp) _ _

theorem spill_answered_iff (order : List ι) (hn : order.Nodup) (attempt : Nat) (lastError : DispatchError) (s : σ) :
    Answered order (pool.spill attempt lastError s order) ↔ pool.Clear s order := by
  induction order generalizing attempt lastError s with
  | nil => exact iff_of_true (fun _ i hi => (List.not_mem_nil hi).elim) trivial
  | cons candidate remaining ih =>
    obtain ⟨hnot, hrest⟩ := List.nodup_cons.mp hn
    unfold spill Clear
    split
    · rename_i h
      simpa [h] using answered_accepted _ _ _ _ _
    · rename_i h
      rw [answered_after hnot Put.full_refuses, ih hrest]
      simp [h, Put.isFull, Put.isClosed]
    · rename_i h
      rw [answered_closed hnot]
      simp [h, Put.isFull, Put.isClosed]
    · rename_i h
      simpa [h, Put.isFull, Put.isClosed] using not_answered_raised _ _ _

theorem cppSpill_answered_iff (ready order : List ι) (hn : order.Nodup) (attempt closed : Nat) (s : σ) :
    Answered order (pool.cppSpill ready attempt closed s order) ↔ pool.CppClear s order := by
  induction order generalizing attempt closed s with
  | nil => exact iff_of_true (fun _ i hi => (List.not_mem_nil hi).elim) trivial
  | cons candidate remaining ih =>
    obtain ⟨hnot, hrest⟩ := List.nodup_cons.mp hn
    unfold cppSpill CppClear
    split
    · rename_i h
      simpa [h] using answered_accepted _ _ _ _ _
    · rename_i h
      rw [answered_after hnot Put.full_refuses, ih hrest]
      simp [h, Put.Refuses]
    · rename_i h
      rw [answered_after hnot Put.closed_refuses, ih hrest]
      simp [h, Put.Refuses]
    · rename_i h
      simpa [h, Put.Refuses] using not_answered_raised _ _ _

end

/-! ## The calls -/

variable [DecidableEq ι] (pool : Pool ι σ) (policy : Policy ι σ)

theorem order_perm (s : σ) : (pool.order policy s).Perm (pool.readyInstances s) := by
  unfold order
  dsimp only
  split
  · rename_i hnone
    rw [hnone]
  · rename_i hsome
    have hmem := policy.select_mem s _ hsome
    have hn : (pool.readyInstances s).Nodup := pool.distinct.filter _
    refine (List.Perm.cons _ (List.perm_insertionSort _ _)).trans ?_
    have herase : (pool.readyInstances s).filter (fun i => decide (i ≠ (policy.select s (pool.readyInstances s)).1)) =
        (pool.readyInstances s).erase (policy.select s (pool.readyInstances s)).1 := by
      rw [hn.erase_eq_filter]
      apply List.filter_congr
      intro i _
      by_cases hi : i = (policy.select s (pool.readyInstances s)).1 <;> simp [hi]
    rw [herase]
    exact (List.perm_cons_erase hmem).symm

theorem order_of_ready {s : σ} (h : pool.readyInstances s ≠ []) : pool.order policy s =
    (policy.select s (pool.readyInstances s)).1 ::
      State.spillOrder (pool.readyInstances s) (policy.select s (pool.readyInstances s)).1
        (pool.depth (pool.enqueue (policy.select s (pool.readyInstances s)).2 (policy.select s (pool.readyInstances s)).1).2) := by
  unfold order
  dsimp only
  rw [if_neg h]

theorem order_nodup (s : σ) : (pool.order policy s).Nodup :=
  (pool.order_perm policy s).nodup_iff.mpr (pool.distinct.filter _)

theorem dispatch_sound (s : σ) : Sound pool (pool.order policy s) (pool.dispatch policy s) := by
  unfold dispatch
  dsimp only
  split
  · rename_i hnone
    have horder : pool.order policy s = [] := by simp [order, hnone]
    rw [horder]
    exact sound_nil _ s
  · rename_i hsome
    rw [pool.order_of_ready policy hsome]
    split
    · rename_i h
      exact .accepted h _ _ _
    · rename_i h
      rw [h]
      exact (pool.spill_sound _ _ _ _).after h (by simp)
    · rename_i h
      exact .stops h (by simp) _ _
    · rename_i h
      exact .stops h (by simp) _ _

theorem cppDispatch_sound (s : σ) : Sound pool (pool.order policy s) (pool.cppDispatch policy s) := by
  unfold cppDispatch
  dsimp only
  split
  · rename_i hnone
    have horder : pool.order policy s = [] := by simp [order, hnone]
    rw [horder]
    exact sound_nil _ s
  · rename_i hsome
    rw [pool.order_of_ready policy hsome]
    split
    · rename_i h
      exact .accepted h _ _ _
    · rename_i h
      rw [h]
      exact (pool.cppSpill_sound _ _ _ _ _).after h (by simp)
    · rename_i h
      rw [h]
      exact (pool.cppSpill_sound _ _ _ _ _).after h (by simp)
    · rename_i h
      exact .stops h (by simp) _ _

/-- The world after the policy's choice. -/
def chosenIn (s : σ) : σ := (policy.select s (pool.readyInstances s)).2

theorem dispatch_answered_iff (s : σ) :
    Answered (pool.order policy s) (pool.dispatch policy s) ↔
      pool.Clear (pool.chosenIn policy s) (pool.order policy s) := by
  have hn := pool.order_nodup policy s
  unfold dispatch
  dsimp only
  split
  · rename_i hnone
    have horder : pool.order policy s = [] := by simp [order, hnone]
    rw [horder]
    exact iff_of_true (fun _ i hi => (List.not_mem_nil hi).elim) trivial
  · rename_i hsome
    rw [pool.order_of_ready policy hsome] at hn ⊢
    obtain ⟨hnot, hrest⟩ := List.nodup_cons.mp hn
    unfold Clear chosenIn
    split
    · rename_i h
      simpa [h] using answered_accepted _ _ _ _ _
    · rename_i h
      rw [h] at hnot hrest ⊢
      rw [answered_after hnot Put.full_refuses, pool.spill_answered_iff _ hrest]
      simp [Put.isFull, Put.isClosed]
    · rename_i h
      rw [answered_closed hnot]
      simp [h, Put.isFull, Put.isClosed]
    · rename_i h
      simpa [h, Put.isFull, Put.isClosed] using not_answered_raised _ _ _

theorem cppDispatch_answered_iff (s : σ) :
    Answered (pool.order policy s) (pool.cppDispatch policy s) ↔
      pool.CppClear (pool.chosenIn policy s) (pool.order policy s) := by
  have hn := pool.order_nodup policy s
  unfold cppDispatch
  dsimp only
  split
  · rename_i hnone
    have horder : pool.order policy s = [] := by simp [order, hnone]
    rw [horder]
    exact iff_of_true (fun _ i hi => (List.not_mem_nil hi).elim) trivial
  · rename_i hsome
    rw [pool.order_of_ready policy hsome] at hn ⊢
    obtain ⟨hnot, hrest⟩ := List.nodup_cons.mp hn
    unfold CppClear chosenIn
    split
    · rename_i h
      simpa [h] using answered_accepted _ _ _ _ _
    · rename_i h
      rw [h] at hnot hrest ⊢
      rw [answered_after hnot Put.full_refuses, pool.cppSpill_answered_iff _ _ hrest]
      simp [Put.Refuses]
    · rename_i h
      rw [h] at hnot hrest ⊢
      rw [answered_after hnot Put.closed_refuses, pool.cppSpill_answered_iff _ _ hrest]
      simp [Put.Refuses]
    · rename_i h
      simpa [h, Put.Refuses] using not_answered_raised _ _ _

/-- **Delivery.** A call delivers when anyone can just when, in the order of trial, nothing
but full queues stands before the first that accepts, or a closed one at the very end; of
the C++ plane, nothing but full and closed ones. -/
theorem dispatch_delivers_iff (s : σ) :
    (Delivers pool (pool.readyInstances s) (pool.dispatch policy s) ↔
      pool.Clear (pool.chosenIn policy s) (pool.order policy s)) ∧
    (Delivers pool (pool.readyInstances s) (pool.cppDispatch policy s) ↔
      pool.CppClear (pool.chosenIn policy s) (pool.order policy s)) := by
  have hn : (pool.readyInstances s).Nodup := pool.distinct.filter _
  constructor
  · rw [(pool.dispatch_sound policy s).delivers_iff (pool.order_perm policy s) hn]
    exact pool.dispatch_answered_iff policy s
  · rw [(pool.cppDispatch_sound policy s).delivers_iff (pool.order_perm policy s) hn]
    exact pool.cppDispatch_answered_iff policy s

/-- Two ready instances; the first closes, and the second has room. -/
def closing : Pool Nat Unit where
  model := "detect"
  instances := [0, 1]
  distinct := by decide
  isReady _ _ := true
  depth _ _ := 0
  capacity _ _ := 4
  enqueue _ i := (if i = 0 then .closed "detect-0" else .accepted, ())

/-- The first of the candidates. -/
def firstOf : Policy Nat Unit where
  select _ candidates := (candidates.headD 0, ())
  select_mem := by
    intro _ candidates hne
    cases candidates with
    | nil => exact absurd rfl hne
    | cons i candidates => simp

theorem closing_undelivered : ¬ Delivers closing (closing.readyInstances ()) (closing.dispatch firstOf ()) := by
  intro h
  exact h.delivers ⟨1, by decide, fun _ => rfl⟩ trivial

end Pool

/-! ## The fair queue behind an instance -/

/-- What a reply of the fair queue is to the dispatcher; none while `put` waits. -/
def Put.ofReply : Queue.Reply → Option Put
  | .accepted _ => some .accepted
  | .refused _ (.full queue depth capacity) => some (.full queue depth capacity)
  | .refused _ (.closed queue) => some (.closed queue)
  | _ => none

/-- The item is taken, or refused as full or closed; or the call waits. -/
def Settles (reply : Queue.Reply) : Prop :=
  reply = .asleep ∨ ∃ answer, Put.ofReply reply = some answer ∧ (answer = .accepted ∨ answer.Refuses)

section
variable {cfg : Queue.Config} {s : Queue.FairPriorityQueue}

theorem settles_accepted (item : WorkItem) : Settles (.accepted item) := .inr ⟨_, rfl, .inl rfl⟩

theorem settles_full (item : WorkItem) (queue : String) (depth capacity : Nat) :
    Settles (.refused item (.full queue depth capacity)) := .inr ⟨_, rfl, .inr trivial⟩

theorem settles_closed (item : WorkItem) (queue : String) : Settles (.refused item (.closed queue)) :=
  .inr ⟨_, rfl, .inr trivial⟩

theorem blockLocked_settles (item : WorkItem) (deadline : Int) (clock : Queue.Clock) :
    Settles (Queue.FairPriorityQueue.blockLocked cfg s item deadline clock).2.reply := by
  unfold Queue.FairPriorityQueue.blockLocked
  split
  · split
    · exact settles_full _ _ _ _
    · exact .inl rfl
  split
  · exact settles_closed _ _
  · exact settles_accepted _

theorem dropOldest_settles (h : ∀ e, (Queue.FairPriorityQueue.dropOldest cfg s item).2.reply ≠ .raised e) :
    Settles (Queue.FairPriorityQueue.dropOldest cfg s item).2.reply := by
  unfold Queue.FairPriorityQueue.dropOldest at h ⊢
  split
  · rename_i e he
    rw [he] at h
    exact absurd rfl (h e)
  · exact settles_full _ _ _ _
  · exact settles_accepted _

/-- A fair queue refuses an item only as full or as closed. -/
theorem put_settles (h : s.Inv cfg) (item : WorkItem) (clock : Queue.Clock) : Settles (s.put cfg item clock).2.reply := by
  have hraises := (h.put item clock).raises
  unfold Queue.FairPriorityQueue.put at hraises ⊢
  by_cases hclosed : s.closed = true
  · rw [if_pos hclosed]
    exact settles_closed _ _
  rw [if_neg hclosed] at hraises ⊢
  by_cases hroom : s.size < cfg.capacity
  · rw [if_pos hroom]
    exact settles_accepted _
  rw [if_neg hroom] at hraises ⊢
  cases ho : cfg.overflow with
  | reject => exact settles_full _ _ _ _
  | block => exact blockLocked_settles _ _ _
  | dropOldest =>
    rw [ho] at hraises
    exact dropOldest_settles hraises

theorem putWakes_settles (i : Nat) (clock : Queue.Clock) (hi : i < s.producers.length) :
    Settles (s.putWakes cfg i clock).2.reply := by
  unfold Queue.FairPriorityQueue.putWakes
  rw [List.getElem?_eq_getElem hi]
  exact blockLocked_settles _ _ _

end

end ShipInfer.Scheduling
