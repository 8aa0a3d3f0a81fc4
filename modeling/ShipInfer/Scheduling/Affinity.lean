import ShipInfer.Scheduling.Dispatcher

/-!
# Where a camera's requests go

A camera stays with the instance it was placed on while its pin holds and is
obeyed. What loses it: a table that another camera fills and that is dropped with
all its pins, a full queue, from which the request spills to another instance
while the pin stays, and two first requests that each choose before either has
written its choice.
-/

namespace ShipInfer.Scheduling

variable {ι : Type} [DecidableEq ι]

def Phase.isAssigning : Phase ι → Bool
  | .assigning _ _ => true
  | _ => false

namespace State

/-- What a step must not do to a camera: refuse it an instance while it is pinned,
find its pin unready, choose for it twice at once, drop the table with its pin in
it, or answer that the queue of its instance is full. -/
def keeps (camera : String) (s : State ι) : Event ι → Bool
  | .dispatch c =>
    match s.assigned.get? camera with
    | some pinned => decide (c = camera → pinned ∈ s.readyInstances)
    | none => true
  | .select i _ =>
    match s.calls[i]? with
    | some { camera := c, phase := .selecting ready } =>
      match s.assigned.get? camera with
      | some pinned => decide (c = camera → s.isReady pinned = true ∧ pinned ∈ ready)
      | none => decide (c = camera → ∀ call ∈ s.calls, call.camera = camera → call.phase.isAssigning = false)
    | _ => true
  | .assign i =>
    match s.calls[i]? with
    | some { camera := _, phase := .assigning _ _ } =>
      decide (s.maxSequences ≤ s.assigned.size → s.assigned.get? camera = none)
    | _ => true
  | .enqueue i answer _ =>
    match s.calls[i]? with
    | some { camera := c, phase := .placing _ _ } => decide (c = camera → answer = .taken)
    | _ => true
  | _ => true

/-- Nothing is pinned or placed, and at most one call has chosen. -/
structure Before (camera : String) (os : List (Output ι)) (s : State ι) : Prop where
  unpinned : s.assigned.get? camera = none
  outputs : ∀ x, .placed camera x ∉ os
  calls : ∀ call ∈ s.calls, call.camera = camera → (∀ ready x, call.phase ≠ .placing ready x) ∧
    ∀ remaining, call.phase ≠ .spilling remaining
  one : ∀ (i j : Nat) (a b : Call ι), s.calls[i]? = some a → s.calls[j]? = some b → a.camera = camera → b.camera = camera →
    a.phase.isAssigning = true → b.phase.isAssigning = true → i = j

/-- All that ends since the pin is placed where it says. -/
structure After (camera : String) (pinned : ι) (os : List (Output ι)) (s : State ι) : Prop where
  assigned : s.assigned.get? camera = some pinned
  outputs : ∃ old new, os = old ++ new ∧ (∀ x, .placed camera x ∉ old) ∧
    ∀ o ∈ new, o ≠ .failed camera ∧ ∀ x, o = .placed camera x → x = pinned
  calls : ∀ call ∈ s.calls, call.camera = camera → call.phase.isAssigning = false ∧
    (∀ ready x, call.phase = .placing ready x → x = pinned) ∧ ∀ remaining, call.phase ≠ .spilling remaining

section
variable {camera : String} {pinned : ι} {os : List (Output ι)} {s : State ι}

omit [DecidableEq ι] in
/-- A call moves on, and the pin is left alone. -/
theorem Before.setCall (h : Before camera os s) {i : Nat} {c : String} {old : Phase ι}
    (hold : s.calls[i]? = some { camera := c, phase := old }) (phase : Phase ι) (o : Output ι)
    (ho : ∀ x, o ≠ .placed camera x)
    (hphase : c = camera → (∀ ready x, phase ≠ .placing ready x) ∧ ∀ remaining, phase ≠ .spilling remaining)
    (hone : c = camera → phase.isAssigning = true →
      old.isAssigning = true ∨ ∀ call ∈ s.calls, call.camera = camera → call.phase.isAssigning = false) :
    Before camera (os ++ [o]) (s.setCall i { camera := c, phase := phase }) := by
  have hi : i < s.calls.length := (List.getElem?_eq_some_iff.mp hold).1
  have hget : ∀ k call, (s.setCall i { camera := c, phase := phase }).calls[k]? = some call →
      (k = i ∧ call = { camera := c, phase := phase }) ∨ s.calls[k]? = some call := by
    intro k call hk
    by_cases hki : k = i
    · subst hki
      exact .inl ⟨rfl, by simpa [State.setCall, List.getElem?_set, hi, eq_comm] using hk⟩
    · exact .inr (by simpa [State.setCall, List.getElem?_set, Ne.symm hki] using hk)
  -- The call that moved against another one that has chosen.
  have hclash : ∀ k call, s.calls[k]? = some call → call.camera = camera → call.phase.isAssigning = true → c = camera →
      phase.isAssigning = true → k = i := by
    intro k call hk hcall ha hc hassigning
    cases hone hc hassigning with
    | inl hassigning' => exact h.one k i call _ hk hold hcall hc ha hassigning'
    | inr hnone =>
      rw [hnone call (List.mem_of_getElem? hk) hcall] at ha
      cases ha
  refine ⟨h.unpinned, fun x hx => ?_, fun call hcall => ?_, fun k j a b hk hj ha hb hka hjb => ?_⟩
  · cases List.mem_append.mp hx with
    | inl hx => exact h.outputs x hx
    | inr hx => exact ho x (List.mem_singleton.mp hx).symm
  · cases List.mem_or_eq_of_mem_set hcall with
    | inl hcall => exact h.calls call hcall
    | inr hcall => exact hcall ▸ hphase
  · cases hget k a hk with
    | inl hki =>
      obtain ⟨rfl, rfl⟩ := hki
      cases hget j b hj with
      | inl hji => exact hji.1.symm
      | inr hj' => exact (hclash j b hj' hb hjb ha hka).symm
    | inr hk' =>
      cases hget j b hj with
      | inl hji =>
        obtain ⟨rfl, rfl⟩ := hji
        exact hclash k a hk' ha hka hb hjb
      | inr hj' => exact h.one k j a b hk' hj' ha hb hka hjb

omit [DecidableEq ι] in
/-- A step that leaves the camera's calls and pin alone. -/
theorem Before.still (h : Before camera os s) {t : State ι} (hassigned : t.assigned.get? camera = none)
    (hcalls : t.calls = s.calls) (o : Output ι) (ho : ∀ x, o ≠ .placed camera x) : Before camera (os ++ [o]) t := by
  refine ⟨hassigned, fun x hx => ?_, hcalls ▸ h.calls, hcalls ▸ h.one⟩
  cases List.mem_append.mp hx with
  | inl hx => exact h.outputs x hx
  | inr hx => exact ho x (List.mem_singleton.mp hx).symm

omit [DecidableEq ι] in
theorem After.of (h : After camera pinned os s) (t : State ι) (hassigned : t.assigned.get? camera = some pinned)
    (o : Output ι) (ho : o ≠ .failed camera ∧ ∀ x, o = .placed camera x → x = pinned)
    (hcalls : ∀ call ∈ t.calls, call ∈ s.calls ∨ (call.camera = camera → call.phase.isAssigning = false ∧
      (∀ ready x, call.phase = .placing ready x → x = pinned) ∧ ∀ remaining, call.phase ≠ .spilling remaining)) :
    After camera pinned (os ++ [o]) t := by
  refine ⟨hassigned, ?_, fun call hc => ?_⟩
  · obtain ⟨old, new, hos, hold, hnew⟩ := h.outputs
    refine ⟨old, new ++ [o], by rw [hos, List.append_assoc], hold, fun p hp => ?_⟩
    cases List.mem_append.mp hp with
    | inl hp => exact hnew p hp
    | inr hp => exact List.mem_singleton.mp hp ▸ ho
  · cases hcalls call hc with
    | inl hc => exact h.calls call hc
    | inr hc => exact hc

/-! ## Steps -/

theorem getElem?_size {κ ν : Type} [DecidableEq κ] (d : Dict κ ν) (limit : Nat) (key k : κ) (v : ν) :
    ((if limit ≤ d.size then .empty else d).set key v).get? k =
      if k = key then some v else if limit ≤ d.size then none else d.get? k := by
  rw [Dict.get?_set]
  by_cases hk : k = key
  · simp [hk]
  · by_cases hfull : limit ≤ d.size <;> simp [hk, hfull]

omit [DecidableEq ι] in
theorem Before.dispatch (h : Before camera os s) (c : String) :
    Before camera (os ++ [(s.dispatch c).2]) (s.dispatch c).1 := by
  unfold State.dispatch
  split
  · exact h.still h.unpinned rfl (.failed c) (by simp)
  · have hold : ∀ call ∈ (s.calls ++ [({ camera := c, phase := .selecting s.readyInstances } : Call ι)]),
        call ∈ s.calls ∨ call.phase = .selecting s.readyInstances := by
      intro call hcall
      cases List.mem_append.mp hcall with
      | inl hcall => exact .inl hcall
      | inr hcall => exact .inr (List.mem_singleton.mp hcall ▸ rfl)
    have hget : ∀ (k : Nat) (call : Call ι), (s.calls ++ [({ camera := c, phase := .selecting s.readyInstances } : Call ι)])[k]? =
        some call → call.phase.isAssigning = true → s.calls[k]? = some call := by
      intro k call hk ha
      rw [List.getElem?_append] at hk
      split at hk
      · exact hk
      · have hmem := List.mem_singleton.mp (List.mem_of_getElem? hk)
        rw [hmem] at ha
        cases ha
    refine ⟨h.unpinned, fun x hx => ?_, fun call hcall hcamera => ?_, fun i j a b hi hj ha hb hai hbj => ?_⟩
    · exact h.outputs x (by simpa using hx)
    · cases hold call hcall with
      | inl hcall => exact h.calls call hcall hcamera
      | inr hphase => simp [hphase]
    · exact h.one i j a b (hget i a hi hai) (hget j b hj hbj) ha hb hai hbj

theorem Before.select (hcamera : camera ≠ "") (h : Before camera os s) {i : Nat} {c : String} {ready : List ι}
    (hcall : s.calls[i]? = some { camera := c, phase := .selecting ready })
    (hkeeps : c = camera → ∀ call ∈ s.calls, call.camera = camera → call.phase.isAssigning = false) (pick : Nat) :
    Before camera (os ++ [Output.quiet]) (s.select i pick c ready) := by
  unfold State.select
  have hpin : c = camera → s.pin c ready = none := by
    intro hc
    subst hc
    simp [pin, h.unpinned]
  split
  · rename_i pinned hpinned
    have hother : c ≠ camera := fun hc => by rw [hpin hc] at hpinned; cases hpinned
    exact h.setCall hcall _ .quiet (by simp) (fun hc => absurd hc hother) fun hc => absurd hc hother
  · split
    · exact h.still h.unpinned rfl .quiet (by simp)
    · split
      · rename_i hc
        have hother : c ≠ camera := fun he => hcamera (he ▸ hc)
        exact h.setCall hcall _ .quiet (by simp) (fun hc => absurd hc hother) fun hc => absurd hc hother
      · exact h.setCall hcall _ .quiet (by simp) (by simp) fun hc _ => .inr (hkeeps hc)

omit [DecidableEq ι] in
/-- The camera's own choice is written: it is pinned from here on. -/
theorem Before.assign_self (h : Before camera os s) {i : Nat} {ready : List ι} {chosen : ι}
    (hcall : s.calls[i]? = some { camera := camera, phase := .assigning ready chosen }) :
    After camera chosen (os ++ [Output.quiet])
      ((s.assign camera chosen).setCall i { camera := camera, phase := .placing ready chosen }) := by
  refine ⟨by simp [State.setCall, State.assign], ⟨os ++ [Output.quiet], [], by simp, by simpa using h.outputs, by simp⟩, ?_⟩
  intro call hmem hc
  obtain ⟨k, hk, hget⟩ := List.mem_iff_getElem.mp hmem
  have hk' : (s.calls.set i { camera := camera, phase := .placing ready chosen })[k]? = some call :=
    List.getElem?_eq_some_iff.mpr ⟨hk, hget⟩
  have hi : i < s.calls.length := (List.getElem?_eq_some_iff.mp hcall).1
  by_cases hki : k = i
  · subst hki
    have hnew : call = { camera := camera, phase := .placing ready chosen } := by
      simpa [List.getElem?_set, hi, eq_comm] using hk'
    subst hnew
    simp [Phase.isAssigning]
  · have hold : s.calls[k]? = some call := by simpa [List.getElem?_set, Ne.symm hki] using hk'
    obtain ⟨hplacing, hspilling⟩ := h.calls call (List.mem_of_getElem? hold) hc
    refine ⟨?_, fun ready x he => absurd he (hplacing ready x), hspilling⟩
    by_contra ha
    rw [Bool.not_eq_false] at ha
    exact hki (h.one k i call _ hold hcall hc rfl ha rfl)

theorem Before.step (hcamera : camera ≠ "") (h : Before camera os s) (e : Event ι) (hk : keeps camera s e = true) :
    Before camera (os ++ [(s.step e).2]) (s.step e).1 ∨ ∃ pinned, After camera pinned (os ++ [(s.step e).2]) (s.step e).1 := by
  cases e with
  | dispatch c => exact .inl (h.dispatch c)
  | ready x isReady =>
    refine .inl (h.still ?_ ?_ _ ?_)
    · exact h.unpinned
    · rfl
    · simp [State.step]
  | attach candidates =>
    refine .inl (h.still ?_ ?_ _ ?_)
    · exact h.unpinned
    · rfl
    · simp [State.step]
  | select i pick =>
    simp only [keeps, h.unpinned] at hk
    simp only [State.step]
    split
    · rename_i c ready hcall
      simp only [hcall, decide_eq_true_eq] at hk
      exact .inl (h.select hcamera hcall hk pick)
    · exact .inl (h.still h.unpinned rfl .quiet (by simp))
  | assign i =>
    simp only [State.step]
    split
    · rename_i c ready chosen hcall
      by_cases hc : c = camera
      · subst hc
        exact .inr ⟨chosen, h.assign_self hcall⟩
      · left
        have hassigned : (s.assign c chosen).assigned.get? camera = none := by
          simp [State.assign, getElem?_size, Ne.symm hc, h.unpinned]
        exact Before.setCall (s := s.assign c chosen) ⟨hassigned, h.outputs, h.calls, h.one⟩ hcall _ .quiet
          (by simp) (fun he => absurd he hc) fun he => absurd he hc
    · exact .inl (h.still h.unpinned rfl .quiet (by simp))
  | enqueue i answer depth =>
    simp only [State.step]
    split
    · rename_i c ready first hcall
      have hother : c ≠ camera := fun hc => (h.calls _ (List.mem_of_getElem? hcall) hc).1 _ _ rfl
      cases answer with
      | taken => exact .inl (h.setCall hcall .finished (.placed c _) (by simp [hother]) (by simp) (by simp [Phase.isAssigning]))
      | raised => exact .inl (h.setCall hcall .finished (.failed c) (by simp) (by simp) (by simp [Phase.isAssigning]))
      | full =>
        dsimp only
        unfold spillTo
        split
        · exact .inl (h.setCall hcall .finished (.failed c) (by simp) (by simp) (by simp [Phase.isAssigning]))
        · exact .inl (h.setCall hcall _ .quiet (by simp) (fun hc => absurd hc hother) fun hc => absurd hc hother)
    · exact .inl (h.still h.unpinned rfl .quiet (by simp))
  | spill i answer =>
    simp only [State.step]
    split
    · rename_i c candidate remaining hcall
      have hother : c ≠ camera := fun hc => (h.calls _ (List.mem_of_getElem? hcall) hc).2 _ rfl
      cases answer with
      | taken => exact .inl (h.setCall hcall .finished (.placed c _) (by simp [hother]) (by simp) (by simp [Phase.isAssigning]))
      | raised => exact .inl (h.setCall hcall .finished (.failed c) (by simp) (by simp) (by simp [Phase.isAssigning]))
      | full =>
        dsimp only
        unfold spillTo
        split
        · exact .inl (h.setCall hcall .finished (.failed c) (by simp) (by simp) (by simp [Phase.isAssigning]))
        · exact .inl (h.setCall hcall _ .quiet (by simp) (fun hc => absurd hc hother) fun hc => absurd hc hother)
    · exact .inl (h.still h.unpinned rfl .quiet (by simp))

omit [DecidableEq ι] in
/-- A step of a call that is not the camera's, or one that the pin allows. -/
theorem After.setCall (h : After camera pinned os s) {i : Nat} {c : String} (phase : Phase ι) (o : Output ι)
    (ho : o ≠ .failed camera ∧ ∀ x, o = .placed camera x → x = pinned)
    (hphase : c = camera → phase.isAssigning = false ∧ (∀ ready x, phase = .placing ready x → x = pinned) ∧
      ∀ remaining, phase ≠ .spilling remaining) :
    After camera pinned (os ++ [o]) (s.setCall i { camera := c, phase := phase }) := by
  refine h.of _ (by exact h.assigned) o ho fun call hcall => ?_
  cases List.mem_or_eq_of_mem_set hcall with
  | inl hcall => exact .inl hcall
  | inr hcall => exact .inr (hcall ▸ hphase)

omit [DecidableEq ι] in
theorem After.still (h : After camera pinned os s) : After camera pinned (os ++ [Output.quiet]) s :=
  h.of s h.assigned .quiet (by simp) fun _ hc => .inl hc

theorem After.select (hcamera : camera ≠ "") (h : After camera pinned os s) {i : Nat} {c : String} {ready : List ι}
    (hkeeps : c = camera → s.isReady pinned = true ∧ pinned ∈ ready) (pick : Nat) :
    After camera pinned (os ++ [Output.quiet]) (s.select i pick c ready) := by
  unfold State.select
  have hpin : c = camera → s.pin c ready = some pinned := by
    intro hc
    subst hc
    simp [pin, h.assigned, hcamera, hkeeps rfl]
  split
  · rename_i x hx
    refine h.setCall _ .quiet (by simp) fun hc => ?_
    rw [hpin hc, Option.some.injEq] at hx
    simp [Phase.isAssigning, hx]
  · rename_i hnone
    have hother : c ≠ camera := fun hc => by rw [hpin hc] at hnone; cases hnone
    split
    · exact h.still
    · split
      · exact h.setCall _ .quiet (by simp) fun hc => absurd hc hother
      · exact h.setCall _ .quiet (by simp) fun hc => absurd hc hother

theorem After.step (hcamera : camera ≠ "") (h : After camera pinned os s) (e : Event ι) (hk : keeps camera s e = true) :
    After camera pinned (os ++ [(s.step e).2]) (s.step e).1 := by
  cases e with
  | dispatch c =>
    simp only [keeps, h.assigned, decide_eq_true_eq] at hk
    simp only [State.step, State.dispatch]
    split
    · rename_i hnone
      have hother : c ≠ camera := fun hc => by have := hk hc; rw [hnone] at this; cases this
      exact h.of s h.assigned (.failed c) (by simp [hother]) fun _ hc => .inl hc
    · refine h.of _ (by exact h.assigned) .quiet (by simp) fun call hcall => ?_
      cases List.mem_append.mp hcall with
      | inl hcall => exact .inl hcall
      | inr hcall => exact .inr fun _ => by simp [List.mem_singleton.mp hcall, Phase.isAssigning]
  | ready x isReady => exact h.of _ (by exact h.assigned) .quiet (by simp) fun _ hc => .inl hc
  | attach candidates => exact h.of _ (by exact h.assigned) .quiet (by simp) fun _ hc => .inl hc
  | select i pick =>
    simp only [keeps, h.assigned] at hk
    simp only [State.step]
    split
    · rename_i c ready hcall
      simp only [hcall, decide_eq_true_eq] at hk
      exact h.select hcamera hk pick
    · exact h.still
  | assign i =>
    simp only [State.step]
    split
    · rename_i c ready chosen hcall
      have hother : c ≠ camera := fun hc => by
        have := (h.calls _ (List.mem_of_getElem? hcall) hc).1
        cases this
      simp only [keeps, hcall, h.assigned, decide_eq_true_eq] at hk
      have hassigned : (s.assign c chosen).assigned.get? camera = some pinned := by
        have hroom : ¬s.maxSequences ≤ s.assigned.size := fun hc => by cases hk hc
        simp [State.assign, hroom, Dict.get?_set, Ne.symm hother, h.assigned]
      exact After.setCall (s := s.assign c chosen) ⟨hassigned, h.outputs, h.calls⟩ _ .quiet (by simp)
        fun hc => absurd hc hother
    · exact h.still
  | enqueue i answer depth =>
    simp only [State.step]
    split
    · rename_i c ready first hcall
      have hfirst : c = camera → first = pinned := fun hc =>
        (h.calls _ (List.mem_of_getElem? hcall) hc).2.1 ready first rfl
      simp only [keeps, hcall, decide_eq_true_eq] at hk
      cases answer with
      | taken =>
        refine h.setCall .finished (.placed c first) ⟨by simp, fun x hx => ?_⟩ (by simp [Phase.isAssigning])
        cases hx
        exact hfirst rfl
      | raised =>
        have hother : c ≠ camera := fun hc => by cases hk hc
        exact h.setCall .finished (.failed c) (by simp [hother]) (by simp [Phase.isAssigning])
      | full =>
        have hother : c ≠ camera := fun hc => by cases hk hc
        dsimp only
        unfold spillTo
        split
        · exact h.setCall .finished (.failed c) (by simp [hother]) (by simp [Phase.isAssigning])
        · exact h.setCall _ .quiet (by simp) fun hc => absurd hc hother
    · exact h.still
  | spill i answer =>
    simp only [State.step]
    split
    · rename_i c candidate remaining hcall
      have hother : c ≠ camera := fun hc => (h.calls _ (List.mem_of_getElem? hcall) hc).2.2 _ rfl
      cases answer with
      | taken => exact h.setCall .finished (.placed c candidate) (by simp [hother]) (by simp [Phase.isAssigning])
      | raised => exact h.setCall .finished (.failed c) (by simp [hother]) (by simp [Phase.isAssigning])
      | full =>
        dsimp only
        unfold spillTo
        split
        · exact h.setCall .finished (.failed c) (by simp [hother]) (by simp [Phase.isAssigning])
        · exact h.setCall _ .quiet (by simp) fun hc => absurd hc hother
    · exact h.still

/-! ## Runs -/

/-- A dispatcher that has dispatched nothing. -/
def fresh (maxSequences : Nat) (instances : List ι) (isReady : ι → Bool) : State ι :=
  { maxSequences := maxSequences, instances := instances, isReady := isReady }

/-- Every request of the camera that ends after one was placed is placed where that was. -/
def Stays (camera : String) (os : List (Output ι)) : Prop :=
  ∀ before x after, os = before ++ .placed camera x :: after →
    ∀ o ∈ after, o ≠ .failed camera ∧ ∀ y, o = .placed camera y → y = x

omit [DecidableEq ι] in
theorem Before.stays (h : Before camera os s) : Stays camera os := by
  intro before x after hos
  exact absurd (hos ▸ List.mem_append_right before List.mem_cons_self) (h.outputs x)

omit [DecidableEq ι] in
theorem After.stays (h : After camera pinned os s) : Stays camera os := by
  intro before x after hos
  obtain ⟨old, new, hsplit, hold, hnew⟩ := h.outputs
  have hmine : ∀ o ∈ .placed camera x :: after, o ∈ new := by
    rw [hsplit] at hos
    rcases List.append_eq_append_iff.mp hos with ⟨rest, hrest, hafter⟩ | ⟨rest, hrest, hafter⟩
    · intro o ho
      rw [hafter]
      exact List.mem_append_right _ ho
    · cases rest with
      | nil =>
        rw [List.nil_append] at hafter
        exact fun o ho => hafter ▸ ho
      | cons o rest =>
        rw [List.cons_append, List.cons.injEq] at hafter
        rw [hrest, ← hafter.1] at hold
        exact absurd (List.mem_append_right _ List.mem_cons_self) (hold x)
  have hx : x = pinned := (hnew _ (hmine _ List.mem_cons_self)).2 x rfl
  intro o ho
  exact hx ▸ hnew o (hmine o (List.mem_cons_of_mem _ ho))

/-- **Stickiness.** A camera stays where it was first placed along every run whose
steps keep it there. -/
theorem camera_stays (camera : String) (hcamera : camera ≠ "") (maxSequences : Nat) (instances : List ι)
    (isReady : ι → Bool) (events : List (Event ι))
    (hkeeps : Machine.Along State.step (fun s e => keeps camera s e = true) (fresh maxSequences instances isReady) events) :
    Stays camera (run (fresh maxSequences instances isReady) events).2 := by
  have hstep : ∀ (os : List (Output ι)) (s : State ι) (e : Event ι),
      (Before camera os s ∨ ∃ pinned, After camera pinned os s) → keeps camera s e = true →
        Before camera (os ++ [(s.step e).2]) (s.step e).1 ∨
          ∃ pinned, After camera pinned (os ++ [(s.step e).2]) (s.step e).1 := by
    intro os s e h hk
    cases h with
    | inl h => exact h.step hcamera e hk
    | inr h =>
      obtain ⟨pinned, h⟩ := h
      exact .inr ⟨pinned, h.step hcamera e hk⟩
  have hrun := hkeeps.induction (I := fun os s => Before camera os s ∨ ∃ pinned, After camera pinned os s) hstep events
    (.inl ⟨rfl, by simp, by simp [fresh], by simp [fresh]⟩)
  cases hrun with
  | inl h => exact h.stays
  | inr h =>
    obtain ⟨pinned, h⟩ := h
    exact h.stays

end

/-- One dispatch after the other, up to the queue of the chosen instance. -/
def dispatched (camera : String) (i : Nat) (answer : Enqueue) : List (Event Nat) :=
  [.dispatch camera, .select i 0, .assign i, .enqueue i answer fun _ => 0]

/-- Two cameras in turn. -/
theorem quay_stays : Stays "quay" (run (fresh 4096 [0, 1] fun _ => true)
    (dispatched "quay" 0 .taken ++ dispatched "mast" 1 .full ++ dispatched "quay" 2 .taken)).2 :=
  camera_stays "quay" (by decide) 4096 [0, 1] (fun _ => true)
    (dispatched "quay" 0 .taken ++ dispatched "mast" 1 .full ++ dispatched "quay" 2 .taken) (by decide)

/-- All instances ready all the time, and a full queue sends the camera elsewhere. -/
theorem spill_moves_camera :
    ¬∀ (camera : String) (instances : List Nat) (events : List (Event Nat)), camera ≠ "" →
      (∀ e ∈ events, ∀ x, e ≠ .ready x false) → Stays camera (run (fresh 4096 instances fun _ => true) events).2 := by
  intro h
  have hstays := h "quay" [0, 1] (dispatched "quay" 0 .taken ++ dispatched "quay" 1 .full ++ [.spill 1 .taken]) (by decide)
    (by simp [dispatched])
  have hmoved := hstays [.quiet, .quiet, .quiet] 0 [.quiet, .quiet, .quiet, .quiet, .placed "quay" 1] (by rfl)
    (.placed "quay" 1) (by simp)
  exact absurd (hmoved.2 1 rfl) (by decide)

end State

end ShipInfer.Scheduling
