import Mathlib.Data.List.Chain
import ShipInfer.Ingest.Actor

/-!
# When UNHEALTHY is sticky

A failure leaves an unhealthy camera unhealthy, since its failures are counted until
a frame is read, and a connect leaves it alone. An empty read that is not the last
before a reconnect does not: it writes DEGRADED, whatever stood there.
-/

namespace ShipInfer.Ingest.Camera

def ActorEvent.readsFrame : ActorEvent → Bool
  | .read (.frame _) => true
  | _ => false

namespace CameraActor

variable {cfg : ActorConfig} {s : CameraActor} {frame : Bool} {a : CameraState}

/-- From UNHEALTHY only to UNHEALTHY, to an end, or with a frame to STREAMING. -/
def Sticks (frame : Bool) (a b : CameraState) : Prop :=
  a = .unhealthy → b = .unhealthy ∨ b = .stopped ∨ b = .exhausted ∨ frame = true ∧ b = .streaming

/-- Each state that a step writes follows the one before. -/
def StaysPut (cfg : ActorConfig) (s : CameraActor) (e : ActorEvent) : Prop :=
  (s.state :: (s.step cfg e).2).IsChain (Sticks e.readsFrame)

/-- What is written from `a` on sticks, and ends in the state of the actor. -/
structure Leads (frame : Bool) (a : CameraState) (r : Step) : Prop where
  chain : (a :: r.2).IsChain (Sticks frame)
  last : r.2.getLastD a = r.1.state

theorem Leads.quiet (h : s.state = a) : Leads frame a (s, []) := ⟨List.isChain_singleton a, h.symm⟩

theorem Leads.setState {b : CameraState} (h : Sticks frame a b) : Leads frame a (s.setState b) := by
  constructor
  · simp [CameraActor.setState, h]
  · simp [CameraActor.setState]

theorem isChain_join {R : CameraState → CameraState → Prop} {m : List CameraState} (l : List CameraState) (a : CameraState)
    (hl : (a :: l).IsChain R) (hm : (l.getLastD a :: m).IsChain R) :
    (a :: (l ++ m)).IsChain R ∧ (l ++ m).getLastD a = m.getLastD (l.getLastD a) := by
  induction l generalizing a with
  | nil => exact ⟨hm, rfl⟩
  | cons b l ih =>
    rw [List.isChain_cons_cons] at hl
    rw [List.getLastD_cons] at hm ⊢
    obtain ⟨hchain, hlast⟩ := ih b hl.2 hm
    rw [List.cons_append, List.isChain_cons_cons, List.getLastD_cons]
    exact ⟨⟨hl.1, hchain⟩, hlast⟩

theorem Leads.andThen {r : Step} {f : CameraActor → Step} (h : Leads frame a r) (hf : Leads frame r.1.state (f r.1)) :
    Leads frame a (andThen r f) := by
  obtain ⟨hchain, hlast⟩ := isChain_join r.2 a h.chain (by rw [h.last]; exact hf.chain)
  refine ⟨hchain, ?_⟩
  show (r.2 ++ (f r.1).2).getLastD a = (f r.1).1.state
  rw [hlast, h.last, hf.last]

/-- A camera is unhealthy by its failures or for good, and what has been given up is
on its way out. -/
structure Sound (cfg : ActorConfig) (s : CameraActor) : Prop where
  failing : s.state = .unhealthy → s.fatal = true ∨ cfg.failuresBeforeUnhealthy ≤ s.consecutiveFailures
  given : s.fatal = true → s.stop = true ∧ (s.phase = .looping ∨ s.phase = .finished)
  unstarted : s.phase = .unstarted → s.state ≠ .unhealthy

/-- The failures of an unhealthy camera are enough of them. -/
def Failing (cfg : ActorConfig) (s : CameraActor) : Prop :=
  s.state = .unhealthy → cfg.failuresBeforeUnhealthy ≤ s.consecutiveFailures

theorem Sound.unfailing (h : s.Sound cfg) (hlooping : s.phase ≠ .looping) (hfinished : s.phase ≠ .finished) :
    s.fatal = false ∧ s.Failing cfg := by
  have hfatal : s.fatal = false := by
    cases hf : s.fatal with
    | false => rfl
    | true =>
      rcases (h.given hf).2 with hp | hp
      · exact absurd hp hlooping
      · exact absurd hp hfinished
  refine ⟨hfatal, fun hstate => ?_⟩
  rcases h.failing hstate with hf | hcount
  · rw [hfatal] at hf
    cases hf
  · exact hcount

/-! ## What each operation writes -/

theorem leads_settle : Leads frame s.state s.settle := by
  unfold settle
  split
  · exact .quiet rfl
  · exact .setState fun _ => .inr (.inl rfl)

theorem leads_finish : Leads frame s.state s.finish :=
  leads_settle (s := { s.teardown with phase := .finished })

theorem leads_recordFailure (h : s.Failing cfg) (reason : String) : Leads frame s.state (s.recordFailure cfg reason) := by
  refine .setState fun hstate => .inl ?_
  have hcount := h hstate
  rw [if_pos (by omega)]

theorem leads_retry (h : s.Failing cfg) (reason : String) : Leads frame s.state (s.retry cfg reason) :=
  (leads_recordFailure h reason).andThen (.quiet rfl)

theorem leads_unexpected (h : s.Failing cfg) (reason : String) : Leads frame s.state (s.unexpected cfg reason) :=
  (leads_recordFailure h reason).andThen (.quiet rfl)

theorem leads_refuseFatally (h : s.Failing cfg) (reason : String) : Leads frame s.state (s.refuseFatally cfg reason) := by
  refine (leads_recordFailure h reason).andThen (.andThen (.setState fun _ => .inl rfl) (.quiet rfl))

theorem leads_connect (h : s.Failing cfg) (result : ConnectResult) : Leads frame s.state (s.connect cfg result) := by
  cases result with
  | opened => exact .quiet rfl
  | unavailable reason => exact leads_refuseFatally h reason
  | failed reason => exact leads_retry h reason
  | refused reason =>
    simp only [connect]
    split
    · exact leads_retry h reason
    · exact leads_refuseFatally h reason

theorem leads_publish (h : s.Failing cfg) (reply : SinkReply) : Leads frame s.state (s.publish cfg reply) := by
  cases reply with
  | accepted => exact .quiet rfl
  | full => exact .quiet rfl
  | closed => exact .quiet rfl
  | raised reason => exact leads_unexpected h reason
  | refused reason =>
    simp only [publish]
    split
    · exact leads_unexpected h reason
    · exact (leads_refuseFatally h reason).andThen leads_finish

theorem leads_loop : Leads frame s.state s.loop := by
  unfold loop
  split
  · exact leads_finish
  · split
    · exact .quiet rfl
    · refine .andThen ?_ (.quiet rfl)
      unfold markConnecting
      split
      · exact .quiet rfl
      · rename_i hhealthy
        exact .setState fun hstate => absurd hstate hhealthy

/-- The empty read that is one of several. -/
def Lapses (cfg : ActorConfig) (s : CameraActor) : Prop :=
  s.state = .unhealthy ∧ s.consecutiveEmpty + 1 < cfg.emptyReadsBeforeReconnect

theorem leads_onEmptyRead (h : s.Failing cfg) (exhausted : Except String Bool) (hlapse : exhausted = .ok false → ¬s.Lapses cfg) :
    Leads frame s.state (s.onEmptyRead cfg exhausted) := by
  unfold onEmptyRead
  have hcounted : ({ s with emptyReads := s.emptyReads + 1, consecutiveEmpty := s.consecutiveEmpty + 1 } : CameraActor).Failing cfg := h
  dsimp only
  split
  · exact leads_unexpected hcounted _
  · exact (Leads.setState fun _ => .inr (.inr (.inl rfl))).andThen leads_finish
  · split
    · exact leads_retry hcounted _
    · rename_i hfew
      refine (Leads.setState fun hstate => ?_).andThen (.quiet rfl)
      exact absurd ⟨hstate, Nat.lt_of_not_le hfew⟩ (hlapse rfl)

/-- A frame clears the failures, and with it what holds a camera at UNHEALTHY. -/
theorem leads_pump (h : s.Failing cfg) (result : ReadResult) (hlapse : result = .empty (.ok false) → ¬s.Lapses cfg) :
    Leads (ActorEvent.read result).readsFrame s.state (s.pump cfg result) := by
  cases result with
  | failed reason => exact leads_retry h reason
  | refused reason =>
    simp only [pump]
    split
    · exact leads_retry h reason
    · exact (leads_refuseFatally h reason).andThen leads_finish
  | empty exhausted => exact leads_onEmptyRead h exhausted fun he => hlapse (by rw [he])
  | frame reply =>
    let read := recordFrame { s with consecutiveEmpty := 0, consecutiveFailures := 0, lastError := "" }
    have hread : Leads true s.state read := .setState fun _ => .inr (.inr (.inr ⟨rfl, rfl⟩))
    have hstreaming : read.1.Failing cfg := fun hstate => by cases hstate
    show Leads true s.state (CameraActor.andThen read fun s => s.publish cfg reply)
    exact hread.andThen (leads_publish hstreaming reply)

/-- No camera is read empty while it is unhealthy, but to reconnect or at the end. -/
def Unlapsed (cfg : ActorConfig) (s : CameraActor) : ActorEvent → Prop
  | .read (.empty (.ok false)) => s.phase = .reading → ¬s.Lapses cfg
  | _ => True

theorem leads_step (h : s.Sound cfg) {e : ActorEvent} (he : Unlapsed cfg s e) : Leads e.readsFrame s.state (s.step cfg e) := by
  have hself : ∀ frame, Leads frame s.state (s, []) := fun _ => .quiet rfl
  cases e with
  | start =>
    simp only [step]
    split
    · rename_i hphase
      exact .setState fun hstate => absurd hstate (h.unstarted hphase)
    · exact hself _
  | loop =>
    simp only [step]
    split
    · exact leads_loop
    · exact hself _
  | connect result =>
    simp only [step]
    split
    · rename_i hphase
      exact leads_connect (h.unfailing (by simp [hphase]) (by simp [hphase])).2 result
    · exact hself _
  | read result =>
    simp only [step]
    split
    · rename_i hphase
      refine leads_pump (h.unfailing (by simp [hphase]) (by simp [hphase])).2 result fun hr => ?_
      rw [hr] at he
      exact he hphase
    · exact hself _
  | woke =>
    simp only [step]
    split
    · exact .quiet rfl
    · exact hself _
  | raised reason =>
    simp only [step]
    split
    · rename_i hphase
      exact leads_unexpected (h.unfailing (by simp [hphase]) (by simp [hphase])).2 reason
    · split
      · exact leads_finish
      · exact hself _
  | escaped =>
    simp only [step]
    split
    · exact hself _
    · exact leads_finish
  | requestStop => exact .quiet rfl
  | stop => exact .quiet rfl
  | stopped =>
    simp only [step]
    split
    · exact hself _
    · exact leads_settle (s := { s with stoppers := s.stoppers - 1 })

/-! ## The invariant -/

theorem sound_of_failing (hfatal : s.fatal = false) (h : s.Failing cfg) (hphase : s.phase ≠ .unstarted) : s.Sound cfg := by
  constructor
  · exact fun hstate => .inr (h hstate)
  · intro htrue
    rw [hfatal] at htrue
    cases htrue
  · exact fun hun => absurd hun hphase

theorem Sound.settle (h : s.Sound cfg) : s.settle.1.Sound cfg := by
  unfold CameraActor.settle
  split
  · exact h
  · refine ⟨fun hstate => ?_, h.given, fun _ hstate => ?_⟩
    · cases hstate
    · cases hstate

theorem Sound.finish (h : s.Sound cfg) : s.finish.1.Sound cfg := by
  apply Sound.settle
  refine ⟨h.failing, fun hf => ⟨(h.given hf).1, .inr rfl⟩, fun hphase => ?_⟩
  cases hphase

/-- A failure is counted before the count says what the state is. -/
theorem failing_recordFailure (reason : String) : (s.recordFailure cfg reason).1.Failing cfg := by
  intro hstate
  simp only [CameraActor.recordFailure, CameraActor.setState] at hstate ⊢
  split at hstate
  · assumption
  · cases hstate

theorem sound_retry (hfatal : s.fatal = false) (reason : String) : (s.retry cfg reason).1.Sound cfg :=
  sound_of_failing (s := (s.retry cfg reason).1) hfatal (failing_recordFailure reason) (by simp [retry, andThen])

theorem sound_unexpected (hfatal : s.fatal = false) (reason : String) : (s.unexpected cfg reason).1.Sound cfg :=
  sound_of_failing (s := (s.unexpected cfg reason).1) hfatal (failing_recordFailure reason) (by simp [unexpected, andThen])

theorem sound_refuseFatally (reason : String) : (s.refuseFatally cfg reason).1.Sound cfg := by
  refine ⟨fun _ => .inl rfl, fun _ => ⟨rfl, .inl rfl⟩, fun hphase => ?_⟩
  cases hphase

theorem sound_connect (hfatal : s.fatal = false) (h : s.Failing cfg) (result : ConnectResult) :
    (s.connect cfg result).1.Sound cfg := by
  cases result with
  | opened => exact sound_of_failing hfatal h (by simp [connect])
  | unavailable reason => exact sound_refuseFatally reason
  | failed reason => exact sound_retry hfatal reason
  | refused reason =>
    simp only [connect]
    split
    · exact sound_retry hfatal reason
    · exact sound_refuseFatally reason

theorem sound_publish (hfatal : s.fatal = false) (h : s.Failing cfg) (reply : SinkReply) : (s.publish cfg reply).1.Sound cfg := by
  cases reply with
  | accepted => exact sound_of_failing hfatal h (by simp [publish])
  | full => exact sound_of_failing hfatal h (by simp [publish])
  | closed => exact sound_of_failing hfatal h (by simp [publish])
  | raised reason => exact sound_unexpected hfatal reason
  | refused reason =>
    simp only [publish]
    split
    · exact sound_unexpected hfatal reason
    · exact (sound_refuseFatally reason).finish

theorem sound_onEmptyRead (hfatal : s.fatal = false) (exhausted : Except String Bool) :
    (s.onEmptyRead cfg exhausted).1.Sound cfg := by
  let counted : CameraActor := { s with emptyReads := s.emptyReads + 1, consecutiveEmpty := s.consecutiveEmpty + 1 }
  have hcounted : counted.fatal = false := hfatal
  unfold onEmptyRead
  dsimp only
  split
  · exact sound_unexpected hcounted _
  · have hexhausted : (counted.setState .exhausted).1.Sound cfg := by
      refine ⟨fun hstate => ?_, fun htrue => ?_, fun _ hstate => ?_⟩
      · cases hstate
      · rw [show (counted.setState .exhausted).1.fatal = s.fatal from rfl, hfatal] at htrue
        cases htrue
      · cases hstate
    exact hexhausted.finish
  · split
    · exact sound_retry hcounted _
    · refine sound_of_failing hfatal (fun hstate => ?_) (by simp [andThen])
      cases hstate

theorem sound_pump (hfatal : s.fatal = false) (result : ReadResult) : (s.pump cfg result).1.Sound cfg := by
  cases result with
  | failed reason => exact sound_retry hfatal reason
  | refused reason =>
    simp only [pump]
    split
    · exact sound_retry hfatal reason
    · exact (sound_refuseFatally reason).finish
  | empty exhausted => exact sound_onEmptyRead hfatal exhausted
  | frame reply =>
    let read := recordFrame { s with consecutiveEmpty := 0, consecutiveFailures := 0, lastError := "" }
    have hstreaming : read.1.Failing cfg := fun hstate => by cases hstate
    exact sound_publish (s := read.1) hfatal hstreaming reply

theorem Sound.loop (h : s.Sound cfg) : s.loop.1.Sound cfg := by
  unfold CameraActor.loop
  split
  · exact h.finish
  · rename_i hstop
    have hfatal : s.fatal = false := by
      cases hf : s.fatal with
      | false => rfl
      | true => exact absurd (h.given hf).1 hstop
    have hfailing : s.Failing cfg := by
      intro hstate
      rcases h.failing hstate with hf | hcount
      · rw [hfatal] at hf
        cases hf
      · exact hcount
    split
    · exact sound_of_failing hfatal hfailing (by simp)
    · unfold markConnecting
      split
      · exact sound_of_failing hfatal hfailing (by simp [andThen])
      · refine sound_of_failing hfatal (fun hstate => ?_) (by simp [andThen])
        cases hstate

theorem Sound.step (h : s.Sound cfg) (e : ActorEvent) : (s.step cfg e).1.Sound cfg := by
  cases e with
  | start =>
    simp only [CameraActor.step]
    split
    · rename_i hphase
      have hfatal := (h.unfailing (by simp [hphase]) (by simp [hphase])).1
      refine sound_of_failing hfatal (fun hstate => ?_) (by simp [CameraActor.setState])
      cases hstate
    · exact h
  | loop =>
    simp only [CameraActor.step]
    split
    · exact h.loop
    · exact h
  | connect result =>
    simp only [CameraActor.step]
    split
    · rename_i hphase
      obtain ⟨hfatal, hfailing⟩ := h.unfailing (by simp [hphase]) (by simp [hphase])
      exact sound_connect hfatal hfailing result
    · exact h
  | read result =>
    simp only [CameraActor.step]
    split
    · rename_i hphase
      exact sound_pump (h.unfailing (by simp [hphase]) (by simp [hphase])).1 result
    · exact h
  | woke =>
    simp only [CameraActor.step]
    split
    · rename_i hphase
      have hwaiting : s.phase ≠ .looping ∧ s.phase ≠ .finished := by
        rcases hphase with hp | hp <;> simp [hp]
      obtain ⟨hfatal, hfailing⟩ := h.unfailing hwaiting.1 hwaiting.2
      exact sound_of_failing hfatal hfailing (by simp)
    · exact h
  | raised reason =>
    simp only [CameraActor.step]
    split
    · rename_i hphase
      exact sound_unexpected (h.unfailing (by simp [hphase]) (by simp [hphase])).1 reason
    · split
      · exact h.finish
      · exact h
  | escaped =>
    simp only [CameraActor.step]
    split
    · exact h
    · exact h.finish
  | requestStop => exact ⟨h.failing, fun hf => ⟨rfl, (h.given hf).2⟩, h.unstarted⟩
  | stop => exact ⟨h.failing, fun hf => ⟨rfl, (h.given hf).2⟩, h.unstarted⟩
  | stopped =>
    simp only [CameraActor.step]
    split
    · exact h
    · have hone : ({ s with stoppers := s.stoppers - 1 } : CameraActor).Sound cfg := ⟨h.failing, h.given, h.unstarted⟩
      exact hone.settle

/-! ## Whole runs -/

theorem staysPut_iff (h : s.Sound cfg) (e : ActorEvent) : StaysPut cfg s e ↔ Unlapsed cfg s e := by
  constructor
  · intro hput
    cases e with
    | read result =>
      cases result with
      | empty exhausted =>
        cases exhausted with
        | error reason => trivial
        | ok last =>
          cases last with
          | true => trivial
          | false =>
            intro hphase ⟨hstate, hfew⟩
            have hwritten : (s.step cfg (.read (.empty (.ok false)))).2 = [.degraded] := by
              simp [CameraActor.step, hphase, pump, onEmptyRead, andThen, CameraActor.setState, Nat.not_le.mpr hfew]
            unfold StaysPut at hput
            rw [hwritten, List.isChain_pair, hstate] at hput
            rcases hput rfl with hb | hb | hb | ⟨-, hb⟩ <;> cases hb
      | _ => trivial
    | _ => trivial
  · intro hun
    exact (leads_step h hun).chain

theorem sound_start (cfg : ActorConfig) : ({} : CameraActor).Sound cfg := by
  refine ⟨fun hstate => ?_, fun hf => ?_, fun _ hstate => ?_⟩
  · cases hstate
  · cases hf
  · cases hstate

/-- UNHEALTHY stays until a frame is read or the actor is at its end, at every step of a
run, just when no step of it reads an unhealthy camera empty short of a reconnect. -/
theorem sticky_iff (cfg : ActorConfig) (events : List ActorEvent) :
    Machine.Along (step cfg) (StaysPut cfg) {} events ↔ Machine.Along (step cfg) (Unlapsed cfg) {} events :=
  Machine.along_congr (I := Sound cfg) (fun _ e h => h.step e) (fun _ e h => staysPut_iff h e) events (sound_start cfg)

/-- Three connects fail, the fourth opens a stream that has nothing yet. -/
def openedEmpty : List ActorEvent :=
  [.start, .loop, .connect (.failed "refused"), .woke, .loop, .connect (.failed "refused"), .woke, .loop,
    .connect (.failed "refused"), .woke, .loop, .connect .opened, .read (.empty (.ok false))]

instance (frame : Bool) (a b : CameraState) : Decidable (Sticks frame a b) :=
  inferInstanceAs (Decidable (_ → _))

instance (cfg : ActorConfig) (s : CameraActor) (e : ActorEvent) : Decidable (StaysPut cfg s e) :=
  inferInstanceAs (Decidable (List.IsChain _ _))

theorem lapsed_at_first_read :
    (run {} openedEmpty).2.flatten =
      [.connecting, .connecting, .degraded, .connecting, .degraded, .connecting, .unhealthy, .degraded] ∧
    ¬Machine.Along (step {}) (StaysPut {}) {} openedEmpty ∧
    ¬Machine.Along (step { plane := .cpp }) (StaysPut { plane := .cpp }) {} openedEmpty := by
  refine ⟨?_, ?_, ?_⟩ <;> decide

end CameraActor

end ShipInfer.Ingest.Camera
