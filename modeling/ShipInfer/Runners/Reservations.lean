import ShipInfer.Runners.Exclusivity
import ShipInfer.Runners.Launcher

/-!
# When a reservation is resolved by its owner

A pending camera is in the placement map at every point of every run. Whose
reservation it is the map does not say: a start clears those of calls that are
still asking, and the `finally` of a call that has committed takes back whatever
reservation of its camera it finds.
-/

namespace ShipInfer.Runners

namespace FleetRunner

variable {cfg : FleetConfig} {s s' : FleetRunner}

/-- What is pending is placed, and is pending once. -/
structure Booked (s : FleetRunner) : Prop where
  nodup : s.pending.Nodup
  placed : ∀ camera ∈ s.pending, ∃ shard, s.placed.get? camera = some shard

theorem Booked.add (h : s.Booked) (camera : String) (dead : List Nat) : (s.add cfg camera dead).1.Booked := by
  rcases add_cases cfg s camera dead with heq | ⟨hfree, shard, order, heq⟩
  · rw [heq]
    exact h
  · rw [heq]
    have hnew : camera ∉ s.pending := by
      intro hmem
      obtain ⟨b, hb⟩ := h.placed camera hmem
      rw [hfree] at hb
      cases hb
    constructor
    · apply List.nodup_append.mpr
      refine ⟨h.nodup, List.nodup_singleton camera, ?_⟩
      intro a ha b hb hab
      rw [List.mem_singleton] at hb
      apply hnew
      rw [← hb, ← hab]
      exact ha
    · intro a ha
      by_cases hac : a = camera
      · simp [hac]
      · rw [Dict.get?_set_ne hac]
        apply h.placed
        simpa [hac] using ha

/-- The reservations stay, and what they book stays placed. -/
theorem Booked.keep (h : s.Booked) (hpend : s'.pending = s.pending)
    (hplaced : ∀ a ∈ s.pending, s'.placed.get? a = s.placed.get? a ∨ ∃ shard, s'.placed.get? a = some shard) : s'.Booked := by
  constructor
  · rw [hpend]
    exact h.nodup
  · intro a ha
    rw [hpend] at ha
    rcases hplaced a ha with heq | hset
    · rw [heq]
      exact h.placed a ha
    · exact hset

/-- One reservation goes, and the others stay placed. -/
theorem Booked.drop (h : s.Booked) {camera : String} (hpend : s'.pending = s.pending.filter fun a => decide (a ≠ camera))
    (hplaced : ∀ a, a ≠ camera → s'.placed.get? a = s.placed.get? a) : s'.Booked := by
  constructor
  · rw [hpend]
    exact h.nodup.filter _
  · intro a ha
    simp only [hpend, List.mem_filter, decide_eq_true_eq] at ha
    rw [hplaced a ha.2]
    exact h.placed a ha.1

theorem Booked.offer (h : s.Booked) (i : Nat) (c : AddCall) : (s.offer cfg i c).Booked := by
  unfold FleetRunner.offer
  split
  · exact h.keep rfl fun _ _ => .inl rfl
  · rename_i shard _ _
    split
    · refine h.keep rfl ?_
      intro a _
      by_cases hac : a = c.camera
      · exact .inr ⟨shard, by simp [hac]⟩
      · exact .inl (Dict.get?_set_ne hac)
    · exact h.keep rfl fun _ _ => .inl rfl

theorem Booked.reply (h : s.Booked) (i : Nat) (c : AddCall) (shard : Nat) (reply : AddReply) :
    (s.reply i c shard reply).Booked := by
  cases reply with
  | accepted => exact h.drop rfl fun _ _ => rfl
  | refused reason => exact h.keep rfl fun _ _ => .inl rfl
  | raised error => exact h.keep rfl fun _ _ => .inl rfl

theorem Booked.finish (h : s.Booked) (i : Nat) (c : AddCall) (outcome : AddOutcome) : (s.finish i c outcome).Booked := by
  unfold FleetRunner.finish
  dsimp only
  split
  · apply h.drop rfl
    intro a hac
    simp [Dict.get?_erase, hac]
  · exact h.keep rfl fun _ _ => .inl rfl

theorem Booked.step (h : s.Booked) (e : FleetEvent) : (s.step cfg e).1.Booked := by
  cases e with
  | add camera dead => exact h.add camera dead
  | remove camera dead =>
    rcases remove_cases cfg s camera dead with ⟨error, heq⟩ | ⟨shard, -, hpend, ⟨-, heq⟩ | heq⟩ <;>
      simp only [FleetRunner.step, heq]
    · exact h
    · exact h.keep rfl fun a ha => .inl (get?_erase_pending hpend ha)
    · exact h.keep rfl fun a ha => .inl (get?_erase_pending hpend ha)
  | forget => exact h.keep rfl fun a ha => .inl (by simp [FleetRunner.step, get?_forget, ha])
  | offer i =>
    simp only [FleetRunner.step]
    split
    · split
      · exact h.offer i _
      · exact h
    · exact h
  | reply i reply =>
    simp only [FleetRunner.step]
    split
    · split
      · exact h.reply i _ _ reply
      · exact h
    · exact h
  | finish i =>
    simp only [FleetRunner.step]
    split
    · split
      · exact h.finish i _ _
      · exact h
    · exact h

theorem Booked.size (h : s.Booked) : s.pending.length ≤ s.placed.size := by
  rw [← Dict.keys_length]
  apply List.Subperm.length_le
  apply List.subperm_of_subset h.nodup
  intro camera hmem
  obtain ⟨shard, hplaced⟩ := h.placed camera hmem
  exact Dict.mem_keys_of_mem (Dict.get?_eq_some_iff.mp hplaced)

/-! ## What is committed stays -/

/-- A removal of the camera, or the end of a drain. -/
def Lets (camera : String) : FleetEvent → Prop
  | .remove c _ => c = camera
  | .forget => True
  | _ => False

theorem active_of_calling {c : AddCall} {shard : Nat} (h : c.phase = .calling shard) : c.active = true := by
  simp [AddCall.active, h]

theorem Confirmed.add {camera : String} {shard : Nat} (h : s.Confirmed camera shard) (other : String) (dead : List Nat) :
    (s.add cfg other dead).1.Confirmed camera shard := by
  rcases add_cases cfg s other dead with heq | ⟨hfree, shard', order, heq⟩
  · rw [heq]
    exact h
  · rw [heq]
    have hne : camera ≠ other := by
      intro hco
      rw [← hco, h.1] at hfree
      cases hfree
    constructor
    · rw [Dict.get?_set_ne hne]
      exact h.1
    · simpa [hne] using h.2

/-- What a call that holds its reservation does leaves a committed camera alone. -/
theorem Confirmed.active {camera : String} {shard i : Nat} {c : AddCall} (h : s.Confirmed camera shard) (hr : s.Reserved)
    (hc : s.adds[i]? = some c) (hactive : c.active = true) : camera ≠ c.camera := by
  intro hcc
  apply h.2
  rw [hcc]
  exact (hr.holds i c hc hactive).1

theorem Confirmed.step {camera : String} {shard : Nat} (h : s.Confirmed camera shard) (hr : s.Reserved) {e : FleetEvent}
    (he : ¬Lets camera e) : (s.step cfg e).1.Confirmed camera shard := by
  cases e with
  | add other dead => exact h.add other dead
  | forget => exact absurd trivial he
  | remove other dead =>
    have hne : camera ≠ other := fun hco => he hco.symm
    rcases remove_cases cfg s other dead with ⟨error, heq⟩ | ⟨shard', -, -, ⟨-, heq⟩ | heq⟩ <;>
      simp only [FleetRunner.step, heq]
    · exact h
    · exact ⟨by simpa [Dict.get?_erase, hne] using h.1, h.2⟩
    · exact ⟨by simpa [Dict.get?_erase, hne] using h.1, h.2⟩
  | offer i =>
    simp only [FleetRunner.step]
    split
    · rename_i c hc
      split
      · rename_i hphase
        have hne := h.active hr hc (by simp [AddCall.active, hphase])
        obtain ⟨c', -, -, hpend, hplaced⟩ := offer_spec cfg s i c
        exact ⟨(hplaced camera hne).trans h.1, hpend ▸ h.2⟩
      · exact h
    · exact h
  | reply i reply =>
    simp only [FleetRunner.step]
    split
    · split
      · cases reply with
        | accepted => exact ⟨h.1, fun hmem => h.2 (List.mem_of_mem_filter hmem)⟩
        | refused reason => exact h
        | raised error => exact h
      · exact h
    · exact h
  | finish i =>
    simp only [FleetRunner.step]
    split
    · rename_i c hc
      split
      · rename_i outcome hphase
        unfold FleetRunner.finish
        dsimp only
        split
        · rename_i hpend
          have hne : camera ≠ c.camera := fun hcc => h.2 (hcc ▸ hpend)
          exact ⟨by simpa [Dict.get?_erase, hne] using h.1, fun hmem => h.2 (List.mem_of_mem_filter hmem)⟩
        · exact h
      · exact h
    · exact h

end FleetRunner

namespace Launcher

variable {groupOf : Dict String String} {s : Launcher}

/-- A removal of the camera, the end of a drain, or a start that clears the maps. -/
def Drops (s : Launcher) (camera : String) : LauncherEvent → Prop
  | .camera (.remove c _) => c = camera ∧ s.up = true
  | .camera .forget => s.drains ≠ 0
  | .clear _ => s.lifecycle = .planning
  | _ => False

instance (s : Launcher) (camera : String) (e : LauncherEvent) : Decidable (s.Drops camera e) := by
  unfold Drops
  split <;> infer_instance

/-- What a step does to the maps and the calls. -/
theorem step_cases (groupOf : Dict String String) (s : Launcher) (e : LauncherEvent) :
    (s.step groupOf e).1.toFleetRunner = s.toFleetRunner ∨
    (∃ e', e = .camera e' ∧ (∀ camera, FleetRunner.Lets camera e' → s.Drops camera e) ∧
      (s.step groupOf e).1.toFleetRunner = (s.toFleetRunner.step (s.config groupOf) e').1) ∨
    (∃ i c, e = .camera (.offer i) ∧ s.adds[i]? = some c ∧ c.phase = .offering ∧
      (s.step groupOf e).1.toFleetRunner = s.setCall i { c with phase := .finishing (.raised s.notRunning) }) ∨
    (∃ plan, e = .clear plan ∧ s.lifecycle = .planning ∧
      (s.step groupOf e).1.toFleetRunner = { s.toFleetRunner with placed := .empty, pending := [] }) := by
  cases e with
  | camera e' =>
    cases e' with
    | add camera dead =>
      simp only [step, cameraStep]
      split
      · exact .inr (.inl ⟨_, rfl, fun _ h => h.elim, rfl⟩)
      · exact .inl rfl
    | offer i =>
      simp only [step, cameraStep]
      split
      · rename_i c hc
        split
        · rename_i hphase
          unfold offer
          split
          · exact .inr (.inr (.inl ⟨i, c, rfl, hc, hphase, rfl⟩))
          · refine .inr (.inl ⟨_, rfl, fun _ h => h.elim, ?_⟩)
            simp [FleetRunner.step, hc, hphase, lift]
        · exact .inl rfl
      · exact .inl rfl
    | reply i reply => exact .inr (.inl ⟨_, rfl, fun _ h => h.elim, rfl⟩)
    | finish i => exact .inr (.inl ⟨_, rfl, fun _ h => h.elim, rfl⟩)
    | remove camera dead =>
      simp only [step, cameraStep]
      split
      · rename_i hup
        have hlets : ∀ c, FleetRunner.Lets c (.remove camera dead) → s.Drops c (.camera (.remove camera dead)) :=
          fun c h => ⟨h, hup⟩
        unfold remove
        split
        · split
          · exact .inl rfl
          · exact .inr (.inl ⟨_, rfl, hlets, rfl⟩)
        · exact .inr (.inl ⟨_, rfl, hlets, rfl⟩)
      · exact .inl rfl
    | forget =>
      simp only [step, cameraStep]
      split
      · exact .inl rfl
      · rename_i hdrains
        exact .inr (.inl ⟨_, rfl, fun _ _ => hdrains, rfl⟩)
  | clear plan =>
    simp only [step]
    split
    · rename_i hplanning
      exact .inr (.inr (.inr ⟨plan, rfl, hplanning, rfl⟩))
    · exact .inl rfl
  | drain => left; simp only [step]; split <;> rfl
  | start => left; simp only [step]; split <;> rfl
  | stop => left; simp only [step]; split <;> rfl
  | release => left; simp only [step]; split <;> rfl
  | fail => left; simp only [step]; split <;> rfl
  | connect shard =>
    left
    simp only [step]
    split
    · split <;> rfl
    · rfl
  | started =>
    left
    simp only [step]
    split
    · split <;> rfl
    · rfl

theorem Booked.step {s : Launcher} (h : s.Booked) (e : LauncherEvent) : (s.step groupOf e).1.Booked := by
  rcases step_cases groupOf s e with heq | ⟨e', -, -, heq⟩ | ⟨i, c, -, -, -, heq⟩ | ⟨plan, -, -, heq⟩
  · rw [heq]
    exact h
  · rw [heq]
    exact FleetRunner.Booked.step h e'
  · rw [heq]
    exact h.keep rfl fun _ _ => .inl rfl
  · rw [heq]
    exact ⟨List.nodup_nil, fun a ha => absurd ha List.not_mem_nil⟩

/-- No start clears the reservation of a call that is still asking, and no call that
has committed finds another reservation of its camera at its end. -/
def Undisturbed (s : Launcher) : LauncherEvent → Prop
  | .camera e => s.OwnFinish e
  | .clear _ => s.lifecycle = .planning → ∀ c ∈ s.adds, c.active = false
  | _ => True

instance (s : Launcher) : ∀ e, Decidable (s.Undisturbed e)
  | .camera e => inferInstanceAs (Decidable (s.OwnFinish e))
  | .clear _ => inferInstanceAs (Decidable (s.lifecycle = .planning → ∀ c ∈ s.adds, c.active = false))
  | .drain | .start | .connect _ | .started | .fail | .stop | .release => .isTrue trivial

theorem Reserved.step {s : Launcher} (h : s.Reserved) {e : LauncherEvent} (hund : s.Undisturbed e) :
    (s.step groupOf e).1.Reserved := by
  rcases step_cases groupOf s e with heq | ⟨e', rfl, -, heq⟩ | ⟨i, c, -, hc, hphase, heq⟩ | ⟨plan, rfl, hplanning, heq⟩
  · rw [heq]
    exact h
  · rw [heq]
    exact FleetRunner.Reserved.step h hund
  · rw [heq]
    have hactive : c.active = true := by simp [AddCall.active, hphase]
    obtain ⟨hpend, shard, hplaced, -⟩ := h.holds i c hc hactive
    exact h.move hc rfl rfl (fun _ => hactive) (fun _ => ⟨hpend, shard, hplaced, by simp⟩) fun _ _ hp => ⟨hp, rfl⟩
  · rw [heq]
    have hidle : ∀ (i : Nat) (c : AddCall), s.adds[i]? = some c → c.active = false :=
      fun i c hc => hund hplanning c (List.mem_of_getElem? hc)
    constructor
    · intro i c hc hactive
      rw [hidle i c hc] at hactive
      cases hactive
    · intro i j c c' hc _ hactive
      rw [hidle i c hc] at hactive
      cases hactive

theorem Confirmed.step {s : Launcher} {camera : String} {shard : Nat} (h : s.Confirmed camera shard) (hr : s.Reserved)
    {e : LauncherEvent} (he : ¬s.Drops camera e) : (s.step groupOf e).1.Confirmed camera shard := by
  rcases step_cases groupOf s e with heq | ⟨e', rfl, hlets, heq⟩ | ⟨i, c, -, hc, hphase, heq⟩ | ⟨plan, rfl, hplanning, -⟩
  · rw [heq]
    exact h
  · rw [heq]
    exact FleetRunner.Confirmed.step h hr fun hl => he (hlets camera hl)
  · rw [heq]
    exact h
  · exact absurd hplanning he

/-! ## Whole runs -/

/-- From when its shard accepts it, a camera is placed on that shard until it is
removed, drained or cleared. -/
def Kept (groupOf : Dict String String) (events : List LauncherEvent) : Prop :=
  ∀ seen i later, seen ++ .camera (.reply i .accepted) :: later <+: events →
    ∀ c shard, (run groupOf seen).1.adds[i]? = some c → c.phase = .calling shard →
      Machine.Along (step groupOf) (fun s e => ¬s.Drops c.camera e) (run groupOf (seen ++ [LauncherEvent.camera (.reply i .accepted)])).1 later →
        (run groupOf (seen ++ .camera (.reply i .accepted) :: later)).1.placed.get? c.camera = some shard

/-- When a call that was not accepted ends, its camera is not placed. -/
def TakenBack (groupOf : Dict String String) (events : List LauncherEvent) : Prop :=
  ∀ seen i, seen ++ [LauncherEvent.camera (.finish i)] <+: events →
    ∀ c outcome, (run groupOf seen).1.adds[i]? = some c → c.phase = .finishing outcome → (∀ shard, outcome ≠ .accepted shard) →
      (run groupOf (seen ++ [LauncherEvent.camera (.finish i)])).1.placed.get? c.camera = none

theorem run_append (groupOf : Dict String String) (seen later : List LauncherEvent) :
    (run groupOf (seen ++ later)).1 = (Machine.exec (step groupOf) (run groupOf seen).1 later).1 := by
  simp [run, Machine.exec_append]

theorem booked_run (groupOf : Dict String String) (events : List LauncherEvent) : (run groupOf events).1.Booked := by
  have hempty : ({} : Launcher).Booked := ⟨List.nodup_nil, fun a ha => absurd ha List.not_mem_nil⟩
  exact Machine.exec_induction (f := step groupOf) (I := fun _ s => s.Booked) hempty (fun _ s e h => Booked.step h e) events

/-- The commit of an accepted camera. -/
theorem confirmed_reply {s : Launcher} {i : Nat} {c : AddCall} {shard : Nat} (h : s.Reserved) (hc : s.adds[i]? = some c)
    (hphase : c.phase = .calling shard) :
    (s.step groupOf (.camera (.reply i .accepted))).1.Confirmed c.camera shard := by
  obtain ⟨-, shard', hplaced, hat⟩ := h.holds i c hc (FleetRunner.active_of_calling hphase)
  rw [hat shard hphase] at hplaced
  simp only [step, cameraStep, lift, FleetRunner.step, hc, hphase]
  exact ⟨hplaced, by simp [FleetRunner.reply]⟩

section

variable {events : List LauncherEvent} (hund : Machine.Along (step groupOf) Undisturbed {} events)

include hund

theorem along_seen {seen : List LauncherEvent} (hseen : seen <+: events) : Machine.Along (step groupOf) Undisturbed {} seen := by
  obtain ⟨rest, rfl⟩ := hseen
  exact (Machine.Along.append seen hund).1

theorem reserved_run {seen : List LauncherEvent} (hseen : seen <+: events) : (run groupOf seen).1.Reserved := by
  have hempty : ({} : Launcher).Reserved := ⟨fun i c hc => by simp at hc, fun i j c c' hc => by simp at hc⟩
  exact Machine.Along.invariant (P := fun s : Launcher => s.Reserved) (fun s e h hu => Reserved.step h hu) events hempty hund seen hseen

theorem kept : Kept groupOf events := by
  intro seen i later hprefix c shard hc hphase hdrops
  have hrun := (Machine.Along.append seen (along_seen hund hprefix)).2
  have hseen : seen <+: events := (List.prefix_append seen _).trans hprefix
  have hreserved := reserved_run hund hseen
  rw [run_append] at hdrops ⊢
  have hstart : (((run groupOf seen).1.step groupOf (.camera (.reply i .accepted))).1).Reserved ∧
      (((run groupOf seen).1.step groupOf (.camera (.reply i .accepted))).1).Confirmed c.camera shard :=
    ⟨Reserved.step hreserved hrun.1, confirmed_reply hreserved hc hphase⟩
  have hend := Machine.Along.invariant (P := fun s : Launcher => s.Reserved ∧ s.Confirmed c.camera shard)
    (fun s e h he => ⟨Reserved.step h.1 he.1, Confirmed.step h.2 h.1 he.2⟩) later hstart (hrun.2.and hdrops) later List.prefix_rfl
  exact hend.2.1

theorem takenBack : TakenBack groupOf events := by
  intro seen i hprefix c outcome hc hphase hout
  have hseen : seen <+: events := (List.prefix_append seen _).trans hprefix
  have hactive : c.active = true := by
    cases outcome with
    | accepted shard => exact absurd rfl (hout shard)
    | exhausted refusals => simp [AddCall.active, hphase]
    | raised error => simp [AddCall.active, hphase]
  have hpend := ((reserved_run hund hseen).holds i c hc hactive).1
  rw [run_append]
  simp only [Machine.exec, step, cameraStep, lift, FleetRunner.step, hc, hphase, FleetRunner.finish, if_pos hpend]
  simp [Dict.get?_erase]

end

/-- Every pending camera is placed and the confirmed cameras are never fewer than
none, in every run. In a run where no reservation is taken from its owner, what a
shard accepted stays placed on it and what was not accepted is taken back. -/
theorem reservations_resolved (groupOf : Dict String String) (events : List LauncherEvent) :
    (∀ seen, seen <+: events →
      (∀ camera ∈ (run groupOf seen).1.pending, ∃ shard, (run groupOf seen).1.placed.get? camera = some shard) ∧
      0 ≤ (run groupOf seen).1.cameras) ∧
    (Machine.Along (step groupOf) Undisturbed {} events → Kept groupOf events ∧ TakenBack groupOf events) := by
  constructor
  · intro seen _
    have h := booked_run groupOf seen
    refine ⟨h.placed, ?_⟩
    have hsize := FleetRunner.Booked.size h
    unfold cameras
    omega
  · intro hund
    exact ⟨kept hund, takenBack hund⟩

/-- Two shards come up. -/
def starting : List LauncherEvent := [.start, .clear [0, 1], .connect 0, .connect 1, .started]

/-- A drain goes by while one camera is being placed and another is refused. -/
def drainedMeanwhile : List LauncherEvent :=
  starting ++ ([.camera (.add "bow" []), .camera (.offer 0), .drain, .camera (.add "stern" []), .camera (.offer 1),
    .camera (.reply 1 (.raised "deadline exceeded")), .camera .forget, .camera (.reply 0 .accepted), .camera (.finish 0),
    .camera (.finish 1), .stop, .release] : List LauncherEvent)

theorem drainedMeanwhile_resolved :
    (run .empty drainedMeanwhile).1.placed.entries = [("bow", 0)] ∧
    Kept .empty drainedMeanwhile ∧ TakenBack .empty drainedMeanwhile :=
  ⟨by decide, (reservations_resolved .empty drainedMeanwhile).2 (by decide)⟩

/-- A camera is removed and added again before the first call is through its `finally`. -/
def addedAgain : List LauncherEvent :=
  starting ++ ([.camera (.add "bow" []), .camera (.offer 0), .camera (.reply 0 .accepted), .camera (.remove "bow" []),
    .camera (.add "bow" []), .camera (.offer 1), .camera (.finish 0), .camera (.reply 1 .accepted),
    .camera (.finish 1)] : List LauncherEvent)

/-- The fleet is restarted while a shard is being asked. -/
def restarted : List LauncherEvent :=
  starting ++ ([.camera (.add "bow" []), .camera (.offer 0), .stop, .release] : List LauncherEvent) ++ starting

/-- The camera of a call that was accepted is nowhere, and that of a call that every
shard refused is placed. -/
theorem reservation_lost :
    ¬Kept .empty addedAgain ∧ ¬Kept .empty (restarted ++ [.camera (.reply 0 .accepted), .camera (.finish 0)]) ∧
    ¬TakenBack .empty (restarted ++ [.camera (.reply 0 (.refused "draining")), .camera (.offer 0),
      .camera (.reply 0 (.refused "draining")), .camera (.offer 0), .camera (.finish 0)]) := by
  refine ⟨?_, ?_, ?_⟩
  · intro h
    have hplaced := h (starting ++ [.camera (.add "bow" []), .camera (.offer 0), .camera (.reply 0 .accepted),
      .camera (.remove "bow" []), .camera (.add "bow" []), .camera (.offer 1), .camera (.finish 0)]) 1 [.camera (.finish 1)]
      ⟨[], rfl⟩ { camera := "bow", order := [1], phase := .calling 0 } 0 (by decide) rfl (by decide)
    exact absurd hplaced (by decide)
  · intro h
    have hplaced := h restarted 0 [.camera (.finish 0)] List.prefix_rfl { camera := "bow", order := [1], phase := .calling 0 } 0
      (by decide) rfl (by decide)
    exact absurd hplaced (by decide)
  · intro h
    have hplaced := h (restarted ++ [.camera (.reply 0 (.refused "draining")), .camera (.offer 0),
      .camera (.reply 0 (.refused "draining")), .camera (.offer 0)]) 0 ⟨[], rfl⟩
      { camera := "bow", order := [], refusals := [(0, "draining"), (1, "draining")],
        phase := .finishing (.exhausted [(0, "draining"), (1, "draining")]) } _ (by decide) rfl (by simp)
    exact absurd hplaced (by decide)

end Launcher

end ShipInfer.Runners
