import ShipInfer.Runners.Deployment

/-!
# When no camera is run by two shards

A camera that a live shard runs is at that shard in the placement map, confirmed
or with its acceptance on the way back, or a removal of it is on its way there.
The map loses a camera a shard still runs when a reply is lost behind an accepted
placement, when a drain or a removal never reaches the shard, when the removal is
overtaken, and when a returning call takes back a reservation that is not its own.
-/

namespace ShipInfer.Runners

/-- The call holds its reservation: it has neither committed nor returned. -/
def AddCall.active (c : AddCall) : Bool :=
  match c.phase with
  | .finishing (.accepted _) => false
  | .returned _ => false
  | _ => true

namespace FleetRunner

variable {cfg : FleetConfig} {s s' : FleetRunner} {i : Nat} {c : AddCall}

/-- Each call that is not over holds the reservation of its own camera. -/
structure Reserved (s : FleetRunner) : Prop where
  holds : ∀ (i : Nat) (c : AddCall), s.adds[i]? = some c → c.active = true →
    c.camera ∈ s.pending ∧ ∃ shard, s.placed.get? c.camera = some shard ∧ ∀ callee, c.phase = .calling callee → shard = callee
  distinct : ∀ (i j : Nat) (c c' : AddCall), s.adds[i]? = some c → s.adds[j]? = some c' → c.active = true → c'.active = true →
    c.camera = c'.camera → i = j

/-- A call that was accepted finds no other reservation of its camera. -/
def OwnFinish (s : FleetRunner) : FleetEvent → Prop
  | .finish i => ∀ c ∈ s.adds[i]?, ∀ shard, c.phase = .finishing (.accepted shard) → c.camera ∉ s.pending
  | _ => True

instance (s : FleetRunner) : ∀ e, Decidable (s.OwnFinish e)
  | .finish i =>
    let committed (c : AddCall) : Bool := match c.phase with | .finishing (.accepted _) => true | _ => false
    decidable_of_iff (∀ c ∈ s.adds[i]?, committed c = true → c.camera ∉ s.pending) <| by
      refine forall_congr' fun c => imp_congr_right fun _ => ?_
      constructor
      · intro h shard hphase
        exact h (by simp [committed, hphase])
      · intro h hc
        simp only [committed] at hc
        split at hc
        · exact h _ ‹_›
        · cases hc
  | .add .. | .offer _ | .reply .. | .remove .. | .forget => .isTrue trivial

theorem getElem?_setCall (h : s.adds[i]? = some c) (c' : AddCall) (k : Nat) :
    (s.setCall i c').adds[k]? = if k = i then some c' else s.adds[k]? := by
  obtain ⟨hlt, -⟩ := List.getElem?_eq_some_iff.mp h
  by_cases hk : k = i
  · simp [setCall, hk, hlt]
  · simp [setCall, hk, Ne.symm hk]

/-- One call moves on: the others keep what they hold if it keeps its camera and its hands off theirs. -/
theorem Reserved.move (h : s.Reserved) (hc : s.adds[i]? = some c) {c' : AddCall} (hadds : s'.adds = (s.setCall i c').adds)
    (hcamera : c'.camera = c.camera) (hactive : c'.active = true → c.active = true)
    (hmine : c'.active = true → c.camera ∈ s'.pending ∧ ∃ shard, s'.placed.get? c.camera = some shard ∧
      ∀ callee, c'.phase = .calling callee → shard = callee)
    (hother : ∀ camera, camera ≠ c.camera ∨ c.active = false → camera ∈ s.pending →
      camera ∈ s'.pending ∧ s'.placed.get? camera = s.placed.get? camera) : s'.Reserved := by
  have hget (k : Nat) : s'.adds[k]? = if k = i then some c' else s.adds[k]? := by
    rw [hadds, getElem?_setCall hc]
  constructor
  · intro k b hk hb
    rw [hget] at hk
    split at hk
    · obtain rfl := Option.some.inj hk
      rw [hcamera]
      exact hmine hb
    · rename_i hne
      obtain ⟨hpend, shard, hplaced, hat⟩ := h.holds k b hk hb
      have hapart : b.camera ≠ c.camera ∨ c.active = false := by
        cases hact : c.active with
        | false => exact .inr rfl
        | true => exact .inl fun heq => hne (h.distinct k i b c hk hc hb hact heq)
      obtain ⟨hpend', hplaced'⟩ := hother b.camera hapart hpend
      exact ⟨hpend', shard, hplaced'.trans hplaced, hat⟩
  · intro k l a b hk hl ha hb hab
    rw [hget] at hk hl
    split at hk <;> split at hl
    · omega
    · rename_i hki _
      obtain rfl := Option.some.inj hk
      exact hki.trans (h.distinct i l c b hc hl (hactive ha) hb (hcamera ▸ hab))
    · rename_i _ hli
      obtain rfl := Option.some.inj hl
      exact (h.distinct k i a c hk hc ha (hactive hb) (hab.trans hcamera)).trans hli.symm
    · exact h.distinct k l a b hk hl ha hb hab

theorem add_cases (cfg : FleetConfig) (s : FleetRunner) (camera : String) (dead : List Nat) :
    (s.add cfg camera dead).1 = s ∨ s.placed.get? camera = none ∧ ∃ (shard : Nat) (order : List Nat),
      (s.add cfg camera dead).1 =
        { placed := s.placed.set camera shard
          pending := s.pending ++ [camera]
          adds := s.adds ++ [{ camera := camera, order := order }] } := by
  unfold FleetRunner.add
  split
  · exact .inl rfl
  · split
    · exact .inl rfl
    · rename_i hfree
      split
      · exact .inl rfl
      · split
        · exact .inl rfl
        · exact .inr ⟨hfree, _, _, rfl⟩

theorem getElem?_snoc {l : List AddCall} {new b : AddCall} {k : Nat} (hk : (l ++ [new])[k]? = some b) :
    l[k]? = some b ∨ k = l.length ∧ b = new := by
  rcases Nat.lt_or_ge k l.length with hlt | hge
  · exact .inl (by rwa [List.getElem?_append_left hlt] at hk)
  · rw [List.getElem?_append_right hge] at hk
    have hlt : k - l.length < 1 := (List.getElem?_eq_some_iff.mp hk).1
    have hk0 : k = l.length := by omega
    exact .inr ⟨hk0, by simpa [hk0] using hk.symm⟩

theorem getElem?_snoc_left {l : List AddCall} {new b : AddCall} {k : Nat} (hk : l[k]? = some b) :
    (l ++ [new])[k]? = some b := by
  rw [List.getElem?_append_left (List.getElem?_eq_some_iff.mp hk).1]
  exact hk

theorem Reserved.add (h : s.Reserved) (camera : String) (dead : List Nat) : (s.add cfg camera dead).1.Reserved := by
  rcases add_cases cfg s camera dead with heq | ⟨hfree, shard, order, heq⟩ <;> rw [heq]
  · exact h
  · have hfresh (k : Nat) (b : AddCall) (hk : s.adds[k]? = some b) (hb : b.active = true) : b.camera ≠ camera := by
      rintro rfl
      obtain ⟨-, shard', hplaced, -⟩ := h.holds k b hk hb
      simp [hfree] at hplaced
    constructor
    · intro k b hk hb
      rcases getElem?_snoc hk with hold | ⟨-, rfl⟩
      · obtain ⟨hpend, shard', hplaced, hat⟩ := h.holds k b hold hb
        refine ⟨List.mem_append_left _ hpend, shard', ?_, hat⟩
        rw [Dict.get?_set_ne (hfresh k b hold hb)]
        exact hplaced
      · exact ⟨by simp, _, Dict.get?_set_self _ _ _, by simp⟩
    · intro k l a b hk hl ha hb hab
      rcases getElem?_snoc hk with hold | ⟨rfl, rfl⟩ <;> rcases getElem?_snoc hl with hold' | ⟨rfl, rfl⟩
      · exact h.distinct k l a b hold hold' ha hb hab
      · exact absurd hab (hfresh k a hold ha)
      · exact absurd hab.symm (hfresh l b hold' hb)
      · rfl

theorem Reserved.offer (h : s.Reserved) (hc : s.adds[i]? = some c) (hphase : c.phase = .offering) :
    (s.offer cfg i c).Reserved := by
  have hactive : c.active = true := by simp [AddCall.active, hphase]
  obtain ⟨hpend, shard', hplaced, -⟩ := h.holds i c hc hactive
  unfold FleetRunner.offer
  split
  · exact h.move hc rfl rfl (fun _ => hactive) (fun _ => ⟨hpend, shard', hplaced, by simp⟩) fun _ _ hp => ⟨hp, rfl⟩
  · split
    · refine h.move hc rfl rfl (fun _ => hactive) (fun _ => ⟨hpend, _, Dict.get?_set_self _ _ _, ?_⟩) fun camera hne hp => ⟨hp, ?_⟩
      · rintro callee hcallee
        exact AddPhase.calling.inj hcallee
      · exact Dict.get?_set_ne (hne.resolve_right (by simp [hactive]))
    · exact h.move hc rfl rfl (fun _ => hactive) (fun _ => ⟨hpend, shard', hplaced, by simp [hphase]⟩) fun _ _ hp => ⟨hp, rfl⟩

theorem Reserved.reply (h : s.Reserved) {shard : Nat} (hc : s.adds[i]? = some c) (hphase : c.phase = .calling shard)
    (reply : AddReply) : (s.reply i c shard reply).Reserved := by
  have hactive : c.active = true := by simp [AddCall.active, hphase]
  obtain ⟨hpend, shard', hplaced, -⟩ := h.holds i c hc hactive
  cases reply with
  | accepted =>
    refine h.move hc rfl rfl (fun _ => hactive) (fun hb => by simp [AddCall.active] at hb) fun camera hne hp => ⟨?_, rfl⟩
    exact List.mem_filter.mpr ⟨hp, by simpa [hactive] using hne⟩
  | refused reason =>
    exact h.move hc rfl rfl (fun _ => hactive) (fun _ => ⟨hpend, shard', hplaced, by simp⟩) fun _ _ hp => ⟨hp, rfl⟩
  | raised error =>
    exact h.move hc rfl rfl (fun _ => hactive) (fun _ => ⟨hpend, shard', hplaced, by simp⟩) fun _ _ hp => ⟨hp, rfl⟩

theorem Reserved.finish (h : s.Reserved) {outcome : AddOutcome} (hc : s.adds[i]? = some c)
    (hphase : c.phase = .finishing outcome) (hown : s.OwnFinish (.finish i)) : (s.finish i c outcome).Reserved := by
  unfold FleetRunner.finish
  dsimp only
  split
  · rename_i hpend
    have hactive : c.active = true := by
      cases outcome with
      | accepted shard => exact absurd hpend (hown c hc shard hphase)
      | exhausted refusals => simp [AddCall.active, hphase]
      | raised error => simp [AddCall.active, hphase]
    refine h.move hc rfl rfl (fun _ => hactive) (fun hb => by simp [AddCall.active] at hb) fun camera hne hp => ?_
    have hne' : camera ≠ c.camera := hne.resolve_right (by simp [hactive])
    refine ⟨List.mem_filter.mpr ⟨hp, by simpa using hne'⟩, ?_⟩
    simp [Dict.get?_erase, hne']
  · refine h.move hc rfl rfl ?_ (fun hb => by simp [AddCall.active] at hb) fun _ _ hp => ⟨hp, rfl⟩
    intro hb
    simp [AddCall.active] at hb

/-- Placements that are not pending go, and no call minds. -/
theorem Reserved.shrink (h : s.Reserved) (hadds : s'.adds = s.adds) (hpend : s'.pending = s.pending)
    (hplaced : ∀ camera, camera ∈ s.pending → s'.placed.get? camera = s.placed.get? camera) : s'.Reserved := by
  constructor
  · intro k b hk hb
    obtain ⟨hp, shard, hat⟩ := h.holds k b (hadds ▸ hk) hb
    exact ⟨hpend ▸ hp, shard, hplaced b.camera hp ▸ hat⟩
  · intro k l a b hk hl
    exact h.distinct k l a b (hadds ▸ hk) (hadds ▸ hl)

/-- A removal drops a placement that is not pending, and goes out unless the shard is dead. -/
theorem remove_cases (cfg : FleetConfig) (s : FleetRunner) (camera : String) (dead : List Nat) :
    (∃ error, s.remove cfg camera dead = (s, .refused error)) ∨
      ∃ shard, s.placed.get? camera = some shard ∧ camera ∉ s.pending ∧
        (shard ∈ dead ∧ s.remove cfg camera dead = ({ s with placed := s.placed.erase camera }, .quiet) ∨
          s.remove cfg camera dead = ({ s with placed := s.placed.erase camera }, .removing camera shard)) := by
  unfold FleetRunner.remove
  split
  · exact .inl ⟨_, rfl⟩
  · split
    · exact .inl ⟨_, rfl⟩
    · rename_i shard hplaced
      split
      · exact .inl ⟨_, rfl⟩
      · rename_i hpend
        refine .inr ⟨shard, hplaced, hpend, ?_⟩
        split
        · exact .inl ⟨‹_›, rfl⟩
        · exact .inr rfl

theorem get?_erase_pending {camera other : String} (hpend : camera ∉ s.pending) (hother : other ∈ s.pending) :
    (s.placed.erase camera).get? other = s.placed.get? other := by
  have hne : other ≠ camera := fun heq => hpend (heq ▸ hother)
  simp [Dict.get?_erase, hne]

theorem get?_forget (camera : String) :
    s.forget.placed.get? camera = if camera ∈ s.pending then s.placed.get? camera else none := by
  rw [forget, Dict.get?_filter]
  cases s.placed.get? camera <;> by_cases hp : camera ∈ s.pending <;> simp [hp]

theorem Reserved.step (h : s.Reserved) {e : FleetEvent} (hown : s.OwnFinish e) : (s.step cfg e).1.Reserved := by
  cases e with
  | add camera dead => exact h.add camera dead
  | remove camera dead =>
    rcases remove_cases cfg s camera dead with ⟨error, heq⟩ | ⟨shard, -, hpend, ⟨-, heq⟩ | heq⟩ <;>
      simp only [FleetRunner.step, heq]
    · exact h
    · exact h.shrink rfl rfl fun _ => get?_erase_pending hpend
    · exact h.shrink rfl rfl fun _ => get?_erase_pending hpend
  | forget => exact h.shrink rfl rfl fun camera hp => by simp [FleetRunner.step, get?_forget, hp]
  | offer i =>
    simp only [FleetRunner.step]
    split
    · split
      · exact h.offer ‹_› ‹_›
      · exact h
    · exact h
  | reply i reply =>
    simp only [FleetRunner.step]
    split
    · split
      · exact h.reply ‹_› ‹_› reply
      · exact h
    · exact h
  | finish i =>
    simp only [FleetRunner.step]
    split
    · split
      · exact h.finish ‹_› ‹_› hown
      · exact h
    · exact h

theorem offer_spec (cfg : FleetConfig) (s : FleetRunner) (i : Nat) (c : AddCall) :
    ∃ c' : AddCall, (s.offer cfg i c).adds = (s.setCall i c').adds ∧ c'.camera = c.camera ∧
      (s.offer cfg i c).pending = s.pending ∧
      ∀ camera, camera ≠ c.camera → (s.offer cfg i c).placed.get? camera = s.placed.get? camera := by
  unfold FleetRunner.offer
  split
  · exact ⟨_, rfl, rfl, rfl, fun _ _ => rfl⟩
  · split
    · exact ⟨_, rfl, rfl, rfl, fun _ hne => Dict.get?_set_ne hne⟩
    · exact ⟨_, rfl, rfl, rfl, fun _ _ => rfl⟩

theorem finish_spec (s : FleetRunner) (i : Nat) (c : AddCall) (outcome : AddOutcome) :
    ∃ c' : AddCall, (s.finish i c outcome).adds = (s.setCall i c').adds ∧ c'.camera = c.camera ∧
      (∀ camera, camera ≠ c.camera → (s.finish i c outcome).placed.get? camera = s.placed.get? camera) ∧
      ∀ camera, camera ∈ (s.finish i c outcome).pending → camera ∈ s.pending := by
  unfold FleetRunner.finish
  dsimp only
  split
  · refine ⟨_, rfl, rfl, fun camera hne => ?_, fun _ hmem => List.mem_of_mem_filter hmem⟩
    simp [Dict.get?_erase, hne]
  · exact ⟨_, rfl, rfl, fun _ _ => rfl, fun _ => id⟩

end FleetRunner

/-! ## The shards -/

namespace ShardService

variable {s : ShardService}

/-- Its runner, if it has one, takes cameras. -/
def Manages (s : ShardService) : Prop := ∀ r, s.runner = some r → r.managesCameras = true

theorem addCamera_cases (s : ShardService) (camera : String) (answer : Except String Unit) :
    (s.addCamera (.ok camera) answer).2 = .accepted ∧
        (s.addCamera (.ok camera) answer).1.cameras = s.cameras ++ [camera] ∨
      (s.addCamera (.ok camera) answer).2 ≠ .accepted ∧ (s.addCamera (.ok camera) answer).1.cameras = s.cameras := by
  simp only [addCamera]
  split
  · exact .inr ⟨by simp, rfl⟩
  · exact .inr ⟨by simp, rfl⟩
  · rename_i r _ hr
    split
    · exact .inr ⟨by simp, rfl⟩
    · rename_i r' hadd
      refine .inl ⟨rfl, ?_⟩
      have hcameras : r'.cameras = r.cameras ++ [camera] := by
        unfold Runner.addCamera at hadd
        split at hadd
        · cases hadd
        · split at hadd
          · cases hadd
          · split at hadd
            · cases hadd
            · cases answer with
              | error e => cases hadd
              | ok u =>
                cases hadd
                rfl
      simp [cameras, hr, hcameras]

theorem Manages.addCamera (h : s.Manages) (camera : String) (answer : Except String Unit) :
    (s.addCamera (.ok camera) answer).1.Manages := by
  simp only [ShardService.addCamera]
  split
  · exact h
  · exact h
  · rename_i r _ hr
    split
    · exact h
    · rename_i r' hadd
      intro r'' hr''
      obtain rfl : r' = r'' := Option.some.inj hr''
      unfold Runner.addCamera at hadd
      split at hadd
      · cases hadd
      · split at hadd
        · cases hadd
        · split at hadd
          · cases hadd
          · cases answer with
            | error e => cases hadd
            | ok u =>
              cases hadd
              exact h r hr

theorem Manages.removeCamera (h : s.Manages) (camera : String) (answer : Except String Bool) :
    (s.removeCamera camera answer).1.Manages ∧
      (s.removeCamera camera answer).1.cameras = s.cameras.filter fun c => decide (c ≠ camera) := by
  unfold ShardService.removeCamera
  split
  · rename_i hnone
    exact ⟨h, by simp [cameras, hnone]⟩
  · rename_i r hr
    have hmanages : r.managesCameras = true := h r hr
    simp only [Manages, cameras, Runner.removeCamera, hmanages, hr]
    by_cases hmem : camera ∈ r.cameras
    · simp [hmem]
    · have hkeep : r.cameras.filter (fun c => decide (c ≠ camera)) = r.cameras :=
        List.filter_eq_self.mpr fun c hc => decide_eq_true fun heq => hmem (heq ▸ hc)
      simpa [hmem, hmanages] using hkeep.symm

theorem Manages.drain (h : s.Manages) (answer : DrainAnswer) :
    (s.drain answer).1.Manages ∧ ∀ c ∈ (s.drain answer).1.cameras, c ∈ s.cameras := by
  unfold ShardService.drain ShardService.drainRunner
  split
  · rename_i hnone
    exact ⟨fun r hr => h r hr, by simp [cameras, hnone]⟩
  · rename_i r hr
    have hmanages : r.managesCameras = true := h r hr
    simp only [Manages, cameras, Runner.drain, hmanages, hr]
    cases answer with
    | released abandoned => simp
    | raised e released => cases released <;> simp [hmanages]

end ShardService

/-! ## The deployment -/

namespace Deployment

variable {cfg : FleetConfig} {d d' : Deployment}

/-- The shard has accepted the camera, and the launcher does not know yet. -/
def Accepting (d : Deployment) (camera : String) (shard : Nat) : Prop :=
  ∃ (i : Nat) (c : AddCall), d.fleet.adds[i]? = some c ∧ c.camera = camera ∧ c.phase = .calling shard ∧
    d.answers i = some .accepted

/-- A removal of the camera is on its way to the shard. -/
def Going (d : Deployment) (camera : String) (shard : Nat) : Prop :=
  ∃ (j : Nat) (r : RemoveCall), d.removals[j]? = some r ∧ r.waiting = true ∧ r.camera = camera ∧ r.shard = shard

def Held (d : Deployment) (camera : String) (shard : Nat) : Prop :=
  d.fleet.placed.get? camera = some shard ∧ (camera ∉ d.fleet.pending ∨ d.Accepting camera shard)

structure Inv (d : Deployment) : Prop where
  reserved : d.fleet.Reserved
  answered : ∀ i, d.answers i ≠ none → ∃ c shard, d.fleet.adds[i]? = some c ∧ c.phase = .calling shard
  known : ∀ camera shard, d.Runs shard camera → d.Held camera shard ∨ d.Going camera shard
  manages : ∀ shard, (d.shards shard).Manages

/-- No shard that still runs a camera is forgotten, and none is asked to take a
camera over the head of a removal. -/
def LetsGo (d : Deployment) : DeploymentEvent → Prop
  | .addHandled i _ =>
    ∀ p ∈ d.callee i, ∀ r ∈ d.removals, r.waiting = true → r.camera = p.1 → r.shard = p.2 ∨ ¬d.Runs r.shard r.camera
  | .addRaises i _ => d.answers i ≠ some .accepted
  | .finish i => d.fleet.OwnFinish (.finish i)
  | .removeRaises j => ∀ r ∈ d.removals[j]?, r.waiting = true → ¬d.Runs r.shard r.camera
  | .forget k => d.drains[k]? = some (some []) →
    ∀ p ∈ d.fleet.placed.entries, p.1 ∉ d.fleet.pending → ¬d.Runs p.2 p.1
  | _ => True

instance (d : Deployment) : ∀ e, Decidable (d.LetsGo e)
  | .addHandled .. => inferInstanceAs (Decidable (∀ _ ∈ _, _))
  | .addRaises .. => inferInstanceAs (Decidable (_ ≠ _))
  | .finish i => inferInstanceAs (Decidable (d.fleet.OwnFinish (.finish i)))
  | .removeRaises _ => inferInstanceAs (Decidable (∀ _ ∈ _, _))
  | .forget _ => inferInstanceAs (Decidable (_ → _))
  | .add .. | .offer _ | .addReplied _ | .remove .. | .removeHandled .. | .drain | .drainShard .. | .dies _ => .isTrue trivial

/-- A call that no shard has accepted holds a camera that runs only where it is to be removed. -/
theorem Inv.going (h : d.Inv) {i : Nat} {c : AddCall} (hc : d.fleet.adds[i]? = some c) (hactive : c.active = true)
    (hnot : ∀ shard, c.phase = .calling shard → d.answers i ≠ some .accepted) {shard : Nat}
    (hruns : d.Runs shard c.camera) : d.Going c.camera shard := by
  rcases h.known _ _ hruns with ⟨-, hpend | ⟨k, b, hk, hcamera, hphase, hanswer⟩⟩ | hgoing
  · exact absurd (h.reserved.holds i c hc hactive).1 hpend
  · have hb : b.active = true := by simp [AddCall.active, hphase]
    obtain rfl : k = i := h.reserved.distinct k i b c hk hc hb hactive hcamera
    obtain rfl : b = c := Option.some.inj (hk.symm.trans hc)
    exact absurd hanswer (hnot shard hphase)
  · exact hgoing

/-- One call moves on, and only its own camera is touched. -/
theorem Inv.call (h : d.Inv) {i : Nat} {c c' : AddCall} (hc : d.fleet.adds[i]? = some c)
    (hadds : d'.fleet.adds = (d.fleet.setCall i c').adds) (hcamera : c'.camera = c.camera)
    (hreserved : d'.fleet.Reserved) (hshards : d'.shards = d.shards) (hdead : d'.dead = d.dead)
    (hremovals : d'.removals = d.removals)
    (hanswers : ∀ k, d'.answers k ≠ none → k ≠ i ∧ d'.answers k = d.answers k)
    (hkept : ∀ k, k ≠ i → d'.answers k = d.answers k)
    (hplaced : ∀ camera, camera ≠ c.camera → d'.fleet.placed.get? camera = d.fleet.placed.get? camera)
    (hpend : ∀ camera, camera ≠ c.camera → camera ∈ d'.fleet.pending → camera ∈ d.fleet.pending)
    (hmine : ∀ shard, d.Runs shard c.camera → d'.fleet.placed.get? c.camera = some shard ∧ c.camera ∉ d'.fleet.pending ∨
      d.Going c.camera shard) : d'.Inv := by
  have hget (k : Nat) : d'.fleet.adds[k]? = if k = i then some c' else d.fleet.adds[k]? := by
    rw [hadds, FleetRunner.getElem?_setCall hc]
  have hgoing (camera : String) (shard : Nat) (hg : d.Going camera shard) : d'.Going camera shard := by
    unfold Going
    rw [hremovals]
    exact hg
  refine ⟨hreserved, fun k hk => ?_, fun camera shard hruns => ?_, fun shard => ?_⟩
  · obtain ⟨hne, heq⟩ := hanswers k hk
    obtain ⟨b, shard, hb, hphase⟩ := h.answered k (heq ▸ hk)
    exact ⟨b, shard, by rw [hget, if_neg hne, hb], hphase⟩
  · have hruns' : d.Runs shard camera := by
      unfold Runs at hruns ⊢
      rwa [hshards, hdead] at hruns
    by_cases heq : camera = c.camera
    · subst heq
      rcases hmine shard hruns' with ⟨hp, hn⟩ | hg
      · exact .inl ⟨hp, .inl hn⟩
      · exact .inr (hgoing _ _ hg)
    · rcases h.known camera shard hruns' with ⟨hp, hn | ⟨k, b, hk, hb, hphase, hanswer⟩⟩ | hg
      · exact .inl ⟨(hplaced camera heq).trans hp, .inl fun hmem => hn (hpend camera heq hmem)⟩
      · have hne : k ≠ i := by
          rintro rfl
          obtain rfl : b = c := Option.some.inj (hk.symm.trans hc)
          exact heq hb.symm
        refine .inl ⟨(hplaced camera heq).trans hp, .inr ⟨k, b, ?_, hb, hphase, (hkept k hne).trans hanswer⟩⟩
        rw [hget, if_neg hne, hk]
      · exact .inr (hgoing _ _ hg)
  · rw [hshards]
    exact h.manages shard

/-- A call that waits for no shard has no answer. -/
theorem Inv.unanswered (h : d.Inv) {i : Nat} {c : AddCall} (hc : d.fleet.adds[i]? = some c)
    (hphase : ∀ shard, c.phase ≠ .calling shard) : ∀ k, d.answers k ≠ none → k ≠ i ∧ d.answers k = d.answers k := by
  intro k hk
  refine ⟨?_, rfl⟩
  rintro rfl
  obtain ⟨b, shard, hb, hcalling⟩ := h.answered k hk
  obtain rfl : b = c := Option.some.inj (hb.symm.trans hc)
  exact hphase shard hcalling

theorem Inv.offer (h : d.Inv) (i : Nat) : (d.launch cfg (.offer i)).Inv := by
  simp only [launch, FleetRunner.step]
  split
  · rename_i c hc
    split
    · rename_i hphase
      have hactive : c.active = true := by simp [AddCall.active, hphase]
      obtain ⟨c', hadds, hcamera, hpend, hplaced⟩ := FleetRunner.offer_spec cfg d.fleet i c
      refine h.call hc hadds hcamera (h.reserved.offer hc hphase) rfl rfl rfl (h.unanswered hc (by simp [hphase]))
        (fun _ _ => rfl) hplaced (fun _ _ hmem => hpend ▸ hmem) fun shard hruns => .inr ?_
      exact h.going hc hactive (by simp [hphase]) hruns
    · exact h
  · exact h

/-- A reply comes back: an acceptance, or one the shard has not accepted for. -/
theorem Inv.reply (h : d.Inv) {i : Nat} {c : AddCall} {shard : Nat} (hc : d.fleet.adds[i]? = some c)
    (hphase : c.phase = .calling shard) {reply : AddReply} (htrue : reply ≠ .accepted → d.answers i ≠ some .accepted) :
    ((d.launch cfg (.reply i reply)).setAnswer i none).Inv := by
  have hreserved : (d.fleet.step cfg (.reply i reply)).1.Reserved := h.reserved.step trivial
  have hfleet : (d.fleet.step cfg (.reply i reply)).1 = d.fleet.reply i c shard reply := by
    simp [FleetRunner.step, hc, hphase]
  rw [hfleet] at hreserved
  have hactive : c.active = true := by simp [AddCall.active, hphase]
  have hanswers (k : Nat) (hk : Function.update d.answers i none k ≠ none) :
      k ≠ i ∧ Function.update d.answers i none k = d.answers k := by
    by_cases hne : k = i
    · simp [hne] at hk
    · exact ⟨hne, Function.update_of_ne hne _ _⟩
  have hkept (k : Nat) (hne : k ≠ i) : Function.update d.answers i none k = d.answers k := Function.update_of_ne hne _ _
  simp only [launch, setAnswer, hfleet]
  cases reply with
  | accepted =>
    refine h.call hc rfl rfl hreserved rfl rfl rfl hanswers hkept (fun _ _ => rfl) (fun _ _ hmem => List.mem_of_mem_filter hmem) ?_
    intro shard' hruns
    rcases h.known _ _ hruns with ⟨hp, -⟩ | hg
    · exact .inl ⟨hp, by simp [FleetRunner.reply]⟩
    · exact .inr hg
  | refused reason =>
    exact h.call hc rfl rfl hreserved rfl rfl rfl hanswers hkept (fun _ _ => rfl) (fun _ _ => id)
      fun _ hruns => .inr (h.going hc hactive (fun _ _ => htrue (by simp)) hruns)
  | raised error =>
    exact h.call hc rfl rfl hreserved rfl rfl rfl hanswers hkept (fun _ _ => rfl) (fun _ _ => id)
      fun _ hruns => .inr (h.going hc hactive (fun _ _ => htrue (by simp)) hruns)

theorem toAddReply_ne {reply : ServiceReply} (h : reply.toAddReply ≠ .accepted) : reply ≠ .accepted := by
  rintro rfl
  exact h rfl

theorem Inv.addReplied (h : d.Inv) (i : Nat) : (d.addReplied cfg i).Inv := by
  unfold Deployment.addReplied
  split
  · exact h
  · rename_i reply hanswer
    obtain ⟨c, shard, hc, hphase⟩ := h.answered i (by simp [hanswer])
    refine h.reply hc hphase fun hne heq => toAddReply_ne hne ?_
    exact Option.some.inj (hanswer.symm.trans heq)

theorem callee_eq_some {i : Nat} {p : String × Nat} (h : d.callee i = some p) :
    ∃ c, d.fleet.adds[i]? = some c ∧ c.camera = p.1 ∧ c.phase = .calling p.2 := by
  unfold callee at h
  split at h
  · rename_i camera order refusals shard hc
    cases h
    exact ⟨_, hc, rfl, rfl⟩
  · cases h

theorem Inv.addRaises (h : d.Inv) (i : Nat) (error : String) (hgo : d.LetsGo (.addRaises i error)) :
    (d.addRaises cfg i error).Inv := by
  unfold Deployment.addRaises
  split
  · exact h
  · rename_i p hp
    obtain ⟨c, hc, -, hphase⟩ := callee_eq_some hp
    exact h.reply hc hphase fun _ => hgo

theorem Inv.finish (h : d.Inv) (i : Nat) (hgo : d.LetsGo (.finish i)) : (d.launch cfg (.finish i)).Inv := by
  simp only [launch, FleetRunner.step]
  split
  · rename_i c hc
    split
    · rename_i outcome hphase
      have hfree := h.unanswered hc (by simp [hphase])
      obtain ⟨c', hadds, hcamera, hplaced, hpend⟩ := FleetRunner.finish_spec d.fleet i c outcome
      refine h.call hc hadds hcamera (h.reserved.finish hc hphase hgo) rfl rfl rfl hfree (fun _ _ => rfl) hplaced
        (fun _ _ hmem => hpend _ hmem) fun shard hruns => ?_
      by_cases hmem : c.camera ∈ d.fleet.pending
      · have hactive : c.active = true := by
          cases outcome with
          | accepted shard => exact absurd hmem (hgo c hc shard hphase)
          | exhausted refusals => simp [AddCall.active, hphase]
          | raised error => simp [AddCall.active, hphase]
        exact .inr (h.going hc hactive (by simp [hphase]) hruns)
      · rcases h.known _ _ hruns with ⟨hp, -⟩ | hg
        · exact .inl ⟨by simpa [FleetRunner.finish, hmem, FleetRunner.setCall] using hp, fun hmem' => hmem (hpend _ hmem')⟩
        · exact .inr hg
    · exact h
  · exact h

theorem Inv.add (h : d.Inv) (camera : String) (dead : List Nat) : (d.launch cfg (.add camera dead)).Inv := by
  have hreserved : (d.fleet.step cfg (.add camera dead)).1.Reserved := h.reserved.step trivial
  rcases FleetRunner.add_cases cfg d.fleet camera dead with heq | ⟨hfree, shard, order, heq⟩ <;>
    simp only [launch, FleetRunner.step, heq] at hreserved ⊢
  · exact h
  · refine ⟨hreserved, fun k hk => ?_, fun c shard' hruns => ?_, h.manages⟩
    · obtain ⟨b, shard', hb, hphase⟩ := h.answered k hk
      exact ⟨b, shard', FleetRunner.getElem?_snoc_left hb, hphase⟩
    · rcases h.known c shard' hruns with ⟨hp, hheld⟩ | hg
      · have hne : c ≠ camera := by
          rintro rfl
          simp [hfree] at hp
        refine .inl ⟨(Dict.get?_set_ne hne).trans hp, hheld.imp (fun hn => by simp [hn, hne]) ?_⟩
        rintro ⟨k, b, hk, hb, hphase, hanswer⟩
        exact ⟨k, b, FleetRunner.getElem?_snoc_left hk, hb, hphase, hanswer⟩
      · exact .inr hg

theorem Inv.remove (h : d.Inv) (camera : String) (polled : List Nat) : (d.remove cfg camera polled).Inv := by
  have hreserved : (d.fleet.step cfg (.remove camera (d.seen polled))).1.Reserved := h.reserved.step trivial
  unfold Deployment.remove
  simp only [FleetRunner.step] at hreserved ⊢
  have hother {c : String} {shard : Nat} (hne : c ≠ camera) (hp : d.fleet.placed.get? c = some shard) :
      (d.fleet.placed.erase camera).get? c = some shard := by simpa [Dict.get?_erase, hne] using hp
  rcases FleetRunner.remove_cases cfg d.fleet camera (d.seen polled) with ⟨error, heq⟩ |
    ⟨shard, hplaced, hpend, ⟨hdead, heq⟩ | heq⟩ <;> rw [heq] at hreserved ⊢
  · exact h
  · refine ⟨hreserved, h.answered, fun c shard' hruns => ?_, h.manages⟩
    rcases h.known c shard' hruns with ⟨hp, hheld⟩ | hg
    · have hne : c ≠ camera := by
        rintro rfl
        obtain rfl : shard = shard' := Option.some.inj (hplaced.symm.trans hp)
        exact hruns.1 (of_decide_eq_true (List.mem_filter.mp hdead).2)
      exact .inl ⟨hother hne hp, hheld⟩
    · exact .inr hg
  · refine ⟨hreserved, h.answered, fun c shard' hruns => ?_, h.manages⟩
    have hmore {c : String} {shard' : Nat} (hg : d.Going c shard') : ∃ (j : Nat) (r : RemoveCall),
        (d.removals ++ [{ camera := camera, shard := shard }])[j]? = some r ∧ r.waiting = true ∧ r.camera = c ∧
          r.shard = shard' := by
      obtain ⟨j, r, hj, hr⟩ := hg
      refine ⟨j, r, ?_, hr⟩
      rw [List.getElem?_append_left (List.getElem?_eq_some_iff.mp hj).1]
      exact hj
    rcases h.known c shard' hruns with ⟨hp, hheld⟩ | hg
    · by_cases hne : c = camera
      · subst hne
        obtain rfl : shard = shard' := Option.some.inj (hplaced.symm.trans hp)
        exact .inr ⟨d.removals.length, { camera := c, shard := shard }, by simp, rfl, rfl, rfl⟩
      · exact .inl ⟨hother hne hp, hheld⟩
    · exact .inr (hmore hg)

theorem Inv.forget (h : d.Inv) (k : Nat) (hgo : d.LetsGo (.forget k)) : (d.forget cfg k).Inv := by
  have hreserved : (d.fleet.step cfg .forget).1.Reserved := h.reserved.step trivial
  unfold Deployment.forget
  split
  · rename_i hdone
    refine ⟨hreserved, h.answered, fun c shard hruns => ?_, h.manages⟩
    rcases h.known c shard hruns with ⟨hp, hheld⟩ | hg
    · have hpend : c ∈ d.fleet.pending := by
        by_contra hn
        exact hgo hdone (c, shard) (Dict.get?_eq_some_iff.mp hp) hn hruns
      refine .inl ⟨?_, hheld⟩
      simpa [launch, FleetRunner.step, FleetRunner.get?_forget, hpend] using hp
    · exact .inr hg
  · exact h

/-- What a shard runs after an update of one shard. -/
theorem runs_setShard {shard shard' : Nat} {t : ShardService} {c : String} :
    (d.setShard shard t).Runs shard' c ↔ shard' ∉ d.dead ∧ c ∈ (if shard' = shard then t else d.shards shard').cameras := by
  unfold Runs setShard
  by_cases heq : shard' = shard
  · simp [heq]
  · simp [heq, Function.update_of_ne]

theorem manages_setShard (h : d.Inv) (shard : Nat) {t : ShardService} (ht : t.Manages) (shard' : Nat) :
    ((d.setShard shard t).shards shard').Manages := by
  unfold setShard
  by_cases heq : shard' = shard
  · simpa [heq] using ht
  · simpa [Function.update_of_ne heq] using h.manages shard'

/-- What runs after a shard handles an `AddCamera`: what did, or the camera where it was accepted. -/
theorem runs_addHandled {i : Nat} {answer : Except String Unit} {shard : Nat} {c : String}
    (hruns : (d.addHandled i answer).Runs shard c) :
    d.Runs shard c ∨ d.callee i = some (c, shard) ∧ (d.addHandled i answer).answers i = some .accepted := by
  unfold Deployment.addHandled at hruns ⊢
  split at hruns
  · exact .inl hruns
  · rename_i camera shard' hcallee
    split at hruns
    · exact .inl hruns
    · rename_i hfree
      rw [if_neg hfree]
      obtain ⟨hlive, hmem⟩ := runs_setShard.mp (show (d.setShard shard' _).Runs shard c from hruns)
      split at hmem
      · rename_i heq
        subst heq
        rcases ShardService.addCamera_cases (d.shards shard) camera answer with ⟨hreply, hcameras⟩ | ⟨-, hcameras⟩
        · rw [hcameras, List.mem_append, List.mem_singleton] at hmem
          rcases hmem with hold | rfl
          · exact .inl ⟨hlive, hold⟩
          · exact .inr ⟨hcallee, by simp [setAnswer, hreply]⟩
        · rw [hcameras] at hmem
          exact .inl ⟨hlive, hmem⟩
      · exact .inl ⟨hlive, hmem⟩

theorem Inv.addHandled (h : d.Inv) (i : Nat) (answer : Except String Unit) : (d.addHandled i answer).Inv := by
  have hruns {shard : Nat} {c : String} (hr : (d.addHandled i answer).Runs shard c) := runs_addHandled hr
  unfold Deployment.addHandled at hruns ⊢
  split
  · exact h
  · rename_i camera shard hcallee
    obtain ⟨b, hb, hcamera, hphase⟩ := callee_eq_some hcallee
    simp only [hcallee] at hruns
    split
    · exact h
    · rename_i hfree
      rw [if_neg hfree] at hruns
      have hnone : d.answers i = none := by
        by_contra hn
        exact hfree (.inr hn)
      have hkept (k : Nat) (hk : k ≠ i) (reply : Option ServiceReply) :
          Function.update d.answers i reply k = d.answers k := Function.update_of_ne hk _ _
      refine ⟨h.reserved, fun k hk => ?_, fun c shard' hr => ?_, ?_⟩
      · by_cases hki : k = i
        · subst hki
          exact ⟨b, shard, hb, hphase⟩
        · exact h.answered k (by simpa [setAnswer, setShard, hkept k hki] using hk)
      · rcases hruns hr with hold | ⟨hnew, hanswer⟩
        · rcases h.known c shard' hold with ⟨hp, hn | ⟨k, a, hk, ha, haphase, hanswer⟩⟩ | hg
          · exact .inl ⟨hp, .inl hn⟩
          · have hki : k ≠ i := by
              rintro rfl
              simp [hnone] at hanswer
            refine .inl ⟨hp, .inr ⟨k, a, hk, ha, haphase, ?_⟩⟩
            simpa [setAnswer, setShard, hkept k hki] using hanswer
          · exact .inr hg
        · obtain ⟨rfl, rfl⟩ := Prod.mk.inj (Option.some.inj hnew)
          have hactive : b.active = true := by simp [AddCall.active, hphase]
          obtain ⟨-, at', hplaced, hat⟩ := h.reserved.holds i b hb hactive
          have hcalling : b.phase = .calling shard := hphase
          have hmine : b.camera = camera := hcamera
          rw [hmine, hat shard hcalling] at hplaced
          exact .inl ⟨hplaced, .inr ⟨i, b, hb, hmine, hcalling, hanswer⟩⟩
      · exact manages_setShard h shard ((h.manages shard).addCamera camera answer)

theorem Inv.removeHandled (h : d.Inv) (j : Nat) (answer : Except String Bool) : (d.removeHandled j answer).Inv := by
  unfold Deployment.removeHandled
  split
  · exact h
  · rename_i r hr
    split
    · exact h
    · obtain ⟨hmanages, hcameras⟩ := (h.manages r.shard).removeCamera r.camera answer
      refine ⟨h.reserved, h.answered, fun c shard hruns => ?_, manages_setShard h r.shard hmanages⟩
      obtain ⟨hlive, hmem⟩ := runs_setShard.mp (show (d.setShard r.shard _).Runs shard c from hruns)
      have hold : d.Runs shard c ∧ (shard = r.shard → c ≠ r.camera) := by
        split at hmem
        · rename_i heq
          subst heq
          rw [hcameras, List.mem_filter] at hmem
          exact ⟨⟨hlive, hmem.1⟩, fun _ => of_decide_eq_true hmem.2⟩
        · rename_i hne
          exact ⟨⟨hlive, hmem⟩, fun heq => absurd heq hne⟩
      rcases h.known c shard hold.1 with hheld | ⟨k, q, hk, hwaiting, rfl, rfl⟩
      · exact .inl hheld
      · have hkj : k ≠ j := by
          rintro rfl
          obtain rfl : r = q := Option.some.inj (hr.symm.trans hk)
          exact hold.2 rfl rfl
        refine .inr ⟨k, q, ?_, hwaiting, rfl, rfl⟩
        show (d.removals.set j _)[k]? = some q
        rw [List.getElem?_set_ne hkj.symm, hk]

theorem Inv.removeRaises (h : d.Inv) (j : Nat) (hgo : d.LetsGo (.removeRaises j)) : (d.removeRaises j).Inv := by
  unfold Deployment.removeRaises
  split
  · exact h
  · rename_i r hr
    refine ⟨h.reserved, h.answered, fun c shard hruns => ?_, h.manages⟩
    rcases h.known c shard hruns with hheld | ⟨k, q, hk, hwaiting, rfl, rfl⟩
    · exact .inl hheld
    · have hkj : k ≠ j := by
        rintro rfl
        exact hgo q hk hwaiting hruns
      refine .inr ⟨k, q, ?_, hwaiting, rfl, rfl⟩
      show (d.removals.set j _)[k]? = some q
      rw [List.getElem?_set_ne hkj.symm, hk]

/-- Shards may stop running cameras at any time. -/
theorem Inv.less (h : d.Inv) (hfleet : d'.fleet = d.fleet) (hanswers : d'.answers = d.answers)
    (hremovals : d'.removals = d.removals) (hruns : ∀ shard c, d'.Runs shard c → d.Runs shard c)
    (hmanages : ∀ shard, (d'.shards shard).Manages) : d'.Inv := by
  refine ⟨hfleet ▸ h.reserved, fun i hi => ?_, fun c shard hr => ?_, hmanages⟩
  · rw [hfleet]
    exact h.answered i (hanswers ▸ hi)
  · unfold Held Accepting Going
    rw [hfleet, hanswers, hremovals]
    exact h.known c shard (hruns shard c hr)

theorem runs_drainShard (hmanages : ∀ shard, (d.shards shard).Manages) {k : Nat} {answer : Option DrainAnswer} {shard : Nat}
    {c : String} (hruns : (d.drainShard k answer).Runs shard c) : d.Runs shard c := by
  unfold drainShard at hruns
  split at hruns
  · rename_i shard' rest hk
    dsimp only at hruns
    split at hruns
    · rename_i a
      split at hruns
      · exact hruns
      · obtain ⟨hlive, hmem⟩ := runs_setShard.mp hruns
        refine ⟨hlive, ?_⟩
        split at hmem
        · rename_i heq
          subst heq
          exact ((hmanages shard).drain a).2 c hmem
        · exact hmem
    · exact hruns
  · exact hruns

theorem Inv.drainShard (h : d.Inv) (k : Nat) (answer : Option DrainAnswer) : (d.drainShard k answer).Inv := by
  have hruns (shard : Nat) (c : String) (hr : (d.drainShard k answer).Runs shard c) := runs_drainShard h.manages hr
  unfold Deployment.drainShard at hruns ⊢
  split
  · rename_i shard rest hk
    simp only [hk] at hruns
    dsimp only
    split
    · rename_i a
      dsimp only at hruns
      split
      · rename_i hdead
        rw [if_pos hdead] at hruns
        exact h.less rfl rfl rfl hruns h.manages
      · rename_i hlive
        rw [if_neg hlive] at hruns
        exact h.less rfl rfl rfl hruns (manages_setShard h shard ((h.manages shard).drain a).1)
    · exact h.less rfl rfl rfl hruns h.manages
  · exact h

theorem Inv.step (h : d.Inv) {e : DeploymentEvent} (hgo : d.LetsGo e) : (d.step cfg e).Inv := by
  cases e with
  | add camera polled => exact h.add camera (d.seen polled)
  | offer i => exact h.offer i
  | addHandled i answer => exact h.addHandled i answer
  | addReplied i => exact h.addReplied i
  | addRaises i error => exact h.addRaises i error hgo
  | finish i => exact h.finish i hgo
  | remove camera polled => exact h.remove camera polled
  | removeHandled j answer => exact h.removeHandled j answer
  | removeRaises j => exact h.removeRaises j hgo
  | drain => exact h.less rfl rfl rfl (fun _ _ hr => hr) h.manages
  | drainShard k answer => exact h.drainShard k answer
  | forget k => exact h.forget k hgo
  | dies shard =>
    exact h.less rfl rfl rfl (fun _ _ hr => ⟨fun hmem => hr.1 (List.mem_cons_of_mem _ hmem), hr.2⟩) h.manages

/-- Only an `AddCamera` that is handled makes a shard run a camera. -/
theorem runs_step (hmanages : ∀ shard, (d.shards shard).Manages) {e : DeploymentEvent}
    (he : ∀ i answer, e ≠ .addHandled i answer) {shard : Nat} {c : String} (hruns : (d.step cfg e).Runs shard c) :
    d.Runs shard c := by
  cases e with
  | add camera polled => exact hruns
  | offer i => exact hruns
  | addHandled i answer => exact absurd rfl (he i answer)
  | addReplied i =>
    simp only [Deployment.step, Deployment.addReplied] at hruns
    split at hruns <;> exact hruns
  | addRaises i error =>
    simp only [Deployment.step, Deployment.addRaises] at hruns
    split at hruns <;> exact hruns
  | finish i => exact hruns
  | remove camera polled =>
    simp only [Deployment.step, Deployment.remove] at hruns
    split at hruns <;> exact hruns
  | removeHandled j answer =>
    simp only [Deployment.step, Deployment.removeHandled] at hruns
    split at hruns
    · exact hruns
    · rename_i r hr
      split at hruns
      · exact hruns
      · obtain ⟨hlive, hmem⟩ := runs_setShard.mp (show (d.setShard r.shard _).Runs shard c from hruns)
        refine ⟨hlive, ?_⟩
        split at hmem
        · rename_i heq
          subst heq
          rw [((hmanages r.shard).removeCamera r.camera answer).2] at hmem
          exact List.mem_of_mem_filter hmem
        · exact hmem
  | removeRaises j =>
    simp only [Deployment.step, Deployment.removeRaises] at hruns
    split at hruns <;> exact hruns
  | drain => exact hruns
  | drainShard k answer => exact runs_drainShard hmanages hruns
  | forget k =>
    simp only [Deployment.step, Deployment.forget] at hruns
    split at hruns <;> exact hruns
  | dies shard' => exact ⟨fun hmem => hruns.1 (List.mem_cons_of_mem _ hmem), hruns.2⟩

/-- A shard that is asked to take a camera is the only one that may run it. -/
theorem Inv.alone (h : d.Inv) {i : Nat} {answer : Except String Unit} (hgo : d.LetsGo (.addHandled i answer)) {c : String}
    {shard shard' : Nat} (hcallee : d.callee i = some (c, shard')) (hruns : d.Runs shard c) : shard = shard' := by
  obtain ⟨b, hb, rfl, hphase⟩ := callee_eq_some hcallee
  obtain ⟨-, at', hplaced, hat⟩ := h.reserved.holds i b hb (by simp [AddCall.active, hphase])
  obtain rfl := hat shard' hphase
  rcases h.known b.camera shard hruns with ⟨hp, -⟩ | ⟨j, r, hj, hwaiting, hcamera, rfl⟩
  · exact Option.some.inj (hp.symm.trans hplaced)
  · refine (hgo _ hcallee r (List.mem_of_getElem? hj) hwaiting hcamera).resolve_right fun hnot => hnot ?_
    rw [hcamera]
    exact hruns

theorem Exclusive.step (hex : d.Exclusive) (h : d.Inv) {e : DeploymentEvent} (hgo : d.LetsGo e) :
    (d.step cfg e).Exclusive := by
  intro c shard shard' hruns hruns'
  by_cases he : ∃ i answer, e = .addHandled i answer
  · obtain ⟨i, answer, rfl⟩ := he
    rcases runs_addHandled hruns with hold | ⟨hcallee, -⟩ <;> rcases runs_addHandled hruns' with hold' | ⟨hcallee', -⟩
    · exact hex c shard shard' hold hold'
    · exact h.alone hgo hcallee' hold
    · exact (h.alone hgo hcallee hold').symm
    · exact congrArg Prod.snd (Option.some.inj (hcallee.symm.trans hcallee'))
  · have hother (i : Nat) (answer : Except String Unit) : e ≠ .addHandled i answer := fun heq => he ⟨i, answer, heq⟩
    exact hex c shard shard' (runs_step h.manages hother hruns) (runs_step h.manages hother hruns')

theorem not_runs_start (shard : Nat) (c : String) : ¬start.Runs shard c := by
  rintro ⟨-, hmem⟩
  simp [start, installed, ShardService.cameras] at hmem

theorem Inv.start : start.Inv where
  reserved := ⟨fun i c hi => by simp [Deployment.start] at hi, fun i j c c' hi => by simp [Deployment.start] at hi⟩
  answered i hi := absurd rfl hi
  known c shard hruns := absurd hruns (not_runs_start shard c)
  manages shard r hr := by
    obtain rfl := Option.some.inj hr
    rfl

/-- While every step lets go of no camera that runs, no camera is run by two shards. -/
theorem one_shard_each (cfg : FleetConfig) (events : List DeploymentEvent)
    (h : Machine.Along (fun d e => (step cfg d e, ())) LetsGo start events) :
    ∀ before, before <+: events → (run cfg before).Exclusive := by
  intro before hbefore
  have hinv : (run cfg before).Inv ∧ (run cfg before).Exclusive :=
    Machine.Along.invariant (P := fun d => d.Inv ∧ d.Exclusive)
      (fun d e hd hgo => ⟨hd.1.step hgo, hd.2.step hd.1 hgo⟩) events
      ⟨Inv.start, fun c shard _ hruns => absurd hruns (not_runs_start shard c)⟩ h before hbefore
  exact hinv.2

def pair : FleetConfig := { shards := [0, 1], groupOf := .empty }

/-- A camera is refused by one shard and taken by the other, removed, taken again, and drained. -/
theorem moved_alone : (run pair
    [.add "a" [], .offer 0, .addHandled 0 (.error "no such device"), .addReplied 0, .offer 0, .addHandled 0 (.ok ()),
      .addReplied 0, .finish 0, .remove "a" [], .removeHandled 0 (.ok true), .add "a" [], .offer 1, .addHandled 1 (.ok ()),
      .addReplied 1, .finish 1, .drain, .drainShard 0 (some (.released 0)), .drainShard 0 (some (.released 0)), .forget 0]).Exclusive :=
  one_shard_each pair _ (by decide) _ (List.prefix_refl _)

theorem not_exclusive (shard shard' : Nat) (c : String) (h : d.Runs shard c) (h' : d.Runs shard' c) (hne : shard ≠ shard') :
    ¬d.Exclusive := fun hex => hne (hex c shard shard' h h')

/-- Placed twice: after a reply was lost, after a drain that failed, and after a removal that was overtaken. -/
theorem placed_twice :
    ¬(run pair
      [.add "a" [], .offer 0, .addHandled 0 (.ok ()), .addRaises 0 "deadline exceeded", .finish 0, .add "a" [], .offer 1,
        .addHandled 1 (.ok ()), .addReplied 1, .offer 1, .addHandled 1 (.ok ())]).Exclusive ∧
    ¬(run pair
      [.add "a" [], .offer 0, .addHandled 0 (.ok ()), .addReplied 0, .finish 0, .drain, .drainShard 0 (some (.raised "stuck" false)),
        .drainShard 0 none, .forget 0, .add "a" [], .offer 1, .addHandled 1 (.ok ()), .addReplied 1, .offer 1,
        .addHandled 1 (.ok ())]).Exclusive ∧
    ¬(run pair
      [.add "a" [], .offer 0, .addHandled 0 (.ok ()), .addReplied 0, .finish 0, .remove "a" [], .add "b" [], .offer 1,
        .add "a" [], .offer 2, .addHandled 2 (.ok ())]).Exclusive := by
  refine ⟨?_, ?_, ?_⟩ <;> exact not_exclusive 0 1 "a" (by decide) (by decide) (by decide)

end Deployment

end ShipInfer.Runners
