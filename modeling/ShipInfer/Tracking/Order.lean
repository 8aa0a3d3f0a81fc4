import ShipInfer.Tracking.Shard

/-!
# The order of a tracker's frames

A camera's lock is held by the worker that is past it, and a worker is inside a
tracker only while it holds the lock; so what the log of a tracker and the last
frame id say of one another is never seen half-written.
-/

namespace ShipInfer.Tracking

variable {κ θ : Type}

/-! ## Logs -/

/-- The frame is above all that were fed since the last reset. -/
def Fresh (f : Int) : List (TrackerEvent κ) → Prop
  | [] => True
  | .reset :: _ => True
  | .fed _ g :: log => g < f ∧ Fresh f log

/-- Between two resets the frames go up. -/
def Increasing : List (TrackerEvent κ) → Prop
  | [] => True
  | .reset :: log => Increasing log
  | .fed _ f :: log => Fresh f log ∧ Increasing log

theorem Fresh.mono {f g : Int} (hfg : f ≤ g) {log : List (TrackerEvent κ)} (h : Fresh f log) : Fresh g log := by
  induction log with
  | nil => trivial
  | cons e log ih =>
    cases e with
    | reset => trivial
    | fed c n => exact ⟨Int.lt_of_lt_of_le h.1 hfg, ih h.2⟩

/-- Every frame in the log is the camera's. -/
def OfCamera (c : κ) (log : List (TrackerEvent κ)) : Prop := ∀ d f, TrackerEvent.fed d f ∈ log → d = c

theorem OfCamera.reset {c : κ} {log : List (TrackerEvent κ)} (h : OfCamera c log) : OfCamera c (.reset :: log) := by
  intro d f hm
  simp at hm
  exact h d f hm

theorem OfCamera.fed {c : κ} {log : List (TrackerEvent κ)} (h : OfCamera c log) (f : Int) : OfCamera c (.fed c f :: log) := by
  intro d g hm
  simp at hm
  rcases hm with ⟨rfl, -⟩ | hm
  · rfl
  · exact h d g hm

/-- What a shard's log and its last frame id say of one another. -/
structure CameraShard.Sound (shard : CameraShard κ θ) : Prop where
  ofCamera : OfCamera shard.cameraId shard.tracker.log
  increasing : Increasing shard.tracker.log
  passed : Fresh (shard.lastFrameId + 1) shard.tracker.log

theorem sound_new (c : κ) : ({ cameraId := c } : CameraShard κ θ).Sound where
  ofCamera := by
    intro d f hm
    simp at hm
  increasing := trivial
  passed := trivial

namespace CameraShard.Sound

variable {shard : CameraShard κ θ}

/-- Only the log and the last frame id matter. -/
theorem same (h : shard.Sound) {shard' : CameraShard κ θ} (hid : shard'.cameraId = shard.cameraId)
    (hlog : shard'.tracker.log = shard.tracker.log) (hlast : shard'.lastFrameId = shard.lastFrameId) : shard'.Sound where
  ofCamera := by rw [hid, hlog]; exact h.ofCamera
  increasing := by rw [hlog]; exact h.increasing
  passed := by rw [hlog, hlast]; exact h.passed

theorem reset (h : shard.Sound) (t : θ) : (shard.enter t .reset).Sound where
  ofCamera := h.ofCamera.reset
  increasing := h.increasing
  passed := trivial

/-- Whatever the last frame id becomes once the tracker was reset. -/
theorem restart (h : shard.Sound) {log : List (TrackerEvent κ)} (hlog : shard.tracker.log = .reset :: log)
    {shard' : CameraShard κ θ} (hid : shard'.cameraId = shard.cameraId) (hlog' : shard'.tracker.log = shard.tracker.log) :
    shard'.Sound where
  ofCamera := by rw [hid, hlog']; exact h.ofCamera
  increasing := by rw [hlog']; exact h.increasing
  passed := by rw [hlog', hlog]; trivial

theorem feed (h : shard.Sound) (t : θ) {frame : Int} (hfresh : Fresh frame shard.tracker.log) :
    (shard.feed t shard.cameraId frame).Sound where
  ofCamera := h.ofCamera.fed frame
  increasing := ⟨hfresh, h.increasing⟩
  passed := ⟨Int.lt_succ frame, hfresh.mono (Int.le_of_lt (Int.lt_succ frame))⟩

end CameraShard.Sound

namespace Phase

/-- The call and the shard it has found. -/
def found : Phase κ → Option (Call κ × Nat)
  | waiting c i | locked c i | restarting c _ i | notifying c _ i | feeding c i | resetting c i => some (c, i)
  | idle | peeking _ | queueing _ | holding _ => none

/-- The shard whose lock it holds. -/
def locks : Phase κ → Option Nat
  | locked _ i | restarting _ _ i | notifying _ _ i | feeding _ i | resetting _ i => some i
  | idle | peeking _ | queueing _ | holding _ | waiting .. => none

/-- The shard whose tracker it is in. -/
def enters : Phase κ → Option Nat
  | restarting _ _ i | feeding _ i | resetting _ i => some i
  | idle | peeking _ | queueing _ | holding _ | waiting .. | locked .. | notifying .. => none

/-- It has reset the tracker and not fed it since. -/
def restarts : Phase κ → Bool
  | restarting .. | notifying .. | resetting .. => true
  | _ => false

theorem found_of_locks {ph : Phase κ} {i : Nat} (h : ph.locks = some i) : ∃ c, ph.found = some (c, i) := by
  cases ph <;> simp [locks] at h <;> simp [found, h]

end Phase

namespace TrackerShard

/-- The invariant of one shard, at its place. -/
structure ShardInv (phase : θ → Phase κ) (i : Nat) (shard : CameraShard κ θ) : Prop where
  lock : ∀ t, shard.lock = some t ↔ (phase t).locks = some i
  inside : ∀ t, (phase t).locks = some i → shard.tracker.inside = if (phase t).enters = some i then [t] else []
  outside : shard.lock = none → shard.tracker.inside = []
  sound : shard.Sound
  restarted : ∀ t, (phase t).locks = some i → (phase t).restarts = true → ∃ log, shard.tracker.log = .reset :: log

structure Inv [DecidableEq κ] (s : TrackerShard κ θ) : Prop where
  shard : ∀ i shard, s.shards[i]? = some shard → ShardInv s.phase i shard
  table : ∀ c i, s.cameras.get? c = some i → ∃ shard, s.shards[i]? = some shard ∧ shard.cameraId = c
  found : ∀ t c i, (s.phase t).found = some (c, i) → ∃ shard, s.shards[i]? = some shard ∧ shard.cameraId = c.camera

theorem inv_init [DecidableEq κ] : Inv ({} : TrackerShard κ θ) where
  shard := by simp
  table := by
    intro c i h
    simp at h
  found := by
    intro t c i h
    simp [Phase.found] at h

variable [DecidableEq θ] {s : TrackerShard κ θ} {t : θ}

/-- Another worker's phase is what it was. -/
theorem ShardInv.others {i : Nat} {shard : CameraShard κ θ} (h : ShardInv s.phase i shard) {ph : Phase κ}
    (hbefore : (s.phase t).locks ≠ some i) (hafter : ph.locks ≠ some i) :
    ShardInv (Function.update s.phase t ph) i shard := by
  have hsame : ∀ u, (Function.update s.phase t ph u).locks = some i → Function.update s.phase t ph u = s.phase u := by
    intro u hu
    by_cases hut : u = t
    · subst hut
      simp at hu
      exact absurd hu hafter
    · simp [Function.update_of_ne hut]
  constructor
  · intro u
    by_cases hut : u = t
    · subst hut
      simp [h.lock, hbefore, hafter]
    · simp [Function.update_of_ne hut, h.lock]
  · intro u hu
    have hu' := hu
    rw [hsame u hu] at hu' ⊢
    exact h.inside u hu'
  · exact h.outside
  · exact h.sound
  · intro u hu hr
    have hu' := hu
    rw [hsame u hu] at hu' hr
    exact h.restarted u hu' hr

variable [DecidableEq κ]

/-- A step that holds no camera's lock, and builds nothing. -/
theorem Inv.aside (h : s.Inv) {s' : TrackerShard κ θ} {ph : Phase κ} (hbefore : (s.phase t).locks = none)
    (hafter : ph.locks = none) (hshards : s'.shards = s.shards) (hphase : s'.phase = Function.update s.phase t ph)
    (hcameras : ∀ c i, s'.cameras.get? c = some i → s.cameras.get? c = some i)
    (hfound : ∀ c i, ph.found = some (c, i) → ∃ shard, s.shards[i]? = some shard ∧ shard.cameraId = c.camera) : s'.Inv := by
  constructor
  · intro i shard hget
    rw [hshards] at hget
    rw [hphase]
    exact (h.shard i shard hget).others (by simp [hbefore]) (by simp [hafter])
  · intro c i hget
    rw [hshards]
    exact h.table c i (hcameras c i hget)
  · intro u c i hu
    rw [hphase] at hu
    rw [hshards]
    by_cases hut : u = t
    · subst hut
      rw [Function.update_self] at hu
      exact hfound c i hu
    · rw [Function.update_of_ne hut] at hu
      exact h.found u c i hu

theorem Inv.build (h : s.Inv) {c : Call κ} (hbefore : (s.phase t).locks = none) : (s.build t c).Inv := by
  have hold : ∀ (i : Nat) (shard : CameraShard κ θ), s.shards[i]? = some shard → (s.build t c).shards[i]? = some shard := by
    intro i shard hget
    have hi := (List.getElem?_eq_some_iff.mp hget).1
    rw [← hget]
    exact List.getElem?_append_left hi
  have hnew : (s.build t c).shards[s.shards.length]? = some { cameraId := c.camera } := by simp [TrackerShard.build]
  constructor
  · intro i shard hget
    by_cases hi : i < s.shards.length
    · have hget' : s.shards[i]? = some shard := by
        rw [← hget]
        exact (List.getElem?_append_left hi).symm
      exact (h.shard i shard hget').others (by simp [hbefore]) (by simp [Phase.locks])
    · have hlast : i = s.shards.length := by
        have := (List.getElem?_eq_some_iff.mp hget).1
        simp [TrackerShard.build] at this
        omega
      subst hlast
      rw [hnew] at hget
      obtain rfl := Option.some.inj hget
      have hfree : ∀ u, ((s.build t c).phase u).locks ≠ some s.shards.length := by
        intro u hu
        by_cases hut : u = t
        · subst hut
          simp [TrackerShard.build, Phase.locks] at hu
        · simp only [TrackerShard.build, Function.update_of_ne hut] at hu
          obtain ⟨d, hd⟩ := Phase.found_of_locks hu
          obtain ⟨shard, hs, -⟩ := h.found u d _ hd
          have := (List.getElem?_eq_some_iff.mp hs).1
          omega
      constructor
      · intro u
        simp [hfree u]
      · intro u hu
        exact absurd hu (hfree u)
      · simp
      · exact sound_new _
      · intro u hu
        exact absurd hu (hfree u)
  · intro d i hget
    simp only [TrackerShard.build] at hget
    rw [Dict.get?_set] at hget
    split at hget
    · rename_i hd
      obtain rfl := Option.some.inj hget
      exact ⟨_, hnew, hd.symm⟩
    · obtain ⟨shard, hs, hid⟩ := h.table d i hget
      exact ⟨shard, hold i shard hs, hid⟩
  · intro u d i hu
    by_cases hut : u = t
    · subst hut
      simp [TrackerShard.build, Phase.found] at hu
      obtain ⟨rfl, rfl⟩ := hu
      exact ⟨_, hnew, rfl⟩
    · simp only [TrackerShard.build, Function.update_of_ne hut] at hu
      obtain ⟨shard, hs, hid⟩ := h.found u d i hu
      exact ⟨shard, hold i shard hs, hid⟩

/-- A step at a shard whose lock the worker holds, or finds free. -/
theorem Inv.atShard (h : s.Inv) {i : Nat} {shard : CameraShard κ θ} {ph : Phase κ} {f : CameraShard κ θ → CameraShard κ θ}
    (hget : s.shards[i]? = some shard) (hid : (f shard).cameraId = shard.cameraId)
    (hbefore : (s.phase t).locks = some i ∨ ((s.phase t).locks = none ∧ shard.lock = none))
    (hafter : (ph.locks = some i ∧ (f shard).lock = some t) ∨ (ph.locks = none ∧ (f shard).lock = none))
    (hinside : (f shard).tracker.inside = if ph.enters = some i then [t] else []) (hsound : (f shard).Sound)
    (hrestart : ph.restarts = true → ∃ log, (f shard).tracker.log = .reset :: log)
    (hfound : ∀ c j, ph.found = some (c, j) → j = i ∧ shard.cameraId = c.camera) : (s.atShard t i ph f).Inv := by
  have hold := h.shard i shard hget
  have hat : ∀ j, (s.atShard t i ph f).shards[j]? = if i = j then some (f shard) else s.shards[j]? := by
    intro j
    simp only [TrackerShard.atShard, List.getElem?_modify]
    by_cases hj : i = j
    · subst hj
      simp [hget]
    · simp [hj]
  have hkept : ∀ (j : Nat) (a : CameraShard κ θ), s.shards[j]? = some a →
      ∃ b : CameraShard κ θ, (s.atShard t i ph f).shards[j]? = some b ∧ b.cameraId = a.cameraId := by
    intro j a hj
    by_cases hij : i = j
    · subst hij
      rw [hget] at hj
      obtain rfl := Option.some.inj hj
      exact ⟨f shard, by simp [hat], hid⟩
    · exact ⟨a, by simp [hat, hij, hj], rfl⟩
  -- Nobody else is past this lock.
  have hothers : ∀ u, u ≠ t → (s.phase u).locks ≠ some i := by
    intro u hut hu
    have hlock := (hold.lock u).mpr hu
    rcases hbefore with hb | ⟨-, hb⟩
    · rw [(hold.lock t).mpr hb] at hlock
      exact hut (Option.some.inj hlock).symm
    · rw [hb] at hlock
      cases hlock
  constructor
  · intro j a hj
    rw [hat] at hj
    by_cases hij : i = j
    · subst hij
      simp at hj
      subst hj
      have hmine : ∀ u, (Function.update s.phase t ph u).locks = some i → u = t := by
        intro u hu
        by_contra hut
        rw [Function.update_of_ne hut] at hu
        exact hothers u hut hu
      constructor
      · intro u
        show _ ↔ (Function.update s.phase t ph u).locks = some i
        constructor
        · intro hu
          rcases hafter with ⟨hl, hf⟩ | ⟨-, hf⟩
          · rw [hf] at hu
            obtain rfl := Option.some.inj hu
            simp [hl]
          · rw [hf] at hu
            cases hu
        · intro hu
          obtain rfl := hmine u hu
          rw [Function.update_self] at hu
          rcases hafter with ⟨-, hf⟩ | ⟨hl, -⟩
          · exact hf
          · rw [hl] at hu
            cases hu
      · intro u hu
        obtain rfl := hmine u hu
        simp only [TrackerShard.atShard, Function.update_self]
        exact hinside
      · intro hnone
        rcases hafter with ⟨-, hf⟩ | ⟨hl, -⟩
        · rw [hf] at hnone
          cases hnone
        · have henters : ph.enters ≠ some i := by
            intro he
            cases ph <;> simp [Phase.enters] at he <;> simp [Phase.locks] at hl
          rw [hinside, if_neg henters]
      · exact hsound
      · intro u hu hr
        obtain rfl := hmine u hu
        simp only [TrackerShard.atShard, Function.update_self] at hr
        exact hrestart hr
    · simp [hij] at hj
      refine (h.shard j a hj).others ?_ ?_
      · rcases hbefore with hb | ⟨hb, -⟩ <;> simp [hb, hij]
      · rcases hafter with ⟨hl, -⟩ | ⟨hl, -⟩ <;> simp [hl, hij]
  · intro c j hc
    obtain ⟨a, ha, hac⟩ := h.table c j hc
    obtain ⟨b, hb, hba⟩ := hkept j a ha
    exact ⟨b, hb, hba.trans hac⟩
  · intro u c j hu
    by_cases hut : u = t
    · subst hut
      simp only [TrackerShard.atShard, Function.update_self] at hu
      obtain ⟨rfl, hcam⟩ := hfound c j hu
      exact ⟨f shard, by simp [hat], hid.trans hcam⟩
    · simp only [TrackerShard.atShard, Function.update_of_ne hut] at hu
      obtain ⟨a, ha, hac⟩ := h.found u c j hu
      obtain ⟨b, hb, hba⟩ := hkept j a ha
      exact ⟨b, hb, hba.trans hac⟩

theorem Inv.underTable (h : s.Inv) (p : Plane) {c : Call κ} (hph : s.phase t = .holding c) (ok : Bool) :
    (s.underTable p t c ok).1.Inv := by
  have hlocks : (s.phase t).locks = none := by simp [hph, Phase.locks]
  have hopen : Inv { s with tableLock := none } := ⟨h.shard, h.table, h.found⟩
  cases hc : c with
  | drop camera =>
    refine h.aside (t := t) hlocks rfl rfl rfl ?_ (by simp [Phase.found])
    intro d i hd
    simp only [TrackerShard.underTable] at hd
    rw [Dict.get?_erase] at hd
    split at hd
    · cases hd
    · exact hd
  | _ =>
    rw [← hc]
    cases hget : s.cameras.get? c.camera with
    | some i =>
      have hstep : s.underTable p t c ok = ({ s with tableLock := none }.setPhase t (.waiting c i), none) := by
        simp only [TrackerShard.underTable, hget]
        subst hc
        rfl
      rw [hstep]
      refine h.aside (t := t) hlocks rfl rfl rfl (fun _ _ hd => hd) ?_
      intro d j hd
      simp [Phase.found] at hd
      obtain ⟨rfl, rfl⟩ := hd
      exact h.table _ _ hget
    | none =>
      simp only [TrackerShard.underTable, hget]
      subst hc
      dsimp only
      split
      · exact h.aside (t := t) hlocks rfl rfl rfl (fun _ _ hd => hd) (by simp [Phase.found])
      · split
        · exact h.aside (t := t) hlocks rfl rfl rfl (fun _ _ hd => hd) (by simp [Phase.found])
        · exact hopen.build hlocks

theorem Inv.underLock (h : s.Inv) (p : Plane) {c : Call κ} {i : Nat} {shard : CameraShard κ θ} (hph : s.phase t = .locked c i)
    (hget : s.shards[i]? = some shard) (hcam : shard.cameraId = c.camera) : (s.underLock p t c i shard).1.Inv := by
  have hold := h.shard i shard hget
  have hlocks : (s.phase t).locks = some i := by simp [hph, Phase.locks]
  have hlock : shard.lock = some t := (hold.lock t).mpr hlocks
  have hempty : shard.tracker.inside = [] := by
    rw [hold.inside t hlocks, if_neg]
    simp [hph, Phase.enters]
  have hreset : (s.atShard t i (.resetting c i) fun shard => shard.enter t .reset).Inv :=
    h.atShard hget rfl (.inl hlocks) (.inl ⟨rfl, hlock⟩) (by simp [CameraShard.enter, hempty, Phase.enters])
      (hold.sound.reset t) (fun _ => ⟨_, rfl⟩) (by simp [Phase.found, hcam])
  cases c with
  | update camera frame regressionReset =>
    simp only [TrackerShard.underLock]
    by_cases hpast : frame ≤ shard.lastFrameId
    · rw [if_pos hpast]
      split
      · exact h.atShard hget rfl (.inl hlocks) (.inl ⟨rfl, hlock⟩) (by simp [CameraShard.enter, hempty, Phase.enters])
          (hold.sound.reset t) (fun _ => ⟨_, rfl⟩) (by simp [Phase.found, hcam])
      · exact h.atShard hget rfl (.inl hlocks) (.inr ⟨rfl, rfl⟩) (by simp [hempty, Phase.enters])
          (hold.sound.same rfl rfl rfl) (by simp [Phase.restarts]) (by simp [Phase.found])
    · rw [if_neg hpast]
      have hfresh : Fresh frame shard.tracker.log := hold.sound.passed.mono (by omega)
      obtain rfl : shard.cameraId = camera := hcam
      exact h.atShard hget rfl (.inl hlocks) (.inl ⟨rfl, hlock⟩)
        (by simp [CameraShard.feed, CameraShard.enter, hempty, Phase.enters]) (hold.sound.feed t hfresh)
        (by simp [Phase.restarts]) (by rintro _ _ ⟨⟩; exact ⟨rfl, rfl⟩)
  | reset camera => exact hreset
  | resetIfPresent camera => exact hreset
  | drop camera => exact hreset

/-- A worker at a shard is at one that exists, and what it holds of it is told by its phase. -/
theorem Inv.step (h : s.Inv) (p : Plane) (e : θ × Act κ) : (s.step p e).1.Inv := by
  obtain ⟨t, a⟩ := e
  cases a with
  | call c =>
    cases hph : s.phase t with
    | idle =>
      simp only [TrackerShard.step, hph]
      by_cases hoffers : p.offers c = true
      · rw [if_pos hoffers]
        refine h.aside (t := t) (by simp [hph, Phase.locks]) ?_ rfl rfl (fun _ _ hc => hc) ?_
        · by_cases hpeek : (c.builds && p.peeks) = true <;> simp [hpeek, Phase.locks]
        · intro d i hd
          by_cases hpeek : (c.builds && p.peeks) = true <;> simp [hpeek, Phase.found] at hd
      · rw [if_neg hoffers]
        exact h
    | _ => simpa only [TrackerShard.step, hph] using h
  | go ok =>
    cases hph : s.phase t with
    | idle => simpa only [TrackerShard.step, hph] using h
    | peeking c =>
      simp only [TrackerShard.step, hph]
      cases hget : s.cameras.get? c.camera with
      | some i =>
        refine h.aside (t := t) (by simp [hph, Phase.locks]) rfl rfl rfl (fun _ _ hc => hc) ?_
        intro d j hd
        simp [Phase.found] at hd
        obtain ⟨rfl, rfl⟩ := hd
        exact h.table _ _ hget
      | none => exact h.aside (t := t) (by simp [hph, Phase.locks]) rfl rfl rfl (fun _ _ hc => hc) (by simp [Phase.found])
    | queueing c =>
      simp only [TrackerShard.step, hph]
      by_cases hfree : s.tableLock.isNone = true
      · rw [if_pos hfree]
        exact h.aside (t := t) (by simp [hph, Phase.locks]) rfl rfl rfl (fun _ _ hc => hc) (by simp [Phase.found])
      · rw [if_neg hfree]
        exact h
    | holding c =>
      simp only [TrackerShard.step, hph]
      exact h.underTable p hph ok
    | waiting c i =>
      obtain ⟨shard, hget, hcam⟩ := h.found t c i (by simp [hph, Phase.found])
      have hold := h.shard i shard hget
      simp only [TrackerShard.step, hph, hget]
      by_cases hfree : shard.lock.isNone = true
      · rw [if_pos hfree]
        have hnone : shard.lock = none := Option.isNone_iff_eq_none.mp hfree
        exact h.atShard hget rfl (.inr ⟨by simp [hph, Phase.locks], hnone⟩) (.inl ⟨rfl, rfl⟩)
          (by simp [hold.outside hnone, Phase.enters]) (hold.sound.same rfl rfl rfl) (by simp [Phase.restarts])
          (by simp [Phase.found, hcam])
      · rw [if_neg hfree]
        exact h
    | locked c i =>
      obtain ⟨shard, hget, hcam⟩ := h.found t c i (by simp [hph, Phase.found])
      simp only [TrackerShard.step, hph, hget]
      exact h.underLock p hph hget hcam
    | restarting c frame i =>
      obtain ⟨shard, hget, hcam⟩ := h.found t c i (by simp [hph, Phase.found])
      have hold := h.shard i shard hget
      have hlocks : (s.phase t).locks = some i := by simp [hph, Phase.locks]
      have hinside : shard.tracker.inside = [t] := by
        rw [hold.inside t hlocks, if_pos]
        simp [hph, Phase.enters]
      obtain ⟨log, hlog⟩ := hold.restarted t hlocks (by simp [hph, Phase.restarts])
      simp only [TrackerShard.step, hph]
      cases ok with
      | true =>
        exact h.atShard hget rfl (.inl hlocks) (.inl ⟨rfl, (hold.lock t).mpr hlocks⟩)
          (by simp [CameraShard.exit, hinside, Phase.enters]) (hold.sound.restart hlog rfl rfl) (fun _ => ⟨log, hlog⟩)
          (by simp [Phase.found, hcam])
      | false =>
        exact h.atShard hget rfl (.inl hlocks) (.inr ⟨rfl, rfl⟩) (by simp [CameraShard.exit, hinside, Phase.enters])
          (hold.sound.same rfl rfl rfl) (by simp [Phase.restarts]) (by simp [Phase.found])
    | notifying c frame i =>
      obtain ⟨shard, hget, hcam⟩ := h.found t c i (by simp [hph, Phase.found])
      have hold := h.shard i shard hget
      have hlocks : (s.phase t).locks = some i := by simp [hph, Phase.locks]
      have hempty : shard.tracker.inside = [] := by
        rw [hold.inside t hlocks, if_neg]
        simp [hph, Phase.enters]
      obtain ⟨log, hlog⟩ := hold.restarted t hlocks (by simp [hph, Phase.restarts])
      simp only [TrackerShard.step, hph]
      cases ok with
      | true =>
        have hfresh : Fresh frame shard.tracker.log := by rw [hlog]; trivial
        have hfeed : (s.atShard t i (.feeding c i) fun a => a.feed t shard.cameraId frame).Inv :=
          h.atShard hget rfl (.inl hlocks) (.inl ⟨rfl, (hold.lock t).mpr hlocks⟩)
            (by simp [CameraShard.feed, CameraShard.enter, hempty, Phase.enters]) (hold.sound.feed t hfresh)
            (by simp [Phase.restarts]) (by simp [Phase.found, hcam])
        rw [hcam] at hfeed
        exact hfeed
      | false =>
        exact h.atShard hget rfl (.inl hlocks) (.inr ⟨rfl, rfl⟩) (by simp [hempty, Phase.enters])
          (hold.sound.same rfl rfl rfl) (by simp [Phase.restarts]) (by simp [Phase.found])
    | feeding c i =>
      obtain ⟨shard, hget, hcam⟩ := h.found t c i (by simp [hph, Phase.found])
      have hold := h.shard i shard hget
      have hlocks : (s.phase t).locks = some i := by simp [hph, Phase.locks]
      have hinside : shard.tracker.inside = [t] := by
        rw [hold.inside t hlocks, if_pos]
        simp [hph, Phase.enters]
      simp only [TrackerShard.step, hph]
      exact h.atShard hget rfl (.inl hlocks) (.inr ⟨rfl, rfl⟩) (by simp [CameraShard.exit, hinside, Phase.enters])
        (hold.sound.same rfl rfl rfl) (by simp [Phase.restarts]) (by simp [Phase.found])
    | resetting c i =>
      obtain ⟨shard, hget, hcam⟩ := h.found t c i (by simp [hph, Phase.found])
      have hold := h.shard i shard hget
      have hlocks : (s.phase t).locks = some i := by simp [hph, Phase.locks]
      have hinside : shard.tracker.inside = [t] := by
        rw [hold.inside t hlocks, if_pos]
        simp [hph, Phase.enters]
      obtain ⟨log, hlog⟩ := hold.restarted t hlocks (by simp [hph, Phase.restarts])
      simp only [TrackerShard.step, hph]
      cases ok with
      | true =>
        exact h.atShard hget rfl (.inl hlocks) (.inr ⟨rfl, rfl⟩) (by simp [CameraShard.exit, hinside, Phase.enters])
          (hold.sound.restart hlog rfl rfl) (by simp [Phase.restarts]) (by simp [Phase.found])
      | false =>
        exact h.atShard hget rfl (.inl hlocks) (.inr ⟨rfl, rfl⟩) (by simp [CameraShard.exit, hinside, Phase.enters])
          (hold.sound.same rfl rfl rfl) (by simp [Phase.restarts]) (by simp [Phase.found])

theorem inv_run (p : Plane) (events : List (θ × Act κ)) : (run p events).1.Inv :=
  Machine.exec_induction (I := fun _ s => Inv s) inv_init (fun _ _ e h => h.step p e) events

omit [DecidableEq κ] [DecidableEq θ] in
/-- One caller at a time. -/
theorem ShardInv.alone {i : Nat} {shard : CameraShard κ θ} (h : ShardInv s.phase i shard) : shard.tracker.inside.length ≤ 1 := by
  cases hlock : shard.lock with
  | none => simp [h.outside hlock]
  | some t =>
    rw [h.inside t ((h.lock t).mp hlock)]
    split <;> simp

/-! ## Refusals -/

/-- The next answer worker `t` gets is a refusal. -/
def Refuses (p : Plane) (s : TrackerShard κ θ) (t : θ) : List (θ × Act κ) → Bool
  | [] => false
  | e :: events =>
    if e.1 = t ∧ (s.step p e).2.isSome then (s.step p e).2 = some .refused else Refuses p (s.step p e).1 t events

/-- The call a worker's step is part of. -/
def current (s : TrackerShard κ θ) (e : θ × Act κ) : Option (Call κ) :=
  match s.phase e.1, e.2 with
  | .idle, .call c => some c
  | .idle, .go _ => none
  | .peeking c, _ | .queueing c, _ | .holding c, _ | .waiting c _, _ | .locked c _, _ | .restarting c _ _, _
  | .notifying c _ _, _ | .feeding c _, _ | .resetting c _, _ => some c

/-- No tracker and no last frame id changed, no entry of the table; the camera may have
got a tracker that was never fed. -/
structure Unchanged (s s' : TrackerShard κ θ) (camera : κ) : Prop where
  shards : ∀ (i : Nat) (a : CameraShard κ θ), s.shards[i]? = some a →
    ∃ b : CameraShard κ θ, s'.shards[i]? = some b ∧ b.tracker = a.tracker ∧ b.lastFrameId = a.lastFrameId
  others : ∀ d, d ≠ camera → s'.cameras.get? d = s.cameras.get? d
  kept : ∀ i, s.cameras.get? camera = some i → s'.cameras.get? camera = some i
  fresh : ∀ i, s.cameras.get? camera = none → s'.cameras.get? camera = some i →
    ∃ b : CameraShard κ θ, s'.shards[i]? = some b ∧ b.tracker = {} ∧ b.lastFrameId = -1

omit [DecidableEq θ] in
/-- A step that leaves the table, and each shard's tracker and last frame id. -/
theorem unchanged_of_same {s' : TrackerShard κ θ} (camera : κ) (hcameras : s'.cameras = s.cameras)
    (hshards : ∀ (i : Nat) (a : CameraShard κ θ), s.shards[i]? = some a →
      ∃ b : CameraShard κ θ, s'.shards[i]? = some b ∧ b.tracker = a.tracker ∧ b.lastFrameId = a.lastFrameId) :
    Unchanged s s' camera where
  shards := hshards
  others := by simp [hcameras]
  kept := by simp [hcameras]
  fresh := by
    intro i hnone hsome
    rw [hcameras, hnone] at hsome
    cases hsome

omit [DecidableEq θ] in
theorem unchanged_shards {s' : TrackerShard κ θ} (camera : κ) (hcameras : s'.cameras = s.cameras) (hshards : s'.shards = s.shards) :
    Unchanged s s' camera :=
  unchanged_of_same camera hcameras fun i a ha => ⟨a, by rw [hshards]; exact ha, rfl, rfl⟩

theorem unchanged_atShard (camera : κ) {i : Nat} {ph : Phase κ} {f : CameraShard κ θ → CameraShard κ θ}
    (htracker : ∀ a, (f a).tracker = a.tracker) (hlast : ∀ a, (f a).lastFrameId = a.lastFrameId) :
    Unchanged s (s.atShard t i ph f) camera := by
  refine unchanged_of_same camera rfl ?_
  intro j a ha
  simp only [TrackerShard.atShard, List.getElem?_modify, ha]
  by_cases hij : i = j
  · exact ⟨f a, by simp [hij], htracker a, hlast a⟩
  · exact ⟨a, by simp [hij], rfl, rfl⟩

theorem unchanged_build {c : Call κ} (hnone : s.cameras.get? c.camera = none) : Unchanged s (s.build t c) c.camera where
  shards := by
    intro i a ha
    have hi := (List.getElem?_eq_some_iff.mp ha).1
    exact ⟨a, by rw [← ha]; exact List.getElem?_append_left hi, rfl, rfl⟩
  others := by
    intro d hd
    simp [TrackerShard.build, Dict.get?_set, hd]
  kept := by simp [hnone]
  fresh := by
    intro i _ hi
    simp [TrackerShard.build] at hi
    subst hi
    exact ⟨{ cameraId := c.camera }, by simp [TrackerShard.build], rfl, rfl⟩

/-- A call that is past its refusal: in the tracker, or between two calls of it. -/
def committed (s : TrackerShard κ θ) (t : θ) : Prop := (s.phase t).enters.isSome = true ∨ (s.phase t).restarts = true

/-- A step is only its own worker's. -/
theorem phase_step (p : Plane) (s : TrackerShard κ θ) (t : θ) (a : Act κ) :
    ∃ ph, (s.step p (t, a)).1.phase = Function.update s.phase t ph := by
  have hsame : ∃ ph, s.phase = Function.update s.phase t ph := ⟨s.phase t, (Function.update_eq_self t s.phase).symm⟩
  cases a with
  | call c =>
    cases hph : s.phase t <;> simp only [TrackerShard.step, hph]
    case idle => split <;> first | exact hsame | exact ⟨_, rfl⟩
    all_goals exact hsame
  | go ok =>
    cases hph : s.phase t <;> simp only [TrackerShard.step, hph, underTable, underLock]
    case idle => exact hsame
    all_goals repeat' split
    all_goals first | exact hsame | exact ⟨_, rfl⟩

theorem phase_step_of_ne (p : Plane) (s : TrackerShard κ θ) (e : θ × Act κ) {t : θ} (ht : t ≠ e.1) :
    (s.step p e).1.phase t = s.phase t := by
  obtain ⟨ph, hph⟩ := phase_step p s e.1 e.2
  rw [hph, Function.update_of_ne ht]

/-- A call that is past its refusal stays so, and its answer is no refusal. -/
theorem committed_step (p : Plane) (s : TrackerShard κ θ) (t : θ) (a : Act κ) (h : committed s t) :
    (∃ o, (s.step p (t, a)).2 = some o ∧ o ≠ .refused) ∨ ((s.step p (t, a)).2 = none ∧ committed (s.step p (t, a)).1 t) := by
  cases a with
  | call c =>
    have hstep : s.step p (t, .call c) = (s, none) := by
      unfold committed at h
      cases hph : s.phase t <;> simp [hph, Phase.enters, Phase.restarts] at h <;> simp [TrackerShard.step, hph]
    rw [hstep]
    exact .inr ⟨rfl, h⟩
  | go ok =>
    unfold committed at h
    cases hph : s.phase t with
    | restarting c frame i =>
      cases ok with
      | true => exact .inr ⟨by simp [TrackerShard.step, hph], by simp [TrackerShard.step, hph, committed, atShard, Phase.restarts]⟩
      | false => exact .inl ⟨.raised, by simp [TrackerShard.step, hph], by simp⟩
    | notifying c frame i =>
      cases ok with
      | true => exact .inr ⟨by simp [TrackerShard.step, hph], by simp [TrackerShard.step, hph, committed, atShard, Phase.enters]⟩
      | false => exact .inl ⟨.raised, by simp [TrackerShard.step, hph], by simp⟩
    | feeding c i => exact .inl ⟨if ok then .updated else .raised, by simp [TrackerShard.step, hph], by cases ok <;> simp⟩
    | resetting c i =>
      cases ok with
      | true => exact .inl ⟨.answered true, by simp [TrackerShard.step, hph], by simp⟩
      | false => exact .inl ⟨.raised, by simp [TrackerShard.step, hph], by simp⟩
    | _ => simp [hph, Phase.enters, Phase.restarts] at h

theorem not_refuses_of_committed (p : Plane) {t : θ} : ∀ (events : List (θ × Act κ)) {s : TrackerShard κ θ}, committed s t →
    Refuses p s t events = false
  | [], _, _ => rfl
  | e :: events, s, h => by
    rw [Refuses]
    by_cases ht : e.1 = t
    · obtain ⟨u, a⟩ := e
      dsimp only at ht
      subst ht
      rcases committed_step p s u a h with ⟨o, ho, hne⟩ | ⟨hnone, hrest⟩
      · simp [ho, hne]
      · simpa [hnone] using not_refuses_of_committed p events hrest
    · have hkept : committed (s.step p e).1 t := by
        unfold committed
        rw [phase_step_of_ne p s e (Ne.symm ht)]
        exact h
      simpa [ht] using not_refuses_of_committed p events hkept

omit [DecidableEq θ] in
theorem unchanged_self (camera : κ) : Unchanged s s camera := unchanged_shards camera rfl rfl

/-- Under the table's lock a call that is not a drop changes no tracker there is. -/
theorem underTable_unchanged (p : Plane) {c : Call κ} (ok : Bool) :
    (∃ o, (s.underTable p t c ok).2 = some o ∧ o ≠ .refused) ∨ Unchanged s (s.underTable p t c ok).1 c.camera := by
  cases hc : c with
  | drop camera => exact .inl ⟨_, rfl, by simp⟩
  | _ =>
    rw [← hc]
    refine .inr ?_
    cases hget : s.cameras.get? c.camera with
    | some i =>
      simp only [underTable, hget]
      subst hc
      exact unchanged_shards _ rfl rfl
    | none =>
      simp only [underTable, hget]
      subst hc
      dsimp only
      split
      · exact unchanged_shards _ rfl rfl
      · split
        · exact unchanged_shards _ rfl rfl
        · have hbuild := unchanged_build (t := t) hget
          exact ⟨hbuild.shards, hbuild.others, hbuild.kept, hbuild.fresh⟩

/-- Under the camera's lock a call enters the tracker, or refuses and changes nothing. -/
theorem underLock_unchanged (p : Plane) (c : Call κ) (i : Nat) (shard : CameraShard κ θ) (camera : κ) :
    committed (s.underLock p t c i shard).1 t ∧ (s.underLock p t c i shard).2 = none ∨
      Unchanged s (s.underLock p t c i shard).1 camera := by
  cases c with
  | update d frame regressionReset =>
    simp only [underLock]
    split
    · split
      · exact .inl ⟨by simp [committed, atShard, Phase.enters], rfl⟩
      · exact .inr (unchanged_atShard camera (fun _ => rfl) (fun _ => rfl))
    · exact .inl ⟨by simp [committed, atShard, Phase.enters], rfl⟩
  | _ => exact .inl ⟨by simp [underLock, committed, atShard, Phase.enters], rfl⟩

/-- A step of a call that goes on to be refused. -/
theorem unchanged_of_refuses (p : Plane) (e : θ × Act κ) (events : List (θ × Act κ))
    (h : Refuses p s e.1 (e :: events) = true) {c : Call κ} (hc : current s e = some c) :
    Unchanged s (s.step p e).1 c.camera := by
  obtain ⟨t, a⟩ := e
  have hopen : ¬committed s t := by
    intro hcommitted
    rw [not_refuses_of_committed p _ hcommitted] at h
    cases h
  have hquiet : (∃ o, (s.step p (t, a)).2 = some o ∧ o ≠ .refused) → Unchanged s (s.step p (t, a)).1 c.camera := by
    rintro ⟨o, ho, hne⟩
    simp [Refuses, ho, hne] at h
  have hentered : committed (s.step p (t, a)).1 t ∧ (s.step p (t, a)).2 = none → Unchanged s (s.step p (t, a)).1 c.camera := by
    rintro ⟨hcommitted, hnone⟩
    simp [Refuses, hnone, not_refuses_of_committed p events hcommitted] at h
  cases a with
  | call d =>
    cases hph : s.phase t with
    | idle =>
      simp only [TrackerShard.step, hph]
      split
      · exact unchanged_shards _ rfl rfl
      · exact unchanged_self _
    | _ => simpa only [TrackerShard.step, hph] using unchanged_self _
  | go ok =>
    cases hph : s.phase t with
    | idle => simpa only [TrackerShard.step, hph] using unchanged_self _
    | peeking d =>
      simp only [TrackerShard.step, hph]
      split <;> exact unchanged_shards _ rfl rfl
    | queueing d =>
      simp only [TrackerShard.step, hph]
      split
      · exact unchanged_shards _ rfl rfl
      · exact unchanged_self _
    | holding d =>
      obtain rfl : d = c := by simpa [current, hph] using hc
      have hstep : s.step p (t, .go ok) = s.underTable p t d ok := by simp only [TrackerShard.step, hph]
      rw [hstep] at hquiet ⊢
      rcases underTable_unchanged (s := s) (t := t) (c := d) p ok with hanswer | hunchanged
      · exact hquiet hanswer
      · exact hunchanged
    | waiting d i =>
      simp only [TrackerShard.step, hph]
      split
      · split
        · exact unchanged_atShard _ (fun _ => rfl) (fun _ => rfl)
        · exact unchanged_self _
      · exact unchanged_self _
    | locked d i =>
      cases hget : s.shards[i]? with
      | none => simpa only [TrackerShard.step, hph, hget] using unchanged_self _
      | some shard =>
        have hstep : s.step p (t, .go ok) = s.underLock p t d i shard := by simp only [TrackerShard.step, hph, hget]
        rw [hstep] at hentered ⊢
        rcases underLock_unchanged p d i shard c.camera with hin | hunchanged
        · exact hentered hin
        · exact hunchanged
    | _ => exact absurd (by simp [committed, hph, Phase.enters, Phase.restarts]) hopen

/-- However the workers come in: a tracker is given the frames of one camera, by one
worker at a time and upwards between two resets, and a call that goes on to be
refused changes none. -/
theorem feed_order (p : Plane) (events : List (θ × Act κ)) :
    (∀ shard ∈ (run p events).1.shards, shard.tracker.inside.length ≤ 1 ∧ OfCamera shard.cameraId shard.tracker.log ∧
      Increasing shard.tracker.log) ∧
    ∀ (before : List (θ × Act κ)) (e : θ × Act κ) (after : List (θ × Act κ)), events = before ++ e :: after →
      Refuses p (run p before).1 e.1 (e :: after) = true → ∀ c, current (run p before).1 e = some c →
        Unchanged (run p before).1 (run p (before ++ [e])).1 c.camera := by
  constructor
  · intro shard hm
    obtain ⟨i, hi⟩ := List.mem_iff_getElem?.mp hm
    have h : ShardInv (run p events).1.phase i shard := (inv_run p events).shard i shard hi
    exact ⟨h.alone, h.sound.ofCamera, h.sound.increasing⟩
  · intro before e after _ hrefuses c hc
    have hnext : (run p (before ++ [e])).1 = ((run p before).1.step p e).1 := by
      simp only [run, Machine.exec_append, Machine.exec]
    rw [hnext]
    exact unchanged_of_refuses p e after hrefuses hc

/-- Two workers, and the later frame comes first. -/
def raced : List (Bool × Act String) :=
  [(true, .call (.update "cam-7" 5 (some 64))), (false, .call (.update "cam-7" 4 (some 64))), (true, .go true), (false, .go true),
    (true, .go true), (true, .go true), (false, .go true), (false, .go true), (true, .go true), (true, .go true), (false, .go true),
    (true, .go true), (false, .go true), (false, .go true)]

theorem raced_ordered : (run python raced).2.getLast? = some (some .refused) ∧
    (∀ shard ∈ (run python raced).1.shards, shard.tracker.inside.length ≤ 1 ∧ OfCamera shard.cameraId shard.tracker.log ∧
      Increasing shard.tracker.log) :=
  ⟨by decide +kernel, (feed_order python raced).1⟩

end TrackerShard

end ShipInfer.Tracking
