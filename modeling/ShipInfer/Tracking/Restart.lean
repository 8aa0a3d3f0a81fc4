import Mathlib.Data.Fintype.Basic
import Mathlib.Order.Nat
import ShipInfer.Tracking.Order

/-!
# An announced restart

`ShipvisionTrack` of `topology/elements/track`: the two lifecycle hooks and the frames of
any number of workers over one tracker shard. The hooks come one at a time, from a thread
of the runner. A camera's stream is over when the reset of `camera_added` is done, or finds
no tracker; `origin` is the stream a worker's frame is of and `mark` the stream of the frame
a shard's `last_frame_id` was set by.
-/

namespace ShipInfer.Tracking

/-- The call it is in. -/
def Phase.call {κ : Type} : Phase κ → Option (Call κ)
  | .idle => none
  | .peeking c | .queueing c | .holding c | .waiting c _ | .locked c _ | .restarting c _ _ | .notifying c _ _
  | .feeding c _ | .resetting c _ => some c

theorem Phase.call_of_found {κ : Type} {p : Phase κ} {c : Call κ} {i : Nat} (h : p.found = some (c, i)) :
    p.call = some c := by
  cases p <;> simp_all [Phase.found, Phase.call]

/-- The camera of a `reset_if_present` that ends here, if it does. -/
def Phase.reannounces {κ : Type} : Phase κ → Option κ
  | .holding (.resetIfPresent c) | .resetting (.resetIfPresent c) _ => some c
  | _ => none

/-- Worker `none` runs the hooks. -/
structure Element (κ θ : Type) where
  shard : TrackerShard κ (Option θ) := {}
  dropped : List κ := []
  stream : κ → Nat := fun _ => 0
  origin : θ → Nat := fun _ => 0
  mark : Nat → Option Nat := fun _ => none

inductive Notice (κ θ : Type)
  | removed (camera : κ)
  | added (camera : κ)
  /-- Worker `t` brings a frame of the stream `origin` of its camera. -/
  | frame (t : θ) (camera : κ) (frame : Int) (origin : Nat)
  | go (who : Option θ) (ok : Bool)
  deriving DecidableEq

namespace Element

variable {κ θ : Type} [DecidableEq κ] [DecidableEq θ]

/-- One step of the shard. -/
def act (s : Element κ θ) (who : Option θ) (a : Act κ) : Element κ θ × Option Outcome :=
  let r := s.shard.step python (who, a)
  ({ s with shard := r.1 }, r.2)

/-- `camera_removed` -/
def cameraRemoved (s : Element κ θ) (camera : κ) : Element κ θ × Option Outcome :=
  act { s with dropped := s.dropped.insert camera } none (.call (.drop camera))

/-- `camera_added` -/
def cameraAdded (s : Element κ θ) (camera : κ) : Element κ θ × Option Outcome :=
  if camera ∈ s.dropped then
    act { s with dropped := s.dropped.erase camera } none (.call (.resetIfPresent camera))
  else (s, none)

/-- The place of the shard whose tracker worker `t` goes on to feed. -/
def feeds (s : Element κ θ) (t : θ) (ok : Bool) : Option Nat :=
  match s.shard.phase (some t) with
  | .locked (.update _ frame _) i => if s.shard.shards[i]?.any (·.lastFrameId < frame) then some i else none
  | .notifying _ _ i => if ok then some i else none
  | _ => none

/-- The place of the shard whose `last_frame_id` the step sets, and what it is marked with. -/
def marks (s : Element κ θ) (who : Option θ) (ok : Bool) : Option (Nat × Option Nat) :=
  match s.shard.phase who with
  | .locked (.update _ frame _) i =>
    if s.shard.shards[i]?.any (·.lastFrameId < frame) then some (i, who.map s.origin) else none
  | .notifying _ _ i => if ok then some (i, who.map s.origin) else none
  | .restarting _ _ i | .resetting _ i => if ok then some (i, none) else none
  | _ => none

/-- The camera whose old stream is over with the step. -/
def finishes (s : Element κ θ) (who : Option θ) (ok : Bool) : Option κ :=
  if (s.act who (.go ok)).2.isSome then (s.shard.phase who).reannounces else none

/-- A worker or the hook goes on. -/
def advance (s : Element κ θ) (who : Option θ) (ok : Bool) : Element κ θ × Option Outcome :=
  let r := s.act who (.go ok)
  ({ r.1 with
      stream := (s.finishes who ok).elim s.stream fun c => Function.update s.stream c (s.stream c + 1)
      mark := (s.marks who ok).elim s.mark fun m => Function.update s.mark m.1 m.2 }, r.2)

/-- `_do_process` refuses a negative frame; a hook is called when none is under way. -/
def step (regressionReset : Int) (s : Element κ θ) : Notice κ θ → Element κ θ × Option Outcome
  | .removed camera => if s.shard.phase none = .idle then s.cameraRemoved camera else (s, none)
  | .added camera => if s.shard.phase none = .idle then s.cameraAdded camera else (s, none)
  | .frame t camera frame origin =>
    if s.shard.phase (some t) = .idle ∧ 0 ≤ frame ∧ origin ≤ s.stream camera then
      act { s with origin := Function.update s.origin t origin } (some t)
        (.call (.update camera frame (some regressionReset)))
    else (s, none)
  | .go who ok => s.advance who ok

/-- The frame is refused, or taken for an unannounced restart, on account of a frame of an
older stream. -/
def Blames (regressionReset : Int) (s : Element κ θ) (e : Notice κ θ) : Prop :=
  ∃ t ok c i m, e = .go (some t) ok ∧ s.shard.phase (some t) = .locked c i ∧ s.mark i = some m ∧ m < s.origin t ∧
    ((s.step regressionReset e).2 = some .refused ∨
      ∃ frame, (s.step regressionReset e).1.shard.phase (some t) = .restarting c frame i)

/-- A late frame feeds no tracker that frames of a newer stream may still reach: none in
the table, and none a newer frame has found. The hook's reset does not raise. -/
def Timely (s : Element κ θ) : Notice κ θ → Prop
  | .go (some t) ok => ∀ i ∈ s.feeds t ok, (∀ p ∈ s.shard.cameras.entries, p.2 = i → s.stream p.1 ≤ s.origin t) ∧
      ∀ t', (s.shard.phase (some t')).found.map Prod.snd = some i → s.origin t' ≤ s.origin t
  | .go none ok => (s.shard.phase none).restarts = true → ok = true
  | .removed _ | .added _ | .frame .. => True

instance decidableTimely [Fintype θ] (s : Element κ θ) : (e : Notice κ θ) → Decidable (s.Timely e)
  | .go (some t) ok => inferInstanceAs (Decidable (∀ i ∈ s.feeds t ok, _))
  | .go none ok => inferInstanceAs (Decidable (_ → ok = true))
  | .removed _ | .added _ | .frame .. => .isTrue trivial

/-! ## The invariant -/

/-- No shard that frames of a stream may reach is marked with an older one. -/
structure Good (s : Element κ θ) : Prop where
  shard : s.shard.Inv
  entry : ∀ c i m, s.shard.cameras.get? c = some i → s.mark i = some m → s.stream c ≤ m
  mine : ∀ t c i m, (s.shard.phase (some t)).found = some (c, i) → s.mark i = some m → s.origin t ≤ m
  frames : ∀ t c, (s.shard.phase (some t)).call = some c →
    (∃ camera frame r, c = .update camera frame r) ∧ s.origin t ≤ s.stream c.camera
  hook : ∀ c, (s.shard.phase none).call = some c → ∃ camera, c = .drop camera ∨ c = .resetIfPresent camera
  held : ∀ c i, (s.shard.phase none).found = some (c, i) → s.shard.cameras.get? c.camera = some i
  marked : ∀ i m, s.mark i = some m → i < s.shard.shards.length

omit [DecidableEq θ] in
theorem good_init : Good ({} : Element κ θ) where
  shard := TrackerShard.inv_init
  entry := by simp
  mine := by simp
  frames := by simp [Phase.call]
  hook := by simp [Phase.call]
  held := by simp [Phase.found]
  marked := by simp

variable {s s' : Element κ θ}

/-- A worker goes on: with the shard it had, or one of the table. -/
theorem Good.worker (h : s.Good) {t : θ} {p : Phase κ} (hinv : s'.shard.Inv)
    (hcameras : s'.shard.cameras = s.shard.cameras) (hlength : s'.shard.shards.length = s.shard.shards.length)
    (hphase : s'.shard.phase = Function.update s.shard.phase (some t) p) (hstream : s'.stream = s.stream)
    (horigin : s'.origin = s.origin) (hcall : ∀ c, p.call = some c → (s.shard.phase (some t)).call = some c)
    (hfound : ∀ c i, p.found = some (c, i) →
      (s.shard.phase (some t)).found = some (c, i) ∨ s.shard.cameras.get? c.camera = some i)
    (hmark : ∀ i m, s'.mark i = some m → s.mark i = some m ∨
      (i < s.shard.shards.length ∧ (∀ c, s.shard.cameras.get? c = some i → s.stream c ≤ m) ∧
        ∀ t' c, (s.shard.phase (some t')).found = some (c, i) → s.origin t' ≤ m)) : s'.Good where
  shard := hinv
  entry := by
    intro c i m hi hm
    rw [hcameras] at hi
    rw [hstream]
    rcases hmark i m hm with hold | ⟨-, htable, -⟩
    · exact h.entry c i m hi hold
    · exact htable c hi
  mine := by
    intro t' c i m hf hm
    rw [horigin]
    rw [hphase] at hf
    by_cases ht : t' = t
    · subst ht
      rw [Function.update_self] at hf
      have hle : s.origin t' ≤ s.stream c.camera := (h.frames t' c (hcall c (Phase.call_of_found hf))).2
      rcases hmark i m hm with hold | ⟨-, htable, hothers⟩
      · rcases hfound c i hf with hsame | hi
        · exact h.mine t' c i m hsame hold
        · exact hle.trans (h.entry _ i m hi hold)
      · rcases hfound c i hf with hsame | hi
        · exact hothers t' c hsame
        · exact hle.trans (htable _ hi)
    · rw [Function.update_of_ne (by simpa using ht)] at hf
      rcases hmark i m hm with hold | ⟨-, -, hothers⟩
      · exact h.mine t' c i m hf hold
      · exact hothers t' c hf
  frames := by
    intro t' c hc
    rw [horigin, hstream]
    rw [hphase] at hc
    by_cases ht : t' = t
    · subst ht
      rw [Function.update_self] at hc
      exact h.frames t' c (hcall c hc)
    · rw [Function.update_of_ne (by simpa using ht)] at hc
      exact h.frames t' c hc
  hook := by
    intro c hc
    rw [hphase, Function.update_of_ne (by simp)] at hc
    exact h.hook c hc
  held := by
    intro c i hf
    rw [hphase, Function.update_of_ne (by simp)] at hf
    rw [hcameras]
    exact h.held c i hf
  marked := by
    intro i m hm
    rw [hlength]
    rcases hmark i m hm with hold | ⟨hlt, -, -⟩
    · exact h.marked i m hold
    · exact hlt

/-- The hook goes on: a stream that is over leaves no mark in the table. -/
theorem Good.hooks (h : s.Good) {p : Phase κ} (hinv : s'.shard.Inv)
    (hcameras : ∀ c i, s'.shard.cameras.get? c = some i → s.shard.cameras.get? c = some i)
    (hlength : s'.shard.shards.length = s.shard.shards.length)
    (hphase : s'.shard.phase = Function.update s.shard.phase none p) (horigin : s'.origin = s.origin)
    (hstream : ∀ c, s.stream c ≤ s'.stream c)
    (hover : ∀ c i m, s'.shard.cameras.get? c = some i → s'.mark i = some m → s'.stream c = s.stream c)
    (hmark : ∀ i m, s'.mark i = some m → s.mark i = some m)
    (hcall : ∀ c, p.call = some c → ∃ camera, c = .drop camera ∨ c = .resetIfPresent camera)
    (hfound : ∀ c i, p.found = some (c, i) → s'.shard.cameras.get? c.camera = some i) : s'.Good where
  shard := hinv
  entry := by
    intro c i m hi hm
    rw [hover c i m hi hm]
    exact h.entry c i m (hcameras c i hi) (hmark i m hm)
  mine := by
    intro t c i m hf hm
    rw [hphase, Function.update_of_ne (by simp)] at hf
    rw [horigin]
    exact h.mine t c i m hf (hmark i m hm)
  frames := by
    intro t c hc
    rw [hphase, Function.update_of_ne (by simp)] at hc
    rw [horigin]
    obtain ⟨hupdate, hle⟩ := h.frames t c hc
    exact ⟨hupdate, hle.trans (hstream c.camera)⟩
  hook := by
    intro c hc
    rw [hphase, Function.update_self] at hc
    exact hcall c hc
  held := by
    intro c i hf
    rw [hphase, Function.update_self] at hf
    exact hfound c i hf
  marked := by
    intro i m hm
    rw [hlength]
    exact h.marked i m (hmark i m hm)

/-- A worker builds the tracker of a camera that has none. -/
theorem Good.build (h : s.Good) {t : θ} {c : Call κ} (hinv : s'.shard.Inv)
    (hshard : s'.shard = ({ s.shard with tableLock := none } : TrackerShard κ (Option θ)).build (some t) c)
    (hstream : s'.stream = s.stream) (horigin : s'.origin = s.origin) (hmark : s'.mark = s.mark)
    (hcall : (s.shard.phase (some t)).call = some c) (hnone : s.shard.cameras.get? c.camera = none) : s'.Good where
  shard := hinv
  entry := by
    intro d i m hi hm
    rw [hshard, TrackerShard.build, Dict.get?_set] at hi
    rw [hmark] at hm
    rw [hstream]
    by_cases hd : d = c.camera
    · simp only [hd, ↓reduceIte, Option.some.injEq] at hi
      have hlt := h.marked i m hm
      omega
    · simp only [hd, ↓reduceIte] at hi
      exact h.entry d i m hi hm
  mine := by
    intro t' d i m hf hm
    rw [hshard, TrackerShard.build] at hf
    rw [hmark] at hm
    rw [horigin]
    by_cases ht : t' = t
    · subst ht
      simp only [Function.update_self, Phase.found, Option.some.injEq, Prod.mk.injEq] at hf
      have hlt := h.marked i m hm
      omega
    · simp only [Function.update_of_ne (show (some t') ≠ some t by simpa using ht)] at hf
      exact h.mine t' d i m hf hm
  frames := by
    intro t' d hd
    rw [hshard, TrackerShard.build] at hd
    rw [horigin, hstream]
    by_cases ht : t' = t
    · subst ht
      simp only [Function.update_self, Phase.call, Option.some.injEq] at hd
      exact h.frames t' d (hd ▸ hcall)
    · simp only [Function.update_of_ne (show (some t') ≠ some t by simpa using ht)] at hd
      exact h.frames t' d hd
  hook := by
    intro d hd
    rw [hshard, TrackerShard.build] at hd
    simp only [Function.update_of_ne (show (none : Option θ) ≠ some t by simp)] at hd
    exact h.hook d hd
  held := by
    intro d i hf
    rw [hshard, TrackerShard.build] at hf ⊢
    simp only [Function.update_of_ne (show (none : Option θ) ≠ some t by simp)] at hf
    have hold := h.held d i hf
    have hne : d.camera ≠ c.camera := by
      intro heq
      rw [heq, hnone] at hold
      cases hold
    simp only [Dict.get?_set_ne hne]
    exact hold
  marked := by
    intro i m hm
    rw [hmark] at hm
    have hlt := h.marked i m hm
    simp only [hshard, TrackerShard.build, List.length_append, List.length_singleton]
    omega

/-! ## The steps -/

/-- The shard after one step. -/
def next (s : Element κ θ) (who : Option θ) (ok : Bool) : TrackerShard κ (Option θ) :=
  (s.shard.step python (who, .go ok)).1

theorem finishes_none {who : Option θ} {ok : Bool} (h : (s.shard.phase who).reannounces = none) :
    s.finishes who ok = none := by
  simp [finishes, h]

theorem advance_quiet {who : Option θ} {ok : Bool} (hmarks : s.marks who ok = none)
    (hover : s.finishes who ok = none) : (s.advance who ok).1 = { s with shard := s.next who ok } := by
  simp [advance, act, next, hmarks, hover]

theorem advance_marks {who : Option θ} {ok : Bool} {i : Nat} {v : Option Nat} (hmarks : s.marks who ok = some (i, v))
    (hover : s.finishes who ok = none) :
    (s.advance who ok).1 = { s with shard := s.next who ok, mark := Function.update s.mark i v } := by
  simp [advance, act, next, hmarks, hover]

/-- A worker's step that sets no `last_frame_id`. -/
theorem Good.quiet (h : s.Good) {t : θ} {ok : Bool} {p : Phase κ} (hmarks : s.marks (some t) ok = none)
    (hover : s.finishes (some t) ok = none) (hcameras : (s.next (some t) ok).cameras = s.shard.cameras)
    (hlength : (s.next (some t) ok).shards.length = s.shard.shards.length)
    (hphase : (s.next (some t) ok).phase = Function.update s.shard.phase (some t) p)
    (hcall : ∀ c, p.call = some c → (s.shard.phase (some t)).call = some c)
    (hfound : ∀ c i, p.found = some (c, i) →
      (s.shard.phase (some t)).found = some (c, i) ∨ s.shard.cameras.get? c.camera = some i) :
    (s.advance (some t) ok).1.Good := by
  rw [advance_quiet hmarks hover]
  exact h.worker (h.shard.step python (some t, .go ok)) hcameras hlength hphase rfl rfl hcall hfound
    fun i m hm => .inl hm

/-- A worker's step that resets a `last_frame_id` or sets it in time. -/
theorem Good.sets (h : s.Good) {t : θ} {ok : Bool} {p : Phase κ} {i : Nat} {v : Option Nat}
    (hmarks : s.marks (some t) ok = some (i, v)) (hover : s.finishes (some t) ok = none)
    (hcameras : (s.next (some t) ok).cameras = s.shard.cameras)
    (hlength : (s.next (some t) ok).shards.length = s.shard.shards.length)
    (hphase : (s.next (some t) ok).phase = Function.update s.shard.phase (some t) p)
    (hcall : ∀ c, p.call = some c → (s.shard.phase (some t)).call = some c)
    (hfound : ∀ c j, p.found = some (c, j) → (s.shard.phase (some t)).found = some (c, j))
    (htime : v = none ∨ (v = some (s.origin t) ∧ i < s.shard.shards.length ∧
      (∀ c, s.shard.cameras.get? c = some i → s.stream c ≤ s.origin t) ∧
        ∀ t' c, (s.shard.phase (some t')).found = some (c, i) → s.origin t' ≤ s.origin t)) :
    (s.advance (some t) ok).1.Good := by
  rw [advance_marks hmarks hover]
  refine h.worker (h.shard.step python (some t, .go ok)) hcameras hlength hphase rfl rfl hcall
    (fun c j hf => .inl (hfound c j hf)) fun j m hm => ?_
  by_cases hj : j = i
  · subst hj
    simp only [Function.update_self] at hm
    subst hm
    obtain hnone | ⟨hsome, hlt, htable, hothers⟩ := htime
    · cases hnone
    · cases hsome
      exact .inr ⟨hlt, htable, hothers⟩
  · simp only [Function.update_of_ne hj] at hm
    exact .inl hm

/-- A worker that waits. -/
theorem Good.stays (h : s.Good) {who : Option θ} {ok : Bool} (hmarks : s.marks who ok = none)
    (hover : s.finishes who ok = none) (hnext : s.next who ok = s.shard) : (s.advance who ok).1.Good := by
  rw [advance_quiet hmarks hover, hnext]
  exact h

omit [DecidableEq θ] in
theorem timely_parts {t : θ} {ok : Bool} (ht : s.Timely (.go (some t) ok)) {i : Nat} (hi : s.feeds t ok = some i) :
    (∀ c, s.shard.cameras.get? c = some i → s.stream c ≤ s.origin t) ∧
      ∀ t' c, (s.shard.phase (some t')).found = some (c, i) → s.origin t' ≤ s.origin t := by
  obtain ⟨htable, hothers⟩ := ht i hi
  refine ⟨fun c hc => htable (c, i) (Dict.get?_eq_some_iff.mp hc) rfl, fun t' c hf => hothers t' ?_⟩
  rw [hf, Option.map_some]

theorem Good.workerGo (h : s.Good) (t : θ) (ok : Bool) (ht : s.Timely (.go (some t) ok)) :
    (s.advance (some t) ok).1.Good := by
  cases hph : s.shard.phase (some t) with
  | idle =>
    apply h.stays <;> simp [marks, next, TrackerShard.step, hph, finishes, Phase.reannounces]
  | peeking c =>
    cases hget : s.shard.cameras.get? c.camera with
    | some i =>
      apply h.quiet (p := .waiting c i)
        <;> simp [marks, next, TrackerShard.step, hph, hget, TrackerShard.setPhase, finishes, Phase.reannounces,
          Phase.call, Phase.found]
    | none =>
      apply h.quiet (p := .queueing c)
        <;> simp [marks, next, TrackerShard.step, hph, hget, TrackerShard.setPhase, finishes, Phase.reannounces,
          Phase.call, Phase.found]
  | queueing c =>
    by_cases hfree : s.shard.tableLock.isNone = true
    · apply h.quiet (p := .holding c)
        <;> simp [marks, next, TrackerShard.step, hph, hfree, TrackerShard.setPhase, finishes, Phase.reannounces,
          Phase.call, Phase.found]
    · apply h.stays <;> simp [marks, next, TrackerShard.step, hph, hfree, finishes, Phase.reannounces]
  | holding c =>
    obtain ⟨⟨camera, frame, r, rfl⟩, -⟩ := h.frames t c (by simp [hph, Phase.call])
    cases hget : s.shard.cameras.get? camera with
    | some i =>
      apply h.quiet (p := .waiting (.update camera frame r) i)
        <;> simp [marks, next, TrackerShard.step, TrackerShard.underTable, hph, hget, TrackerShard.setPhase, finishes,
          Phase.reannounces, Phase.call, Phase.found, Call.camera]
    | none =>
      cases ok with
      | false =>
        apply h.quiet (p := .idle)
          <;> simp [marks, next, TrackerShard.step, TrackerShard.underTable, hph, hget, TrackerShard.setPhase, finishes,
            Phase.reannounces, Phase.call, Phase.found, Call.camera, Call.builds, python]
      | true =>
        have hnext : s.next (some t) true =
            ({ s.shard with tableLock := none } : TrackerShard κ (Option θ)).build (some t)
              (.update camera frame r) := by
          simp [next, TrackerShard.step, TrackerShard.underTable, hph, hget, Call.camera, Call.builds, python]
        rw [advance_quiet (by simp [marks, hph]) (finishes_none (by simp [hph, Phase.reannounces]))]
        exact h.build (h.shard.step python (some t, .go true)) hnext rfl rfl rfl (by simp [hph, Phase.call]) hget
  | waiting c i =>
    cases hget : s.shard.shards[i]? with
    | none =>
      apply h.stays <;> simp [marks, next, TrackerShard.step, hph, hget, finishes, Phase.reannounces]
    | some shard =>
      by_cases hfree : shard.lock.isNone = true
      · apply h.quiet (p := .locked c i)
          <;> simp [marks, next, TrackerShard.step, hph, hget, hfree, TrackerShard.atShard, finishes, Phase.reannounces,
            Phase.call, Phase.found]
      · apply h.stays <;> simp [marks, next, TrackerShard.step, hph, hget, hfree, finishes, Phase.reannounces]
  | locked c i =>
    obtain ⟨⟨camera, frame, r, rfl⟩, -⟩ := h.frames t c (by simp [hph, Phase.call])
    cases hget : s.shard.shards[i]? with
    | none => apply h.stays <;> simp [marks, next, TrackerShard.step, hph, hget, finishes, Phase.reannounces]
    | some shard =>
      by_cases hle : frame ≤ shard.lastFrameId
      · have hmarks : s.marks (some t) ok = none := by simp [marks, hph, hget, hle]
        by_cases hrestart : python.restarts r (shard.lastFrameId - frame) = true
        · apply h.quiet (p := .restarting (.update camera frame r) frame i) hmarks
            <;> simp [next, TrackerShard.step, TrackerShard.underLock, TrackerShard.atShard, hph, hget, hle, hrestart,
              finishes, Phase.reannounces, Phase.call, Phase.found]
        · apply h.quiet (p := .idle) hmarks
            <;> simp [next, TrackerShard.step, TrackerShard.underLock, TrackerShard.leave, TrackerShard.atShard, hph,
              hget, hle, hrestart, finishes, Phase.reannounces, Phase.call, Phase.found]
      · have hmarks : s.marks (some t) ok = some (i, some (s.origin t)) := by simp [marks, hph, hget, hle]
        obtain ⟨htable, hothers⟩ := timely_parts ht (i := i) (by simp [feeds, hph, hget, hle])
        apply h.sets (p := .feeding (.update camera frame r) i) hmarks
          <;> simp [next, TrackerShard.step, TrackerShard.underLock, TrackerShard.atShard, hph, hget, hle, finishes,
            Phase.reannounces, Phase.call, Phase.found]
        exact ⟨(List.getElem?_eq_some_iff.mp hget).1, htable, hothers⟩
  | restarting c frame i =>
    cases ok with
    | true =>
      apply h.sets (p := .notifying c frame i) (i := i) (v := none)
        <;> simp [marks, next, TrackerShard.step, TrackerShard.atShard, hph, finishes, Phase.reannounces, Phase.call,
          Phase.found]
    | false =>
      apply h.quiet (p := .idle)
        <;> simp [marks, next, TrackerShard.step, TrackerShard.leave, TrackerShard.atShard, hph, finishes,
          Phase.reannounces, Phase.call, Phase.found]
  | notifying c frame i =>
    cases ok with
    | true =>
      have hf : (s.shard.phase (some t)).found = some (c, i) := by simp [hph, Phase.found]
      obtain ⟨shard, hshard, -⟩ := h.shard.found (some t) c i hf
      obtain ⟨htable, hothers⟩ := timely_parts ht (i := i) (by simp [feeds, hph])
      apply h.sets (p := .feeding c i) (i := i) (v := some (s.origin t))
        <;> simp [marks, next, TrackerShard.step, TrackerShard.atShard, hph, finishes, Phase.reannounces, Phase.call,
          Phase.found]
      exact ⟨(List.getElem?_eq_some_iff.mp hshard).1, htable, hothers⟩
    | false =>
      apply h.quiet (p := .idle)
        <;> simp [marks, next, TrackerShard.step, TrackerShard.leave, TrackerShard.atShard, hph, finishes,
          Phase.reannounces, Phase.call, Phase.found]
  | feeding c i =>
    apply h.quiet (p := .idle)
      <;> simp [marks, next, TrackerShard.step, hph, TrackerShard.leave, TrackerShard.atShard, finishes,
        Phase.reannounces, Phase.call, Phase.found]
  | resetting c i =>
    obtain ⟨⟨camera, frame, r, rfl⟩, -⟩ := h.frames t c (by simp [hph, Phase.call])
    cases ok with
    | true =>
      apply h.sets (p := .idle) (i := i) (v := none)
        <;> simp [marks, next, TrackerShard.step, TrackerShard.leave, TrackerShard.atShard, hph, finishes,
          Phase.reannounces, Phase.call, Phase.found]
    | false =>
      apply h.quiet (p := .idle)
        <;> simp [marks, next, TrackerShard.step, TrackerShard.leave, TrackerShard.atShard, hph, finishes,
          Phase.reannounces, Phase.call, Phase.found]

/-- A step of the hook that ends no stream. -/
theorem Good.hookQuiet (h : s.Good) {ok : Bool} {p : Phase κ}
    (hmarks : s.marks none ok = none ∨ ∃ i, s.marks none ok = some (i, none))
    (hover : s.finishes none ok = none)
    (hcameras : ∀ c i, (s.next none ok).cameras.get? c = some i → s.shard.cameras.get? c = some i)
    (hlength : (s.next none ok).shards.length = s.shard.shards.length)
    (hphase : (s.next none ok).phase = Function.update s.shard.phase none p)
    (hcall : ∀ c, p.call = some c → (s.shard.phase none).call = some c)
    (hfound : ∀ c i, p.found = some (c, i) → (s.next none ok).cameras.get? c.camera = some i) :
    (s.advance none ok).1.Good := by
  have hkept : ∀ c, p.call = some c → ∃ camera, c = .drop camera ∨ c = .resetIfPresent camera :=
    fun c hc => h.hook c (hcall c hc)
  rcases hmarks with hnone | ⟨i, hsome⟩
  · rw [advance_quiet hnone hover]
    exact h.hooks (h.shard.step python (none, .go ok)) hcameras hlength hphase rfl (fun _ => le_rfl)
      (fun _ _ _ _ _ => rfl) (fun _ _ hm => hm) hkept hfound
  · rw [advance_marks hsome hover]
    refine h.hooks (h.shard.step python (none, .go ok)) hcameras hlength hphase rfl (fun _ => le_rfl)
      (fun _ _ _ _ _ => rfl) (fun j m hm => ?_) hkept hfound
    by_cases hj : j = i
    · subst hj
      simp at hm
    · simpa only [Function.update_of_ne hj] using hm

/-- The hook finds no tracker, or has reset the one it found: the stream is over. -/
theorem Good.ends (h : s.Good) {ok : Bool} {k : κ} (hover : s.finishes none ok = some k)
    (hcameras : (s.next none ok).cameras = s.shard.cameras)
    (hlength : (s.next none ok).shards.length = s.shard.shards.length)
    (hphase : (s.next none ok).phase = Function.update s.shard.phase none .idle)
    (hgone : (s.marks none ok = none ∧ s.shard.cameras.get? k = none) ∨
      ∃ i, s.marks none ok = some (i, none) ∧ s.shard.cameras.get? k = some i) : (s.advance none ok).1.Good := by
  have hstream : (s.advance none ok).1.stream = Function.update s.stream k (s.stream k + 1) := by
    simp only [advance, hover, Option.elim_some]
  refine h.hooks (p := .idle) (h.shard.step python (none,
    .go ok)) ?_ hlength hphase rfl ?_ ?_ ?_ (by simp [Phase.call])
    (by simp [Phase.found])
  · intro c i hi
    rwa [← hcameras]
  · intro c
    rw [hstream]
    by_cases hc : c = k
    · simp [hc]
    · simp [Function.update_of_ne hc]
  · intro c i m hi hm
    rw [hstream]
    have hi' : s.shard.cameras.get? c = some i := by rwa [← hcameras]
    by_cases hc : c = k
    · subst hc
      rcases hgone with ⟨-, hnone⟩ | ⟨j, hmarks, hj⟩
      · rw [hnone] at hi'
        cases hi'
      · rw [hj] at hi'
        cases hi'
        simp [advance, hmarks] at hm
    · exact Function.update_of_ne hc _ _
  · intro i m hm
    rcases hgone with ⟨hmarks, -⟩ | ⟨j, hmarks, -⟩
    · simpa [advance, act, hmarks] using hm
    · by_cases hij : i = j
      · subst hij
        simp [advance, hmarks] at hm
      · simpa [advance, act, hmarks, Function.update_of_ne hij] using hm

theorem Good.hookGo (h : s.Good) (ok : Bool) (ht : s.Timely (.go none ok)) : (s.advance none ok).1.Good := by
  cases hph : s.shard.phase none with
  | idle => apply h.stays <;> simp [marks, next, TrackerShard.step, hph, finishes, Phase.reannounces]
  | peeking c =>
    cases hget : s.shard.cameras.get? c.camera with
    | some i =>
      apply h.hookQuiet (p := .waiting c i)
        <;> simp [marks, next, TrackerShard.step, hph, hget, TrackerShard.setPhase, finishes, Phase.reannounces,
          Phase.call, Phase.found]
    | none =>
      apply h.hookQuiet (p := .queueing c)
        <;> simp [marks, next, TrackerShard.step, hph, hget, TrackerShard.setPhase, finishes, Phase.reannounces,
          Phase.call, Phase.found]
  | queueing c =>
    by_cases hfree : s.shard.tableLock.isNone = true
    · apply h.hookQuiet (p := .holding c)
        <;> simp [marks, next, TrackerShard.step, hph, hfree, TrackerShard.setPhase, finishes, Phase.reannounces,
          Phase.call, Phase.found]
    · apply h.stays <;> simp [marks, next, TrackerShard.step, hph, hfree, finishes, Phase.reannounces]
  | holding c =>
    obtain ⟨camera, rfl | rfl⟩ := h.hook c (by simp [hph, Phase.call])
    · apply h.hookQuiet (p := .idle)
        <;> simp [marks, next, TrackerShard.step, TrackerShard.underTable, hph, TrackerShard.setPhase, finishes,
          Phase.reannounces, Phase.call, Phase.found]
      intro d i hd
      rw [Dict.get?_erase] at hd
      split at hd
      · cases hd
      · exact hd
    · cases hget : s.shard.cameras.get? camera with
      | some i =>
        apply h.hookQuiet (p := .waiting (.resetIfPresent camera) i)
          <;> simp [act, marks, next, TrackerShard.step, TrackerShard.underTable, hph, hget, TrackerShard.setPhase,
            finishes, Phase.call, Phase.found, Call.camera]
      | none =>
        apply h.ends (k := camera)
          <;> simp [act, marks, next, TrackerShard.step, TrackerShard.underTable, hph, hget, TrackerShard.setPhase,
            finishes, Phase.reannounces, Call.camera, Call.builds]
  | waiting c i =>
    have hheld := h.held c i (by simp [hph, Phase.found])
    cases hget : s.shard.shards[i]? with
    | none => apply h.stays <;> simp [marks, next, TrackerShard.step, hph, hget, finishes, Phase.reannounces]
    | some shard =>
      by_cases hfree : shard.lock.isNone = true
      · apply h.hookQuiet (p := .locked c i)
          <;> simp [marks, next, TrackerShard.step, hph, hget, hfree, TrackerShard.atShard, finishes, Phase.reannounces,
            Phase.call, Phase.found, hheld]
      · apply h.stays <;> simp [marks, next, TrackerShard.step, hph, hget, hfree, finishes, Phase.reannounces]
  | locked c i =>
    have hheld := h.held c i (by simp [hph, Phase.found])
    cases hget : s.shard.shards[i]? with
    | none =>
      obtain ⟨camera, rfl | rfl⟩ := h.hook c (by simp [hph, Phase.call])
        <;> apply h.stays <;> simp [marks, next, TrackerShard.step, hph, hget, finishes, Phase.reannounces]
    | some shard =>
      obtain ⟨camera, rfl | rfl⟩ := h.hook c (by simp [hph, Phase.call])
      · apply h.hookQuiet (p := .resetting (.drop camera) i)
          <;> simp [marks, next, TrackerShard.step, TrackerShard.underLock, hph, hget, TrackerShard.atShard, finishes,
            Phase.reannounces, Phase.call, Phase.found, hheld]
      · apply h.hookQuiet (p := .resetting (.resetIfPresent camera) i)
          <;> simp [marks, next, TrackerShard.step, TrackerShard.underLock, hph, hget, TrackerShard.atShard, finishes,
            Phase.reannounces, Phase.call, Phase.found, hheld]
  | restarting c frame i =>
    have hheld := h.held c i (by simp [hph, Phase.found])
    cases ok with
    | true =>
      apply h.hookQuiet (p := .notifying c frame i)
        <;> simp [marks, next, TrackerShard.step, TrackerShard.atShard, hph, finishes, Phase.reannounces, Phase.call,
          Phase.found, hheld]
    | false =>
      apply h.hookQuiet (p := .idle)
        <;> simp [marks, next, TrackerShard.step, TrackerShard.leave, TrackerShard.atShard, hph, finishes,
          Phase.reannounces, Phase.call, Phase.found]
  | notifying c frame i =>
    have hheld := h.held c i (by simp [hph, Phase.found])
    cases ok with
    | true =>
      apply h.hookQuiet (p := .feeding c i)
        <;> simp [marks, next, TrackerShard.step, TrackerShard.atShard, hph, finishes, Phase.reannounces, Phase.call,
          Phase.found, hheld]
    | false =>
      apply h.hookQuiet (p := .idle)
        <;> simp [marks, next, TrackerShard.step, TrackerShard.leave, TrackerShard.atShard, hph, finishes,
          Phase.reannounces, Phase.call, Phase.found]
  | feeding c i =>
    apply h.hookQuiet (p := .idle)
      <;> simp [marks, next, TrackerShard.step, TrackerShard.leave, TrackerShard.atShard, hph, finishes,
        Phase.reannounces, Phase.call, Phase.found]
  | resetting c i =>
    have hheld := h.held c i (by simp [hph, Phase.found])
    obtain rfl : ok = true := ht (by simp [hph, Phase.restarts])
    obtain ⟨camera, rfl | rfl⟩ := h.hook c (by simp [hph, Phase.call])
    · apply h.hookQuiet (p := .idle)
        <;> simp [marks, next, TrackerShard.step, TrackerShard.leave, TrackerShard.atShard, hph, finishes,
          Phase.reannounces, Phase.call, Phase.found]
    · apply h.ends (k := camera)
        <;> simp [act, marks, next, TrackerShard.step, TrackerShard.leave, TrackerShard.atShard, hph, finishes,
          Phase.reannounces]
      exact hheld

/-- A hook is called: it queues for the table. -/
theorem Good.hookCall (h : s.Good) (hidle : s.shard.phase none = .idle) (dropped : List κ) {c : Call κ}
    (hc : ∃ camera, c = .drop camera ∨ c = .resetIfPresent camera) :
    (act { s with dropped } none (.call c)).1.Good := by
  have hstep : (s.shard.step python (none, .call c)).1 = s.shard.setPhase none (.queueing c) := by
    obtain ⟨camera, rfl | rfl⟩ := hc <;> simp [TrackerShard.step, hidle, python, Plane.offers, Call.builds]
  have hinv : (s.shard.step python (none, .call c)).1.Inv := h.shard.step python (none, .call c)
  rw [hstep] at hinv
  refine h.hooks (p := .queueing c) ?_ ?_ ?_ ?_ rfl (fun _ => le_rfl) (fun _ _ _ _ _ => rfl) (fun _ _ hm => hm) ?_
    (by simp [Phase.found])
  · simpa only [act, hstep] using hinv
  · simp [act, hstep, TrackerShard.setPhase]
  · simp [act, hstep, TrackerShard.setPhase]
  · simp [act, hstep, TrackerShard.setPhase]
  · intro d hd
    simp only [Phase.call, Option.some.injEq] at hd
    exact hd ▸ hc

/-- A worker brings a frame of a stream that has begun. -/
theorem Good.frame (h : s.Good) {t : θ} (hidle : s.shard.phase (some t) = .idle) {camera : κ} {frame : Int}
    {r : Option Int} {origin : Nat} (hle : origin ≤ s.stream camera) :
    (act { s with origin := Function.update s.origin t origin } (some t) (.call (.update camera frame r))).1.Good := by
  have hstep : (s.shard.step python (some t, .call (.update camera frame r))).1 =
      s.shard.setPhase (some t) (.peeking (.update camera frame r)) := by
    simp [TrackerShard.step, hidle, python, Plane.offers, Call.builds]
  have hinv := h.shard.step python (some t, .call (.update camera frame r))
  rw [hstep] at hinv
  simp only [act, hstep]
  exact {
    shard := hinv
    entry := h.entry
    mine := by
      intro t' c i m hf hm
      by_cases ht : t' = t
      · subst ht
        simp [TrackerShard.setPhase, Phase.found] at hf
      · simp only [TrackerShard.setPhase, Function.update_of_ne (show some t' ≠ some t by simpa using ht)] at hf
        simp only [Function.update_of_ne ht]
        exact h.mine t' c i m hf hm
    frames := by
      intro t' c hc
      by_cases ht : t' = t
      · subst ht
        simp only [TrackerShard.setPhase, Function.update_self, Phase.call, Option.some.injEq] at hc
        subst hc
        simp only [Function.update_self]
        exact ⟨⟨camera, frame, r, rfl⟩, hle⟩
      · simp only [TrackerShard.setPhase, Function.update_of_ne (show some t' ≠ some t by simpa using ht)] at hc
        simp only [Function.update_of_ne ht]
        exact h.frames t' c hc
    hook := by
      intro c hc
      simp only [TrackerShard.setPhase, Function.update_of_ne (show (none : Option θ) ≠ some t by simp)] at hc
      exact h.hook c hc
    held := by
      intro c i hf
      simp only [TrackerShard.setPhase, Function.update_of_ne (show (none : Option θ) ≠ some t by simp)] at hf
      exact h.held c i hf
    marked := h.marked }

theorem Good.step (h : s.Good) (regressionReset : Int) {e : Notice κ θ} (ht : s.Timely e) :
    (s.step regressionReset e).1.Good := by
  cases e with
  | removed camera =>
    simp only [Element.step]
    split
    · rename_i hidle
      exact h.hookCall hidle _ ⟨camera, .inl rfl⟩
    · exact h
  | added camera =>
    simp only [Element.step, cameraAdded]
    split
    · rename_i hidle
      split
      · exact h.hookCall hidle _ ⟨camera, .inr rfl⟩
      · exact h
    · exact h
  | frame t camera frame origin =>
    simp only [Element.step]
    split
    · rename_i hframe
      exact h.frame hframe.1 hframe.2.2
    · exact h
  | go who ok =>
    cases who with
    | none => exact h.hookGo ok ht
    | some t => exact h.workerGo t ok ht

/-- A frame of a stream meets no older mark. -/
theorem Good.blameless (h : s.Good) (regressionReset : Int) (e : Notice κ θ) : ¬ s.Blames regressionReset e := by
  rintro ⟨t, ok, c, i, m, -, hlocked, hmark, hlt, -⟩
  have hle := h.mine t c i m (by simp [hlocked, Phase.found]) hmark
  omega

/-- **An announced restart is clean**, in every run whose steps are timely: no frame is
refused, or taken for an unannounced restart, on account of a frame of an older stream. -/
theorem timely_clean (regressionReset : Int) (notices : List (Notice κ θ))
    (ht : Machine.Along (step regressionReset) Timely {} notices) :
    Machine.Along (step regressionReset) (fun s e => ¬ s.Blames regressionReset e) ({} : Element κ θ) notices := by
  have key : ∀ (notices : List (Notice κ θ)) (s : Element κ θ), s.Good →
      Machine.Along (step regressionReset) Timely s notices →
      Machine.Along (step regressionReset) (fun s e => ¬ s.Blames regressionReset e) s notices := by
    intro notices
    induction notices with
    | nil => exact fun _ _ _ => trivial
    | cons e notices ih =>
      intro s hs h
      exact ⟨hs.blameless regressionReset e, ih _ (hs.step regressionReset h.1) h.2⟩
  exact key notices {} good_init ht

/-- The camera comes back, a frame of its old stream feeds a tracker after that. -/
def lateFrame : List (Notice String Bool) :=
  [.removed "quay", .go none true, .go none true, .added "quay", .go none true, .go none true,
    .frame true "quay" 57 0, .go (some true) true, .go (some true) true, .go (some true) true, .go (some true) true,
    .go (some true) true, .go (some true) true,
    .frame false "quay" 0 1, .go (some false) true, .go (some false) true]

theorem late_frame_blames : ¬ Machine.Along (step 64) (fun s e => ¬ s.Blames 64 e) ({} : Element String Bool)
    (lateFrame ++ [.go (some false) true]) := by
  rw [Machine.along_snoc]
  rintro ⟨-, hclean⟩
  refine hclean ⟨false, true, .update "quay" 0 (some 64), 0, 0, rfl, ?_, ?_, ?_, .inl ?_⟩ <;> decide +kernel

/-- The frame of the old stream comes between the two calls. -/
def frameBetween : List (Notice String Bool) :=
  [.removed "quay", .go none true, .go none true,
    .frame true "quay" 57 0, .go (some true) true, .go (some true) true, .go (some true) true, .go (some true) true,
    .go (some true) true, .go (some true) true,
    .added "quay", .go none true, .go none true, .go none true, .go none true, .go none true,
    .frame false "quay" 0 1, .go (some false) true, .go (some false) true, .go (some false) true, .go (some false) true]

theorem frame_between_clean :
    (Machine.exec (step 64) ({} : Element String Bool) frameBetween).2.getLast? = some (some .updated) ∧
    Machine.Along (step 64) (fun s e => ¬ s.Blames 64 e) ({} : Element String Bool) frameBetween :=
  ⟨by decide +kernel, timely_clean 64 frameBetween (by decide +kernel)⟩

end Element

end ShipInfer.Tracking
