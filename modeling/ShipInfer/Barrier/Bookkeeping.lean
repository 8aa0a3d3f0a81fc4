import Mathlib.Algebra.BigOperators.Pi
import Mathlib.Algebra.Order.BigOperators.Group.Finset
import Mathlib.Data.Fintype.Basic
import ShipInfer.Barrier.Safety

/-!
# The barrier's books

Every instant that was opened is open or has ended under one reason, there are
never more open ones than the bound, and they stand in the order of their
deadlines: each is opened one window after the clock of that moment, behind
those opened before. So the scan of `retire` may stop at the front.
-/

namespace ShipInfer.Barrier

variable {Camera Payload Results : Type}

instance : Fintype Reason where
  elems := {.complete, .window, .advanced, .evicted, .expired, .shutdown, .failed, .late, .duplicate, .wouldStarve,
    .backward}
  complete r := by cases r <;> decide

namespace State

def deadlines (s : State Camera Payload Results) : List ℚ := s.buckets.map Bucket.deadline

/-- What the end of an instant leaves alone. -/
def fixed (s : State Camera Payload Results) : ℚ × Nat × Bool × Finset Camera × Finset Camera × Finset Camera :=
  (s.clock, s.maxInstants, s.hooked, s.announced, s.seen, s.liveSet)

@[simp] theorem fixed_discard (reason : Bucket Camera Payload Results → Reason) :
    ∀ (bs : List (Bucket Camera Payload Results)) (s : State Camera Payload Results),
      (s.discard reason bs).fixed = s.fixed
  | [], _ => rfl
  | _ :: bs, _ => fixed_discard reason bs _

/-- What the books say of a barrier. -/
structure Books (cfg : Config) (s : State Camera Payload Results) : Prop where
  ended : s.instantsEnded = s.ended.length
  counted : ∑ r, s.instantCounts r = s.instantsEnded
  room : 1 ≤ s.maxInstants
  fits : s.deadlines.length ≤ s.maxInstants
  configured : ∀ m ∈ cfg.configuredMaxInstants, s.maxInstants = m
  ordered : s.deadlines.Pairwise (· ≤ ·)
  reach : ∀ d ∈ s.deadlines, d ≤ s.clock + cfg.windowS

section
variable {cfg : Config} {s t : State Camera Payload Results}

theorem new_books (cfg : Config) (clock : ℚ) :
    Books cfg { (State.new cfg : State Camera Payload Results) with clock := clock } where
  ended := rfl
  counted := by simp [State.new]
  room := by
    show 1 ≤ cfg.configuredMaxInstants.getD defaultMaxInstants
    cases hm : cfg.configuredMaxInstants with
    | none => simp [defaultMaxInstants]
    | some m => simpa using cfg.max_pos m hm
  fits := Nat.zero_le _
  configured m hm := by
    show cfg.configuredMaxInstants.getD defaultMaxInstants = m
    rw [Option.mem_def.mp hm, Option.getD_some]
  ordered := .nil
  reach d hd := by cases hd

/-- Buckets that only leave, on unchanged books. -/
theorem Books.thin (h : s.Books cfg) (hd : t.deadlines.Sublist s.deadlines) (he : t.ended.length = s.ended.length)
    (hi : t.instantsEnded = s.instantsEnded) (hn : t.instantCounts = s.instantCounts)
    (hm : t.maxInstants = s.maxInstants) (hc : t.clock = s.clock) : t.Books cfg where
  ended := by rw [hi, he]; exact h.ended
  counted := by rw [hn, hi]; exact h.counted
  room := hm ▸ h.room
  fits := hm ▸ hd.length_le.trans h.fits
  configured := hm ▸ h.configured
  ordered := h.ordered.sublist hd
  reach d hmem := hc ▸ h.reach d (hd.subset hmem)

theorem Books.missed (h : s.Books cfg) (r : Reason) (i : Nat) : (s.missed r i).1.Books cfg :=
  h.thin (.refl _) rfl rfl rfl rfl rfl

/-- A write to the bucket objects that leaves their deadlines. -/
theorem Books.mapAll (h : s.Books cfg) {g : Bucket Camera Payload Results → Bucket Camera Payload Results}
    (hg : ∀ b, (g b).deadline = b.deadline) : (s.mapAll g).Books cfg := by
  refine h.thin ?_ (List.length_map _) rfl rfl rfl rfl
  have hd : (s.mapAll g).deadlines = s.deadlines := by
    simp [deadlines, State.mapAll, List.map_map, Function.comp_def, hg]
  rw [hd]

theorem Books.modify (h : s.Books cfg) (i : Nat) {f : Bucket Camera Payload Results → Bucket Camera Payload Results}
    (hf : ∀ b, (f b).deadline = b.deadline) : (s.modify i f).Books cfg :=
  h.mapAll fun b => by
    by_cases hi : b.instant = i
    · simp only [if_pos hi, hf]
    · simp only [if_neg hi]

theorem sum_event (f : Reason → Nat) (r : Reason) : ∑ q, Function.update f r (f r + 1) q = ∑ q, f q + 1 := by
  have hu : Function.update f r (f r + 1) = fun q => f q + if q = r then 1 else 0 := by
    funext q
    by_cases hq : q = r
    · subst hq; simp
    · simp [hq]
  simp [hu, Finset.sum_add_distrib]

/-- An ended instant is counted once, under its reason. -/
theorem Books.endBucket (h : s.Books cfg) (b : Bucket Camera Payload Results) (r : Reason) (res : Option Results) :
    (s.endBucket b r res).Books cfg := by
  have hsub : (s.endBucket b r res).deadlines.Sublist s.deadlines := List.filter_sublist.map _
  refine ⟨?_, ?_, h.room, hsub.length_le.trans h.fits, h.configured, h.ordered.sublist hsub, ?_⟩
  · show s.instantsEnded + 1 = (s.ended ++ [b.resolve r res]).length
    simp [h.ended]
  · show ∑ q, Function.update s.instantCounts r (s.instantCounts r + 1) q = s.instantsEnded + 1
    rw [sum_event, h.counted]
  · exact fun d hd => h.reach d (hsub.subset hd)

theorem Books.discard (reason : Bucket Camera Payload Results → Reason) :
    ∀ (bs : List (Bucket Camera Payload Results)) {s : State Camera Payload Results}, s.Books cfg →
      (s.discard reason bs).Books cfg
  | [], _, h => h
  | b :: bs, _, h => Books.discard reason bs (h.endBucket b (reason b) none)

theorem Books.close (h : s.Books cfg) (b : Bucket Camera Payload Results) (r : Reason)
    (associate : Associate Camera Payload Results) : (s.close b r associate).1.Books cfg := by
  have hrun (run : Association Camera Payload Results) : Books cfg { s with associations := s.associations ++ [run] } :=
    h.thin (.refl _) rfl rfl rfl rfl rfl
  unfold State.close
  cases associate b.entries with
  | none => exact (hrun _).endBucket b .failed none
  | some results => exact (hrun _).endBucket b r (some results)

theorem Books.retire (h : s.Books cfg) (now : ℚ) : (s.retire now).Books cfg := by
  unfold State.retire
  split
  · exact h
  · split
    · exact h
    · exact h.discard _ _

theorem Books.closeAll (h : s.Books cfg) (r : Reason) : (s.closeAll r).Books cfg := by
  have hc : Books cfg { s with closed := true } := h.thin (.refl _) rfl rfl rfl rfl rfl
  exact hc.discard _ _

/-! ## A new instant at the back -/

theorem filter_taken {α β : Type} [DecidableEq β] (f : α → β) : ∀ (n : Nat) (l : List α), (l.map f).Nodup →
    (l.filter fun c => decide (f c ∉ (l.take n).map f)) = l.drop n
  | 0, l, _ => by simp
  | _ + 1, [], _ => rfl
  | n + 1, a :: l, h => by
    rw [List.map_cons, List.nodup_cons] at h
    rw [List.take_succ_cons, List.drop_succ_cons, List.filter_cons_of_neg (by simp), ← filter_taken f n l h.2]
    refine List.filter_congr fun c hc => ?_
    have hne : f c ≠ f a := fun he => h.1 (he ▸ List.mem_map_of_mem hc)
    simp [hne]

/-- Eviction takes buckets from the front. -/
theorem buckets_evict (hs : s.Inv cfg) : s.evict.buckets = s.buckets.drop (s.buckets.length + 1 - s.maxInstants) := by
  rw [evict, buckets_discard]
  exact filter_taken Bucket.instant _ _ hs.buckets_nodup

theorem Books.openInstant (h : s.Books cfg) (hs : s.Inv cfg) (captureS : ℚ) :
    (State.openInstant cfg s captureS s.clock).1.Books cfg := by
  have he : s.evict.Books cfg := h.discard _ _
  have hfixed : s.evict.fixed = s.fixed := fixed_discard _ _ _
  have hclock : s.evict.clock = s.clock := congrArg Prod.fst hfixed
  have hmax : s.evict.maxInstants = s.maxInstants := congrArg (fun p => p.2.1) hfixed
  have hd : (State.openInstant cfg s captureS s.clock).1.deadlines = s.evict.deadlines ++ [s.clock + cfg.windowS] := by
    simp [deadlines, State.openInstant]
  refine ⟨he.ended, he.counted, he.room, ?_, he.configured, ?_, ?_⟩
  · show (State.openInstant cfg s captureS s.clock).1.deadlines.length ≤ s.evict.maxInstants
    rw [hd, hmax, List.length_append, deadlines, buckets_evict hs, List.length_map, List.length_drop, List.length_singleton]
    have hroom := h.room
    omega
  · rw [hd, List.pairwise_append]
    refine ⟨he.ordered, List.pairwise_singleton _ _, fun d hmem d' hmem' => ?_⟩
    rw [List.mem_singleton.mp hmem', ← hclock]
    exact he.reach d hmem
  · intro d hmem
    rw [hd, List.mem_append, List.mem_singleton] at hmem
    show d ≤ s.evict.clock + cfg.windowS
    rcases hmem with hmem | rfl
    · exact he.reach d hmem
    · rw [hclock]

variable [DecidableEq Camera]

/-! ## The operations -/

theorem Books.refreshLive (h : s.Books cfg) : (State.refreshLive cfg s).Books cfg := by
  have hlive : Books cfg { s with liveSet := if s.hooked then s.announced else s.seen } :=
    h.thin (.refl _) rfl rfl rfl rfl rfl
  unfold State.refreshLive
  dsimp only
  by_cases hc : cfg.configuredMaxInstants.isSome = true
  · rw [if_pos hc]; exact hlive
  · rw [if_neg hc]
    have hn : cfg.configuredMaxInstants = none := Option.not_isSome_iff_eq_none.mp hc
    refine ⟨hlive.ended, hlive.counted, ?_, ?_, ?_, hlive.ordered, hlive.reach⟩
    · exact (Nat.succ_pos _).trans_le (le_max_right _ _)
    · -- the bound is recomputed above what is open
      show s.deadlines.length ≤ max _ (s.buckets.length + 1)
      rw [deadlines, List.length_map]
      omega
    · intro m hm
      rw [hn] at hm; cases hm

theorem Books.see (h : s.Books cfg) (cameraId : Camera) : (s.see cfg cameraId).Books cfg := by
  unfold State.see
  by_cases hc : cameraId ∈ s.seen
  · rw [if_pos hc]; exact h
  · rw [if_neg hc]
    have hs : Books cfg { s with seen := insert cameraId s.seen } := h.thin (.refl _) rfl rfl rfl rfl rfl
    exact hs.refreshLive

theorem clock_refreshLive (cfg : Config) (s : State Camera Payload Results) :
    (State.refreshLive cfg s).clock = s.clock := by
  unfold State.refreshLive
  dsimp only
  by_cases hc : cfg.configuredMaxInstants.isSome = true
  · rw [if_pos hc]
  · rw [if_neg hc]

theorem clock_see (cfg : Config) (s : State Camera Payload Results) (cameraId : Camera) :
    (s.see cfg cameraId).clock = s.clock := by
  unfold State.see
  by_cases hc : cameraId ∈ s.seen
  · rw [if_pos hc]
  · rw [if_neg hc, clock_refreshLive]

omit [DecidableEq Camera] in
theorem clock_retire (s : State Camera Payload Results) (now : ℚ) : (s.retire now).clock = s.clock := by
  unfold State.retire
  split
  · rfl
  · split
    · rfl
    · exact congrArg Prod.fst (fixed_discard _ _ _)

theorem Books.checkBackward (h : s.Books cfg) (call : Call Camera Payload Results) :
    (State.checkBackward cfg s call).1.Books cfg ∧ (State.checkBackward cfg s call).1.clock = s.clock := by
  unfold State.checkBackward
  split
  · exact ⟨h, rfl⟩
  · split
    · dsimp only
      split <;> exact ⟨h.thin (.refl _) rfl rfl rfl rfl rfl, rfl⟩
    · exact ⟨h, rfl⟩

theorem Books.place (h : s.Books cfg) (hs : s.Inv cfg) (call : Call Camera Payload Results) :
    match State.place cfg s call s.clock with
    | .error r => r.1.Books cfg
    | .ok r => r.1.Books cfg := by
  unfold State.place
  cases hm : matchOpen cfg s call.captureS with
  | none =>
    cases hl : lateInstant s call.captureS with
    | some late => exact h.missed .late late
    | none => exact h.openInstant hs call.captureS
  | some b =>
    dsimp only
    cases hr : b.reported.get? call.cameraId with
    | none => exact h
    | some reported =>
      dsimp only
      by_cases hc : call.captureS ≤ reported
      · rw [if_pos hc]; exact h.missed .duplicate b.instant
      · rw [if_neg hc]
        have hseal : (s.modify b.instant fun b => b.sealWith .advanced).Books cfg := h.modify _ fun _ => rfl
        exact hseal.openInstant (keeps_seal hs b.instant .advanced).inv call.captureS

theorem Books.joinBucket (h : s.Books cfg) (call : Call Camera Payload Results) (newest : Option ℚ) (i : Nat) :
    (s.joinBucket call newest i).Books cfg := by
  have hrec : (s.record call newest).Books cfg := h.thin (.refl _) rfl rfl rfl rfl rfl
  exact hrec.modify i fun _ => rfl

omit [DecidableEq Camera] in
theorem Books.park (h : s.Books cfg) (call : Call Camera Payload Results) (i : Nat) : (s.park call i).Books cfg := by
  have hw : (s.modify i Bucket.wait).Books cfg := h.modify i fun _ => rfl
  exact hw.thin (.refl _) rfl rfl rfl rfl rfl

omit [DecidableEq Camera] in
theorem Books.unpark (h : s.Books cfg) (w : Waiter Camera Payload Results) : (s.unpark w).Books cfg := by
  have hl : (s.modify w.instant Bucket.leave).Books cfg := h.modify w.instant fun _ => rfl
  exact hl.thin (.refl _) rfl rfl rfl rfl rfl

theorem Books.submit (h : s.Books cfg) (hs : s.Inv cfg) (budget : WaiterBudget) (call : Call Camera Payload Results) :
    (s.submit cfg budget call).1.Books cfg := by
  unfold State.submit
  by_cases hc : s.closed = true
  · rw [if_pos hc]; exact h.missed .shutdown 0
  rw [if_neg hc]
  have hseen : ((s.retire s.clock).see cfg call.cameraId).Books cfg := (h.retire s.clock).see call.cameraId
  have hclock : ((s.retire s.clock).see cfg call.cameraId).clock = s.clock := by rw [clock_see, clock_retire]
  have hk := (keeps_retire hs s.clock).trans (keeps_see (keeps_retire hs s.clock).inv call.cameraId)
  obtain ⟨hb, hbc⟩ := hseen.checkBackward call
  have hinv := (keeps_checkBackward hk.inv call).inv
  rw [hclock] at hbc
  dsimp only
  rcases hcheck : State.checkBackward cfg ((s.retire s.clock).see cfg call.cameraId) call with ⟨u, newest⟩
  rw [hcheck] at hb hbc hinv
  cases newest with
  | none => exact hb.missed .backward 0
  | some newest =>
    dsimp only at hb hbc hinv ⊢
    have hp := hb.place hinv call
    rw [hbc] at hp
    rcases hplace : State.place cfg u call s.clock with r | r
    · rw [hplace] at hp; exact hp
    · rw [hplace] at hp
      have hj : (r.1.joinBucket call newest r.2.instant).Books cfg := Books.joinBucket hp call newest r.2.instant
      dsimp only
      split
      · exact hj.close _ _ _
      · split
        · exact hj.missed .wouldStarve r.2.instant
        · exact hj.park call r.2.instant

omit [DecidableEq Camera] in
theorem Books.wake (h : s.Books cfg) (budget : WaiterBudget) (ticket : Nat) : (s.wake budget ticket).1.Books cfg := by
  unfold State.wake
  split
  · exact h
  split
  · exact h
  split
  · exact h
  rename_i w _ _ b _ _
  have hu := h.unpark w
  dsimp only
  split
  · exact hu
  split
  · exact hu
  split
  · exact hu.close _ _ _
  · exact hu.missed .expired b.instant

theorem Books.dropCamera (h : s.Books cfg) (cameraId : Camera) : (s.dropCamera cfg cameraId).Books cfg := by
  have hd : Books cfg { s with
      announced := s.announced.erase cameraId
      seen := s.seen.erase cameraId
      newestCapture := Function.update s.newestCapture cameraId none
      backwardRun := Function.update s.backwardRun cameraId 0 } := h.thin (.refl _) rfl rfl rfl rfl rfl
  refine hd.refreshLive.thin ?_ rfl rfl rfl rfl rfl
  show (List.map Bucket.deadline (List.map _ _)).Sublist _
  rw [List.map_map, List.map_congr_left]
  · exact .refl _
  · intro b _
    simp only [Function.comp_apply]
    split <;> rfl

/-- One critical section keeps the books. -/
theorem Books.step (h : s.Books cfg) (hs : s.Inv cfg) (budget : WaiterBudget) (i : Input Camera Payload Results) :
    (s.step cfg budget i).1.Books cfg := by
  cases i with
  | submit call => exact h.submit hs budget call
  | wake ticket => exact h.wake budget ticket
  | cameraAdded cameraId =>
    have ha : Books cfg { s with hooked := true, announced := insert cameraId s.announced } :=
      h.thin (.refl _) rfl rfl rfl rfl rfl
    exact ha.refreshLive
  | dropCamera cameraId => exact h.dropCamera cameraId
  | advance elapsed =>
    refine ⟨h.ended, h.counted, h.room, h.fits, h.configured, h.ordered, fun d hd => (h.reach d hd).trans ?_⟩
    have he : (0 : ℚ) ≤ elapsed := elapsed.coe_nonneg
    show s.clock + cfg.windowS ≤ s.clock + elapsed + cfg.windowS
    linarith
  | closeAll reason => exact h.closeAll reason

omit [DecidableEq Camera] in
/-- The scan that stops at the front has skipped nothing: who is left without a
waiter has time left. -/
theorem Books.retire_skips_none (h : s.Books cfg) (now : ℚ) {b : Bucket Camera Payload Results}
    (hb : b ∈ (s.retire now).buckets) (hw : b.waiters = 0) : now < b.deadline := by
  unfold State.retire at hb
  cases hs : s.buckets with
  | nil => simp [hs] at hb
  | cons front bs =>
    rw [hs] at hb
    dsimp only at hb
    by_cases hf : now < front.deadline
    · rw [if_pos hf, hs] at hb
      have hord := h.ordered
      rw [deadlines, hs, List.map_cons, List.pairwise_cons] at hord
      rcases List.mem_cons.mp hb with rfl | hb
      · exact hf
      · exact hf.trans_le (hord.1 _ (List.mem_map_of_mem hb))
    · rw [if_neg hf, buckets_discard, List.mem_filter, decide_eq_true_eq, ← hs] at hb
      by_contra hd
      exact hb.2 (List.mem_map_of_mem (List.mem_filter.mpr ⟨hb.1, by simp [hw, not_lt.mp hd]⟩))

end

end State

/-! ## Every run of barriers on one budget -/

section
variable {ι : Type} [DecidableEq ι] [DecidableEq Camera] {cfg : ι → Config} {permits : Int}

theorem System.reachable_books {y : System ι Camera Payload Results} (h : (system cfg permits).Reachable y) (i : ι) :
    (y.barriers i).Books (cfg i) := by
  refine (h.induction (I := fun y => ∀ i, (y.barriers i).Books (cfg i)) (fun y hy i => ?_) ?_) i
  · obtain ⟨clock, hc⟩ := hy.2 i
    rw [hc]
    exact State.new_books (cfg i) clock
  · intro y l z hy hb hs j
    obtain ⟨⟨i, input⟩, reply⟩ := l
    obtain ⟨hi, hne, -, -⟩ := system_step hs
    by_cases hj : j = i
    · rw [hj, hi]
      exact (hb i).step (System.reachable_inv hy i).1 y.budget input
    · rw [hne j hj]; exact hb j

/-- **The books of every reachable barrier.** Opened is ended and open; the counts
by reason add up to those ended; the configured bound holds, and the one in force;
the front instant has the earliest deadline, and `retire` leaves no instant behind
that is out of time with nobody waiting on it. -/
theorem bookkeeping {y : System ι Camera Payload Results} (hy : (system cfg permits).Reachable y) (i : ι) :
    (y.barriers i).nextInstant = (y.barriers i).instantsEnded + (y.barriers i).buckets.length ∧
      ∑ r, (y.barriers i).instantCounts r = (y.barriers i).instantsEnded ∧
      (∀ m ∈ (cfg i).configuredMaxInstants, (y.barriers i).buckets.length ≤ m) ∧
      (y.barriers i).buckets.length ≤ (y.barriers i).maxInstants ∧
      (∀ front ∈ (y.barriers i).buckets.head?, ∀ b ∈ (y.barriers i).buckets, front.deadline ≤ b.deadline) ∧
      ∀ now, ∀ b ∈ ((y.barriers i).retire now).buckets, b.waiters = 0 → now < b.deadline := by
  have hinv := (System.reachable_inv hy i).1
  have hb := System.reachable_books hy i
  have hlen : (y.barriers i).deadlines.length = (y.barriers i).buckets.length := List.length_map _
  have hfits := hb.fits
  rw [hlen] at hfits
  refine ⟨?_, hb.counted, ?_, hfits, ?_, fun now b hmem => hb.retire_skips_none now hmem⟩
  · have hids := hinv.ids.length_eq
    rw [List.length_map, State.all, List.length_append, List.length_range'] at hids
    rw [hb.ended]
    omega
  · intro m hm
    rw [← hb.configured m hm]
    exact hfits
  · intro front hfront b hmem
    have hord := hb.ordered
    cases hbs : (y.barriers i).buckets with
    | nil => rw [hbs] at hmem; cases hmem
    | cons c bs =>
      rw [hbs, List.head?_cons] at hfront
      cases hfront
      rw [State.deadlines, hbs, List.map_cons, List.pairwise_cons] at hord
      rw [hbs] at hmem
      rcases List.mem_cons.mp hmem with rfl | hmem
      · exact le_rfl
      · exact hord.1 _ (List.mem_map_of_mem hmem)

/-- After the pair has met, one instant was opened, and it has ended complete. -/
theorem pair_bookkeeping :
    let y := (Machine.exec (System.run fun _ => pairConfig) pairStart pairScript).1
    (y.barriers true).nextInstant = (y.barriers true).instantsEnded + (y.barriers true).buckets.length ∧
      ∑ r, (y.barriers true).instantCounts r = (y.barriers true).instantsEnded ∧
      (∀ m ∈ pairConfig.configuredMaxInstants, (y.barriers true).buckets.length ≤ m) ∧
      (y.barriers true).buckets.length ≤ (y.barriers true).maxInstants ∧
      (∀ front ∈ (y.barriers true).buckets.head?, ∀ b ∈ (y.barriers true).buckets, front.deadline ≤ b.deadline) ∧
      ∀ now, ∀ b ∈ ((y.barriers true).retire now).buckets, b.waiters = 0 → now < b.deadline :=
  bookkeeping (Machine.reachable_exec _ (.init pairStart_init)) true

end

end ShipInfer.Barrier
