import ShipInfer.Barrier.Bookkeeping
import ShipInfer.Barrier.Agreement

/-!
# Complete instants and the callers parked on them

An instant that every live camera has reported to is closed by the frame that
completes it, or sealed by the camera's drop that completes it. The one change of
the live set that nobody follows up is the first announcement: the live set was
what has been seen, and becomes the announced camera alone.
-/

namespace ShipInfer.Barrier

open Std (TreeMap)

variable {Camera Payload Results : Type}

/-- Somebody is parked on the instant, and nobody has sealed it. -/
def Bucket.Waits (b : Bucket Camera Payload Results) : Prop := b.waiters ≠ 0 ∧ b.ready = false

/-- Every live camera has an entry in the instant. -/
def Bucket.Full (b : Bucket Camera Payload Results) (live : Finset Camera) : Prop :=
  ∀ c ∈ live, ∃ e ∈ b.entries, e.cameraId = c

instance [DecidableEq Camera] (b : Bucket Camera Payload Results) (live : Finset Camera) : Decidable (b.Full live) :=
  inferInstanceAs (Decidable (∀ c ∈ live, ∃ e ∈ b.entries, e.cameraId = c))

instance (b : Bucket Camera Payload Results) : Decidable b.Waits := inferInstanceAs (Decidable (_ ∧ _))

/-- What the open instants are measured against. -/
def Ledger.roster (l : Ledger Camera Payload Results) : Bool × Finset Camera × Finset Camera × Finset Camera :=
  (l.hooked, l.announced, l.seen, l.liveSet)

/-- No complete instant is left waiting. -/
def NoneWaits (l : Ledger Camera Payload Results) (bs : List (Bucket Camera Payload Results)) : Prop :=
  ∀ b ∈ bs, b.Waits → ¬ b.Full l.liveSet

/-- What holds of the open instants and the cameras between two operations; of
completeness it speaks for the `watched` instants. -/
structure Attended (watched : Nat → Prop) (l : Ledger Camera Payload Results)
    (bs : List (Bucket Camera Payload Results)) : Prop where
  live : l.liveSet = if l.hooked then l.announced else l.seen
  fallback : l.hooked = false → l.announced = ∅
  isOpen : ∀ b ∈ bs, b.done = false
  entered : ∀ b ∈ bs, ∀ c, c ∈ b.reported.keys ↔ ∃ e ∈ b.entries, e.cameraId = c
  waiting : ∀ b ∈ bs, watched b.instant → b.Waits → ¬ b.Full l.liveSet

/-- What the writes between two frames of an instant make of it: no caller more,
and a seal stays. -/
structure Bucket.Calmer (a b : Bucket Camera Payload Results) : Prop where
  instant : b.instant = a.instant
  entries : b.entries = a.entries
  reported : b.reported = a.reported
  done : b.done = a.done
  waiters : b.waiters ≠ 0 → a.waiters ≠ 0
  ready : a.ready = true → b.ready = true

theorem Bucket.Calmer.refl (b : Bucket Camera Payload Results) : b.Calmer b := ⟨rfl, rfl, rfl, rfl, id, id⟩

theorem Bucket.Calmer.waits {a b : Bucket Camera Payload Results} (h : a.Calmer b) (hb : b.Waits) : a.Waits := by
  refine ⟨h.waiters hb.1, ?_⟩
  cases ha : a.ready with
  | false => rfl
  | true =>
    have hr := h.ready ha
    rw [hb.2] at hr; cases hr

theorem Bucket.calmer_seal (b : Bucket Camera Payload Results) (r : Reason) : b.Calmer (b.sealWith r) :=
  ⟨rfl, rfl, rfl, rfl, id, fun _ => rfl⟩

theorem Bucket.calmer_leave (b : Bucket Camera Payload Results) : b.Calmer b.leave :=
  ⟨rfl, rfl, rfl, rfl, fun h hb => h (by simp [Bucket.leave, hb]), id⟩

theorem Bucket.calmer_ite (p : Prop) [Decidable p] {b c : Bucket Camera Payload Results} (h : b.Calmer c) :
    b.Calmer (if p then c else b) := by
  by_cases hp : p
  · rw [if_pos hp]; exact h
  · rw [if_neg hp]; exact .refl b

section
variable {watched : Nat → Prop} {l l' : Ledger Camera Payload Results}
  {bs bs' : List (Bucket Camera Payload Results)}

theorem Attended.mono {watched' : Nat → Prop} (h : Attended watched l bs) (hw : ∀ k, watched' k → watched k) :
    Attended watched' l bs :=
  { h with waiting := fun b hb hwb => h.waiting b hb (hw _ hwb) }

theorem Attended.none (h : Attended (fun _ => True) l bs) : NoneWaits l bs := fun b hb => h.waiting b hb trivial

theorem Attended.all (h : Attended watched l bs) (hn : NoneWaits l bs) : Attended (fun _ => True) l bs :=
  { h with waiting := fun b hb _ => hn b hb }

/-- Every bucket there is was one there, or is new and empty. -/
theorem Attended.calm (h : Attended watched l bs) (hr : l'.roster = l.roster)
    (hbs : ∀ b ∈ bs', ∃ a ∈ bs, a.Calmer b) : Attended watched l' bs' := by
  obtain ⟨hh, ha, hs, hl⟩ : l'.hooked = l.hooked ∧ l'.announced = l.announced ∧ l'.seen = l.seen ∧
      l'.liveSet = l.liveSet := by simpa [Ledger.roster] using hr
  refine ⟨by rw [hl, hh, ha, hs]; exact h.live, by rw [hh, ha]; exact h.fallback, ?_, ?_, ?_⟩
  · intro b hb
    obtain ⟨a, hmem, hab⟩ := hbs b hb
    rw [hab.done]; exact h.isOpen a hmem
  · intro b hb
    obtain ⟨a, hmem, hab⟩ := hbs b hb
    rw [hab.reported, hab.entries]; exact h.entered a hmem
  · intro b hb hw hwait
    obtain ⟨a, hmem, hab⟩ := hbs b hb
    rw [hl, Bucket.Full, hab.entries]
    exact h.waiting a hmem (hab.instant ▸ hw) (hab.waits hwait)

theorem Attended.sub (h : Attended watched l bs) (hr : l'.roster = l.roster) (hbs : ∀ b ∈ bs', b ∈ bs) :
    Attended watched l' bs' :=
  h.calm hr fun b hb => ⟨b, hbs b hb, .refl b⟩

/-- A new instant has no caller. -/
theorem Attended.push (h : Attended watched l bs) (hr : l'.roster = l.roster) {n : Bucket Camera Payload Results}
    (hn : n.waiters = 0 ∧ n.done = false ∧ n.entries = [] ∧ n.reported = .empty)
    (hbs : ∀ b ∈ bs', b ∈ bs ∨ b = n) : Attended watched l' bs' := by
  have hold : Attended watched l' bs := h.sub hr fun _ hb => hb
  obtain ⟨hw, hd, he, hrep⟩ := hn
  refine ⟨hold.live, hold.fallback, ?_, ?_, ?_⟩ <;> intro b hb <;> rcases hbs b hb with hb | rfl
  · exact hold.isOpen b hb
  · exact hd
  · exact hold.entered b hb
  · intro c
    rw [hrep, he]
    simp [Dict.keys, Dict.empty]
  · exact hold.waiting b hb
  · exact fun _ hwait => absurd hw hwait.1

/-- The live set is another: of completeness nothing is said. -/
theorem Attended.recompute (h : Attended watched l bs)
    (hl : l'.liveSet = if l'.hooked then l'.announced else l'.seen) (hf : l'.hooked = false → l'.announced = ∅) :
    Attended (fun _ => False) l' bs := ⟨hl, hf, h.isOpen, h.entered, fun _ _ hw => hw.elim⟩

/-- A live set that only grows completes nothing. -/
theorem Attended.widen (h : Attended watched l bs) (h' : Attended (fun _ => False) l' bs)
    (hsub : l.liveSet ⊆ l'.liveSet) : Attended watched l' bs :=
  { h' with waiting := fun b hb hw hwait hfull => h.waiting b hb hw hwait fun c hc => hfull c (hsub hc) }

/-- What was said of all instants but one, and of that one too. -/
theorem Attended.complete {i : Nat} (h : Attended (fun k => watched k ∧ k ≠ i) l bs)
    (hi : ∀ b ∈ bs, b.instant = i → ¬ b.Full l.liveSet) : Attended watched l bs := by
  refine ⟨h.live, h.fallback, h.isOpen, h.entered, fun b hb hw hwait => ?_⟩
  by_cases hbi : b.instant = i
  · exact hi b hb hbi
  · exact h.waiting b hb ⟨hw, hbi⟩ hwait

variable [DecidableEq Camera]

theorem Attended.full_iff (h : Attended watched l bs) {b : Bucket Camera Payload Results} (hb : b ∈ bs)
    (live : Finset Camera) : b.everyLiveReported live = true ↔ b.Full live := by
  simp only [Bucket.everyLiveReported, decide_eq_true_eq, Bucket.Full, h.entered b hb]

/-- A frame joins an instant: all others are as they were. -/
theorem Attended.join (h : Attended watched l bs) (hr : l'.roster = l.roster) {b : Bucket Camera Payload Results}
    (hb : b ∈ bs) (call : Call Camera Payload Results)
    (hbs : ∀ c ∈ bs', (c ∈ bs ∧ c.instant ≠ b.instant) ∨ c = b.join call) :
    Attended (fun k => watched k ∧ k ≠ b.instant) l' bs' := by
  have hold : Attended watched l' bs := h.sub hr fun _ hb => hb
  refine ⟨hold.live, hold.fallback, ?_, ?_, ?_⟩ <;> intro c hc <;> rcases hbs c hc with ⟨hc, hne⟩ | rfl
  · exact hold.isOpen c hc
  · exact hold.isOpen b hb
  · exact hold.entered c hc
  · intro a
    have hent := hold.entered b hb a
    simp only [Bucket.join, Dict.mem_keys_set, hent, List.mem_append, List.mem_singleton]
    constructor
    · rintro (rfl | ⟨e, he, hea⟩)
      · exact ⟨call.entry, .inr rfl, rfl⟩
      · exact ⟨e, .inl he, hea⟩
    · rintro ⟨e, he | rfl, hea⟩
      · exact .inr ⟨e, he, hea⟩
      · exact .inl hea.symm
  · exact fun hw => hold.waiting c hc hw.1
  · exact fun hw => absurd rfl hw.2

end

/-! ## The Python barrier -/

namespace State

section
variable {cfg : Config} {watched : Nat → Prop} {s : State Camera Payload Results}

def Attends (watched : Nat → Prop) (s : State Camera Payload Results) : Prop := Attended watched s.toLedger s.buckets

theorem roster_discard (reason : Bucket Camera Payload Results → Reason) (bs : List (Bucket Camera Payload Results))
    (s : State Camera Payload Results) : (s.discard reason bs).roster = s.roster :=
  congrArg (fun p => p.2.2) (fixed_discard reason bs s)

theorem Attends.missed (h : s.Attends watched) (r : Reason) (i : Nat) : (s.missed r i).1.Attends watched :=
  Attended.sub h rfl fun _ hb => hb

theorem Attends.discard (h : s.Attends watched) (reason : Bucket Camera Payload Results → Reason)
    (bs : List (Bucket Camera Payload Results)) : (s.discard reason bs).Attends watched := by
  refine Attended.sub h (roster_discard reason bs s) fun b hb => ?_
  rw [buckets_discard] at hb
  exact List.mem_of_mem_filter hb

theorem Attends.retire (h : s.Attends watched) (now : ℚ) : (s.retire now).Attends watched := by
  unfold State.retire
  split
  · exact h
  · split
    · exact h
    · exact h.discard _ _

/-- Closing an instant settles what was not said of it. -/
theorem Attends.close {b : Bucket Camera Payload Results} (h : s.Attends fun k => watched k ∧ k ≠ b.instant) (r : Reason)
    (associate : Associate Camera Payload Results) : (s.close b r associate).1.Attends watched := by
  have hend (run : Association Camera Payload Results) (r : Reason) (res : Option Results) :
      (State.endBucket { s with associations := s.associations ++ [run] } b r res).Attends watched := by
    have hsub : (State.endBucket { s with associations := s.associations ++ [run] } b r res).Attends
        fun k => watched k ∧ k ≠ b.instant := Attended.sub h rfl fun c hc => List.mem_of_mem_filter hc
    refine hsub.complete fun c hc hi => ?_
    have hne := (List.mem_filter.mp hc).2
    simp [hi] at hne
  unfold State.close
  cases associate b.entries with
  | none => exact hend _ _ _
  | some results => exact hend _ _ _

theorem Attends.modify (h : s.Attends watched) (i : Nat) {f : Bucket Camera Payload Results → Bucket Camera Payload Results}
    (hf : ∀ b : Bucket Camera Payload Results, b.Calmer (f b)) : (s.modify i f).Attends watched := by
  refine Attended.calm h rfl fun c hc => ?_
  obtain ⟨b, hb, rfl⟩ := List.mem_map.mp hc
  exact ⟨b, hb, Bucket.calmer_ite _ (hf b)⟩

theorem Attends.openInstant (h : s.Attends watched) (captureS now : ℚ) :
    (State.openInstant cfg s captureS now).1.Attends watched := by
  have he : s.evict.Attends watched := h.discard _ _
  refine Attended.push he rfl (n := (State.openInstant cfg s captureS now).2) ⟨rfl, rfl, rfl, rfl⟩ fun b hb => ?_
  exact (List.mem_append.mp hb).imp_right List.mem_singleton.mp

/-- A caller parks on an instant that is not complete. -/
theorem Attends.park {i : Nat} (h : s.Attends fun k => watched k ∧ k ≠ i)
    (hi : ∀ b ∈ s.buckets, b.instant = i → ¬ b.Full s.liveSet) (call : Call Camera Payload Results) :
    (s.park call i).Attends watched := by
  have hother : (s.park call i).Attends fun k => watched k ∧ k ≠ i := by
    refine ⟨h.live, h.fallback, ?_, ?_, ?_⟩ <;> intro c hc <;> obtain ⟨b, hb, rfl⟩ := List.mem_map.mp hc
    · split <;> exact h.isOpen b hb
    · split <;> exact h.entered b hb
    · by_cases hbi : b.instant = i
      · rw [if_pos hbi]; exact fun hw => absurd hbi hw.2
      · rw [if_neg hbi]; exact h.waiting b hb
  refine hother.complete fun c hc hci => ?_
  obtain ⟨b, hb, rfl⟩ := List.mem_map.mp hc
  by_cases hbi : b.instant = i
  · rw [if_pos hbi] at hci ⊢; exact hi b hb hbi
  · rw [if_neg hbi] at hci ⊢; exact absurd hci hbi

theorem Attends.wake (h : s.Attends watched) (budget : WaiterBudget) (ticket : Nat) :
    (s.wake budget ticket).1.Attends watched := by
  unfold State.wake
  split
  · exact h
  split
  · exact h
  split
  · exact h
  rename_i w _ _ b _ _
  have hu : (s.unpark w).Attends watched := Attended.sub (h.modify w.instant Bucket.calmer_leave) rfl fun _ hb => hb
  dsimp only
  split
  · exact hu
  split
  · exact hu
  split
  · exact Attends.close (Attended.mono hu fun _ hk => hk.1) _ _
  · exact hu.missed .expired b.instant

variable [DecidableEq Camera]

theorem roster_refreshLive (cfg : Config) (s : State Camera Payload Results) :
    (refreshLive cfg s).roster = (s.hooked, s.announced, s.seen, if s.hooked then s.announced else s.seen) := by
  unfold refreshLive
  dsimp only
  by_cases hc : cfg.configuredMaxInstants.isSome = true
  · rw [if_pos hc]; rfl
  · rw [if_neg hc]; rfl

theorem Attends.refreshLive {l : Ledger Camera Payload Results} (h : Attended watched l s.buckets)
    (hf : s.hooked = false → s.announced = ∅) : (State.refreshLive cfg s).Attends fun _ => False := by
  have hr := roster_refreshLive cfg s
  simp only [Ledger.roster, Prod.mk.injEq] at hr
  obtain ⟨hh, ha, hs, hl⟩ := hr
  rw [Attends, buckets_refreshLive]
  exact h.recompute (by rw [hl, hh, ha, hs]) (by rw [hh, ha]; exact hf)

theorem liveSet_refreshLive (cfg : Config) (s : State Camera Payload Results) :
    (State.refreshLive cfg s).liveSet = if s.hooked then s.announced else s.seen :=
  congrArg (fun p => p.2.2.2) (roster_refreshLive cfg s)

theorem Attends.see (h : s.Attends watched) (cfg : Config) (cameraId : Camera) : (s.see cfg cameraId).Attends watched := by
  unfold State.see
  by_cases hc : cameraId ∈ s.seen
  · rw [if_pos hc]; exact h
  · rw [if_neg hc]
    have hn : (State.refreshLive cfg { s with seen := insert cameraId s.seen }).Attends fun _ => False :=
      Attends.refreshLive h h.fallback
    have hb : (State.refreshLive cfg { s with seen := insert cameraId s.seen }).buckets = s.buckets :=
      buckets_refreshLive _
    rw [Attends, hb] at hn ⊢
    refine Attended.widen h hn ?_
    rw [liveSet_refreshLive, h.live]
    by_cases hh : s.hooked = true
    · rw [if_pos hh, if_pos hh]
    · rw [if_neg hh, if_neg hh]; exact Finset.subset_insert _ _

theorem Attends.checkBackward (h : s.Attends watched) (cfg : Config) (call : Call Camera Payload Results) :
    (State.checkBackward cfg s call).1.Attends watched := by
  unfold State.checkBackward
  split
  · exact h
  · split
    · dsimp only
      split <;> exact Attended.sub h rfl fun _ hb => hb
    · exact h

theorem Attends.place (h : s.Attends watched) (cfg : Config) (call : Call Camera Payload Results) (now : ℚ) :
    match State.place cfg s call now with
    | .error r => r.1.Attends watched
    | .ok r => r.1.Attends watched := by
  unfold State.place
  cases hm : matchOpen cfg s call.captureS with
  | none =>
    cases hl : lateInstant s call.captureS with
    | some late => exact h.missed .late late
    | none => exact h.openInstant call.captureS now
  | some b =>
    dsimp only
    cases hr : b.reported.get? call.cameraId with
    | none => exact h
    | some reported =>
      dsimp only
      by_cases hc : call.captureS ≤ reported
      · rw [if_pos hc]; exact h.missed .duplicate b.instant
      · rw [if_neg hc]
        exact (h.modify b.instant fun b => b.calmer_seal .advanced).openInstant call.captureS now

/-- The instant the frame joined is spoken for by what follows. -/
theorem Attends.joinBucket (h : s.Attends watched) (hs : s.Inv cfg) {b : Bucket Camera Payload Results}
    (hb : b ∈ s.buckets) (call : Call Camera Payload Results) (newest : Option ℚ) :
    (s.joinBucket call newest b.instant).Attends (fun k => watched k ∧ k ≠ b.instant) ∧
      ∀ c ∈ (s.joinBucket call newest b.instant).buckets, c.instant = b.instant → c = b.join call := by
  have hmem : ∀ c ∈ (s.joinBucket call newest b.instant).buckets,
      (c ∈ s.buckets ∧ c.instant ≠ b.instant) ∨ c = b.join call := by
    intro c hc
    obtain ⟨a, ha, rfl⟩ := List.mem_map.mp hc
    have ha : a ∈ s.buckets := ha
    by_cases hai : a.instant = b.instant
    · right
      rw [if_pos hai, hs.unique (mem_all.mpr (.inl ha)) (mem_all.mpr (.inl hb)) hai]
    · left
      rw [if_neg hai]
      exact ⟨ha, hai⟩
  have hj : (s.joinBucket call newest b.instant).Attends fun k => watched k ∧ k ≠ b.instant := by
    refine Attended.join h ?_ hb call hmem
    rfl
  exact ⟨hj, fun c hc hci => (hmem c hc).resolve_left fun hne => hne.2 hci⟩

theorem Attends.submit (h : s.Attends watched) (hs : s.Inv cfg) (budget : WaiterBudget)
    (call : Call Camera Payload Results) : (s.submit cfg budget call).1.Attends watched := by
  unfold State.submit
  by_cases hc : s.closed = true
  · rw [if_pos hc]; exact h.missed .shutdown 0
  rw [if_neg hc]
  have hk := (keeps_retire hs s.clock).trans (keeps_see (keeps_retire hs s.clock).inv call.cameraId)
  have hinv := (keeps_checkBackward hk.inv call).inv
  have hback := ((h.retire s.clock).see cfg call.cameraId).checkBackward cfg call
  dsimp only
  rcases hcheck : State.checkBackward cfg ((s.retire s.clock).see cfg call.cameraId) call with ⟨u, newest⟩
  rw [hcheck] at hinv hback
  cases newest with
  | none => exact hback.missed .backward 0
  | some newest =>
    dsimp only at hinv hback ⊢
    have hp := hback.place cfg call s.clock
    have hspec := place_spec hinv call s.clock
    rcases hplace : State.place cfg u call s.clock with r | r
    · rw [hplace] at hp; exact hp
    · rw [hplace] at hp hspec
      obtain ⟨v, b⟩ := r
      obtain ⟨hv, hb, -⟩ := hspec
      obtain ⟨hj, hjoined⟩ := Attends.joinBucket hp hv.inv hb call newest
      dsimp only
      by_cases hfull : (b.join call).everyLiveReported (v.joinBucket call newest b.instant).liveSet = true
      · rw [if_pos hfull]
        exact Attends.close (b := b.join call) hj .complete call.associate
      · rw [if_neg hfull]
        have hi : ∀ c ∈ (v.joinBucket call newest b.instant).buckets, c.instant = b.instant →
            ¬ c.Full (v.joinBucket call newest b.instant).liveSet := by
          intro c hc hci
          rw [← hj.full_iff hc, hjoined c hc hci]
          exact hfull
        split
        · exact Attends.missed (Attended.complete hj hi) .wouldStarve b.instant
        · exact Attends.park hj hi call

theorem Attends.dropCamera (h : s.Attends watched) (cameraId : Camera) :
    (s.dropCamera cfg cameraId).Attends fun _ => True := by
  have hf : s.hooked = false → s.announced.erase cameraId = ∅ := fun hh => by rw [h.fallback hh, Finset.erase_empty]
  unfold State.dropCamera
  generalize hu : State.refreshLive cfg { s with
      announced := s.announced.erase cameraId
      seen := s.seen.erase cameraId
      newestCapture := Function.update s.newestCapture cameraId none
      backwardRun := Function.update s.backwardRun cameraId 0 } = u
  have hold : u.Attends fun _ => False := hu ▸ Attends.refreshLive h hf
  dsimp only
  refine Attended.all (Attended.calm hold rfl fun c hc => ?_) fun c hc hwait => ?_
  · obtain ⟨b, hb, rfl⟩ := List.mem_map.mp hc
    exact ⟨b, hb, Bucket.calmer_ite _ (b.calmer_seal .complete)⟩
  · -- what the drop completed is sealed now
    obtain ⟨b, hb, rfl⟩ := List.mem_map.mp hc
    by_cases hs : b.waiters ≠ 0 ∧ b.ready = false ∧ b.everyLiveReported u.liveSet = true
    · rw [if_pos hs] at hwait
      exact absurd hwait.2 (by simp [Bucket.sealWith])
    · rw [if_neg hs] at hwait ⊢
      rw [← Attended.full_iff hold hb]
      exact fun hfull => hs ⟨hwait.1, hwait.2, hfull⟩

/-- The first announcement leaves no complete instant waiting just when no
instant that waits has a frame of the camera. -/
theorem Attends.cameraAdded (h : s.Attends watched) (cameraId : Camera) :
    (s.cameraAdded cfg cameraId).Attends (fun k => watched k ∧ s.hooked = true) ∧
      (s.hooked = false → (NoneWaits (s.cameraAdded cfg cameraId).toLedger (s.cameraAdded cfg cameraId).buckets ↔
        ∀ b ∈ s.buckets, b.Waits → ∀ e ∈ b.entries, e.cameraId ≠ cameraId)) := by
  have hn : (s.cameraAdded cfg cameraId).Attends fun _ => False := Attends.refreshLive h fun hh => by cases hh
  have hb : (s.cameraAdded cfg cameraId).buckets = s.buckets := buckets_refreshLive _
  have hl : (s.cameraAdded cfg cameraId).liveSet = insert cameraId s.announced := by
    rw [State.cameraAdded, liveSet_refreshLive, if_pos rfl]
  refine ⟨?_, fun hh => ?_⟩
  · by_cases hh : s.hooked = true
    · rw [Attends, hb] at hn ⊢
      refine Attended.mono (Attended.widen h hn ?_) fun k hk => hk.1
      rw [hl, h.live, if_pos hh]
      exact Finset.subset_insert _ _
    · exact Attended.mono hn fun k hk => absurd hk.2 hh
  · rw [NoneWaits, hb, hl, h.fallback hh]
    simp only [Bucket.Full, insert_empty_eq, Finset.mem_singleton, forall_eq, not_exists, not_and]

theorem Attends.step (h : s.Attends watched) (hs : s.Inv cfg) (budget : WaiterBudget)
    (i : Input Camera Payload Results) :
    (s.step cfg budget i).1.Attends fun k => watched k ∧ ∀ c, i = .cameraAdded c → s.hooked = true := by
  have hother {t : State Camera Payload Results} (ht : t.Attends watched) :
      t.Attends fun k => watched k ∧ ∀ c, i = .cameraAdded c → s.hooked = true := Attended.mono ht fun _ hk => hk.1
  cases i with
  | submit call => exact hother (h.submit hs budget call)
  | wake ticket => exact hother (h.wake budget ticket)
  | cameraAdded cameraId => exact Attended.mono (h.cameraAdded cameraId).1 fun k hk => ⟨hk.1, hk.2 cameraId rfl⟩
  | dropCamera cameraId => exact hother (Attended.mono (h.dropCamera cameraId) fun _ _ => trivial)
  | advance elapsed => exact hother (Attended.sub h rfl fun _ hb => hb)
  | closeAll reason =>
    have hc : ({ s with closed := true } : State Camera Payload Results).Attends watched :=
      Attended.sub h rfl fun _ hb => hb
    exact hother (hc.discard _ _)

end

end State

/-- What a first announcement must not find: an instant that waits and already has
a frame of the camera. Every other operation follows up on what it completes. -/
def followed [DecidableEq Camera] (l : Ledger Camera Payload Results) (bs : List (Bucket Camera Payload Results)) :
    Input Camera Payload Results → Prop
  | .cameraAdded cameraId => l.hooked = false → ∀ b ∈ bs, b.Waits → ∀ e ∈ b.entries, e.cameraId ≠ cameraId
  | _ => True

section
variable [DecidableEq Camera] {cfg : Config} {s : State Camera Payload Results}

omit [DecidableEq Camera] in
/-- What a step keeps but for the first announcement, and the first announcement
under its own condition. -/
theorem followed_iff [DecidableEq Camera] {l l' : Ledger Camera Payload Results}
    {bs bs' : List (Bucket Camera Payload Results)} {i : Input Camera Payload Results}
    (hkeep : (∀ c, i = .cameraAdded c → l.hooked = true) → Attended (fun _ => True) l' bs')
    (hfirst : ∀ c, i = .cameraAdded c → l.hooked = false →
      (NoneWaits l' bs' ↔ ∀ b ∈ bs, b.Waits → ∀ e ∈ b.entries, e.cameraId ≠ c)) :
    NoneWaits l' bs' ↔ followed l bs i := by
  cases i with
  | cameraAdded c =>
    by_cases hh : l.hooked = false
    · simp only [followed, hh, true_implies]
      exact hfirst c rfl hh
    · exact iff_of_true (hkeep fun _ _ => by simpa using hh).none fun h => absurd h hh
  | submit call => exact iff_of_true (hkeep fun _ h => by cases h).none trivial
  | wake ticket => exact iff_of_true (hkeep fun _ h => by cases h).none trivial
  | dropCamera c => exact iff_of_true (hkeep fun _ h => by cases h).none trivial
  | advance elapsed => exact iff_of_true (hkeep fun _ h => by cases h).none trivial
  | closeAll reason => exact iff_of_true (hkeep fun _ h => by cases h).none trivial

/-- One critical section leaves no complete instant waiting just when it is `followed`. -/
theorem State.noneWaits_step (hs : s.Inv cfg) (h : s.Attends fun _ => False) (hn : NoneWaits s.toLedger s.buckets)
    (budget : WaiterBudget) (i : Input Camera Payload Results) :
    NoneWaits (s.step cfg budget i).1.toLedger (s.step cfg budget i).1.buckets ↔ followed s.toLedger s.buckets i := by
  have hall : s.Attends fun _ => True := Attended.all h hn
  exact followed_iff (fun hno => Attended.mono (hall.step hs budget i) fun _ _ => ⟨trivial, hno⟩)
    fun c hi hh => by subst hi; exact (State.Attends.cameraAdded h c).2 hh

end

/-! ## The C++ barrier -/

namespace Twin

section
variable {cfg : Config} {watched : Nat → Prop} {t u : Twin Camera Payload Results}

/-- The open instants, in the order of their ids. -/
def held (t : Twin Camera Payload Results) : List (Bucket Camera Payload Results) := t.buckets.toList.map Prod.snd

structure Attends (watched : Nat → Prop) (t : Twin Camera Payload Results) : Prop where
  keyed : ∀ p ∈ t.buckets.toList, p.2.instant = p.1
  attended : Attended watched t.toLedger t.held

theorem mem_held {b : Bucket Camera Payload Results} : b ∈ t.held ↔ ∃ k, (k, b) ∈ t.buckets.toList := by
  simp [held]

theorem Attends.mono {watched' : Nat → Prop} (h : t.Attends watched) (hw : ∀ k, watched' k → watched k) :
    t.Attends watched' := ⟨h.keyed, h.attended.mono hw⟩

theorem Attends.sub (h : t.Attends watched) (hr : u.roster = t.roster)
    (hp : ∀ p ∈ u.buckets.toList, p ∈ t.buckets.toList) : u.Attends watched := by
  refine ⟨fun p hmem => h.keyed p (hp p hmem), h.attended.sub hr fun b hb => ?_⟩
  obtain ⟨k, hk⟩ := mem_held.mp hb
  exact mem_held.mpr ⟨k, hp _ hk⟩

theorem Attends.missed (h : t.Attends watched) (r : Reason) (i : Nat) : (t.missed r i).1.Attends watched :=
  h.sub rfl fun _ hp => hp

theorem Attends.endBucket (h : t.Attends watched) (b : Bucket Camera Payload Results) (r : Reason)
    (res : Option Results) : (t.endBucket b r res).Attends watched :=
  h.sub rfl fun _ hp => (SortedMap.mem_toList_erase.mp hp).1

theorem Attends.close {b : Bucket Camera Payload Results} (h : t.Attends fun k => watched k ∧ k ≠ b.instant) (r : Reason)
    (associate : Associate Camera Payload Results) : (t.close b r associate).1.Attends watched := by
  have hend (run : Association Camera Payload Results) (r : Reason) (res : Option Results) :
      (Twin.endBucket { t with associations := t.associations ++ [run] } b r res).Attends watched := by
    have hrun : ({ t with associations := t.associations ++ [run] } : Twin Camera Payload Results).Attends
        fun k => watched k ∧ k ≠ b.instant := h.sub rfl fun _ hp => hp
    have hsub := hrun.endBucket b r res
    refine ⟨hsub.keyed, hsub.attended.complete fun c hc hi => ?_⟩
    obtain ⟨k, hk⟩ := mem_held.mp hc
    exact absurd ((hsub.keyed _ hk).symm.trans hi) (SortedMap.mem_toList_erase.mp hk).2
  unfold Twin.close
  cases associate b.entries with
  | none => exact hend _ _ _
  | some results => exact hend _ _ _

theorem Attends.retireStale : ∀ (stale : List Nat) {t : Twin Camera Payload Results}, t.Attends watched →
    (t.retireStale stale).Attends watched
  | [], _, h => h
  | i :: stale, t, h => by
    rw [Twin.retireStale]
    cases t.buckets[i]? with
    | none => exact Attends.retireStale stale h
    | some b => exact Attends.retireStale stale (h.endBucket b _ none)

theorem Attends.retire (h : t.Attends watched) (now : ℚ) : (t.retire now).Attends watched := by
  unfold Twin.retire
  split
  · exact h
  · split
    · exact h
    · exact h.retireStale _

theorem Attends.endFirsts (r : Reason) : ∀ (n : Nat) {t : Twin Camera Payload Results}, t.Attends watched →
    (t.endFirsts r n).Attends watched
  | 0, _, h => h
  | n + 1, t, h => by
    rw [Twin.endFirsts]
    split
    · exact h
    · exact Attends.endFirsts r n (h.endBucket _ r none)

theorem mem_modify {i : Nat} {f : Bucket Camera Payload Results → Bucket Camera Payload Results}
    {p : Nat × Bucket Camera Payload Results} (hp : p ∈ (t.modify i f).buckets.toList) :
    ∃ b, (p.1, b) ∈ t.buckets.toList ∧ p.2 = if b.instant = i then f b else b := by
  rw [Twin.modify, TreeMap.toList_map] at hp
  obtain ⟨q, hq, rfl⟩ := List.mem_map.mp hp
  exact ⟨q.2, hq, rfl⟩

theorem Attends.modify (h : t.Attends watched) (i : Nat) {f : Bucket Camera Payload Results → Bucket Camera Payload Results}
    (hf : ∀ b : Bucket Camera Payload Results, b.Calmer (f b)) : (t.modify i f).Attends watched := by
  constructor
  · intro p hp
    obtain ⟨b, hb, he⟩ := mem_modify hp
    rw [he, (Bucket.calmer_ite (b.instant = i) (hf b)).instant]
    exact h.keyed _ hb
  · refine h.attended.calm rfl fun c hc => ?_
    obtain ⟨k, hk⟩ := mem_held.mp hc
    obtain ⟨b, hb, rfl⟩ := mem_modify hk
    exact ⟨b, mem_held.mpr ⟨k, hb⟩, Bucket.calmer_ite _ (hf b)⟩

theorem Attends.openInstant (h : t.Attends watched) (cfg : Config) (captureS now : ℚ) :
    (Twin.openInstant cfg t captureS now).1.Attends watched := by
  have he : t.evict.Attends watched := h.endFirsts .evicted _
  generalize hn : (Twin.openInstant cfg t captureS now).2 = b
  have hmem : ∀ p ∈ (Twin.openInstant cfg t captureS now).1.buckets.toList, p = (b.instant, b) ∨ p ∈ t.evict.buckets.toList := by
    intro p hp
    subst hn
    exact (SortedMap.mem_toList_insert.mp hp).imp_right fun hp => hp.1
  constructor
  · intro p hp
    rcases hmem p hp with rfl | hp
    · rfl
    · exact he.keyed p hp
  · refine he.attended.push rfl (n := b) (hn ▸ ⟨rfl, rfl, rfl, rfl⟩) fun c hc => ?_
    obtain ⟨k, hk⟩ := mem_held.mp hc
    rcases hmem _ hk with he | hk
    · exact .inr (Prod.mk.inj he).2
    · exact .inl (mem_held.mpr ⟨k, hk⟩)

theorem Attends.park {i : Nat} (h : t.Attends fun k => watched k ∧ k ≠ i)
    (hi : ∀ b ∈ t.held, b.instant = i → ¬ b.Full t.liveSet) (call : Call Camera Payload Results) :
    (t.park call i).Attends watched := by
  have hmem : ∀ p ∈ (t.park call i).buckets.toList,
      ∃ b, (p.1, b) ∈ t.buckets.toList ∧ p.2 = if b.instant = i then b.wait else b := fun p hp => mem_modify hp
  have hin : ∀ c ∈ (t.park call i).held, ∃ b ∈ t.held, c = if b.instant = i then b.wait else b := by
    intro c hc
    obtain ⟨k, hk⟩ := mem_held.mp hc
    obtain ⟨b, hb, he⟩ := hmem _ hk
    exact ⟨b, mem_held.mpr ⟨k, hb⟩, he⟩
  have hother : Attended (fun k => watched k ∧ k ≠ i) (t.park call i).toLedger (t.park call i).held := by
    refine ⟨h.attended.live, h.attended.fallback, ?_, ?_, ?_⟩ <;> intro c hc <;> obtain ⟨b, hb, rfl⟩ := hin c hc
    · split <;> exact h.attended.isOpen b hb
    · split <;> exact h.attended.entered b hb
    · by_cases hbi : b.instant = i
      · rw [if_pos hbi]; exact fun hw => absurd hbi hw.2
      · rw [if_neg hbi]; exact h.attended.waiting b hb
  refine ⟨fun p hp => ?_, hother.complete fun c hc hci => ?_⟩
  · obtain ⟨b, hb, he⟩ := hmem p hp
    rw [he]
    split <;> exact h.keyed _ hb
  · obtain ⟨b, hb, rfl⟩ := hin c hc
    by_cases hbi : b.instant = i
    · rw [if_pos hbi] at hci ⊢; exact hi b hb hbi
    · rw [if_neg hbi] at hci ⊢; exact absurd hci hbi

theorem Attends.wake (h : t.Attends watched) (budget : TwinBudget) (ticket : Nat) :
    (t.wake budget ticket).1.Attends watched := by
  unfold Twin.wake
  split
  · exact h
  split
  · exact h
  split
  · exact h
  rename_i w _ _ b _ _
  have hw : ({ t with waiters := t.waiters - 1 } : Twin Camera Payload Results).Attends watched := h.sub rfl fun _ hp => hp
  have hu : (t.unpark w).Attends watched := (hw.modify w.instant Bucket.calmer_leave).sub rfl fun _ hp => hp
  dsimp only
  split
  · exact hu
  split
  · exact Attends.close (hu.mono fun _ hk => hk.1) _ _
  · exact hu.missed .expired b.instant

variable [DecidableEq Camera]

theorem buckets_refreshLive (cfg : Config) (t : Twin Camera Payload Results) :
    (refreshLive cfg t).buckets = t.buckets := by
  unfold refreshLive
  dsimp only
  by_cases hc : cfg.configuredMaxInstants.isSome = true
  · rw [if_pos hc]
  · rw [if_neg hc]

theorem roster_refreshLive (cfg : Config) (t : Twin Camera Payload Results) :
    (refreshLive cfg t).roster = (t.hooked, t.announced, t.seen, if t.hooked then t.announced else t.seen) := by
  unfold refreshLive
  dsimp only
  by_cases hc : cfg.configuredMaxInstants.isSome = true
  · rw [if_pos hc]; rfl
  · rw [if_neg hc]; rfl

theorem liveSet_refreshLive (cfg : Config) (t : Twin Camera Payload Results) :
    (refreshLive cfg t).liveSet = if t.hooked then t.announced else t.seen :=
  congrArg (fun p => p.2.2.2) (roster_refreshLive cfg t)

theorem Attends.refreshLive {l : Ledger Camera Payload Results} (hk : ∀ p ∈ t.buckets.toList, p.2.instant = p.1)
    (h : Attended watched l t.held) (hf : t.hooked = false → t.announced = ∅) :
    (Twin.refreshLive cfg t).Attends fun _ => False := by
  have hr := roster_refreshLive cfg t
  simp only [Ledger.roster, Prod.mk.injEq] at hr
  obtain ⟨hh, ha, hs, hl⟩ := hr
  have hb := buckets_refreshLive cfg t
  refine ⟨by rw [hb]; exact hk, ?_⟩
  rw [held, hb]
  exact h.recompute (by rw [hl, hh, ha, hs]) (by rw [hh, ha]; exact hf)

/-- The live set recomputed over a larger source. -/
theorem Attends.widen {l : Ledger Camera Payload Results} (hk : ∀ p ∈ t.buckets.toList, p.2.instant = p.1)
    (h : Attended watched l t.held) (hf : t.hooked = false → t.announced = ∅)
    (hsub : l.liveSet ⊆ if t.hooked then t.announced else t.seen) : (Twin.refreshLive cfg t).Attends watched := by
  have hn : (Twin.refreshLive cfg t).Attends fun _ => False := Attends.refreshLive hk h hf
  refine ⟨hn.keyed, ?_⟩
  have ha := hn.attended
  rw [held, buckets_refreshLive] at ha ⊢
  exact h.widen ha (liveSet_refreshLive cfg t ▸ hsub)

theorem Attends.see (h : t.Attends watched) (cfg : Config) (cameraId : Camera) : (t.see cfg cameraId).Attends watched := by
  unfold Twin.see
  dsimp only
  by_cases hc : cameraId ∈ t.seen
  · rw [decide_eq_false (not_not.mpr hc), if_neg Bool.false_ne_true, Finset.insert_eq_of_mem hc]
    exact h.sub rfl fun _ hp => hp
  · rw [decide_eq_true hc, if_pos rfl]
    refine Attends.widen h.keyed h.attended h.attended.fallback ?_
    rw [h.attended.live]
    show _ ⊆ if t.hooked then t.announced else insert cameraId t.seen
    by_cases hh : t.hooked = true
    · rw [if_pos hh, if_pos hh]
    · rw [if_neg hh, if_neg hh]; exact Finset.subset_insert _ _

theorem Attends.checkBackward (h : t.Attends watched) (cfg : Config) (call : Call Camera Payload Results) :
    (Twin.checkBackward cfg t call).1.Attends watched := by
  unfold Twin.checkBackward
  split
  · exact h
  · split
    · split <;> exact h.sub rfl fun _ hp => hp
    · exact h

/-- The frame joins a bucket of the map. -/
theorem Attends.place (h : t.Attends watched) (cfg : Config) (call : Call Camera Payload Results) (now : ℚ) :
    match Twin.place cfg t call now with
    | .error r => r.1.Attends watched
    | .ok r => r.1.Attends watched ∧ r.2 ∈ r.1.held := by
  have hopen {v : Twin Camera Payload Results} (hv : v.Attends watched) :
      (Twin.openInstant cfg v call.captureS now).1.Attends watched ∧
        (Twin.openInstant cfg v call.captureS now).2 ∈ (Twin.openInstant cfg v call.captureS now).1.held :=
    ⟨hv.openInstant cfg call.captureS now, mem_held.mpr ⟨_, SortedMap.mem_toList_insert.mpr (.inl rfl)⟩⟩
  unfold Twin.place
  cases hm : matchOpen cfg t call.captureS with
  | none =>
    dsimp only
    by_cases hl : lateInstant t call.captureS ≠ 0
    · rw [if_pos hl]; exact h.missed .late _
    · rw [if_neg hl]; exact hopen h
  | some b =>
    have hb : b ∈ t.held := by
      obtain ⟨p, hp, rfl⟩ := Option.map_eq_some_iff.mp hm
      exact List.mem_map_of_mem (List.mem_reverse.mp (List.mem_of_find?_eq_some hp))
    dsimp only
    cases hr : b.reported.get? call.cameraId with
    | none => exact ⟨h, hb⟩
    | some reported =>
      dsimp only
      by_cases hc : call.captureS ≤ reported
      · rw [if_pos hc]; exact h.missed .duplicate b.instant
      · rw [if_neg hc]
        exact hopen (h.modify b.instant fun b => b.calmer_seal .advanced)

theorem Attends.join (h : t.Attends watched) (call : Call Camera Payload Results) (adopted : Bool)
    {b : Bucket Camera Payload Results} (hb : b ∈ t.held) :
    ((t.record call adopted).modify b.instant fun b => b.join call).Attends (fun k => watched k ∧ k ≠ b.instant) ∧
      ∀ c ∈ ((t.record call adopted).modify b.instant fun b => b.join call).held, c.instant = b.instant →
        c = b.join call := by
  have hpair : ∀ p ∈ ((t.record call adopted).modify b.instant fun b => b.join call).buckets.toList,
      ∃ a, (p.1, a) ∈ t.buckets.toList ∧ p.2 = if a.instant = b.instant then a.join call else a := by
    intro p hp
    obtain ⟨a, ha, he⟩ := mem_modify hp
    exact ⟨a, ha, he⟩
  have hsame : ∀ {k : Nat} {a : Bucket Camera Payload Results}, (k, a) ∈ t.buckets.toList → a.instant = b.instant →
      a = b := by
    intro k a ha hi
    obtain ⟨k', hk'⟩ := mem_held.mp hb
    have hkk : k = k' := (h.keyed _ ha).symm.trans (hi.trans (h.keyed _ hk'))
    subst hkk
    exact Option.some.inj ((SortedMap.mem_toList.mp ha).symm.trans (SortedMap.mem_toList.mp hk'))
  have hmem : ∀ c ∈ ((t.record call adopted).modify b.instant fun b => b.join call).held,
      (c ∈ t.held ∧ c.instant ≠ b.instant) ∨ c = b.join call := by
    intro c hc
    obtain ⟨k, hk⟩ := mem_held.mp hc
    obtain ⟨a, ha, he⟩ := hpair _ hk
    have he : c = if a.instant = b.instant then a.join call else a := he
    rw [he]
    by_cases hai : a.instant = b.instant
    · right
      rw [if_pos hai, hsame ha hai]
    · left
      rw [if_neg hai]
      exact ⟨mem_held.mpr ⟨k, ha⟩, hai⟩
  refine ⟨⟨fun p hp => ?_, ?_⟩, fun c hc hci => (hmem c hc).resolve_left fun hne => hne.2 hci⟩
  · obtain ⟨a, ha, he⟩ := hpair p hp
    rw [he]
    split <;> exact h.keyed _ ha
  · refine Attended.join h.attended ?_ hb call hmem
    rfl

theorem Attends.submit (h : t.Attends watched) (budget : TwinBudget) (call : Call Camera Payload Results) :
    (t.submit cfg budget call).1.Attends watched := by
  unfold Twin.submit
  by_cases hc : t.closed = true
  · rw [if_pos hc]; exact h.missed .shutdown 0
  rw [if_neg hc]
  have hback := ((h.retire t.clock).see cfg call.cameraId).checkBackward cfg call
  dsimp only
  rcases hcheck : Twin.checkBackward cfg ((t.retire t.clock).see cfg call.cameraId) call with ⟨u, adopted⟩
  rw [hcheck] at hback
  cases adopted with
  | none => exact hback.missed .backward 0
  | some adopted =>
    dsimp only at hback ⊢
    have hp := hback.place cfg call t.clock
    rcases hplace : Twin.place cfg u call t.clock with r | r
    · rw [hplace] at hp; exact hp
    · rw [hplace] at hp
      obtain ⟨v, b⟩ := r
      obtain ⟨hj, hjoined⟩ := hp.1.join call adopted hp.2
      dsimp only at hj hjoined ⊢
      by_cases hfull : (b.join call).everyLiveReported
          ((v.record call adopted).modify b.instant fun b => b.join call).liveSet = true
      · rw [if_pos hfull]
        exact Attends.close (b := b.join call) hj .complete call.associate
      · rw [if_neg hfull]
        have hi : ∀ c ∈ ((v.record call adopted).modify b.instant fun b => b.join call).held, c.instant = b.instant →
            ¬ c.Full ((v.record call adopted).modify b.instant fun b => b.join call).liveSet := by
          intro c hc hci
          rw [← hj.attended.full_iff hc, hjoined c hc hci]
          exact hfull
        have hall : ((v.record call adopted).modify b.instant fun b => b.join call).Attends watched :=
          ⟨hj.keyed, hj.attended.complete hi⟩
        split
        · exact hall.missed .wouldStarve b.instant
        · exact hj.park hi call

theorem Attends.dropCamera (h : t.Attends watched) (cameraId : Camera) :
    (t.dropCamera cfg cameraId).Attends fun _ => True := by
  have hf : t.hooked = false → t.announced.erase cameraId = ∅ := fun hh => by
    rw [h.attended.fallback hh, Finset.erase_empty]
  unfold Twin.dropCamera
  generalize hu : Twin.refreshLive cfg { t with
      announced := t.announced.erase cameraId
      seen := t.seen.erase cameraId
      newestCapture := Function.update t.newestCapture cameraId none
      backwardRun := Function.update t.backwardRun cameraId 0 } = u
  have hold : u.Attends fun _ => False := hu ▸ Attends.refreshLive h.keyed h.attended hf
  let g (b : Bucket Camera Payload Results) : Bucket Camera Payload Results :=
    if b.waiters = 0 ∨ b.ready = true ∨ b.done = true then b
    else if b.everyLiveReported u.liveSet then b.sealWith .complete else b
  have hg : ∀ b : Bucket Camera Payload Results, b.Calmer (g b) := by
    intro b
    by_cases hskip : b.waiters = 0 ∨ b.ready = true ∨ b.done = true
    · simp only [g, if_pos hskip]; exact .refl b
    · simp only [g, if_neg hskip]; exact Bucket.calmer_ite _ (b.calmer_seal .complete)
  have hmem : ∀ p ∈ (u.buckets.map fun _ b => g b).toList, ∃ b, (p.1, b) ∈ u.buckets.toList ∧ p.2 = g b := by
    intro p hp
    rw [TreeMap.toList_map] at hp
    obtain ⟨q, hq, rfl⟩ := List.mem_map.mp hp
    exact ⟨q.2, hq, rfl⟩
  show Attends _ { u with buckets := u.buckets.map fun _ b => g b }
  have hin : ∀ c ∈ held { u with buckets := u.buckets.map fun _ b => g b }, ∃ b ∈ u.held, c = g b := by
    intro c hc
    obtain ⟨k, hk⟩ := mem_held.mp hc
    obtain ⟨b, hb, he⟩ := hmem _ hk
    exact ⟨b, mem_held.mpr ⟨k, hb⟩, he⟩
  constructor
  · intro p hp
    obtain ⟨b, hb, he⟩ := hmem p hp
    rw [he, (hg b).instant]
    exact hold.keyed _ hb
  · refine Attended.all (Attended.calm hold.attended rfl fun c hc => ?_) fun c hc hwait => ?_
    · obtain ⟨b, hb, rfl⟩ := hin c hc
      exact ⟨b, hb, hg b⟩
    · obtain ⟨b, hb, rfl⟩ := hin c hc
      have hb' := (hg b).waits hwait
      have hskip : ¬ (b.waiters = 0 ∨ b.ready = true ∨ b.done = true) := by
        simp [hb'.1, hb'.2, hold.attended.isOpen b hb]
      simp only [g, if_neg hskip] at hwait ⊢
      by_cases hfull : b.everyLiveReported u.liveSet = true
      · rw [if_pos hfull] at hwait
        exact absurd hwait.2 (by simp [Bucket.sealWith])
      · rw [if_neg hfull] at hwait ⊢
        rw [← Attended.full_iff hold.attended hb]
        exact hfull

theorem Attends.cameraAdded (h : t.Attends watched) (cameraId : Camera) :
    (t.cameraAdded cfg cameraId).Attends (fun k => watched k ∧ t.hooked = true) ∧
      (t.hooked = false → (NoneWaits (t.cameraAdded cfg cameraId).toLedger (t.cameraAdded cfg cameraId).held ↔
        ∀ b ∈ t.held, b.Waits → ∀ e ∈ b.entries, e.cameraId ≠ cameraId)) := by
  have hb : (t.cameraAdded cfg cameraId).buckets = t.buckets := buckets_refreshLive cfg _
  have hl : (t.cameraAdded cfg cameraId).liveSet = insert cameraId t.announced := by
    rw [Twin.cameraAdded, liveSet_refreshLive, if_pos rfl]
  refine ⟨?_, fun hh => ?_⟩
  · by_cases hh : t.hooked = true
    · refine Attends.mono (Attends.widen h.keyed h.attended (fun hh => by cases hh) ?_) fun k hk => hk.1
      rw [h.attended.live, if_pos hh]
      exact Finset.subset_insert _ _
    · have hn : (t.cameraAdded cfg cameraId).Attends fun _ => False :=
        Attends.refreshLive h.keyed h.attended fun hh => by cases hh
      exact hn.mono fun k hk => absurd hk.2 hh
  · rw [NoneWaits, held, hb, hl, h.attended.fallback hh]
    simp only [Bucket.Full, insert_empty_eq, Finset.mem_singleton, forall_eq, not_exists, not_and]
    rfl

theorem Attends.step (h : t.Attends watched) (budget : TwinBudget) (i : Input Camera Payload Results) :
    (t.step cfg budget i).1.Attends fun k => watched k ∧ ∀ c, i = .cameraAdded c → t.hooked = true := by
  have hother {u : Twin Camera Payload Results} (hu : u.Attends watched) :
      u.Attends fun k => watched k ∧ ∀ c, i = .cameraAdded c → t.hooked = true := hu.mono fun _ hk => hk.1
  cases i with
  | submit call => exact hother (h.submit budget call)
  | wake ticket => exact hother (h.wake budget ticket)
  | cameraAdded cameraId => exact (h.cameraAdded cameraId).1.mono fun k hk => ⟨hk.1, hk.2 cameraId rfl⟩
  | dropCamera cameraId => exact hother ((h.dropCamera cameraId).mono fun _ _ => trivial)
  | advance elapsed => exact hother (h.sub rfl fun _ hp => hp)
  | closeAll reason =>
    have hc : ({ t with closed := true } : Twin Camera Payload Results).Attends watched := h.sub rfl fun _ hp => hp
    exact hother (hc.endFirsts reason _)

end

end Twin

section
variable [DecidableEq Camera] {cfg : Config}

theorem Twin.noneWaits_step {t : Twin Camera Payload Results} (h : t.Attends fun _ => False)
    (hn : NoneWaits t.toLedger t.held) (budget : TwinBudget) (i : Input Camera Payload Results) :
    NoneWaits (t.step cfg budget i).1.toLedger (t.step cfg budget i).1.held ↔ followed t.toLedger t.held i := by
  have hall : t.Attends fun _ => True := ⟨h.keyed, h.attended.all hn⟩
  exact followed_iff (fun hno => (hall.step budget i).attended.mono fun _ _ => ⟨trivial, hno⟩)
    fun c hi hh => by subst hi; exact (h.cameraAdded c).2 hh

/-- A barrier at its start, and its critical sections, each on what the budget it
shares with others holds at the time. -/
def started (cfg : Config) (clock : ℚ) : State Camera Payload Results := { State.new cfg with clock := clock }

def Twin.started (cfg : Config) (clock : ℚ) : Twin Camera Payload Results := { Twin.new cfg with clock := clock }

def onBudget (cfg : Config) (s : State Camera Payload Results) (l : WaiterBudget × Input Camera Payload Results) :
    State Camera Payload Results × WaiterBudget × Option (Call Camera Payload Results × Answer Results) :=
  s.step cfg l.1 l.2

def Twin.onBudget (cfg : Config) (t : Twin Camera Payload Results) (l : TwinBudget × Input Camera Payload Results) :
    Twin Camera Payload Results × TwinBudget × Option (Call Camera Payload Results × Answer Results) :=
  t.step cfg l.1 l.2

/-- **Complete instants left waiting.** Along every script of either barrier, on
whatever its budget holds at each step, no complete instant is ever left waiting just
when no first announcement is of a camera with a frame in an instant that waits. -/
theorem noneWaits_iff (cfg : Config) (clock : ℚ) (script : List (WaiterBudget × Input Camera Payload Results))
    (script' : List (TwinBudget × Input Camera Payload Results)) :
    ((∀ js, js <+: script → NoneWaits (Machine.exec (onBudget cfg) (started cfg clock) js).1.toLedger
          (Machine.exec (onBudget cfg) (started cfg clock) js).1.buckets) ↔
        Machine.Along (onBudget cfg) (fun s l => followed s.toLedger s.buckets l.2) (started cfg clock) script) ∧
      ((∀ js, js <+: script' → NoneWaits (Machine.exec (Twin.onBudget cfg) (Twin.started cfg clock) js).1.toLedger
          (Machine.exec (Twin.onBudget cfg) (Twin.started cfg clock) js).1.held) ↔
        Machine.Along (Twin.onBudget cfg) (fun t l => followed t.toLedger t.held l.2) (Twin.started cfg clock)
          script') := by
  constructor
  · let I (s : State Camera Payload Results) : Prop :=
      s.Inv cfg ∧ (s.closed = true → s.buckets = []) ∧ s.Attends fun _ => False
    have hstart : I (started cfg clock) := by
      refine ⟨State.new_inv cfg clock, fun _ => rfl, rfl, fun _ => rfl, ?_, ?_, ?_⟩ <;> intro b hb <;> cases hb
    refine Machine.along_iff_of (I := I) (P := fun s => NoneWaits s.toLedger s.buckets) (fun s l hs => ?_)
      (fun s l hs hn => ?_) script hstart fun b hb => by cases hb
    · obtain ⟨hinv, hc, ha⟩ := hs
      obtain ⟨hinv', -, hc', -⟩ := State.step_spec hinv hc l.1 l.2
      exact ⟨hinv', hc', Attended.mono (ha.step hinv l.1 l.2) fun _ hk => hk.elim⟩
    · exact State.noneWaits_step hs.1 hs.2.2 hn l.1 l.2
  · let I (t : Twin Camera Payload Results) : Prop := t.Attends fun _ => False
    have hlist : (Twin.started cfg clock : Twin Camera Payload Results).buckets.toList = [] := rfl
    have hempty : (Twin.started cfg clock : Twin Camera Payload Results).held = [] := rfl
    have hstart : I (Twin.started cfg clock) := by
      refine ⟨?_, rfl, fun _ => rfl, ?_, ?_, ?_⟩
      · rw [hlist]; intro p hp; cases hp
      all_goals rw [hempty]; intro b hb; cases hb
    refine Machine.along_iff_of (I := I) (P := fun t => NoneWaits t.toLedger t.held) (fun t l ht => ?_)
      (fun t l ht hn => ?_) script' hstart fun b hb => by rw [hempty] at hb; cases hb
    · exact (Twin.Attends.step ht l.1 l.2).mono fun _ hk => hk.elim
    · exact Twin.noneWaits_step ht hn l.1 l.2

/-- A camera that was seen is announced while its frame waits for another that was
only seen: the instant now has all it waits for, and nobody closes it. -/
def announcedLate : List (Input String Nat (List Nat)) := [frame "a" 0, frame "b" 10, .cameraAdded "b"]

theorem complete_left_waiting :
    ¬ NoneWaits (Machine.exec (onBudget pairConfig) (started pairConfig 0) (announcedLate.map (⟨1, 1, 0⟩, ·))).1.toLedger
        (Machine.exec (onBudget pairConfig) (started pairConfig 0) (announcedLate.map (⟨1, 1, 0⟩, ·))).1.buckets ∧
      ¬ NoneWaits
        (Machine.exec (Twin.onBudget pairConfig) (Twin.started pairConfig 0) (announcedLate.map (⟨1, 0, 0⟩, ·))).1.toLedger
        (Machine.exec (Twin.onBudget pairConfig) (Twin.started pairConfig 0) (announcedLate.map (⟨1, 0, 0⟩, ·))).1.held := by
  unfold NoneWaits
  decide +kernel

end

end ShipInfer.Barrier
