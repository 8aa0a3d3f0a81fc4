import ShipInfer.Barrier.Twin
import ShipInfer.Barrier.Starvation

/-!
# Where the two barriers agree

The Python history of ended spans drops the instant that ended first, the C++
one the instant with the lowest id. While these are the same (`inOrder`), the
two barriers stay in step: same instants, same placements and refusals, same
ends, same statistics. Where they are not, a span one plane still remembers is
forgotten by the other, and a late frame of it is refused there and opens an
instant here (`twin_disagrees`).
-/

namespace ShipInfer.Barrier

open Std (TreeMap)

variable {Camera Payload Results : Type}

namespace State

/-! ## The condition -/

/-- The spans `_remember` drops are those with the lowest ids. -/
def remembersLowest (s : State Camera Payload Results) (b : Bucket Camera Payload Results) : Bool :=
  let recent := s.recent.filter (fun p => decide (p.1 ≠ b.instant)) ++ [(b.instant, b.first, b.last)]
  let dropped := recent.length - s.recentLimit
  (recent.take dropped).all fun p => (recent.drop dropped).all fun q => decide (p.1 < q.1)

/-- Ending these buckets, one after the other, drops the lowest ids. -/
def discardsLowest (reason : Bucket Camera Payload Results → Reason) :
    State Camera Payload Results → List (Bucket Camera Payload Results) → Bool
  | _, [] => true
  | s, b :: bs => s.remembersLowest b && discardsLowest reason (s.endBucket b (reason b) none) bs

def retiresLowest (s : State Camera Payload Results) (now : ℚ) : Bool :=
  match s.buckets with
  | [] => true
  | front :: _ =>
    if now < front.deadline then true
    else
      let stale := s.buckets.filter fun b => decide (b.waiters = 0 ∧ b.deadline ≤ now)
      s.discardsLowest (fun b => if b.ready then b.readyReason else .expired) stale

def evictsLowest (s : State Camera Payload Results) : Bool :=
  s.discardsLowest (fun _ => .evicted) (s.buckets.take (s.buckets.length + 1 - s.maxInstants))

def wakesLowest (s : State Camera Payload Results) (ticket : Nat) : Bool :=
  match s.parked.find? fun w => decide (w.ticket = ticket) with
  | none => true
  | some w =>
    match s.all.find? fun b => decide (b.instant = w.instant) with
    | none => true
    | some b => decide ((b.done || b.ready) = false ∧ 0 < b.deadline - s.clock) || b.done ||
        (s.unpark w).remembersLowest b.leave

variable [DecidableEq Camera]

def placesLowest (cfg : Config) (s : State Camera Payload Results) (call : Call Camera Payload Results) : Bool :=
  match matchOpen cfg s call.captureS with
  | none => (lateInstant s call.captureS).isSome || s.evictsLowest
  | some b =>
    match b.reported.get? call.cameraId with
    | some reported =>
      decide (call.captureS ≤ reported) || (s.modify b.instant fun b => b.sealWith .advanced).evictsLowest
    | none => true

def submitsLowest (cfg : Config) (s : State Camera Payload Results) (call : Call Camera Payload Results) : Bool :=
  s.closed || (s.retiresLowest s.clock &&
    match checkBackward cfg ((s.retire s.clock).see cfg call.cameraId) call with
    | (_, none) => true
    | (u, some newest) => placesLowest cfg u call &&
      match place cfg u call s.clock with
      | .error _ => true
      | .ok (v, b) => !(b.join call).everyLiveReported v.liveSet ||
          (v.joinBucket call newest b.instant).remembersLowest (b.join call))

/-- Every span the step drops from the history is the lowest-numbered there. -/
def inOrder (cfg : Config) (s : State Camera Payload Results) : Input Camera Payload Results → Bool
  | .submit call => submitsLowest cfg s call
  | .wake ticket => s.wakesLowest ticket
  | .closeAll reason => ({ s with closed := true } : State Camera Payload Results).discardsLowest (fun _ => reason) s.buckets
  | _ => true

end State

/-- An outcome as it is compared: a late frame is refused under the id of some
span it falls into, and two overlapping spans may be met in either order. -/
def InstantOutcome.forgetLate (o : InstantOutcome Results) : InstantOutcome Results :=
  if o.reason = some .late then { o with instant := 0 } else o

def Answer.forgetLate : Answer Results → Answer Results
  | .outcome o => .outcome o.forgetLate
  | a => a

/-! ## The relation -/

/-- The two barriers in step. -/
structure Agree (s : State Camera Payload Results) (t : Twin Camera Payload Results) : Prop where
  ledger : t.toLedger = s.toLedger
  buckets : t.buckets.toList = s.buckets.map fun b => (b.instant, b)
  recent : s.recent.Perm t.recent.toList
  known : ∀ p ∈ s.recent, ∃ b ∈ s.ended, b.instant = p.1

section
variable {cfg : Config} {s : State Camera Payload Results} {t : Twin Camera Payload Results}

theorem Agree.size (h : Agree s t) : t.buckets.size = s.buckets.length := by
  rw [← TreeMap.length_toList, h.buckets, List.length_map]

theorem Agree.mem (h : Agree s t) {b : Bucket Camera Payload Results} :
    t.buckets[b.instant]? = some b ↔ b ∈ s.buckets := by
  rw [← SortedMap.mem_toList, h.buckets, List.mem_map]
  constructor
  · rintro ⟨c, hc, he⟩
    obtain rfl : c = b := (Prod.mk.inj he).2
    exact hc
  · exact fun hb => ⟨b, hb, rfl⟩

/-- A write to the shared fields, the ended instants apart. -/
theorem Agree.write (h : Agree s t) (f : Ledger Camera Payload Results → Ledger Camera Payload Results)
    (hf : ∀ l, (f l).ended = l.ended) :
    Agree { s with toLedger := f s.toLedger } { t with toLedger := f t.toLedger } :=
  ⟨congrArg f h.ledger, h.buckets, h.recent, fun p hp => by rw [hf]; exact h.known p hp⟩

theorem Agree.missed (h : Agree s t) (r : Reason) (i : Nat) :
    Agree (s.missed r i).1 (t.missed r i).1 ∧ (t.missed r i).2 = (s.missed r i).2 :=
  ⟨h.write (fun l => { l with frameCounts := Function.update l.frameCounts r (l.frameCounts r + 1) }) fun _ => rfl, rfl⟩

theorem Agree.modify (h : Agree s t) (i : Nat) {f : Bucket Camera Payload Results → Bucket Camera Payload Results}
    (hf : ∀ b, (f b).instant = b.instant) : Agree (s.modify i f) (t.modify i f) := by
  have hg : ∀ b : Bucket Camera Payload Results, (if b.instant = i then f b else b).instant = b.instant := by
    intro b; split
    · exact hf b
    · rfl
  refine ⟨?_, ?_, h.recent, fun p hp => ?_⟩
  · simp only [Twin.modify, State.modify, State.mapAll, h.ledger]
  · simp only [Twin.modify, State.modify, State.mapAll, TreeMap.toList_map, h.buckets, List.map_map]
    exact List.map_congr_left fun b _ => Prod.ext (hg b).symm rfl
  · obtain ⟨b, hb, hi⟩ := h.known p hp
    exact ⟨_, List.mem_map_of_mem hb, (hg b).trans hi⟩

/-- While the spans dropped are the lowest, the two histories drop the same. -/
theorem Agree.remembered (h : Agree s t) (hs : s.Inv cfg) {b : Bucket Camera Payload Results} (hb : b ∈ s.buckets)
    (hl : s.remembersLowest b = true) :
    (s.remembered b).Perm (SortedMap.trim (t.recent.insert b.instant (b.first, b.last)) t.recentLimit).toList := by
  have hnew : ∀ p ∈ s.recent, p.1 ≠ b.instant := by
    intro p hp hi
    obtain ⟨c, hc, hci⟩ := h.known p hp
    have hcb := hs.unique (State.mem_all.mpr (.inr hc)) (State.mem_all.mpr (.inl hb)) (hci.trans hi)
    have hd := (hs.isEnded c hc).1
    rw [hcb, hs.isOpen b hb] at hd; cases hd
  have hperm : (s.recent ++ [(b.instant, b.first, b.last)]).Perm
      (t.recent.insert b.instant (b.first, b.last)).toList :=
    (h.recent.append_right _).trans
      (SortedMap.toList_insert_perm _ fun p hp => hnew p (h.recent.mem_iff.mpr hp)).symm
  have hfilter : s.recent.filter (fun p => decide (p.1 ≠ b.instant)) = s.recent :=
    List.filter_eq_self.mpr fun p hp => by simpa using hnew p hp
  simp only [State.remembersLowest, hfilter, List.all_eq_true, decide_eq_true_eq] at hl
  simp only [State.remembered, hfilter]
  have hlim : t.recentLimit = s.recentLimit := congrArg Ledger.recentLimit h.ledger
  rw [SortedMap.toList_trim, ← hperm.length_eq, hlim]
  exact SortedMap.drop_perm hperm (SortedMap.toList_sorted _) hl

theorem Agree.endBucket (h : Agree s t) (hs : s.Inv cfg) {b : Bucket Camera Payload Results} (hb : b ∈ s.buckets)
    (hl : s.remembersLowest b = true) (r : Reason) (res : Option Results) :
    Agree (s.endBucket b r res) (t.endBucket b r res) := by
  refine ⟨?_, ?_, h.remembered hs hb hl, fun p hp => ?_⟩
  · simp only [Twin.endBucket, State.endBucket, Twin.event, State.event, Twin.remember, State.remember, h.ledger]
  · simp only [Twin.endBucket, State.endBucket, Twin.event, State.event, Twin.remember, State.remember,
      SortedMap.toList_erase, h.buckets, List.filter_map]
    rfl
  · have hp' : p ∈ s.recent.filter (fun p => decide (p.1 ≠ b.instant)) ++ [(b.instant, b.first, b.last)] :=
      List.mem_of_mem_drop hp
    rcases List.mem_append.mp hp' with hp' | hp'
    · obtain ⟨c, hc, hci⟩ := h.known p (List.mem_of_mem_filter hp')
      exact ⟨c, List.mem_append_left _ hc, hci⟩
    · rw [List.mem_singleton.mp hp']
      exact ⟨b.resolve r res, List.mem_append_right _ (List.mem_singleton_self _), rfl⟩

theorem Agree.close (h : Agree s t) (hs : s.Inv cfg) {b : Bucket Camera Payload Results} (hb : b ∈ s.buckets)
    (hl : s.remembersLowest b = true) (r : Reason) (associate : Associate Camera Payload Results) :
    Agree (s.close b r associate).1 (t.close b r associate).1 ∧ (t.close b r associate).2 = (s.close b r associate).2 := by
  have hrun : ∀ (r : Reason) (res : Option Results) (runs : List (Association Camera Payload Results)),
      Agree (State.endBucket { s with associations := s.associations ++ runs } b r res)
        (Twin.endBucket { t with associations := t.associations ++ runs } b r res) := fun r res runs =>
    (h.endBucket hs hb hl r res).write (fun l => { l with associations := l.associations ++ runs }) fun _ => rfl
  unfold State.close Twin.close
  cases associate b.entries with
  | none => exact ⟨hrun _ _ _, rfl⟩
  | some results => exact ⟨hrun _ _ _, rfl⟩

/-! ## Ending several buckets -/

theorem Agree.retireStale : ∀ (bs : List (Bucket Camera Payload Results)) {s : State Camera Payload Results}
    {t : Twin Camera Payload Results}, Agree s t → s.Inv cfg → (∀ b ∈ bs, b ∈ s.buckets) →
    (bs.map Bucket.instant).Nodup →
    s.discardsLowest (fun b => if b.ready then b.readyReason else .expired) bs = true →
    Agree (s.discard (fun b => if b.ready then b.readyReason else .expired) bs) (t.retireStale (bs.map Bucket.instant))
  | [], _, _, h, _, _, _, _ => h
  | b :: bs, s, t, h, hs, hbs, hn, hl => by
    rw [List.map_cons, List.nodup_cons] at hn
    simp only [State.discardsLowest, Bool.and_eq_true] at hl
    have hb := hbs b List.mem_cons_self
    rw [List.map_cons, Twin.retireStale, h.mem.mpr hb]
    refine Agree.retireStale bs (h.endBucket hs hb hl.1 _ none) (State.keeps_endBucket hs hb _).inv (fun c hc => ?_)
      hn.2 hl.2
    refine List.mem_filter.mpr ⟨hbs c (List.mem_cons_of_mem _ hc), ?_⟩
    simp only [ne_eq, decide_eq_true_eq]
    exact fun hi => hn.1 (hi ▸ List.mem_map_of_mem hc)

/-- The front bucket gone, the others are what the map still holds. -/
theorem buckets_endFront (hs : s.Inv cfg) {b : Bucket Camera Payload Results}
    {bs : List (Bucket Camera Payload Results)} (hb : s.buckets = b :: bs) (r : Reason) (res : Option Results) :
    (s.endBucket b r res).buckets = bs := by
  have hn := hs.buckets_nodup
  rw [hb, List.map_cons, List.nodup_cons] at hn
  show s.buckets.filter _ = bs
  rw [hb, List.filter_cons_of_neg (by simp)]
  refine List.filter_eq_self.mpr fun c hc => ?_
  simp only [ne_eq, decide_eq_true_eq]
  exact fun hi => hn.1 (hi ▸ List.mem_map_of_mem hc)

theorem Agree.endFirsts (r : Reason) : ∀ (n : Nat) {s : State Camera Payload Results}
    {t : Twin Camera Payload Results}, Agree s t → s.Inv cfg →
    s.discardsLowest (fun _ => r) (s.buckets.take n) = true →
    Agree (s.discard (fun _ => r) (s.buckets.take n)) (Twin.endFirsts r n t)
  | 0, _, _, h, _, _ => h
  | n + 1, s, t, h, hs, hl => by
    unfold Twin.endFirsts
    rw [h.buckets]
    cases hb : s.buckets with
    | nil => exact h
    | cons b bs =>
      rw [hb, List.take_succ_cons] at hl
      simp only [State.discardsLowest, Bool.and_eq_true] at hl
      have hmem : b ∈ s.buckets := hb ▸ List.mem_cons_self
      have hrest := buckets_endFront hs hb r none
      have ih := Agree.endFirsts r n (h.endBucket hs hmem hl.1 r none) (State.keeps_endBucket hs hmem r).inv
      rw [hrest] at ih
      exact ih hl.2

theorem Agree.retire (h : Agree s t) (hs : s.Inv cfg) (now : ℚ) (hl : s.retiresLowest now = true) :
    Agree (s.retire now) (t.retire now) := by
  have hstale : ((t.buckets.toList.filter fun p => decide (p.2.waiters = 0 ∧ p.2.deadline ≤ now)).map Prod.fst) =
      (s.buckets.filter fun b => decide (b.waiters = 0 ∧ b.deadline ≤ now)).map Bucket.instant := by
    rw [h.buckets, List.filter_map, List.map_map]
    rfl
  have hsub : (s.buckets.filter fun b => decide (b.waiters = 0 ∧ b.deadline ≤ now)).Sublist s.buckets :=
    List.filter_sublist
  unfold State.retiresLowest at hl
  unfold State.retire Twin.retire
  rw [hstale]
  cases hb : s.buckets with
  | nil =>
    have ht : t.buckets.toList = [] := by rw [h.buckets, hb, List.map_nil]
    rw [ht]
    exact h
  | cons front bs =>
    have ht : t.buckets.toList = (front.instant, front) :: bs.map fun b => (b.instant, b) := by
      rw [h.buckets, hb, List.map_cons]
    rw [ht]
    rw [hb] at hl
    dsimp only at hl ⊢
    by_cases hd : now < front.deadline
    · rw [if_pos hd, if_pos hd]; exact h
    · rw [if_neg hd] at hl ⊢
      rw [if_neg hd]
      rw [← hb] at hl ⊢
      exact h.retireStale _ hs (fun b hb => hsub.subset hb) ((hsub.map _).nodup hs.buckets_nodup) hl

theorem Agree.evict (h : Agree s t) (hs : s.Inv cfg) (hl : s.evictsLowest = true) : Agree s.evict t.evict := by
  unfold State.evict Twin.evict
  rw [h.size, congrArg Ledger.maxInstants h.ledger]
  exact h.endFirsts .evicted _ hs hl

theorem Agree.closeAll (h : Agree s t) (hs : s.Inv cfg) (r : Reason)
    (hl : ({ s with closed := true } : State Camera Payload Results).discardsLowest (fun _ => r) s.buckets = true) :
    Agree (s.closeAll r) (t.closeAll r) := by
  have hc : Agree { s with closed := true } { t with closed := true } :=
    h.write (fun l => { l with closed := true }) fun _ => rfl
  have hinv : State.Inv cfg { s with closed := true } := { hs with }
  have key := hc.endFirsts r s.buckets.length hinv
  rw [List.take_length] at key
  unfold State.closeAll Twin.closeAll
  dsimp only
  rw [h.size]
  exact key hl

/-! ## Placing a frame -/

theorem Agree.openInstant (h : Agree s t) (hs : s.Inv cfg) (captureS now : ℚ) (hl : s.evictsLowest = true) :
    Agree (State.openInstant cfg s captureS now).1 (Twin.openInstant cfg t captureS now).1 ∧
      (Twin.openInstant cfg t captureS now).2 = (State.openInstant cfg s captureS now).2 := by
  have he := h.evict hs hl
  have hinv := (State.keeps_evict hs).inv
  unfold State.openInstant Twin.openInstant
  generalize s.evict = s' at he hinv ⊢
  generalize t.evict = t' at he ⊢
  have hnext : t'.nextInstant = s'.nextInstant := congrArg Ledger.nextInstant he.ledger
  refine ⟨⟨?_, ?_, he.recent, he.known⟩, by simp only [hnext]⟩
  · simp only [he.ledger]
  · dsimp only
    rw [SortedMap.toList_insert_of_lt, he.buckets, List.map_append]
    · simp only [hnext]; rfl
    · intro p hp
      rw [he.buckets] at hp
      obtain ⟨b, hb, rfl⟩ := List.mem_map.mp hp
      have := (hinv.instant_mem (State.mem_all.mpr (.inl hb))).2
      dsimp only
      omega

theorem Agree.matchOpen (h : Agree s t) (captureS : ℚ) :
    Twin.matchOpen cfg t captureS = State.matchOpen cfg s captureS := by
  unfold Twin.matchOpen State.matchOpen
  rw [h.buckets, ← List.map_reverse, List.find?_map, Option.map_map]
  exact Option.map_id'

/-- The histories hold the same spans, so a late frame is late on both planes. -/
theorem Agree.lateInstant (h : Agree s t) (hs : s.Inv cfg) (captureS : ℚ) :
    Twin.lateInstant t captureS ≠ 0 ↔ (State.lateInstant s captureS).isSome = true := by
  have hpos : ∀ p ∈ t.recent.toList, p.1 ≠ 0 := by
    intro p hp
    obtain ⟨b, hb, hi⟩ := h.known p (h.recent.mem_iff.mpr hp)
    have := (hs.instant_mem (State.mem_all.mpr (.inr hb))).1
    omega
  unfold Twin.lateInstant State.lateInstant
  rw [Option.isSome_map, List.find?_isSome]
  simp only [List.mem_reverse, decide_eq_true_eq]
  cases hf : t.recent.toList.reverse.find? fun p => decide (p.2.1 ≤ captureS ∧ captureS ≤ p.2.2) with
  | none =>
    simp only [List.find?_eq_none, List.mem_reverse, decide_eq_true_eq] at hf
    simp only [ne_eq, not_true_eq_false, false_iff, not_exists, not_and']
    exact fun p hp hm => hf p (h.recent.mem_iff.mp hm) hp
  | some p =>
    have hm := List.mem_reverse.mp (List.mem_of_find?_eq_some hf)
    have hp : p.2.1 ≤ captureS ∧ captureS ≤ p.2.2 := by simpa using List.find?_some hf
    simp only [ne_eq, hpos p hm, not_false_eq_true, true_iff]
    exact ⟨p, h.recent.mem_iff.mpr hm, hp⟩

variable [DecidableEq Camera]

theorem Agree.place (h : Agree s t) (hs : s.Inv cfg) (call : Call Camera Payload Results) (now : ℚ)
    (hl : State.placesLowest cfg s call = true) :
    (∃ r r', State.place cfg s call now = .error r ∧ Twin.place cfg t call now = .error r' ∧ Agree r.1 r'.1 ∧
      r'.2.forgetLate = r.2.forgetLate) ∨
    ∃ v v' b, State.place cfg s call now = .ok (v, b) ∧ Twin.place cfg t call now = .ok (v', b) ∧ Agree v v' := by
  have opened : ∀ {s : State Camera Payload Results} {t : Twin Camera Payload Results}, Agree s t → s.Inv cfg →
      s.evictsLowest = true → ∃ v v' b, State.openInstant cfg s call.captureS now = (v, b) ∧
        Twin.openInstant cfg t call.captureS now = (v', b) ∧ Agree v v' := by
    intro s t h hs hl
    obtain ⟨ho, hb⟩ := h.openInstant hs call.captureS now hl
    exact ⟨_, _, _, rfl, Prod.ext rfl hb, ho⟩
  unfold State.placesLowest at hl
  unfold State.place Twin.place
  rw [h.matchOpen]
  cases hm : State.matchOpen cfg s call.captureS with
  | none =>
    have hlate := h.lateInstant hs call.captureS
    simp only [hm, Bool.or_eq_true] at hl
    dsimp only
    cases hli : State.lateInstant s call.captureS with
    | some late =>
      left
      rw [hli, Option.isSome_some] at hlate
      rw [if_pos (hlate.mpr rfl)]
      obtain ⟨ha, -⟩ := h.missed .late late
      exact ⟨_, _, rfl, rfl, ha, rfl⟩
    | none =>
      right
      rw [hli, Option.isSome_none] at hlate hl
      rw [if_neg fun hne => Bool.false_ne_true (hlate.mp hne)]
      obtain ⟨v, v', b, hv, hv', ha⟩ := opened h hs (hl.resolve_left Bool.false_ne_true)
      exact ⟨v, v', b, congrArg Except.ok hv, congrArg Except.ok hv', ha⟩
  | some b =>
    simp only [hm] at hl
    dsimp only
    cases hr : b.reported.get? call.cameraId with
    | none => exact .inr ⟨s, t, b, rfl, rfl, h⟩
    | some reported =>
      simp only [hr, Bool.or_eq_true, decide_eq_true_eq] at hl
      dsimp only
      by_cases hc : call.captureS ≤ reported
      · rw [if_pos hc, if_pos hc]
        obtain ⟨ha, ho⟩ := h.missed .duplicate b.instant
        exact .inl ⟨_, _, rfl, rfl, ha, congrArg _ ho⟩
      · rw [if_neg hc, if_neg hc]
        have hseal : Agree (s.modify b.instant fun b => b.sealWith .advanced) (t.modify b.instant fun b => b.sealWith .advanced) :=
          h.modify b.instant fun _ => rfl
        obtain ⟨v, v', b', hv, hv', ha⟩ :=
          opened hseal (State.keeps_seal hs b.instant .advanced).inv (hl.resolve_left hc)
        exact .inr ⟨v, v', b', congrArg Except.ok hv, congrArg Except.ok hv', ha⟩

omit [DecidableEq Camera] in
theorem newestCapture_discard (reason : Bucket Camera Payload Results → Reason) :
    ∀ (bs : List (Bucket Camera Payload Results)) (s : State Camera Payload Results),
      (s.discard reason bs).newestCapture = s.newestCapture
  | [], _ => rfl
  | _ :: bs, _ => newestCapture_discard reason bs _

theorem newestCapture_place {call : Call Camera Payload Results} {now : ℚ} {v : State Camera Payload Results}
    {b : Bucket Camera Payload Results} (h : State.place cfg s call now = .ok (v, b)) :
    v.newestCapture = s.newestCapture := by
  have opened : ∀ {s : State Camera Payload Results}, State.openInstant cfg s call.captureS now = (v, b) →
      v.newestCapture = s.newestCapture := by
    intro s ho
    have hv : v = (State.openInstant cfg s call.captureS now).1 := by rw [ho]
    rw [hv]
    exact newestCapture_discard _ _ s
  unfold State.place at h
  split at h
  · split at h
    · cases h
    · exact opened (Except.ok.inj h)
  · split at h
    · split at h
      · cases h
      · have hv := opened (Except.ok.inj h)
        exact hv
    · cases h; rfl

/-- What a frame that passed the backward test is measured against: nothing (its
camera's first frame, or an adopted step), or the camera's newest. -/
def Reference (newest : Option ℚ) (adopted : Bool) (recorded : Option ℚ) : Prop :=
  (newest = none ∧ (recorded = none ∨ adopted = true)) ∨ (newest = recorded ∧ adopted = false)

theorem Agree.checkBackward (h : Agree s t) (cfg : Config) (call : Call Camera Payload Results) :
    Agree (State.checkBackward cfg s call).1 (Twin.checkBackward cfg t call).1 ∧
      (((State.checkBackward cfg s call).2 = none ∧ (Twin.checkBackward cfg t call).2 = none) ∨
        ∃ newest adopted, (State.checkBackward cfg s call).2 = some newest ∧
          (Twin.checkBackward cfg t call).2 = some adopted ∧
          Reference newest adopted ((State.checkBackward cfg s call).1.newestCapture call.cameraId)) := by
  obtain ⟨ledger, tb, tr⟩ := t
  obtain rfl : ledger = s.toLedger := h.ledger
  unfold State.checkBackward Twin.checkBackward
  cases hn : s.newestCapture call.cameraId with
  | none => exact ⟨h, .inr ⟨none, false, rfl, rfl, .inl ⟨rfl, .inl hn⟩⟩⟩
  | some newest =>
    dsimp only
    by_cases hb : call.captureS < newest - cfg.windowS
    · rw [if_pos hb, if_pos hb]
      by_cases hr : s.backwardRun call.cameraId < backwardRefusalsBeforeAdopting
      · rw [if_pos hr, if_pos hr]
        exact ⟨h.write (fun l => { l with
          backwardRun := Function.update s.backwardRun call.cameraId (s.backwardRun call.cameraId + 1) }) fun _ => rfl,
          .inl ⟨rfl, rfl⟩⟩
      · rw [if_neg hr, if_neg hr]
        exact ⟨h.write (fun l => { l with
          newestCapture := Function.update s.newestCapture call.cameraId (some call.captureS)
          backwardRun := Function.update s.backwardRun call.cameraId 0 }) fun _ => rfl,
          .inr ⟨none, true, rfl, rfl, .inl ⟨rfl, .inr rfl⟩⟩⟩
    · rw [if_neg hb, if_neg hb]
      exact ⟨h, .inr ⟨some newest, false, rfl, rfl, .inr ⟨hn.symm, rfl⟩⟩⟩

theorem Agree.joinBucket (h : Agree s t) (call : Call Camera Payload Results) {newest : Option ℚ} {adopted : Bool}
    (href : Reference newest adopted (s.newestCapture call.cameraId)) (i : Nat) :
    Agree (s.joinBucket call newest i) ((t.record call adopted).modify i fun b => b.join call) := by
  have hrec : Agree (s.record call newest) (t.record call adopted) := by
    refine ⟨?_, h.buckets, h.recent, h.known⟩
    rcases href with ⟨rfl, hr | rfl⟩ | ⟨rfl, rfl⟩
    · simp only [State.record, Twin.record, h.ledger, hr]
    · cases hn : s.newestCapture call.cameraId <;> simp only [State.record, Twin.record, h.ledger, hn, if_true]
    · cases hn : s.newestCapture call.cameraId <;>
        simp only [State.record, Twin.record, h.ledger, hn, Bool.false_eq_true, if_false]
  exact hrec.modify i fun _ => rfl

/-! ## The live set -/

theorem Agree.refreshLive (h : Agree s t) (cfg : Config) : Agree (State.refreshLive cfg s) (Twin.refreshLive cfg t) := by
  unfold State.refreshLive Twin.refreshLive
  dsimp only
  by_cases hc : cfg.configuredMaxInstants.isSome = true
  · rw [if_pos hc, if_pos hc]
    exact h.write (fun l => { l with liveSet := if l.hooked then l.announced else l.seen }) fun _ => rfl
  · rw [if_neg hc, if_neg hc, h.size]
    exact h.write (fun l => { l with
      liveSet := if l.hooked then l.announced else l.seen
      maxInstants := max (max defaultMaxInstants (l.announced ∪ l.seen).card) (s.buckets.length + 1)
      recentLimit := max 8 (max (max defaultMaxInstants (l.announced ∪ l.seen).card) (s.buckets.length + 1) * 4) })
      fun _ => rfl

theorem Agree.cameraAdded (h : Agree s t) (cfg : Config) (cameraId : Camera) :
    Agree (s.cameraAdded cfg cameraId) (t.cameraAdded cfg cameraId) :=
  (h.write (fun l => { l with hooked := true, announced := insert cameraId l.announced }) fun _ => rfl).refreshLive cfg

theorem Agree.see (h : Agree s t) (cfg : Config) (cameraId : Camera) :
    Agree (s.see cfg cameraId) (t.see cfg cameraId) := by
  have hseen : t.seen = s.seen := congrArg Ledger.seen h.ledger
  unfold State.see Twin.see
  dsimp only
  rw [hseen]
  by_cases hc : cameraId ∈ s.seen
  · rw [if_pos hc, decide_eq_false (not_not.mpr hc), if_neg Bool.false_ne_true, Finset.insert_eq_of_mem hc, ← hseen]
    exact h
  · rw [if_neg hc, decide_eq_true hc, if_pos rfl]
    exact (h.write (fun l => { l with seen := insert cameraId s.seen }) fun _ => rfl).refreshLive cfg

/-- The two tests of `drop_camera` are one test of a bucket in the map. -/
theorem Agree.sealComplete (h : Agree s t) (hopen : ∀ b ∈ s.buckets, b.done = false) :
    Agree { s with buckets := s.buckets.map fun b =>
        if b.waiters ≠ 0 ∧ b.ready = false ∧ b.everyLiveReported s.liveSet = true then b.sealWith .complete else b }
      { t with buckets := t.buckets.map fun _ b =>
        if b.waiters = 0 ∨ b.ready = true ∨ b.done = true then b
        else if b.everyLiveReported t.liveSet = true then b.sealWith .complete else b } := by
  have hlive : t.liveSet = s.liveSet := congrArg Ledger.liveSet h.ledger
  refine ⟨h.ledger, ?_, h.recent, h.known⟩
  dsimp only
  rw [TreeMap.toList_map, h.buckets, List.map_map, List.map_map]
  refine List.map_congr_left fun b hb => ?_
  simp only [Function.comp_apply, hlive, hopen b hb, Bool.false_eq_true, or_false, Prod.mk.injEq]
  by_cases h₁ : b.waiters = 0
  · simp [h₁]
  · by_cases h₂ : b.ready = true
    · simp [h₂]
    · by_cases h₃ : b.everyLiveReported s.liveSet = true
      · simp [h₁, h₂, h₃, Bucket.sealWith]
      · simp [h₁, h₂, h₃]

theorem Agree.dropCamera (h : Agree s t) (hs : s.Inv cfg) (cameraId : Camera) :
    Agree (s.dropCamera cfg cameraId) (t.dropCamera cfg cameraId) := by
  have hk := (h.write (fun l => { l with
    announced := l.announced.erase cameraId
    seen := l.seen.erase cameraId
    newestCapture := Function.update l.newestCapture cameraId none
    backwardRun := Function.update l.backwardRun cameraId 0 }) fun _ => rfl).refreshLive cfg
  refine hk.sealComplete fun b hb => ?_
  rw [State.buckets_refreshLive] at hb
  exact hs.isOpen b hb

end

/-! ## A critical section -/

/-- The two budgets in step. -/
structure BudgetAgree (b : WaiterBudget) (b' : TwinBudget) : Prop where
  balanced : b.Balanced
  permits : b'.permits = b.permits
  held : b'.held = b.held

theorem BudgetAgree.acquire {b : WaiterBudget} {b' : TwinBudget} (h : BudgetAgree b b') :
    b'.acquire.1 = b.acquire.1 ∧ BudgetAgree b.acquire.2 b'.acquire.2 := by
  have hbal := h.balanced
  unfold WaiterBudget.Balanced at hbal
  unfold WaiterBudget.acquire TwinBudget.acquire
  rw [h.permits, h.held]
  by_cases hz : b.semaphore = 0
  · rw [if_pos hz, if_pos (by omega)]; exact ⟨rfl, h⟩
  · rw [if_neg hz, if_neg (by omega)]
    refine ⟨rfl, ⟨?_, rfl, rfl⟩⟩
    unfold WaiterBudget.Balanced
    dsimp only
    omega

/-- A permit that is out comes back on both planes. -/
theorem BudgetAgree.release {b : WaiterBudget} {b' : TwinBudget} (h : BudgetAgree b b') (hh : 0 < b.held) :
    ∃ c, b.release = some c ∧ BudgetAgree c b'.releaseHeld := by
  obtain ⟨c, hc, hbal, hheld, hperm⟩ := WaiterBudget.release_of_held h.balanced hh
  refine ⟨c, hc, hbal, ?_, ?_⟩ <;> unfold TwinBudget.releaseHeld <;> rw [if_neg (by rw [h.held]; omega)]
  · exact h.permits.trans hperm.symm
  · show b'.held - 1 = c.held
    rw [h.held]; omega

/-- Two critical sections that leave the barriers in step and answer alike. -/
structure InStep (r : State Camera Payload Results × WaiterBudget × Option (Call Camera Payload Results × Answer Results))
    (r' : Twin Camera Payload Results × TwinBudget × Option (Call Camera Payload Results × Answer Results)) : Prop where
  agree : Agree r.1 r'.1
  budget : BudgetAgree r.2.1 r'.2.1
  reply : r'.2.2.map (Prod.map id Answer.forgetLate) = r.2.2.map (Prod.map id Answer.forgetLate)

section
variable {cfg : Config} {s : State Camera Payload Results} {t : Twin Camera Payload Results} {b : WaiterBudget}
  {b' : TwinBudget}

theorem InStep.missed (h : Agree s t) (hb : BudgetAgree b b') (call : Call Camera Payload Results) (r : Reason)
    (i : Nat) : InStep ((s.missed r i).1, b, some (call, .outcome (s.missed r i).2))
      ((t.missed r i).1, b', some (call, .outcome (t.missed r i).2)) :=
  ⟨(h.missed r i).1, hb, by rw [(h.missed r i).2]⟩

theorem Agree.park (h : Agree s t) (call : Call Camera Payload Results) (i : Nat) :
    Agree (s.park call i) (t.park call i) :=
  (h.modify i (f := Bucket.wait) fun _ => rfl).write (fun l => { l with
    waiters := l.waiters + 1
    parked := l.parked ++ [⟨l.nextTicket, call, i⟩]
    nextTicket := l.nextTicket + 1 }) fun _ => rfl

theorem Agree.unpark (h : Agree s t) (w : Waiter Camera Payload Results) : Agree (s.unpark w) (t.unpark w) :=
  (h.modify w.instant (f := Bucket.leave) fun _ => rfl).write (fun l => { l with
    waiters := l.waiters - 1
    parked := l.parked.eraseP fun v => decide (v.ticket = w.ticket) }) fun _ => rfl

theorem wake_inStep (h : Agree s t) (hs : s.Inv cfg) (hb : BudgetAgree b b') (hh : s.parked.length ≤ b.held)
    (ticket : Nat) (hl : s.wakesLowest ticket = true) : InStep (s.wake b ticket) (t.wake b' ticket) := by
  have hparked : t.parked = s.parked := congrArg Ledger.parked h.ledger
  have hclock : t.clock = s.clock := congrArg Ledger.clock h.ledger
  have hall : t.buckets.toList.map Prod.snd ++ t.ended = s.all := by
    rw [h.buckets, List.map_map, congrArg Ledger.ended h.ledger]
    exact congrArg (· ++ _) (List.map_id _)
  unfold State.wakesLowest at hl
  unfold State.wake Twin.wake
  rw [hparked, hall, hclock]
  cases hw : s.parked.find? fun w => decide (w.ticket = ticket) with
  | none => exact ⟨h, hb, rfl⟩
  | some w =>
    rw [hw] at hl
    dsimp only at hl ⊢
    cases hf : s.all.find? fun b => decide (b.instant = w.instant) with
    | none => exact ⟨h, hb, rfl⟩
    | some c =>
      rw [hf] at hl
      dsimp only at hl ⊢
      by_cases hwait : (c.done || c.ready) = false ∧ 0 < c.deadline - s.clock
      · rw [if_pos hwait, if_pos hwait]; exact ⟨h, hb, rfl⟩
      · rw [if_neg hwait, if_neg hwait]
        have hpos := List.length_pos_of_mem (List.mem_of_find?_eq_some hw)
        obtain ⟨b₂, hrel, hb₂⟩ := hb.release (by omega)
        have hu := h.unpark w
        have hk := State.keeps_unpark hs w
        rw [hrel]
        dsimp only
        by_cases hd : c.leave.done = true
        · rw [if_pos hd, if_pos hd]; exact ⟨hu, hb₂, rfl⟩
        · rw [if_neg hd, if_neg hd]
          have hc : c ∈ s.all := List.mem_of_find?_eq_some hf
          have hi : c.instant = w.instant := by simpa using List.find?_some hf
          have ho : c ∈ s.buckets := by
            rcases State.mem_all.mp hc with ho | he
            · exact ho
            · exact absurd (hs.isEnded c he).1 hd
          have hcl : c.leave ∈ (s.unpark w).buckets := List.mem_map.mpr ⟨c, ho, if_pos hi⟩
          rw [if_pos (List.mem_map_of_mem hcl), hu.mem.mpr hcl]
          have hdone : c.done = false := Bool.not_eq_true _ ▸ hd
          have hlow : (s.unpark w).remembersLowest c.leave = true := by
            rw [decide_eq_false hwait, hdone, Bool.false_or, Bool.false_or] at hl
            exact hl
          obtain ⟨ha, hans⟩ := hu.close hk.inv hcl hlow (if c.leave.ready then c.leave.readyReason else .window)
            w.call.associate
          exact ⟨ha, hb₂, by rw [hans]⟩

variable [DecidableEq Camera]

theorem submit_inStep (h : Agree s t) (hs : s.Inv cfg) (hb : BudgetAgree b b') (call : Call Camera Payload Results)
    (hl : State.submitsLowest cfg s call = true) : InStep (s.submit cfg b call) (t.submit cfg b' call) := by
  have hclosed : t.closed = s.closed := congrArg Ledger.closed h.ledger
  have hclock : t.clock = s.clock := congrArg Ledger.clock h.ledger
  unfold State.submitsLowest at hl
  unfold State.submit Twin.submit
  rw [hclosed, hclock]
  by_cases hc : s.closed = true
  · rw [if_pos hc, if_pos hc]; exact .missed h hb call .shutdown 0
  rw [if_neg hc, if_neg hc]
  simp only [Bool.eq_false_of_not_eq_true hc, Bool.false_or, Bool.and_eq_true] at hl
  have hk := State.keeps_retire hs s.clock
  have hk := hk.trans (State.keeps_see hk.inv call.cameraId)
  have hk := hk.trans (State.keeps_checkBackward hk.inv call)
  obtain ⟨ha, hcase⟩ := ((h.retire hs s.clock hl.1).see cfg call.cameraId).checkBackward cfg call
  have hl := hl.2
  dsimp only
  generalize State.checkBackward cfg ((s.retire s.clock).see cfg call.cameraId) call = u at hk ha hcase hl ⊢
  generalize Twin.checkBackward cfg ((t.retire s.clock).see cfg call.cameraId) call = u' at ha hcase ⊢
  obtain ⟨u, newest⟩ := u
  obtain ⟨u', adopted⟩ := u'
  dsimp only at hk ha hcase hl ⊢
  rcases hcase with ⟨rfl, rfl⟩ | ⟨newest, adopted, rfl, rfl, href⟩
  · exact .missed ha hb call .backward 0
  dsimp only at hl ⊢
  rw [Bool.and_eq_true] at hl
  rcases ha.place hk.inv call s.clock hl.1 with ⟨r, r', hr, hr', har, hout⟩ | ⟨v, v', c, hv, hv', hav⟩
  · rw [hr, hr']
    exact ⟨har, hb, congrArg (fun o => some (call, Answer.outcome o)) hout⟩
  · have hp := State.place_spec hk.inv call s.clock
    have hl := hl.2
    rw [hv] at hp hl
    rw [hv, hv']
    obtain ⟨hkp, hcm, hfit⟩ := hp
    dsimp only at hl hkp hcm hfit ⊢
    rw [← newestCapture_place hv] at href
    have hj := hav.joinBucket call href c.instant
    obtain ⟨hkj, hcj⟩ := State.joinBucket_spec hkp.inv hcm hfit newest
    have hlive : ((v'.record call adopted).modify c.instant fun b => b.join call).liveSet = v.liveSet :=
      (congrArg Ledger.liveSet hj.ledger).trans rfl
    have hlive' : (v.joinBucket call newest c.instant).liveSet = v.liveSet := rfl
    rw [hlive, hlive']
    by_cases hev : (c.join call).everyLiveReported v.liveSet = true
    · rw [if_pos hev, if_pos hev]
      rw [hev, Bool.not_true, Bool.false_or] at hl
      obtain ⟨hac, hans⟩ := hj.close hkj.inv hcj hl .complete call.associate
      exact ⟨hac, hb, by rw [hans]⟩
    · rw [if_neg hev, if_neg hev]
      obtain ⟨hacq, hba⟩ := hb.acquire
      generalize b.acquire = q at hacq hba ⊢
      generalize b'.acquire = q' at hacq hba ⊢
      obtain ⟨ok, b₂⟩ := q
      obtain ⟨ok', b₂'⟩ := q'
      dsimp only at hacq hba
      subst hacq
      cases ok' with
      | false => exact .missed hj hba call .wouldStarve _
      | true => exact ⟨hj.park call _, hba, rfl⟩

theorem step_inStep (h : Agree s t) (hs : s.Inv cfg) (hb : BudgetAgree b b') (hh : s.parked.length ≤ b.held)
    (i : Input Camera Payload Results) (hl : s.inOrder cfg i = true) :
    InStep (s.step cfg b i) (t.step cfg b' i) := by
  cases i with
  | submit call => exact submit_inStep h hs hb call hl
  | wake ticket => exact wake_inStep h hs hb hh ticket hl
  | cameraAdded cameraId => exact ⟨h.cameraAdded cfg cameraId, hb, rfl⟩
  | dropCamera cameraId => exact ⟨h.dropCamera hs cameraId, hb, rfl⟩
  | advance elapsed => exact ⟨h.write (fun l => { l with clock := l.clock + elapsed }) fun _ => rfl, hb, rfl⟩
  | closeAll reason => exact ⟨h.closeAll hs reason hl, hb, rfl⟩

end

/-! ## Scripts -/

section
variable [DecidableEq Camera]

/-- The Python barrier under a script, with what its callers are answered. -/
def pythonStep (cfg : Config) (x : State Camera Payload Results × WaiterBudget)
    (i : Input Camera Payload Results) :
    (State Camera Payload Results × WaiterBudget) × Option (Call Camera Payload Results × Answer Results) :=
  let r := x.1.step cfg x.2 i
  ((r.1, r.2.1), r.2.2.map (Prod.map id Answer.forgetLate))

/-- The C++ barrier under a script. -/
def twinStep (cfg : Config) (x : Twin Camera Payload Results × TwinBudget) (i : Input Camera Payload Results) :
    (Twin Camera Payload Results × TwinBudget) × Option (Call Camera Payload Results × Answer Results) :=
  let r := x.1.step cfg x.2 i
  ((r.1, r.2.1), r.2.2.map (Prod.map id Answer.forgetLate))

def pythonStart (cfg : Config) (permits : Nat) (clock : ℚ) : State Camera Payload Results × WaiterBudget :=
  ({ State.new cfg with clock := clock }, ⟨permits, permits, 0⟩)

def twinStart (cfg : Config) (permits : Nat) (clock : ℚ) : Twin Camera Payload Results × TwinBudget :=
  ({ Twin.new cfg with clock := clock }, ⟨permits, 0, 0⟩)

/-- What the two barriers are to agree on after a script: every answer; the ids
opened; the open instants and the ended ones, with their frames, reasons and
results; the statistics, and all else the shared fields hold. -/
def SameRun (cfg : Config) (permits : Nat) (clock : ℚ) (script : List (Input Camera Payload Results)) : Prop :=
  let p := Machine.exec (pythonStep cfg) (pythonStart cfg permits clock) script
  let c := Machine.exec (twinStep cfg) (twinStart cfg permits clock) script
  c.2 = p.2 ∧ c.1.1.toLedger = p.1.1.toLedger ∧ c.1.1.buckets.toList.map Prod.snd = p.1.1.buckets

/-- **The two barriers agree** on every script whose steps drop from the span
history only the lowest-numbered instants. -/
theorem twin_agrees (cfg : Config) (permits : Nat) (clock : ℚ) (script : List (Input Camera Payload Results))
    (h : Machine.Along (pythonStep cfg) (fun x i => x.1.inOrder cfg i = true) (pythonStart cfg permits clock) script) :
    SameRun cfg permits clock script := by
  let R (x : State Camera Payload Results × WaiterBudget) (y : Twin Camera Payload Results × TwinBudget) : Prop :=
    x.1.Inv cfg ∧ (x.1.closed = true → x.1.buckets = []) ∧ x.1.waiters = x.1.parked.length ∧
      x.1.parked.length = x.2.held ∧ Agree x.1 y.1 ∧ BudgetAgree x.2 y.2
  have hstep : ∀ x y i, R x y → x.1.inOrder cfg i = true →
      R (pythonStep cfg x i).1 (twinStep cfg y i).1 ∧ (pythonStep cfg x i).2 = (twinStep cfg y i).2 := by
    rintro ⟨s, b⟩ ⟨t, b'⟩ i ⟨hinv, hcl, hw, hh, ha, hb⟩ hl
    obtain ⟨ha', hb', hr⟩ := step_inStep ha hinv hb hh.le i hl
    obtain ⟨hinv', -, hcl', -⟩ := State.step_spec hinv hcl b i
    have hp := State.step_paid cfg hb.balanced hw hh.le i
    have hheld : (s.step cfg b i).1.parked.length = (s.step cfg b i).2.1.held := by
      have h₁ : (s.step cfg b i).2.1.held + s.parked.length = b.held + (s.step cfg b i).1.parked.length := hp.held
      have h₂ : s.parked.length = b.held := hh
      omega
    exact ⟨⟨hinv', hcl', hp.counted, hheld, ha', hb'⟩, hr.symm⟩
  have hstart : R (pythonStart cfg permits clock) (twinStart cfg permits clock) := by
    refine ⟨State.new_inv cfg clock, fun _ => rfl, rfl, rfl, ⟨rfl, rfl, .refl _, fun _ hp => ?_⟩, ⟨rfl, rfl, rfl⟩⟩
    cases hp
  obtain ⟨⟨-, -, -, -, ha, -⟩, ho⟩ := Machine.exec_sim hstep script _ _ hstart h
  refine ⟨ho.symm, ha.ledger, ?_⟩
  rw [ha.buckets, List.map_map]
  exact List.map_id _

/-- A window of one second, two open instants: eight spans are remembered. -/
def smallConfig : Config :=
  { pairConfig with configuredMaxInstants := some 2, max_pos := fun _ h => by cases h; decide }

def frame (cameraId : String) (captureS : ℚ) : Input String Nat (List Nat) :=
  .submit ⟨cameraId, captureS, 0, fun entries => some (entries.map InstantEntry.payload)⟩

/-- Cameras `a` and `b` meet in two instants. -/
theorem meeting_agrees :
    SameRun smallConfig 1 0 [.cameraAdded "a", .cameraAdded "b", frame "a" 10, frame "b" 10, .wake 0, frame "b" 12,
      frame "a" 12, .wake 1, .closeAll .shutdown] :=
  twin_agrees _ _ _ _ (by decide +kernel)

/-- Instant 1 waits for camera `b` while instants 2 to 9 complete; then it ends,
and a new camera's frame falls inside it. -/
def outOfOrder : List (Input String Nat (List Nat)) :=
  [.cameraAdded "a", .cameraAdded "b", frame "a" 0] ++
    [10, 20, 30, 40, 50, 60, 70, 80].flatMap (fun t => [frame "a" t, frame "b" t]) ++
    [frame "b" 0, frame "b" 0, frame "c" 0]

/-- The Python barrier has dropped instant 2 and still knows instant 1, where the
frame is late; the C++ one has dropped instant 1 and opens another. -/
theorem twin_disagrees : ¬ SameRun smallConfig 0 0 outOfOrder := by
  intro h
  have hp : (Machine.exec (pythonStep smallConfig) (pythonStart smallConfig 0 0) outOfOrder).1.1.nextInstant = 9 := by
    decide +kernel
  have hc : (Machine.exec (twinStep smallConfig) (twinStart smallConfig 0 0) outOfOrder).1.1.nextInstant = 10 := by
    decide +kernel
  have := congrArg Ledger.nextInstant h.2.1
  rw [hp, hc] at this
  cases this

end

end ShipInfer.Barrier
