import Mathlib.Data.List.Nodup
import ShipInfer.Identity.Consistency

/-!
# Every call leaves the maps consistent

The call around the groups: the check that refuses an instant before anything
moves, the observation, the order of the groups, the answer, the three bounds
of the eviction, and the validation, which never finds anything.
-/

namespace ShipInfer.Identity.Assigner

open Std (TreeMap)

variable {Camera α σ : Type} [LinearOrder Camera] {s : Assigner Camera α} {observed : List (TrackKey Camera)}

/-- Between calls: the maps agree, and every identity has one track per camera. -/
structure Consistent (s : Assigner Camera α) : Prop where
  during : s.During []
  oneEach : ∀ g, s.OneEach g []

/-! ## Observation -/

omit [LinearOrder Camera] in
theorem checkEmbedding_ok {ar : Cosine α σ} {width w : Nat} {o : IdentityObservation Camera α}
    (h : checkEmbedding ar width o = .ok w) :
    0 < w ∧ (0 < width → w = width) ∧ o.embedding.length = w ∧ ar.positive o.embedding = true := by
  unfold checkEmbedding at h
  by_cases he : o.embedding.length = 0
  · rw [if_pos he] at h; cases h
  rw [if_neg he] at h
  dsimp only at h
  have hv : 0 < width → (if width = 0 then o.embedding.length else width) = width := fun hpos => if_neg (by omega)
  generalize (if width = 0 then o.embedding.length else width) = v at h hv
  by_cases hw : o.embedding.length ≠ v
  · rw [if_pos hw] at h; cases h
  rw [if_neg hw] at h
  by_cases hp : (!ar.positive o.embedding) = true
  · rw [if_pos hp] at h; cases h
  rw [if_neg hp] at h
  cases h
  rw [Bool.not_eq_true, Bool.not_eq_false'] at hp
  exact ⟨by omega, hv, not_not.mp hw, hp⟩

omit [LinearOrder Camera] in
/-- Checked observations are of one width, which is the one recorded before if there was one. -/
theorem checkEmbeddings_ok {ar : Cosine α σ} : ∀ {os : List (IdentityObservation Camera α)} {width w : Nat},
    checkEmbeddings ar width os = .ok w →
      (0 < width → w = width) ∧ ∀ o ∈ os, o.embedding.length = w ∧ ar.positive o.embedding = true ∧ 0 < w
  | [], width, w, h => by
    cases h
    exact ⟨fun _ => rfl, fun _ ho => by cases ho⟩
  | o :: os, width, w, h => by
    unfold checkEmbeddings at h
    cases hc : checkEmbedding ar width o with
    | error r => rw [hc] at h; cases h
    | ok w₁ =>
      rw [hc] at h
      obtain ⟨hpos, hsame, hlen, hp⟩ := checkEmbedding_ok hc
      obtain ⟨hsame', hrest⟩ := checkEmbeddings_ok h
      have hw : w = w₁ := hsame' hpos
      refine ⟨fun h0 => hw.trans (hsame h0), fun o' ho' => ?_⟩
      rcases List.mem_cons.mp ho' with rfl | ho'
      · exact ⟨hlen.trans hw.symm, hp, hw ▸ hpos⟩
      · exact hrest o' ho'

theorem observe_spec (ar : Cosine α σ) : ∀ (os : List (IdentityObservation Camera α)) {s : Assigner Camera α}
    {observed : List (TrackKey Camera)}, s.During observed →
    (∀ o ∈ os, o.embedding.length = s.width ∧ ar.positive o.embedding = true ∧ 0 < s.width) →
    ∃ t, observe ar s os = .ok t ∧ t.During (observed ++ os.map IdentityObservation.key) ∧ t.width = s.width ∧
      t.owner = s.owner ∧ t.counter = s.counter
  | [], s, observed, h, _ => ⟨s, rfl, by rw [List.map_nil, List.append_nil]; exact h, rfl, rfl, rfl⟩
  | o :: os, s, observed, h, hos => by
    obtain ⟨hlen, hp, hpos⟩ := hos o List.mem_cons_self
    obtain ⟨u, hu, hd, hw, ho, hc⟩ : ∃ u, observeOne ar s o = .ok u ∧ u.During (observed ++ [o.key]) ∧
        u.width = s.width ∧ u.owner = s.owner ∧ u.counter = s.counter := by
      unfold observeOne normalised
      rw [hp]
      refine ⟨_, rfl, ⟨⟨h.linked.inverse, h.linked.nonempty, h.linked.nodup, h.linked.issued⟩,
        ⟨fun k => ?_, fun k => ?_, fun k hk => ?_, fun k hk => ?_, fun k hk => ?_, fun k f hf => ?_, fun _ _ => hpos⟩⟩,
        rfl, rfl, rfl⟩
      · dsimp only
        rw [SortedMap.getElem?_insert, SortedMap.getElem?_insert]
        split
        · rfl
        · exact h.recorded.hits k
      · dsimp only
        rw [SortedMap.getElem?_insert, SortedMap.getElem?_insert]
        split
        · rfl
        · exact h.recorded.lastSeen k
      · dsimp only
        rw [SortedMap.getElem?_insert]
        split
        · rfl
        · exact h.recorded.owned k hk
      · dsimp only at hk
        rw [SortedMap.getElem?_insert] at hk
        split at hk
        · rename_i hkk; exact .inr (List.mem_append_right _ (List.mem_singleton.mpr hkk))
        · exact (h.recorded.kept k hk).imp_right (List.mem_append_left _)
      · dsimp only
        rw [SortedMap.getElem?_insert, SortedMap.getElem?_insert]
        split
        · exact ⟨rfl, rfl⟩
        · rename_i hkk
          refine h.recorded.seen k ((List.mem_append.mp hk).resolve_right fun hm => ?_)
          exact hkk (List.mem_singleton.mp hm)
      · dsimp only at hf
        rw [SortedMap.getElem?_insert] at hf
        split at hf
        · cases hf
          rw [List.length_map]; exact hlen
        · exact h.recorded.widths k f hf
    obtain ⟨t, ht, hdt, hwt, hot, hct⟩ := observe_spec ar os hd fun o' ho' => by
      rw [hw]; exact hos o' (List.mem_cons_of_mem _ ho')
    refine ⟨t, ?_, ?_, hwt.trans hw, hot.trans ho, hct.trans hc⟩
    · unfold observe at ht ⊢
      rw [List.foldlM_cons, hu]
      exact ht
    · rw [List.map_cons, List.append_cons]
      exact hdt

/-! ## The groups of an instant -/

omit [LinearOrder Camera] in
theorem flatten_modify {x : Nat} : ∀ {groups : List (List Nat)} {j : Nat}, j < groups.length →
    (groups.modify j (· ++ [x])).flatten.Perm (groups.flatten ++ [x])
  | [], _, h => absurd h (Nat.not_lt_zero _)
  | g :: gs, 0, _ => by
    rw [List.modify_zero_cons, List.flatten_cons, List.flatten_cons, List.append_assoc, List.append_assoc]
    exact List.perm_append_comm.append_left g
  | g :: gs, j + 1, h => by
    rw [List.modify_succ_cons, List.flatten_cons, List.flatten_cons, List.append_assoc]
    exact (flatten_modify (Nat.lt_of_succ_lt_succ h)).append_left g

omit [LinearOrder Camera] in
/-- The groups split the instant: every index is in one group, once. -/
theorem groups_perm : ∀ (l : List (Int × Nat)) (acc : TreeMap Int Nat × List (List Nat)),
    (∀ (label : Int) (j : Nat), acc.1[label]? = some j → j < acc.2.length) →
      (l.foldl addLabel acc).2.flatten.Perm (acc.2.flatten ++ l.map Prod.snd)
  | [], acc, _ => by rw [List.map_nil, List.append_nil]; exact .refl _
  | p :: l, acc, h => by
    have hstep : (∀ (label : Int) (j : Nat), (addLabel acc p).1[label]? = some j → j < (addLabel acc p).2.length) ∧
        (addLabel acc p).2.flatten.Perm (acc.2.flatten ++ [p.2]) := by
      unfold addLabel
      cases hp : acc.1[p.1]? with
      | none =>
        refine ⟨fun label j hj => ?_, by rw [List.flatten_append]; exact .refl _⟩
        dsimp only at hj
        rw [SortedMap.getElem?_insert] at hj
        rw [List.length_append, List.length_singleton]
        split at hj
        · cases hj; omega
        · have := h label j hj; omega
      | some at_ =>
        refine ⟨fun label j hj => ?_, flatten_modify (h p.1 at_ hp)⟩
        rw [List.length_modify]
        exact h label j hj
    rw [List.foldl_cons, List.map_cons, List.append_cons]
    exact (groups_perm l _ hstep.1).trans (hstep.2.append_right _)

omit [LinearOrder Camera] in
theorem nodup_of_mem_orderedGroups {labels : List Int} {group : List Nat} (h : group ∈ orderedGroups labels) :
    group.Nodup := by
  have hm : group ∈ (labels.zipIdx.foldl addLabel (∅, [])).2 := (List.mergeSort_perm _ _).mem_iff.mp h
  have hp := groups_perm labels.zipIdx (∅, []) fun label j hj => by simp at hj
  have hn : (labels.zipIdx.map Prod.snd).Nodup := by
    rw [List.zipIdx_map_snd]; exact List.nodup_range'
  have hflat : (labels.zipIdx.foldl addLabel (∅, [])).2.flatten.Nodup := hp.nodup_iff.mpr hn
  exact (List.sublist_flatten_of_mem hm).nodup hflat

omit [LinearOrder Camera] in
theorem nodup_keysAt {os : List (IdentityObservation Camera α)} (hn : (os.map IdentityObservation.key).Nodup)
    {indices : List Nat} (hi : indices.Nodup) : (keysAt os indices).Nodup := by
  refine hi.filterMap fun a a' k ha ha' => ?_
  rw [← List.getElem?_map, Option.mem_def] at ha ha'
  obtain ⟨hlt, hk⟩ := List.getElem?_eq_some_iff.mp ha
  obtain ⟨hlt', hk'⟩ := List.getElem?_eq_some_iff.mp ha'
  exact (List.Nodup.getElem_inj_iff hn).mp (hk.trans hk'.symm)

omit [LinearOrder Camera] in
theorem keysAt_subset (os : List (IdentityObservation Camera α)) (indices : List Nat) :
    keysAt os indices ⊆ os.map IdentityObservation.key := by
  intro k hk
  obtain ⟨i, -, hi⟩ := List.mem_filterMap.mp hk
  rw [← List.getElem?_map] at hi
  exact List.mem_of_getElem? hi

theorem assignGroups_spec (ar : Cosine α σ) {width : Nat} {os : List (IdentityObservation Camera α)} (labels : List Int)
    (hn : (os.map IdentityObservation.key).Nodup) (h : Ready (os.map IdentityObservation.key) width s) :
    ∃ acc, assignGroups ar s os labels = .ok acc ∧ Ready (os.map IdentityObservation.key) width acc.1 := by
  refine foldlM_ok (I := fun acc : Assigner Camera α × Finset Nat => Ready (os.map IdentityObservation.key) width acc.1)
    (fun acc keys hkeys hacc => ?_) h
  obtain ⟨group, hg, rfl⟩ := List.mem_map.mp hkeys
  exact assignGroup_spec ar hacc (keysAt_subset os group) (nodup_keysAt hn (nodup_of_mem_orderedGroups hg))

/-! ## The answer -/

theorem answer_spec {width : Nat} : ∀ (os : List (IdentityObservation Camera α))
    {acc : Assigner Camera α × TreeMap (TrackKey Camera) Nat}, Ready observed width acc.1 →
    os.map IdentityObservation.key ⊆ observed →
    Ready observed width (os.foldl answer acc).1 ∧
      (∀ k : TrackKey Camera, (acc.1.owner[k]?).isSome = true → ((os.foldl answer acc).1.owner[k]?).isSome = true) ∧
      ∀ k ∈ os.map IdentityObservation.key, ((os.foldl answer acc).1.owner[k]?).isSome = true
  | [], acc, h, _ => ⟨h, fun _ hk => hk, fun _ hk => by cases hk⟩
  | o :: os, acc, h, hsub => by
    have hkey : o.key ∈ observed := hsub List.mem_cons_self
    have hstep : Ready observed width (answer acc o).1 ∧
        (∀ k : TrackKey Camera, (acc.1.owner[k]?).isSome = true → ((answer acc o).1.owner[k]?).isSome = true) ∧
        ((answer acc o).1.owner[o.key]?).isSome = true := by
      unfold answer
      cases ho : acc.1.ownerOf o.key with
      | none =>
        have hr := h.during.linked.issue.adopt (show acc.1.issue.2.owner[o.key]? = none from ho)
          (Nat.lt_succ_self acc.1.issue.1)
        have hs : Settling observed acc.1.issue.1 width (acc.1.issue.2, []) :=
          ⟨h.during.issue, Nat.lt_succ_self _, h.width, fun g _ => h.oneEach g, h.oneEach _⟩
        have hempty : ∀ a : TrackKey Camera, acc.1.owner[a]? ≠ some acc.1.counter := fun a ha =>
          absurd (h.during.linked.lt_counter ha) (lt_irrefl _)
        refine ⟨(hs.toTarget hr (sameTables_adopt o.key _) (h.during.recorded.seen o.key hkey).1
          (List.Subset.refl _) fun a ha => absurd ha (hempty a)).ready, fun k hk => ?_, ?_⟩
        · rw [hr.owner]
          split
          · rfl
          · exact hk
        · rw [hr.owner, if_pos rfl]; rfl
      | some owner => exact ⟨h, fun k hk => hk, by rw [show acc.1.owner[o.key]? = some owner from ho]; rfl⟩
    obtain ⟨hready, hkeep, hown⟩ := hstep
    obtain ⟨hend, hkeep', hall⟩ := answer_spec os hready fun k hk => hsub (List.mem_cons_of_mem _ hk)
    refine ⟨hend, fun k hk => hkeep' k (hkeep k hk), fun k hk => ?_⟩
    rcases List.mem_cons.mp hk with rfl | hk
    · exact hkeep' _ hown
    · exact hall k hk

/-- Once every observation has an owner, the tables hold the owned tracks and no others. -/
theorem Ready.consistent {width : Nat} (h : Ready observed width s)
    (hall : ∀ k ∈ observed, (s.owner[k]?).isSome = true) : s.Consistent :=
  ⟨⟨h.during.linked, { h.during.recorded with
    kept := fun k hk => .inl ((h.during.recorded.kept k hk).elim id (hall k))
    seen := fun _ hk => by cases hk }⟩, h.oneEach⟩

/-! ## Eviction -/

theorem Consistent.forget (h : s.Consistent) (key : TrackKey Camera) : (s.forget key).Consistent := by
  refine ⟨h.during.forget List.not_mem_nil, fun g => ?_⟩
  exact (h.during.linked.forget key).oneEach (h.oneEach g) fun he => by cases he

theorem Consistent.forgetAll (h : s.Consistent) (keys : List (TrackKey Camera)) : (s.forgetAll keys).Consistent :=
  foldl_keeps (I := Consistent) (fun _ key _ hs => hs.forget key) h

theorem Consistent.evictTracks (h : s.Consistent) (opts : Options) : (evictTracks opts s).Consistent := by
  unfold Assigner.evictTracks
  split
  · exact h.forgetAll _
  · exact h

theorem Consistent.evict (h : s.Consistent) (opts : Options) : (s.evict opts).Consistent := by
  have hstale : (evictStale opts s).Consistent := h.forgetAll _
  have h := hstale.evictTracks opts
  unfold Assigner.evict
  generalize Assigner.evictTracks opts (evictStale opts s) = s at h ⊢
  unfold evictIdentities
  split
  · exact foldl_keeps (I := Consistent) (fun s g _ hs => hs.forgetAll (s.memberList g)) h
  · exact h

/-! ## Validation -/

theorem validateMembers_ok {g : Nat} : ∀ {keys : List (TrackKey Camera)} {cameras : List Camera}, keys.Nodup →
    (∀ k ∈ keys, s.ownerOf k = some g ∧ k.cameraId ∉ cameras) →
    (∀ a ∈ keys, ∀ b ∈ keys, a.cameraId = b.cameraId → a = b) → s.validateMembers g cameras keys = .ok ()
  | [], _, _, _, _ => rfl
  | key :: keys, cameras, hn, hk, hc => by
    obtain ⟨hnot, hn⟩ := List.nodup_cons.mp hn
    obtain ⟨hown, hcam⟩ := hk key List.mem_cons_self
    simp only [validateMembers, hnot, hcam, hown, ne_eq, not_true_eq_false, if_false]
    apply validateMembers_ok hn
    · intro k hkm
      obtain ⟨hown', hcam'⟩ := hk k (List.mem_cons_of_mem _ hkm)
      refine ⟨hown', fun hm => ?_⟩
      rcases List.mem_append.mp hm with hm | hm
      · exact hcam' hm
      · have := hc k (List.mem_cons_of_mem _ hkm) key List.mem_cons_self (List.mem_singleton.mp hm)
        exact hnot (this ▸ hkm)
    · intro a ha b hb
      exact hc a (List.mem_cons_of_mem _ ha) b (List.mem_cons_of_mem _ hb)

omit [LinearOrder Camera] in
theorem checkAll_ok {β : Type} {check : β → Except (Refusal Camera) Unit} : ∀ {l : List β},
    (∀ b ∈ l, check b = .ok ()) → checkAll check l = .ok ()
  | [], _ => rfl
  | b :: l, h => by
    simp only [checkAll, h b List.mem_cons_self]
    exact checkAll_ok fun c hc => h c (List.mem_cons_of_mem _ hc)

theorem Consistent.validate (h : s.Consistent) : s.validate = .ok () := by
  have hmembers : checkAll s.validateIdentity s.members.toList = .ok () := by
    refine checkAll_ok fun p hp => ?_
    have hg := SortedMap.mem_toList.mp hp
    have hml : s.memberList p.1 = p.2 := by rw [memberList, hg]; rfl
    have hne : p.2.isEmpty = false := by
      rw [List.isEmpty_eq_false_iff]
      intro he
      exact h.during.linked.nonempty p.1 (he ▸ hg)
    have hown : ∀ k ∈ p.2, s.ownerOf k = some p.1 := fun k hk =>
      (h.during.linked.inverse k p.1).mpr (hml ▸ hk)
    rw [validateIdentity, hne]
    refine validateMembers_ok (hml ▸ h.during.linked.nodup p.1) (fun k hk => ⟨hown k hk, List.not_mem_nil⟩) ?_
    intro a ha b hb
    exact h.oneEach p.1 a b (hown a ha) (hown b hb) List.not_mem_nil List.not_mem_nil
  have howner : checkAll s.validateTrack s.owner.toList = .ok () := by
    refine checkAll_ok fun p hp => ?_
    have hk := SortedMap.mem_toList.mp hp
    have hm := (h.during.linked.inverse p.1 p.2).mp hk
    have hf := h.during.recorded.owned p.1 (by rw [hk]; rfl)
    have hl := h.during.recorded.lastSeen p.1
    rw [hf] at hl
    rw [validateTrack, if_neg (not_not.mpr hm), if_neg]
    rintro (he | he)
    · rw [he] at hf; cases hf
    · rw [he] at hl; cases hl
  rw [Assigner.validate, hmembers]
  exact howner

/-! ## The call -/

/-- A call is refused before anything moves, or goes through its groups, its answer and its
eviction. -/
theorem Consistent.assigned (h : s.Consistent) (ar : Cosine α σ) (opts : Options)
    {os : List (IdentityObservation Camera α)} (hn : (os.map IdentityObservation.key).Nodup) (labels : List Int) :
    (∃ r, s.assign ar opts os labels = (s, .error r) ∧
      (labels.length ≠ os.length ∨ checkEmbeddings ar s.width os = .error r)) ∨
      ∃ t u, t.counter = s.counter ∧ t.owner = s.owner ∧ assignGroups ar t os labels = .ok u ∧ u.1.Linked ∧
        (os.foldl answer (u.1, ∅)).1.Consistent ∧
        s.assign ar opts os labels = ((os.foldl answer (u.1, ∅)).1.evict opts, .ok (os.foldl answer (u.1, ∅)).2) := by
  unfold Assigner.assign
  by_cases hl : labels.length ≠ os.length
  · exact .inl ⟨_, if_pos hl, .inl hl⟩
  rw [if_neg hl]
  cases hc : checkEmbeddings ar s.width os with
  | error r => exact .inl ⟨r, rfl, .inr rfl⟩
  | ok width =>
    obtain ⟨hsame, hos⟩ := checkEmbeddings_ok hc
    have hw : ∀ k : TrackKey Camera, (s.features[k]?).isSome = true → width = s.width := fun k hk =>
      hsame (h.during.recorded.wide k hk)
    have hstart : ({ s with width := width, step := s.step + 1 } : Assigner Camera α).During [] := by
      refine ⟨{ h.during.linked with }, { h.during.recorded with
        seen := fun _ hk => by cases hk
        widths := fun k f hf => ?_
        wide := fun k hk => ?_ }⟩
      · have hk : (s.features[k]?).isSome = true := by rw [show s.features[k]? = some f from hf]; rfl
        exact (h.during.recorded.widths k f hf).trans (hw k hk).symm
      · show 0 < width
        rw [hw k hk]
        exact h.during.recorded.wide k hk
    obtain ⟨t, ht, hdt, hwt, hot, hct⟩ := observe_spec ar os hstart hos
    have hready : Ready (os.map IdentityObservation.key) width t := ⟨hdt, hwt, fun g a b ha hb => by
      rw [hot] at ha hb
      exact h.oneEach g a b ha hb⟩
    obtain ⟨⟨u, matched⟩, hu, hgroups⟩ := assignGroups_spec ar labels hn hready
    obtain ⟨hanswer, -, hall⟩ := answer_spec os
      (show Ready _ _ (u, (∅ : TreeMap (TrackKey Camera) Nat)).1 from hgroups) (List.Subset.refl _)
    have hend := hanswer.consistent hall
    refine .inr ⟨t, (u, matched), hct, hot, hu, hgroups.during.linked, hend, ?_⟩
    simp only [ht, hu, (hend.evict opts).validate]
    split <;> rfl

theorem Consistent.assign (h : s.Consistent) (ar : Cosine α σ) (opts : Options)
    {os : List (IdentityObservation Camera α)} (hn : (os.map IdentityObservation.key).Nodup) (labels : List Int) :
    (∃ r, s.assign ar opts os labels = (s, .error r)) ∨
      ∃ t reply, s.assign ar opts os labels = (t, .ok reply) ∧ t.Consistent := by
  rcases h.assigned ar opts hn labels with ⟨r, hr, -⟩ | ⟨t, u, -, -, -, -, hend, hassign⟩
  · exact .inl ⟨r, hr⟩
  · exact .inr ⟨_, _, hassign, hend.evict opts⟩

theorem consistent_empty {counter step width : Nat} :
    ({ counter := counter, step := step, width := width } : Assigner Camera α).Consistent := by
  have hnone : ∀ {β : Type} (k : TrackKey Camera), (∅ : TreeMap (TrackKey Camera) β)[k]? = none := by simp
  have hml : ∀ g, ({ counter := counter, step := step, width := width } : Assigner Camera α).memberList g = [] := by
    simp [memberList]
  refine ⟨⟨⟨fun k g => ?_, fun g => by simp, fun g => by rw [hml]; exact List.nodup_nil, fun g _ => by simp⟩,
    ⟨fun k => ?_, fun k => ?_, fun k hk => ?_, fun k hk => ?_, fun k hk => ?_, fun k f hf => ?_, fun k hk => ?_⟩⟩,
    fun g a b ha => ?_⟩ <;> simp_all

theorem Consistent.call (h : s.Consistent) (ar : Cosine α σ) (opts : Options) (i : Input Camera α) :
    (s.call ar opts i).1.Consistent := by
  cases i with
  | reset => exact consistent_empty
  | assign instant =>
    rcases h.assign ar opts instant.distinct instant.labels with ⟨r, hr⟩ | ⟨t, reply, ht, htc⟩
    · rw [Assigner.call, hr]; exact h
    · rw [Assigner.call, ht]; exact htc

theorem reachable_consistent {ar : Cosine α σ} {opts : Options} (h : (assigner ar opts).Reachable s) :
    s.Consistent := by
  refine h.invariant (fun s hs => ?_) fun s l t hs hst => ?_
  · rw [show s = {} from hs]; exact consistent_empty
  · rw [show t = (s.call ar opts l.1).1 from (congrArg Prod.fst hst).symm]
    exact hs.call ar opts l.1

/-- Whatever was assigned or reset before: the owners and the members are
inverse, no identity is empty or holds two tracks of one camera, and the four
tables of the tracks have the same keys. -/
theorem maps_consistent {ar : Cosine α σ} {opts : Options} (h : (assigner ar opts).Reachable s) :
    (∀ (k : TrackKey Camera) (g : Nat), s.owner[k]? = some g ↔ k ∈ s.memberList g) ∧
    (∀ g : Nat, s.members[g]? ≠ some []) ∧
    (∀ g : Nat, ((s.memberList g).map TrackKey.cameraId).Nodup) ∧
    ∀ k : TrackKey Camera, (k ∈ s.owner ↔ k ∈ s.features) ∧ (k ∈ s.hits ↔ k ∈ s.features) ∧
      (k ∈ s.lastSeen ↔ k ∈ s.features) := by
  have hs := reachable_consistent h
  have hlinked := hs.during.linked
  have hrec := hs.during.recorded
  refine ⟨hlinked.inverse, hlinked.nonempty, fun g => ?_, fun k => ⟨?_, ?_, ?_⟩⟩
  · refine (hlinked.nodup g).map_on fun a ha b hb hc => ?_
    exact hs.oneEach g a b ((hlinked.inverse a g).mpr ha) ((hlinked.inverse b g).mpr hb) List.not_mem_nil
      List.not_mem_nil hc
  · rw [TreeMap.mem_iff_isSome_getElem?, TreeMap.mem_iff_isSome_getElem?]
    exact ⟨hrec.owned k, fun hk => (hrec.kept k hk).resolve_right List.not_mem_nil⟩
  · rw [TreeMap.mem_iff_isSome_getElem?, TreeMap.mem_iff_isSome_getElem?, hrec.hits]
  · rw [TreeMap.mem_iff_isSome_getElem?, TreeMap.mem_iff_isSome_getElem?, hrec.lastSeen]

/-- Whole-number features along the axes, scored in thousandths. -/
def dot : List Int → List Int → Int
  | a :: as, b :: bs => a * b + dot as bs
  | _, _ => 0

def axisCosine : Cosine Int Int where
  positive e := decide (0 < dot e e)
  divide e x := x.ediv (dot e e).toNat.sqrt
  zero := 0
  score useMax mine others :=
    let scores := others.map fun other => 1000 * dot mine other
    if useMax then scores.foldl max (-1000) else (scores.foldl Int.add 0).ediv scores.length
  above a b := decide (b < a)

def harbourOptions : Options := ⟨2, 8, 8, true, by decide, by decide, by decide⟩

/-- Three cameras see one ship; then the second has two tracks in the cluster,
and the newer one fits it better. -/
def harbourScript : List (Input Nat Int) :=
  [.assign ⟨[⟨⟨0, 7⟩, [3, 0]⟩, ⟨⟨1, 4⟩, [5, 0]⟩, ⟨⟨2, 9⟩, [1, 0]⟩], [2, 2, 2], by decide⟩,
   .assign ⟨[⟨⟨0, 7⟩, [3, 0]⟩, ⟨⟨1, 4⟩, [0, 2]⟩, ⟨⟨1, 5⟩, [4, 0]⟩, ⟨⟨2, 9⟩, [1, 0]⟩], [1, 1, 1, 1], by decide⟩]

def harbour : Assigner Nat Int := (Machine.exec (call axisCosine harbourOptions) {} harbourScript).1

theorem harbour_consistent :
    (∀ (k : TrackKey Nat) (g : Nat), harbour.owner[k]? = some g ↔ k ∈ harbour.memberList g) ∧
    (∀ g : Nat, harbour.members[g]? ≠ some []) ∧
    (∀ g : Nat, ((harbour.memberList g).map TrackKey.cameraId).Nodup) ∧
    ∀ k : TrackKey Nat, (k ∈ harbour.owner ↔ k ∈ harbour.features) ∧ (k ∈ harbour.hits ↔ k ∈ harbour.features) ∧
      (k ∈ harbour.lastSeen ↔ k ∈ harbour.features) :=
  maps_consistent (Machine.reachable_exec harbourScript (.init rfl))

end ShipInfer.Identity.Assigner
