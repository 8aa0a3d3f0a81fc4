import ShipInfer.Identity.Assign

/-!
# Ids and bounds

An id once issued is not issued again: the counter only grows, and a call adopts tracks
under ids that it issues or that own a track already. The eviction at the end of a call
brings the maps within their bounds, whatever the instant put into them.
-/

namespace ShipInfer.Identity.Assigner

open Std (TreeMap)

variable {Camera α σ : Type} [LinearOrder Camera] {s : Assigner Camera α}

/-! ## Ids -/

/-- Since some call began with the ids of `K` and the counter at `c`: every id that owns a
track is one of them, or has been issued from `c` on. -/
structure Within (K : Set Nat) (c : Nat) (t : Assigner Camera α) : Prop where
  counter : c ≤ t.counter
  ids : ∀ (k : TrackKey Camera) (g : Nat), t.owner[k]? = some g → g ∈ K ∨ c ≤ g

/-- The ids that own a track. -/
def owning (s : Assigner Camera α) : Set Nat := { g | ∃ k : TrackKey Camera, s.owner[k]? = some g }

section
variable {K : Set Nat} {c : Nat} {key : TrackKey Camera} {g : Nat}

theorem within_start (s : Assigner Camera α) : Within s.owning s.counter s :=
  ⟨le_refl _, fun k _ h => .inl ⟨k, h⟩⟩

theorem Within.issue (h : Within K c s) : Within K c s.issue.2 := ⟨h.counter.trans (Nat.le_succ _), h.ids⟩

theorem Within.issued (h : Within K c s) : s.issue.1 ∈ K ∨ c ≤ s.issue.1 := .inr h.counter

theorem Within.adopt (h : Within K c s) (hg : g ∈ K ∨ c ≤ g) : Within K c (s.adopt key g) := by
  refine ⟨h.counter, fun k g' hk => ?_⟩
  have howner : (s.adopt key g).owner[k]? = if k = key then some g else s.owner[k]? := SortedMap.getElem?_insert _ _ _ _
  rw [howner] at hk
  split at hk
  · cases hk
    exact hg
  · exact h.ids k g' hk

theorem Within.detach (h : Within K c s) : Within K c (s.detach key g) := by
  rw [detach_eq]
  exact ⟨h.counter, h.ids⟩

theorem Within.move (h : Within K c s) {source destination : Nat} (hg : destination ∈ K ∨ c ≤ destination) :
    Within K c (s.move key source destination) := by
  unfold Assigner.move
  split
  · exact h
  · exact h.detach.adopt hg

theorem Within.place (h : Within K c s) {target : Nat} (hg : target ∈ K ∨ c ≤ target) (owner : Option Nat) :
    Within K c (s.place key target owner) := by
  cases owner with
  | none => exact h.adopt hg
  | some owner => exact h.move hg

theorem Within.forget (h : Within K c s) : Within K c (s.forget key) := by
  have herase : ∀ t : Assigner Camera α, Within K c t → Within K c { t with owner := t.owner.erase key } := by
    intro t ht
    refine ⟨ht.counter, fun k g hk => ?_⟩
    have hk : (t.owner.erase key)[k]? = some g := hk
    rw [SortedMap.getElem?_erase] at hk
    split at hk
    · cases hk
    · exact ht.ids k g hk
  unfold Assigner.forget
  cases s.owner[key]? with
  | none => exact ⟨h.counter, h.ids⟩
  | some g =>
    have hd : Within K c ({ s with owner := s.owner.erase key }.detach key g) := (herase s h).detach
    exact ⟨hd.counter, hd.ids⟩

theorem Within.forgetAll (h : Within K c s) (keys : List (TrackKey Camera)) : Within K c (s.forgetAll keys) :=
  foldl_keeps (I := Within K c) (fun _ _ _ ht => ht.forget) h

theorem Within.adoptFresh {target : Nat} (hg : target ∈ K ∨ c ≤ target) : ∀ (keys : List (TrackKey Camera))
    {s : Assigner Camera α} {claimed : List Camera}, Within K c s → Within K c (adoptFresh target s claimed keys)
  | [], _, _, h => h
  | key :: keys, s, claimed, h => by
    unfold Assigner.adoptFresh
    split
    · exact Within.adoptFresh hg keys (h.issue.adopt h.issued)
    · exact Within.adoptFresh hg keys (h.adopt hg)

theorem Within.resolve {ar : Cosine α σ} {owner target : Nat} {overlap : List (List α)} {t : Assigner Camera α}
    (h : Within K c s) (hg : target ∈ K ∨ c ≤ target)
    (ht : s.resolveBetweenIdentities ar key owner target overlap = .ok t) : Within K c t := by
  unfold resolveBetweenIdentities at ht
  dsimp only at ht
  split at ht
  · cases ht
  split at ht
  · cases ht
  · cases ht
  split at ht
  · cases ht
    exact h.move hg
  · cases ht
    exact h

theorem Within.contest {ar : Cosine α σ} {target : Nat} {overlap : List (List α)} {displaced : List (TrackKey Camera)}
    {incumbent : TrackKey Camera} {acc : Assigner Camera α × List (TrackKey Camera)} (h : Within K c s)
    (hg : target ∈ K ∨ c ≤ target) (ht : contest ar target overlap s displaced key incumbent = .ok acc) :
    Within K c acc.1 := by
  unfold Assigner.contest at ht
  split at ht
  · cases ht
  split at ht
  · cases ht
  · cases ht
  split at ht
  · cases ht
  split at ht
  · cases ht
    exact h.place hg _
  split at ht
  · cases ht
    exact h.issue.adopt h.issued
  · cases ht
    exact h

theorem Within.settle {ar : Cosine α σ} {target : Nat} {overlap : List (List α)}
    {acc acc' : Assigner Camera α × List (TrackKey Camera)} (hg : target ∈ K ∨ c ≤ target)
    (ht : settle ar target overlap acc key = .ok acc') (h : Within K c acc.1) : Within K c acc'.1 := by
  unfold Assigner.settle at ht
  dsimp only at ht
  split at ht
  · split at ht
    · cases ht
      exact h.adopt hg
    split at ht
    · rename_i owner _ _
      cases hr : acc.1.resolveBetweenIdentities ar key owner target overlap with
      | error e =>
        rw [hr] at ht
        cases ht
      | ok t =>
        rw [hr] at ht
        cases ht
        exact h.resolve hg hr
    · cases ht
      exact h
  split at ht
  · cases ht
    exact h.forget.place hg _
  split at ht
  · cases ht
    exact h.forget.place hg _
  · exact h.contest hg ht

theorem Within.moveOut {target : Nat} (h : Within K c s) : Within K c (moveOut target s key) := by
  unfold Assigner.moveOut
  split
  · exact h.issue.move h.issued
  · exact h

theorem Within.assignGroup {ar : Cosine α σ} {acc acc' : Assigner Camera α × Finset Nat} {keys : List (TrackKey Camera)}
    (ht : assignGroup ar acc keys = .ok acc') (h : Within K c acc.1) : Within K c acc'.1 := by
  unfold Assigner.assignGroup at ht
  dsimp only at ht
  cases hc : acc.1.candidateIds keys acc.2 with
  | nil =>
    rw [hc] at ht
    dsimp only at ht
    split at ht
    · cases ht
      exact h
    · cases ht
      exact .adoptFresh h.issued _ h.issue
  | cons front rest =>
    rw [hc] at ht
    dsimp only at ht
    have htarget : acc.1.selectByOldest front (front :: rest) ∈ acc.1.candidateIds keys acc.2 := by
      rw [hc]
      exact selectByOldest_mem List.mem_cons_self
    obtain ⟨owned, -, howner⟩ := mem_candidateIds htarget
    have hg := h.ids owned _ howner
    generalize acc.1.selectByOldest front (front :: rest) = target at ht hg
    split at ht
    · cases ht
    · rename_i t displaced hfold
      cases ht
      have hsettled : Within K c (t, displaced).1 :=
        foldlM_keeps (I := fun acc : Assigner Camera α × List (TrackKey Camera) => Within K c acc.1)
          (fun _ _ _ _ hstep ha => ha.settle hg hstep) hfold h
      exact foldl_keeps (I := Within K c) (fun _ _ _ hs => hs.moveOut) hsettled

theorem Within.assignGroups {ar : Cosine α σ} {os : List (IdentityObservation Camera α)} {labels : List Int}
    {acc : Assigner Camera α × Finset Nat} (ht : assignGroups ar s os labels = .ok acc) (h : Within K c s) :
    Within K c acc.1 :=
  foldlM_keeps (I := fun acc : Assigner Camera α × Finset Nat => Within K c acc.1)
    (fun _ _ _ _ hstep ha => Within.assignGroup hstep ha) ht h

/-- What the reply says so far: ids issued, which the call may give. -/
structure Told (K : Set Nat) (c : Nat) (acc : Assigner Camera α × TreeMap (TrackKey Camera) Nat) : Prop where
  within : Within K c acc.1
  linked : acc.1.Linked
  told : ∀ (k : TrackKey Camera) (g : Nat), acc.2[k]? = some g → g < acc.1.counter ∧ (g ∈ K ∨ c ≤ g)

theorem Told.answer {acc : Assigner Camera α × TreeMap (TrackKey Camera) Nat} (h : Told K c acc)
    (o : IdentityObservation Camera α) : Told K c (answer acc o) ∧ ((answer acc o).2[o.key]?).isSome = true ∧
      ∀ k : TrackKey Camera, (acc.2[k]?).isSome = true → ((answer acc o).2[k]?).isSome = true := by
  have hinsert : ∀ (k : TrackKey Camera) (g : Nat),
      (acc.2.insert o.key g)[k]? = if k = o.key then some g else acc.2[k]? :=
    fun k g => SortedMap.getElem?_insert _ _ _ _
  have hkeeps : ∀ (g : Nat), ((acc.2.insert o.key g)[o.key]?).isSome = true ∧
      ∀ k : TrackKey Camera, (acc.2[k]?).isSome = true → ((acc.2.insert o.key g)[k]?).isSome = true := by
    intro g
    refine ⟨by simp, fun k hk => ?_⟩
    rw [hinsert]
    split
    · rfl
    · exact hk
  unfold Assigner.answer
  cases ho : acc.1.ownerOf o.key with
  | none =>
    refine ⟨⟨h.within.issue.adopt h.within.issued, ?_, fun k g hk => ?_⟩, hkeeps _⟩
    · exact (h.linked.issue.adopt (show acc.1.issue.2.owner[o.key]? = none from ho) (Nat.lt_succ_self _)).linked
    · rw [hinsert] at hk
      split at hk
      · cases hk
        exact ⟨Nat.lt_succ_self _, h.within.issued⟩
      · exact ⟨(h.told k g hk).1.trans (Nat.lt_succ_self _), (h.told k g hk).2⟩
  | some owner =>
    refine ⟨⟨h.within, h.linked, fun k g hk => ?_⟩, hkeeps _⟩
    rw [hinsert] at hk
    split at hk
    · cases hk
      exact ⟨h.linked.lt_counter ho, h.within.ids o.key _ ho⟩
    · exact h.told k g hk

theorem Told.answers : ∀ (os : List (IdentityObservation Camera α))
    {acc : Assigner Camera α × TreeMap (TrackKey Camera) Nat}, Told K c acc → Told K c (os.foldl Assigner.answer acc) ∧
      (∀ o ∈ os, ((os.foldl Assigner.answer acc).2[o.key]?).isSome = true) ∧
      ∀ k : TrackKey Camera, (acc.2[k]?).isSome = true → ((os.foldl Assigner.answer acc).2[k]?).isSome = true
  | [], _, h => ⟨h, fun _ ho => (List.not_mem_nil ho).elim, fun _ hk => hk⟩
  | o :: os, acc, h => by
    obtain ⟨hone, hkey, hkeep⟩ := h.answer o
    obtain ⟨hall, hkeys, hkeeps⟩ := Told.answers os hone
    refine ⟨hall, fun o' ho' => ?_, fun k hk => hkeeps k (hkeep k hk)⟩
    rcases List.mem_cons.mp ho' with rfl | ho'
    · exact hkeeps _ hkey
    · exact hkeys o' ho'

end

/-! ## Bounds -/

/-- A table with keys of a list has at most as many entries. -/
theorem size_le_length {β τ : Type} [LinearOrder β] {t : TreeMap β τ} {l : List β}
    (h : ∀ k : β, (t[k]?).isSome = true → k ∈ l) :
    t.size ≤ l.length := by
  rw [← TreeMap.length_toList, ← List.length_map (f := Prod.fst)]
  refine (List.subperm_of_subset (SortedMap.nodup_keys t) fun k hk => ?_).length_le
  obtain ⟨p, hp, rfl⟩ := List.mem_map.mp hk
  apply h
  rw [SortedMap.mem_toList.mp hp]
  rfl

/-- Without some of its keys a table is smaller by as many. -/
theorem size_le_sub {β τ : Type} [LinearOrder β] {t t' : TreeMap β τ} {gone : List β} (hn : gone.Nodup)
    (hin : ∀ k : β, k ∈ gone → (t[k]?).isSome = true) (hout : ∀ k : β, k ∈ gone → t'[k]? = none)
    (hsub : ∀ k : β, (t'[k]?).isSome = true → (t[k]?).isSome = true) : t'.size ≤ t.size - gone.length := by
  have hkeys : ∀ k : β, k ∈ t.toList.map Prod.fst ↔ (t[k]?).isSome = true := by
    intro k
    rw [List.mem_map]
    constructor
    · rintro ⟨p, hp, rfl⟩
      rw [SortedMap.mem_toList.mp hp]
      rfl
    · intro hk
      obtain ⟨v, hv⟩ := Option.isSome_iff_exists.mp hk
      exact ⟨(k, v), SortedMap.mem_toList.mpr hv, rfl⟩
  have hperm : ((t.toList.map Prod.fst).filter fun k => decide (k ∈ gone)).Perm gone := by
    rw [List.perm_ext_iff_of_nodup ((SortedMap.nodup_keys t).filter _) hn]
    intro k
    rw [List.mem_filter, hkeys, decide_eq_true_eq]
    exact ⟨fun h => h.2, fun h => ⟨hin k h, h⟩⟩
  have hle : t'.size ≤ ((t.toList.map Prod.fst).filter fun k => !decide (k ∈ gone)).length := by
    apply size_le_length
    intro k hk
    rw [List.mem_filter, hkeys]
    refine ⟨hsub k hk, ?_⟩
    by_cases hg : k ∈ gone
    · rw [hout k hg] at hk
      cases hk
    · simp [hg]
  have hsplit := List.length_eq_length_filter_add (l := t.toList.map Prod.fst) fun k => decide (k ∈ gone)
  rw [hperm.length_eq, List.length_map, TreeMap.length_toList] at hsplit
  omega

/-- Some tracks are forgotten, and nothing else moves. -/
structure Forgets (s t : Assigner Camera α) (keys : List (TrackKey Camera)) : Prop where
  owner : ∀ k : TrackKey Camera, t.owner[k]? = if k ∈ keys then none else s.owner[k]?
  lastSeen : ∀ k : TrackKey Camera, t.lastSeen[k]? = if k ∈ keys then none else s.lastSeen[k]?
  step : t.step = s.step
  counter : t.counter = s.counter

theorem Consistent.forgets (h : s.Consistent) :
    ∀ (keys : List (TrackKey Camera)), Forgets s (s.forgetAll keys) keys := by
  intro keys
  induction keys generalizing s with
  | nil => exact ⟨fun _ => (if_neg List.not_mem_nil).symm, fun _ => (if_neg List.not_mem_nil).symm, rfl, rfl⟩
  | cons key keys ih =>
    have hone := h.during.linked.forget key
    have hseen := (tables_forget (s := s) key).2.2
    have hcounter : (s.forget key).counter = s.counter := by
      unfold Assigner.forget
      cases s.owner[key]? with
      | none => rfl
      | some g =>
        dsimp only
        rw [detach_eq]
    obtain ⟨howner, hlast, hstep, hcount⟩ := ih (h.forget key)
    refine ⟨fun k => ?_, fun k => ?_, hstep.trans hone.step, hcount.trans hcounter⟩
    · show ((s.forget key).forgetAll keys).owner[k]? = _
      rw [howner, hone.owner]
      by_cases hk : k ∈ keys <;> by_cases hkk : k = key <;> simp [hk, hkk]
    · show ((s.forget key).forgetAll keys).lastSeen[k]? = _
      rw [hlast, hseen, SortedMap.getElem?_erase]
      by_cases hk : k ∈ keys <;> by_cases hkk : k = key <;> simp [hk, hkk]

theorem Consistent.seen_iff (h : s.Consistent) (k : TrackKey Camera) :
    (s.lastSeen[k]?).isSome = true ↔ (s.owner[k]?).isSome = true := by
  rw [h.during.recorded.lastSeen]
  exact ⟨fun hk => (h.during.recorded.kept k hk).resolve_right List.not_mem_nil, h.during.recorded.owned k⟩

/-- An identity is one that owns a track. -/
theorem Consistent.members_iff (h : s.Consistent) (g : Nat) : (s.members[g]?).isSome = true ↔ g ∈ s.owning := by
  constructor
  · intro hg
    obtain ⟨keys, hkeys⟩ := Option.isSome_iff_exists.mp hg
    cases keys with
    | nil => exact absurd hkeys (h.during.linked.nonempty g)
    | cons key keys =>
      refine ⟨key, (h.during.linked.inverse key g).mpr ?_⟩
      simp [memberList, hkeys]
  · rintro ⟨key, hkey⟩
    have hmem := (h.during.linked.inverse key g).mp hkey
    unfold memberList at hmem
    cases hg : s.members[g]? with
    | none => simp [hg] at hmem
    | some keys => rfl

/-- Within the age, the number of tracks and the number of identities. -/
structure Bounded (opts : Options) (s : Assigner Camera α) : Prop where
  identities : s.members.size ≤ opts.capacity
  tracks : s.owner.size ≤ opts.maxTracks
  ages : ∀ (k : TrackKey Camera) (seen : Nat), s.lastSeen[k]? = some seen → s.step ≤ seen + opts.maxAge

/-- No track more, and none seen at another time. -/
structure Shrinks (s t : Assigner Camera α) : Prop where
  owner : ∀ (k : TrackKey Camera) (g : Nat), t.owner[k]? = some g → s.owner[k]? = some g
  lastSeen : ∀ (k : TrackKey Camera) (seen : Nat), t.lastSeen[k]? = some seen → s.lastSeen[k]? = some seen
  step : t.step = s.step
  counter : t.counter = s.counter

theorem Shrinks.refl (s : Assigner Camera α) : Shrinks s s := ⟨fun _ _ h => h, fun _ _ h => h, rfl, rfl⟩

theorem Shrinks.trans {t u : Assigner Camera α} (h : Shrinks s t) (h' : Shrinks t u) : Shrinks s u :=
  ⟨fun k g hk => h.owner k g (h'.owner k g hk), fun k g hk => h.lastSeen k g (h'.lastSeen k g hk),
    h'.step.trans h.step, h'.counter.trans h.counter⟩

theorem Forgets.shrinks {t : Assigner Camera α} {keys : List (TrackKey Camera)} (h : Forgets s t keys) :
    Shrinks s t := by
  refine ⟨fun k g hk => ?_, fun k g hk => ?_, h.step, h.counter⟩
  · rw [h.owner] at hk
    split at hk
    · cases hk
    · exact hk
  · rw [h.lastSeen] at hk
    split at hk
    · cases hk
    · exact hk

theorem Shrinks.owning {t : Assigner Camera α} (h : Shrinks s t) : t.owning ⊆ s.owning :=
  fun g hg => hg.elim fun k hk => ⟨k, h.owner k g hk⟩

theorem Shrinks.tracks {t : Assigner Camera α} (h : Shrinks s t) : t.owner.size ≤ s.owner.size := by
  have hsize : t.owner.size ≤ s.owner.size - ([] : List (TrackKey Camera)).length := by
    refine size_le_sub List.nodup_nil (by simp) (by simp) fun k hk => ?_
    obtain ⟨g, hg⟩ := Option.isSome_iff_exists.mp hk
    rw [h.owner k g hg]
    rfl
  simpa using hsize

theorem Consistent.stale_gone (h : s.Consistent) (opts : Options) (k : TrackKey Camera) (seen : Nat)
    (hk : (evictStale opts s).lastSeen[k]? = some seen) : (evictStale opts s).step ≤ seen + opts.maxAge := by
  have hf := h.forgets ((s.lastSeen.toList.filter fun p => decide ((p.2 : Int) < s.step - opts.maxAge)).map Prod.fst)
  have hstep : (evictStale opts s).step = s.step := hf.step
  have hlast := hf.lastSeen k
  have hk' : (s.forgetAll ((s.lastSeen.toList.filter fun p => decide ((p.2 : Int) < s.step - opts.maxAge)).map
    Prod.fst)).lastSeen[k]? = some seen := hk
  rw [hk'] at hlast
  split at hlast
  · cases hlast
  · rename_i hnot
    rw [hstep]
    by_contra hlate
    apply hnot
    refine List.mem_map.mpr ⟨(k, seen), List.mem_filter.mpr ⟨SortedMap.mem_toList.mpr hlast.symm, ?_⟩, rfl⟩
    simp only [decide_eq_true_eq]
    omega

theorem Consistent.tracks_bounded (h : s.Consistent) (opts : Options) :
    (Assigner.evictTracks opts s).owner.size ≤ opts.maxTracks ∧ Shrinks s (Assigner.evictTracks opts s) := by
  unfold Assigner.evictTracks
  split
  · rename_i hmany
    dsimp only
    have hperm := List.mergeSort_perm (s.lastSeen.toList.map Prod.fst) fun a b => !s.seenBefore b a
    generalize (s.lastSeen.toList.map Prod.fst).mergeSort (fun a b => !s.seenBefore b a) = oldest at hperm
    have hf := h.forgets (oldest.take (s.owner.size - opts.maxTracks))
    have hseen : ∀ k ∈ oldest, (s.owner[k]?).isSome = true := by
      intro k hk
      obtain ⟨p, hp, rfl⟩ := List.mem_map.mp (hperm.subset hk)
      rw [← h.seen_iff, SortedMap.mem_toList.mp hp]
      rfl
    have hn : oldest.Nodup := hperm.nodup_iff.mpr (SortedMap.nodup_keys _)
    have hall : s.owner.size ≤ oldest.length := by
      apply size_le_length
      intro k hk
      rw [← h.seen_iff] at hk
      obtain ⟨seen, hs⟩ := Option.isSome_iff_exists.mp hk
      exact hperm.symm.subset (List.mem_map.mpr ⟨(k, seen), SortedMap.mem_toList.mpr hs, rfl⟩)
    have hsize : (s.forgetAll (oldest.take (s.owner.size - opts.maxTracks))).owner.size ≤
        s.owner.size - (oldest.take (s.owner.size - opts.maxTracks)).length := size_le_sub
      (hn.sublist (List.take_sublist _ _)) (fun k hk => hseen k (List.mem_of_mem_take hk))
      (fun k hk => by rw [hf.owner, if_pos hk]) (fun k hk => by
        obtain ⟨g, hg⟩ := Option.isSome_iff_exists.mp hk
        rw [hf.shrinks.owner k g hg]
        rfl)
    rw [List.length_take] at hsize
    exact ⟨by omega, hf.shrinks⟩
  · exact ⟨by omega, Shrinks.refl s⟩

/-- The members of some identities are forgotten. -/
theorem forgetMembers_spec : ∀ (ids : List Nat) {s : Assigner Camera α}, s.Consistent →
    (ids.foldl forgetMembers s).Consistent ∧ Shrinks s (ids.foldl forgetMembers s) ∧
      ∀ g ∈ ids, g ∉ (ids.foldl forgetMembers s).owning
  | [], s, hs => ⟨hs, Shrinks.refl s, fun _ hg => (List.not_mem_nil hg).elim⟩
  | g :: ids, s, hs => by
    have hf := hs.forgets (s.memberList g)
    have hgone : g ∉ (s.forgetMembers g).owning := by
      rintro ⟨k, hk⟩
      have hk' := hf.owner k
      have hk : (s.forgetAll (s.memberList g)).owner[k]? = some g := hk
      rw [hk] at hk'
      split at hk'
      · cases hk'
      · rename_i hnot
        exact hnot ((hs.during.linked.inverse k g).mp hk'.symm)
    obtain ⟨hc, hshrinks, hall⟩ := forgetMembers_spec ids (s := s.forgetMembers g) (hs.forgetAll _)
    refine ⟨hc, hf.shrinks.trans hshrinks, fun g' hg' => ?_⟩
    rcases List.mem_cons.mp hg' with rfl | hg'
    · exact fun hg => hgone (hshrinks.owning hg)
    · exact hall g' hg'

theorem Consistent.identities_bounded (h : s.Consistent) (opts : Options) :
    (evictIdentities opts s).members.size ≤ opts.capacity ∧ Shrinks s (evictIdentities opts s) := by
  unfold evictIdentities
  split
  · rename_i hmany
    dsimp only
    have hperm := List.mergeSort_perm (s.members.toList.map Prod.fst) fun a b => !s.usedBefore b a
    generalize (s.members.toList.map Prod.fst).mergeSort (fun a b => !s.usedBefore b a) = ids at hperm
    obtain ⟨hc, hshrinks, hgone⟩ := forgetMembers_spec (ids.take (s.members.size - opts.capacity)) h
    have hids : ∀ g ∈ ids, (s.members[g]?).isSome = true := by
      intro g hg
      obtain ⟨p, hp, rfl⟩ := List.mem_map.mp (hperm.subset hg)
      rw [SortedMap.mem_toList.mp hp]
      rfl
    have hn : ids.Nodup := hperm.nodup_iff.mpr (SortedMap.nodup_keys _)
    have hlength : ids.length = s.members.size := by
      rw [hperm.length_eq, List.length_map, TreeMap.length_toList]
    have hsize : ((ids.take (s.members.size - opts.capacity)).foldl Assigner.forgetMembers s).members.size ≤
        s.members.size - (ids.take (s.members.size - opts.capacity)).length := size_le_sub
      (hn.sublist (List.take_sublist _ _)) (fun g hg => hids g (List.mem_of_mem_take hg))
      (fun g hg => by
        rw [← Option.not_isSome_iff_eq_none, hc.members_iff]
        exact hgone g hg)
      (fun g hg => by
        rw [hc.members_iff] at hg
        rw [h.members_iff]
        exact hshrinks.owning hg)
    rw [List.length_take] at hsize
    exact ⟨by omega, hshrinks⟩
  · exact ⟨by omega, Shrinks.refl s⟩

theorem Consistent.evict_bounded (h : s.Consistent) (opts : Options) :
    Bounded opts (s.evict opts) ∧ Shrinks s (s.evict opts) := by
  have hstale : (evictStale opts s).Consistent := h.forgetAll _
  have hstaleShrinks : Shrinks s (evictStale opts s) := (h.forgets _).shrinks
  obtain ⟨htracks, htracksShrinks⟩ := hstale.tracks_bounded opts
  obtain ⟨hids, hidsShrinks⟩ := (hstale.evictTracks opts).identities_bounded opts
  refine ⟨⟨hids, hidsShrinks.tracks.trans htracks, fun k seen hk => ?_⟩,
    hstaleShrinks.trans (htracksShrinks.trans hidsShrinks)⟩
  have hlate := htracksShrinks.trans hidsShrinks
  have hstep : (s.evict opts).step = (evictStale opts s).step := hlate.step
  rw [hstep]
  exact h.stale_gone opts k seen (hlate.lastSeen k seen hk)

/-! ## Calls -/

/-- What a call leaves: no id but those it found owning tracks and those it issued; and if it
was not refused, the maps within their bounds, and an id for every observation. -/
structure Gives (opts : Options) (s : Assigner Camera α) (observations : List (IdentityObservation Camera α))
    (t : Assigner Camera α) (reply : TreeMap (TrackKey Camera) Nat) : Prop where
  bounded : Bounded opts t
  counter : s.counter ≤ t.counter
  owning : ∀ g ∈ t.owning, g ∈ s.owning ∨ s.counter ≤ g
  answered : ∀ o ∈ observations, ∃ g, reply[o.key]? = some g
  told : ∀ (k : TrackKey Camera) (g : Nat), reply[k]? = some g → g < t.counter ∧ (g ∈ s.owning ∨ s.counter ≤ g)

theorem Consistent.gives (h : s.Consistent) (ar : Cosine α σ) (opts : Options)
    {os : List (IdentityObservation Camera α)} (hn : (os.map IdentityObservation.key).Nodup) (labels : List Int) :
    (∃ r, s.assign ar opts os labels = (s, .error r) ∧
      (labels.length ≠ os.length ∨ checkEmbeddings ar s.width os = .error r)) ∨
      ∃ t reply, s.assign ar opts os labels = (t, .ok reply) ∧ Gives opts s os t reply := by
  rcases h.assigned ar opts hn labels with hrefused | ⟨t, u, hcounter, howner, hgroups, hlinked, hconsistent, hassign⟩
  · exact .inl hrefused
  · have hwithin : Within s.owning s.counter t :=
      ⟨hcounter.ge, fun k g hk => .inl ⟨k, by rw [← howner]; exact hk⟩⟩
    have htold : Told s.owning s.counter (u.1, (∅ : TreeMap (TrackKey Camera) Nat)) :=
      ⟨hwithin.assignGroups hgroups, hlinked, fun k g hk => by simp at hk⟩
    obtain ⟨hend, hkeys, -⟩ := htold.answers os
    obtain ⟨hbounded, hshrinks⟩ := hconsistent.evict_bounded opts
    refine .inr ⟨_, _, hassign, hbounded, ?_, fun g hg => ?_, fun o ho => Option.isSome_iff_exists.mp (hkeys o ho),
      fun k g hk => ?_⟩
    · rw [hshrinks.counter]
      exact hend.within.counter
    · obtain ⟨k, hk⟩ := hshrinks.owning hg
      exact hend.within.ids k g hk
    · rw [hshrinks.counter]
      exact hend.told k g hk

/-- Gone: issued, and no identity any more. -/
def Gone (s : Assigner Camera α) (g : Nat) : Prop := g < s.counter ∧ s.members[g]? = none

/-- The ids of a reply. -/
def Names (reply : Except (Refusal Camera) (TreeMap (TrackKey Camera) Nat)) (g : Nat) : Prop :=
  ∃ ids, reply = .ok ids ∧ ∃ k : TrackKey Camera, ids[k]? = some g

theorem Consistent.stays_gone (h : s.Consistent) (ar : Cosine α σ) (opts : Options) (i : Input Camera α) {g : Nat}
    (hg : s.Gone g) : (s.call ar opts i).1.Gone g ∧ ¬ Names (s.call ar opts i).2 g := by
  have howning : g ∉ s.owning := by
    rw [← h.members_iff, hg.2]
    simp
  cases i with
  | reset =>
    refine ⟨⟨hg.1, by simp [Assigner.call, reset]⟩, ?_⟩
    rintro ⟨ids, hids, k, hk⟩
    cases hids
    simp at hk
  | assign instant =>
    have hnext := h.call ar opts (.assign instant)
    rcases h.gives ar opts instant.distinct instant.labels with ⟨r, hr, -⟩ | ⟨t, reply, ht, hgives⟩
    · rw [Assigner.call, hr]
      refine ⟨hg, ?_⟩
      rintro ⟨ids, hids, -⟩
      cases hids
    · rw [Assigner.call, ht] at hnext ⊢
      have hout : ∀ g', (g' ∈ s.owning ∨ s.counter ≤ g') → g' ≠ g := by
        rintro g' (hin | hlate) rfl
        · exact howning hin
        · exact absurd hg.1 (Nat.not_lt.mpr hlate)
      refine ⟨⟨lt_of_lt_of_le hg.1 hgives.counter, ?_⟩, ?_⟩
      · rw [← Option.not_isSome_iff_eq_none, hnext.members_iff]
        exact fun hin => hout g (hgives.owning g hin) rfl
      · rintro ⟨ids, hids, k, hk⟩
        cases hids
        exact hout g (hgives.told k g hk).2 rfl

theorem Consistent.call_bounded (h : s.Consistent) (ar : Cosine α σ) {opts : Options} (hb : Bounded opts s)
    (i : Input Camera α) : Bounded opts (s.call ar opts i).1 := by
  cases i with
  | reset => exact ⟨Nat.zero_le _, Nat.zero_le _, fun k seen hk => by simp [Assigner.call, reset] at hk⟩
  | assign instant =>
    rcases h.gives ar opts instant.distinct instant.labels with ⟨r, hr, -⟩ | ⟨t, reply, ht, hgives⟩
    · rw [Assigner.call, hr]
      exact hb
    · rw [Assigner.call, ht]
      exact hgives.bounded

theorem reachable_bounded {ar : Cosine α σ} {opts : Options} (h : (assigner ar opts).Reachable s) :
    s.Consistent ∧ Bounded opts s := by
  refine h.invariant (I := fun s => s.Consistent ∧ Bounded opts s) (fun s hs => ?_) fun s l t hs hst => ?_
  · rw [show s = {} from hs]
    exact ⟨consistent_empty, Nat.zero_le _, Nat.zero_le _, fun k seen hk => by simp at hk⟩
  · rw [show t = (s.call ar opts l.1).1 from (congrArg Prod.fst hst).symm]
    exact ⟨hs.1.call ar opts l.1, hs.1.call_bounded ar hs.2 l.1⟩

/-- **Ids and bounds.** At any point of a sequence of calls the maps are within their bounds. The
next instant is refused as it stands and changes nothing, or every observation gets an id below the
counter, and the maps are within their bounds again, whatever the instant put into them; and an id
that has gone by then is in no later identity or reply. -/
theorem ids_and_bounds {ar : Cosine α σ} {opts : Options} (h : (assigner ar opts).Reachable s) :
    Bounded opts s ∧
    (∀ instant : Instant Camera α,
      (∃ r, s.call ar opts (.assign instant) = (s, .error r) ∧
        (instant.labels.length ≠ instant.observations.length ∨
          checkEmbeddings ar s.width instant.observations = .error r)) ∨
      ∃ t reply, s.call ar opts (.assign instant) = (t, .ok reply) ∧
        (∀ o ∈ instant.observations, ∃ g, reply[o.key]? = some g ∧ g < t.counter) ∧ Bounded opts t) ∧
    ∀ g, s.Gone g → ∀ inputs : List (Input Camera α),
      (Machine.exec (Assigner.call ar opts) s inputs).1.Gone g ∧
        ∀ reply ∈ (Machine.exec (Assigner.call ar opts) s inputs).2, ¬ Names reply g := by
  obtain ⟨hs, hb⟩ := reachable_bounded h
  refine ⟨hb, ?_, ?_⟩
  · intro instant
    refine (hs.gives ar opts instant.distinct instant.labels).imp_right ?_
    rintro ⟨t, reply, ht, hgives⟩
    refine ⟨t, reply, ht, fun o ho => ?_, hgives.bounded⟩
    obtain ⟨g, hg⟩ := hgives.answered o ho
    exact ⟨g, hg, (hgives.told o.key g hg).1⟩
  · intro g hg inputs
    have hrun : (Machine.exec (Assigner.call ar opts) s inputs).1.Consistent ∧
        (Machine.exec (Assigner.call ar opts) s inputs).1.Gone g ∧
          ∀ reply ∈ (Machine.exec (Assigner.call ar opts) s inputs).2, ¬ Names reply g := by
      refine Machine.exec_induction
        (I := fun replies (t : Assigner Camera α) => t.Consistent ∧ t.Gone g ∧ ∀ reply ∈ replies, ¬ Names reply g)
        ⟨hs, hg, fun _ hr => (List.not_mem_nil hr).elim⟩ (fun replies t i ht => ?_) inputs
      obtain ⟨hgone, hquiet⟩ := ht.1.stays_gone ar opts i ht.2.1
      refine ⟨ht.1.call ar opts i, hgone, fun reply hr => ?_⟩
      rcases List.mem_append.mp hr with hr | hr
      · exact ht.2.2 reply hr
      · rw [List.mem_singleton.mp hr]
        exact hquiet
    exact hrun.2

theorem harbour_ids_and_bounds : Bounded harbourOptions harbour ∧
    (∀ instant : Instant Nat Int,
      (∃ r, harbour.call axisCosine harbourOptions (.assign instant) = (harbour, .error r) ∧
        (instant.labels.length ≠ instant.observations.length ∨
          checkEmbeddings axisCosine harbour.width instant.observations = .error r)) ∨
      ∃ t reply, harbour.call axisCosine harbourOptions (.assign instant) = (t, .ok reply) ∧
        (∀ o ∈ instant.observations, ∃ g, reply[o.key]? = some g ∧ g < t.counter) ∧ Bounded harbourOptions t) ∧
    ∀ g, harbour.Gone g → ∀ inputs : List (Input Nat Int),
      (Machine.exec (Assigner.call axisCosine harbourOptions) harbour inputs).1.Gone g ∧
        ∀ reply ∈ (Machine.exec (Assigner.call axisCosine harbourOptions) harbour inputs).2, ¬ Names reply g :=
  ids_and_bounds (Machine.reachable_exec harbourScript (.init rfl))

end ShipInfer.Identity.Assigner
