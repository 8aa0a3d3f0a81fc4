import ShipInfer.Identity.Assign

/-!
# What a call throws

An instant may give a key twice, and then the maps of owners and members part. The tables of the
tracks stay as they have to be even so (`Kept`): what the groups look up they find, and all
features are of one width. So the embeddings and the labels are refused before anything moves,
and nothing is thrown after that but what `validate` finds.
-/

namespace ShipInfer.Identity

/-- A call with any observations, one key twice or not. -/
inductive AnyInput (Camera α : Type)
  | assign (observations : List (IdentityObservation Camera α)) (labels : List Int)
  | reset

variable {Camera α σ : Type} [LinearOrder Camera]

def Assigner.callAny (ar : Cosine α σ) (opts : Options) (s : Assigner Camera α) :
    AnyInput Camera α → Assigner Camera α × Except (Refusal Camera) (Std.TreeMap (TrackKey Camera) Nat)
  | .assign observations labels => s.assign ar opts observations labels
  | .reset => (s.reset, .ok ∅)

/-- The assigner under any sequence of calls, whatever they observe. -/
def anyAssigner (ar : Cosine α σ) (opts : Options) :
    Machine (Assigner Camera α) (AnyInput Camera α × Except (Refusal Camera) (Std.TreeMap (TrackKey Camera) Nat)) :=
  .ofFn (fun s => s = {}) (Assigner.callAny ar opts)

namespace Assigner

open Std (TreeMap)

variable {s t : Assigner Camera α} {observed : List (TrackKey Camera)}

/-- A track with a last sighting has a feature, the features are of one width, and what was
observed has just been seen. -/
structure Kept (observed : List (TrackKey Camera)) (w : Nat) (s : Assigner Camera α) : Prop where
  width : s.width = w
  widths : ∀ (k : TrackKey Camera) (f : List α), s.features[k]? = some f → f.length = w
  wide : ∀ k : TrackKey Camera, (s.features[k]?).isSome = true → 0 < w
  recorded : ∀ k : TrackKey Camera, (s.lastSeen[k]?).isSome = true → (s.features[k]?).isSome = true
  seen : ∀ k ∈ observed, s.lastSeen[k]? = some s.step

variable {width : Nat}

/-- Only owners, members and the counter differ. -/
structure Unrecorded (s t : Assigner Camera α) : Prop where
  width : t.width = s.width
  step : t.step = s.step
  features : t.features = s.features
  lastSeen : t.lastSeen = s.lastSeen

theorem Unrecorded.trans {u : Assigner Camera α} (h : Unrecorded s t) (h' : Unrecorded t u) : Unrecorded s u :=
  ⟨h'.width.trans h.width, h'.step.trans h.step, h'.features.trans h.features, h'.lastSeen.trans h.lastSeen⟩

theorem unrecorded_issue : Unrecorded s s.issue.2 := ⟨rfl, rfl, rfl, rfl⟩

theorem unrecorded_adopt (key : TrackKey Camera) (g : Nat) : Unrecorded s (s.adopt key g) := ⟨rfl, rfl, rfl, rfl⟩

theorem unrecorded_move (key : TrackKey Camera) (source destination : Nat) :
    Unrecorded s (s.move key source destination) := by
  unfold move
  split
  · exact ⟨rfl, rfl, rfl, rfl⟩
  · rw [detach_eq]
    exact ⟨rfl, rfl, rfl, rfl⟩

theorem unrecorded_place (key : TrackKey Camera) (target : Nat) (owner : Option Nat) :
    Unrecorded s (s.place key target owner) := by
  cases owner with
  | none => exact unrecorded_adopt key target
  | some owner => exact unrecorded_move key owner target

theorem unrecorded_moveOut (target : Nat) (key : TrackKey Camera) : Unrecorded s (moveOut target s key) := by
  unfold moveOut
  split
  · exact unrecorded_issue.trans (unrecorded_move key target _)
  · exact ⟨rfl, rfl, rfl, rfl⟩

theorem unrecorded_adoptFresh {target : Nat} : ∀ (keys : List (TrackKey Camera)) {s : Assigner Camera α}
    {claimed : List Camera}, Unrecorded s (adoptFresh target s claimed keys)
  | [], _, _ => ⟨rfl, rfl, rfl, rfl⟩
  | key :: keys, s, claimed => by
    unfold adoptFresh
    split
    · exact (unrecorded_issue.trans (unrecorded_adopt key _)).trans (unrecorded_adoptFresh keys)
    · exact (unrecorded_adopt key target).trans (unrecorded_adoptFresh keys)

theorem Unrecorded.kept (h : Unrecorded s t) (hs : Kept observed width s) : Kept observed width t where
  width := h.width.trans hs.width
  widths := by rw [h.features]; exact hs.widths
  wide := by rw [h.features]; exact hs.wide
  recorded := by rw [h.features, h.lastSeen]; exact hs.recorded
  seen := by rw [h.lastSeen, h.step]; exact hs.seen

theorem forget_numbers (key : TrackKey Camera) : (s.forget key).width = s.width ∧ (s.forget key).step = s.step := by
  unfold forget
  dsimp only
  split
  · exact ⟨rfl, rfl⟩
  · rw [detach_eq]
    exact ⟨rfl, rfl⟩

theorem Kept.forget (h : Kept observed width s) {key : TrackKey Camera} (hk : key ∉ observed) :
    Kept observed width (s.forget key) := by
  obtain ⟨hf, -, hl⟩ := tables_forget (s := s) key
  obtain ⟨hw, hstep⟩ := forget_numbers (s := s) key
  refine ⟨hw.trans h.width, fun k f hkf => ?_, fun k hkf => ?_, fun k hkl => ?_, fun k ho => ?_⟩
  · rw [hf, SortedMap.getElem?_erase] at hkf
    split at hkf
    · cases hkf
    · exact h.widths k f hkf
  · rw [hf, SortedMap.getElem?_erase] at hkf
    split at hkf
    · cases hkf
    · exact h.wide k hkf
  · rw [hl, SortedMap.getElem?_erase] at hkl
    rw [hf, SortedMap.getElem?_erase]
    split at hkl
    · cases hkl
    · rename_i hne
      rw [if_neg hne]
      exact h.recorded k hkl
  · have hne : k ≠ key := fun he => hk (he ▸ ho)
    rw [hl, SortedMap.getElem?_erase, if_neg hne, hstep]
    exact h.seen k ho

theorem Kept.feature (h : Kept observed width s) {key : TrackKey Camera} (hk : key ∈ observed) :
    ∃ f, s.features[key]? = some f ∧ f.length = width := by
  obtain ⟨f, hf⟩ := Option.isSome_iff_exists.mp (h.recorded key (by rw [h.seen key hk]; rfl))
  exact ⟨f, hf, h.widths key f hf⟩

theorem Kept.featuresOf (h : Kept observed width s) (keys : List (TrackKey Camera)) :
    ∀ f ∈ s.featuresOf keys, f.length = width := by
  intro f hf
  obtain ⟨k, -, hk⟩ := List.mem_filterMap.mp hf
  exact h.widths k f hk

/-! ## The groups throw nothing -/

theorem Kept.resolve (ar : Cosine α σ) (h : Kept observed width s) {key : TrackKey Camera} (hk : key ∈ observed)
    (owner target : Nat) {overlap : List (List α)} (hov : ∀ f ∈ overlap, f.length = width) :
    ∃ t, s.resolveBetweenIdentities ar key owner target overlap = .ok t ∧ Kept observed width t := by
  obtain ⟨mine, hmine, hw⟩ := h.feature hk
  obtain ⟨there, hthere⟩ := similarity_ok Camera ar hw hov true
  obtain ⟨here, hhere⟩ := similarity_ok Camera ar hw
    (h.featuresOf ((s.memberList owner).filter fun member => decide (member ≠ key))) true
  unfold resolveBetweenIdentities
  simp only [hmine, hthere, hhere]
  split
  · exact ⟨_, rfl, (unrecorded_move key owner target).kept h⟩
  · exact ⟨s, rfl, h⟩

theorem Kept.contest (ar : Cosine α σ) (h : Kept observed width s) {key incumbent : TrackKey Camera}
    (hk : key ∈ observed) (hi : (s.lastSeen[incumbent]?).isSome = true) (target : Nat) {overlap : List (List α)}
    (hov : ∀ f ∈ overlap, f.length = width) (displaced : List (TrackKey Camera)) :
    ∃ acc, contest ar target overlap s displaced key incumbent = .ok acc ∧ Kept observed width acc.1 := by
  obtain ⟨mine, hmine, hw⟩ := h.feature hk
  obtain ⟨held, hheld⟩ := Option.isSome_iff_exists.mp (h.recorded incumbent hi)
  obtain ⟨x, hx⟩ := similarity_ok Camera ar (h.widths incumbent held hheld) hov false
  obtain ⟨y, hy⟩ := similarity_ok Camera ar hw hov false
  unfold Assigner.contest
  simp only [hmine, hheld, hx, hy]
  split
  · exact ⟨_, rfl, (unrecorded_place key target _).kept h⟩
  · split
    · exact ⟨_, rfl, (unrecorded_issue.trans (unrecorded_adopt key _)).kept h⟩
    · exact ⟨_, rfl, h⟩

theorem Kept.settle (ar : Cosine α σ) (acc : Assigner Camera α × List (TrackKey Camera))
    (h : Kept observed width acc.1) {key : TrackKey Camera} (hk : key ∈ observed) (target : Nat)
    {overlap : List (List α)} (hov : ∀ f ∈ overlap, f.length = width) :
    ∃ acc', settle ar target overlap acc key = .ok acc' ∧ Kept observed width acc'.1 := by
  obtain ⟨s, displaced⟩ := acc
  unfold Assigner.settle
  dsimp only
  cases s.memberFromCamera target key.cameraId displaced with
  | none =>
    dsimp only
    cases s.ownerOf key with
    | none => exact ⟨_, rfl, (unrecorded_adopt key target).kept h⟩
    | some owner =>
      dsimp only
      split
      · obtain ⟨t, ht, hkept⟩ := Kept.resolve ar h hk owner target hov
        rw [ht]
        exact ⟨_, rfl, hkept⟩
      · exact ⟨_, rfl, h⟩
  | some incumbent =>
    dsimp only
    -- a track nobody has seen at this instant was not observed, and may be forgotten
    have hforgotten : s.lastSeen[incumbent]? ≠ some s.step →
        Kept observed width ((s.forget incumbent).place key target (s.ownerOf key)) := by
      intro hne
      exact (unrecorded_place key target _).kept (Kept.forget h fun ho => hne (h.seen incumbent ho))
    cases hseen : s.lastSeen[incumbent]? with
    | none =>
      rw [hseen] at hforgotten
      exact ⟨_, rfl, hforgotten (by simp)⟩
    | some seen =>
      rw [hseen] at hforgotten
      dsimp only
      by_cases hstale : seen < s.step
      · rw [if_pos (decide_eq_true hstale)]
        exact ⟨_, rfl, hforgotten fun he => absurd (Option.some.inj he) (ne_of_lt hstale)⟩
      · rw [if_neg (by rw [decide_eq_true_eq]; exact hstale)]
        exact Kept.contest ar h hk (by rw [hseen]; rfl) target hov displaced

theorem Kept.assignGroup (ar : Cosine α σ) {acc : Assigner Camera α × Finset Nat} (h : Kept observed width acc.1)
    {keys : List (TrackKey Camera)} (hk : keys ⊆ observed) :
    ∃ acc', assignGroup ar acc keys = .ok acc' ∧ Kept observed width acc'.1 := by
  obtain ⟨s, matched⟩ := acc
  unfold Assigner.assignGroup
  dsimp only
  cases s.candidateIds keys matched with
  | nil =>
    dsimp only
    split
    · exact ⟨_, rfl, h⟩
    · exact ⟨_, rfl, (unrecorded_issue.trans (unrecorded_adoptFresh _)).kept h⟩
  | cons front rest =>
    dsimp only
    generalize s.selectByOldest front (front :: rest) = target
    have hov := Kept.featuresOf h (keys.filter fun key => decide (key ∈ s.memberList target))
    obtain ⟨⟨s', displaced⟩, hfold, hs'⟩ := foldlM_ok (I := fun acc => Kept observed width acc.1)
      (l := keys.filter fun key => decide (key ∉ s.memberList target))
      (f := Assigner.settle ar target (s.featuresOf (keys.filter fun key => decide (key ∈ s.memberList target))))
      (fun acc key hm hacc => Kept.settle ar acc hacc (hk (List.mem_of_mem_filter hm)) target hov)
      (show Kept observed width (s, ([] : List (TrackKey Camera))).1 from h)
    rw [hfold]
    refine ⟨_, rfl, ?_⟩
    exact foldl_keeps (I := Kept observed width) (fun _ _ _ hs => (unrecorded_moveOut target _).kept hs) hs'

theorem Kept.assignGroups (ar : Cosine α σ) {os : List (IdentityObservation Camera α)} (labels : List Int)
    (h : Kept (os.map IdentityObservation.key) width s) :
    ∃ acc, assignGroups ar s os labels = .ok acc ∧ Kept (os.map IdentityObservation.key) width acc.1 := by
  refine foldlM_ok (I := fun acc : Assigner Camera α × Finset Nat => Kept (os.map IdentityObservation.key) width acc.1)
    (fun acc keys hkeys hacc => ?_) h
  obtain ⟨group, -, rfl⟩ := List.mem_map.mp hkeys
  exact Kept.assignGroup ar hacc (keysAt_subset os group)

/-! ## The rest of the call -/

theorem Kept.observe (ar : Cosine α σ) : ∀ (os : List (IdentityObservation Camera α)) {s : Assigner Camera α}
    {observed : List (TrackKey Camera)}, Kept observed width s →
    (∀ o ∈ os, o.embedding.length = width ∧ ar.positive o.embedding = true ∧ 0 < width) →
    ∃ t, observe ar s os = .ok t ∧ Kept (observed ++ os.map IdentityObservation.key) width t
  | [], s, observed, h, _ => ⟨s, rfl, by rw [List.map_nil, List.append_nil]; exact h⟩
  | o :: os, s, observed, h, hos => by
    obtain ⟨hlen, hp, hpos⟩ := hos o List.mem_cons_self
    obtain ⟨u, hu, hkept⟩ : ∃ u, observeOne ar s o = .ok u ∧ Kept (observed ++ [o.key]) width u := by
      unfold observeOne normalised
      rw [hp]
      refine ⟨_, rfl, h.width, fun k f hf => ?_, fun _ _ => hpos, fun k hk => ?_, fun k hk => ?_⟩
      · dsimp only at hf
        rw [SortedMap.getElem?_insert] at hf
        split at hf
        · cases hf
          rw [List.length_map]
          exact hlen
        · exact h.widths k f hf
      · dsimp only at hk ⊢
        rw [SortedMap.getElem?_insert] at hk ⊢
        by_cases hkey : k = o.key
        · rw [if_pos hkey]
          rfl
        · rw [if_neg hkey] at hk ⊢
          exact h.recorded k hk
      · dsimp only
        rw [SortedMap.getElem?_insert]
        split
        · rfl
        · rename_i hne
          exact h.seen k ((List.mem_append.mp hk).resolve_right fun hm => hne (List.mem_singleton.mp hm))
    obtain ⟨t, ht, hkept'⟩ := Kept.observe ar os hkept fun o' ho' => hos o' (List.mem_cons_of_mem _ ho')
    refine ⟨t, ?_, ?_⟩
    · unfold Assigner.observe at ht ⊢
      rw [List.foldlM_cons, hu]
      exact ht
    · rw [List.map_cons, List.append_cons]
      exact hkept'

theorem Kept.answer {acc : Assigner Camera α × TreeMap (TrackKey Camera) Nat} (h : Kept observed width acc.1)
    (o : IdentityObservation Camera α) : Kept observed width (Assigner.answer acc o).1 := by
  unfold Assigner.answer
  split
  · exact (unrecorded_issue.trans (unrecorded_adopt o.key _)).kept h
  · exact h

theorem Kept.forgetAll (h : Kept [] width s) (keys : List (TrackKey Camera)) : Kept [] width (s.forgetAll keys) :=
  foldl_keeps (I := Kept [] width) (fun _ _ _ hs => Kept.forget hs List.not_mem_nil) h

theorem Kept.evict (h : Kept [] width s) (opts : Options) : Kept [] width (s.evict opts) := by
  have htracks : Kept [] width (evictTracks opts (evictStale opts s)) := by
    unfold evictTracks
    split
    · exact (h.forgetAll _).forgetAll _
    · exact h.forgetAll _
  unfold Assigner.evict evictIdentities
  split
  · exact foldl_keeps (I := Kept [] width) (fun s g _ hs => hs.forgetAll (s.memberList g)) htracks
  · exact htracks

theorem Kept.forgotten (h : Kept observed width s) : Kept [] width s :=
  ⟨h.width, h.widths, h.wide, h.recorded, fun _ hk => by cases hk⟩

/-- A call is refused before anything moves; or goes through; or goes through and is then found
by `validate` to have parted the maps. -/
theorem Kept.assign (h : Kept [] width s) (ar : Cosine α σ) (opts : Options) (os : List (IdentityObservation Camera α))
    (labels : List Int) :
    (∃ r, s.assign ar opts os labels = (s, .error r)) ∨
      ∃ t w, Kept [] w t ∧ ((∃ reply, s.assign ar opts os labels = (t, .ok reply)) ∨
        ∃ r, s.assign ar opts os labels = (t, .error r) ∧ opts.validateEveryStep = true ∧ t.validate = .error r) := by
  unfold Assigner.assign
  by_cases hl : labels.length ≠ os.length
  · exact .inl ⟨_, if_pos hl⟩
  rw [if_neg hl]
  cases hc : checkEmbeddings ar s.width os with
  | error r => exact .inl ⟨r, rfl⟩
  | ok w =>
    obtain ⟨hsame, hos⟩ := checkEmbeddings_ok hc
    have hw : ∀ k : TrackKey Camera, (s.features[k]?).isSome = true → w = width := fun k hk =>
      (hsame (by rw [h.width]; exact h.wide k hk)).trans h.width
    have hstart : Kept [] w { s with width := w, step := s.step + 1 } := by
      refine ⟨rfl, fun k f hf => ?_, fun k hk => ?_, h.recorded, fun _ hk => by cases hk⟩
      · rw [hw k (by rw [show s.features[k]? = some f from hf]; rfl)]
        exact h.widths k f hf
      · rw [hw k hk]
        exact h.wide k hk
    obtain ⟨t, ht, hkept⟩ := Kept.observe ar os hstart hos
    rw [List.nil_append] at hkept
    obtain ⟨⟨u, matched⟩, hu, hgroups⟩ := Kept.assignGroups ar labels hkept
    have hanswer : Kept (os.map IdentityObservation.key) w (os.foldl Assigner.answer (u, ∅)).1 :=
      foldl_keeps (I := fun acc : Assigner Camera α × TreeMap (TrackKey Camera) Nat =>
        Kept (os.map IdentityObservation.key) w acc.1) (fun acc o _ hacc => hacc.answer o) hgroups
    refine .inr ⟨_, w, hanswer.forgotten.evict opts, ?_⟩
    simp only [ht, hu]
    by_cases hv : opts.validateEveryStep = true
    · rw [if_pos hv]
      cases hval : ((os.foldl Assigner.answer (u, ∅)).1.evict opts).validate with
      | error r => exact .inr ⟨r, rfl, hv, rfl⟩
      | ok _ => exact .inl ⟨_, rfl⟩
    · rw [if_neg hv]
      exact .inl ⟨_, rfl⟩

theorem kept_empty {counter step width : Nat} :
    Kept [] width ({ counter := counter, step := step, width := width } : Assigner Camera α) :=
  ⟨rfl, fun _ _ hf => by simp at hf, fun _ hf => by simp at hf, fun _ hl => by simp at hl, fun _ hk => by cases hk⟩

theorem reachable_kept {ar : Cosine α σ} {opts : Options} (h : (anyAssigner ar opts).Reachable s) :
    ∃ width, Kept [] width s := by
  refine h.invariant (I := fun s => ∃ width, Kept [] width s) (fun s hs => ?_) fun s l t hs hst => ?_
  · rw [show s = {} from hs]
    exact ⟨0, kept_empty⟩
  · rw [show t = (s.callAny ar opts l.1).1 from (congrArg Prod.fst hst).symm]
    obtain ⟨width, hs⟩ := hs
    cases l.1 with
    | reset => exact ⟨s.width, kept_empty⟩
    | assign os labels =>
      show ∃ width, Kept [] width (s.assign ar opts os labels).1
      rcases hs.assign ar opts os labels with ⟨r, hr⟩ | ⟨u, w, hu, ⟨reply, hr⟩ | ⟨r, hr, -⟩⟩
      · rw [hr]
        exact ⟨width, hs⟩
      · rw [hr]
        exact ⟨w, hu⟩
      · rw [hr]
        exact ⟨w, hu⟩

/-! ## Refusals -/

/-- What cannot be read: labels for others, or an embedding that is empty, without a direction,
or of another width than the space's or another's. -/
def Unfit (ar : Cosine α σ) (s : Assigner Camera α) (os : List (IdentityObservation Camera α)) (labels : List Int) :
    Prop :=
  labels.length ≠ os.length ∨ ∃ o ∈ os, o.embedding = [] ∨ ar.positive o.embedding = false ∨
    (0 < s.width ∧ o.embedding.length ≠ s.width) ∨ ∃ o' ∈ os, o'.embedding.length ≠ o.embedding.length

theorem Unfit.refused {ar : Cosine α σ} {os : List (IdentityObservation Camera α)} {labels : List Int}
    (h : Unfit ar s os labels) (opts : Options) : ∃ r, s.assign ar opts os labels = (s, .error r) := by
  unfold Assigner.assign
  by_cases hl : labels.length ≠ os.length
  · exact ⟨_, if_pos hl⟩
  rw [if_neg hl]
  cases hc : checkEmbeddings ar s.width os with
  | error r => exact ⟨r, rfl⟩
  | ok w =>
    exfalso
    obtain ⟨hsame, hos⟩ := checkEmbeddings_ok hc
    rcases h with h | ⟨o, ho, hempty | hzero | ⟨hpos, hwidth⟩ | ⟨o', ho', hmixed⟩⟩
    · exact hl h
    · obtain ⟨hlen, -, hw⟩ := hos o ho
      rw [hempty, List.length_nil] at hlen
      omega
    · rw [(hos o ho).2.1] at hzero
      cases hzero
    · exact hwidth ((hos o ho).1.trans (hsame hpos))
    · exact hmixed ((hos o' ho').1.trans (hos o ho).1.symm)

/-- One track in two rows. -/
def twoRows : List (IdentityObservation Nat Int) := [⟨⟨0, 1⟩, [1]⟩, ⟨⟨0, 1⟩, [1]⟩]

end Assigner

end ShipInfer.Identity
