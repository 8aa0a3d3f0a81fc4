import Mathlib.Data.List.Basic
import ShipInfer.Lib.Fold
import ShipInfer.Identity.Model

/-!
# The five maps agree

Whatever the clusters and the similarities say, a track is moved by one kind of
write: its owner is replaced, and with it the member lists (`Reassigned`). The
maps stay inverse at every one of these; what a group may break until its
deferred pass is the rule of one track per camera, and only among the tracks it
has displaced (`OneEach`).
-/

namespace ShipInfer.Identity.Assigner

open Std (TreeMap)

variable {Camera α σ : Type} [LinearOrder Camera]

/-- Owners and members are inverse, no identity is empty or lists a track twice,
and every identity has been issued. -/
structure Linked (s : Assigner Camera α) : Prop where
  inverse : ∀ (k : TrackKey Camera) (g : Nat), s.owner[k]? = some g ↔ k ∈ s.memberList g
  nonempty : ∀ g : Nat, s.members[g]? ≠ some []
  nodup : ∀ g : Nat, (s.memberList g).Nodup
  issued : ∀ g : Nat, s.counter ≤ g → s.members[g]? = none

/-- `t` is `s` with one track's owner replaced. -/
structure Reassigned (s t : Assigner Camera α) (key : TrackKey Camera) (new : Option Nat) : Prop where
  linked : t.Linked
  owner : ∀ k : TrackKey Camera, t.owner[k]? = if k = key then new else s.owner[k]?
  step : t.step = s.step
  width : t.width = s.width
  counter : s.counter ≤ t.counter

/-- The tables of the tracks are the same. -/
structure SameTables (s t : Assigner Camera α) : Prop where
  features : t.features = s.features
  hits : t.hits = s.hits
  lastSeen : t.lastSeen = s.lastSeen

section
variable {s : Assigner Camera α}

theorem Linked.lt_counter (h : s.Linked) {k : TrackKey Camera} {g : Nat} (hk : s.owner[k]? = some g) : g < s.counter := by
  by_contra hg
  have hm := (h.inverse k g).mp hk
  rw [memberList, h.issued g (by omega)] at hm
  cases hm

theorem Linked.unowned (h : s.Linked) {k : TrackKey Camera} (hk : s.owner[k]? = none) (g : Nat) :
    k ∉ s.memberList g := fun hm => by
  rw [(h.inverse k g).mpr hm] at hk; cases hk

/-! ## Writes to the owners and members -/

theorem memberList_adopt (key : TrackKey Camera) (g h : Nat) :
    (s.adopt key g).memberList h = if h = g then s.memberList g ++ [key] else s.memberList h := by
  simp only [memberList, adopt, SortedMap.getElem?_insert]
  split <;> rfl

theorem detach_eq (key : TrackKey Camera) (g : Nat) :
    s.detach key g = { s with members := (s.detach key g).members } := by
  unfold detach
  split
  · rfl
  · dsimp only; split <;> rfl

theorem members_detach (key : TrackKey Camera) (g h : Nat) :
    (s.detach key g).members[h]? =
      if h = g then (s.members[g]?.map (·.filter fun k => decide (k ≠ key))).filter (!·.isEmpty) else s.members[h]? := by
  unfold detach
  cases hm : s.members[g]? with
  | none =>
    by_cases hg : h = g
    · subst hg; rw [if_pos rfl]; exact hm
    · rw [if_neg hg]
  | some keys =>
    dsimp only
    by_cases he : (keys.filter fun k => decide (k ≠ key)).isEmpty = true
    · rw [if_pos he, SortedMap.getElem?_erase, Option.map_some, Option.filter_some, he]
      rfl
    · rw [if_neg he, SortedMap.getElem?_insert, Option.map_some, Option.filter_some,
        Bool.eq_false_of_not_eq_true he]
      rfl

theorem memberList_detach (key : TrackKey Camera) (g h : Nat) :
    (s.detach key g).memberList h =
      if h = g then (s.memberList g).filter (fun k => decide (k ≠ key)) else s.memberList h := by
  rw [memberList, members_detach]
  by_cases hg : h = g
  · rw [if_pos hg, if_pos hg, memberList]
    cases s.members[g]? with
    | none => rfl
    | some keys =>
      rw [Option.map_some, Option.filter_some, Option.getD_some]
      cases hk : keys.filter (fun k => decide (k ≠ key)) <;> rfl
  · rw [if_neg hg, if_neg hg]; rfl

theorem Linked.adopt (h : s.Linked) {key : TrackKey Camera} (hk : s.owner[key]? = none) {g : Nat}
    (hg : g < s.counter) : Reassigned s (s.adopt key g) key (some g) := by
  have hown : ∀ k : TrackKey Camera, (s.adopt key g).owner[k]? = if k = key then some g else s.owner[k]? :=
    SortedMap.getElem?_insert _ _ _
  refine ⟨⟨fun k g' => ?_, fun g' => ?_, fun g' => ?_, fun g' hg' => ?_⟩, hown, rfl, rfl, le_refl _⟩
  · rw [hown, memberList_adopt]
    by_cases hkk : k = key
    · subst hkk
      by_cases hgg : g' = g
      · simp [hgg]
      · simp [hgg, h.unowned hk g', Ne.symm hgg]
    · by_cases hgg : g' = g
      · subst hgg; simp [hkk, h.inverse k g']
      · simp [hkk, hgg, h.inverse k g']
  · show (s.members.insert g _)[g']? ≠ _
    rw [SortedMap.getElem?_insert]
    by_cases hgg : g' = g
    · simp [hgg]
    · rw [if_neg hgg]; exact h.nonempty g'
  · rw [memberList_adopt]
    by_cases hgg : g' = g
    · rw [if_pos hgg]
      exact List.nodup_append.mpr ⟨h.nodup g, List.nodup_singleton _, fun a ha b hb => by
        rw [List.mem_singleton.mp hb]; rintro rfl; exact h.unowned hk g ha⟩
    · rw [if_neg hgg]; exact h.nodup g'
  · show (s.members.insert g _)[g']? = none
    have hg' : s.counter ≤ g' := hg'
    rw [SortedMap.getElem?_insert, if_neg (by omega)]
    exact h.issued g' hg'

/-- Out of its identity and of the owners: half of a move, half of being forgotten. -/
theorem Linked.release (h : s.Linked) {key : TrackKey Camera} {g : Nat} (hk : s.owner[key]? = some g) :
    Reassigned s ({ s with owner := s.owner.erase key }.detach key g) key none := by
  have hown : ∀ k : TrackKey Camera, ({ s with owner := s.owner.erase key }.detach key g).owner[k]? =
      if k = key then none else s.owner[k]? := by
    rw [detach_eq]; exact SortedMap.getElem?_erase _ _
  have hml : ∀ g', ({ s with owner := s.owner.erase key }.detach key g).memberList g' =
      if g' = g then (s.memberList g).filter (fun k => decide (k ≠ key)) else s.memberList g' :=
    memberList_detach key g
  refine ⟨⟨fun k g' => ?_, fun g' => ?_, fun g' => ?_, fun g' hg' => ?_⟩, hown, ?_, ?_, ?_⟩
  · rw [hown, hml]
    by_cases hkk : k = key
    · subst hkk
      by_cases hgg : g' = g
      · simp [hgg]
      · have hne : k ∉ s.memberList g' := fun hm => by
          rw [← h.inverse, hk] at hm; exact hgg (Option.some.inj hm).symm
        simp [hgg, hne]
    · by_cases hgg : g' = g
      · subst hgg; simp [hkk, h.inverse k g']
      · simp [hkk, hgg, h.inverse k g']
  · rw [members_detach]
    by_cases hgg : g' = g
    · rw [if_pos hgg]
      intro he
      have := Option.filter_eq_some_iff.mp he
      simp at this
    · rw [if_neg hgg]; exact h.nonempty g'
  · rw [hml]
    by_cases hgg : g' = g
    · rw [if_pos hgg]; exact (h.nodup g).filter _
    · rw [if_neg hgg]; exact h.nodup g'
  · rw [detach_eq] at hg'
    rw [members_detach]
    by_cases hgg : g' = g
    · rw [if_pos hgg]
      have hn : s.members[g]? = none := h.issued g (hgg ▸ hg')
      show ((s.members[g]?).map _).filter _ = none
      rw [hn]; rfl
    · rw [if_neg hgg]; exact h.issued g' hg'
  · rw [detach_eq]
  · rw [detach_eq]
  · rw [detach_eq]

theorem Linked.congr {t : Assigner Camera α} (h : s.Linked) (hm : t.members = s.members)
    (ho : ∀ k : TrackKey Camera, t.owner[k]? = s.owner[k]?) (hc : t.counter = s.counter) : t.Linked := by
  have hml : t.memberList = s.memberList := by funext g; rw [memberList, hm]; rfl
  refine ⟨fun k g => ?_, fun g => ?_, fun g => ?_, fun g hg => ?_⟩
  · rw [ho, hml]; exact h.inverse k g
  · rw [hm]; exact h.nonempty g
  · rw [hml]; exact h.nodup g
  · rw [hm]; exact h.issued g (hc ▸ hg)

theorem Reassigned.trans_same {t u : Assigner Camera α} {key : TrackKey Camera} {a b : Option Nat}
    (hst : Reassigned s t key a) (htu : Reassigned t u key b) : Reassigned s u key b := by
  refine ⟨htu.linked, fun k => ?_, htu.step.trans hst.step, htu.width.trans hst.width, hst.counter.trans htu.counter⟩
  rw [htu.owner]
  by_cases hk : k = key
  · rw [if_pos hk, if_pos hk]
  · rw [if_neg hk, if_neg hk, hst.owner, if_neg hk]

/-- A counter that moves on changes no map. -/
theorem Linked.issue (h : s.Linked) : s.issue.2.Linked :=
  ⟨h.inverse, h.nonempty, h.nodup, fun g hg => h.issued g (Nat.le_of_succ_le hg)⟩

theorem Linked.move (h : s.Linked) {key : TrackKey Camera} {source destination : Nat}
    (hk : s.owner[key]? = some source) (hd : destination < s.counter) :
    Reassigned s (s.move key source destination) key (some destination) := by
  unfold Assigner.move
  by_cases hsd : source = destination
  · rw [if_pos hsd]
    refine ⟨h, fun k => ?_, rfl, rfl, le_refl _⟩
    by_cases hkk : k = key
    · rw [if_pos hkk, hkk, hk, hsd]
    · rw [if_neg hkk]
  · rw [if_neg hsd]
    have hr := h.release hk
    have hself : ({ s with owner := s.owner.erase key }.detach key source).owner[key]? = none := by
      rw [hr.owner, if_pos rfl]
    have hc : ({ s with owner := s.owner.erase key }.detach key source).counter = s.counter := by rw [detach_eq]
    have ha := hr.linked.adopt hself (hc ▸ hd)
    have hu := hr.trans_same ha
    have hmem : (s.detach key source).members = ({ s with owner := s.owner.erase key }.detach key source).members := by
      unfold detach
      dsimp only
      split
      · rfl
      · split <;> rfl
    have hown : ∀ k : TrackKey Camera, ((s.detach key source).adopt key destination).owner[k]? =
        if k = key then some destination else s.owner[k]? := by
      intro k
      rw [detach_eq]
      exact SortedMap.getElem?_insert _ _ _ k
    refine ⟨hu.linked.congr ?_ (fun k => ?_) ?_, hown, ?_, ?_, ?_⟩
    · simp only [Assigner.adopt, memberList, hmem]
    · rw [hown, hu.owner]
    · show (s.detach key source).counter = _
      rw [detach_eq]; exact hc.symm
    · show (s.detach key source).step = s.step
      rw [detach_eq]
    · show (s.detach key source).width = s.width
      rw [detach_eq]
    · show s.counter ≤ (s.detach key source).counter
      rw [detach_eq]

theorem Linked.place (h : s.Linked) (key : TrackKey Camera) {target : Nat} (ht : target < s.counter) :
    Reassigned s (s.place key target (s.ownerOf key)) key (some target) := by
  unfold Assigner.place ownerOf
  cases hk : s.owner[key]? with
  | none => exact h.adopt hk ht
  | some owner => exact h.move hk ht

theorem Linked.forget (h : s.Linked) (key : TrackKey Camera) : Reassigned s (s.forget key) key none := by
  unfold Assigner.forget
  cases hk : s.owner[key]? with
  | none =>
    refine ⟨⟨h.inverse, h.nonempty, h.nodup, h.issued⟩, fun k => ?_, rfl, rfl, le_refl _⟩
    by_cases hkk : k = key
    · rw [if_pos hkk, hkk]; exact hk
    · rw [if_neg hkk]
  | some g =>
    have hr := h.release hk
    exact ⟨⟨hr.linked.inverse, hr.linked.nonempty, hr.linked.nodup, hr.linked.issued⟩, hr.owner, hr.step, hr.width,
      hr.counter⟩

theorem sameTables_adopt (key : TrackKey Camera) (g : Nat) : SameTables s (s.adopt key g) := ⟨rfl, rfl, rfl⟩

theorem sameTables_move (key : TrackKey Camera) (source destination : Nat) :
    SameTables s (s.move key source destination) := by
  unfold move
  split
  · exact ⟨rfl, rfl, rfl⟩
  · rw [detach_eq]; exact ⟨rfl, rfl, rfl⟩

theorem sameTables_place (key : TrackKey Camera) (target : Nat) (owner : Option Nat) :
    SameTables s (s.place key target owner) := by
  cases owner with
  | none => exact sameTables_adopt key target
  | some owner => exact sameTables_move key owner target

/-! ## One track per camera -/

/-- No identity holds two tracks of one camera, among those not displaced from it. -/
def OneEach (s : Assigner Camera α) (g : Nat) (displaced : List (TrackKey Camera)) : Prop :=
  ∀ a b : TrackKey Camera, s.owner[a]? = some g → s.owner[b]? = some g → a ∉ displaced → b ∉ displaced →
    a.cameraId = b.cameraId → a = b

theorem OneEach.mono {g : Nat} {d d' : List (TrackKey Camera)} (h : OneEach s g d) (hd : d ⊆ d') : OneEach s g d' :=
  fun a b ha hb had hbd => h a b ha hb (fun hm => had (hd hm)) fun hm => hbd (hd hm)

/-- A reassigned track may come to an identity whose slot for its camera is free. -/
theorem Reassigned.oneEach {t : Assigner Camera α} {key : TrackKey Camera} {new : Option Nat} {g : Nat}
    {d : List (TrackKey Camera)} (hr : Reassigned s t key new) (h : OneEach s g d)
    (hfree : new = some g → ∀ a : TrackKey Camera, s.owner[a]? = some g → a ∉ d → a.cameraId = key.cameraId → a = key) :
    OneEach t g d := by
  intro a b ha hb had hbd hc
  rw [hr.owner] at ha hb
  by_cases hak : a = key <;> by_cases hbk : b = key
  · rw [hak, hbk]
  · rw [if_pos hak] at ha
    rw [if_neg hbk] at hb
    exact absurd (hfree ha b hb hbd (hc ▸ congrArg _ hak)) hbk
  · rw [if_neg hak] at ha
    rw [if_pos hbk] at hb
    exact absurd (hfree hb a ha had (hc.trans (congrArg _ hbk))) hak
  · rw [if_neg hak] at ha
    rw [if_neg hbk] at hb
    exact h a b ha hb had hbd hc

/-- The slot of a camera is free where the search for its holder finds nobody. -/
theorem Linked.free_of_none (h : s.Linked) {g : Nat} {key : TrackKey Camera} {d : List (TrackKey Camera)}
    (hn : s.memberFromCamera g key.cameraId d = none) (a : TrackKey Camera) (ha : s.owner[a]? = some g) (had : a ∉ d) :
    a.cameraId ≠ key.cameraId := by
  have := List.find?_eq_none.mp hn a ((h.inverse a g).mp ha)
  simp only [decide_eq_true_eq, not_and_or, not_not] at this
  exact this.resolve_right had

theorem Linked.holder (h : s.Linked) {g : Nat} {key incumbent : TrackKey Camera} {d : List (TrackKey Camera)}
    (hs : s.memberFromCamera g key.cameraId d = some incumbent) :
    s.owner[incumbent]? = some g ∧ incumbent.cameraId = key.cameraId ∧ incumbent ∉ d := by
  have hp := List.find?_some hs
  simp only [decide_eq_true_eq] at hp
  exact ⟨(h.inverse _ _).mpr (List.mem_of_find?_eq_some hs), hp⟩

/-! ## The tables, while an instant is assigned -/

/-- The tables of the tracks have the same keys, which are the owned tracks and
those observed at this instant; the observed ones have just been seen. -/
structure Recorded (s : Assigner Camera α) (observed : List (TrackKey Camera)) : Prop where
  hits : ∀ k : TrackKey Camera, (s.hits[k]?).isSome = (s.features[k]?).isSome
  lastSeen : ∀ k : TrackKey Camera, (s.lastSeen[k]?).isSome = (s.features[k]?).isSome
  owned : ∀ k : TrackKey Camera, (s.owner[k]?).isSome = true → (s.features[k]?).isSome = true
  kept : ∀ k : TrackKey Camera, (s.features[k]?).isSome = true → (s.owner[k]?).isSome = true ∨ k ∈ observed
  seen : ∀ k ∈ observed, (s.features[k]?).isSome = true ∧ s.lastSeen[k]? = some s.step
  widths : ∀ (k : TrackKey Camera) (f : List α), s.features[k]? = some f → f.length = s.width
  wide : ∀ k : TrackKey Camera, (s.features[k]?).isSome = true → 0 < s.width

structure During (s : Assigner Camera α) (observed : List (TrackKey Camera)) : Prop where
  linked : s.Linked
  recorded : s.Recorded observed

variable {observed : List (TrackKey Camera)}

theorem During.issue (h : s.During observed) : s.issue.2.During observed :=
  ⟨h.linked.issue, { h.recorded with }⟩

theorem During.reassign {t : Assigner Camera α} {key : TrackKey Camera} {g : Nat} (h : s.During observed)
    (hr : Reassigned s t key (some g)) (hs : SameTables s t) (hk : (s.features[key]?).isSome = true) :
    t.During observed := by
  refine ⟨hr.linked, ⟨fun k => ?_, fun k => ?_, fun k ho => ?_, fun k hf => ?_, fun k ho => ?_, fun k f hf => ?_,
    fun k hf => ?_⟩⟩
  · rw [hs.hits, hs.features]; exact h.recorded.hits k
  · rw [hs.lastSeen, hs.features]; exact h.recorded.lastSeen k
  · rw [hs.features]
    rw [hr.owner] at ho
    by_cases hkk : k = key
    · rw [hkk]; exact hk
    · rw [if_neg hkk] at ho; exact h.recorded.owned k ho
  · rw [hs.features] at hf
    rw [hr.owner]
    by_cases hkk : k = key
    · rw [if_pos hkk]; exact .inl rfl
    · rw [if_neg hkk]; exact h.recorded.kept k hf
  · rw [hs.features, hs.lastSeen, hr.step]; exact h.recorded.seen k ho
  · rw [hs.features] at hf
    rw [hr.width]; exact h.recorded.widths k f hf
  · rw [hs.features] at hf
    rw [hr.width]; exact h.recorded.wide k hf

theorem tables_forget (key : TrackKey Camera) :
    (s.forget key).features = s.features.erase key ∧ (s.forget key).hits = s.hits.erase key ∧
      (s.forget key).lastSeen = s.lastSeen.erase key := by
  unfold Assigner.forget
  dsimp only
  split
  · exact ⟨rfl, rfl, rfl⟩
  · rw [detach_eq]; exact ⟨rfl, rfl, rfl⟩

/-- A track that was not observed may be forgotten. -/
theorem During.forget (h : s.During observed) {key : TrackKey Camera} (hk : key ∉ observed) :
    (s.forget key).During observed := by
  have hr := h.linked.forget key
  obtain ⟨hf, hh, hl⟩ := tables_forget (s := s) key
  refine ⟨hr.linked, ⟨fun k => ?_, fun k => ?_, fun k ho => ?_, fun k hk' => ?_, fun k ho => ?_, fun k f hf' => ?_,
    fun k hk' => ?_⟩⟩
  · rw [hh, hf, SortedMap.getElem?_erase, SortedMap.getElem?_erase]
    split
    · rfl
    · exact h.recorded.hits k
  · rw [hl, hf, SortedMap.getElem?_erase, SortedMap.getElem?_erase]
    split
    · rfl
    · exact h.recorded.lastSeen k
  · rw [hf, SortedMap.getElem?_erase]
    rw [hr.owner] at ho
    split at ho
    · cases ho
    · rename_i hkk; rw [if_neg hkk]; exact h.recorded.owned k ho
  · rw [hf, SortedMap.getElem?_erase] at hk'
    rw [hr.owner]
    split at hk'
    · cases hk'
    · rename_i hkk; rw [if_neg hkk]; exact h.recorded.kept k hk'
  · have hkk : k ≠ key := fun he => hk (he ▸ ho)
    rw [hf, hl, SortedMap.getElem?_erase, SortedMap.getElem?_erase, if_neg hkk, if_neg hkk, hr.step]
    exact h.recorded.seen k ho
  · rw [hf, SortedMap.getElem?_erase] at hf'
    split at hf'
    · cases hf'
    · rw [hr.width]; exact h.recorded.widths k f hf'
  · rw [hf, SortedMap.getElem?_erase] at hk'
    split at hk'
    · cases hk'
    · rw [hr.width]; exact h.recorded.wide k hk'

variable (Camera) in
omit [LinearOrder Camera] in
/-- Features on record are of one width, so they can be compared. -/
theorem similarity_ok (ar : Cosine α σ) {width : Nat} {feature : List α} {others : List (List α)}
    (hf : feature.length = width) (ho : ∀ other ∈ others, other.length = width) (useMax : Bool) :
    ∃ x, (similarity ar feature others useMax : Except (Refusal Camera) σ) = .ok x := by
  unfold similarity
  split
  · exact ⟨_, rfl⟩
  · have hn : (others.find? fun other => decide (other.length ≠ feature.length)) = none := by
      rw [List.find?_eq_none]
      intro other hm
      simp only [ne_eq, decide_eq_true_eq, not_not]
      rw [hf, ho other hm]
    rw [hn]
    exact ⟨_, rfl⟩

theorem Recorded.featuresOf (h : s.Recorded observed) (keys : List (TrackKey Camera)) :
    ∀ f ∈ s.featuresOf keys, f.length = s.width := by
  intro f hf
  obtain ⟨k, -, hk⟩ := List.mem_filterMap.mp hf
  exact h.widths k f hk

/-! ## One group -/

/-- The state of a group's loop: the rule of one track per camera holds of the
identity it assigns to, but for the displaced tracks. -/
structure Settling (observed : List (TrackKey Camera)) (target width : Nat)
    (acc : Assigner Camera α × List (TrackKey Camera)) : Prop where
  during : acc.1.During observed
  issued : target < acc.1.counter
  width : acc.1.width = width
  others : ∀ g, g ≠ target → acc.1.OneEach g []
  here : acc.1.OneEach target acc.2

variable {target width : Nat} {d : List (TrackKey Camera)}

theorem Settling.toTarget (h : Settling observed target width (s, d)) {t : Assigner Camera α} {key : TrackKey Camera}
    (hr : Reassigned s t key (some target)) (hs : SameTables s t) (hk : (s.features[key]?).isSome = true)
    {d' : List (TrackKey Camera)} (hd : d ⊆ d')
    (hfree : ∀ a : TrackKey Camera, s.owner[a]? = some target → a ∉ d' → a.cameraId = key.cameraId → a = key) :
    Settling observed target width (t, d') where
  during := h.during.reassign hr hs hk
  issued := lt_of_lt_of_le h.issued hr.counter
  width := hr.width.trans h.width
  others g hg := hr.oneEach (h.others g hg) fun he => absurd (Option.some.inj he).symm hg
  here := hr.oneEach (h.here.mono hd) fun _ => hfree

/-- An identity just issued has room for any track. -/
theorem Settling.toFresh (h : Settling observed target width (s, d)) {t : Assigner Camera α} {key : TrackKey Camera}
    (hr : Reassigned s.issue.2 t key (some s.issue.1)) (hs : SameTables s.issue.2 t) (hk : (s.features[key]?).isSome = true) :
    Settling observed target width (t, d) := by
  have hempty : ∀ a : TrackKey Camera, s.owner[a]? ≠ some s.counter := fun a ha =>
    absurd (h.during.linked.lt_counter ha) (lt_irrefl _)
  refine ⟨h.during.issue.reassign hr hs hk, ?_, hr.width.trans h.width, fun g hg => ?_, ?_⟩
  · exact lt_of_lt_of_le h.issued ((Nat.le_succ _).trans hr.counter)
  · refine hr.oneEach (s := s.issue.2) (h.others g hg) fun he a ha => ?_
    exact absurd (ha.trans he.symm) (hempty a)
  · refine hr.oneEach (s := s.issue.2) h.here fun he a ha => ?_
    exact absurd (ha.trans he.symm) (hempty a)

theorem resolve_spec (ar : Cosine α σ) (h : Settling observed target width (s, d)) {key : TrackKey Camera}
    (hk : (s.features[key]?).isSome = true) {owner : Nat} (ho : s.owner[key]? = some owner)
    (hn : s.memberFromCamera target key.cameraId d = none) {overlap : List (List α)}
    (hov : ∀ f ∈ overlap, f.length = width) :
    ∃ t, s.resolveBetweenIdentities ar key owner target overlap = .ok t ∧ Settling observed target width (t, d) := by
  obtain ⟨mine, hmine⟩ := Option.isSome_iff_exists.mp hk
  have hw : mine.length = width := (h.during.recorded.widths key mine hmine).trans h.width
  have hrest := h.during.recorded.featuresOf ((s.memberList owner).filter fun member => decide (member ≠ key))
  rw [h.width] at hrest
  obtain ⟨there, hthere⟩ := similarity_ok Camera ar hw hov true
  obtain ⟨here, hhere⟩ := similarity_ok Camera ar hw hrest true
  unfold resolveBetweenIdentities
  dsimp only
  rw [hmine]
  dsimp only
  rw [hthere, hhere]
  dsimp only
  by_cases ha : ar.above there here = true
  · rw [if_pos ha]
    refine ⟨_, rfl, h.toTarget (h.during.linked.move ho h.issued) (sameTables_move key owner target) hk
      (List.Subset.refl d) fun a hat had hc => ?_⟩
    exact absurd hc (h.during.linked.free_of_none hn a hat had)
  · rw [if_neg ha]
    exact ⟨s, rfl, h⟩

theorem contest_spec (ar : Cosine α σ) (h : Settling observed target width (s, d)) {key incumbent : TrackKey Camera}
    (hk : (s.features[key]?).isSome = true) (hi : s.memberFromCamera target key.cameraId d = some incumbent)
    {overlap : List (List α)} (hov : ∀ f ∈ overlap, f.length = width) :
    ∃ acc, contest ar target overlap s d key incumbent = .ok acc ∧ Settling observed target width acc := by
  obtain ⟨hown, hcam, hid⟩ := h.during.linked.holder hi
  obtain ⟨mine, hmine⟩ := Option.isSome_iff_exists.mp hk
  obtain ⟨held, hheld⟩ := Option.isSome_iff_exists.mp (h.during.recorded.owned incumbent (by rw [hown]; rfl))
  obtain ⟨x, hx⟩ := similarity_ok Camera ar
    ((h.during.recorded.widths incumbent held hheld).trans h.width) hov false
  obtain ⟨y, hy⟩ := similarity_ok Camera ar ((h.during.recorded.widths key mine hmine).trans h.width) hov false
  unfold contest
  rw [hheld, hmine]
  dsimp only
  rw [hx]
  dsimp only
  rw [hy]
  dsimp only
  by_cases ha : ar.above y x = true
  · rw [if_pos ha]
    refine ⟨_, rfl, h.toTarget (h.during.linked.place key h.issued) (sameTables_place key target _) hk
      (List.subset_append_left d [incumbent]) fun a hat had hc => ?_⟩
    -- the incumbent was the only track of the camera left to displace
    simp only [List.mem_append, List.mem_singleton, not_or] at had
    exact absurd (h.here a incumbent hat hown had.1 hid (hc.trans hcam.symm)) had.2
  · rw [if_neg ha]
    by_cases ho : s.ownerOf key = none
    · rw [if_pos ho]
      exact ⟨_, rfl, h.toFresh (h.during.linked.issue.adopt ho (Nat.lt_succ_self _)) (sameTables_adopt key _) hk⟩
    · rw [if_neg ho]
      exact ⟨_, rfl, h⟩

theorem settle_spec (ar : Cosine α σ) (acc : Assigner Camera α × List (TrackKey Camera))
    (h : Settling observed target width acc) {key : TrackKey Camera} (hk : key ∈ observed) {overlap : List (List α)}
    (hov : ∀ f ∈ overlap, f.length = width) :
    ∃ acc', settle ar target overlap acc key = .ok acc' ∧ Settling observed target width acc' := by
  obtain ⟨s, d⟩ := acc
  have hf := (h.during.recorded.seen key hk).1
  unfold settle
  dsimp only
  cases hm : s.memberFromCamera target key.cameraId d with
  | none =>
    dsimp only
    have hfree : ∀ a : TrackKey Camera, s.owner[a]? = some target → a ∉ d → a.cameraId = key.cameraId → a = key :=
      fun a hat had hc => absurd hc (h.during.linked.free_of_none hm a hat had)
    cases ho : s.ownerOf key with
    | none =>
      exact ⟨_, rfl, h.toTarget (h.during.linked.adopt ho h.issued) (sameTables_adopt key target) hf
        (List.Subset.refl d) hfree⟩
    | some owner =>
      dsimp only
      by_cases hne : owner ≠ target
      · rw [if_pos hne]
        obtain ⟨t, ht, hs⟩ := resolve_spec ar h hf ho hm hov
        rw [ht]
        exact ⟨_, rfl, hs⟩
      · rw [if_neg hne]
        exact ⟨_, rfl, h⟩
  | some incumbent =>
    obtain ⟨hown, hcam, hid⟩ := h.during.linked.holder hm
    obtain ⟨seen, hseen⟩ : ∃ seen, s.lastSeen[incumbent]? = some seen := by
      rw [← Option.isSome_iff_exists, h.during.recorded.lastSeen]
      exact h.during.recorded.owned incumbent (by rw [hown]; rfl)
    dsimp only
    rw [hseen]
    dsimp only
    by_cases hstale : seen < s.step
    · rw [if_pos (decide_eq_true hstale)]
      -- nobody has seen the incumbent at this instant, so it was not observed
      have hnot : incumbent ∉ observed := by
        intro ho
        rw [(h.during.recorded.seen incumbent ho).2] at hseen
        exact absurd (Option.some.inj hseen) (ne_of_gt hstale)
      have hne : key ≠ incumbent := fun he => hnot (he ▸ hk)
      have hd := h.during.forget hnot
      have hr := h.during.linked.forget incumbent
      have hs : Settling observed target width (s.forget incumbent, d) := by
        refine ⟨hd, lt_of_lt_of_le h.issued hr.counter, hr.width.trans h.width, fun g hg => ?_, ?_⟩
        · exact hr.oneEach (h.others g hg) fun he => by cases he
        · exact hr.oneEach h.here fun he => by cases he
      have hokey : (s.forget incumbent).ownerOf key = s.ownerOf key := by
        rw [ownerOf, hr.owner, if_neg hne]; rfl
      have hfkey : ((s.forget incumbent).features[key]?).isSome = true := by
        rw [(tables_forget incumbent).1, SortedMap.getElem?_erase, if_neg hne]; exact hf
      rw [← hokey]
      refine ⟨_, rfl, hs.toTarget (hd.linked.place key hs.issued) (sameTables_place key target _) hfkey
        (List.Subset.refl d) fun a hat had hc => ?_⟩
      rw [hr.owner] at hat
      by_cases hai : a = incumbent
      · rw [if_pos hai] at hat; cases hat
      · rw [if_neg hai] at hat
        exact absurd (h.here a incumbent hat hown had hid (hc.trans hcam.symm)) hai
    · rw [if_neg (by rw [decide_eq_true_eq]; exact hstale)]
      exact contest_spec ar h hf hm hov

/-- After the deferred pass no displaced track is left in the identity. -/
theorem moveOut_all : ∀ (ds : List (TrackKey Camera)) {s : Assigner Camera α}, Settling observed target width (s, d) →
    Settling observed target width (ds.foldl (moveOut target) s, d) ∧
      ∀ k : TrackKey Camera, (ds.foldl (moveOut target) s).owner[k]? = some target →
        s.owner[k]? = some target ∧ k ∉ ds
  | [], _, h => ⟨h, fun _ hk => ⟨hk, List.not_mem_nil⟩⟩
  | key :: ds, s, h => by
    have hstep : Settling observed target width (moveOut target s key, d) ∧
        ∀ k : TrackKey Camera, (moveOut target s key).owner[k]? = some target → s.owner[k]? = some target ∧ k ≠ key := by
      unfold moveOut
      by_cases ho : s.ownerOf key = some target
      · rw [if_pos ho]
        have hr := h.during.linked.issue.move ho (Nat.lt_succ_self s.issue.1)
        refine ⟨h.toFresh hr (sameTables_move key _ _) (h.during.recorded.owned key ?_), fun k hk => ?_⟩
        · rw [show s.owner[key]? = some target from ho]; rfl
        · rw [hr.owner] at hk
          by_cases hkk : k = key
          · rw [if_pos hkk] at hk
            exact absurd (Option.some.inj hk) (ne_of_gt h.issued)
          · rw [if_neg hkk] at hk
            exact ⟨hk, hkk⟩
      · rw [if_neg ho]
        exact ⟨h, fun k hk => ⟨hk, fun he => ho (he ▸ hk)⟩⟩
    obtain ⟨hs, hall⟩ := moveOut_all ds hstep.1
    refine ⟨hs, fun k hk => ?_⟩
    obtain ⟨hk₁, hn₁⟩ := hall k hk
    obtain ⟨hk₂, hn₂⟩ := hstep.2 k hk₁
    exact ⟨hk₂, fun hm => (List.mem_cons.mp hm).elim hn₂ hn₁⟩

/-- Between groups: one track per camera in every identity. -/
structure Ready (observed : List (TrackKey Camera)) (width : Nat) (s : Assigner Camera α) : Prop where
  during : s.During observed
  width : s.width = width
  oneEach : ∀ g, s.OneEach g []

theorem Settling.ready (h : Settling observed target width (s, [])) : Ready observed width s :=
  ⟨h.during, h.width, fun g => (em (g = target)).elim (fun hg => hg ▸ h.here) (h.others g)⟩

theorem adoptFresh_spec : ∀ (keys : List (TrackKey Camera)) {s : Assigner Camera α} {claimed : List Camera},
    Settling observed target width (s, []) →
    (∀ a : TrackKey Camera, s.owner[a]? = some target → a.cameraId ∈ claimed) → keys.Nodup →
    (∀ k ∈ keys, s.owner[k]? = none ∧ (s.features[k]?).isSome = true) →
    Settling observed target width (adoptFresh target s claimed keys, [])
  | [], _, _, h, _, _, _ => h
  | key :: keys, s, claimed, h, hcl, hn, hk => by
    rw [List.nodup_cons] at hn
    obtain ⟨ho, hf⟩ := hk key List.mem_cons_self
    have hrest : ∀ {t : Assigner Camera α} {new : Option Nat}, (∀ k : TrackKey Camera,
        t.owner[k]? = if k = key then new else s.owner[k]?) → t.features = s.features →
        ∀ k ∈ keys, t.owner[k]? = none ∧ (t.features[k]?).isSome = true := by
      intro t new hown hfe k hm
      have hne : k ≠ key := fun he => hn.1 (he ▸ hm)
      rw [hown, if_neg hne, hfe]
      exact hk k (List.mem_cons_of_mem _ hm)
    unfold adoptFresh
    by_cases hc : key.cameraId ∈ claimed
    · rw [if_pos hc]
      have hr := h.during.linked.issue.adopt (show s.issue.2.owner[key]? = none from ho) (Nat.lt_succ_self s.issue.1)
      refine adoptFresh_spec keys (h.toFresh hr (sameTables_adopt key _) hf) (fun a ha => ?_) hn.2
        (hrest hr.owner rfl)
      rw [hr.owner] at ha
      by_cases hak : a = key
      · rw [hak]; exact hc
      · rw [if_neg hak] at ha; exact hcl a ha
    · rw [if_neg hc]
      have hr := h.during.linked.adopt ho h.issued
      refine adoptFresh_spec keys (h.toTarget hr (sameTables_adopt key target) hf (List.Subset.refl _)
        fun a ha _ hcam => absurd (hcam ▸ hcl a ha) hc) (fun a ha => ?_) hn.2 (hrest hr.owner rfl)
      rw [hr.owner] at ha
      by_cases hak : a = key
      · rw [hak]; exact List.mem_append_right _ (List.mem_singleton_self _)
      · rw [if_neg hak] at ha; exact List.mem_append_left _ (hcl a ha)

/-- A candidate owns a track of the cluster. -/
theorem mem_candidateIds {keys : List (TrackKey Camera)} {exclude : Finset Nat} {g : Nat}
    (hg : g ∈ s.candidateIds keys exclude) : ∃ key ∈ keys, s.ownerOf key = some g := by
  have hcounts : ∀ g : Nat, ((keys.foldl (s.countOwners exclude) ∅)[g]?).isSome = true →
      ∃ key ∈ keys, s.ownerOf key = some g := by
    refine foldl_keeps (f := s.countOwners exclude)
      (I := fun counts => ∀ g : Nat, (counts[g]?).isSome = true → ∃ key ∈ keys, s.ownerOf key = some g)
      (fun counts key hkey ih g hg => ?_) (fun g hg => by simp at hg)
    unfold countOwners at hg
    split at hg
    · exact ih g hg
    · rename_i owner ho
      split at hg
      · exact ih g hg
      · rw [SortedMap.getElem?_insert] at hg
        split at hg
        · rename_i he; exact ⟨key, hkey, he ▸ ho⟩
        · exact ih g hg
  unfold candidateIds at hg
  dsimp only at hg
  split at hg
  · cases hg
  · obtain ⟨p, hp, rfl⟩ := List.mem_map.mp hg
    have := SortedMap.mem_toList.mp (List.mem_of_mem_filter hp)
    exact hcounts p.1 (by rw [this]; rfl)

theorem selectByOldest_mem {front : Nat} {candidates : List Nat} (hf : front ∈ candidates) :
    s.selectByOldest front candidates ∈ candidates := by
  unfold selectByOldest
  split
  · exact hf
  · refine foldl_keeps (I := fun best : Nat × Int => best.1 ∈ candidates) (fun best g hg ih => ?_) hf
    split
    · exact hg
    · exact ih

theorem assignGroup_spec (ar : Cosine α σ) {acc : Assigner Camera α × Finset Nat} (h : Ready observed width acc.1)
    {keys : List (TrackKey Camera)} (hk : keys ⊆ observed) (hn : keys.Nodup) :
    ∃ acc', assignGroup ar acc keys = .ok acc' ∧ Ready observed width acc'.1 := by
  obtain ⟨s, matched⟩ := acc
  unfold assignGroup
  dsimp only
  cases hc : s.candidateIds keys matched with
  | nil =>
    dsimp only
    split
    · exact ⟨_, rfl, h⟩
    · refine ⟨_, rfl, (adoptFresh_spec _ ⟨h.during.issue, Nat.lt_succ_self _, h.width, fun g _ => h.oneEach g,
        h.oneEach _⟩ (fun a ha => ?_) (hn.filter _) fun k hm => ?_).ready⟩
      · exact absurd (h.during.linked.lt_counter ha) (lt_irrefl _)
      · rw [List.mem_filter, decide_eq_true_eq] at hm
        exact ⟨hm.2, (h.during.recorded.seen k (hk hm.1)).1⟩
  | cons front rest =>
    have htarget : s.selectByOldest front (front :: rest) ∈ s.candidateIds keys matched :=
      by rw [hc]; exact selectByOldest_mem List.mem_cons_self
    obtain ⟨key, -, howner⟩ := mem_candidateIds htarget
    have hov := h.during.recorded.featuresOf
      (keys.filter fun key => decide (key ∈ s.memberList (s.selectByOldest front (front :: rest))))
    rw [h.width] at hov
    dsimp only
    generalize s.selectByOldest front (front :: rest) = target at howner hov ⊢
    have hstart : Settling observed target width (s, []) :=
      ⟨h.during, h.during.linked.lt_counter howner, h.width, fun g _ => h.oneEach g, h.oneEach target⟩
    obtain ⟨⟨s', displaced⟩, hfold, hs'⟩ := foldlM_ok (I := Settling observed target width)
      (l := keys.filter fun key => decide (key ∉ s.memberList target))
      (f := settle ar target (s.featuresOf (keys.filter fun key => decide (key ∈ s.memberList target))))
      (fun acc key hm hacc => settle_spec ar acc hacc (hk (List.mem_of_mem_filter hm)) hov) hstart
    rw [hfold]
    obtain ⟨hend, hout⟩ := moveOut_all displaced hs'
    refine ⟨_, rfl, hend.during, hend.width, fun g => ?_⟩
    by_cases hg : g = target
    · subst hg
      exact fun a b ha hb _ _ hcam => hend.here a b ha hb (hout a ha).2 (hout b hb).2 hcam
    · exact hend.others g hg

end

end ShipInfer.Identity.Assigner
