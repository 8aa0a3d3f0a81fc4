import ShipInfer.Runners.Fleet

/-!
# When a camera group stays on one shard

A placement is pinned to where its group is when it is reserved. A reservation
that a shard refuses moves on to the next; it takes the group apart when a camera
of the group was pinned to the shard it leaves.
-/

namespace ShipInfer.Runners.FleetRunner

variable {cfg : FleetConfig} {s s' : FleetRunner}

/-- The cameras of a group, confirmed or being placed, are on one shard. -/
def Together (cfg : FleetConfig) (s : FleetRunner) : Prop :=
  ∀ g c a c' b, cfg.groupOf.get? c = some g → cfg.groupOf.get? c' = some g →
    s.placed.get? c = some a → s.placed.get? c' = some b → a = b

/-- No two confirmed cameras of a group are on different shards. -/
def Whole (cfg : FleetConfig) (s : FleetRunner) : Prop :=
  ∀ g c a c' b, cfg.groupOf.get? c = some g → cfg.groupOf.get? c' = some g → s.Confirmed c a → s.Confirmed c' b → a = b

/-- A camera is offered to a shard only when the rest of its group, confirmed or
being placed, is there. -/
def Stays (cfg : FleetConfig) (s : FleetRunner) : FleetEvent → Prop
  | .offer i =>
    ∀ c ∈ s.adds[i]?, c.phase = .offering → ∀ shard ∈ c.order.head?, shard ∈ cfg.shards →
      ∀ p ∈ s.placed.entries, p.1 ≠ c.camera → cfg.groupOf.get? p.1 ≠ none →
        cfg.groupOf.get? p.1 = cfg.groupOf.get? c.camera → p.2 = shard
  | _ => True

theorem Together.whole (h : Together cfg s) : Whole cfg s := by
  intro g c a c' b hc hc' ha hb
  exact h g c a c' b hc hc' ha.1 hb.1

/-- Fewer placements are still together. -/
theorem Together.mono (h : Together cfg s) (hp : ∀ c a, s'.placed.get? c = some a → s.placed.get? c = some a) :
    Together cfg s' := by
  intro g c a c' b hc hc' ha hb
  exact h g c a c' b hc hc' (hp c a ha) (hp c' b hb)

theorem Together.erase (h : Together cfg s) (camera : String) (hp : s'.placed = s.placed.erase camera) :
    Together cfg s' := by
  apply h.mono
  intro c a hc
  rw [hp, Dict.get?_erase] at hc
  split at hc
  · cases hc
  · exact hc

/-- A camera is set down where its group is. -/
theorem Together.set (h : Together cfg s) {camera : String} {shard : Nat} (hp : s'.placed = s.placed.set camera shard)
    (hgroup : ∀ g other b, cfg.groupOf.get? camera = some g → cfg.groupOf.get? other = some g → other ≠ camera →
      s.placed.get? other = some b → b = shard) : Together cfg s' := by
  intro g c a c' b hc hc' ha hb
  rw [hp, Dict.get?_set] at ha hb
  split at ha
  · rename_i heq
    subst heq
    obtain rfl := Option.some.inj ha
    split at hb
    · exact Option.some.inj hb
    · rename_i hne
      exact (hgroup g c' b hc hc' hne hb).symm
  · rename_i hne
    split at hb
    · rename_i heq
      subst heq
      obtain rfl := Option.some.inj hb
      exact hgroup g c a hc' hc hne ha
    · exact h g c a c' b hc hc' ha hb

theorem mem_homes {g : String} {shard : Nat} : shard ∈ s.homes cfg g ↔
    ∃ other, cfg.groupOf.get? other = some g ∧ s.placed.get? other = some shard := by
  simp only [homes, List.mem_insertionSort, List.mem_dedup, List.mem_filterMap, Prod.exists]
  constructor
  · rintro ⟨other, g', hmem, hp⟩
    split at hp
    · rename_i hg
      subst hg
      exact ⟨other, Dict.get?_eq_some_iff.mpr hmem, hp⟩
    · cases hp
  · rintro ⟨other, hg, hp⟩
    exact ⟨other, g, Dict.get?_eq_some_iff.mp hg, by simp [hp]⟩

/-- The pin puts a camera where its group is, if it is anywhere. -/
theorem pinToGroup_head {camera : String} {order pinned : List Nat} {first : Nat}
    (hpin : s.pinToGroup cfg camera order = .ok pinned) {g other : String} {b : Nat}
    (hg : cfg.groupOf.get? camera = some g) (hother : cfg.groupOf.get? other = some g)
    (hplaced : s.placed.get? other = some b) : b = pinned.headD first := by
  have hmem : b ∈ s.homes cfg g := mem_homes.mpr ⟨other, hother, hplaced⟩
  simp only [pinToGroup, hg] at hpin
  split at hpin
  · rename_i hnil
    simp [hnil] at hmem
  · rename_i home hone
    split at hpin
    · cases hpin
      simpa [hone] using hmem
    · cases hpin
  · cases hpin

theorem Together.add (h : Together cfg s) (camera : String) (dead : List Nat) : Together cfg (s.add cfg camera dead).1 := by
  unfold FleetRunner.add
  split
  · exact h
  · split
    · exact h
    · split
      · exact h
      · split
        · exact h
        · rename_i hpin
          refine h.set rfl fun g other b hg hother _ hplaced => ?_
          exact pinToGroup_head hpin hg hother hplaced

theorem Together.offer (h : Together cfg s) {i : Nat} {c : AddCall} (hc : s.adds[i]? = some c)
    (hphase : c.phase = .offering) (hstays : Stays cfg s (.offer i)) : Together cfg (s.offer cfg i c) := by
  unfold FleetRunner.offer
  split
  · exact h
  · rename_i shard rest horder
    split
    · rename_i hshard
      refine h.set rfl fun g other b hg hother hne hplaced => ?_
      refine hstays c hc hphase shard (by simp [horder]) hshard (other, b) (Dict.get?_eq_some_iff.mp hplaced) hne ?_ ?_
      · simp [hother]
      · simp [hother, hg]
    · exact h

theorem Together.finish (h : Together cfg s) (i : Nat) (c : AddCall) (outcome : AddOutcome) :
    Together cfg (s.finish i c outcome) := by
  unfold FleetRunner.finish
  dsimp only
  split
  · exact h.erase c.camera rfl
  · exact h

theorem Together.remove (h : Together cfg s) (camera : String) (dead : List Nat) :
    Together cfg (s.remove cfg camera dead).1 := by
  unfold FleetRunner.remove
  split
  · exact h
  · split
    · exact h
    · split
      · exact h
      · split
        · exact h.erase camera rfl
        · exact h.erase camera rfl

theorem Together.forget (h : Together cfg s) : Together cfg s.forget := by
  apply h.mono
  intro c a hc
  rw [FleetRunner.forget, Dict.get?_eq_some_iff, Dict.entries_filter, List.mem_filter] at hc
  exact Dict.get?_eq_some_iff.mpr hc.1

theorem Together.step (h : Together cfg s) {e : FleetEvent} (hstays : Stays cfg s e) : Together cfg (s.step cfg e).1 := by
  cases e with
  | add camera dead => exact h.add camera dead
  | remove camera dead => exact h.remove camera dead
  | forget => exact h.forget
  | offer i =>
    simp only [FleetRunner.step]
    split
    · rename_i c hc
      split
      · rename_i hphase
        exact h.offer hc hphase hstays
      · exact h
    · exact h
  | reply i reply =>
    simp only [FleetRunner.step]
    split
    · split
      · cases reply <;> exact h
      · exact h
    · exact h
  | finish i =>
    simp only [FleetRunner.step]
    split
    · split
      · exact h.finish i _ _
      · exact h
    · exact h

theorem together_empty (cfg : FleetConfig) : Together cfg {} := by
  intro g c a c' b _ _ ha
  cases ha

/-- In a run where each camera is offered only where its group is, the confirmed
cameras of a group are on one shard throughout. -/
theorem groups_whole (cfg : FleetConfig) (events : List FleetEvent)
    (h : Machine.Along (step cfg) (Stays cfg) {} events) :
    ∀ seen, seen <+: events → Whole cfg (run cfg seen).1 := by
  intro seen hseen
  have hstep : ∀ s e, Together cfg s → Stays cfg s e → Together cfg (step cfg s e).1 := fun _ _ hs he => hs.step he
  exact (h.invariant hstep events (together_empty cfg) seen hseen).whole

instance (s : FleetRunner) : ∀ e : FleetEvent, Decidable (Stays cfg s e)
  | .offer i =>
    inferInstanceAs (Decidable (∀ c ∈ s.adds[i]?, c.phase = .offering → ∀ shard ∈ c.order.head?, shard ∈ cfg.shards →
      ∀ p ∈ s.placed.entries, p.1 ≠ c.camera → cfg.groupOf.get? p.1 ≠ none →
        cfg.groupOf.get? p.1 = cfg.groupOf.get? c.camera → p.2 = shard))
  | .add _ _ | .reply _ _ | .finish _ | .remove _ _ | .forget => .isTrue trivial

/-- Two shards, and a pier that two cameras watch. -/
def pier : FleetConfig := { shards := [0, 1], groupOf := ⟨[("bow", "pier"), ("stern", "pier")], by decide⟩ }

/-- Both cameras are placed while the first shard takes them. -/
def bothTaken : List FleetEvent :=
  [.add "bow" [], .offer 0, .reply 0 .accepted, .finish 0, .add "stern" [], .offer 1, .reply 1 .accepted, .finish 1]

theorem bothTaken_whole :
    (run pier bothTaken).1.placed.entries = [("bow", 0), ("stern", 0)] ∧ Whole pier (run pier bothTaken).1 :=
  ⟨by decide, groups_whole pier bothTaken (by decide) bothTaken List.prefix_rfl⟩

/-- The second camera is pinned to the shard that is about to refuse the first. -/
def refusedBehindSibling : List FleetEvent :=
  [.add "bow" [], .offer 0, .add "stern" [], .reply 0 (.refused "draining"), .offer 0, .reply 0 .accepted, .finish 0,
    .offer 1, .reply 1 .accepted, .finish 1]

/-- One group, confirmed on two shards. -/
theorem group_split :
    (run pier refusedBehindSibling).1.placed.entries = [("bow", 1), ("stern", 0)] ∧
    (run pier refusedBehindSibling).1.pending = [] ∧ ¬Whole pier (run pier refusedBehindSibling).1 := by
  refine ⟨by decide, by decide, fun h => ?_⟩
  have hsame : 1 = 0 := h "pier" "bow" 1 "stern" 0 (by decide) (by decide) (by unfold Confirmed; decide) (by unfold Confirmed; decide)
  exact absurd hsame (by decide)

end ShipInfer.Runners.FleetRunner
