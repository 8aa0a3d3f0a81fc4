import Mathlib
import ShipInfer.Lib.Fold
import ShipInfer.Lib.Streak
import ShipInfer.Identity.Model

/-!
# The gate before the identities

`ObservationGate` of `pipeline/mtmc/gate.cpp`. It keeps a count for every track and another of
the instants its camera was away; what it admits is decided by the history (`Streak.length`). The
arithmetic on boxes is left abstract (`Extents`).
-/

namespace ShipInfer.Identity

open Std (TreeMap)

/-- The height of a box as a fraction of the frame's, `>` on fractions, and the fractions the
constructor takes. -/
structure Extents (β φ : Type) where
  fraction : β → Int → φ
  above : φ → φ → Bool
  allowed : φ → Bool

/-- What the gate reads of a `ClusterObservation`, and what it only passes on. -/
structure ClusterObservation (Camera β ε : Type) where
  key : TrackKey Camera
  box : β
  frameHeight : Int
  rest : ε
  deriving DecidableEq

structure GateOptions (φ : Type) where
  minHits : Nat
  minHeightFraction : φ
  maxAbsentInstants : Nat
  minHits_pos : 1 ≤ minHits
  maxAbsentInstants_pos : 1 ≤ maxAbsentInstants

inductive GateRefusal (Camera φ : Type)
  | minHits (given : Int)
  | minHeightFraction (given : φ)
  | maxAbsentInstants (given : Int)
  | twice (key : TrackKey Camera)

/-- The constructor's checks. -/
def GateOptions.new {Camera β φ : Type} (ex : Extents β φ) (minHits : Int) (minHeightFraction : φ)
    (maxAbsentInstants : Int) : Except (GateRefusal Camera φ) (GateOptions φ) :=
  if hh : minHits < 1 then .error (.minHits minHits)
  else if !ex.allowed minHeightFraction then .error (.minHeightFraction minHeightFraction)
  else if ha : maxAbsentInstants < 1 then .error (.maxAbsentInstants maxAbsentInstants)
  else .ok ⟨minHits.toNat, minHeightFraction, maxAbsentInstants.toNat, by omega, by omega⟩

structure ObservationGate (Camera : Type) [LinearOrder Camera] where
  hits : TreeMap (TrackKey Camera) Nat := ∅
  absent : TreeMap (TrackKey Camera) Nat := ∅

/-- One synchronised instant: what was seen, and every camera it held. -/
structure View (Camera β ε : Type) where
  observations : List (ClusterObservation Camera β ε)
  cameras : List Camera

namespace ObservationGate

variable {Camera β ε φ : Type} [LinearOrder Camera]

local instance lawful_camera : LawfulBEq Camera := inferInstance

local instance lawful_key : LawfulBEq (TrackKey Camera) := inferInstance

abbrev Counts (Camera : Type) [LinearOrder Camera] := TreeMap (TrackKey Camera) Nat

def hitsOf (g : ObservationGate Camera) (key : TrackKey Camera) : Nat := g.hits[key]?.getD 0

/-- The first key that comes a second time. -/
def repeated : List (TrackKey Camera) → List (ClusterObservation Camera β ε) → Option (TrackKey Camera)
  | _, [] => none
  | seenHere, o :: os => if o.key ∈ seenHere then some o.key else repeated (o.key :: seenHere) os

def missed (g : ObservationGate Camera) (key : TrackKey Camera) : Nat := g.absent[key]?.getD 0 + 1

/-- A track of a camera that was not there is carried, as long as it may be. -/
def carry (opts : GateOptions φ) (g : ObservationGate Camera) (cameras : List Camera)
    (acc : Counts Camera × Counts Camera) (p : TrackKey Camera × Nat) : Counts Camera × Counts Camera :=
  if p.1.cameraId ∈ cameras then acc
  else if g.missed p.1 ≤ opts.maxAbsentInstants then (acc.1.insert p.1 p.2, acc.2.insert p.1 (g.missed p.1))
  else acc

def qualifies (ex : Extents β φ) (opts : GateOptions φ) (o : ClusterObservation Camera β ε) : Bool :=
  if o.frameHeight ≤ 0 then false else ex.above (ex.fraction o.box o.frameHeight) opts.minHeightFraction

/-- One observation: counted if it qualifies, and admitted if it has for long enough. -/
def count (ex : Extents β φ) (opts : GateOptions φ) (g : ObservationGate Camera)
    (acc : (Counts Camera × Counts Camera) × List (ClusterObservation Camera β ε)) (o : ClusterObservation Camera β ε) :
    (Counts Camera × Counts Camera) × List (ClusterObservation Camera β ε) :=
  if qualifies ex opts o then
    ((acc.1.1.insert o.key (g.hitsOf o.key + 1), acc.1.2.erase o.key),
      if opts.minHits ≤ g.hitsOf o.key + 1 then acc.2 ++ [o] else acc.2)
  else acc

/-- `filter`: the state it leaves, and the admitted or what it threw. -/
def filter (ex : Extents β φ) (opts : GateOptions φ) (g : ObservationGate Camera) (view : View Camera β ε) :
    ObservationGate Camera × Except (GateRefusal Camera φ) (List (ClusterObservation Camera β ε)) :=
  match repeated [] view.observations with
  | some key => (g, .error (.twice key))
  | none =>
    let carried := g.hits.toList.foldl (carry opts g view.cameras) (∅, ∅)
    let acc := view.observations.foldl (count ex opts g) (carried, [])
    (⟨acc.1.1, acc.1.2⟩, .ok acc.2)

def reset (_ : ObservationGate Camera) : ObservationGate Camera := {}

inductive Input (Camera β ε : Type)
  | filter (view : View Camera β ε)
  | reset

def call (ex : Extents β φ) (opts : GateOptions φ) (g : ObservationGate Camera) :
    Input Camera β ε → ObservationGate Camera × Except (GateRefusal Camera φ) (List (ClusterObservation Camera β ε))
  | .filter view => g.filter ex opts view
  | .reset => (g.reset, .ok [])

/-! ## The history -/

def remember (past : List (View Camera β ε)) : Input Camera β ε → List (View Camera β ε)
  | .filter view => if (view.observations.map ClusterObservation.key).Nodup then past ++ [view] else past
  | .reset => []

/-- The views since the last reset, those refused apart. -/
def history (inputs : List (Input Camera β ε)) : List (View Camera β ε) := inputs.foldl remember []

/-- The track was observed, large enough. -/
def qualified (ex : Extents β φ) (opts : GateOptions φ) (key : TrackKey Camera) (view : View Camera β ε) : Bool :=
  view.observations.any fun o => decide (o.key = key) && qualifies ex opts o

/-- The camera of the track was not there. An instant at which the track qualified is none that it
missed, whatever its roster says. -/
def away (ex : Extents β φ) (opts : GateOptions φ) (key : TrackKey Camera) (view : View Camera β ε) : Bool :=
  decide (key.cameraId ∉ view.cameras) && !qualified ex opts key view

/-- The qualifying instants of a track's current run. -/
noncomputable def run (ex : Extents β φ) (opts : GateOptions φ) (past : List (View Camera β ε))
    (key : TrackKey Camera) : Nat :=
  Streak.length (qualified ex opts key) (away ex opts key) opts.maxAbsentInstants past

/-! ## One call -/

variable {ex : Extents β φ} {opts : GateOptions φ} {g : ObservationGate Camera}

theorem repeated_none_iff : ∀ {os : List (ClusterObservation Camera β ε)}
    {seenHere : List (TrackKey Camera)}, seenHere.Nodup →
    (repeated seenHere os = none ↔ (seenHere ++ os.map ClusterObservation.key).Nodup)
  | [], seenHere, hn => by simpa [repeated] using hn
  | o :: os, seenHere, hn => by
    unfold repeated
    by_cases hm : o.key ∈ seenHere
    · rw [if_pos hm]
      refine iff_of_false (by simp) fun hnd => ?_
      exact (List.nodup_append.mp hnd).2.2 o.key hm o.key List.mem_cons_self rfl
    · rw [if_neg hm, repeated_none_iff (List.nodup_cons.mpr ⟨hm, hn⟩), List.map_cons]
      exact (@List.perm_middle _ _ seenHere _).nodup_iff.symm

theorem repeated_mem : ∀ {os : List (ClusterObservation Camera β ε)} {seenHere : List (TrackKey Camera)}
    {key : TrackKey Camera}, repeated seenHere os = some key → key ∈ os.map ClusterObservation.key
  | [], _, _, h => by cases h
  | o :: os, seenHere, key, h => by
    unfold repeated at h
    split at h
    · cases h
      exact List.mem_cons_self
    · exact List.mem_cons_of_mem _ (repeated_mem h)

/-- The track keeps its count over this instant, unless it qualifies. -/
def Stays (opts : GateOptions φ) (g : ObservationGate Camera) (cameras : List Camera) (key : TrackKey Camera) : Prop :=
  key.cameraId ∉ cameras ∧ g.missed key ≤ opts.maxAbsentInstants

theorem carry_stays {cameras : List Camera} {acc : Counts Camera × Counts Camera} {p : TrackKey Camera × Nat}
    (h : Stays opts g cameras p.1) :
    carry opts g cameras acc p = (acc.1.insert p.1 p.2, acc.2.insert p.1 (g.missed p.1)) := by
  unfold carry
  rw [if_neg h.1, if_pos h.2]

theorem carry_leaves {cameras : List Camera} {acc : Counts Camera × Counts Camera} {p : TrackKey Camera × Nat}
    (h : ¬ Stays opts g cameras p.1) : carry opts g cameras acc p = acc := by
  unfold carry
  split
  · rfl
  · rename_i hc
    rw [if_neg fun hm => h ⟨hc, hm⟩]

/-- What is carried: the counts of the tracks that stay. -/
theorem carried (opts : GateOptions φ) (g : ObservationGate Camera) (cameras : List Camera) :
    ∀ (l : List (TrackKey Camera × Nat)) (acc : Counts Camera × Counts Camera), (l.map Prod.fst).Nodup →
      ∀ k : TrackKey Camera, ((Stays opts g cameras k → ∀ c, (k, c) ∈ l →
        (l.foldl (carry opts g cameras) acc).1[k]? = some c ∧
        (l.foldl (carry opts g cameras) acc).2[k]? = some (g.missed k)) ∧
      (¬ Stays opts g cameras k ∨ k ∉ l.map Prod.fst →
        (l.foldl (carry opts g cameras) acc).1[k]? = acc.1[k]? ∧
        (l.foldl (carry opts g cameras) acc).2[k]? = acc.2[k]?))
  | [], _, _, _ => ⟨(fun _ _ hm => by cases hm), fun _ => ⟨rfl, rfl⟩⟩
  | p :: l, acc, hn, k => by
    obtain ⟨hp, hn⟩ := List.nodup_cons.mp hn
    obtain ⟨hin, hout⟩ := carried opts g cameras l (carry opts g cameras acc p) hn k
    rw [List.foldl_cons]
    refine ⟨fun hs c hm => ?_, fun h => ?_⟩
    · rcases List.mem_cons.mp hm with hpk | hm
      · obtain ⟨h₁, h₂⟩ := hout (.inr (by rw [← hpk] at hp; exact hp))
        rw [h₁, h₂, carry_stays (by rw [← hpk]; exact hs), ← hpk]
        refine ⟨?_, ?_⟩
        · rw [SortedMap.getElem?_insert, if_pos rfl]
        · rw [SortedMap.getElem?_insert, if_pos rfl]
      · exact hin hs c hm
    · have hrest : ¬ Stays opts g cameras k ∨ k ∉ l.map Prod.fst :=
        h.imp_right fun hm hml => hm (List.mem_cons_of_mem _ hml)
      obtain ⟨h₁, h₂⟩ := hout hrest
      rw [h₁, h₂]
      by_cases hs : Stays opts g cameras p.1
      · have hne : k ≠ p.1 := by
          rintro rfl
          rcases h with h | h
          · exact h hs
          · exact h List.mem_cons_self
        rw [carry_stays hs]
        dsimp only
        rw [SortedMap.getElem?_insert, SortedMap.getElem?_insert, if_neg hne, if_neg hne]
        exact ⟨rfl, rfl⟩
      · rw [carry_leaves hs]
        exact ⟨rfl, rfl⟩

/-- What is counted: the tracks that qualify, each on from what it had. -/
theorem counted (ex : Extents β φ) (opts : GateOptions φ) (g : ObservationGate Camera) :
    ∀ (os : List (ClusterObservation Camera β ε))
      (acc : (Counts Camera × Counts Camera) × List (ClusterObservation Camera β ε)),
    (os.foldl (count ex opts g) acc).2 =
      acc.2 ++ os.filter (fun o => qualifies ex opts o && decide (opts.minHits ≤ g.hitsOf o.key + 1)) ∧
    ∀ k : TrackKey Camera,
      ((∃ o ∈ os, o.key = k ∧ qualifies ex opts o = true) →
        (os.foldl (count ex opts g) acc).1.1[k]? = some (g.hitsOf k + 1) ∧
        (os.foldl (count ex opts g) acc).1.2[k]? = none) ∧
      ((¬ ∃ o ∈ os, o.key = k ∧ qualifies ex opts o = true) →
        (os.foldl (count ex opts g) acc).1.1[k]? = acc.1.1[k]? ∧
        (os.foldl (count ex opts g) acc).1.2[k]? = acc.1.2[k]?)
  | [], acc => by simp
  | o :: os, acc => by
    obtain ⟨hadmitted, hcounts⟩ := counted ex opts g os (count ex opts g acc o)
    rw [List.foldl_cons]
    refine ⟨?_, fun k => ?_⟩
    · rw [hadmitted, List.filter_cons]
      unfold count
      by_cases hq : qualifies ex opts o = true
      · by_cases hm : opts.minHits ≤ g.hitsOf o.key + 1
        · simp [hq, hm]
        · simp [hq, hm]
      · simp [hq]
    · obtain ⟨hin, hout⟩ := hcounts k
      by_cases hrest : ∃ o ∈ os, o.key = k ∧ qualifies ex opts o = true
      · refine ⟨fun _ => hin hrest, fun hn => absurd ?_ hn⟩
        obtain ⟨o', ho', h⟩ := hrest
        exact ⟨o', List.mem_cons_of_mem _ ho', h⟩
      · rw [(hout hrest).1, (hout hrest).2]
        unfold count
        by_cases ho : o.key = k ∧ qualifies ex opts o = true
        · refine ⟨fun _ => ?_, fun hn => absurd ⟨o, List.mem_cons_self, ho⟩ hn⟩
          rw [if_pos ho.2]
          dsimp only
          rw [ho.1, SortedMap.getElem?_insert, SortedMap.getElem?_erase, if_pos rfl, if_pos rfl]
          exact ⟨rfl, rfl⟩
        · refine ⟨fun ⟨o', ho', h⟩ => ?_, fun _ => ?_⟩
          · rcases List.mem_cons.mp ho' with rfl | ho'
            · exact absurd h ho
            · exact absurd ⟨o', ho', h⟩ hrest
          · split
            · rename_i hq
              have hne : k ≠ o.key := fun he => ho ⟨he.symm, hq⟩
              dsimp only
              rw [SortedMap.getElem?_insert, SortedMap.getElem?_erase, if_neg hne, if_neg hne]
              exact ⟨rfl, rfl⟩
            · exact ⟨rfl, rfl⟩

theorem qualified_iff {key : TrackKey Camera} {view : View Camera β ε} :
    qualified ex opts key view = true ↔ ∃ o ∈ view.observations, o.key = key ∧ qualifies ex opts o = true := by
  simp [qualified]

/-! ## Any sequence of calls -/

/-- The two counts are what the history says: the length of a track's run, and for the tracks that
have one the instants its camera has been away. -/
structure Lawful (ex : Extents β φ) (opts : GateOptions φ) (past : List (View Camera β ε))
    (g : ObservationGate Camera) : Prop where
  hits : ∀ k, g.hits[k]? = if run ex opts past k = 0 then none else some (run ex opts past k)
  absent : ∀ k, 0 < run ex opts past k → g.absent[k]?.getD 0 = Streak.absences (away ex opts k) past

variable {past : List (View Camera β ε)}

theorem Lawful.hitsOf (h : Lawful ex opts past g) (k : TrackKey Camera) : g.hitsOf k = run ex opts past k := by
  unfold ObservationGate.hitsOf
  rw [h.hits]
  split
  · rename_i hz
    rw [hz]
    rfl
  · rfl

theorem run_qualified {key : TrackKey Camera} {view : View Camera β ε} (hq : qualified ex opts key view = true) :
    run ex opts (past ++ [view]) key = run ex opts past key + 1 :=
  Streak.length_hit hq (by simp [away, hq])

/-- The counts after a view, if no track comes twice in it. -/
theorem Lawful.filter (h : Lawful ex opts past g) {view : View Camera β ε}
    (hn : (view.observations.map ClusterObservation.key).Nodup) :
    ∃ g', g.filter ex opts view = (g', .ok (view.observations.filter fun o =>
      qualifies ex opts o && decide (opts.minHits ≤ run ex opts (past ++ [view]) o.key))) ∧
      Lawful ex opts (past ++ [view]) g' := by
  have hnone : repeated [] view.observations = none := (repeated_none_iff List.nodup_nil).mpr hn
  obtain ⟨hadmitted, hcounts⟩ := counted ex opts g view.observations
    (g.hits.toList.foldl (carry opts g view.cameras) (∅, ∅), [])
  have hcarried := carried opts g view.cameras g.hits.toList (∅, ∅) (SortedMap.nodup_keys g.hits)
  unfold ObservationGate.filter
  rw [hnone]
  refine ⟨_, Prod.ext rfl (congrArg Except.ok ?_), ?_, ?_⟩
  · rw [hadmitted, List.nil_append]
    refine List.filter_congr fun o ho => ?_
    by_cases hq : qualifies ex opts o = true
    · rw [run_qualified (qualified_iff.mpr ⟨o, ho, rfl, hq⟩), h.hitsOf]
    · rw [Bool.not_eq_true] at hq
      rw [hq, Bool.false_and, Bool.false_and]
  · intro k
    dsimp only
    obtain ⟨hin, hout⟩ := hcounts k
    cases hq : qualified ex opts k view with
    | true =>
      rw [(hin (qualified_iff.mp hq)).1, run_qualified hq, if_neg (Nat.succ_ne_zero _), h.hitsOf]
    | false =>
      have hnot : ¬ ∃ o ∈ view.observations, o.key = k ∧ qualifies ex opts o = true := by
        rw [← qualified_iff, hq]
        exact Bool.false_ne_true
      rw [(hout hnot).1]
      obtain ⟨hstay, hleave⟩ := hcarried k
      by_cases hc : k.cameraId ∈ view.cameras
      · -- the camera was there, and the track was not
        rw [(hleave (.inl fun hs => hs.1 hc)).1]
        have hmiss : run ex opts (past ++ [view]) k = 0 := Streak.length_miss hq (by simp [away, hc])
        rw [hmiss, if_pos rfl]
        simp
      · have habsent : away ex opts k view = true := by simp [away, hc, hq]
        have hrun : run ex opts (past ++ [view]) k =
            if Streak.absences (away ex opts k) past + 1 ≤ opts.maxAbsentInstants then run ex opts past k else 0 :=
          Streak.length_absent hq habsent
        have hhits := h.hits k
        by_cases hz : run ex opts past k = 0
        · have hz' : run ex opts (past ++ [view]) k = 0 := by
            rw [hrun, hz, ite_self]
          rw [hz', if_pos rfl]
          rw [if_pos hz] at hhits
          have hkey : k ∉ g.hits.toList.map Prod.fst := by
            rintro hm
            obtain ⟨⟨k', c⟩, hp, rfl⟩ := List.mem_map.mp hm
            rw [SortedMap.mem_toList.mp hp] at hhits
            cases hhits
          rw [(hleave (.inr hkey)).1]
          simp
        · rw [if_neg hz] at hhits
          have hmissed : g.missed k = Streak.absences (away ex opts k) past + 1 := by
            unfold missed
            rw [h.absent k (Nat.pos_of_ne_zero hz)]
          by_cases hle : Streak.absences (away ex opts k) past + 1 ≤ opts.maxAbsentInstants
          · rw [(hstay ⟨hc, by rw [hmissed]; exact hle⟩ _ (SortedMap.mem_toList.mpr hhits)).1]
            have hsame : run ex opts (past ++ [view]) k = run ex opts past k := hrun.trans (if_pos hle)
            rw [hsame, if_neg hz]
          · rw [(hleave (.inl fun hs => hle (by rw [← hmissed]; exact hs.2))).1]
            have hgone : run ex opts (past ++ [view]) k = 0 := hrun.trans (if_neg hle)
            rw [hgone, if_pos rfl]
            simp
  · intro k hpos
    dsimp only
    obtain ⟨hin, hout⟩ := hcounts k
    cases hq : qualified ex opts k view with
    | true =>
      rw [(hin (qualified_iff.mp hq)).2, Streak.absences_snoc, if_neg]
      · rfl
      · simp [away, hq]
    | false =>
      have hnot : ¬ ∃ o ∈ view.observations, o.key = k ∧ qualifies ex opts o = true := by
        rw [← qualified_iff, hq]
        exact Bool.false_ne_true
      rw [(hout hnot).2]
      by_cases hc : k.cameraId ∈ view.cameras
      · have hmiss : run ex opts (past ++ [view]) k = 0 := Streak.length_miss hq (by simp [away, hc])
        rw [hmiss] at hpos
        exact absurd hpos (Nat.lt_irrefl 0)
      · have habsent : away ex opts k view = true := by simp [away, hc, hq]
        have hrun : run ex opts (past ++ [view]) k =
            if Streak.absences (away ex opts k) past + 1 ≤ opts.maxAbsentInstants then run ex opts past k else 0 :=
          Streak.length_absent hq habsent
        have hkept : Streak.absences (away ex opts k) past + 1 ≤ opts.maxAbsentInstants := by
          by_contra hle
          rw [hrun, if_neg hle] at hpos
          exact absurd hpos (Nat.lt_irrefl 0)
        have hsame : run ex opts (past ++ [view]) k = run ex opts past k := hrun.trans (if_pos hkept)
        rw [hsame] at hpos
        have hmissed : g.missed k = Streak.absences (away ex opts k) past + 1 := by
          unfold missed
          rw [h.absent k hpos]
        have hhits := h.hits k
        rw [if_neg (Nat.pos_iff_ne_zero.mp hpos)] at hhits
        rw [((hcarried k).1 ⟨hc, by rw [hmissed]; exact hkept⟩ _ (SortedMap.mem_toList.mpr hhits)).2]
        rw [Streak.absences_snoc, if_pos habsent, ← hmissed]
        rfl

theorem lawful_empty : Lawful ex opts ([] : List (View Camera β ε)) {} :=
  ⟨fun _ => by simp [run], fun _ hpos => by simp [run] at hpos⟩

/-- Refused: nothing moves. -/
theorem filter_twice (ex : Extents β φ) (opts : GateOptions φ) (g : ObservationGate Camera) {view : View Camera β ε}
    (hn : ¬ (view.observations.map ClusterObservation.key).Nodup) :
    ∃ key ∈ view.observations.map ClusterObservation.key, g.filter ex opts view = (g, .error (.twice key)) := by
  unfold ObservationGate.filter
  cases hr : repeated [] view.observations with
  | none => exact absurd ((repeated_none_iff List.nodup_nil).mp hr) hn
  | some key => exact ⟨key, repeated_mem hr, rfl⟩

theorem Lawful.call (h : Lawful ex opts past g) (i : Input Camera β ε) :
    Lawful ex opts (remember past i) (g.call ex opts i).1 := by
  cases i with
  | reset => exact lawful_empty
  | filter view =>
    show Lawful ex opts (remember past (.filter view)) (g.filter ex opts view).1
    unfold remember
    dsimp only
    by_cases hn : (view.observations.map ClusterObservation.key).Nodup
    · rw [if_pos hn]
      obtain ⟨g', hg', hlaw⟩ := h.filter hn
      rw [hg']
      exact hlaw
    · rw [if_neg hn]
      obtain ⟨key, -, hrefused⟩ := filter_twice ex opts g hn
      rw [hrefused]
      exact h

theorem lawful_exec : ∀ (inputs : List (Input Camera β ε)) {past : List (View Camera β ε)} {g : ObservationGate Camera},
    Lawful ex opts past g →
    Lawful ex opts (inputs.foldl remember past) (Machine.exec (call ex opts) g inputs).1
  | [], _, _, h => h
  | i :: inputs, _, _, h => lawful_exec inputs (h.call i)

/-- **The history law.** Whatever was filtered before: a view that gives a track twice is refused
and changes nothing; of another one exactly those observations are admitted, in their order, whose
frame has a height, whose box is above the minimum, and whose track has qualified in enough
instants of its run, this one among them. -/
theorem admits_by_history (ex : Extents β φ) (opts : GateOptions φ) (inputs : List (Input Camera β ε))
    (view : View Camera β ε) :
    let g := (Machine.exec (call ex opts) {} inputs).1
    (¬ (view.observations.map ClusterObservation.key).Nodup →
      ∃ key ∈ view.observations.map ClusterObservation.key, g.filter ex opts view = (g, .error (.twice key))) ∧
    ((view.observations.map ClusterObservation.key).Nodup →
      ∃ g' admitted, g.filter ex opts view = (g', .ok admitted) ∧ admitted.Sublist view.observations ∧
        ∀ o ∈ view.observations, o ∈ admitted ↔ 0 < o.frameHeight ∧
          ex.above (ex.fraction o.box o.frameHeight) opts.minHeightFraction = true ∧
          opts.minHits ≤ run ex opts (history inputs ++ [view]) o.key) := by
  refine ⟨fun hn => filter_twice ex opts _ hn, fun hn => ?_⟩
  have hlaw : Lawful ex opts (history inputs) (Machine.exec (call ex opts) {} inputs).1 :=
    lawful_exec inputs lawful_empty
  obtain ⟨g', hg', -⟩ := hlaw.filter hn
  refine ⟨g', _, hg', List.filter_sublist, fun o ho => ?_⟩
  rw [List.mem_filter]
  unfold qualifies
  by_cases hh : o.frameHeight ≤ 0
  · simp [hh]
  · simp [hh, ho, Int.not_le.mp hh]

end ObservationGate

end ShipInfer.Identity
