import Mathlib.Data.Set.Function
import ShipInfer.Identity.Assign

/-!
# Labels only say who is together

A run over the labels and one over their images keep the same groups in the same order: the
table finds the image of a label where the other finds the label.
-/

namespace ShipInfer.Identity.Assigner

open Std (TreeMap)

variable {Camera α σ : Type} [LinearOrder Camera]

/-- The same groups, found under the image of their label. -/
structure Renamed (f : Int → Int) (L : Set Int) (acc acc' : TreeMap Int Nat × List (List Nat)) : Prop where
  groups : acc'.2 = acc.2
  at_ : ∀ label ∈ L, acc'.1[f label]? = acc.1[label]?

theorem Renamed.addLabel {f : Int → Int} {L : Set Int} (hf : Set.InjOn f L)
    {acc acc' : TreeMap Int Nat × List (List Nat)} (h : Renamed f L acc acc') {p : Int × Nat} (hp : p.1 ∈ L) :
    Renamed f L (addLabel acc p) (addLabel acc' (Prod.map f id p)) := by
  have hat := h.at_ p.1 hp
  unfold Assigner.addLabel
  simp only [Prod.map_fst, Prod.map_snd, id_eq]
  rw [hat]
  cases acc.1[p.1]? with
  | none =>
    refine ⟨by rw [h.groups], fun label hl => ?_⟩
    dsimp only
    rw [SortedMap.getElem?_insert, SortedMap.getElem?_insert, h.groups]
    by_cases hlp : label = p.1
    · rw [if_pos (congrArg f hlp), if_pos hlp]
    · rw [if_neg (fun he => hlp (hf hl hp he)), if_neg hlp]
      exact h.at_ label hl
  | some at_ => exact ⟨by rw [h.groups], h.at_⟩

theorem Renamed.addLabels {f : Int → Int} {L : Set Int} (hf : Set.InjOn f L) :
    ∀ (l : List (Int × Nat)) {acc acc' : TreeMap Int Nat × List (List Nat)}, Renamed f L acc acc' →
      (∀ p ∈ l, p.1 ∈ L) →
      Renamed f L (l.foldl Assigner.addLabel acc) ((l.map (Prod.map f id)).foldl Assigner.addLabel acc')
  | [], _, _, h, _ => h
  | p :: l, _, _, h, hl => by
    rw [List.map_cons, List.foldl_cons, List.foldl_cons]
    exact addLabels hf l (h.addLabel hf (hl p List.mem_cons_self)) fun q hq => hl q (List.mem_cons_of_mem _ hq)

theorem orderedGroups_rename {f : Int → Int} {labels : List Int} (hf : Set.InjOn f {label | label ∈ labels}) :
    orderedGroups (labels.map f) = orderedGroups labels := by
  have hstart : Renamed f {label | label ∈ labels} (∅, []) (∅, []) := ⟨rfl, fun _ _ => by simp⟩
  have hmem : ∀ p ∈ labels.zipIdx, p.1 ∈ {label | label ∈ labels} := by
    intro p hp
    exact List.fst_mem_of_mem_zipIdx hp
  have h := Renamed.addLabels hf labels.zipIdx hstart hmem
  unfold orderedGroups
  rw [List.zipIdx_map, h.groups]

/-- **Only the partition is read.** Labels and their images under a renaming that keeps them
apart give the same ids and leave the same state. -/
theorem assign_partition (ar : Cosine α σ) (opts : Options) (s : Assigner Camera α)
    (observations : List (IdentityObservation Camera α)) {labels : List Int} {f : Int → Int}
    (hf : Set.InjOn f {label | label ∈ labels}) :
    s.assign ar opts observations (labels.map f) = s.assign ar opts observations labels := by
  have hgroups : ∀ t : Assigner Camera α,
      assignGroups ar t observations (labels.map f) = assignGroups ar t observations labels := by
    intro t
    unfold assignGroups
    rw [orderedGroups_rename hf]
  unfold assign
  simp only [List.length_map, hgroups]

def shipViews : List (IdentityObservation Nat Int) := [⟨⟨0, 7⟩, [3, 0]⟩, ⟨⟨1, 4⟩, [0, 2]⟩, ⟨⟨2, 9⟩, [1, 0]⟩]

/-- The ship of three cameras, its cluster under another number. -/
theorem harbour_partition :
    harbour.assign axisCosine harbourOptions shipViews ([4, -9, 4].map fun label => -label) =
      harbour.assign axisCosine harbourOptions shipViews [4, -9, 4] :=
  assign_partition axisCosine harbourOptions harbour shipViews fun _ _ _ _ h => Int.neg_inj.mp h

end ShipInfer.Identity.Assigner
