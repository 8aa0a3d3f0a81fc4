import ShipInfer.Elements.Provenance
import ShipInfer.Runners.FanIn

/-!
# Crop elements in series and in parallel

Crop elements that file under one key, one behind the other or on branches that meet
at a fan-in. A row filed is an object, known by the slot that filed it, so two slots
never file the same one.
-/

namespace ShipInfer.Elements

open Runners (ChainItem MetaValue WalkError)
open Runners.ChainWalk
open Chain (Edge ElementNode)
open Perception.Stages (Values)

/-- What a slot files for a row. -/
structure Filing (Row : Type) where
  slot : String
  value : Row
  deriving DecidableEq

/-- A crop element, and the model it asks. -/
structure Slot (Image Crop Row Box : Type) where
  element : CropElement
  world : CropWorld Image Crop Row Box

section
variable {Image Crop Row Box ν : Type}

namespace Slot

def name (s : Slot Image Crop Row Box) : String := s.element.name

def process (s : Slot Image Crop Row Box) (item : Item Image (Filing Row) Box ν) : Except CropError (Item Image (Filing Row) Box ν) :=
  s.element.doProcess s.world (Filing.mk s.name) item

end Slot

/-- One element behind the other. -/
def series (slots : List (Slot Image Crop Row Box)) (item : Item Image (Filing Row) Box ν) :
    Except CropError (Item Image (Filing Row) Box ν) :=
  slots.foldlM (fun item s => s.process item) item

/-- Why the frame of a fan-in is refused: by an element, or by the walk. -/
inductive Refusal
  | element (e : CropError)
  | walk (e : WalkError)

/-- Each element on a branch of its own; what the node they meet at receives. -/
def parallel [DecidableEq Row] (edges : List Edge) (node : ElementNode) (slots : List (Slot Image Crop Row Box))
    (item : Item Image (Filing Row) Box ν) : Except Refusal (Option (Item Image (Filing Row) Box ν)) := do
  let branches ← slots.mapM fun s =>
    match s.process item with
    | .ok out => .ok (s.name, some out)
    | .error e => .error (.element e)
  match inbound edges node (Dict.empty.update branches) with
  | .ok received => .ok received
  | .error e => .error (.walk e)

end

/-! ## One scatter-back -/

namespace CropElement

variable {Image Crop Row Box ν ρ : Type}

/-- What the element files for a frame, whatever is filed there already. -/
def covers (e : CropElement) (w : CropWorld Image Crop Row Box) (file : Row → ρ) (item : Item Image ρ Box ν) :
    Except CropError (Dict Nat ρ) := do
  let (crops, rows) ← e.prepare w item
  if rows = [] then return .empty
  else
    match ← e.submitCrops w crops with
    | .rows (_ :: _) data =>
      if data.length ≠ rows.length then throw (.notOneRowPerCrop rows.length data.length)
      else return Dict.empty.update (rows.zip (data.map file))
    | vectors => throw (.notOneRowPerCrop rows.length vectors.count)

theorem doProcess_eq (e : CropElement) (w : CropWorld Image Crop Row Box) (file : Row → ρ) (item : Item Image ρ Box ν) :
    e.doProcess w file item = (e.covers w file item >>= e.scatter item) := by
  unfold doProcess covers
  cases e.prepare w item with
  | error err => rfl
  | ok p =>
    obtain ⟨crops, rows⟩ := p
    show (if rows = [] then _ else _) = (if rows = [] then _ else _) >>= _
    by_cases hrows : rows = []
    · rw [if_pos hrows, if_pos hrows]
      rfl
    · rw [if_neg hrows, if_neg hrows]
      cases e.submitCrops w crops with
      | error err => rfl
      | ok v =>
        show e.finish file item v rows = (match v with
          | .rows (_ :: _) data => if data.length ≠ rows.length then throw (.notOneRowPerCrop rows.length data.length)
            else return Dict.empty.update (rows.zip (data.map file))
          | vectors => throw (.notOneRowPerCrop rows.length vectors.count)) >>= _
        unfold finish
        cases v with
        | scalar value => rfl
        | rows shape data =>
          cases shape with
          | nil => rfl
          | cons dim shape =>
            dsimp only
            by_cases hlen : data.length ≠ rows.length
            · rw [if_pos hlen, if_pos hlen]
              rfl
            · rw [if_neg hlen, if_neg hlen]
              rfl

/-- An element reads the payload, the detections and their extent. -/
theorem covers_congr (e : CropElement) (w : CropWorld Image Crop Row Box) (file : Row → ρ) {item item' : Item Image ρ Box ν}
    (hpayload : item'.payload = item.payload) (hd : item'.metadata.get? "detections" = item.metadata.get? "detections")
    (hhw : item'.metadata.get? "frame_hw" = item.metadata.get? "frame_hw") : e.covers w file item' = e.covers w file item := by
  have hprepare : e.prepare w item' = e.prepare w item := by
    unfold prepare refuseOtherFrame
    rw [hpayload, hd, hhw]
  unfold covers
  rw [hprepare]

theorem mem_update {p : Nat × ρ} : ∀ {l : List (Nat × ρ)} {d : Dict Nat ρ},
    p ∈ (d.update l).entries → p ∈ d.entries ∨ p ∈ l
  | [], _, h => .inl h
  | q :: l, d, h => by
    rcases mem_update (d := d.set q.1 q.2) (l := l) h with hd | hl
    · rcases Dict.mem_set_entries.mp hd with rfl | hold
      · exact .inr List.mem_cons_self
      · exact .inl hold.1
    · exact .inr (List.mem_cons_of_mem _ hl)

theorem covers_mem {e : CropElement} {w : CropWorld Image Crop Row Box} {file : Row → ρ} {item : Item Image ρ Box ν}
    {covered : Dict Nat ρ} (h : e.covers w file item = .ok covered) {row : Nat} {v : ρ} (hv : (row, v) ∈ covered.entries) :
    ∃ r, v = file r := by
  unfold covers at h
  obtain ⟨p, -, h⟩ := bind_ok.mp h
  obtain ⟨crops, rows⟩ := p
  dsimp only at h
  by_cases hrows : rows = []
  · rw [if_pos hrows] at h
    cases h
    cases hv
  · rw [if_neg hrows] at h
    obtain ⟨vectors, -, h⟩ := bind_ok.mp h
    cases vectors with
    | scalar value => cases h
    | rows shape data =>
      cases shape with
      | nil => cases h
      | cons dim shape =>
        dsimp only at h
        by_cases hlen : data.length ≠ rows.length
        · rw [if_pos hlen] at h
          cases h
        · rw [if_neg hlen] at h
          cases h
          rcases mem_update (d := .empty) hv with hnil | hzip
          · cases hnil
          · obtain ⟨r, -, hr⟩ := List.mem_map.mp (List.of_mem_zip hzip).2
            exact ⟨r, hr.symm⟩

/-- Nothing is filed under the key, or the rows of a scatter-back are. -/
def Declared (key : String) (item : Item Image ρ Box ν) (base : Dict Nat ρ) : Prop :=
  (item.metadata.get? key = none ∧ base = .empty) ∨ item.metadata.get? key = some (.rowIndexed base)

/-- The same item, with these rows beside those filed under the key. -/
structure Extends (key : String) (base covered : Dict Nat ρ) (item item' : Item Image ρ Box ν) : Prop where
  context : item'.context = item.context
  caps : item'.caps = item.caps
  payload : item'.payload = item.payload
  other : ∀ k, k ≠ key → item'.metadata.get? k = item.metadata.get? k
  rows : ∃ union, item'.metadata.get? key = some (.rowIndexed union) ∧ ∀ row, union.get? row = (base.get? row).or (covered.get? row)

def Apart (d d' : Dict Nat ρ) : Prop := ∀ row ∈ d.keys, row ∉ d'.keys

theorem get?_update_apart {base covered : Dict Nat ρ} (h : Apart covered base) (row : Nat) :
    (base.update covered.entries).get? row = (base.get? row).or (covered.get? row) := by
  have hnodup : (base.keys ++ covered.entries.map Prod.fst).Nodup :=
    List.nodup_append.mpr ⟨base.keys_nodup, covered.keys_nodup, fun a ha b hb hab => h b hb (hab ▸ ha)⟩
  rw [Dict.get?, Dict.update_entries_of_new hnodup, List.lookup_append]
  rfl

theorem scatter_apart {e : CropElement} {item : Item Image ρ Box ν} {base covered : Dict Nat ρ}
    (hbase : Declared e.metaKey item base) (h : Apart covered base) :
    ∃ item', e.scatter item covered = .ok item' ∧ Extends e.metaKey base covered item item' := by
  unfold scatter
  dsimp only
  rcases hbase with ⟨hget, rfl⟩ | hget
  · rw [hget]
    refine ⟨_, rfl, rfl, rfl, rfl, fun k hk => Dict.get?_set_ne hk, covered, Dict.get?_set_self _ _ _, fun row => ?_⟩
    rw [Dict.get?_empty, Option.none_or]
  · rw [hget]
    dsimp only
    by_cases hnil : covered.entries = []
    · rw [if_pos hnil]
      refine ⟨item, rfl, rfl, rfl, rfl, fun _ _ => rfl, base, hget, fun row => ?_⟩
      have hnone : covered.get? row = none := by rw [Dict.get?, hnil, List.lookup_nil]
      rw [hnone, Option.or_none]
    · have hfind : covered.keys.find? base.contains = none :=
        List.find?_eq_none.mpr fun row hrow hc => h row hrow (Dict.contains_iff.mp hc)
      rw [if_neg hnil, hfind]
      exact ⟨_, rfl, rfl, rfl, rfl, fun k hk => Dict.get?_set_ne hk, _, Dict.get?_set_self _ _ _, get?_update_apart h⟩

theorem apart_of_scatter {e : CropElement} {item item' : Item Image ρ Box ν} {base covered : Dict Nat ρ}
    (hbase : Declared e.metaKey item base) (h : e.scatter item covered = .ok item') : Apart covered base := by
  intro row hrow
  rcases free_of_scatter h with hnone | ⟨existing, hfiled, hnew⟩
  · rcases hbase with ⟨-, rfl⟩ | hget
    · exact List.not_mem_nil
    · rw [hnone] at hget
      cases hget
  · rcases hbase with ⟨-, rfl⟩ | hget
    · exact List.not_mem_nil
    · rw [filed, hget] at hfiled
      cases hfiled
      exact hnew row hrow

theorem mem_keys_union {base covered union : Dict Nat ρ}
    (h : ∀ row, union.get? row = (base.get? row).or (covered.get? row)) {row : Nat} :
    row ∈ union.keys ↔ row ∈ base.keys ∨ row ∈ covered.keys := by
  rw [← Dict.contains_iff, ← Dict.contains_iff, ← Dict.contains_iff, Dict.contains, Dict.contains, Dict.contains, h row]
  cases base.get? row <;> simp

end CropElement

section
variable {Image Crop Row Box ν : Type}

namespace Slot

def covers (s : Slot Image Crop Row Box) (item : Item Image (Filing Row) Box ν) : Except CropError (Dict Nat (Filing Row)) :=
  s.element.covers s.world (Filing.mk s.name) item

end Slot

open CropElement (Declared Extends Apart)

/-- Every slot can be answered, and no row is covered twice. -/
structure Clean (item : Item Image (Filing Row) Box ν) (base : Dict Nat (Filing Row)) (slots : List (Slot Image Crop Row Box)) :
    Prop where
  covers : ∀ s ∈ slots, ∃ covered, s.covers item = .ok covered ∧ Apart covered base
  apart : slots.Pairwise fun s s' => ∀ covered covered', s.covers item = .ok covered → s'.covers item = .ok covered' →
    Apart covered covered'

/-- The rows filed before and those the slots cover. -/
def Union (item : Item Image (Filing Row) Box ν) (base : Dict Nat (Filing Row)) (slots : List (Slot Image Crop Row Box))
    (rows : Dict Nat (Filing Row)) : Prop :=
  ∀ row v, rows.get? row = some v ↔
    base.get? row = some v ∨ ∃ s ∈ slots, ∃ covered, s.covers item = .ok covered ∧ covered.get? row = some v

/-- What a family of slots over one item is assumed to be: they share a key, which none reads. -/
structure Shared (key : String) (slots : List (Slot Image Crop Row Box)) : Prop where
  keys : ∀ s ∈ slots, s.element.metaKey = key
  detections : key ≠ "detections"
  extent : key ≠ "frame_hw"

theorem Apart.symm {ρ : Type} {d d' : Dict Nat ρ} (h : Apart d d') : Apart d' d := fun row hrow hd => h row hd hrow

theorem Clean.perm {item : Item Image (Filing Row) Box ν} {base : Dict Nat (Filing Row)} {slots slots' : List (Slot Image Crop Row Box)}
    (h : Clean item base slots) (hp : slots'.Perm slots) : Clean item base slots' := by
  refine ⟨fun s hs => h.covers s (hp.mem_iff.mp hs), ?_⟩
  refine (hp.pairwise_iff ?_).mpr h.apart
  intro s s' hss covered covered' hc hc'
  exact Apart.symm (hss covered' covered hc' hc)

theorem Union.perm {item : Item Image (Filing Row) Box ν} {base rows : Dict Nat (Filing Row)}
    {slots slots' : List (Slot Image Crop Row Box)} (h : Union item base slots' rows) (hp : slots'.Perm slots) :
    Union item base slots rows := by
  intro row v
  rw [h row v]
  simp only [hp.mem_iff]

theorem Slot.process_eq (s : Slot Image Crop Row Box) (item : Item Image (Filing Row) Box ν) :
    s.process item = (s.covers item >>= s.element.scatter item) := s.element.doProcess_eq s.world _ item

theorem Slot.covers_congr {key : String} {s : Slot Image Crop Row Box} (hd : key ≠ "detections") (hhw : key ≠ "frame_hw")
    {base covered : Dict Nat (Filing Row)} {item item' : Item Image (Filing Row) Box ν} (h : Extends key base covered item item') :
    s.covers item' = s.covers item :=
  s.element.covers_congr s.world _ h.payload (h.other _ hd.symm) (h.other _ hhw.symm)

/-- A slot that goes through has covered rows that were free. -/
theorem Slot.process_ok {key : String} {s : Slot Image Crop Row Box} (hkey : s.element.metaKey = key)
    {base : Dict Nat (Filing Row)} {item item' : Item Image (Filing Row) Box ν} (hbase : Declared key item base)
    (h : s.process item = .ok item') :
    ∃ covered, s.covers item = .ok covered ∧ Apart covered base ∧ Extends key base covered item item' := by
  subst hkey
  rw [s.process_eq] at h
  obtain ⟨covered, hcovers, hscatter⟩ := bind_ok.mp h
  have hapart := CropElement.apart_of_scatter hbase hscatter
  obtain ⟨item'', hscatter', hextends⟩ := CropElement.scatter_apart hbase hapart
  rw [hscatter] at hscatter'
  cases hscatter'
  exact ⟨covered, hcovers, hapart, hextends⟩

theorem Slot.process_apart {key : String} {s : Slot Image Crop Row Box} (hkey : s.element.metaKey = key)
    {base covered : Dict Nat (Filing Row)} {item : Item Image (Filing Row) Box ν} (hbase : Declared key item base)
    (hcovers : s.covers item = .ok covered) (h : Apart covered base) :
    ∃ item', s.process item = .ok item' ∧ Extends key base covered item item' := by
  subst hkey
  obtain ⟨item', hscatter, hextends⟩ := CropElement.scatter_apart hbase h
  refine ⟨item', ?_, hextends⟩
  rw [s.process_eq, hcovers]
  exact hscatter

/-! ## In series -/

/-- What the slots behind the first cover, once its rows are filed. -/
theorem clean_cons {key : String} {s : Slot Image Crop Row Box} {slots : List (Slot Image Crop Row Box)}
    (hd : key ≠ "detections") (hhw : key ≠ "frame_hw") {base covered union : Dict Nat (Filing Row)}
    {item item' : Item Image (Filing Row) Box ν} (hcovers : s.covers item = .ok covered) (hapart : Apart covered base)
    (hext : Extends key base covered item item') (hu : ∀ row, union.get? row = (base.get? row).or (covered.get? row)) :
    Clean item base (s :: slots) ↔ Clean item' union slots := by
  have hcongr (s : Slot Image Crop Row Box) : s.covers item' = s.covers item := Slot.covers_congr hd hhw hext
  constructor
  · intro h
    obtain ⟨hfirst, hrest⟩ := List.pairwise_cons.mp h.apart
    refine ⟨fun s' hs' => ?_, ?_⟩
    · obtain ⟨covered', hc', ha'⟩ := h.covers s' (List.mem_cons_of_mem _ hs')
      refine ⟨covered', (hcongr s').trans hc', fun row hrow hmem => ?_⟩
      rcases (CropElement.mem_keys_union hu).mp hmem with hb | hc
      · exact ha' row hrow hb
      · exact hfirst s' hs' covered covered' hcovers hc' row hc hrow
    · simpa only [hcongr] using hrest
  · intro h
    refine ⟨fun s' hs' => ?_, List.pairwise_cons.mpr ⟨fun s' hs' c c' hc hc' row hrow hrow' => ?_, ?_⟩⟩
    · rcases List.mem_cons.mp hs' with rfl | hs'
      · exact ⟨covered, hcovers, hapart⟩
      · obtain ⟨covered', hc', ha'⟩ := h.covers s' hs'
        exact ⟨covered', (hcongr s').symm.trans hc', fun row hrow hb => ha' row hrow ((CropElement.mem_keys_union hu).mpr (.inl hb))⟩
    · obtain ⟨covered', hcov', ha'⟩ := h.covers s' hs'
      rw [hcongr s', hc'] at hcov'
      cases hcov'
      rw [hcovers] at hc
      cases hc
      exact ha' row hrow' ((CropElement.mem_keys_union hu).mpr (.inr hrow))
    · have hpair := h.apart
      simpa only [hcongr] using hpair

theorem series_clean {key : String} : ∀ {slots : List (Slot Image Crop Row Box)} {item : Item Image (Filing Row) Box ν}
    {base : Dict Nat (Filing Row)}, Shared key slots → Declared key item base → Clean item base slots →
    ∃ out rows, series slots item = .ok out ∧ Declared key out rows ∧
      (slots ≠ [] → out.metadata.get? key = some (.rowIndexed rows)) ∧ Union item base slots rows
  | [], item, base, _, hbase, _ => ⟨item, base, rfl, hbase, fun h => absurd rfl h, fun row v => by simp⟩
  | s :: slots, item, base, hs, hbase, h => by
    obtain ⟨covered, hcovers, hapart⟩ := h.covers s List.mem_cons_self
    obtain ⟨item', hprocess, hext⟩ := Slot.process_apart (hs.keys s List.mem_cons_self) hbase hcovers hapart
    obtain ⟨union, hunion, hrows⟩ := hext.rows
    have hclean := (clean_cons hs.detections hs.extent hcovers hapart hext hrows).mp h
    have hshared : Shared key slots := ⟨fun s' hs' => hs.keys s' (List.mem_cons_of_mem _ hs'), hs.detections, hs.extent⟩
    obtain ⟨out, rows, hseries, hout, hlast, hu⟩ := series_clean hshared (.inr hunion) hclean
    refine ⟨out, rows, ?_, hout, fun _ => ?_, fun row v => ?_⟩
    · rw [series, List.foldlM_cons, hprocess]
      exact hseries
    · rcases hout with ⟨hnone, -⟩ | hget
      · cases slots with
        | nil =>
          cases hseries
          rw [hunion] at hnone
          cases hnone
        | cons s' slots => exact hlast (List.cons_ne_nil _ _)
      · exact hget
    · have hcongr (s : Slot Image Crop Row Box) : s.covers item' = s.covers item := Slot.covers_congr hs.detections hs.extent hext
      rw [hu row v, hrows row]
      simp only [hcongr, List.mem_cons, exists_eq_or_imp, hcovers, Except.ok.injEq, exists_eq_left', ← or_assoc]
      refine or_congr_left ?_
      -- no row of the slot is filed already
      cases hb : base.get? row with
      | none => simp
      | some v' =>
        have hnot : covered.get? row = none := Dict.get?_eq_none_iff.mpr fun hmem =>
          hapart row hmem (Dict.contains_iff.mp (by rw [Dict.contains, hb]; rfl))
        simp [hnot]

theorem clean_of_series {key : String} : ∀ {slots : List (Slot Image Crop Row Box)} {item out : Item Image (Filing Row) Box ν}
    {base : Dict Nat (Filing Row)}, Shared key slots → Declared key item base → series slots item = .ok out → Clean item base slots
  | [], item, out, base, _, _, _ => ⟨fun s hs => absurd hs List.not_mem_nil, .nil⟩
  | s :: slots, item, out, base, hs, hbase, h => by
    rw [series, List.foldlM_cons] at h
    obtain ⟨item', hprocess, hrest⟩ := bind_ok.mp h
    obtain ⟨covered, hcovers, hapart, hext⟩ := Slot.process_ok (hs.keys s List.mem_cons_self) hbase hprocess
    obtain ⟨union, hunion, hrows⟩ := hext.rows
    have hshared : Shared key slots := ⟨fun s' hs' => hs.keys s' (List.mem_cons_of_mem _ hs'), hs.detections, hs.extent⟩
    exact (clean_cons hs.detections hs.extent hcovers hapart hext hrows).mpr (clean_of_series hshared (.inr hunion) hrest)

/-! ## In parallel -/

/-- The branch of a slot, as it comes out. -/
def Slot.out (s : Slot Image Crop Row Box) (item : Item Image (Filing Row) Box ν) : Item Image (Filing Row) Box ν :=
  match s.process item with
  | .ok out => out
  | .error _ => item

theorem Slot.out_eq {s : Slot Image Crop Row Box} {item out : Item Image (Filing Row) Box ν} (h : s.process item = .ok out) :
    s.out item = out := by rw [Slot.out, h]

/-- What the item carries beside the key, and these rows under it. -/
structure Carries (key : String) (item : Item Image (Filing Row) Box ν)
    (merged : Dict String (MetaValue (Filing Row) (Filed (Filing Row) Box ν))) (rows : Dict Nat (Filing Row)) : Prop where
  other : ∀ k, k ≠ key → merged.get? k = item.metadata.get? k ∨ ∃ held filed, merged.get? k = some (.rowIndexed held) ∧
    item.metadata.get? k = some (.rowIndexed filed) ∧ ∀ row, held.get? row = filed.get? row
  rows : merged.get? key = some (.rowIndexed rows)

section
variable [DecidableEq Row] {node : ElementNode} {contributors : List (String × Item Image (Filing Row) Box ν)} {key : String}
  {item out : Item Image (Filing Row) Box ν} {merged : Dict String (MetaValue (Filing Row) (Filed (Filing Row) Box ν))}
  {base covered held : Dict Nat (Filing Row)}

omit [DecidableEq Row] in
theorem agreeOn_of_eq {held filed : Dict Nat (Filing Row)} (h : ∀ row, held.get? row = filed.get? row) : AgreeOn held filed := by
  intro row v v' hv hv'
  rw [h row, hv'] at hv
  exact (Option.some.inj hv).symm

variable (node contributors) in
/-- The first branch is taken as it is. -/
theorem first_branch (hext : Extends key base covered item out) {rows : Dict Nat (Filing Row)}
    (hrows : out.metadata.get? key = some (.rowIndexed rows)) :
    ∃ merged, out.metadata.entries.foldlM (mergeEntry node contributors) .empty = .ok merged ∧ Carries key item merged rows := by
  obtain ⟨merged, hmerged, hkeys⟩ := mergeBranch_join node contributors out.metadata.entries .empty
    out.metadata.keys_nodup fun k => by rw [Dict.get?_empty]; trivial
  have hget : ∀ k, merged.get? k = out.metadata.get? k := by
    intro k
    cases hk : out.metadata.get? k with
    | none => exact ((hkeys k).1 hk).trans (Dict.get?_empty k)
    | some v =>
      have hjoins := (hkeys k).2 (by rw [show out.metadata.entries.lookup k = some v from hk]; exact Option.some_ne_none v)
      rw [Dict.get?_empty, show out.metadata.entries.lookup k = some v from hk] at hjoins
      exact hjoins
  exact ⟨merged, hmerged, fun k hk => .inl ((hget k).trans (hext.other k hk)), (hget key).trans hrows⟩

variable (node contributors) in
/-- A further branch joins where the rows under the key agree, and only there. -/
theorem next_branch (hcarries : Carries key item merged held) (hext : Extends key base covered item out)
    {rows : Dict Nat (Filing Row)} (hrows : out.metadata.get? key = some (.rowIndexed rows)) :
    (AgreeOn held rows → ∃ merged' union, out.metadata.entries.foldlM (mergeEntry node contributors) merged = .ok merged' ∧
      Carries key item merged' union ∧ ∀ row, union.get? row = (held.get? row).or (rows.get? row)) ∧
    (∀ merged', out.metadata.entries.foldlM (mergeEntry node contributors) merged = .ok merged' → AgreeOn held rows) := by
  have hlookup : ∀ k, out.metadata.entries.lookup k = out.metadata.get? k := fun _ => rfl
  constructor
  · intro hagree
    obtain ⟨merged', hmerged, hkeys⟩ := mergeBranch_join node contributors out.metadata.entries merged
      out.metadata.keys_nodup fun k => by
        rw [hlookup k]
        by_cases hk : k = key
        · rw [hk, hcarries.rows, hrows]
          exact hagree
        · rw [hext.other k hk]
          rcases hcarries.other k hk with he | ⟨h, f, hm, hi, hsame⟩
          · rw [he]
            cases item.metadata.get? k with
            | none => trivial
            | some v => cases v with
              | rowIndexed r => exact agreeOn_of_eq fun _ => rfl
              | other v => trivial
          · rw [hm, hi]
            exact agreeOn_of_eq hsame
    have hkey := (hkeys key).2 (by rw [hlookup, hrows]; exact Option.some_ne_none _)
    rw [hcarries.rows, hlookup, hrows] at hkey
    obtain ⟨union, hunion, hunionrows⟩ := hkey
    refine ⟨merged', union, hmerged, ⟨fun k hk => ?_, hunion⟩, hunionrows⟩
    have hother := hext.other k hk
    cases hv : item.metadata.get? k with
    | none =>
      rw [hv] at hother
      rw [(hkeys k).1 hother]
      rcases hcarries.other k hk with he | ⟨h, f, hm, hi, hsame⟩
      · exact .inl (he.trans hv)
      · rw [hv] at hi
        cases hi
    | some v =>
      rw [hv] at hother
      have hjoins := (hkeys k).2 (by rw [hlookup, hother]; exact Option.some_ne_none _)
      rw [hlookup, hother] at hjoins
      rcases hcarries.other k hk with he | ⟨h, f, hm, hi, hsame⟩
      · rw [he, hv] at hjoins
        cases v with
        | other v => exact .inl hjoins
        | rowIndexed r =>
          obtain ⟨u, hu, hur⟩ := hjoins
          exact .inr ⟨u, r, hu, rfl, fun row => by rw [hur row]; cases r.get? row <;> rfl⟩
      · rw [hv] at hi
        cases hi
        rw [hm] at hjoins
        obtain ⟨u, hu, hur⟩ := hjoins
        exact .inr ⟨u, f, hu, rfl, fun row => by rw [hur row, hsame row]; cases f.get? row <;> rfl⟩
  · intro merged' hmerged
    by_contra hclash
    obtain ⟨e, he⟩ := mergeBranch_clash node contributors out.metadata.entries merged
      out.metadata.keys_nodup ⟨key, by rw [hcarries.rows, hlookup, hrows]; exact hclash⟩
    rw [he] at hmerged
    cases hmerged

omit [DecidableEq Row] in
theorem Slot.slot_of_covers {s : Slot Image Crop Row Box} (h : s.covers item = .ok covered) {row : Nat} {v : Filing Row}
    (hv : covered.get? row = some v) : v.slot = s.name := by
  obtain ⟨r, rfl⟩ := CropElement.covers_mem h (Dict.get?_eq_some_iff.mp hv)
  rfl

omit [DecidableEq Row] in
theorem mem_of_get? {d : Dict Nat (Filing Row)} {row : Nat} {v : Filing Row} (h : d.get? row = some v) : row ∈ d.keys :=
  Dict.mem_keys_of_mem (Dict.get?_eq_some_iff.mp h)

omit [DecidableEq Row] in
/-- The rows of a branch agree with those joined so far where no slot so far covers one of its own. -/
theorem agreeOn_iff {slots : List (Slot Image Crop Row Box)} {s : Slot Image Crop Row Box} {rows : Dict Nat (Filing Row)}
    (hu : Union item base slots held) (hcovers : s.covers item = .ok covered) (hapart : Apart covered base)
    (hrows : ∀ row, rows.get? row = (base.get? row).or (covered.get? row)) (hnames : ∀ s' ∈ slots, s'.name ≠ s.name) :
    AgreeOn held rows ↔ ∀ s' ∈ slots, ∀ covered', s'.covers item = .ok covered' → Apart covered' covered := by
  constructor
  · intro h s' hs' covered' hc' row hrow' hrow
    obtain ⟨v', hv'⟩ := Option.isSome_iff_exists.mp (Dict.contains_iff.mpr hrow')
    obtain ⟨v, hv⟩ := Option.isSome_iff_exists.mp (Dict.contains_iff.mpr hrow)
    have hbase : base.get? row = none := Dict.get?_eq_none_iff.mpr (hapart row hrow)
    have hheld : held.get? row = some v' := (hu row v').mpr (.inr ⟨s', hs', covered', hc', hv'⟩)
    have heq := h row v' v hheld (by rw [hrows row, hbase, hv]; rfl)
    refine hnames s' hs' ?_
    rw [← Slot.slot_of_covers hc' hv', heq, Slot.slot_of_covers hcovers hv]
  · intro h row v v' hv hv'
    rw [hrows row] at hv'
    cases hb : base.get? row with
    | some b =>
      rw [hb] at hv'
      have hheld : held.get? row = some b := (hu row b).mpr (.inl hb)
      rw [hv] at hheld
      exact Option.some.inj (hheld.trans hv')
    | none =>
      rw [hb, Option.none_or] at hv'
      rcases (hu row v).mp hv with hold | ⟨s', hs', covered', hc', hcv⟩
      · rw [hb] at hold
        cases hold
      · exact absurd (mem_of_get? hv') (h s' hs' covered' hc' row (mem_of_get? hcv))

omit [DecidableEq Row] in
theorem union_append {slots : List (Slot Image Crop Row Box)} {s : Slot Image Crop Row Box} {rows union : Dict Nat (Filing Row)}
    (hu : Union item base slots held) (hcovers : s.covers item = .ok covered) (hapart : Apart covered base)
    (hrows : ∀ row, rows.get? row = (base.get? row).or (covered.get? row)) (hagree : AgreeOn held rows)
    (hunion : ∀ row, union.get? row = (held.get? row).or (rows.get? row)) : Union item base (slots ++ [s]) union := by
  intro row v
  have hlast : (∃ s' ∈ slots ++ [s], ∃ c, s'.covers item = .ok c ∧ c.get? row = some v) ↔
      (∃ s' ∈ slots, ∃ c, s'.covers item = .ok c ∧ c.get? row = some v) ∨ covered.get? row = some v := by
    simp only [List.mem_append, List.mem_singleton, or_and_right, exists_or, exists_eq_left, hcovers, Except.ok.injEq, exists_eq_left']
  rw [hlast, ← or_assoc, ← hu row v, hunion row]
  cases hh : held.get? row with
  | some h =>
    refine ⟨.inl, fun hv => hv.elim id fun hc => ?_⟩
    have hb : base.get? row = none := Dict.get?_eq_none_iff.mpr (hapart row (mem_of_get? hc))
    have := hagree row h v hh (by rw [hrows row, hb, hc]; rfl)
    exact congrArg some this
  | none =>
    have hb : base.get? row = none := by
      cases hb : base.get? row with
      | none => rfl
      | some b => rw [(hu row b).mpr (.inl hb)] at hh; cases hh
    rw [Option.none_or, hrows row, hb, Option.none_or]
    exact ⟨.inr, fun hv => hv.elim (fun hc => by cases hc) id⟩

/-- What every branch of a fan-in is. -/
def Branches (key : String) (item : Item Image (Filing Row) Box ν) (base : Dict Nat (Filing Row))
    (slots : List (Slot Image Crop Row Box)) : Prop :=
  ∀ s ∈ slots, ∃ covered, s.covers item = .ok covered ∧ Apart covered base ∧ Extends key base covered item (s.out item)

omit [DecidableEq Row] in
theorem union_single {s : Slot Image Crop Row Box} {rows : Dict Nat (Filing Row)} (hcovers : s.covers item = .ok covered)
    (hapart : Apart covered base) (hrows : ∀ row, rows.get? row = (base.get? row).or (covered.get? row)) :
    Union item base [s] rows := by
  intro row v
  rw [hrows row]
  simp only [List.mem_singleton, exists_eq_left, hcovers, Except.ok.injEq, exists_eq_left']
  cases hb : base.get? row with
  | none => simp
  | some b =>
    have hnot : covered.get? row = none := Dict.get?_eq_none_iff.mpr fun hmem => hapart row hmem (mem_of_get? hb)
    simp [hnot]

omit [DecidableEq Row] in
theorem clean_single {s : Slot Image Crop Row Box} (hcovers : s.covers item = .ok covered) (hapart : Apart covered base) :
    Clean item base [s] := by
  refine ⟨fun t ht => ?_, List.pairwise_singleton _ _⟩
  rw [List.mem_singleton.mp ht]
  exact ⟨covered, hcovers, hapart⟩

variable (node contributors) in
/-- The branches still to come, joined to those that are in. -/
theorem merge_rest : ∀ (rest : List (Slot Image Crop Row Box)) {slots : List (Slot Image Crop Row Box)}
    {merged : Dict String (MetaValue (Filing Row) (Filed (Filing Row) Box ν))} {held : Dict Nat (Filing Row)},
    Branches key item base (slots ++ rest) → ((slots ++ rest).map Slot.name).Nodup → Carries key item merged held →
    Union item base slots held → Clean item base slots →
    (Clean item base (slots ++ rest) → ∃ merged' rows,
      (rest.map fun s => (s.name, s.out item)).foldlM
        (fun merged p => p.2.metadata.entries.foldlM (mergeEntry node contributors) merged) merged = .ok merged' ∧
      Carries key item merged' rows ∧ Union item base (slots ++ rest) rows) ∧
    (∀ merged', (rest.map fun s => (s.name, s.out item)).foldlM
        (fun merged p => p.2.metadata.entries.foldlM (mergeEntry node contributors) merged) merged = .ok merged' →
      Clean item base (slots ++ rest))
  | [], slots, merged, held, _, _, hcarries, hu, hclean => by
    rw [List.append_nil]
    exact ⟨fun _ => ⟨merged, held, rfl, hcarries, hu⟩, fun _ _ => hclean⟩
  | s :: rest, slots, merged, held, hbranches, hnames, hcarries, hu, hclean => by
    obtain ⟨covered, hcovers, hapart, hext⟩ := hbranches s (List.mem_append_right _ List.mem_cons_self)
    obtain ⟨rows, hrowsGet, hrows⟩ := hext.rows
    obtain ⟨hjoin, hclash⟩ := next_branch node contributors hcarries hext hrowsGet
    have hother : ∀ s' ∈ slots, s'.name ≠ s.name := by
      intro s' hs' he
      rw [List.map_append] at hnames
      exact List.disjoint_of_nodup_append hnames (List.mem_map_of_mem hs') (by rw [he]; exact List.mem_map_of_mem List.mem_cons_self)
    have hagree := agreeOn_iff hu hcovers hapart hrows hother
    have hsplit : slots ++ s :: rest = (slots ++ [s]) ++ rest := by simp
    have hextend : AgreeOn held rows → Clean item base (slots ++ [s]) := by
      intro h
      refine ⟨fun s' hs' => ?_, List.pairwise_append.mpr ⟨hclean.apart, List.pairwise_singleton _ _, fun s' hs' t ht c c' hc hc' => ?_⟩⟩
      · rcases List.mem_append.mp hs' with hs' | hs'
        · exact hclean.covers s' hs'
        · rw [List.mem_singleton.mp hs']
          exact ⟨covered, hcovers, hapart⟩
      · rw [List.mem_singleton.mp ht, hcovers] at hc'
        cases hc'
        exact hagree.mp h s' hs' c hc
    rw [hsplit] at hbranches hnames ⊢
    rw [List.map_cons, List.foldlM_cons]
    constructor
    · intro hall
      have hpair := (List.pairwise_append.mp (List.pairwise_append.mp hall.apart).1).2.2
      have hagr : AgreeOn held rows := hagree.mpr fun s' hs' c' hc' => hpair s' hs' s (List.mem_singleton_self s) c' covered hc' hcovers
      obtain ⟨merged₁, union, hmerged, hcarries₁, hunion⟩ := hjoin hagr
      have hstep := merge_rest rest hbranches hnames hcarries₁ (union_append hu hcovers hapart hrows hagr hunion) (hextend hagr)
      obtain ⟨merged', rows', hrest, hfinal⟩ := hstep.1 hall
      exact ⟨merged', rows', by rw [hmerged]; exact hrest, hfinal⟩
    · intro merged' hok
      obtain ⟨merged₁, hmerged, hrest⟩ := bind_ok.mp hok
      have hagr := hclash merged₁ hmerged
      obtain ⟨merged₂, union, hmerged₂, hcarries₁, hunion⟩ := hjoin hagr
      rw [hmerged] at hmerged₂
      cases hmerged₂
      exact (merge_rest rest hbranches hnames hcarries₁ (union_append hu hcovers hapart hrows hagr hunion) (hextend hagr)).2 merged' hrest

omit [DecidableEq Row] in
theorem mapM_eq_map {α β ε : Type} {f : α → Except ε β} {g : α → β} : ∀ {l : List α}, (∀ a ∈ l, f a = .ok (g a)) →
    l.mapM f = .ok (l.map g)
  | [], _ => rfl
  | a :: l, h => by
    rw [List.mapM_cons, h a List.mem_cons_self, mapM_eq_map fun a' ha' => h a' (List.mem_cons_of_mem _ ha')]
    rfl

/-- What the branches hand to the node they meet at, where every slot goes through. -/
theorem parallel_of_processed (edges : List Edge) {slots : List (Slot Image Crop Row Box)}
    (hall : ∀ s ∈ slots, s.process item = .ok (s.out item)) (hnames : (slots.map Slot.name).Nodup)
    (hinputs : node.inputs = slots.map Slot.name) (hdonor : ∀ d, node.donor = some d → d ∈ node.inputs)
    (htwo : 2 ≤ slots.length) : ∃ donor : Item Image (Filing Row) Box ν,
      parallel edges node slots item = match mergeMeta node (slots.map fun s => (s.name, s.out item)) with
        | .ok merged => .ok (some { donor with metadata := merged })
        | .error e => .error (.walk e) := by
  have hbranches : (slots.mapM fun s => match s.process item with
      | .ok out => (.ok (s.name, some out) : Except Refusal (String × Option (Item Image (Filing Row) Box ν)))
      | .error e => .error (.element e)) = .ok (slots.map fun s => (s.name, some (s.out item))) :=
    mapM_eq_map fun s hs => by rw [hall s hs]
  have hget : ∀ s ∈ slots, (Dict.empty.update (slots.map fun s => (s.name, some (s.out item)))).get? s.name =
      some (some (s.out item)) := by
    intro s hs
    rw [Dict.get?_eq_some_iff, Dict.update_entries_of_new]
    · exact List.mem_append_right _ (List.mem_map_of_mem (f := fun s => (s.name, some (s.out item))) hs)
    · rw [List.map_map]
      exact hnames
  unfold parallel
  rw [hbranches]
  dsimp only [bind, Except.bind]
  generalize Dict.empty.update (slots.map fun s => (s.name, some (s.out item))) = produced at hget ⊢
  have hcontributors : Runners.ChainWalk.contributors node produced = slots.map fun s => (s.name, s.out item) := by
    unfold Runners.ChainWalk.contributors
    rw [hinputs, List.filterMap_map]
    refine (List.filterMap_congr (g := some ∘ fun s => (s.name, s.out item)) fun s hs => ?_).trans (by rw [List.filterMap_eq_map])
    simp only [Function.comp_apply, hget s hs, Option.join_some, Option.map_some]
  obtain ⟨s₀, s₁, rest, rfl⟩ : ∃ s₀ s₁ rest, slots = s₀ :: s₁ :: rest := by
    rcases slots with _ | ⟨s₀, _ | ⟨s₁, rest⟩⟩
    · simp at htwo
    · simp at htwo
    · exact ⟨s₀, s₁, rest, rfl⟩
  obtain ⟨donor, hdonorOf⟩ : ∃ donor, donorOf edges node produced (s₀.out item)
      ((s₀ :: s₁ :: rest).map fun s => (s.name, s.out item)) = .ok donor := by
    unfold donorOf
    cases hd : node.donor with
    | none => exact ⟨s₀.out item, by simp [substituteDonor, hd]⟩
    | some d =>
      have hmem := hdonor d hd
      rw [hinputs] at hmem
      obtain ⟨s, hs, rfl⟩ := List.mem_map.mp hmem
      exact ⟨s.out item, by simp only [Option.bind_some, hget s hs, Option.join_some]⟩
  refine ⟨donor, ?_⟩
  unfold inbound
  rw [hcontributors]
  rw [List.map_cons, List.map_cons] at hdonorOf ⊢
  dsimp only
  rw [hdonorOf]
  dsimp only [bind, Except.bind]
  rw [if_neg (List.cons_ne_nil _ _)]
  cases mergeMeta node ((s₀.name, s₀.out item) :: (s₁.name, s₁.out item) :: rest.map fun s => (s.name, s.out item)) <;> rfl

/-- The branches go through, and what they carry under the key is all that is covered. -/
theorem parallel_clean (edges : List Edge) {slots : List (Slot Image Crop Row Box)} (hs : Shared key slots)
    (hbase : Declared key item base) (hnames : (slots.map Slot.name).Nodup) (hinputs : node.inputs = slots.map Slot.name)
    (hdonor : ∀ d, node.donor = some d → d ∈ node.inputs) (htwo : 2 ≤ slots.length) (h : Clean item base slots) :
    ∃ received rows, parallel edges node slots item = .ok (some received) ∧
      received.metadata.get? key = some (.rowIndexed rows) ∧ Union item base slots rows := by
  have hprocessed : ∀ s ∈ slots, ∃ covered, s.covers item = .ok covered ∧ Apart covered base ∧
      s.process item = .ok (s.out item) ∧ Extends key base covered item (s.out item) := by
    intro s hmem
    obtain ⟨covered, hcovers, hapart⟩ := h.covers s hmem
    obtain ⟨item', hprocess, hext⟩ := Slot.process_apart (hs.keys s hmem) hbase hcovers hapart
    rw [Slot.out_eq hprocess]
    exact ⟨covered, hcovers, hapart, hprocess, hext⟩
  have hbranches : Branches key item base slots := fun s hmem => by
    obtain ⟨covered, hcovers, hapart, -, hext⟩ := hprocessed s hmem
    exact ⟨covered, hcovers, hapart, hext⟩
  obtain ⟨donor, hparallel⟩ := parallel_of_processed edges (fun s hmem => (hprocessed s hmem).choose_spec.2.2.1)
    hnames hinputs hdonor htwo
  cases slots with
  | nil => simp at htwo
  | cons s₀ rest =>
    obtain ⟨covered, hcovers, hapart, hext⟩ := hbranches s₀ List.mem_cons_self
    obtain ⟨rows₀, hget₀, hrows₀⟩ := hext.rows
    obtain ⟨merged₀, hmerged₀, hcarries₀⟩ := first_branch node ((s₀ :: rest).map fun s => (s.name, s.out item))
      hext hget₀
    have hu₀ : Union item base [s₀] rows₀ := union_single hcovers hapart hrows₀
    obtain ⟨merged, rows, hrest, hcarries, hu⟩ := (merge_rest node
      ((s₀ :: rest).map fun s => (s.name, s.out item)) rest hbranches hnames hcarries₀ hu₀
      (clean_single hcovers hapart)).1 h
    have hmerge : mergeMeta node ((s₀ :: rest).map fun s => (s.name, s.out item)) = .ok merged := by
      unfold mergeMeta
      rw [List.map_cons, List.foldlM_cons]
      rw [List.map_cons] at hmerged₀ hrest
      rw [hmerged₀]
      exact hrest
    rw [hmerge] at hparallel
    exact ⟨_, rows, hparallel, hcarries.rows, hu⟩

theorem clean_of_parallel {edges : List Edge} {slots : List (Slot Image Crop Row Box)} (hs : Shared key slots)
    (hbase : Declared key item base) (hnames : (slots.map Slot.name).Nodup) (hinputs : node.inputs = slots.map Slot.name)
    (hdonor : ∀ d, node.donor = some d → d ∈ node.inputs) (htwo : 2 ≤ slots.length)
    {received : Option (Item Image (Filing Row) Box ν)} (h : parallel edges node slots item = .ok received) :
    Clean item base slots := by
  have hprocessed : ∀ s ∈ slots, s.process item = .ok (s.out item) := by
    obtain ⟨branches, hbranches, -⟩ := bind_ok.mp h
    intro s hmem
    obtain ⟨b, -, hb⟩ := exists_of_mem_forall₂ (forall₂_of_mapM_ok hbranches).flip hmem
    cases hp : s.process item with
    | ok out => rw [Slot.out_eq hp]
    | error e => rw [hp] at hb; cases hb
  have hcovered : ∀ s ∈ slots, ∃ covered, s.covers item = .ok covered ∧ Apart covered base ∧
      Extends key base covered item (s.out item) := fun s hmem =>
    Slot.process_ok (hs.keys s hmem) hbase (hprocessed s hmem)
  obtain ⟨donor, hparallel⟩ := parallel_of_processed edges hprocessed hnames hinputs hdonor htwo
  rw [h] at hparallel
  cases slots with
  | nil => simp at htwo
  | cons s₀ rest =>
    obtain ⟨covered, hcovers, hapart, hext⟩ := hcovered s₀ List.mem_cons_self
    obtain ⟨rows₀, hget₀, hrows₀⟩ := hext.rows
    obtain ⟨merged₀, hmerged₀, hcarries₀⟩ := first_branch node ((s₀ :: rest).map fun s => (s.name, s.out item))
      hext hget₀
    cases hmerge : mergeMeta node ((s₀ :: rest).map fun s => (s.name, s.out item)) with
    | error e => rw [hmerge] at hparallel; cases hparallel
    | ok merged =>
      unfold mergeMeta at hmerge
      rw [List.map_cons, List.foldlM_cons] at hmerge
      rw [List.map_cons] at hmerged₀
      rw [hmerged₀] at hmerge
      dsimp only [bind, Except.bind] at hmerge
      have hu₀ : Union item base [s₀] rows₀ := union_single hcovers hapart hrows₀
      have hclean₀ : Clean item base [s₀] := clean_single hcovers hapart
      have hbranches : Branches key item base ([s₀] ++ rest) := hcovered
      exact (merge_rest node _ rest hbranches hnames hcarries₀ hu₀ hclean₀).2 merged hmerge

end

/-! ## Either way -/

/-- The rows of a scatter-back filed under the key. -/
def rowsUnder (key : String) (item : Item Image (Filing Row) Box ν) : Dict Nat (Filing Row) :=
  match item.metadata.get? key with
  | some (.rowIndexed rows) => rows
  | _ => .empty

/-- Rows can be filed under the key, every slot can be answered, and no row is covered twice. -/
def Fits (key : String) (item : Item Image (Filing Row) Box ν) (slots : List (Slot Image Crop Row Box)) : Prop :=
  (∀ v, item.metadata.get? key ≠ some (.other v)) ∧ Clean item (rowsUnder key item) slots

theorem declared_rowsUnder {key : String} {item : Item Image (Filing Row) Box ν}
    (h : ∀ v, item.metadata.get? key ≠ some (.other v)) : Declared key item (rowsUnder key item) := by
  unfold Declared rowsUnder
  cases hget : item.metadata.get? key with
  | none => exact .inl ⟨rfl, rfl⟩
  | some value =>
    cases value with
    | rowIndexed rows => exact .inr rfl
    | other v => exact absurd hget (h v)

/-- What is no mapping, no slot files anything under. -/
theorem Slot.process_blocked {key : String} {s : Slot Image Crop Row Box} (hkey : s.element.metaKey = key)
    {item : Item Image (Filing Row) Box ν} {v : Filed (Filing Row) Box ν} (hget : item.metadata.get? key = some (.other v))
    (hmapping : ∀ rows, item.metadata.get? key ≠ some (.other (.mapping rows))) : ∃ e, s.process item = .error e := by
  subst hkey
  cases hp : s.process item with
  | error e => exact ⟨e, rfl⟩
  | ok out =>
    rw [s.process_eq] at hp
    obtain ⟨covered, -, hscatter⟩ := bind_ok.mp hp
    rcases CropElement.free_of_scatter hscatter with hnone | ⟨existing, hfiled, -⟩
    · rw [hget] at hnone
      cases hnone
    · rw [CropElement.filed, hget] at hfiled
      cases v with
      | mapping rows => exact absurd hget (hmapping rows)
      | detections d => cases hfiled
      | extent hw => cases hfiled
      | value v => cases hfiled

theorem exists_error {ε α : Type} {x : Except ε α} (h : ∀ a, x ≠ .ok a) : ∃ e, x = .error e := by
  cases x with
  | error e => exact ⟨e, rfl⟩
  | ok a => exact absurd rfl (h a)

/-- **Series or parallel.** Crop elements that share a key file the same rows, all that
any of them covers, one behind the other in any order and on branches that meet; or they
refuse the frame both ways. Under a key that holds a plain mapping this is not so. -/
theorem series_parallel [DecidableEq Row] {key : String} {edges : List Edge} {node : ElementNode}
    {slots slots' : List (Slot Image Crop Row Box)} {item : Item Image (Filing Row) Box ν} (hs : Shared key slots)
    (htwo : 2 ≤ slots.length) (hnames : (slots.map Slot.name).Nodup) (hinputs : node.inputs = slots.map Slot.name)
    (hdonor : ∀ d, node.donor = some d → d ∈ node.inputs) (hperm : slots'.Perm slots)
    (hmapping : ∀ rows, item.metadata.get? key ≠ some (.other (.mapping rows))) :
    (Fits key item slots → ∃ a b rows rows', series slots' item = .ok a ∧ parallel edges node slots item = .ok (some b) ∧
      a.metadata.get? key = some (.rowIndexed rows) ∧ b.metadata.get? key = some (.rowIndexed rows') ∧
      (∀ row, rows'.get? row = rows.get? row) ∧ Union item (rowsUnder key item) slots rows) ∧
    (¬ Fits key item slots → (∃ e, series slots' item = .error e) ∧ ∃ e, parallel edges node slots item = .error e) := by
  have hs' : Shared key slots' := ⟨fun s h => hs.keys s (hperm.mem_iff.mp h), hs.detections, hs.extent⟩
  have hne : slots' ≠ [] := fun h => by rw [← hperm.length_eq, h] at htwo; simp at htwo
  constructor
  · intro h
    have hbase := declared_rowsUnder h.1
    obtain ⟨a, rows, hseries, -, hget, hu⟩ := series_clean hs' hbase (h.2.perm hperm)
    obtain ⟨b, rows', hparallel, hget', hu'⟩ := parallel_clean edges hs hbase hnames hinputs hdonor htwo h.2
    refine ⟨a, b, rows, rows', hseries, hparallel, hget hne, hget', fun row => ?_, hu.perm hperm⟩
    apply Option.ext
    intro v
    rw [hu' row v, hu.perm hperm row v]
  · intro h
    by_cases hfree : ∀ v, item.metadata.get? key ≠ some (.other v)
    · have hbase := declared_rowsUnder hfree
      refine ⟨exists_error fun a ha => h ⟨hfree, (clean_of_series hs' hbase ha).perm hperm.symm⟩, exists_error fun b hb => ?_⟩
      exact h ⟨hfree, clean_of_parallel hs hbase hnames hinputs hdonor htwo hb⟩
    · obtain ⟨v, hget⟩ := not_forall_not.mp hfree
      have hblocked : ∀ s ∈ slots, ∃ e, s.process item = .error e := fun s hmem =>
        Slot.process_blocked (hs.keys s hmem) hget hmapping
      refine ⟨exists_error fun a ha => ?_, exists_error fun b hb => ?_⟩
      · cases slots' with
        | nil => exact hne rfl
        | cons s rest =>
          obtain ⟨e, he⟩ := hblocked s (hperm.mem_iff.mp List.mem_cons_self)
          rw [series, List.foldlM_cons, he] at ha
          cases ha
      · obtain ⟨branches, hbranches, -⟩ := bind_ok.mp hb
        cases slots with
        | nil => simp at htwo
        | cons s rest =>
          obtain ⟨e, he⟩ := hblocked s List.mem_cons_self
          rw [List.mapM_cons, he] at hbranches
          cases hbranches

end

/-! ## Two embedders -/

def embedWorld : CropWorld Unit Nat Nat Nat where
  frameOf _ := .ok ((), 8, 8)
  cropBatch _ _ := .ok id
  submit _ crops := .ok (Dict.empty.set "embedding" (.rows [1] crops))
  reduced := .ok

def embedSlot (name label : String) : Slot Unit Nat Nat Nat :=
  ⟨⟨name, "vectors", "embedding", some [label], 8, Nat.succ_pos 7⟩, embedWorld⟩

def embedSlots : List (Slot Unit Nat Nat Nat) := [embedSlot "embed_ship" "ship", embedSlot "embed_person" "person"]

def embedJoin : ElementNode where
  name := "track"
  kind := .track
  element := { impl := "track" }
  inputs := ["embed_ship", "embed_person"]
  outputs := []

def shipAndPerson : Item Unit (Filing Nat) Nat Unit where
  context := {}
  caps := ⟨.any, .any⟩
  payload := some ()
  metadata := Dict.empty.set "detections" (.other (.detections ⟨["ship", "person"], [0, 1], rfl⟩))

/-- A plain mapping under the key: in series the two embedders add to it, and of two
branches that meet the first keeps the key. -/
theorem second_branch_lost :
    let item := { shipAndPerson with metadata := shipAndPerson.metadata.set "vectors" (.other (.mapping (Dict.empty.set 9 ⟨"earlier", 0⟩))) }
    let rows (out : Item Unit (Filing Nat) Nat Unit) := (CropElement.filed (embedSlot "embed_ship" "ship").element out).map Dict.keys
    (series embedSlots item).toOption.bind rows = some [9, 0, 1] ∧
      ((parallel [] embedJoin embedSlots item).toOption.bind id).bind rows = some [9, 0] := by
  decide +kernel

theorem embedSlots_fit : Fits "vectors" shipAndPerson embedSlots := by
  have hship : (embedSlot "embed_ship" "ship").covers shipAndPerson = .ok (Dict.empty.set 0 ⟨"embed_ship", 0⟩) := by rfl
  have hperson : (embedSlot "embed_person" "person").covers shipAndPerson = .ok (Dict.empty.set 1 ⟨"embed_person", 1⟩) := by rfl
  refine ⟨fun v h => ?_, fun s hs => ?_, ?_⟩
  · have hnone : shipAndPerson.metadata.get? "vectors" = none := by rfl
    rw [hnone] at h
    cases h
  · rcases List.mem_cons.mp hs with rfl | hs
    · exact ⟨_, hship, fun row _ => List.not_mem_nil⟩
    · rw [List.mem_singleton.mp hs]
      exact ⟨_, hperson, fun row _ => List.not_mem_nil⟩
  · refine List.pairwise_pair.mpr fun c c' hc hc' => ?_
    rw [hship] at hc
    rw [hperson] at hc'
    cases hc
    cases hc'
    intro row hrow hrow'
    have h₀ := List.mem_singleton.mp hrow
    have h₁ := List.mem_singleton.mp hrow'
    omega

theorem embedSlots_agree : ∃ a b rows rows', series embedSlots.reverse shipAndPerson = .ok a ∧
    parallel [] embedJoin embedSlots shipAndPerson = .ok (some b) ∧ a.metadata.get? "vectors" = some (.rowIndexed rows) ∧
    b.metadata.get? "vectors" = some (.rowIndexed rows') ∧ (∀ row, rows'.get? row = rows.get? row) ∧
    Union shipAndPerson (rowsUnder "vectors" shipAndPerson) embedSlots rows := by
  have hs : Shared "vectors" embedSlots := by
    refine ⟨fun s hs => ?_, by decide, by decide⟩
    rcases List.mem_cons.mp hs with rfl | hs
    · rfl
    · rw [List.mem_singleton.mp hs]
      rfl
  exact (series_parallel hs (Nat.le_refl 2) (by decide) rfl (fun d hd => by cases hd) (List.reverse_perm _)
    (fun rows => embedSlots_fit.1 _)).1 embedSlots_fit

end ShipInfer.Elements
