import ShipInfer.Backends.Fold
import ShipInfer.Lib.Machine

/-!
# Attachments keep a model answerable

Along the calls that meet `Meets`, every loaded instance advertises outputs of distinct
names, returns just these for every size it admits, and the batcher scatters them; and a
call that raises leaves folds, advertised outputs and the batcher's specs as they were.
-/

namespace ShipInfer.Backends.Fold

open ShipInfer.Batching

/-! ## When a fold fits -/

/-- What an output's rows are shaped like. -/
def EngineIO.rowShape (t : EngineIO) : List Nat := t.shape.tail.map Int.toNat

section
variable (c : ModelConfig) (e : LoadedEngine)

/-- The engine has the fold's two outputs and they fold, and the area has a name and a
batch axis. -/
structure FoldFits (f : MaskAreaFold) : Prop where
  named : f.name ≠ ""
  axis : ∃ t, e.outputs.head? = some t ∧ t.shape ≠ []
  folds : ∃ rows ∈ e.outputs, ∃ planes ∈ e.outputs, rows.name = f.detections ∧ planes.name = f.prototypes ∧
    MaskAreaFold.check (rows.dtype, concreteShape rows.shape c.effectiveMaxBatchSize)
      (planes.dtype, concreteShape planes.shape c.effectiveMaxBatchSize) = .ok ()

/-- The area takes no advertised output's name, and no size is left to capture, unless
the area's name is a binding's. -/
structure Suits (f : MaskAreaFold) (b : Backend) : Prop where
  fresh : f.name ∈ e.outputNames → f.name ∈ b.kept ∨ f.name = f.prototypes
  replayable : f.name ∈ e.io.map EngineIO.name ∨ ∀ g, b.graphs = some g → g.isEnabled = true →
    ∀ size ∈ g.batchSizes, 1 ≤ size → size ≤ c.effectiveMaxBatchSize → size ∈ g.captured

/-- The names a loaded backend advertises. -/
def Backend.names (b : Backend) : List String :=
  match b.fold with
  | none => e.outputNames.filter fun name => decide (name ∉ b.kept)
  | some f => ((e.outputNames.filter fun name => decide (name ∉ b.kept)).filter fun name => decide (name ≠ f.prototypes)) ++
      [f.name]

/-- A loaded backend that answers: it hides not all, or its fold fits and suits. -/
structure Sound (b : Backend) : Prop where
  bare : b.fold = none → ∃ name ∈ e.outputNames, name ∉ b.kept
  folded : ∀ f, b.fold = some f → FoldFits c e f ∧ Suits c e f b

end

section
variable {c : ModelConfig} {e : LoadedEngine} {b : Backend} {f : MaskAreaFold}

theorem outputNames_nodup (e : LoadedEngine) : e.outputNames.Nodup :=
  e.distinct.sublist (List.filter_sublist.map _)

theorem mem_outputs {t : EngineIO} : t ∈ e.outputs ↔ t ∈ e.io ∧ t.isInput = false := by
  simp [LoadedEngine.outputs]

theorem binding_ok {t : EngineIO} (ht : t ∈ e.io) : binding e t.name = .ok t := by
  unfold binding
  cases hfind : e.io.find? fun u => decide (u.name = t.name) with
  | none =>
    have := List.find?_eq_none.mp hfind t ht
    simp at this
  | some u =>
    have hname : u.name = t.name := by simpa using List.find?_some hfind
    have hmem : u ∈ e.io := List.mem_of_find?_eq_some hfind
    rw [List.inj_on_of_nodup_map e.distinct hmem ht hname]

theorem areaSpec_ok (hf : FoldFits c e f) : ∃ area, areaSpec c e f = .ok area ∧ area.name = f.name ∧
    area.dtype = .fp32 ∧ area.optional = false ∧ (c.strip = true → area.shape = [1]) := by
  obtain ⟨t, ht, haxis⟩ := hf.axis
  obtain ⟨name, dtype, shape, isInput, named, extents⟩ := t
  cases shape with
  | nil => exact absurd rfl haxis
  | cons batch dims =>
    unfold areaSpec
    rw [ht]
    simp only [dif_neg hf.named]
    refine ⟨_, rfl, rfl, rfl, rfl, fun hs => ?_⟩
    simp [hs]

/-- What is advertised: engine outputs that are fetched, and the area last. -/
theorem outputSpecs_ok (hload : b.loaded = true) (hb : Sound c e b) : ∃ plain last, b.outputSpecs c e = .ok (plain ++ last) ∧
    (plain ++ last).map TensorSpec.name = b.names e ∧
    (∀ spec ∈ plain, spec.name ∉ b.kept ∧ ∃ t ∈ e.outputs, spec = t.toSpec c.strip) ∧
    last.map TensorSpec.name = (b.fold.map MaskAreaFold.name).toList ∧
    ∀ spec ∈ last, ∃ f, b.fold = some f ∧ areaSpec c e f = .ok spec := by
  have hplain : ∀ spec ∈ b.advertised c e, spec.name ∉ b.kept ∧ ∃ t ∈ e.outputs, spec = t.toSpec c.strip := by
    intro spec hspec
    obtain ⟨hmem, hkept⟩ := List.mem_filter.mp hspec
    obtain ⟨t, ht, rfl⟩ := List.mem_map.mp hmem
    exact ⟨of_decide_eq_true hkept, t, ht, rfl⟩
  have hfilter : ∀ (p : String → Bool) (l : List TensorSpec),
      (l.filter fun spec => p spec.name).map TensorSpec.name = (l.map TensorSpec.name).filter p := by
    intro p l
    rw [List.filter_map]
    rfl
  have hnames : (b.advertised c e).map TensorSpec.name = e.outputNames.filter fun name => decide (name ∉ b.kept) := by
    rw [Backend.advertised, hfilter fun name => decide (name ∉ b.kept), List.map_map]
    rfl
  cases hfold : b.fold with
  | none =>
    refine ⟨b.advertised c e, [], ?_, ?_, hplain, rfl, fun _ h => (List.not_mem_nil h).elim⟩
    · simp [Backend.outputSpecs, hload, hfold]
    · simp [Backend.names, hfold, hnames]
  | some f =>
    obtain ⟨area, harea, hname, -⟩ := areaSpec_ok (hb.folded f hfold).1
    refine ⟨(b.advertised c e).filter fun spec => decide (spec.name ≠ f.prototypes), [area], ?_, ?_, ?_, ?_, ?_⟩
    · simp only [Backend.outputSpecs, hload, hfold, harea]
      rfl
    · rw [List.map_append, hfilter fun name => decide (name ≠ f.prototypes), hnames]
      simp only [Backend.names, hfold, List.map_cons, List.map_nil, hname]
    · exact fun spec hspec => hplain spec (List.mem_filter.mp hspec).1
    · simp [hname]
    · intro spec hspec
      rw [List.mem_singleton.mp hspec]
      exact ⟨f, rfl, harea⟩

theorem names_nodup (hb : Sound c e b) : (b.names e).Nodup := by
  have hout : (e.outputNames.filter fun name => decide (name ∉ b.kept)).Nodup := (outputNames_nodup e).filter _
  unfold Backend.names
  cases hfold : b.fold with
  | none => exact hout
  | some f =>
    refine List.nodup_append.mpr ⟨hout.filter _, List.nodup_singleton _, ?_⟩
    rintro name hname _ harea rfl
    rw [List.mem_singleton.mp harea] at hname
    obtain ⟨hmem, hproto⟩ := List.mem_filter.mp hname
    obtain ⟨hout', hkept⟩ := List.mem_filter.mp hmem
    rcases (hb.folded f hfold).2.fresh hout' with h | h
    · exact of_decide_eq_true hkept h
    · exact of_decide_eq_true hproto h

theorem names_ne_nil (hb : Sound c e b) : b.names e ≠ [] := by
  unfold Backend.names
  cases hfold : b.fold with
  | none =>
    obtain ⟨name, hname, hkept⟩ := hb.bare hfold
    exact List.ne_nil_of_mem (List.mem_filter.mpr ⟨hname, decide_eq_true hkept⟩)
  | some f => simp

/-! ## Executing -/

/-- The shape and type an output of a name comes home with. -/
def Home (c : ModelConfig) (e : LoadedEngine) (fold : Option MaskAreaFold) (size : Nat) (p : String × Tensor) : Prop :=
  p.2.handle = none ∧
    ((∃ t ∈ e.outputs, t.name = p.1 ∧ fold.map MaskAreaFold.name ≠ some p.1 ∧ p.2.dtype = t.dtype ∧
        p.2.shape = min size c.effectiveMaxBatchSize :: t.rowShape) ∨
      (fold.map MaskAreaFold.name = some p.1 ∧ p.2.dtype = .fp32 ∧ p.2.shape = [size, 1]))

variable (memory : DeviceMemory) (size : Nat)

theorem fetchOne_skip {outputs : Dict String Tensor} {spec : TensorSpec}
    (h : b.fold.map MaskAreaFold.name = some spec.name) : fetchOne c e memory b size outputs spec = .ok outputs :=
  if_pos h

theorem fetchOne_ok {o : Dict String Tensor} {spec : TensorSpec} {t : EngineIO}
    (hfold : b.fold.map MaskAreaFold.name ≠ some spec.name) (hkept : spec.name ∉ b.kept) (ht : t ∈ e.outputs)
    (hspec : spec = t.toSpec c.strip) : fetchOne c e memory b size o spec =
      .ok (o.set spec.name
        (tensorOf t.dtype (min size c.effectiveMaxBatchSize :: t.rowShape) (memory.bytes spec.name))) := by
  have hbind : binding e spec.name = .ok t := by
    rw [hspec]
    exact binding_ok (mem_outputs.mp ht).1
  unfold fetchOne
  rw [if_neg hfold, if_neg hkept, fetchOutput, hbind]
  rfl

/-- The loop over engine outputs brings each home under its name. -/
theorem fetch_ok : ∀ (plain : List TensorSpec) (outputs : Dict String Tensor),
    (outputs.keys ++ plain.map TensorSpec.name).Nodup →
    (∀ spec ∈ plain, b.fold.map MaskAreaFold.name ≠ some spec.name ∧ spec.name ∉ b.kept ∧
      ∃ t ∈ e.outputs, spec = t.toSpec c.strip) →
    (∀ p ∈ outputs.entries, Home c e b.fold size p) →
    ∃ outputs', plain.foldlM (fetchOne c e memory b size) outputs = .ok outputs' ∧
      outputs'.keys = outputs.keys ++ plain.map TensorSpec.name ∧ ∀ p ∈ outputs'.entries, Home c e b.fold size p
  | [], outputs, _, _, hhome => ⟨outputs, rfl, (List.append_nil _).symm, hhome⟩
  | spec :: plain, outputs, hnodup, hplain, hhome => by
    obtain ⟨hfold, hkept, t, ht, hspec⟩ := hplain spec List.mem_cons_self
    have hfresh : spec.name ∉ outputs.keys := by
      intro hmem
      exact (List.nodup_append.mp hnodup).2.2 spec.name hmem spec.name List.mem_cons_self rfl
    have hround := fetchOne_ok memory size (o := outputs) hfold hkept ht hspec
    let next := outputs.set spec.name
      (tensorOf t.dtype (min size c.effectiveMaxBatchSize :: t.rowShape) (memory.bytes spec.name))
    have hkeys : next.keys = outputs.keys ++ [spec.name] := by
      rw [Dict.keys_set, if_neg hfresh]
    have hnext : ∀ p ∈ next.entries, Home c e b.fold size p := by
      intro p hp
      rw [Dict.set_entries_of_new hfresh] at hp
      rcases List.mem_append.mp hp with hp | hp
      · exact hhome p hp
      · have hname : t.name = spec.name := by rw [hspec]; rfl
        rw [List.mem_singleton.mp hp]
        exact ⟨rfl, .inl ⟨t, ht, hname, hfold, rfl, rfl⟩⟩
    obtain ⟨outputs', hloop, hkeys', hhome'⟩ := fetch_ok plain next
      (by simpa [hkeys] using hnodup) (fun spec hspec => hplain spec (List.mem_cons_of_mem _ hspec)) hnext
    refine ⟨outputs', ?_, by simp [hkeys', hkeys], hhome'⟩
    rw [List.foldlM_cons, hround]
    exact hloop

theorem foldOutput_ok (hf : FoldFits c e f) (outputs : Dict String Tensor) :
    foldOutput c e memory f size outputs = .ok (outputs.set f.name (tensorOf .fp32 [size, 1] memory.areas)) := by
  obtain ⟨rows, hrows, planes, hplanes, hdet, hproto, hcheck⟩ := hf.folds
  unfold foldOutput
  rw [← hdet, ← hproto, binding_ok (mem_outputs.mp hrows).1, binding_ok (mem_outputs.mp hplanes).1]
  show (MaskAreaFold.check _ _ >>= fun _ => _) = _
  rw [hcheck]
  rfl

theorem fetch_area {last : List TensorSpec} (hlast : last.map TensorSpec.name = (b.fold.map MaskAreaFold.name).toList)
    (outputs : Dict String Tensor) : last.foldlM (fetchOne c e memory b size) outputs = .ok outputs := by
  cases last with
  | nil => rfl
  | cons area rest =>
    cases hfold : b.fold with
    | none => simp [hfold] at hlast
    | some f =>
      simp only [hfold, Option.map_some, Option.toList_some, List.map_cons, List.cons.injEq, List.map_eq_nil_iff] at hlast
      rw [hlast.2, List.foldlM_cons, fetchOne_skip memory size (by rw [hfold, hlast.1]; rfl)]
      rfl

/-- What comes home is what is advertised. -/
theorem fetchOutputs_ok (hload : b.loaded = true) (hb : Sound c e b) : ∃ specs outs, b.outputSpecs c e = .ok specs ∧
    specs.map TensorSpec.name = b.names e ∧ fetchOutputs c e memory b size = .ok outs ∧ outs.keys = b.names e ∧
    ∀ p ∈ outs.entries, Home c e b.fold size p := by
  obtain ⟨plain, last, hspecs, hnames, hplain, hlast, -⟩ := outputSpecs_ok hload hb
  have hnodup : ((plain ++ last).map TensorSpec.name).Nodup := hnames ▸ names_nodup hb
  rw [List.map_append, hlast] at hnodup
  have hother : ∀ spec ∈ plain, b.fold.map MaskAreaFold.name ≠ some spec.name := by
    intro spec hspec h
    refine (List.nodup_append.mp hnodup).2.2 spec.name (List.mem_map_of_mem hspec) spec.name ?_ rfl
    rw [h]
    exact List.mem_singleton_self _
  obtain ⟨fetched, hloop, hkeys, hhome⟩ := fetch_ok (c := c) (e := e) (b := b) memory size plain .empty
    (by simpa [Dict.keys, Dict.empty] using (List.nodup_append.mp hnodup).1)
    (fun spec hspec => ⟨hother spec hspec, hplain spec hspec⟩) (fun p hp => (List.not_mem_nil hp).elim)
  have hall : (plain ++ last).foldlM (fetchOne c e memory b size) Dict.empty = .ok fetched := by
    rw [List.foldlM_append, hloop]
    exact fetch_area memory size hlast fetched
  have hkeys' : fetched.keys = plain.map TensorSpec.name := hkeys
  cases hfold : b.fold with
  | none =>
    refine ⟨plain ++ last, fetched, hspecs, hnames, ?_, ?_, hfold ▸ hhome⟩
    · unfold fetchOutputs
      rw [hspecs]
      show ((plain ++ last).foldlM (fetchOne c e memory b size) Dict.empty >>= fun _ => _) = _
      rw [hall]
      simp only [hfold]
      rfl
    · rw [← hnames, List.map_append, hlast, hfold, hkeys']
      simp
  | some f =>
    have hfresh : f.name ∉ fetched.keys := by
      rw [hkeys']
      intro hmem
      obtain ⟨spec, hspec, hname⟩ := List.mem_map.mp hmem
      exact hother spec hspec (by rw [hfold, hname]; rfl)
    refine ⟨plain ++ last, fetched.set f.name (tensorOf .fp32 [size, 1] memory.areas), hspecs, hnames, ?_, ?_, ?_⟩
    · unfold fetchOutputs
      rw [hspecs]
      show ((plain ++ last).foldlM (fetchOne c e memory b size) Dict.empty >>= fun _ => _) = _
      rw [hall]
      simp only [hfold]
      exact foldOutput_ok memory size (hb.folded f hfold).1 fetched
    · rw [Dict.keys_set, if_neg hfresh, ← hnames, List.map_append, hlast, hfold, hkeys']
      simp
    · intro p hp
      rw [Dict.set_entries_of_new hfresh] at hp
      rcases List.mem_append.mp hp with hp | hp
      · exact hfold ▸ hhome p hp
      · rw [List.mem_singleton.mp hp]
        exact ⟨rfl, .inr ⟨rfl, rfl, rfl⟩⟩

/-! ### Replaying and capturing -/

end

section
variable {c : ModelConfig} {e : LoadedEngine} {b : Backend} {f : MaskAreaFold} {size : Nat}

theorem maybeReplay_cases {b' : Backend} {captures : Bool} (h : maybeReplay c e b size captures = .ok b') :
    b' = b ∨ ∃ g, b.graphs = some g ∧ b' = { b with graphs := some (g.record size captures) } := by
  unfold maybeReplay at h
  cases hg : b.graphs with
  | none =>
    simp only [hg, Except.ok.injEq] at h
    exact .inl h.symm
  | some g =>
    simp only [hg] at h
    by_cases hnew : g.isEnabled = true ∧ size ∉ g.captured ∧ size ∈ g.batchSizes
    · rw [if_pos hnew] at h
      obtain ⟨_, -, hb'⟩ := bind_ok.mp h
      exact .inr ⟨g, rfl, (Except.ok.inj hb').symm⟩
    · rw [if_neg hnew] at h
      exact .inl (Except.ok.inj h).symm

/-- Recording, or failing to, leaves no more sizes to capture. -/
theorem Suits.record {g : GraphCache} (hs : Suits c e f b) (hg : b.graphs = some g) (captures : Bool) :
    Suits c e f { b with graphs := some (g.record size captures) } := by
  refine ⟨hs.fresh, hs.replayable.imp_right fun hall => ?_⟩
  intro g' hg' hon n hn hlow hhigh
  obtain rfl := Option.some.inj hg'
  unfold GraphCache.record at hon hn ⊢
  cases captures with
  | true =>
    simp only [if_true] at hon hn ⊢
    exact List.mem_cons_of_mem _ (hall g hg hon n hn hlow hhigh)
  | false =>
    simp only [Bool.false_eq_true, if_false] at hon hn ⊢
    refine hall g hg ?_ n hn hlow hhigh
    simp only [GraphCache.isEnabled, Bool.and_eq_true, decide_eq_true_eq] at hon ⊢
    exact ⟨hon.1, by omega⟩

theorem Sound.replay {b' : Backend} {captures : Bool} (hb : Sound c e b)
    (h : maybeReplay c e b size captures = .ok b') :
    Sound c e b' ∧ b'.loaded = b.loaded ∧ b'.fold = b.fold ∧ b'.kept = b.kept := by
  rcases maybeReplay_cases h with rfl | ⟨g, hg, rfl⟩
  · exact ⟨hb, rfl, rfl, rfl⟩
  · refine ⟨⟨hb.bare, fun f hf => ?_⟩, rfl, rfl, rfl⟩
    obtain ⟨hfits, hsuits⟩ := hb.folded f hf
    exact ⟨hfits, hsuits.record hg captures⟩

theorem captureIo_ok (hload : b.loaded = true) (hb : Sound c e b)
    (harea : ∀ f, b.fold = some f → f.name ∈ e.io.map EngineIO.name) : captureIo c e b = .ok () := by
  obtain ⟨plain, last, hspecs, -, hplain, hlast, -⟩ := outputSpecs_ok hload hb
  have hnamed : ∀ spec ∈ plain ++ last, spec.name ∈ e.io.map EngineIO.name := by
    intro spec hspec
    rcases List.mem_append.mp hspec with hspec | hspec
    · obtain ⟨-, t, ht, rfl⟩ := hplain spec hspec
      exact List.mem_map_of_mem (mem_outputs.mp ht).1
    · have hmem : spec.name ∈ (b.fold.map MaskAreaFold.name).toList := hlast ▸ List.mem_map_of_mem hspec
      cases hfold : b.fold with
      | none => simp [hfold] at hmem
      | some f =>
        rw [hfold] at hmem
        rw [List.mem_singleton.mp hmem]
        exact harea f hfold
  unfold captureIo
  rw [hspecs]
  show (plain ++ last).forM _ = _
  refine forM_ok_iff.mpr fun spec hspec => ?_
  obtain ⟨t, ht, hname⟩ := List.mem_map.mp (hnamed spec hspec)
  rw [← hname, binding_ok ht]
  rfl

theorem maybeReplay_ok (hload : b.loaded = true) (hb : Sound c e b) (hlow : 1 ≤ size)
    (hhigh : size ≤ c.effectiveMaxBatchSize) (captures : Bool) : ∃ b', maybeReplay c e b size captures = .ok b' := by
  unfold maybeReplay
  cases hg : b.graphs with
  | none => exact ⟨b, rfl⟩
  | some g =>
    by_cases hnew : g.isEnabled = true ∧ size ∉ g.captured ∧ size ∈ g.batchSizes
    · simp only [if_pos hnew]
      have harea : ∀ f, b.fold = some f → f.name ∈ e.io.map EngineIO.name := by
        intro f hf
        refine ((hb.folded f hf).2.replayable).resolve_right fun hall => ?_
        exact hnew.2.1 (hall g hg hnew.1 size hnew.2.2 hlow hhigh)
      rw [captureIo_ok hload hb harea]
      exact ⟨_, rfl⟩
    · simp only [if_neg hnew]
      exact ⟨b, rfl⟩

/-- A sound backend returns, replaying or not, just what it advertises. -/
theorem execute_ok (hload : b.loaded = true) (hb : Sound c e b) (hlow : 1 ≤ size)
    (hhigh : size ≤ c.effectiveMaxBatchSize) (memory : DeviceMemory) (captures : Bool) : ∃ outs,
      (execute c e memory b size captures).2 = .ok outs ∧ outs.keys = b.names e ∧
        ∀ p ∈ outs.entries, Home c e b.fold size p := by
  obtain ⟨b', hb'⟩ := maybeReplay_ok hload hb hlow hhigh captures
  obtain ⟨hsound, hload', hfold, hkept⟩ := hb.replay hb'
  obtain ⟨-, outs, -, -, hfetch, hkeys, hhome⟩ :=
    fetchOutputs_ok memory size (hload'.trans hload) hsound
  have hnames : b'.names e = b.names e := by rw [Backend.names, Backend.names, hfold, hkept]
  refine ⟨outs, ?_, hkeys.trans hnames, hfold ▸ hhome⟩
  unfold execute
  simp only [hload, hb', hfetch]
  rfl

/-! ### The batcher -/

/-- A spec is of what comes home under its name. -/
def Typed (e : LoadedEngine) (fold : Option MaskAreaFold) (spec : TensorSpec) : Prop :=
  (∀ t ∈ e.outputs, t.name = spec.name → fold.map MaskAreaFold.name ≠ some spec.name →
      t.dtype = spec.dtype ∧ spec.matches t.rowShape = true) ∧
    (fold.map MaskAreaFold.name = some spec.name → spec.dtype = .fp32 ∧ spec.matches [1] = true)

/-- The specs of a batcher take what a backend returns. -/
structure Accepted (e : LoadedEngine) (specs : List TensorSpec) (b : Backend) : Prop where
  present : ∀ spec ∈ specs, spec.optional = true ∨ spec.name ∈ b.names e
  declared : ∀ name ∈ b.names e, ∃ spec ∈ specs, spec.name = name
  typed : ∀ spec ∈ specs, Typed e b.fold spec

theorem slicePart_ok {t : Tensor} {n : Nat} {dims : List Nat} (hhost : t.handle = none) (hshape : t.shape = n :: dims)
    (span : Nat × Nat) : ∃ part, StackingBatcher.slicePart span t = .ok part := by
  unfold StackingBatcher.slicePart
  have hslice : ∃ part, t.sliceBatch span.1 span.2 = .ok part := by
    unfold Tensor.sliceBatch
    split
    · rename_i h
      rw [hhost] at h
      cases h
    · rename_i h
      rw [hshape] at h
      cases h
    · exact ⟨_, rfl⟩
  obtain ⟨part, hpart⟩ := hslice
  exact ⟨part, by rw [hpart]⟩

theorem scatter_ok {batcher : StackingBatcher} {batch : AssembledBatch} {outs : Dict String Tensor}
    (hvalid : validateAgainst outs batcher.outputSpecs .output = .ok ())
    (hrows : ∀ p ∈ outs.entries, p.2.handle = none ∧ ∃ dims, p.2.shape = batch.size :: dims) :
    ∃ parts, batcher.scatter batch outs = .ok parts := by
  have hcheck : outs.entries.forM (StackingBatcher.checkRows batch.size) = .ok () := by
    refine forM_ok_iff.mpr fun p hp => ?_
    obtain ⟨-, dims, hshape⟩ := hrows p hp
    simp [StackingBatcher.checkRows, hshape]
  unfold StackingBatcher.scatter
  rw [hvalid]
  simp only [hcheck]
  by_cases hone : batch.requestCount = 1
  · rw [if_pos hone]
    exact ⟨_, rfl⟩
  · rw [if_neg hone]
    have hslice : ∀ span, ∃ part, StackingBatcher.sliceOutputs outs span = .ok part := by
      intro span
      obtain ⟨part, hpart, -⟩ := Dict.mapValuesM_ok (f := StackingBatcher.slicePart span) (R := fun _ _ => True)
        (d := outs) fun p hp => by
          obtain ⟨hhost, dims, hshape⟩ := hrows p hp
          obtain ⟨part, hpart⟩ := slicePart_ok hhost hshape span
          exact ⟨part, hpart, trivial⟩
      exact ⟨part, hpart⟩
    obtain ⟨parts, hparts, -⟩ := mapM_ok (f := StackingBatcher.sliceOutputs outs) (R := fun _ _ => True)
      (l := batch.spans) (List.forall₂_same.mpr fun span _ => by
        obtain ⟨part, hpart⟩ := hslice span
        exact ⟨part, hpart, trivial⟩)
    exact ⟨parts, hparts⟩

theorem Accepted.scatter {batcher : StackingBatcher} (ha : Accepted e batcher.outputSpecs b) {outs : Dict String Tensor}
    (hkeys : outs.keys = b.names e) (hhome : ∀ p ∈ outs.entries, Home c e b.fold size p)
    (hhigh : size ≤ c.effectiveMaxBatchSize) {batch : AssembledBatch} (hbatch : batch.size = size) :
    ∃ parts, batcher.scatter batch outs = .ok parts := by
  refine scatter_ok (validateAgainst_of ?_ ?_ ?_) ?_
  · rw [hkeys]
    exact ha.present
  · rw [hkeys]
    exact ha.declared
  · intro spec hspec p hp hname
    obtain ⟨htype, harea⟩ := ha.typed spec hspec
    rcases (hhome p hp).2 with ⟨t, ht, htname, hfold, hdtype, hshape⟩ | ⟨hfold, hdtype, hshape⟩
    · obtain ⟨h1, h2⟩ := htype t ht (htname.trans hname) (hname ▸ hfold)
      rw [hdtype, hshape]
      exact ⟨h1, h2⟩
    · obtain ⟨h1, h2⟩ := harea (hname ▸ hfold)
      rw [hdtype, hshape]
      exact ⟨h1.symm, h2⟩
  · intro p hp
    obtain ⟨hhost, hshapes⟩ := hhome p hp
    refine ⟨hhost, ?_⟩
    rcases hshapes with ⟨t, -, -, -, -, hshape⟩ | ⟨-, -, hshape⟩
    · exact ⟨t.rowShape, by rw [hshape, Nat.min_eq_left hhigh, hbatch]⟩
    · exact ⟨[1], by rw [hshape, hbatch]⟩

end

/-! ## The calls -/

/-- The config declares the engine's outputs, each as it is. -/
structure Declares (c : ModelConfig) (e : LoadedEngine) : Prop where
  known : ∀ spec ∈ c.outputSpecs, spec.optional = true ∨ spec.name ∈ e.outputNames
  all : ∀ name ∈ e.outputNames, ∃ spec ∈ c.outputSpecs, spec.name = name
  typed : ∀ spec ∈ c.outputSpecs, Typed e none spec

/-- `set_fold` takes the fold. -/
def accepts (e : LoadedEngine) (f : MaskAreaFold) (b : Backend) : Bool :=
  b.loaded && decide (f.detections ∈ e.outputNames) && decide (f.prototypes ∈ e.outputNames)

/-- The condition on a call, in the state before it. A fold is attached to all instances
or refused by the first that does not hold it already; all hide the same outputs, and one
is left when a fold goes; and an output is kept only when it is hidden already or
nothing asks for it. -/
def Meets (m : Model) : Call → Prop
  | .attach (some f) => m.holdsOther (some f) = true ∨
      ((∃ b ∈ m.instances, accepts m.engine f b = false) ∧
        ∀ b ∈ m.instances.takeWhile (accepts m.engine f), b.fold = some f) ∨
      ((∀ b ∈ m.instances, accepts m.engine f b = true) ∧ 0 < m.config.maxBatchSize ∧
        FoldFits m.config m.engine f ∧ (∀ b ∈ m.instances, Suits m.config m.engine f b) ∧
        ∀ b ∈ m.instances, ∀ b' ∈ m.instances, ∀ name ∈ m.engine.outputNames, name ≠ f.prototypes →
          (name ∈ b.kept ↔ name ∈ b'.kept))
  | .attach none => ∀ first ∈ m.instances.head?, (first.loaded = true → 0 < m.config.maxBatchSize) ∧
      ∀ b ∈ m.instances, b.loaded = true → (∃ name ∈ m.engine.outputNames, name ∉ b.kept) ∧
        ∀ name ∈ m.engine.outputNames, (name ∈ b.kept ↔ first.loaded = true ∧ name ∈ first.kept)
  | .keep i output => ∀ b, m.instances[i]? = some b → b.loaded = true → output ∈ m.engine.outputNames →
      (b.fold = none → ∃ name ∈ m.engine.outputNames, name ≠ output ∧ name ∉ b.kept) →
      output ∈ b.kept ∨ (∃ f, b.fold = some f ∧ output = f.prototypes) ∨
        ∀ spec ∈ m.batcher.outputSpecs, spec.name = output → spec.optional = true
  | .execute _ _ _ _ => True

/-- A loaded instance advertises outputs of distinct names and returns, for every size,
these, and the batcher scatters them. -/
def Answerable (m : Model) : Prop :=
  ∀ b ∈ m.instances, b.loaded = true → ∃ specs, b.outputSpecs m.config m.engine = .ok specs ∧ specs ≠ [] ∧
    (specs.map TensorSpec.name).Nodup ∧
    ∀ size, 1 ≤ size → size ≤ m.config.effectiveMaxBatchSize → ∀ memory captures, ∃ outs,
      (execute m.config m.engine memory b size captures).2 = .ok outs ∧ outs.keys = specs.map TensorSpec.name ∧
        ∀ batch : AssembledBatch, batch.size = size → ∃ parts, m.batcher.scatter batch outs = .ok parts

/-- Folds, advertised outputs and the batcher's specs are as they were. -/
def Unmoved (m m' : Model) : Prop :=
  m'.instances.map Backend.fold = m.instances.map Backend.fold ∧
    m'.instances.map (fun b => b.outputSpecs m'.config m'.engine) =
      m.instances.map (fun b => b.outputSpecs m.config m.engine) ∧
    m'.batcher.outputSpecs = m.batcher.outputSpecs

structure Inv (c : ModelConfig) (e : LoadedEngine) (m : Model) : Prop where
  config : m.config = c
  engine : m.engine = e
  sound : ∀ b ∈ m.instances, b.loaded = true → Sound c e b ∧ Accepted e m.batcher.outputSpecs b

section
variable {c : ModelConfig} {e : LoadedEngine} {m : Model}

theorem Inv.answerable (h : Inv c e m) : Answerable m := by
  intro b hb hload
  obtain ⟨hsound, haccepted⟩ := h.sound b hb hload
  rw [h.config, h.engine]
  obtain ⟨plain, last, hspecs, hnames, -⟩ := outputSpecs_ok hload hsound
  refine ⟨plain ++ last, hspecs, ?_, hnames ▸ names_nodup hsound, ?_⟩
  · rintro hnil
    rw [hnil] at hnames
    exact names_ne_nil hsound hnames.symm
  · intro size hlow hhigh memory captures
    obtain ⟨outs, hout, hkeys, hhome⟩ := execute_ok hload hsound hlow hhigh memory captures
    exact ⟨outs, hout, hkeys.trans hnames.symm, fun batch hbatch => haccepted.scatter hkeys hhome hhigh hbatch⟩

/-- What is true of a backend is true of it in the place of another. -/
theorem Inv.set (h : Inv c e m) {i : Nat} {b : Backend}
    (hb : b.loaded = true → Sound c e b ∧ Accepted e m.batcher.outputSpecs b) :
    Inv c e { m with instances := m.instances.set i b } := by
  refine ⟨h.config, h.engine, fun b' hb' => ?_⟩
  rcases List.mem_or_eq_of_mem_set hb' with hb' | rfl
  · exact h.sound b' hb'
  · exact hb

theorem Accepted.congr {specs : List TensorSpec} {b b' : Backend} (hfold : b'.fold = b.fold)
    (hnames : b'.names e = b.names e) (h : Accepted e specs b) : Accepted e specs b' := by
  refine ⟨?_, ?_, ?_⟩
  · rw [hnames]
    exact h.present
  · rw [hnames]
    exact h.declared
  · rw [hfold]
    exact h.typed

theorem execute_backend (b : Backend) (memory : DeviceMemory) (size : Nat) (captures : Bool) :
    (execute c e memory b size captures).1 = b ∨
      maybeReplay c e b size captures = .ok (execute c e memory b size captures).1 := by
  unfold execute
  by_cases hload : b.loaded = true
  · simp only [hload]
    cases hreplay : maybeReplay c e b size captures with
    | error err => exact .inl rfl
    | ok b' => exact .inr rfl
  · simp [hload]

theorem run_inv (h : Inv c e m) (memory : DeviceMemory) (i size : Nat) (captures : Bool) :
    Inv c e (m.run memory i size captures) := by
  unfold Model.run
  cases hi : m.instances[i]? with
  | none => exact h
  | some b =>
    have hsound := h.sound b (List.mem_of_getElem? hi)
    obtain ⟨rfl, rfl, -⟩ := id h
    refine h.set fun hload => ?_
    rcases execute_backend (c := m.config) (e := m.engine) b memory size captures with heq | hreplay
    · rw [heq] at hload ⊢
      exact hsound hload
    · have hload' : b.loaded = true := by
        rcases maybeReplay_cases hreplay with heq | ⟨g, -, heq⟩ <;> rw [heq] at hload <;> exact hload
      obtain ⟨hs, ha⟩ := hsound hload'
      obtain ⟨hs', -, hfold, hkept⟩ := hs.replay hreplay
      exact ⟨hs', ha.congr hfold (by rw [Backend.names, Backend.names, hfold, hkept])⟩

/-! ### Keeping an output -/

/-- An output kept once more, or one the fold hides, changes no name. -/
theorem names_keep {b : Backend} {output : String} (h : output ∈ b.kept ∨ ∃ f, b.fold = some f ∧ output = f.prototypes) :
    ({ b with kept := if output ∈ b.kept then b.kept else output :: b.kept } : Backend).names e = b.names e := by
  by_cases hk : output ∈ b.kept
  · rw [if_pos hk]
  · obtain ⟨f, hf, rfl⟩ := h.resolve_left hk
    simp only [if_neg hk, Backend.names, hf, List.filter_filter]
    congr 1
    refine List.filter_congr fun name _ => ?_
    by_cases hname : name = f.prototypes <;> simp [hname]

theorem mem_names_keep {b : Backend} {output name : String} :
    name ∈ ({ b with kept := if output ∈ b.kept then b.kept else output :: b.kept } : Backend).names e →
      name ∈ b.names e := by
  have hkept : name ∉ (if output ∈ b.kept then b.kept else output :: b.kept) → name ∉ b.kept := by
    by_cases hk : output ∈ b.kept
    · rw [if_pos hk]
      exact id
    · rw [if_neg hk]
      exact fun h hmem => h (List.mem_cons_of_mem _ hmem)
  unfold Backend.names
  cases b.fold with
  | none =>
    simp only [List.mem_filter, decide_eq_true_eq]
    exact fun h => ⟨h.1, hkept h.2⟩
  | some f =>
    simp only [List.mem_append, List.mem_filter, decide_eq_true_eq]
    exact Or.imp_left fun h => ⟨⟨h.1.1, hkept h.1.2⟩, h.2⟩

theorem names_keep_or {b : Backend} (output : String) {name : String} (h : name ∈ b.names e) :
    name = output ∨ name ∈ ({ b with kept := if output ∈ b.kept then b.kept else output :: b.kept } : Backend).names e := by
  by_cases hname : name = output
  · exact .inl hname
  · refine .inr ?_
    have hkept : name ∉ b.kept → name ∉ (if output ∈ b.kept then b.kept else output :: b.kept) := by
      by_cases hk : output ∈ b.kept
      · rw [if_pos hk]
        exact id
      · rw [if_neg hk]
        exact fun hn hmem => (List.mem_cons.mp hmem).elim hname hn
    revert h
    unfold Backend.names
    cases b.fold with
    | none =>
      simp only [List.mem_filter, decide_eq_true_eq]
      exact fun h => ⟨h.1, hkept h.2⟩
    | some f =>
      simp only [List.mem_append, List.mem_filter, decide_eq_true_eq]
      exact Or.imp_left fun h => ⟨⟨h.1.1, hkept h.1.2⟩, h.2⟩

theorem keepOnDevice_cases {b b' : Backend} {output : String} (h : b.keepOnDevice e output = .ok b') :
    b.loaded = true ∧ output ∈ e.outputNames ∧
      (b.fold = none → ∃ name ∈ e.outputNames, name ≠ output ∧ name ∉ b.kept) ∧
      b' = { b with kept := if output ∈ b.kept then b.kept else output :: b.kept } := by
  unfold Backend.keepOnDevice at h
  by_cases hload : b.loaded = true
  · rw [if_neg (by simp [hload])] at h
    by_cases hname : output ∉ e.outputNames
    · rw [if_pos hname] at h
      cases h
    · rw [if_neg hname] at h
      by_cases hlast : b.fold = none ∧ ∀ name ∈ e.outputNames, name ∈ (if output ∈ b.kept then b.kept else output :: b.kept)
      · rw [if_pos hlast] at h
        cases h
      · rw [if_neg hlast, Except.ok.injEq] at h
        refine ⟨hload, not_not.mp hname, fun hfold => ?_, h.symm⟩
        have hnot : ¬ ∀ name ∈ e.outputNames, name ∈ (if output ∈ b.kept then b.kept else output :: b.kept) :=
          fun hall => hlast ⟨hfold, hall⟩
        simp only [not_forall] at hnot
        obtain ⟨name, hmem, hkept⟩ := hnot
        refine ⟨name, hmem, ?_, fun hk => hkept ?_⟩
        · rintro rfl
          by_cases hk : name ∈ b.kept <;> simp [hk] at hkept
        · by_cases ho : output ∈ b.kept <;> simp [ho, hk]
  · simp [hload] at h

theorem keep_inv (h : Inv c e m) {i : Nat} {output : String} (hmeets : Meets m (.keep i output)) :
    Inv c e (m.keep i output).1 := by
  unfold Model.keep
  cases hi : m.instances[i]? with
  | none => exact h
  | some b =>
    have hmeets' := hmeets b hi
    obtain ⟨rfl, rfl, hsounds⟩ := id h
    cases hkeep : b.keepOnDevice m.engine output with
    | error err =>
      simp only [hkeep]
      exact h
    | ok b' =>
      obtain ⟨hload, hname, hleft, rfl⟩ := keepOnDevice_cases hkeep
      simp only [hkeep]
      obtain ⟨hsound, haccepted⟩ := hsounds b (List.mem_of_getElem? hi) hload
      refine h.set fun _ => ⟨⟨fun hfold => ?_, fun f hf => ?_⟩, ?_, ?_, haccepted.typed⟩
      · obtain ⟨name, hmem, hne, hkept⟩ := hleft hfold
        refine ⟨name, hmem, fun hk => ?_⟩
        by_cases ho : output ∈ b.kept
        · exact hkept (by simpa [ho] using hk)
        · exact (by simpa [ho] using hk : name = output ∨ name ∈ b.kept).elim hne hkept
      · obtain ⟨hfits, hsuits⟩ := hsound.folded f hf
        refine ⟨hfits, fun hfresh => (hsuits.fresh hfresh).imp_left fun hk => ?_, hsuits.replayable⟩
        by_cases ho : output ∈ b.kept <;> simp [ho, hk]
      · intro spec hspec
        rcases haccepted.present spec hspec with hopt | hmem
        · exact .inl hopt
        · rcases names_keep_or output hmem with heq | hmem'
          · rcases hmeets' hload hname hleft with hk | hf | hopt
            · exact .inr (by rw [names_keep (.inl hk)]; exact hmem)
            · exact .inr (by rw [names_keep (.inr hf)]; exact hmem)
            · exact .inl (hopt spec hspec heq)
          · exact .inr hmem'
      · exact fun name hmem => haccepted.declared name (mem_names_keep hmem)

/-! ### Attaching a fold -/

theorem setFold_accepts {b : Backend} {f : MaskAreaFold} (h : accepts e f b = true) :
    b.setFold e (some f) = .ok { b with fold := some f } := by
  simp only [accepts, Bool.and_eq_true, decide_eq_true_eq] at h
  obtain ⟨⟨hload, hdet⟩, hproto⟩ := h
  unfold Backend.setFold
  simp [hload, hdet, hproto]

theorem setFold_refuses {b : Backend} {f : MaskAreaFold} (h : accepts e f b = false) :
    ∃ err, b.setFold e (some f) = .error err := by
  unfold Backend.setFold
  by_cases hload : b.loaded = true
  · have hmissing : ([f.detections, f.prototypes].filter fun name => decide (name ∉ e.outputNames)) ≠ [] := by
      intro hnil
      have hall := List.filter_eq_nil_iff.mp hnil
      have hdet := hall f.detections (by simp)
      have hproto := hall f.prototypes (by simp)
      simp only [decide_eq_true_eq, not_not] at hdet hproto
      simp [accepts, hload, hdet, hproto] at h
    simp only [if_neg (show ¬ (!b.loaded) = true by simp [hload])]
    rw [if_pos hmissing]
    exact ⟨_, rfl⟩
  · exact ⟨.notLoaded, by simp [hload]⟩

theorem offer_none : ∀ bs : List Backend, Model.offer e none bs = (bs.map fun b => { b with fold := none }, none)
  | [] => rfl
  | b :: bs => by
    simp only [Model.offer, Backend.setFold, offer_none bs, List.map_cons]

theorem offer_all {f : MaskAreaFold} : ∀ {bs : List Backend}, (∀ b ∈ bs, accepts e f b = true) →
    Model.offer e (some f) bs = (bs.map fun b => { b with fold := some f }, none)
  | [], _ => rfl
  | b :: bs, h => by
    have hrest := offer_all fun b hb => h b (List.mem_cons_of_mem _ hb)
    simp only [Model.offer, setFold_accepts (h b List.mem_cons_self), hrest, List.map_cons]

/-- Refused after instances that hold the fold already, an offer changes nothing. -/
theorem offer_refused {f : MaskAreaFold} : ∀ {bs : List Backend}, (∃ b ∈ bs, accepts e f b = false) →
    (∀ b ∈ bs.takeWhile (accepts e f), b.fold = some f) → ∃ err, Model.offer e (some f) bs = (bs, some err)
  | [], h, _ => by
    obtain ⟨b, hb, -⟩ := h
    exact (List.not_mem_nil hb).elim
  | b :: bs, h, hheld => by
    cases hacc : accepts e f b with
    | false =>
      obtain ⟨err, herr⟩ := setFold_refuses hacc
      exact ⟨err, by simp only [Model.offer, herr]⟩
    | true =>
      simp only [List.takeWhile_cons, hacc, if_true] at hheld
      have hrest : ∃ b ∈ bs, accepts e f b = false := by
        obtain ⟨b', hb', hno⟩ := h
        rcases List.mem_cons.mp hb' with rfl | hb'
        · rw [hacc] at hno
          cases hno
        · exact ⟨b', hb', hno⟩
      obtain ⟨err, herr⟩ := offer_refused hrest fun b hb => hheld b (List.mem_cons_of_mem _ hb)
      have hsame : ({ b with fold := some f } : Backend) = b := by rw [← hheld b List.mem_cons_self]
      exact ⟨err, by simp only [Model.offer, setFold_accepts hacc, herr, hsame]⟩

theorem matches_rowShape {t : EngineIO} (ht : t ∈ e.io) : (t.toSpec true).matches t.rowShape = true := by
  have hconcrete := e.concrete t ht
  have hzip : ∀ dims : List Int, (∀ dim ∈ dims, 0 ≤ dim) →
      ((dims.zip (dims.map Int.toNat)).all fun p => decide (p.1 = dynamic) || decide (p.1 = p.2)) = true := by
    intro dims
    induction dims with
    | nil => simp
    | cons dim dims ih =>
      intro hdims
      have hdim : dim = (dim.toNat : Int) := (Int.toNat_of_nonneg (hdims dim List.mem_cons_self)).symm
      have htail := ih fun d hd => hdims d (List.mem_cons_of_mem _ hd)
      simp only [List.map_cons, List.zip_cons_cons, List.all_cons, htail, Bool.and_true, Bool.or_eq_true,
        decide_eq_true_eq]
      exact .inr hdim
  simp only [TensorSpec.matches, EngineIO.toSpec, EngineIO.rowShape, if_true, List.length_map, decide_true, Bool.true_and]
  exact hzip _ hconcrete

/-- What the first instance advertises takes what any returns that advertises the same. -/
theorem accepted_of_same {a b : Backend} {specs : List TensorSpec} (hload : a.loaded = true)
    (hfirst : Sound c e a) (hspecs : a.outputSpecs c e = .ok specs) (hstrip : 0 < c.maxBatchSize)
    (hfold : b.fold = a.fold) (hnames : ∀ name, name ∈ b.names e ↔ name ∈ a.names e) : Accepted e specs b := by
  obtain ⟨plain, last, hspecs', hmap, hplain, hlast, harea⟩ := outputSpecs_ok hload hfirst
  rw [hspecs, Except.ok.injEq] at hspecs'
  subst hspecs'
  have hs : c.strip = true := decide_eq_true hstrip
  have hnodup := hmap ▸ names_nodup hfirst
  rw [List.map_append] at hnodup
  refine ⟨fun spec hspec => .inr ?_, fun name hname => ?_, fun spec hspec => ?_⟩
  · rw [hnames, ← hmap]
    exact List.mem_map_of_mem hspec
  · rw [hnames, ← hmap] at hname
    obtain ⟨spec, hspec, rfl⟩ := List.mem_map.mp hname
    exact ⟨spec, hspec, rfl⟩
  · rw [hfold]
    rcases List.mem_append.mp hspec with hspec | hspec
    · obtain ⟨-, t, ht, rfl⟩ := hplain spec hspec
      refine ⟨fun t' ht' hname _ => ?_, fun harea' => ?_⟩
      · obtain rfl : t' = t := List.inj_on_of_nodup_map e.distinct (mem_outputs.mp ht').1 (mem_outputs.mp ht).1 hname
        rw [hs]
        exact ⟨rfl, matches_rowShape (mem_outputs.mp ht).1⟩
      · refine ((List.nodup_append.mp hnodup).2.2 _ (List.mem_map_of_mem hspec) _ ?_ rfl).elim
        rw [hlast, harea']
        exact List.mem_singleton_self _
    · obtain ⟨f, hf, hspec'⟩ := harea spec hspec
      obtain ⟨area, harea', hname, hdtype, -, hshape⟩ := areaSpec_ok (hfirst.folded f hf).1
      rw [harea', Except.ok.injEq] at hspec'
      subst hspec'
      rw [hf]
      refine ⟨fun _ _ _ hne => absurd (by rw [hname]; rfl) hne, fun _ => ⟨hdtype, ?_⟩⟩
      simp [TensorSpec.matches, hshape hs]

/-- All accept the fold, and the batcher follows. -/
theorem attach_all_inv (h : Inv c e m) {f : MaskAreaFold} (hall : ∀ b ∈ m.instances, accepts e f b = true)
    (hmax : 0 < c.maxBatchSize) (hfits : FoldFits c e f) (hsuits : ∀ b ∈ m.instances, Suits c e f b)
    (halike : ∀ b ∈ m.instances, ∀ b' ∈ m.instances, ∀ name ∈ e.outputNames, name ≠ f.prototypes →
      (name ∈ b.kept ↔ name ∈ b'.kept)) :
    let r := ({ m with fold := some f, instances := m.instances.map fun b => { b with fold := some f } } : Model).follow
    Inv c e r.1 ∧ r.2 = none := by
  intro r
  obtain ⟨rfl, rfl, -⟩ := h
  have hsound : ∀ b ∈ m.instances, Sound m.config m.engine { b with fold := some f } := by
    intro b hb
    refine ⟨fun hnone => (nomatch hnone), fun f' hf' => ?_⟩
    obtain rfl := Option.some.inj hf'
    exact ⟨hfits, (hsuits b hb).fresh, (hsuits b hb).replayable⟩
  have hload : ∀ b ∈ m.instances, b.loaded = true := by
    intro b hb
    have := hall b hb
    simp only [accepts, Bool.and_eq_true] at this
    exact this.1.1
  cases hinst : m.instances with
  | nil =>
    have hr : r = ({ m with fold := some f, instances := [] }, none) := by
      simp only [r, Model.follow, hinst, List.map_nil]
    rw [hr]
    exact ⟨⟨rfl, rfl, fun b hb => (List.not_mem_nil hb).elim⟩, rfl⟩
  | cons first others =>
    have hmem : first ∈ m.instances := by rw [hinst]; exact List.mem_cons_self
    obtain ⟨plain, last, hspecs, -⟩ := outputSpecs_ok (b := { first with fold := some f }) (hload first hmem)
      (hsound first hmem)
    have hr : r = ({ m with
        fold := some f
        instances := m.instances.map fun b => { b with fold := some f }
        batcher := { m.batcher with outputSpecs := plain ++ last } }, none) := by
      simp only [r, Model.follow, hinst, List.map_cons, hspecs]
    rw [hr]
    refine ⟨⟨rfl, rfl, fun b' hb' hload' => ?_⟩, rfl⟩
    obtain ⟨b, hb, rfl⟩ := List.mem_map.mp hb'
    refine ⟨hsound b hb, accepted_of_same (a := { first with fold := some f }) (hload first hmem) (hsound first hmem)
      hspecs hmax rfl fun name => ?_⟩
    simp only [Backend.names, List.mem_append, List.mem_filter, decide_eq_true_eq]
    refine or_congr_left ?_
    constructor
    · rintro ⟨⟨hname, hkept⟩, hproto⟩
      exact ⟨⟨hname, fun hk => hkept ((halike first hmem b hb name hname hproto).mp hk)⟩, hproto⟩
    · rintro ⟨⟨hname, hkept⟩, hproto⟩
      exact ⟨⟨hname, fun hk => hkept ((halike b hb first hmem name hname hproto).mp hk)⟩, hproto⟩

/-- All drop the fold, and the batcher follows. -/
theorem detach_inv (hdecl : Declares c e) (h : Inv c e m) (hmeets : Meets m (.attach none)) :
    let r := ({ m with fold := none, instances := m.instances.map fun b => { b with fold := none } } : Model).follow
    Inv c e r.1 ∧ r.2 = none := by
  intro r
  obtain ⟨rfl, rfl, -⟩ := h
  cases hinst : m.instances with
  | nil =>
    have hr : r = ({ m with fold := none, instances := [] }, none) := by
      simp only [r, Model.follow, hinst, List.map_nil]
    rw [hr]
    exact ⟨⟨rfl, rfl, fun b hb => (List.not_mem_nil hb).elim⟩, rfl⟩
  | cons first others =>
    have hmem : first ∈ m.instances := by rw [hinst]; exact List.mem_cons_self
    obtain ⟨hmax, hall⟩ := hmeets first (by rw [hinst]; rfl)
    have hsound : ∀ b ∈ m.instances, b.loaded = true → Sound m.config m.engine { b with fold := none } :=
      fun b hb hload => ⟨fun _ => (hall b hb hload).1, fun f hf => (nomatch hf)⟩
    have hnames : ∀ b : Backend, ∀ name, name ∈ ({ b with fold := none } : Backend).names m.engine ↔
        name ∈ m.engine.outputNames ∧ name ∉ b.kept := by
      intro b name
      simp only [Backend.names, List.mem_filter, decide_eq_true_eq]
    cases hload : first.loaded with
    | true =>
      obtain ⟨plain, last, hspecs, -⟩ := outputSpecs_ok (b := { first with fold := none }) hload (hsound first hmem hload)
      have hr : r = ({ m with
          fold := none
          instances := m.instances.map fun b => { b with fold := none }
          batcher := { m.batcher with outputSpecs := plain ++ last } }, none) := by
        simp only [r, Model.follow, hinst, List.map_cons, hspecs]
      rw [hr]
      refine ⟨⟨rfl, rfl, fun b' hb' hload' => ?_⟩, rfl⟩
      obtain ⟨b, hb, rfl⟩ := List.mem_map.mp hb'
      refine ⟨hsound b hb hload', accepted_of_same (a := { first with fold := none }) hload (hsound first hmem hload)
        hspecs (hmax hload) rfl fun name => ?_⟩
      rw [hnames, hnames]
      refine and_congr_right fun hname => not_congr ?_
      rw [(hall b hb hload').2 name hname]
      exact and_iff_right hload
    | false =>
      have hspecs : ({ first with fold := none } : Backend).outputSpecs m.config m.engine = .ok m.config.outputSpecs := by
        simp only [Backend.outputSpecs, hload]
        rfl
      have hr : r = ({ m with
          fold := none
          instances := m.instances.map fun b => { b with fold := none }
          batcher := { m.batcher with outputSpecs := m.config.outputSpecs } }, none) := by
        simp only [r, Model.follow, hinst, List.map_cons, hspecs]
      rw [hr]
      refine ⟨⟨rfl, rfl, fun b' hb' hload' => ?_⟩, rfl⟩
      obtain ⟨b, hb, rfl⟩ := List.mem_map.mp hb'
      have hkept : ∀ name ∈ m.engine.outputNames, name ∉ b.kept := by
        intro name hname hk
        have := ((hall b hb hload').2 name hname).mp hk
        rw [hload] at this
        exact Bool.noConfusion this.1
      refine ⟨hsound b hb hload', fun spec hspec => ?_, fun name hname => ?_, hdecl.typed⟩
      · rcases hdecl.known spec hspec with hopt | hname
        · exact .inl hopt
        · exact .inr ((hnames b _).mpr ⟨hname, hkept _ hname⟩)
      · exact hdecl.all name ((hnames b name).mp hname).1

theorem unmoved_refl (m : Model) : Unmoved m m := ⟨rfl, rfl, rfl⟩

theorem attach_inv (hdecl : Declares c e) (h : Inv c e m) {fold : Option MaskAreaFold}
    (hmeets : Meets m (.attach fold)) :
    Inv c e (m.attachFold fold).1 ∧ ((m.attachFold fold).2 ≠ none → Unmoved m (m.attachFold fold).1) := by
  obtain ⟨rfl, rfl, hsounds⟩ := id h
  unfold Model.attachFold
  by_cases hother : m.holdsOther fold = true
  · rw [if_pos hother]
    exact ⟨h, fun _ => unmoved_refl m⟩
  · rw [if_neg hother]
    cases fold with
    | none =>
      simp only [offer_none]
      obtain ⟨hinv, hok⟩ := detach_inv hdecl h hmeets
      exact ⟨hinv, fun hne => absurd hok hne⟩
    | some f =>
      rcases hmeets with hheld | ⟨hno, hprefix⟩ | ⟨hall, hmax, hfits, hsuits, halike⟩
      · exact absurd hheld hother
      · obtain ⟨err, herr⟩ := offer_refused hno hprefix
        simp only [herr]
        exact ⟨⟨rfl, rfl, hsounds⟩, fun _ => ⟨rfl, rfl, rfl⟩⟩
      · simp only [offer_all hall]
        obtain ⟨hinv, hok⟩ := attach_all_inv h hall hmax hfits hsuits halike
        exact ⟨hinv, fun hne => absurd hok hne⟩

theorem keep_unmoved {i : Nat} {output : String} (hraise : (m.keep i output).2 ≠ none) :
    Unmoved m (m.keep i output).1 := by
  unfold Model.keep at hraise ⊢
  cases hi : m.instances[i]? with
  | none => exact unmoved_refl m
  | some b =>
    simp only [hi] at hraise ⊢
    cases hkeep : b.keepOnDevice m.engine output with
    | error err => exact unmoved_refl m
    | ok b' =>
      simp only [hkeep] at hraise
      exact absurd rfl hraise

theorem step_inv (hdecl : Declares c e) (h : Inv c e m) {call : Call} (hmeets : Meets m call) :
    Inv c e (step m call).1 ∧ ((step m call).2 ≠ none → Unmoved m (step m call).1) := by
  cases call with
  | attach fold => exact attach_inv hdecl h hmeets
  | keep i output => exact ⟨keep_inv h hmeets, keep_unmoved⟩
  | execute memory i size captures => exact ⟨run_inv h memory i size captures, fun hne => absurd rfl hne⟩

end

/-- A model as it is opened: no fold, nothing kept, the batcher with the config's specs. -/
structure Model.Opened (m : Model) : Prop where
  bare : ∀ b ∈ m.instances, b.fold = none ∧ b.kept = []
  batcher : m.batcher.outputSpecs = m.config.outputSpecs

theorem opened_inv {m : Model} (hdecl : Declares m.config m.engine) (h : m.Opened) : Inv m.config m.engine m := by
  refine ⟨rfl, rfl, fun b hb _ => ?_⟩
  obtain ⟨hfold, hkept⟩ := h.bare b hb
  have hnames : ∀ name, name ∈ b.names m.engine ↔ name ∈ m.engine.outputNames := by
    intro name
    simp [Backend.names, hfold, hkept]
  refine ⟨⟨fun _ => ?_, fun f hf => ?_⟩, ?_, ?_, ?_⟩
  · obtain ⟨t, ht, hout⟩ := m.engine.answers
    exact ⟨t.name, List.mem_map_of_mem (mem_outputs.mpr ⟨ht, hout⟩), by simp [hkept]⟩
  · rw [hfold] at hf
    cases hf
  · intro spec hspec
    rw [h.batcher] at hspec
    exact (hdecl.known spec hspec).imp_right (hnames _).mpr
  · intro name hname
    rw [h.batcher]
    exact hdecl.all name ((hnames name).mp hname)
  · rw [h.batcher, hfold]
    exact hdecl.typed

/-- **Attachments keep a model answerable**, at every point of a sequence of calls each of
which meets the condition, on a model whose config declares its engine's outputs; and a
call that raises leaves everything as it was. -/
theorem attachments_answerable {m : Model} (hdecl : Declares m.config m.engine) (hm : m.Opened) (calls : List Call)
    (hmeets : Machine.Along step Meets m calls) :
    ∀ before after, calls = before ++ after → Answerable (Machine.exec step m before).1 ∧
      ∀ call ∈ after.head?, (step (Machine.exec step m before).1 call).2 ≠ none →
        Unmoved (Machine.exec step m before).1 (step (Machine.exec step m before).1 call).1 := by
  rintro before after rfl
  obtain ⟨hbefore, hafter⟩ := hmeets.append before
  have hinv : Inv m.config m.engine (Machine.exec step m before).1 :=
    Machine.Along.invariant (P := Inv m.config m.engine) (fun s call hs hC => (step_inv hdecl hs hC).1) before
      (opened_inv hdecl hm) hbefore before (List.prefix_refl _)
  refine ⟨hinv.answerable, fun call hcall => ?_⟩
  cases after with
  | nil => cases hcall
  | cons first rest =>
    obtain rfl : first = call := Option.some.inj hcall
    exact (step_inv hdecl hinv hafter.1).2

/-! ## A segmenter -/

def output0 : EngineIO := ⟨"output0", .fp32, [8, 4, 14], false, by decide, by decide⟩

def output1 : EngineIO := ⟨"output1", .fp32, [8, 8, 10, 10], false, by decide, by decide⟩

def segmenterEngine : LoadedEngine where
  io := [⟨"images", .fp32, [8, 3, 64, 64], true, by decide, by decide⟩, output0, output1]
  distinct := by decide
  answers := ⟨output0, by simp, rfl⟩
  concrete := by decide

def segmenterConfig : ModelConfig where
  outputSpecs := [output0.toSpec true, output1.toSpec true]
  maxBatchSize := 8

def maskArea : MaskAreaFold := ⟨(640, 640), "output0", "output1", "mask_area_px", 1 / 4, 1 / 2⟩

def segmenter (instances : List Backend) : Model where
  config := segmenterConfig
  engine := segmenterEngine
  instances := instances
  batcher := ⟨[], segmenterConfig.outputSpecs, 8⟩

theorem segmenter_declares : Declares segmenterConfig segmenterEngine := by
  refine ⟨fun spec hspec => .inr ?_, fun name hname => ?_, fun spec hspec => ⟨fun t ht hname _ => ?_, fun h => (nomatch h)⟩⟩
  · rcases List.mem_pair.mp hspec with rfl | rfl <;> decide
  · have hnames : name ∈ ["output0", "output1"] := hname
    rcases List.mem_pair.mp hnames with rfl | rfl
    · exact ⟨output0.toSpec true, by simp [segmenterConfig], rfl⟩
    · exact ⟨output1.toSpec true, by simp [segmenterConfig], rfl⟩
  · have houts : t ∈ [output0, output1] := ht
    rcases List.mem_pair.mp hspec with rfl | rfl <;> rcases List.mem_pair.mp houts with rfl | rfl
    · decide
    · exact absurd hname (by decide)
    · exact absurd hname (by decide)
    · decide

theorem maskArea_fits : FoldFits segmenterConfig segmenterEngine maskArea :=
  ⟨by decide, ⟨output0, rfl, by decide⟩, output0,
    (List.mem_cons_self : output0 ∈ [output0, output1]), output1,
    (List.mem_cons_of_mem _ List.mem_cons_self : output1 ∈ [output0, output1]), rfl, rfl, by decide +kernel⟩

theorem segmenter_answerable :
    Answerable (Machine.exec step (segmenter [{ loaded := true }, { loaded := true }]) [.attach (some maskArea)]).1 := by
  refine (attachments_answerable (m := segmenter [{ loaded := true }, { loaded := true }]) segmenter_declares
    ⟨by simp [segmenter], rfl⟩ [.attach (some maskArea)] ⟨.inr (.inr ⟨?_, by decide, maskArea_fits, ?_, ?_⟩), trivial⟩
    [.attach (some maskArea)] [] rfl).1
  · decide
  · intro b hb
    rcases List.mem_pair.mp hb with rfl | rfl <;>
      exact ⟨fun h => absurd h (by decide), .inr fun g hg => (nomatch hg)⟩
  · intro b hb b' hb' name _ _
    rcases List.mem_pair.mp hb with rfl | rfl <;> rcases List.mem_pair.mp hb' with rfl | rfl <;> rfl

def capturing : Backend := { loaded := true, graphs := some { enabled := true, batchSizes := [1, 2, 4, 8] } }

def blank : DeviceMemory := ⟨fun _ _ => 0, fun _ => 0⟩

/-- The second instance of two refuses the fold that the first took; with graphs on, no
size can be captured under a fold; what is kept beside a fold leaves nothing when it goes. -/
theorem attachments_break :
    ((step (segmenter [{ loaded := true }, { loaded := false }]) (.attach (some maskArea))).2 ≠ none ∧
      ¬ Unmoved (segmenter [{ loaded := true }, { loaded := false }])
        (step (segmenter [{ loaded := true }, { loaded := false }]) (.attach (some maskArea))).1) ∧
    ¬ Answerable (Machine.exec step (segmenter [capturing]) [.attach (some maskArea)]).1 ∧
    ¬ Answerable (Machine.exec step (segmenter [{ loaded := true }])
      [.attach (some maskArea), .keep 0 "output0", .keep 0 "output1", .attach none]).1 := by
  refine ⟨⟨by decide +kernel, fun h => absurd h.1 (by decide +kernel)⟩, fun h => ?_, fun h => ?_⟩
  · obtain ⟨specs, -, -, -, hrun⟩ := h { capturing with fold := some maskArea } (List.mem_of_getElem? (i := 0) rfl) rfl
    obtain ⟨outs, hout, -⟩ := hrun 1 (by decide) (by decide) blank true
    cases hout
  · obtain ⟨specs, hspecs, hne, -⟩ := h { loaded := true, kept := ["output1", "output0"] }
      (List.mem_of_getElem? (i := 0) rfl) rfl
    have hnone : ([] : List TensorSpec) = specs := Except.ok.inj hspecs
    exact hne hnone.symm

end ShipInfer.Backends.Fold
