import Mathlib.Analysis.SpecialFunctions.Sigmoid
import Mathlib.Analysis.SpecialFunctions.Log.Basic
import Mathlib.Tactic.FieldSimp
import ShipInfer.Segment.MaskArea

/-!
# The mask-area folds agree

Both planes cut the logits of a mask where its probability would reach the threshold. Of a
response shaped for the fold they give the same areas, and of any other none; but of no crops
at all numpy cannot infer how many cells there are, and the Python plane gives none either.
-/

namespace ShipInfer.Segment

/-! ## The strongest row -/

section
variable {K : Type} [LinearOrder K]

/-- Of the first `n` values the greatest, and the first of those. -/
def FirstGreatest (n : Nat) (value : Nat → K) (best : Nat) : Prop :=
  best < n ∧ (∀ i < n, value i ≤ value best) ∧ ∀ i < best, value i < value best

theorem FirstGreatest.unique {n : Nat} {value : Nat → K} {i j : Nat} (hi : FirstGreatest n value i)
    (hj : FirstGreatest n value j) : i = j := by
  rcases Nat.lt_trichotomy i j with h | h | h
  · exact absurd (hi.2.1 j hj.1) (not_le.mpr (hj.2.2 i h))
  · exact h
  · exact absurd (hj.2.1 i hi.1) (not_le.mpr (hi.2.2 j h))

theorem strongest_succ (n : Nat) (score : Nat → K) : strongest (n + 2) score =
    if score (strongest (n + 1) score) < score (n + 1) then n + 1 else strongest (n + 1) score := by
  unfold strongest
  rw [show n + 2 - 1 = n + 1 by omega, show n + 1 - 1 = n by omega, List.range'_concat, List.foldl_append]
  simp only [one_mul, Nat.add_comm 1 n, List.foldl_cons, List.foldl_nil]

theorem strongest_first (score : Nat → K) : ∀ n : Nat, 0 < n → FirstGreatest n score (strongest n score)
  | 1, _ => by
    refine ⟨Nat.zero_lt_one, fun i hi => ?_, fun i hi => absurd hi (Nat.not_lt_zero i)⟩
    rw [Nat.lt_one_iff.mp hi]
    exact le_refl _
  | n + 2, _ => by
    obtain ⟨hlt, hmax, hfirst⟩ := strongest_first score (n + 1) (Nat.succ_pos n)
    rw [strongest_succ]
    split
    · rename_i hnew
      refine ⟨by omega, fun i hi => ?_, fun i hi => lt_of_le_of_lt (hmax i hi) hnew⟩
      rcases Nat.lt_succ_iff_lt_or_eq.mp hi with hi | rfl
      · exact (hmax i hi).trans hnew.le
      · exact le_refl _
    · rename_i hold
      refine ⟨by omega, fun i hi => ?_, hfirst⟩
      rcases Nat.lt_succ_iff_lt_or_eq.mp hi with hi | rfl
      · exact hmax i hi
      · exact not_lt.mp hold

/-- The scan finds what `argmax` does. -/
theorem argmax_eq_strongest {n : Nat} (h : 0 < n) (value : Nat → K) : argmax n value = some (strongest n value) := by
  obtain ⟨hlt, hmax, hfirst⟩ := strongest_first value n h
  unfold argmax
  rw [List.find?_range_eq_some]
  refine ⟨?_, List.mem_range.mpr hlt, fun i hi => ?_⟩
  · simpa using hmax
  · simp only [Bool.not_eq_true', List.all_eq_false, List.mem_range, decide_eq_true_eq]
    exact ⟨_, hlt, not_le.mpr (hfirst i hi)⟩

end

/-! ## Loops -/

theorem foldl_add {M : Type} [AddMonoid M] (f : Nat → M) (n : Nat) :
    (List.range n).foldl (fun sum i => sum + f i) 0 = ((List.range n).map f).sum := by
  induction n with
  | zero => rfl
  | succ n ih => simp [List.range_succ, ih]

theorem foldl_count (p : Nat → Prop) [DecidablePred p] (n : Nat) :
    (List.range n).foldl (fun count i => if p i then count + 1 else count) 0 =
      (List.range n).countP fun i => decide (p i) := by
  induction n with
  | zero => rfl
  | succ n ih =>
    rw [List.range_succ, List.foldl_append, List.countP_append, ih]
    by_cases h : p n <;> simp [h]

/-! ## Shapes -/

section
variable {K : Type}

/-- The two outputs are shaped for the fold, and nothing of a crop is empty. -/
structure Shaped (m : MaskAreaSpec K) (r : Segmentation K) (rows protos : EngineOutput K r.rows)
    (candidates channels h w : Nat) : Prop where
  detections : r.output m.detections = some rows
  prototypes : r.output m.prototypes = some protos
  rowsDims : rows.dims = [candidates, prefixColumns + channels]
  protosDims : protos.dims = [channels, h, w]
  candidates : 0 < candidates
  channels : 0 < channels
  height : 0 < h
  width : 0 < w

/-- Some outputs are. -/
def IsShaped (m : MaskAreaSpec K) (r : Segmentation K) : Prop :=
  ∃ rows protos candidates channels h w, Shaped m r rows protos candidates channels h w

variable {r : Segmentation K}

theorem requireArray_batched (name : String) : requireArray r.batched name =
    match r.output name with
    | none => .error (.missing name (r.outputs.map EngineOutput.name))
    | some o => .ok ⟨r.rows :: o.dims, o.data, by rw [o.size, List.prod_cons]⟩ := by
  have hfind : r.batched.find? (fun o => o.1 == name) =
      (r.output name).map fun o => (o.name, ⟨r.rows :: o.dims, o.data, by rw [o.size, List.prod_cons]⟩) :=
    List.find?_map ..
  unfold requireArray
  rw [hfind]
  cases r.output name with
  | none => simp [Segmentation.batched, Function.comp_def]
  | some o => rfl

theorem requireTensor_flattened (name : String) : requireTensor r.flattened name =
    match r.output name with
    | none => .error (.missing name (r.outputs.map EngineOutput.name))
    | some o => .ok ⟨o.name, o.data, o.dims.prod, o.dims.map Nat.cast⟩ := by
  have hfind : r.flattened.outputs.find? (fun o => o.name == name) =
      (r.output name).map fun o => ⟨o.name, o.data, o.dims.prod, o.dims.map Nat.cast⟩ :=
    List.find?_map ..
  unfold requireTensor
  rw [hfind]
  cases r.output name with
  | none => simp [Segmentation.flattened, Function.comp_def]
  | some o => rfl

end

section
variable {K : Type} [Field K] [LinearOrder K] {m : MaskAreaSpec K} {r : Segmentation K}
  {rows protos : EngineOutput K r.rows} {candidates channels h w : Nat} (log : K → K)

/-- The area the arithmetic of both planes comes to. -/
def cutArea (m : MaskAreaSpec K) (rows protos : EngineOutput K r.rows) (candidates channels cells n : Nat) : K :=
  let width := prefixColumns + channels
  let row := fun c j => rows.data.getD (n * (candidates * width) + (c * width + j)) 0
  let best := strongest candidates fun c => row c scoreColumn
  if row best scoreColumn < m.scoreThreshold then 0
  else
    let logit := fun k => ((List.range channels).map fun i =>
      row best (prefixColumns + i) * protos.data.getD (n * (channels * cells) + (i * cells + k)) 0).sum
    ((List.range cells).countP fun k => decide (log (m.maskThreshold / (1 - m.maskThreshold)) ≤ logit k) : Nat) *
      ((m.cropHeight * m.cropWidth : K) / cells)

theorem cropAreaPy_eq (hc : 0 < candidates) (rows' protos' : NdArray K) (hrows : rows'.data = rows.data)
    (hprotos : protos'.data = protos.data) (cells n : Nat) :
    cropAreaPy log m rows' protos' candidates (prefixColumns + channels) channels cells n =
      cutArea log m rows protos candidates channels cells n := by
  have hentry : ∀ c j, rows'.entry candidates (prefixColumns + channels) n c j =
      rows.data.getD (n * (candidates * (prefixColumns + channels)) + (c * (prefixColumns + channels) + j)) 0 := by
    intro c j
    rw [NdArray.entry, hrows, add_mul, mul_assoc, add_assoc]
  have hplane : ∀ i k, protos'.entry channels cells n i k =
      protos.data.getD (n * (channels * cells) + (i * cells + k)) 0 := by
    intro i k
    rw [NdArray.entry, hprotos, add_mul, mul_assoc, add_assoc]
  simp only [cropAreaPy, cutArea, hentry, hplane, argmax_eq_strongest hc, Option.getD_some, Int.cast_mul,
    ← not_lt, ite_not]

theorem cropAreaCpp_eq (rows' protos' : OutputTensor K) (hrows : rows'.data = rows.data)
    (hprotos : protos'.data = protos.data) (hwidth : rows'.rowElems = candidates * (prefixColumns + channels)) (cells n : Nat)
    (hplanes : protos'.rowElems = channels * cells) :
    cropAreaCpp log m rows' protos' candidates (prefixColumns + channels) channels cells n =
      cutArea log m rows protos candidates channels cells n := by
  simp only [cropAreaCpp, cutArea, OutputTensor.element, hrows, hprotos, hwidth, hplanes, foldl_add, foldl_count]

/-- The areas the Python plane gives. -/
theorem maskAreaPy_ok (hs : Shaped m r rows protos candidates channels h w) (hr : 0 < r.rows) :
    maskAreaPy log m r.batched =
      .ok ((List.range r.rows).map (cutArea log m rows protos candidates channels (h * w))) := by
  have hcells : inferredExtent (r.rows * channels * h * w) (r.rows * channels) = some (h * w) := by
    have hpos := Nat.mul_pos hr hs.channels
    unfold inferredExtent
    rw [if_neg hpos.ne', mul_assoc _ h w, Nat.mul_mod_right, if_pos rfl, Nat.mul_div_cancel_left _ hpos]
  have hstride : ¬ prefixColumns + channels ≤ prefixColumns := by
    have := hs.channels
    omega
  unfold maskAreaPy
  rw [requireArray_batched, requireArray_batched, hs.detections, hs.prototypes]
  show foldArrays log m _ _ = _
  simp only [foldArrays, hs.rowsDims, hs.protosDims]
  rw [if_neg hstride, if_neg (by omega), if_neg (not_not.mpr rfl), if_neg hs.candidates.ne', hcells]
  dsimp only
  rw [if_neg (Nat.mul_pos hs.height hs.width).ne']
  congr 1
  apply List.map_congr_left
  intro n _
  exact cropAreaPy_eq log hs.candidates _ _ rfl rfl _ _

/-- The areas the C++ plane gives. -/
theorem maskAreaCpp_ok (hs : Shaped m r rows protos candidates channels h w) :
    ∃ out, maskAreaCpp log m r.flattened = .ok out ∧ out.name = m.name ∧ out.rowElems = 1 ∧
      out.data = (List.range r.rows).map (cutArea log m rows protos candidates channels (h * w)) := by
  have hstatic : ∀ (dims : List Nat) name, (∀ d ∈ dims, 0 < d) → requireStatic (dims.map Nat.cast) name = .ok () := by
    intro dims name hd
    rw [requireStatic, if_pos (by simpa using hd)]
  have hc := hs.candidates
  have hch := hs.channels
  have hh := hs.height
  have hw := hs.width
  have hrows : requireStatic (rows.dims.map Nat.cast) m.detections = .ok () := by
    apply hstatic
    simp only [hs.rowsDims, List.mem_cons, List.not_mem_nil, or_false]
    omega
  have hprotos : requireStatic (protos.dims.map Nat.cast) m.prototypes = .ok () := by
    apply hstatic
    simp only [hs.protosDims, List.mem_cons, List.not_mem_nil, or_false]
    omega
  unfold maskAreaCpp
  rw [requireTensor_flattened, requireTensor_flattened, hs.detections, hs.prototypes]
  simp only [bind, Except.bind, hrows, hprotos]
  have hstride : ¬ ((prefixColumns + channels : Nat) : Int) ≤ prefixColumns := by omega
  simp only [foldTensors, hs.rowsDims, hs.protosDims, List.map_cons, List.map_nil]
  rw [if_neg hstride, if_neg (by simp only [Int.toNat_natCast]; omega)]
  refine ⟨_, rfl, rfl, rfl, ?_⟩
  apply List.map_congr_left
  intro n _
  simp only [Int.toNat_natCast, Nat.add_sub_cancel_left]
  exact cropAreaCpp_eq log _ _ rfl rfl (by simp) _ _ (by simp)

/-! ## Refusals -/

/-- The Python plane answers only what is shaped for the fold, and some crops. -/
theorem shaped_of_py {areas : List K} (h : maskAreaPy log m r.batched = .ok areas) : IsShaped m r ∧ 0 < r.rows := by
  unfold maskAreaPy at h
  rw [requireArray_batched, requireArray_batched] at h
  cases hrows : r.output m.detections with
  | none =>
    rw [hrows] at h
    cases h
  | some rows =>
    cases hprotos : r.output m.prototypes with
    | none =>
      rw [hrows, hprotos] at h
      cases h
    | some protos =>
      rw [hrows, hprotos] at h
      have h : foldArrays log m _ _ = .ok areas := h
      unfold foldArrays at h
      dsimp only at h
      split at h
      · rename_i batch candidates stride hshape
        split at h
        · cases h
        rename_i hstride
        split at h
        · rename_i count channels height width hbank
          split at h
          · cases h
          split at h
          · cases h
          split at h
          · cases h
          rename_i hcoeffs hbatch hcand
          split at h
          · cases h
          rename_i cells hcells
          split at h
          · cases h
          rename_i hnone
          simp only [List.cons.injEq] at hshape hbank
          obtain ⟨rfl, hdims⟩ := hshape
          obtain ⟨hcount, hplanes⟩ := hbank
          unfold inferredExtent at hcells
          split at hcells
          · cases hcells
          rename_i hknown
          split at hcells
          · cases hcells
            rw [← hcount] at hknown hnone
            have hr : 0 < r.rows := Nat.pos_of_ne_zero fun h0 => hknown (by rw [h0, zero_mul])
            rw [mul_assoc _ height width, Nat.mul_div_cancel_left _ (Nat.pos_of_ne_zero hknown)] at hnone
            refine ⟨⟨rows, protos, candidates, channels, height, width, hrows, hprotos, ?_, hplanes, ?_, ?_, ?_, ?_⟩,
              hr⟩
            · rw [hdims]
              congr 2
              omega
            · omega
            · omega
            · exact Nat.pos_of_ne_zero fun h0 => hnone (by rw [h0, zero_mul])
            · exact Nat.pos_of_ne_zero fun h0 => hnone (by rw [h0, mul_zero])
          · cases hcells
        · cases h
      · cases h

/-- The C++ plane answers only what is shaped for the fold. -/
theorem shaped_of_cpp {out : OutputTensor K} (h : maskAreaCpp log m r.flattened = .ok out) : IsShaped m r := by
  unfold maskAreaCpp at h
  rw [requireTensor_flattened, requireTensor_flattened] at h
  cases hrows : r.output m.detections with
  | none =>
    rw [hrows] at h
    cases h
  | some rows =>
    cases hprotos : r.output m.prototypes with
    | none =>
      rw [hrows, hprotos] at h
      cases h
    | some protos =>
      rw [hrows, hprotos] at h
      simp only [bind, Except.bind, requireStatic] at h
      by_cases hd : ∀ d ∈ rows.dims, 0 < d
      · by_cases hd' : ∀ d ∈ protos.dims, 0 < d
        · rw [if_pos (by simpa using hd), if_pos (by simpa using hd')] at h
          dsimp only at h
          unfold foldTensors at h
          dsimp only at h
          split at h
          · rename_i candidates stride hshape
            split at h
            · cases h
            rename_i hstride
            split at h
            · rename_i channels height width hbank
              split at h
              · cases h
              rename_i hcoeffs
              obtain ⟨c, t, hdims, rfl, ht⟩ := List.map_eq_cons_iff.mp hshape
              obtain ⟨s, t', rfl, rfl, ht'⟩ := List.map_eq_cons_iff.mp ht
              obtain ⟨ch, t'', hplanes, rfl, hch⟩ := List.map_eq_cons_iff.mp hbank
              obtain ⟨hh, t₃, rfl, rfl, hh'⟩ := List.map_eq_cons_iff.mp hch
              obtain ⟨w, t₄, rfl, rfl, hw⟩ := List.map_eq_cons_iff.mp hh'
              rw [List.map_eq_nil_iff.mp ht'] at hdims
              rw [List.map_eq_nil_iff.mp hw] at hplanes
              simp only [Int.toNat_natCast] at hcoeffs
              simp only [hdims, hplanes, List.mem_cons, List.not_mem_nil, or_false, forall_eq_or_imp,
                forall_eq] at hd hd'
              refine ⟨rows, protos, c, ch, hh, w, hrows, hprotos, ?_, hplanes, hd.1, hd'.1, hd'.2.1, hd'.2.2⟩
              rw [hdims]
              congr 2
              omega
            · cases h
          · cases h
        · rw [if_pos (by simpa using hd), if_neg (by simpa using hd')] at h
          cases h
      · rw [if_neg (by simpa using hd)] at h
        cases h

end

/-! ## Areas -/

/-- The two constructions of a fold read its lines alike. -/
theorem foldOf_eq {K : Type} [Field K] [LinearOrder K] (lines : FoldLines K) (cropHeight cropWidth : Int) :
    foldOf lines cropHeight cropWidth = openedFold lines cropHeight cropWidth := by
  unfold foldOf openedFold
  by_cases hd : lines.detections = "" <;> by_cases hp : lines.prototypes = "" <;> cases lines.score <;>
    cases lines.mask <;> simp [hd, hp]

/-- An element of a crop's part of an output. -/
def EngineOutput.cell {n : Nat} (o : EngineOutput ℝ n) (crop i : Nat) : ℝ := o.data.getD (crop * o.dims.prod + i) 0

/-- The probability that a cell is inside the mask of a candidate of a crop. -/
noncomputable def maskProbability {n : Nat} (rows protos : EngineOutput ℝ n) (channels cells crop c k : Nat) : ℝ :=
  Real.sigmoid ((List.range channels).map fun i =>
    rows.cell crop (c * (prefixColumns + channels) + (prefixColumns + i)) * protos.cell crop (i * cells + k)).sum

/-- `a` is the crop's area: of its first row of the highest score, the share of the cells whose
probability reaches the mask threshold, in the crop's pixels. -/
def IsArea (m : MaskAreaSpec ℝ) (r : Segmentation ℝ) (crop : Nat) (a : ℝ) : Prop :=
  ∃ rows protos candidates channels h w, Shaped m r rows protos candidates channels h w ∧
    ∃ best, FirstGreatest candidates (fun c => rows.cell crop (c * (prefixColumns + channels) + scoreColumn)) best ∧
      a = if rows.cell crop (best * (prefixColumns + channels) + scoreColumn) < m.scoreThreshold then 0
        else m.cropHeight * m.cropWidth *
          ((((Finset.range (h * w)).filter fun k =>
            m.maskThreshold ≤ maskProbability rows protos channels (h * w) crop best k).card : ℝ) / (h * w : Nat))

/-- A logit reaches the cut just where its probability reaches the threshold. -/
theorem cut_le_iff {t x : ℝ} (h0 : 0 < t) (h1 : t < 1) : Real.log (t / (1 - t)) ≤ x ↔ t ≤ Real.sigmoid x := by
  have hpos : 0 < 1 - t := sub_pos.mpr h1
  have hexp := Real.exp_pos x
  rw [Real.log_le_iff_le_exp (div_pos h0 hpos), div_le_iff₀ hpos, Real.sigmoid_def, Real.exp_neg,
    le_inv_comm₀ h0 (by positivity), inv_eq_one_div t, le_div_iff₀ h0]
  constructor
  · intro h
    have : t * (Real.exp x)⁻¹ ≤ 1 - t := by
      rw [← div_eq_mul_inv, div_le_iff₀ hexp, mul_comm]
      exact h
    linarith
  · intro h
    have : t * (Real.exp x)⁻¹ ≤ 1 - t := by linarith
    rw [← div_eq_mul_inv, div_le_iff₀ hexp, mul_comm] at this
    exact this

theorem cutArea_isArea {m : MaskAreaSpec ℝ} {r : Segmentation ℝ} {rows protos : EngineOutput ℝ r.rows}
    {candidates channels h w : Nat} (hs : Shaped m r rows protos candidates channels h w) (h0 : 0 < m.maskThreshold)
    (h1 : m.maskThreshold < 1) (crop : Nat) :
    IsArea m r crop (cutArea Real.log m rows protos candidates channels (h * w) crop) := by
  have hrow : ∀ i, rows.data.getD (crop * (candidates * (prefixColumns + channels)) + i) 0 = rows.cell crop i := by
    intro i
    simp [EngineOutput.cell, hs.rowsDims]
  have hplane : ∀ i, protos.data.getD (crop * (channels * (h * w)) + i) 0 = protos.cell crop i := by
    intro i
    simp [EngineOutput.cell, hs.protosDims]
  refine ⟨rows, protos, candidates, channels, h, w, hs, _, strongest_first _ _ hs.candidates, ?_⟩
  simp only [cutArea, hrow, hplane, cut_le_iff h0 h1]
  split
  · rfl
  · have hcount : ∀ p : Nat → Prop, ∀ [DecidablePred p], (List.range (h * w)).countP (fun k => decide (p k)) =
        ((Finset.range (h * w)).filter p).card := by
      intro p _
      rw [List.countP_eq_length_filter]
      rfl
    rw [hcount]
    exact mul_div_left_comm _ _ _

/-- Both planes refuse, or both give the areas. -/
def Agree (py cpp : MaskAreaSpec ℝ) (r : Segmentation ℝ) : Prop :=
  ((∃ e, maskAreaPy Real.log py r.batched = .error e) ∧ ∃ e, maskAreaCpp Real.log cpp r.flattened = .error e) ∨
  ∃ areas, maskAreaPy Real.log py r.batched = .ok areas ∧
    (∃ out, maskAreaCpp Real.log cpp r.flattened = .ok out ∧ out.data = areas) ∧ areas.length = r.rows ∧
    ∀ n a, areas[n]? = some a → IsArea py r n a

theorem openedFold_threshold (lines : FoldLines ℝ) (cropHeight cropWidth : Int) :
    0 < (openedFold lines cropHeight cropWidth).maskThreshold ∧
      (openedFold lines cropHeight cropWidth).maskThreshold < 1 := by
  unfold openedFold
  cases h : lines.mask with
  | none => norm_num
  | some t => exact lines.mask_mem t h

/-- **The folds agree** on a response just where it has a crop or is shaped for neither. -/
theorem agree_iff (lines : FoldLines ℝ) (cropHeight cropWidth : Int) (r : Segmentation ℝ) :
    Agree (openedFold lines cropHeight cropWidth) (foldOf lines cropHeight cropWidth) r ↔
      (IsShaped (openedFold lines cropHeight cropWidth) r → 0 < r.rows) := by
  rw [foldOf_eq]
  obtain ⟨h0, h1⟩ := openedFold_threshold lines cropHeight cropWidth
  generalize openedFold lines cropHeight cropWidth = m at *
  constructor
  · rintro (⟨-, e, he⟩ | ⟨areas, hpy, -⟩) hshaped
    · obtain ⟨rows, protos, candidates, channels, h, w, hs⟩ := hshaped
      obtain ⟨out, hout, -⟩ := maskAreaCpp_ok Real.log hs
      rw [hout] at he
      cases he
    · exact (shaped_of_py Real.log hpy).2
  · intro hr
    by_cases hshaped : IsShaped m r
    · obtain ⟨rows, protos, candidates, channels, h, w, hs⟩ := id hshaped
      obtain ⟨out, hout, -, -, hdata⟩ := maskAreaCpp_ok Real.log hs
      refine .inr ⟨_, maskAreaPy_ok Real.log hs (hr hshaped), ⟨out, hout, hdata⟩, by simp, fun n a ha => ?_⟩
      have hlt : n < r.rows := by
        have := (List.getElem?_eq_some_iff.mp ha).1
        rwa [List.length_map, List.length_range] at this
      rw [List.getElem?_map, List.getElem?_range hlt] at ha
      cases ha
      exact cutArea_isArea hs h0 h1 n
    · refine .inl ⟨?_, ?_⟩
      · cases hpy : maskAreaPy Real.log m r.batched with
        | error e => exact ⟨e, rfl⟩
        | ok areas => exact absurd (shaped_of_py Real.log hpy).1 hshaped
      · cases hcpp : maskAreaCpp Real.log m r.flattened with
        | error e => exact ⟨e, rfl⟩
        | ok out => exact absurd (shaped_of_cpp Real.log hcpp) hshaped

/-- A fold as a chain that states nothing has it. -/
def plainLines : FoldLines ℝ := { mask_mem := fun m hm => by cases hm }

/-- An answer for no crops, of one candidate with one coefficient over one cell. -/
def noCrops : Segmentation ℝ where
  rows := 0
  outputs := [⟨"output0", [1, 7], [], rfl⟩, ⟨"output1", [1, 1, 1], [], rfl⟩]
  distinct := by decide

/-- Of no crops the C++ plane gives no areas, and the Python plane raises. -/
theorem no_crops_disagree : ¬ Agree (openedFold plainLines 8 8) (foldOf plainLines 8 8) noCrops := by
  have hs : Shaped (openedFold plainLines 8 8) noCrops ⟨"output0", [1, 7], [], rfl⟩
      ⟨"output1", [1, 1, 1], [], rfl⟩ 1 1 1 1 :=
    ⟨rfl, rfl, rfl, rfl, Nat.one_pos, Nat.one_pos, Nat.one_pos, Nat.one_pos⟩
  rw [foldOf_eq]
  rintro (⟨-, e, he⟩ | ⟨areas, hpy, -⟩)
  · obtain ⟨out, hout, -⟩ := maskAreaCpp_ok Real.log hs
    rw [hout] at he
    cases he
  · exact absurd (shaped_of_py Real.log hpy).2 (Nat.lt_irrefl 0)

end ShipInfer.Segment
