import Mathlib.Data.Fin.VecNotation
import ShipInfer.Kernels.Geometry
import ShipInfer.Kernels.Intake

/-!
# Reading NV12

The kernels of `runtime/ops.cu` on an NV12 surface. A pixel is sampled at a site, after the
clamps of `nv12_to_bgr`, and three bytes are read for it: its luma and the two of its
chroma block. Their offsets in a plane are computed as `int`s.
-/

namespace ShipInfer.Kernels

open Lib

/-- What an `int` operation leaves of a number. -/
def int32 (n : Int) : Int := n.bmod (2 ^ 32)

theorem int32_of_lt {n : Int} (h : 0 ≤ n) (hn : n < 2 ^ 31) : int32 n = n := by
  apply Int.bmod_eq_of_le <;> omega

theorem int32_lt (n : Int) : int32 n < 2 ^ 31 := by
  have := Int.bmod_lt (x := n) (m := 2 ^ 32) (by decide)
  unfold int32
  omega

/-- The bytes read for a pixel. -/
inductive Sample
  | luma
  | chromaU
  | chromaV
  deriving DecidableEq

/-- A pixel of the image. -/
structure Site where
  y : Int
  x : Int
  deriving DecidableEq

namespace Site

/-- The pixel at a coordinate: `yi` and `xi` of `nv12_to_bgr`. -/
def sampled (srcH srcW : Int) (yF xF : ℚ) : Site :=
  ⟨max 0 (min (srcH - 1) (truncate yF)), max 0 (min (srcW - 1) (truncate xF))⟩

def row (site : Site) : Sample → Int
  | .luma => site.y
  | .chromaU | .chromaV => site.y.tdiv 2

def column (site : Site) : Sample → Int
  | .luma => site.x
  | .chromaU => site.x.tdiv 2 * 2
  | .chromaV => site.x.tdiv 2 * 2 + 1

/-- The offset of a sample's plane. -/
def plane (uvOffset : Nat) : Sample → Nat
  | .luma => 0
  | .chromaU | .chromaV => uvOffset

/-- Where the kernel reads a sample. -/
def index (site : Site) (stride : Int) (uvOffset : Nat) (sample : Sample) : Int :=
  plane uvOffset sample + int32 (site.row sample * stride + site.column sample)

/-- Where the image holds it. -/
def address (site : Site) (stride : Int) (uvOffset : Nat) (sample : Sample) : Nat :=
  plane uvOffset sample + (site.row sample * stride + site.column sample).toNat

end Site

section
variable (fl : ℚ → ℚ)

/-- `nv12_to_bgr`, the byte at an index given by `byte`: BT.601, limited range. -/
def nv12ToBgr (byte : Int → UInt8) (srcH srcW stride : Int) (uvOffset : Nat) (yF xF : ℚ) : Fin 3 → ℚ :=
  let site := Site.sampled srcH srcW yF xF
  let value := fun sample => ((byte (site.index stride uvOffset sample)).toNat : ℚ)
  let luma := fl (fl (value .luma - 16) * fl 1.164383)
  let u := fl (value .chromaU - 128)
  let v := fl (value .chromaV - 128)
  ![min 255 (max 0 (fl (luma + fl (fl 2.017232 * u)))),
    min 255 (max 0 (fl (fl (luma - fl (fl 0.391762 * u)) - fl (fl 0.812968 * v)))),
    min 255 (max 0 (fl (luma + fl (fl 1.596027 * v))))]

/-- The channel of the image that a channel of the output is of. -/
def sourceChannel (swapRb : Bool) (c : Fin 3) : Fin 3 := if swapRb then 2 - c else c

/-- `nv12_letterbox_kernel`, at a pixel of the canvas. -/
def nv12LetterboxKernel (byte : Int → UInt8) (srcH srcW stride : Int) (uvOffset : Nat) (map : LetterboxMap)
    (swapRb : Bool) (padValue : ℚ) (c : Fin 3) (y x : Int) : ℚ :=
  if map.inside y x then
    fl (nv12ToBgr fl byte srcH srcW stride uvOffset (sourceCoordinate fl y map.padY srcH map.newH)
      (sourceCoordinate fl x map.padX srcW map.newW) (sourceChannel swapRb c) / 255)
  else padValue

/-- The pixels it samples for one of the canvas. -/
def letterboxSites (srcH srcW : Int) (map : LetterboxMap) (y x : Int) : List Site :=
  if map.inside y x then
    [Site.sampled srcH srcW (sourceCoordinate fl y map.padY srcH map.newH)
      (sourceCoordinate fl x map.padX srcW map.newW)]
  else []

/-- Of four corners, by the weights of the right and the lower ones. -/
def blend (p00 p01 p10 p11 wx wy : ℚ) : ℚ :=
  let upper := fl (fl (p00 * fl (1 - wx)) + fl (p01 * wx))
  let lower := fl (fl (p10 * fl (1 - wx)) + fl (p11 * wx))
  fl (fl (upper * fl (1 - wy)) + fl (lower * wy))

/-- `nv12_crop_resize_kernel`, at a pixel of the crop of a box. -/
def nv12CropResizeKernel (byte : Int → UInt8) (srcH srcW stride : Int) (uvOffset : Nat) (box : Box Single)
    (dstH dstW : Int) (swapRb : Bool) (c : Fin 3) (y x : Int) : ℚ :=
  let p := patch fl srcH srcW box
  if p.width ≤ 0 ∨ p.height ≤ 0 then 0
  else
    let tx := taps fl x p.width dstW
    let ty := taps fl y p.height dstH
    let pixel := fun (sy sx : Int) =>
      nv12ToBgr fl byte srcH srcW stride uvOffset (fl sy) (fl sx) (sourceChannel swapRb c)
    fl (blend fl (pixel (p.y1 + ty.first) (p.x1 + tx.first)) (pixel (p.y1 + ty.first) (p.x1 + tx.second))
      (pixel (p.y1 + ty.second) (p.x1 + tx.first)) (pixel (p.y1 + ty.second) (p.x1 + tx.second))
      tx.weight ty.weight / 255)

/-- The pixels it samples for one of the crop. -/
def cropSites (srcH srcW : Int) (box : Box Single) (dstH dstW : Int) (y x : Int) : List Site :=
  let p := patch fl srcH srcW box
  if p.width ≤ 0 ∨ p.height ≤ 0 then []
  else
    let tx := taps fl x p.width dstW
    let ty := taps fl y p.height dstH
    let site := fun (sy sx : Int) => Site.sampled srcH srcW (fl sy) (fl sx)
    [site (p.y1 + ty.first) (p.x1 + tx.first), site (p.y1 + ty.first) (p.x1 + tx.second),
      site (p.y1 + ty.second) (p.x1 + tx.first), site (p.y1 + ty.second) (p.x1 + tx.second)]

/-- `require_nv12_layout` -/
def requireNv12Layout (who : String) (srcH srcW stride : Int) (uvOffset : Nat) : Except String Unit :=
  if stride < srcW then
    .error (who ++ ": stride " ++ toString stride ++ " is narrower than the width " ++ toString srcW ++
      "; a row cannot fit, so every row would read into the next")
  else if uvOffset < stride.toNat * srcH.toNat then
    .error (who ++ ": uv_offset " ++ toString uvOffset ++ " is inside the luma plane (" ++ toString stride ++ " x " ++
      toString srcH ++ "); pass `stride * src_h` -- which is the answer for a tight buffer and for a mapped " ++
      "decoder surface alike")
  else .ok ()

/-- A canvas: a value for each channel, row and column. -/
abbrev Canvas := Fin 3 → Int → Int → ℚ

def nv12LetterboxInto (byte : Int → UInt8) (srcH srcW stride : Int) (uvOffset : Nat) (dstH dstW : Int) (swapRb : Bool)
    (padValue : ℚ) : Except String (LetterboxMap × Canvas) :=
  (requireNv12Layout "nv12_letterbox_into" srcH srcW stride uvOffset).map fun _ =>
    let map := fit fl srcH srcW dstH dstW
    (map, nv12LetterboxKernel fl byte srcH srcW stride uvOffset map swapRb padValue)

def nv12CropResizeInto (byte : Int → UInt8) (srcH srcW stride : Int) (uvOffset : Nat) (boxes : List (Box Single))
    (dstH dstW : Int) (swapRb : Bool) : Except String (List Canvas) :=
  if boxes.isEmpty then .ok []
  else (requireNv12Layout "nv12_crop_resize_into" srcH srcW stride uvOffset).map fun _ =>
    boxes.map fun box => nv12CropResizeKernel fl byte srcH srcW stride uvOffset box dstH dstW swapRb

end

theorem requireNv12Layout_ok {srcH srcW stride : Int} {uvOffset : Nat} (hw : srcW ≤ stride)
    (hu : stride.toNat * srcH.toNat ≤ uvOffset) (who : String) :
    requireNv12Layout who srcH srcW stride uvOffset = .ok () := by
  rw [requireNv12Layout, if_neg (not_lt.mpr hw), if_neg (not_lt.mpr hu)]

/-! ## What is read -/

/-- A site is a pixel of the image, whatever the coordinate. -/
theorem site_inside {srcH srcW : Int} (hh : 0 < srcH) (hw : 0 < srcW) (yF xF : ℚ) :
    0 ≤ (Site.sampled srcH srcW yF xF).y ∧ (Site.sampled srcH srcW yF xF).y < srcH ∧
      0 ≤ (Site.sampled srcH srcW yF xF).x ∧ (Site.sampled srcH srcW yF xF).x < srcW := by
  simp only [Site.sampled]
  omega

section
variable {fl : ℚ → ℚ} {srcH srcW : Int}

theorem letterbox_site {map : LetterboxMap} {y x : Int} {site : Site}
    (h : site ∈ letterboxSites fl srcH srcW map y x) : ∃ yF xF, site = Site.sampled srcH srcW yF xF := by
  unfold letterboxSites at h
  split at h
  · exact ⟨_, _, List.mem_singleton.mp h⟩
  · cases h

theorem crop_site {box : Box Single} {dstH dstW y x : Int} {site : Site}
    (h : site ∈ cropSites fl srcH srcW box dstH dstW y x) : ∃ yF xF, site = Site.sampled srcH srcW yF xF := by
  unfold cropSites at h
  dsimp only at h
  split at h
  · cases h
  · simp only [List.mem_cons, List.not_mem_nil, or_false] at h
    rcases h with h | h | h | h <;> exact ⟨_, _, h⟩

end

/-- A pixel's colour is by the bytes read for it and nothing else. -/
theorem nv12ToBgr_congr (fl : ℚ → ℚ) {byte byte' : Int → UInt8} {srcH srcW stride stride' : Int}
    {uvOffset uvOffset' : Nat} {yF xF : ℚ} (h : ∀ sample, byte ((Site.sampled srcH srcW yF xF).index stride uvOffset sample) =
      byte' ((Site.sampled srcH srcW yF xF).index stride' uvOffset' sample)) :
    nv12ToBgr fl byte srcH srcW stride uvOffset yF xF = nv12ToBgr fl byte' srcH srcW stride' uvOffset' yF xF := by
  simp only [nv12ToBgr, h]

/-! ## The planes of a taken surface -/

/-- A read of a surface that holds the image is right: inside the buffer and inside its row,
and of the image's byte. -/
structure Right (image : DeviceImage) (nv12 : Nat → UInt8) (surface : DeviceSurface) (site : Site) (sample : Sample) :
    Prop where
  nonneg : 0 ≤ site.index surface.stride surface.uvOffset sample
  inside : site.index surface.stride surface.uvOffset sample < surface.buffer.bytes
  row : site.column sample < image.pitch
  byte : surface.buffer.data (site.index surface.stride surface.uvOffset sample).toNat =
    nv12 (site.address image.pitch image.uvOffset sample)

/-- The layouts a surface can hold. The last chroma row of an image of odd height has half a
row of the buffer; and the offset of the last pixel is an `int`. -/
def Fits (image : DeviceImage) : Prop :=
  (image.height - 1) * image.pitch + (image.width - 1) < 2 ^ 31 ∧
    2 * ((image.width + 1) / 2) ≤ if image.height % 2 = 0 then image.pitch else image.pitch / 2

instance (image : DeviceImage) : Decidable (Fits image) := by
  unfold Fits
  infer_instance

/-- Every read of the letterbox and of the crops is right, and neither entry refuses. -/
structure ReadsRight (fl : ℚ → ℚ) (image : DeviceImage) (nv12 : Nat → UInt8) (surface : DeviceSurface) : Prop where
  layout : ∀ who, requireNv12Layout who image.height image.width surface.stride surface.uvOffset = .ok ()
  letterbox : ∀ dstH dstW y x : Int, 0 ≤ y → y < dstH → 0 ≤ x → x < dstW →
    ∀ site ∈ letterboxSites fl image.height image.width (fit fl image.height image.width dstH dstW) y x,
      ∀ sample, Right image nv12 surface site sample
  crop : ∀ (boxes : List (Box Single)) (dstH dstW y x : Int), 0 ≤ y → y < dstH → 0 ≤ x → x < dstW → ∀ box ∈ boxes,
    ∀ site ∈ cropSites fl image.height image.width box dstH dstW y x, ∀ sample, Right image nv12 surface site sample

/-- The image with other bytes. -/
def DeviceImage.holding (image : DeviceImage) (nv12 : Nat → UInt8) : DeviceImage := { image with nv12 := some nv12 }

theorem DeviceImage.holding_empty {image : DeviceImage} (hi : image.empty = false) (nv12 : Nat → UInt8) :
    (image.holding nv12).empty = false := by
  obtain ⟨-, hrest⟩ := DeviceImage.empty_eq_false.mp hi
  exact DeviceImage.empty_eq_false.mpr ⟨rfl, hrest⟩

section
variable {image : DeviceImage} {nv12 : Nat → UInt8} {surface : DeviceSurface}

/-- The rows of the chroma plane are as many, and as long, as the pixels need. -/
theorem chroma_lt {h p y c : Int} (hp : 0 ≤ p) (hyh : y < h)
    (hc : c < if h % 2 = 0 then p else p / 2) : y / 2 * p + c < h * p / 2 := by
  by_cases heven : h % 2 = 0
  · rw [if_pos heven] at hc
    have hrow : (y / 2 + 1) * p ≤ h / 2 * p := mul_le_mul_of_nonneg_right (by omega) hp
    have hhalf : h * p / 2 = h / 2 * p := by
      rw [show h * p = 2 * (h / 2 * p) by rw [← mul_assoc, show 2 * (h / 2) = h by omega]]
      omega
    rw [add_mul] at hrow
    omega
  · rw [if_neg heven] at hc
    have hrow : y / 2 * p ≤ h / 2 * p := mul_le_mul_of_nonneg_right (by omega) hp
    have hhalf : h * p / 2 = h / 2 * p + p / 2 := by
      rw [show h * p = 2 * (h / 2 * p) + p by rw [← mul_assoc, ← add_one_mul, show 2 * (h / 2) + 1 = h by omega]]
      omega
    omega

/-- An offset in the chroma plane is less than the last one of the luma plane, or in the first
row. -/
theorem chroma_int {h w p y c : Int} (hp : 0 < p) (hy : 0 ≤ y) (hyh : y < h) (hw : w < 2 ^ 31) (hc : c ≤ w)
    (hlast : (h - 1) * p + (w - 1) < 2 ^ 31) : y / 2 * p + c < 2 ^ 31 := by
  by_cases hrow : y / 2 = 0
  · rw [hrow]
    omega
  · have hone : 1 * p ≤ y / 2 * p := mul_le_mul_of_nonneg_right (by omega) hp.le
    have htwo : (y / 2 + y / 2) * p ≤ (h - 1) * p := mul_le_mul_of_nonneg_right (by omega) hp.le
    rw [add_mul] at htwo
    omega

/-- How far a sample's plane goes in the buffer. -/
def extent (image : DeviceImage) : Sample → Int
  | .luma => image.height * image.pitch
  | .chromaU | .chromaV => image.height * image.pitch / 2

/-- What is read for a pixel lies in its row and in its plane, and its offset is an `int`. -/
theorem offset_lt (hi : image.empty = false) (hf : Fits image) {site : Site} (hy : 0 ≤ site.y)
    (hyh : site.y < image.height) (hx : 0 ≤ site.x) (hxw : site.x < image.width) (sample : Sample) :
    0 ≤ site.row sample * image.pitch + site.column sample ∧
      site.row sample * image.pitch + site.column sample < 2 ^ 31 ∧
      site.row sample * image.pitch + site.column sample < extent image sample ∧ site.column sample < image.pitch := by
  obtain ⟨-, hh, hw, hpitch, -, -⟩ := DeviceImage.empty_eq_false.mp hi
  have hfit := hf.2
  have hdiv : site.y.tdiv 2 = site.y / 2 := Int.tdiv_eq_ediv_of_nonneg hy
  have hdivx : site.x.tdiv 2 = site.x / 2 := Int.tdiv_eq_ediv_of_nonneg hx
  have hchroma : ∀ c, 0 ≤ c → c ≤ site.x / 2 * 2 + 1 →
      0 ≤ site.y / 2 * image.pitch + c ∧ site.y / 2 * image.pitch + c < 2 ^ 31 ∧
        site.y / 2 * image.pitch + c < image.height * image.pitch / 2 ∧ c < image.pitch := by
    intro c hc hc'
    refine ⟨add_nonneg (mul_nonneg (by omega) (by omega)) hc, ?_, ?_, ?_⟩
    · exact chroma_int (by omega) (by omega) hyh image.width_lt (by omega) hf.1
    · apply chroma_lt (by omega) hyh
      split at hfit <;> omega
    · split at hfit <;> omega
  cases sample with
  | luma =>
    have hrow : site.y * image.pitch ≤ (image.height - 1) * image.pitch :=
      mul_le_mul_of_nonneg_right (by omega) (by omega)
    have hnonneg : 0 ≤ site.y * image.pitch := mul_nonneg hy (by omega)
    have hint := hf.1
    have hwhole : (image.height - 1) * image.pitch = image.height * image.pitch - image.pitch := by ring
    simp only [Site.row, Site.column, extent]
    omega
  | chromaU =>
    simp only [Site.row, Site.column, extent, hdiv, hdivx]
    exact hchroma _ (by omega) (by omega)
  | chromaV =>
    simp only [Site.row, Site.column, extent, hdiv, hdivx]
    exact hchroma _ (by omega) (le_refl _)

theorem cast_luma (hi : image.empty = false) :
    ((image.pitch.toNat * image.height.toNat : Nat) : Int) = image.height * image.pitch := by
  obtain ⟨-, hh, hw, hpitch, -, -⟩ := DeviceImage.empty_eq_false.mp hi
  rw [Nat.cast_mul, Int.toNat_of_nonneg (by omega), Int.toNat_of_nonneg (by omega), mul_comm]

theorem Filled.right (hs : Filled image nv12 surface) (hi : image.empty = false) (hf : Fits image) {site : Site}
    (hy : 0 ≤ site.y) (hyh : site.y < image.height) (hx : 0 ≤ site.x) (hxw : site.x < image.width) (sample : Sample) :
    Right image nv12 surface site sample := by
  have hoffset : (surface.uvOffset : Int) = image.height * image.pitch := by rw [hs.uvOffset, cast_luma hi]
  have hbytes := hs.bytes
  obtain ⟨hnonneg, hint, hextent, hcolumn⟩ := offset_lt hi hf hy hyh hx hxw sample
  have hindex : site.index surface.stride surface.uvOffset sample =
      Site.plane surface.uvOffset sample + (site.row sample * image.pitch + site.column sample) := by
    rw [Site.index, hs.stride, int32_of_lt hnonneg hint]
  have hluma : ∀ n : Int, 0 ≤ n → n < image.height * image.pitch →
      surface.buffer.data ((0 : Nat) + n).toNat = nv12 (0 + n.toNat) := by
    intro n hn hlt
    rw [Nat.cast_zero, zero_add, hs.luma _ (by omega), zero_add]
  have hchroma : ∀ n : Int, 0 ≤ n → n < image.height * image.pitch / 2 →
      surface.buffer.data ((surface.uvOffset : Int) + n).toNat = nv12 (image.uvOffset + n.toNat) := by
    intro n hn hlt
    rw [← hs.chroma _ (by omega)]
    congr 1
    omega
  refine ⟨?_, ?_, hcolumn, ?_⟩
  · rw [hindex]
    omega
  · rw [hindex]
    cases sample <;> simp only [Site.plane, extent] at hextent ⊢ <;> omega
  · rw [hindex, Site.address]
    cases sample with
    | luma => exact hluma _ hnonneg hextent
    | chromaU => exact hchroma _ hnonneg hextent
    | chromaV => exact hchroma _ hnonneg hextent

theorem Filled.readsRight (hs : Filled image nv12 surface) (hi : image.empty = false) (hf : Fits image) (fl : ℚ → ℚ) :
    ReadsRight fl image nv12 surface := by
  obtain ⟨-, hh, hw, hpitch, -, -⟩ := DeviceImage.empty_eq_false.mp hi
  have hright : ∀ yF xF sample, Right image nv12 surface (Site.sampled image.height image.width yF xF) sample := by
    intro yF xF sample
    obtain ⟨hy, hyh, hx, hxw⟩ := site_inside hh hw yF xF
    exact hs.right hi hf hy hyh hx hxw sample
  constructor
  · rw [hs.stride, hs.uvOffset]
    exact requireNv12Layout_ok hpitch (le_refl _)
  · intro dstH dstW y x _ _ _ _ site hsite sample
    obtain ⟨yF, xF, rfl⟩ := letterbox_site hsite
    exact hright yF xF sample
  · intro boxes dstH dstW y x _ _ _ _ box _ site hsite sample
    obtain ⟨yF, xF, rfl⟩ := crop_site hsite
    exact hright yF xF sample

/-- On a canvas of the image's own size, the last pixel is sampled. -/
theorem last_sampled {h w : Int} (hh : 0 < h) (hw : 0 < w) :
    ⟨h - 1, w - 1⟩ ∈ letterboxSites id h w (fit id h w h w) (h - 1) (w - 1) := by
  have hlast : ∀ n : Int, 0 < n → max 0 (min (n - 1) (truncate (middle (n - 1 - 0) n n))) = n - 1 := by
    intro n hn
    rw [sub_zero, middle_self (by omega) hn, truncate_int]
    omega
  rw [fit_self hh hw]
  unfold letterboxSites
  rw [if_pos (by simp only [LetterboxMap.inside]; omega)]
  simp only [Site.sampled, sourceCoordinate_exact, hlast h hh, hlast w hw, List.mem_singleton]

/-- Reads are right only where the layout fits: the bytes of the last pixel tell. -/
theorem fits_of_right (hi : image.empty = false)
    (h : ∀ nv12, ∃ surface, Filled (image.holding nv12) nv12 surface ∧
      ∀ sample, Right (image.holding nv12) nv12 surface ⟨image.height - 1, image.width - 1⟩ sample) : Fits image := by
  obtain ⟨-, hh, hw, hpitch, -, -⟩ := DeviceImage.empty_eq_false.mp hi
  have hprod : (image.height - 1) * image.pitch = image.height * image.pitch - image.pitch := by ring
  have hlength : ∀ {nv12 surface}, Filled (image.holding nv12) nv12 surface →
      (surface.uvOffset : Int) = image.height * image.pitch := by
    intro nv12 surface hs
    rw [hs.uvOffset]
    exact cast_luma (DeviceImage.holding_empty hi nv12)
  have hint : (image.height - 1) * image.pitch + (image.width - 1) < 2 ^ 31 := by
    by_contra hlate
    -- A memory that tells the last luma byte from every other.
    obtain ⟨surface, hs, hright⟩ := h fun a =>
      if (a : Int) = (image.height - 1) * image.pitch + (image.width - 1) then 1 else 0
    obtain ⟨hnn, -, -, hbyte⟩ := hright .luma
    have hoffset := hlength hs
    have hstride : surface.stride = image.pitch := hs.stride
    have hlt := int32_lt ((image.height - 1) * image.pitch + (image.width - 1))
    simp only [Site.index, Site.plane, Site.row, Site.column, hstride, Nat.cast_zero, zero_add] at hnn hbyte
    rw [hs.luma _ (by omega), if_neg (by omega)] at hbyte
    have haddress : ∀ uvOffset : Nat,
        ((Site.address ⟨image.height - 1, image.width - 1⟩ image.pitch uvOffset .luma : Nat) : Int) =
          (image.height - 1) * image.pitch + (image.width - 1) := by
      intro uvOffset
      simp only [Site.address, Site.plane, Site.row, Site.column, zero_add]
      omega
    exact absurd (hbyte.trans (if_pos (haddress _))) (by decide)
  refine ⟨hint, ?_⟩
  obtain ⟨surface, hs, hright⟩ := h fun _ => 0
  obtain ⟨-, hin, hrow, -⟩ := hright .chromaV
  have hoffset := hlength hs
  have hbytes := hs.bytes
  have hstride : surface.stride = image.pitch := hs.stride
  have hdiv : (image.height - 1).tdiv 2 = (image.height - 1) / 2 := Int.tdiv_eq_ediv_of_nonneg (by omega)
  have hdivx : (image.width - 1).tdiv 2 = (image.width - 1) / 2 := Int.tdiv_eq_ediv_of_nonneg (by omega)
  have hrownn : 0 ≤ (image.height - 1) / 2 * image.pitch := mul_nonneg (by omega) (by omega)
  have hrow : (image.width - 1) / 2 * 2 + 1 < image.pitch := by
    rw [← hdivx]
    exact hrow
  simp only [Site.index, Site.plane, Site.row, Site.column, hstride, hdiv, hdivx] at hin
  rw [int32_of_lt (by omega) (chroma_int (by omega) (by omega) (by omega) image.width_lt (by omega) hint)] at hin
  split
  · omega
  · have hhalf : image.height * image.pitch / 2 = (image.height - 1) / 2 * image.pitch + image.pitch / 2 := by
      rw [show image.height * image.pitch = 2 * ((image.height - 1) / 2 * image.pitch) + image.pitch by
        rw [← mul_assoc, ← add_one_mul, show 2 * ((image.height - 1) / 2) + 1 = image.height by omega]]
      omega
    omega

/-! ## The kernels on a taken surface -/

/-- A pixel of the surface has the colour it has in the image. -/
theorem Filled.colour (hs : Filled image nv12 surface) (hi : image.empty = false) (hf : Fits image) (fl : ℚ → ℚ)
    (yF xF : ℚ) :
    nv12ToBgr fl (fun i => surface.buffer.data i.toNat) image.height image.width surface.stride surface.uvOffset yF xF =
      nv12ToBgr fl (fun i => nv12 i.toNat) image.height image.width image.pitch image.uvOffset yF xF := by
  obtain ⟨-, hh, hw, -, -, -⟩ := DeviceImage.empty_eq_false.mp hi
  obtain ⟨hy, hyh, hx, hxw⟩ := site_inside hh hw yF xF
  refine nv12ToBgr_congr fl fun sample => ?_
  obtain ⟨hnonneg, hint, -, -⟩ := offset_lt hi hf hy hyh hx hxw sample
  rw [(hs.right hi hf hy hyh hx hxw sample).byte, Site.address, Site.index, int32_of_lt hnonneg hint]
  congr 1
  omega

/-- The letterbox of a taken surface is that of the image. -/
theorem Filled.letterbox_eq (hs : Filled image nv12 surface) (hi : image.empty = false) (hf : Fits image) (fl : ℚ → ℚ)
    (dstH dstW : Int) (swapRb : Bool) (padValue : ℚ) :
    nv12LetterboxInto fl (fun i => surface.buffer.data i.toNat) image.height image.width surface.stride surface.uvOffset
        dstH dstW swapRb padValue =
      nv12LetterboxInto fl (fun i => nv12 i.toNat) image.height image.width image.pitch image.uvOffset dstH dstW swapRb
        padValue := by
  have hkernel : ∀ map, nv12LetterboxKernel fl (fun i => surface.buffer.data i.toNat) image.height image.width
      surface.stride surface.uvOffset map swapRb padValue =
        nv12LetterboxKernel fl (fun i => nv12 i.toNat) image.height image.width image.pitch image.uvOffset map swapRb
          padValue := by
    intro map
    funext c y x
    simp only [nv12LetterboxKernel, hs.colour hi hf]
  obtain ⟨-, -, -, hpitch, -, hoffset⟩ := DeviceImage.empty_eq_false.mp hi
  simp only [nv12LetterboxInto, (hs.readsRight hi hf fl).layout, hkernel, requireNv12Layout_ok hpitch hoffset]

/-- The crops of a taken surface are those of the image. -/
theorem Filled.crops_eq (hs : Filled image nv12 surface) (hi : image.empty = false) (hf : Fits image) (fl : ℚ → ℚ)
    (boxes : List (Box Single)) (dstH dstW : Int) (swapRb : Bool) :
    nv12CropResizeInto fl (fun i => surface.buffer.data i.toNat) image.height image.width surface.stride
        surface.uvOffset boxes dstH dstW swapRb =
      nv12CropResizeInto fl (fun i => nv12 i.toNat) image.height image.width image.pitch image.uvOffset boxes dstH dstW
        swapRb := by
  have hkernel : ∀ box, nv12CropResizeKernel fl (fun i => surface.buffer.data i.toNat) image.height image.width
      surface.stride surface.uvOffset box dstH dstW swapRb =
        nv12CropResizeKernel fl (fun i => nv12 i.toNat) image.height image.width image.pitch image.uvOffset box dstH
          dstW swapRb := by
    intro box
    funext c y x
    simp only [nv12CropResizeKernel, hs.colour hi hf]
  obtain ⟨-, -, -, hpitch, -, hoffset⟩ := DeviceImage.empty_eq_false.mp hi
  simp only [nv12CropResizeInto, (hs.readsRight hi hf fl).layout, hkernel, requireNv12Layout_ok hpitch hoffset]

end

/-- **The reads of a taken surface.** Whatever the intake did before, an image it accepts is taken
to a surface on which the kernels read right, for every canvas and every box, if and only if the
layout fits; and where it fits, right however their arithmetic rounds. -/
theorem reads_right_iff {device : Int} {maxPooled : Nat} {s : SurfaceIntake}
    (h : (SurfaceIntake.intake device maxPooled).Reachable s) {image : DeviceImage} (hi : image.empty = false)
    (camera : String) :
    ((∀ nv12 fresh : Nat → UInt8, ∃ t surface, s.take (image.holding nv12) camera fresh = (t, .ok surface) ∧
        ReadsRight id (image.holding nv12) nv12 surface) ↔ Fits image) ∧
      (Fits image → ∀ (fl : ℚ → ℚ) (nv12 fresh : Nat → UInt8), ∃ t surface,
        s.take (image.holding nv12) camera fresh = (t, .ok surface) ∧
          ReadsRight fl (image.holding nv12) nv12 surface) := by
  have hkeyed := SurfaceIntake.reachable_keyed h
  have htake : ∀ nv12 fresh : Nat → UInt8, ∃ t surface, s.take (image.holding nv12) camera fresh = (t, .ok surface) ∧
      Filled (image.holding nv12) nv12 surface :=
    fun nv12 fresh => hkeyed.take (DeviceImage.holding_empty hi nv12) rfl camera fresh
  have hfits : Fits image → ∀ (fl : ℚ → ℚ) (nv12 fresh : Nat → UInt8), ∃ t surface,
      s.take (image.holding nv12) camera fresh = (t, .ok surface) ∧
        ReadsRight fl (image.holding nv12) nv12 surface := by
    intro hf fl nv12 fresh
    obtain ⟨t, surface, ht, hs⟩ := htake nv12 fresh
    exact ⟨t, surface, ht, hs.readsRight (DeviceImage.holding_empty hi nv12) hf fl⟩
  refine ⟨⟨fun hall => ?_, fun hf => hfits hf id⟩, hfits⟩
  obtain ⟨-, hh, hw, -⟩ := DeviceImage.empty_eq_false.mp hi
  refine fits_of_right hi fun nv12 => ?_
  obtain ⟨t, surface, ht, hs⟩ := htake nv12 fun _ => 0
  obtain ⟨t', surface', ht', hreads⟩ := hall nv12 fun _ => 0
  have heq : surface' = surface := by
    rw [ht] at ht'
    cases ht'
    rfl
  subst heq
  refine ⟨surface', hs, fun sample => ?_⟩
  exact hreads.letterbox image.height image.width (image.height - 1) (image.width - 1) (by omega) (by omega) (by omega)
    (by omega) _ (last_sampled hh hw) sample

/-- Three rows of four pixels. -/
def oddImage : DeviceImage :=
  { nv12 := some fun _ => 0, height := 3, width := 4, pitch := 4, uvOffset := 12, device := 0
    height_lt := by decide, width_lt := by decide, pitch_lt := by decide }

theorem oddImage_usable : oddImage.empty = false := by decide

theorem odd_reads_right_iff :
    ((∀ nv12 fresh : Nat → UInt8, ∃ t surface,
        ({ device := 0 } : SurfaceIntake).take (oddImage.holding nv12) "bow" fresh = (t, .ok surface) ∧
          ReadsRight id (oddImage.holding nv12) nv12 surface) ↔ Fits oddImage) ∧
      (Fits oddImage → ∀ (fl : ℚ → ℚ) (nv12 fresh : Nat → UInt8), ∃ t surface,
        ({ device := 0 } : SurfaceIntake).take (oddImage.holding nv12) "bow" fresh = (t, .ok surface) ∧
          ReadsRight fl (oddImage.holding nv12) nv12 surface) :=
  @reads_right_iff 0 8 _ (.init rfl) _ oddImage_usable "bow"

/-- The last chroma row is past the end of the buffer. -/
theorem odd_surface_overread : ∃ t surface,
    ({ device := 0 } : SurfaceIntake).take oddImage "bow" (fun _ => 0) = (t, .ok surface) ∧
      surface.buffer.bytes = 18 ∧ ¬ ReadsRight id oddImage (fun _ => 0) surface := by
  have hkeyed : ({ device := 0 } : SurfaceIntake).Keyed :=
    @SurfaceIntake.reachable_keyed _ 0 8 (.init rfl)
  obtain ⟨t, surface, ht, hs⟩ :=
    hkeyed.take oddImage_usable (show oddImage.nv12 = some fun _ => 0 from rfl) "bow" fun _ => 0
  have hoffset : surface.uvOffset = 12 := hs.uvOffset
  have hbytes : surface.buffer.bytes = 18 := by rw [hs.bytes, hoffset]
  refine ⟨t, surface, ht, hbytes, fun hreads => ?_⟩
  have hin := (hreads.letterbox 3 4 2 3 (by decide) (by decide) (by decide) (by decide) _
    (last_sampled (h := 3) (w := 4) (by decide) (by decide)) .chromaV).inside
  rw [hs.stride, hoffset, hbytes] at hin
  exact absurd hin (by decide)

end ShipInfer.Kernels
