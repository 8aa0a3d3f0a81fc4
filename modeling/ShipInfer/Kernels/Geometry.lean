import ShipInfer.Lib.Rounding

/-!
# Where the kernels sample

What the kernels of `runtime/ops.cu` share: the fit of a letterbox, the coordinate of a
destination pixel, and the patch of a box. Every operation on `float`s is followed by `fl`,
what it rounds to; the arithmetic is exact where `fl` is the identity.
-/

namespace ShipInfer.Kernels

open Lib

/-- A `float` as memory holds it. -/
inductive Single
  | finite (q : ℚ)
  | infinite (negative : Bool)
  | nan
  deriving DecidableEq

/-- `fminf(fmaxf(value, 0.f), limit)`; of a number and a NaN both return the number. -/
def Single.clip (limit : ℚ) : Single → ℚ
  | .finite q => min (max q 0) limit
  | .infinite false => limit
  | .infinite true => min 0 limit
  | .nan => min 0 limit

theorem Single.clip_le (limit : ℚ) (b : Single) : b.clip limit ≤ limit := by
  cases b with
  | finite q => exact min_le_right _ _
  | infinite negative =>
    cases negative
    · exact le_refl _
    · exact min_le_right _ _
  | nan => exact min_le_right _ _

theorem Single.clip_nonneg {limit : ℚ} (h : 0 ≤ limit) (b : Single) : 0 ≤ b.clip limit := by
  cases b with
  | finite q => exact le_min (le_max_right _ _) h
  | infinite negative =>
    cases negative
    · exact h
    · exact le_min (le_refl _) h
  | nan => exact le_min (le_refl _) h

/-- `LetterboxMap` -/
structure LetterboxMap where
  scale : ℚ
  newW : Int
  newH : Int
  padX : Int
  padY : Int
  deriving DecidableEq

/-- A box as the detector gave it: its left, upper, right and lower edges. -/
structure Box (ρ : Type) where
  x1 : ρ
  y1 : ρ
  x2 : ρ
  y2 : ρ

section
variable (fl : ℚ → ℚ)

/-- `fit` -/
def fit (srcH srcW dstH dstW : Int) : LetterboxMap :=
  let scale := min (fl (fl dstW / fl srcW)) (fl (fl dstH / fl srcH))
  let newW := max 1 (roundEven (fl (fl srcW * scale)))
  let newH := max 1 (roundEven (fl (fl srcH * scale)))
  { scale, newW, newH, padX := (dstW - newW).tdiv 2, padY := (dstH - newH).tdiv 2 }

/-- `source_coordinate` -/
def sourceCoordinate (dst pad inn out : Int) : ℚ :=
  max 0 (fl (fl (fl (fl (fl (dst - pad : Int) + 1 / 2) * fl inn) / fl out) - 1 / 2))

/-- Whether a destination pixel lies on the image, and not in a bar. -/
def LetterboxMap.inside (map : LetterboxMap) (y x : Int) : Prop :=
  map.padX ≤ x ∧ x < map.padX + map.newW ∧ map.padY ≤ y ∧ y < map.padY + map.newH

instance (map : LetterboxMap) (y x : Int) : Decidable (map.inside y x) := by
  unfold LetterboxMap.inside
  infer_instance

/-- The patch of a box: clipped to the image, then truncated. -/
def patch (srcH srcW : Int) (box : Box Single) : Box Int where
  x1 := truncate (box.x1.clip (fl (fl srcW - 1)))
  y1 := truncate (box.y1.clip (fl (fl srcH - 1)))
  x2 := truncate (box.x2.clip (fl (fl srcW - 1)))
  y2 := truncate (box.y2.clip (fl (fl srcH - 1)))

def Box.width (b : Box Int) : Int := b.x2 - b.x1

def Box.height (b : Box Int) : Int := b.y2 - b.y1

/-- The two cells a sample of an axis of a patch lies between, and the weight of the second. -/
structure Taps where
  first : Int
  second : Int
  weight : ℚ
  deriving DecidableEq

/-- `lx`, `px0`, `px1` and `wx` of a crop, and likewise along the other axis. -/
def taps (dst extent out : Int) : Taps :=
  let l := sourceCoordinate fl dst 0 extent out
  let p0 := min (truncate l) (extent - 1)
  ⟨p0, min (p0 + 1) (extent - 1), fl (l - fl p0)⟩

end

/-! ## Exact arithmetic -/

@[simp] theorem sourceCoordinate_exact (dst pad inn out : Int) :
    sourceCoordinate id dst pad inn out = middle (dst - pad) inn out := rfl

/-- An image on a canvas of its own size is placed as it is. -/
theorem fit_self {h w : Int} (hh : 0 < h) (hw : 0 < w) : fit id h w h w = ⟨1, w, h, 0, 0⟩ := by
  have hh' : (h : ℚ) ≠ 0 := by exact_mod_cast hh.ne'
  have hw' : (w : ℚ) ≠ 0 := by exact_mod_cast hw.ne'
  simp only [fit, id_eq, div_self hh', div_self hw', min_self, mul_one, roundEven_int,
    max_eq_right (show 1 ≤ w from hw), max_eq_right (show 1 ≤ h from hh), sub_self]
  rfl

end ShipInfer.Kernels
