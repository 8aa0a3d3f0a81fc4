import Mathlib.Algebra.Order.Field.Power
import Mathlib.Data.Int.Log
import Mathlib.Data.List.DropRight
import Mathlib.Tactic.NormNum
import Mathlib.Tactic.Positivity
import Mathlib.Tactic.Ring
import ShipInfer.Lib.Rounding
import ShipInfer.Lib.Texts

/-!
# Doubles and their decimal texts

A finite double is a sign, a significand and an exponent. A decimal is read as the double
nearest to it, and a double is written as the shortest decimal that is read as it.
-/

namespace ShipInfer.Lib

theorem le_roundEven {q : ℚ} {n : Int} (h : n ≤ q) : n ≤ roundEven q := by
  have hfloor : n ≤ ⌊q⌋ := Int.le_floor.mpr h
  unfold roundEven
  split
  · exact hfloor
  split
  · omega
  split <;> omega

/-- A finite binary64 number; every one has one form. -/
structure Double where
  neg : Bool
  mant : Nat
  exp : Int
  bounded : mant < 2 ^ 53
  least : -1074 ≤ exp
  most : exp ≤ 971
  normal : exp = -1074 ∨ 2 ^ 52 ≤ mant
  deriving DecidableEq

namespace Double

def magnitude (x : Double) : ℚ := x.mant * 2 ^ x.exp

def value (x : Double) : ℚ := if x.neg then -x.magnitude else x.magnitude

/-- The exponent of the doubles around `q`. -/
def exponent (q : ℚ) : Int := if q ≤ 0 then -1074 else max (-1074) (Int.log 2 q - 52)

/-- How many of the units of its exponent `q` comes to. -/
def units (q : ℚ) : Nat := (roundEven (q / 2 ^ exponent q)).toNat

theorem le_exponent (q : ℚ) : -1074 ≤ exponent q := by
  unfold exponent
  split
  · exact Int.le_refl _
  · exact le_max_left _ _

theorem normal_units (q : ℚ) : exponent q = -1074 ∨ 2 ^ 52 ≤ units q := by
  by_cases hlow : exponent q = -1074
  · exact .inl hlow
  right
  have hpos : 0 < q := by
    by_contra hle
    exact hlow (if_pos (not_lt.mp hle))
  have hexp : exponent q = Int.log 2 q - 52 := by
    unfold exponent at hlow ⊢
    rw [if_neg (not_le.mpr hpos)] at hlow ⊢
    exact (max_choice _ _).resolve_left hlow
  have hle : (2 : ℚ) ^ (exponent q + 52) ≤ q := by
    rw [hexp, sub_add_cancel]
    exact_mod_cast Int.zpow_log_le_self (b := 2) (by decide) hpos
  have hunits : ((2 ^ 52 : Int) : ℚ) ≤ q / 2 ^ exponent q := by
    rw [le_div_iff₀ (by positivity)]
    rw [zpow_add₀ (by norm_num)] at hle
    push_cast
    rw [mul_comm]
    exact_mod_cast hle
  have := le_roundEven hunits
  unfold units
  omega

/-- The double nearest to `q`, of two equally near ones the one with the even significand; none past the largest. -/
def nearest (neg : Bool) (q : ℚ) : Option Double :=
  if hmant : units q < 2 ^ 53 then
    if hexp : exponent q ≤ 971 then
      some
        { neg
          mant := units q
          exp := exponent q
          bounded := hmant
          least := le_exponent q
          most := hexp
          normal := normal_units q }
    else none
  else if hexp : exponent q + 1 ≤ 971 then
    some
      { neg
        mant := 2 ^ 52
        exp := exponent q + 1
        bounded := by decide
        least := by have := le_exponent q; omega
        most := hexp
        normal := .inr (Nat.le_refl _) }
  else none

theorem magnitude_pos {x : Double} (h : x.mant ≠ 0) : 0 < x.magnitude := by
  have : (0 : ℚ) < x.mant := by exact_mod_cast Nat.pos_of_ne_zero h
  exact mul_pos this (by positivity)

theorem exponent_magnitude (x : Double) : exponent x.magnitude = x.exp := by
  by_cases hzero : x.mant = 0
  · have hexp : x.exp = -1074 := x.normal.resolve_right (by rw [hzero]; decide)
    rw [exponent, if_pos (by simp [magnitude, hzero]), hexp]
  have hpos := magnitude_pos hzero
  rw [exponent, if_neg (not_le.mpr hpos)]
  have hlt : x.magnitude < ((2 : ℕ) : ℚ) ^ (x.exp + 53) := by
    have hm : (x.mant : ℚ) < 2 ^ (53 : Int) := by exact_mod_cast x.bounded
    rw [magnitude, Nat.cast_ofNat, zpow_add₀ (by norm_num), mul_comm]
    exact mul_lt_mul_of_pos_left hm (by positivity)
  have hlog := (Int.lt_zpow_iff_log_lt (by decide) hpos).mp hlt
  rcases x.normal with hexp | hnormal
  · rw [hexp] at hlog ⊢
    exact max_eq_left (by omega)
  · have hle : ((2 : ℕ) : ℚ) ^ (x.exp + 52) ≤ x.magnitude := by
      have hm : (2 : ℚ) ^ (52 : Int) ≤ x.mant := by exact_mod_cast hnormal
      rw [magnitude, Nat.cast_ofNat, zpow_add₀ (by norm_num), mul_comm]
      exact mul_le_mul_of_nonneg_right hm (by positivity)
    have hle' := (Int.zpow_le_iff_le_log (by decide) hpos).mp hle
    have := x.least
    rw [max_eq_right (by omega)]
    omega

/-- A double is the nearest to itself. -/
theorem nearest_magnitude (x : Double) : nearest x.neg x.magnitude = some x := by
  have hexp := exponent_magnitude x
  have hunits : units x.magnitude = x.mant := by
    have hq : x.magnitude / 2 ^ exponent x.magnitude = ((x.mant : Int) : ℚ) := by
      rw [hexp, magnitude, mul_div_assoc, div_self (by positivity), mul_one]
      simp
    rw [units, hq, roundEven_int]
    simp
  unfold nearest
  simp only [hunits, hexp, x.bounded, x.most, dif_pos]

/-! ## The shortest decimal -/

/-- `d * 10 ^ k` is read as `x`. -/
def reads (x : Double) (d : Nat) (k : Int) : Bool := decide (nearest x.neg (d * 10 ^ k) = some x)

/-- The place of the last of `n + 1` digits. -/
def place (x : Double) (n : Nat) : Int := Int.log 10 x.magnitude - n

/-- Its first `n + 1` digits. -/
def below (x : Double) (n : Nat) : Nat := ⌊x.magnitude / 10 ^ x.place n⌋.toNat

theorem exists_reads (x : Double) : ∃ n, x.reads (x.below n) (x.place n) ∨ x.reads (x.below n + 1) (x.place n) := by
  refine ⟨(Int.log 10 x.magnitude + 1074).toNat, .inl ?_⟩
  generalize hn : (Int.log 10 x.magnitude + 1074).toNat = n
  -- That far down every double ends.
  obtain ⟨j, hj⟩ : ∃ j : Nat, x.place n = -(j : Int) ∧ 1074 ≤ j := by
    refine ⟨(-x.place n).toNat, ?_⟩
    unfold place
    omega
  obtain ⟨i, hi⟩ : ∃ i : Nat, x.exp + j = i := by
    have := x.least
    exact ⟨(x.exp + j).toNat, by omega⟩
  have hten : (10 : ℚ) ^ x.place n = (2 : ℚ) ^ (-(j : Int)) * 5 ^ (-(j : Int)) := by
    rw [hj.1, ← mul_zpow]
    norm_num
  have hwhole : x.magnitude / 10 ^ x.place n = ((x.mant * 2 ^ i * 5 ^ j : ℕ) : ℚ) := by
    have hexp : (2 : ℚ) ^ i = 2 ^ x.exp * 2 ^ j := by
      rw [← zpow_natCast, ← hi, zpow_add₀ (by norm_num), zpow_natCast]
    rw [hten, magnitude, zpow_neg, zpow_neg, zpow_natCast, zpow_natCast]
    push_cast
    rw [hexp]
    field_simp
  have hbelow : x.below n = x.mant * 2 ^ i * 5 ^ j := by
    rw [below, hwhole, Int.floor_natCast, Int.toNat_natCast]
  have hback : ((x.below n : ℕ) : ℚ) * 10 ^ x.place n = x.magnitude := by
    rw [hbelow, ← hwhole, div_mul_cancel₀]
    positivity
  rw [reads, hback, nearest_magnitude, decide_eq_true rfl]

/-- The digits and the place of the shortest decimal that is read as `x`; of two such the nearer one. -/
def shortest (x : Double) : Nat × Int :=
  let n := Nat.find x.exists_reads
  let k := x.place n
  let near := (roundEven (x.magnitude / 10 ^ k)).toNat
  (if x.reads near k then near else if x.reads (x.below n) k then x.below n else x.below n + 1, k)

theorem nearest_shortest (x : Double) : nearest x.neg (x.shortest.1 * 10 ^ x.shortest.2) = some x := by
  have hreads : x.reads x.shortest.1 x.shortest.2 = true := by
    unfold shortest
    dsimp only
    split
    · assumption
    split
    · assumption
    · exact (Nat.find_spec x.exists_reads).resolve_left ‹_›
  exact of_decide_eq_true hreads

end Double

/-! ## Texts of numbers -/

/-- A sign, if there is one. -/
def readSign : List Char → Bool × List Char
  | '-' :: cs => (true, cs)
  | '+' :: cs => (false, cs)
  | cs => (false, cs)

def digitsOf (cs : List Char) : Nat := Nat.ofDigitChars 10 cs 0

/-- `[+-]?[0-9]+` -/
def readInteger (cs : List Char) : Option Int :=
  let (neg, ds) := readSign cs
  if ds ≠ [] ∧ ds.all Char.isDigit then some (if neg then -(digitsOf ds : Int) else digitsOf ds) else none

/-- `[eE][+-]?[0-9]+`, or nothing. -/
def readExponent : List Char → Option Int
  | [] => some 0
  | c :: cs => if c = 'e' ∨ c = 'E' then readInteger cs else none

/-- `[+-]?(?:[0-9]+\.?[0-9]*|\.[0-9]+)(?:[eE][+-]?[0-9]+)?`: the sign, the digits and the place of the last one. -/
def readNumber (cs : List Char) : Option (Bool × Nat × Int) :=
  let (neg, cs) := readSign cs
  let whole := cs.takeWhile Char.isDigit
  let rest := cs.dropWhile Char.isDigit
  let afterPoint := if rest.head? = some '.' then rest.tail else []
  let fraction := afterPoint.takeWhile Char.isDigit
  let rest := if rest.head? = some '.' then afterPoint.dropWhile Char.isDigit else rest
  if whole = [] ∧ fraction = [] then none
  else (readExponent rest).map fun e => (neg, digitsOf (whole ++ fraction), e - fraction.length)

/-- `float` of such a text; `none` inside is an infinity. -/
def readDouble (cs : List Char) : Option (Option Double) :=
  (readNumber cs).map fun n => Double.nearest n.1 (n.2.1 * 10 ^ n.2.2)

def signText (neg : Bool) : List Char := if neg then ['-'] else []

/-- The exponent that `repr` writes, of two digits at least. -/
def exponentText (e : Int) : List Char :=
  (if e < 0 then '-' else '+') :: (if e.natAbs < 10 then ['0'] else []) ++ Nat.toDigits 10 e.natAbs

namespace Double

/-- Digits with the point after the first `point` of them. -/
def pointed (ds : List Char) (point : Int) : List Char :=
  if point ≤ -4 ∨ 16 < point then
    ds.take 1 ++ (if ds.length ≤ 1 then [] else '.' :: ds.drop 1) ++ 'e' :: exponentText (point - 1)
  else if point ≤ 0 then '0' :: '.' :: List.replicate (-point).toNat '0' ++ ds
  else if point < ds.length then ds.take point.toNat ++ '.' :: ds.drop point.toNat
  else ds ++ List.replicate (point.toNat - ds.length) '0' ++ ['.', '0']

/-- `repr` -/
def repr (x : Double) : List Char :=
  let all := Nat.toDigits 10 x.shortest.1
  let ds := if x.shortest.1 = 0 then all else all.rdropWhile (· = '0')
  signText x.neg ++ pointed ds (all.length + x.shortest.2)

end Double

/-! ### What is written is read back -/

def Digits (cs : List Char) : Prop := ∀ c ∈ cs, c.isDigit = true

theorem digits_toDigits (n : Nat) : Digits (Nat.toDigits 10 n) := fun _ hc =>
  Nat.isDigit_of_mem_toDigits (by decide) (by decide) hc

theorem Digits.append {as bs : List Char} (ha : Digits as) (hb : Digits bs) : Digits (as ++ bs) := fun c hc =>
  (List.mem_append.mp hc).elim (ha c) (hb c)

theorem digits_zeros (n : Nat) : Digits (List.replicate n '0') := fun c hc => by
  rw [List.eq_of_mem_replicate hc]
  rfl

theorem digitsOf_append (as bs : List Char) : digitsOf (as ++ bs) = digitsOf as * 10 ^ bs.length + digitsOf bs := by
  rw [digitsOf, Nat.ofDigitChars_append, Nat.ofDigitChars_eq_ofDigitChars_zero, Nat.mul_comm]
  rfl

theorem digitsOf_zeros (n : Nat) : digitsOf (List.replicate n '0') = 0 := by
  simp [digitsOf]

@[simp] theorem digitsOf_toDigits (n : Nat) : digitsOf (Nat.toDigits 10 n) = n := Nat.ofDigitChars_ten_toDigits

theorem sign_of_isDigit {c : Char} (h : c.isDigit = true) : c ≠ '-' ∧ c ≠ '+' ∧ c ≠ '.' := by
  refine ⟨?_, ?_, ?_⟩ <;> rintro rfl <;> exact absurd h (by decide)

theorem readSign_digits {cs : List Char} (h : ∀ c ∈ cs.head?, c.isDigit = true) (neg : Bool) :
    readSign (signText neg ++ cs) = (neg, cs) := by
  cases neg with
  | true => rfl
  | false =>
    cases cs with
    | nil => rfl
    | cons c cs =>
      obtain ⟨hminus, hplus, -⟩ := sign_of_isDigit (h c rfl)
      show readSign (c :: cs) = _
      unfold readSign
      split
      · exact absurd (List.cons.inj ‹_›).1 hminus
      · exact absurd (List.cons.inj ‹_›).1 hplus
      · rfl

theorem readInteger_signed {cs ds : List Char} {neg : Bool} (hsign : readSign cs = (neg, ds)) (hne : ds ≠ [])
    (hds : Digits ds) : readInteger cs = some (if neg then -(digitsOf ds : Int) else digitsOf ds) := by
  have hall : ds.all Char.isDigit = true := List.all_eq_true.mpr hds
  simp only [readInteger, hsign, hne, hall, ne_eq, not_false_eq_true, and_self, if_true]

theorem intText_eq (v : Int) : intText v = signText (decide (v < 0)) ++ Nat.toDigits 10 v.natAbs := by
  unfold intText signText
  by_cases hv : v < 0 <;> simp [hv]

theorem readInteger_intText (v : Int) : readInteger (intText v) = some v := by
  have hhead : ∀ c ∈ (Nat.toDigits 10 v.natAbs).head?, c.isDigit = true := fun c hc =>
    digits_toDigits _ c (List.mem_of_head? hc)
  have hsign : readSign (intText v) = (decide (v < 0), Nat.toDigits 10 v.natAbs) := by
    rw [intText_eq, readSign_digits hhead]
  rw [readInteger_signed hsign Nat.toDigits_ne_nil (digits_toDigits _), digitsOf_toDigits]
  by_cases hv : v < 0
  · rw [if_pos (decide_eq_true hv), Int.natCast_natAbs, abs_of_neg hv, neg_neg]
  · rw [if_neg (by simpa using hv), Int.natCast_natAbs, abs_of_nonneg (not_lt.mp hv)]

theorem readInteger_exponentText (e : Int) : readInteger (exponentText e) = some e := by
  have hds : Digits ((if e.natAbs < 10 then ['0'] else []) ++ Nat.toDigits 10 e.natAbs) := by
    refine Digits.append ?_ (digits_toDigits _)
    split <;> simp [Digits]
  have hvalue : digitsOf ((if e.natAbs < 10 then ['0'] else []) ++ Nat.toDigits 10 e.natAbs) = e.natAbs := by
    rw [digitsOf_append, digitsOf_toDigits]
    split
    · simp [show digitsOf ['0'] = 0 from rfl]
    · simp [digitsOf]
  have hsign : readSign (exponentText e) =
      (decide (e < 0), (if e.natAbs < 10 then ['0'] else []) ++ Nat.toDigits 10 e.natAbs) := by
    unfold exponentText
    by_cases he : e < 0
    · simp [he, readSign]
    · simp [he, readSign]
  rw [readInteger_signed hsign (by simp [Nat.toDigits_ne_nil]) hds, hvalue]
  by_cases he : e < 0
  · rw [if_pos (decide_eq_true he), Int.natCast_natAbs, abs_of_neg he, neg_neg]
  · rw [if_neg (by simpa using he), Int.natCast_natAbs, abs_of_nonneg (not_lt.mp he)]

/-- What follows the digits that are read. -/
def Stops (cs : List Char) : Prop := ∀ c ∈ cs.head?, c.isDigit = false ∧ c ≠ '.'

theorem span_digits {ds cs : List Char} (hds : Digits ds) (hcs : ∀ c ∈ cs.head?, c.isDigit = false) :
    (ds ++ cs).takeWhile Char.isDigit = ds ∧ (ds ++ cs).dropWhile Char.isDigit = cs := by
  rw [List.takeWhile_append_of_pos hds, List.dropWhile_append_of_pos hds]
  cases cs with
  | nil => simp
  | cons c cs =>
    have hc : ¬c.isDigit = true := by simp [hcs c rfl]
    rw [List.takeWhile_cons_of_neg hc, List.dropWhile_cons_of_neg hc]
    simp

theorem head_append {ds : List Char} (hne : ds ≠ []) (hds : Digits ds) (cs : List Char) :
    ∀ c ∈ (ds ++ cs).head?, c.isDigit = true := by
  cases ds with
  | nil => exact absurd rfl hne
  | cons d ds =>
    intro c hc
    obtain rfl : d = c := by simpa using hc
    exact hds d List.mem_cons_self

theorem readNumber_whole {neg : Bool} {whole after : List Char} (hne : whole ≠ []) (hwhole : Digits whole)
    (hafter : Stops after) : readNumber (signText neg ++ (whole ++ after)) =
      (readExponent after).map fun e => (neg, digitsOf whole, e) := by
  have hsign := readSign_digits (head_append hne hwhole after) neg
  obtain ⟨htake, hdrop⟩ := span_digits hwhole fun c hc => (hafter c hc).1
  have hpoint : ¬after.head? = some '.' := fun hc => (hafter '.' hc).2 rfl
  simp only [readNumber, hsign, htake, hdrop, hpoint, if_false, hne, false_and, List.takeWhile_nil, List.append_nil,
    List.length_nil, Nat.cast_zero, sub_zero]

theorem readNumber_fraction {neg : Bool} {whole fraction after : List Char} (hne : whole ≠ []) (hwhole : Digits whole)
    (hfraction : Digits fraction) (hafter : Stops after) :
    readNumber (signText neg ++ (whole ++ '.' :: (fraction ++ after))) =
      (readExponent after).map fun e => (neg, digitsOf (whole ++ fraction), e - (fraction.length : Int)) := by
  have hsign := readSign_digits (head_append hne hwhole ('.' :: (fraction ++ after))) neg
  obtain ⟨htake, hdrop⟩ := @span_digits whole ('.' :: (fraction ++ after)) hwhole (by simp)
  obtain ⟨htake', hdrop'⟩ := span_digits hfraction fun c hc => (hafter c hc).1
  simp only [readNumber, hsign, htake, hdrop, List.head?_cons, if_true, List.tail_cons, htake', hdrop', hne, false_and,
    if_false]

theorem readExponent_written (e : Int) : readExponent ('e' :: exponentText e) = some e := by
  rw [readExponent, if_pos (.inl rfl), readInteger_exponentText]

theorem stops_exponent (cs : List Char) : Stops ('e' :: cs) := by
  simp [Stops]

theorem stops_nil : Stops [] := by
  simp [Stops]

namespace Double

/-- What `ds` is read as, with the point after the first `point` of them. -/
theorem pointed_reads (neg : Bool) {ds : List Char} (hne : ds ≠ []) (hds : Digits ds) (point : Int) :
    ∃ d k, readNumber (signText neg ++ pointed ds point) = some (neg, d, k) ∧
      (d : ℚ) * 10 ^ k = digitsOf ds * 10 ^ (point - ds.length) := by
  have hpos := List.length_pos_iff.mpr hne
  have hsplit (n : Nat) : Digits (ds.take n) ∧ Digits (ds.drop n) ∧ ds.take n ++ ds.drop n = ds :=
    ⟨fun c hc => hds c (List.mem_of_mem_take hc), fun c hc => hds c (List.mem_of_mem_drop hc), List.take_append_drop n ds⟩
  unfold pointed
  by_cases hscientific : point ≤ -4 ∨ 16 < point
  · rw [if_pos hscientific]
    obtain ⟨htake, hdrop, hall⟩ := hsplit 1
    have hnonempty : ds.take 1 ≠ [] := by simp [hne]
    by_cases hone : ds.length ≤ 1
    · have hds1 : ds.take 1 = ds := List.take_of_length_le hone
      rw [if_pos hone, hds1, List.append_nil, readNumber_whole hne hds (stops_exponent _), readExponent_written]
      refine ⟨_, _, rfl, ?_⟩
      have hlength : ds.length = 1 := by omega
      rw [hlength]
      rfl
    · rw [if_neg hone, List.append_assoc, List.cons_append,
        readNumber_fraction hnonempty htake hdrop (stops_exponent _), readExponent_written]
      refine ⟨_, _, rfl, ?_⟩
      rw [hall, List.length_drop, Nat.cast_sub hpos]
      congr 2
      push_cast
      omega
  rw [if_neg hscientific]
  by_cases hsmall : point ≤ 0
  · rw [if_pos hsmall]
    have hzeros := (digits_zeros (-point).toNat).append hds
    have hread := @readNumber_fraction neg ['0'] _ _ (by simp) (digits_zeros 1) hzeros stops_nil
    rw [List.append_nil] at hread
    refine ⟨_, _, hread, ?_⟩
    rw [digitsOf_append, digitsOf_append, digitsOf_zeros, Nat.zero_mul, Nat.zero_add, List.length_append,
      List.length_replicate]
    have hzero : digitsOf ['0'] = 0 := rfl
    rw [hzero, Nat.zero_mul, Nat.zero_add]
    congr 2
    push_cast
    omega
  rw [if_neg hsmall]
  by_cases hinside : point < ds.length
  · rw [if_pos hinside]
    obtain ⟨htake, hdrop, hall⟩ := hsplit point.toNat
    have hnonempty : ds.take point.toNat ≠ [] := by
      intro hnil
      rcases List.take_eq_nil_iff.mp hnil with h | h
      · omega
      · exact hne h
    have hread := @readNumber_fraction neg _ _ _ hnonempty htake hdrop stops_nil
    rw [List.append_nil] at hread
    refine ⟨_, _, hread, ?_⟩
    rw [hall, List.length_drop]
    congr 2
    omega
  · rw [if_neg hinside]
    have hwhole := hds.append (digits_zeros (point.toNat - ds.length))
    have hread := @readNumber_fraction neg _ _ _ (by simp [hne]) hwhole (digits_zeros 1) stops_nil
    rw [List.append_nil] at hread
    refine ⟨_, _, hread, ?_⟩
    have hplace : point - ds.length = ((point.toNat - ds.length : ℕ) : ℤ) := by omega
    have hzero : digitsOf (List.replicate 1 '0') = 0 := rfl
    rw [digitsOf_append, digitsOf_append, digitsOf_zeros, hzero, hplace, List.length_replicate, List.length_replicate,
      zpow_natCast]
    push_cast
    rw [zpow_neg_one]
    ring

/-- **A double is read back from its text.** -/
theorem readDouble_repr (x : Double) : readDouble x.repr = some (some x) := by
  have hread : ∃ d k, readNumber x.repr = some (x.neg, d, k) ∧ (d : ℚ) * 10 ^ k = x.shortest.1 * 10 ^ x.shortest.2 := by
    unfold repr
    dsimp only
    by_cases hzero : x.shortest.1 = 0
    · rw [if_pos hzero]
      obtain ⟨d, k, hread, hvalue⟩ := pointed_reads x.neg Nat.toDigits_ne_nil (digits_toDigits x.shortest.1)
        ((Nat.toDigits 10 x.shortest.1).length + x.shortest.2)
      refine ⟨d, k, hread, hvalue.trans ?_⟩
      rw [digitsOf_toDigits, add_sub_cancel_left]
    · rw [if_neg hzero]
      generalize hall : Nat.toDigits 10 x.shortest.1 = all
      have hdigits : Digits all := hall ▸ digits_toDigits _
      have hvalue : digitsOf all = x.shortest.1 := hall ▸ digitsOf_toDigits _
      -- The zeros at the end only move the place of the last digit.
      have hsplit : all.rdropWhile (· = '0') ++ List.replicate (all.rtakeWhile (· = '0')).length '0' = all := by
        rw [← List.eq_replicate_iff.mpr ⟨rfl, fun c hc => by simpa using List.mem_rtakeWhile_imp hc⟩]
        exact List.rdropWhile_append_rtakeWhile
      generalize all.rdropWhile (· = '0') = ds at hsplit ⊢
      generalize (all.rtakeWhile (· = '0')).length = zeros at hsplit
      have hds : Digits ds := fun c hc => hdigits c (hsplit ▸ List.mem_append_left _ hc)
      have hscaled : x.shortest.1 = digitsOf ds * 10 ^ zeros := by
        rw [← hvalue, ← hsplit, digitsOf_append, digitsOf_zeros, List.length_replicate, Nat.add_zero]
      have hne : ds ≠ [] := by
        rintro rfl
        exact hzero (by rw [hscaled]; simp [digitsOf])
      have hlength : all.length = ds.length + zeros := by rw [← hsplit]; simp
      obtain ⟨d, k, hread, hvalue⟩ := pointed_reads x.neg hne hds (all.length + x.shortest.2)
      refine ⟨d, k, hread, hvalue.trans ?_⟩
      have hplace : (all.length + x.shortest.2 - ds.length : ℤ) = zeros + x.shortest.2 := by
        rw [hlength]
        push_cast
        ring
      rw [hplace, hscaled, zpow_add₀ (by norm_num), zpow_natCast]
      push_cast
      ring
  obtain ⟨d, k, hread, hvalue⟩ := hread
  rw [readDouble, hread, Option.map_some, hvalue, nearest_shortest]

end Double

/-! ### What numbers are written with -/

def Numeric (cs : List Char) : Prop := ∀ c ∈ cs, c.isDigit = true ∨ c ∈ ['-', '+', '.', 'e']

theorem Digits.numeric {cs : List Char} (h : Digits cs) : Numeric cs := fun c hc => .inl (h c hc)

theorem Numeric.append {as bs : List Char} (ha : Numeric as) (hb : Numeric bs) : Numeric (as ++ bs) := fun c hc =>
  (List.mem_append.mp hc).elim (ha c) (hb c)

theorem Numeric.cons {c : Char} {cs : List Char} (hc : c ∈ ['-', '+', '.', 'e', '0']) (h : Numeric cs) : Numeric (c :: cs) := by
  intro d hd
  rcases List.mem_cons.mp hd with rfl | hd
  · simp only [List.mem_cons, List.not_mem_nil, or_false] at hc
    rcases hc with rfl | rfl | rfl | rfl | rfl <;> simp
  · exact h d hd

theorem numeric_nil : Numeric [] := by
  simp [Numeric]

theorem numeric_exponentText (e : Int) : Numeric (exponentText e) := by
  refine .cons (by split <;> simp) (.append ?_ (digits_toDigits _).numeric)
  split
  · exact .cons (by simp) numeric_nil
  · exact numeric_nil

theorem numeric_signText (neg : Bool) : Numeric (signText neg) := by
  unfold signText
  split
  · exact .cons (by simp) numeric_nil
  · exact numeric_nil

theorem numeric_intText (v : Int) : Numeric (intText v) := by
  rw [intText_eq]
  exact (numeric_signText _).append (digits_toDigits _).numeric

namespace Double

theorem numeric_pointed {ds : List Char} (hds : Digits ds) (point : Int) : Numeric (pointed ds point) := by
  have htake (n : Nat) : Numeric (ds.take n) := Digits.numeric fun c hc => hds c (List.mem_of_mem_take hc)
  have hdrop (n : Nat) : Numeric (ds.drop n) := Digits.numeric fun c hc => hds c (List.mem_of_mem_drop hc)
  have hpoint : Numeric ('.' :: ds.drop 1) := .cons (by simp) (hdrop 1)
  unfold pointed
  split
  · refine ((htake 1).append ?_).append (.cons (by simp) (numeric_exponentText _))
    split
    · exact numeric_nil
    · exact hpoint
  split
  · exact .append (.cons (by simp) (.cons (by simp) (digits_zeros _).numeric)) hds.numeric
  split
  · exact (htake _).append (.cons (by simp) (hdrop _))
  · exact (hds.numeric.append (digits_zeros _).numeric).append (.cons (by simp) (.cons (by simp) numeric_nil))

theorem numeric_repr (x : Double) : Numeric x.repr := by
  refine (numeric_signText _).append (numeric_pointed ?_ _)
  split
  · exact digits_toDigits _
  · exact fun c hc => digits_toDigits _ c ((List.rdropWhile_prefix _ _).mem hc)

theorem repr_ne_nil (x : Double) : x.repr ≠ [] := by
  intro hnil
  have hread := readDouble_repr x
  rw [hnil] at hread
  cases hread

end Double

end ShipInfer.Lib
