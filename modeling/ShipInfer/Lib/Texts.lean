import Mathlib.Data.List.DropRight

/-!
# Texts as bytes and numbers

A text in UTF-8 and back: decoding puts one U+FFFD for each longest run that begins a
character and does not end it. A text that went through a region filled up with zero bytes
comes back without the NULs at its end. Decimal numbers are written and read as texts.
-/

namespace ShipInfer

/-- `str.encode` -/
def encode (s : String) : List UInt8 := s.toList.flatMap String.utf8EncodeChar

/-- Whether `second` may follow the first byte `lead` of three or four. -/
def mayFollow (lead second : UInt8) : Bool :=
  let range : UInt8 × UInt8 :=
    if lead = 0xE0 then (0xA0, 0xBF)
    else if lead = 0xED then (0x80, 0x9F)
    else if lead = 0xF0 then (0x90, 0xBF)
    else if lead = 0xF4 then (0x80, 0x8F)
    else (0x80, 0xBF)
  decide (0xE0 ≤ lead) && decide (lead ≤ 0xF4) && decide (range.1 ≤ second) && decide (second ≤ range.2)

/-- How many bytes one U+FFFD stands for, where no character begins. -/
def malformed : List UInt8 → Nat
  | lead :: second :: third :: _ =>
    if mayFollow lead second then
      if 0xF0 ≤ lead ∧ 0x80 ≤ third ∧ third ≤ 0xBF then 3 else 2
    else 1
  | [lead, second] => if mayFollow lead second then 2 else 1
  | _ => 1

def decodeChars : Nat → List UInt8 → List Char
  | 0, _ => []
  | fuel + 1, bs =>
    if bs = [] then []
    else
      match bs.toByteArray.utf8DecodeChar? 0 with
      | some c => c :: decodeChars fuel (bs.drop c.utf8Size)
      | none => '\uFFFD' :: decodeChars fuel (bs.drop (malformed bs))

/-- `bytes.decode(errors="replace")`: each turn takes a byte at least. -/
def decode (bs : List UInt8) : String := String.ofList (decodeChars bs.length bs)

theorem decodeChars_encoded : ∀ {cs : List Char} {fuel : Nat}, (cs.flatMap String.utf8EncodeChar).length ≤ fuel →
    decodeChars fuel (cs.flatMap String.utf8EncodeChar) = cs := by
  intro cs
  induction cs with
  | nil =>
    intro fuel _
    cases fuel <;> simp [decodeChars]
  | cons c cs ih =>
    intro fuel hfuel
    have hsize := c.utf8Size_pos
    simp only [List.flatMap_cons, List.length_append, String.length_utf8EncodeChar] at hfuel
    cases fuel with
    | zero => omega
    | succ fuel =>
      have hchar : ((String.utf8EncodeChar c ++ cs.flatMap String.utf8EncodeChar).toByteArray).utf8DecodeChar? 0 =
          some c := by
        rw [List.toByteArray_append']
        exact ByteArray.utf8DecodeChar?_utf8EncodeChar_append
      have hne : String.utf8EncodeChar c ++ cs.flatMap String.utf8EncodeChar ≠ [] := by
        simp [String.utf8EncodeChar_ne_nil]
      rw [List.flatMap_cons, decodeChars, if_neg hne]
      simp only [hchar]
      rw [List.drop_left' (String.length_utf8EncodeChar c), ih (by omega)]

theorem decode_encode (cs : List Char) : decode (encode (String.ofList cs)) = String.ofList cs := by
  simp [decode, encode, decodeChars_encoded]

theorem encode_append (s t : String) : encode (s ++ t) = encode s ++ encode t := by
  simp [encode]

/-- No character begins another one's bytes. -/
theorem utf8EncodeChar_append_inj {c d : Char} {x y : List UInt8}
    (h : String.utf8EncodeChar c ++ x = String.utf8EncodeChar d ++ y) : c = d ∧ x = y := by
  have hc : ((String.utf8EncodeChar c ++ x).toByteArray).utf8DecodeChar? 0 = some c := by
    rw [List.toByteArray_append']
    exact ByteArray.utf8DecodeChar?_utf8EncodeChar_append
  have hd : ((String.utf8EncodeChar d ++ y).toByteArray).utf8DecodeChar? 0 = some d := by
    rw [List.toByteArray_append']
    exact ByteArray.utf8DecodeChar?_utf8EncodeChar_append
  have hcd : c = d := by
    rw [h, hd] at hc
    exact (Option.some.inj hc).symm
  subst hcd
  exact ⟨rfl, List.append_cancel_left h⟩

theorem encodedChars_prefix : ∀ {cs ds : List Char} {x : List UInt8},
    cs.flatMap String.utf8EncodeChar ++ x = ds.flatMap String.utf8EncodeChar →
      ∃ es, ds = cs ++ es ∧ x = es.flatMap String.utf8EncodeChar := by
  intro cs
  induction cs with
  | nil =>
    intro ds x h
    exact ⟨ds, rfl, h⟩
  | cons c cs ih =>
    intro ds x h
    cases ds with
    | nil => simp [String.utf8EncodeChar_ne_nil] at h
    | cons d ds =>
      rw [List.flatMap_cons, List.flatMap_cons, List.append_assoc] at h
      obtain ⟨rfl, hrest⟩ := utf8EncodeChar_append_inj h
      obtain ⟨es, rfl, rfl⟩ := ih hrest
      exact ⟨es, rfl, rfl⟩

/-- A text whose bytes begin with those of another begins with it. -/
theorem exists_of_encode_append {s t : String} {x : List UInt8} (h : encode s ++ x = encode t) :
    ∃ u, t = s ++ u ∧ x = encode u := by
  obtain ⟨es, hes, hx⟩ := encodedChars_prefix h
  refine ⟨String.ofList es, ?_, ?_⟩
  · rw [← String.toList_inj, String.toList_append, String.toList_ofList, hes]
  · simpa [encode] using hx

theorem encode_inj {s t : String} (h : encode s = encode t) : s = t := by
  obtain ⟨u, hu, hnil⟩ := exists_of_encode_append (s := s) (x := []) (by simpa using h)
  have hempty : u = "" := by
    cases hcs : u.toList with
    | nil => rw [← String.toList_inj, hcs]; rfl
    | cons c cs => simp [encode, hcs, String.utf8EncodeChar_ne_nil] at hnil
  rw [hu, hempty, String.append_empty]

/-- A character but NUL ends with a byte that is not zero. -/
theorem utf8EncodeChar_last {c : Char} (h : c ≠ '\x00') :
    ∃ (bs : List UInt8) (b : UInt8), String.utf8EncodeChar c = bs ++ [b] ∧ b ≠ 0 := by
  have htail : ∀ n : Nat, UInt8.ofNat (n % 64 + 128) ≠ 0 := by
    intro n hzero
    have hval := congrArg UInt8.toNat hzero
    simp at hval
    omega
  have hpos : c.val.toNat ≠ 0 := by
    intro hzero
    exact h (Char.ext (UInt32.toNat_inj.mp hzero))
  unfold String.utf8EncodeChar
  dsimp only
  split
  · refine ⟨[], _, rfl, ?_⟩
    intro hzero
    have hval := congrArg UInt8.toNat hzero
    rw [UInt8.toNat_ofNat', Nat.mod_eq_of_lt (by omega)] at hval
    exact hpos hval
  · split
    · exact ⟨[_], _, rfl, htail _⟩
    · split
      · exact ⟨[_, _], _, rfl, htail _⟩
      · exact ⟨[_, _, _], _, rfl, htail _⟩

/-- A text without the NULs at its end. -/
def stripNul (s : String) : String := String.ofList (s.toList.rdropWhile (· = '\x00'))

/-- `raw.rstrip(b"\0")` -/
def stripZeros (bs : List UInt8) : List UInt8 := bs.rdropWhile (· = 0)

theorem stripZeros_append_zeros (bs : List UInt8) (n : Nat) : stripZeros (bs ++ List.replicate n 0) = stripZeros bs := by
  induction n with
  | zero => simp
  | succ n ih =>
    rw [List.replicate_succ', ← List.append_assoc, stripZeros, List.rdropWhile_concat_pos _ _ _ (by simp)]
    exact ih

theorem stripZeros_encoded (cs : List Char) : stripZeros (cs.flatMap String.utf8EncodeChar) =
    (cs.rdropWhile (· = '\x00')).flatMap String.utf8EncodeChar := by
  induction cs using List.reverseRecOn with
  | nil => simp [stripZeros]
  | append_singleton cs c ih =>
    by_cases hc : c = '\x00'
    · subst hc
      have hbyte : String.utf8EncodeChar '\x00' = [0] := by decide
      rw [List.flatMap_append, List.flatMap_singleton, hbyte, stripZeros, List.rdropWhile_concat_pos _ _ _ (by simp),
        List.rdropWhile_concat_pos _ _ _ (by simp)]
      exact ih
    · obtain ⟨bs, b, hbs, hb⟩ := utf8EncodeChar_last hc
      rw [List.rdropWhile_concat_neg _ _ _ (by simpa using hc), List.flatMap_append, List.flatMap_singleton, hbs,
        ← List.append_assoc, stripZeros, List.rdropWhile_concat_neg _ _ _ (by simpa using hb)]

theorem decode_stripZeros (s : String) (n : Nat) :
    decode (stripZeros (encode s ++ List.replicate n 0)) = stripNul s := by
  rw [stripZeros_append_zeros, encode, stripZeros_encoded]
  have h := decode_encode (s.toList.rdropWhile (· = '\x00'))
  rw [encode, String.toList_ofList] at h
  exact h

theorem stripNul_eq_iff {s : String} : stripNul s = s ↔ s.toList.getLast? ≠ some '\x00' := by
  have hlist : stripNul s = s ↔ s.toList.rdropWhile (· = '\x00') = s.toList := by
    rw [← String.toList_inj, stripNul, String.toList_ofList]
  rw [hlist, List.rdropWhile_eq_self_iff]
  constructor
  · intro h hlast
    have hne : s.toList ≠ [] := by
      intro hnil
      simp [hnil] at hlast
    rw [List.getLast?_eq_some_getLast hne] at hlast
    apply h hne
    simpa using Option.some.inj hlast
  · intro h hne hlast
    apply h
    rw [List.getLast?_eq_some_getLast hne]
    simpa using hlast

theorem stripNul_stripNul (s : String) : stripNul (stripNul s) = stripNul s := by
  rw [stripNul, stripNul, String.toList_ofList, List.rdropWhile_idempotent]

/-- `str.isspace` of one character. -/
def isSpace (c : Char) : Bool :=
  let n := c.toNat
  (9 ≤ n && n ≤ 13) || (28 ≤ n && n ≤ 32) || n == 0x85 || n == 0xA0 || n == 0x1680 || (0x2000 ≤ n && n ≤ 0x200A) ||
    n == 0x2028 || n == 0x2029 || n == 0x202F || n == 0x205F || n == 0x3000

def trim (space : Char → Bool) (cs : List Char) : List Char := (cs.dropWhile space).rdropWhile space

/-- `str.strip` -/
def strip (cs : List Char) : List Char := trim isSpace cs

/-- `str` of an integer. -/
def intText (v : Int) : List Char := if v < 0 then '-' :: Nat.toDigits 10 v.natAbs else Nat.toDigits 10 v.natAbs

/-- Digits, with single underscores between them. -/
def readDigits (cs : List Char) : Option Nat :=
  let pieces := cs.splitOn '_'
  if pieces.all fun piece => decide (piece ≠ []) && piece.all Char.isDigit then
    some (Nat.ofDigitChars 10 pieces.flatten 0)
  else none

/-- The zeros of the scripts that have decimal digits. -/
def decimalZeros : List Nat :=
  [0x30, 0x660, 0x6F0, 0x7C0, 0x966, 0x9E6, 0xA66, 0xAE6, 0xB66, 0xBE6, 0xC66, 0xCE6, 0xD66, 0xDE6, 0xE50, 0xED0, 0xF20,
    0x1040, 0x1090, 0x17E0, 0x1810, 0x1946, 0x19D0, 0x1A80, 0x1A90, 0x1B50, 0x1BB0, 0x1C40, 0x1C50, 0xA620, 0xA8D0,
    0xA900, 0xA9D0, 0xA9F0, 0xAA50, 0xABF0, 0xFF10, 0x104A0, 0x10D30, 0x11066, 0x110F0, 0x11136, 0x111D0, 0x112F0,
    0x11450, 0x114D0, 0x11650, 0x116C0, 0x11730, 0x118E0, 0x11950, 0x11C50, 0x11D50, 0x11DA0, 0x11F50, 0x16A60, 0x16AC0,
    0x16B50, 0x1D7CE, 0x1D7D8, 0x1D7E2, 0x1D7EC, 0x1D7F6, 0x1E140, 0x1E2F0, 0x1E4F0, 0x1E950, 0x1FBF0]

/-- What `int` makes of each character before it reads the text. -/
def toAscii (c : Char) : Char :=
  if c.toNat < 127 then c
  else if isSpace c then ' '
  else
    match decimalZeros.find? fun first => decide (first ≤ c.toNat) && decide (c.toNat < first + 10) with
    | some first => Char.ofNat (48 + (c.toNat - first))
    | none => '?'

/-- The white space that `int` skips, which is less than `str.strip` does. -/
def isAsciiSpace (c : Char) : Bool := (9 ≤ c.toNat && c.toNat ≤ 13) || c.toNat == 32

/-- `int` of a text. -/
def readInt (cs : List Char) : Option Int :=
  match trim isAsciiSpace (cs.map toAscii) with
  | '-' :: ds => (readDigits ds).map fun n : Nat => -(n : Int)
  | '+' :: ds => (readDigits ds).map fun n : Nat => (n : Int)
  | ds => (readDigits ds).map fun n : Nat => (n : Int)

theorem isSpace_of_isDigit {c : Char} (h : c.isDigit = true) : isSpace c = false := by
  simp only [Char.isDigit, Bool.and_eq_true, decide_eq_true_eq, UInt32.le_iff_toNat_le] at h
  have hlo : 48 ≤ c.toNat := h.1
  have hhi : c.toNat ≤ 57 := h.2
  simp [isSpace]
  omega

theorem trim_of_ends {space : Char → Bool} {cs : List Char} (h : ∀ c ∈ cs.head?, space c = false)
    (h' : ∀ c ∈ cs.getLast?, space c = false) : trim space cs = cs := by
  cases cs with
  | nil => rfl
  | cons c cs =>
    have hhead : (c :: cs).dropWhile space = c :: cs := List.dropWhile_cons_of_neg (by simp [h c (by simp)])
    rw [trim, hhead, List.rdropWhile_eq_self_iff]
    intro hne
    simp [h' _ (List.getLast?_eq_some_getLast hne)]

theorem ascii_of_isDigit {c : Char} (h : c.isDigit = true) : isAsciiSpace c = false ∧ toAscii c = c := by
  simp only [Char.isDigit, Bool.and_eq_true, decide_eq_true_eq, UInt32.le_iff_toNat_le] at h
  have hlo : 48 ≤ c.toNat := h.1
  have hhi : c.toNat ≤ 57 := h.2
  constructor
  · simp [isAsciiSpace]
    omega
  · rw [toAscii, if_pos (by omega)]

theorem readDigits_toDigits (n : Nat) : readDigits (Nat.toDigits 10 n) = some n := by
  have hdigit : ∀ c ∈ Nat.toDigits 10 n, c.isDigit = true := fun c hc =>
    Nat.isDigit_of_mem_toDigits (by decide) (by decide) hc
  have hone : (Nat.toDigits 10 n).splitOn '_' = [Nat.toDigits 10 n] := by
    apply List.splitOn_eq_singleton
    intro hmem
    exact absurd (hdigit '_' hmem) (by decide)
  have hne : Nat.toDigits 10 n ≠ [] := Nat.toDigits_ne_nil
  simp only [readDigits, hone]
  rw [if_pos (by simpa [hne] using hdigit)]
  simp

theorem readInt_intText (v : Int) : readInt (intText v) = some v := by
  have hdigit : ∀ c ∈ Nat.toDigits 10 v.natAbs, c.isDigit = true := fun c hc =>
    Nat.isDigit_of_mem_toDigits (by decide) (by decide) hc
  have hlast : ∀ c ∈ (Nat.toDigits 10 v.natAbs).getLast?, isAsciiSpace c = false := fun c hc =>
    (ascii_of_isDigit (hdigit c (List.mem_of_getLast? hc))).1
  have hascii : (Nat.toDigits 10 v.natAbs).map toAscii = Nat.toDigits 10 v.natAbs := by
    rw [List.map_congr_left fun c hc => (ascii_of_isDigit (hdigit c hc)).2, List.map_id']
  unfold readInt intText
  by_cases hv : v < 0
  · have htrim : trim isAsciiSpace ('-' :: Nat.toDigits 10 v.natAbs) = '-' :: Nat.toDigits 10 v.natAbs := by
      apply trim_of_ends
      · intro c hc
        cases hc
        decide
      · rw [List.getLast?_cons_of_ne_nil Nat.toDigits_ne_nil]
        exact hlast
    have hsign : toAscii '-' = '-' := by decide
    have habs : -(v.natAbs : Int) = v := by omega
    rw [if_pos hv, List.map_cons, hascii, hsign, htrim]
    show (readDigits (Nat.toDigits 10 v.natAbs)).map (fun n : Nat => -(n : Int)) = some v
    rw [readDigits_toDigits, Option.map_some, habs]
  · have hhead : ∀ c ∈ (Nat.toDigits 10 v.natAbs).head?, isAsciiSpace c = false := fun c hc =>
      (ascii_of_isDigit (hdigit c (List.mem_of_head? hc))).1
    have hsign : ∀ ds, Nat.toDigits 10 v.natAbs ≠ '-' :: ds ∧ Nat.toDigits 10 v.natAbs ≠ '+' :: ds := by
      intro ds
      constructor
      · intro he
        exact absurd (hdigit '-' (by simp [he])) (by decide)
      · intro he
        exact absurd (hdigit '+' (by simp [he])) (by decide)
    rw [if_neg hv, hascii, trim_of_ends hhead hlast]
    split
    · rename_i he
      exact absurd he (hsign _).1
    · rename_i he
      exact absurd he (hsign _).2
    · have habs : (v.natAbs : Int) = v := by omega
      rw [readDigits_toDigits, Option.map_some, habs]

end ShipInfer
