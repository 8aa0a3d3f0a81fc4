import Mathlib.Tactic
import ShipInfer.Events.Writer

/-!
# The two planes write one event alike

Byte by byte, a string that came out of UTF-8 is escaped as the Python plane escapes
its characters; column by column, the two texts are one. Only a group named by
the empty text comes apart: the C++ plane takes it for no group.
-/

namespace ShipInfer.Events

open Cpp

/-! ## Strings -/

theorem shiftIn_eq (code : Nat) (byte : UInt8) : shiftIn code byte = code * 64 + byte.toNat % 64 := by
  have hlow : byte.toNat &&& 0x3F = byte.toNat % 64 := Nat.and_two_pow_sub_one_eq_mod _ 6
  have hlt : byte.toNat % 64 < 2 ^ 6 := Nat.mod_lt _ (by decide)
  rw [shiftIn, hlow, Nat.shiftLeft_eq, Nat.mul_comm code, ← Nat.two_pow_add_eq_or_of_lt hlt]

theorem appendEscape_eq (out : String) {code : Nat} : appendEscape out code = out ++ ("\\u" ++ Json.hex4 code) := by
  have hmask (n : Nat) : n &&& 0xF = n % 16 := Nat.and_two_pow_sub_one_eq_mod _ 4
  simp only [appendEscape, Json.hex4, kHex, hmask, Nat.shiftRight_eq_div_pow, String.append_assoc]

theorem appendCode_eq (out : String) (code : Nat) : appendCode out code = out ++ Json.escapeCode code := by
  have hmask (n : Nat) : n &&& 0x3FF = n % 1024 := Nat.and_two_pow_sub_one_eq_mod _ 10
  unfold appendCode Json.escapeCode
  by_cases h : code < 0x10000
  · rw [if_neg (by omega), if_pos h, appendEscape_eq]
  · rw [if_pos (by omega), if_neg h]
    simp only [appendEscape_eq, hmask, Nat.shiftRight_eq_div_pow, String.append_assoc]

theorem kShort_eq (b : Nat) : kShort b =
    if b = 8 then some "\\b" else if b = 9 then some "\\t" else if b = 10 then some "\\n"
    else if b = 12 then some "\\f" else if b = 13 then some "\\r" else none := by
  unfold kShort
  split
  case h_6 => split_ifs <;> simp_all
  all_goals rfl

theorem kShort_of_le {b : Nat} (h : 14 ≤ b) : kShort b = none := by
  rw [kShort_eq, if_neg (by omega), if_neg (by omega), if_neg (by omega), if_neg (by omega), if_neg (by omega)]

theorem escapeChar_wide {c : Char} (h : 127 ≤ c.toNat) : Json.escapeChar c = Json.escapeCode c.toNat := by
  have hslash : c ≠ '\\' := by rintro rfl; exact absurd h (by decide)
  have hquote : c ≠ '"' := by rintro rfl; exact absurd h (by decide)
  unfold Json.escapeChar
  rw [if_neg hslash, if_neg hquote, if_neg (by omega), if_neg (by omega), if_neg (by omega), if_neg (by omega),
    if_neg (by omega), if_neg (by omega)]

/-- What is neither quoted nor printed has a short name or is told by its code. -/
theorem escapeChar_short {c : Char} (hslash : c ≠ '\\') (hquote : c ≠ '"') (hprint : ¬(32 ≤ c.toNat ∧ c.toNat ≤ 126)) :
    Json.escapeChar c = (kShort c.toNat).getD (Json.escapeCode c.toNat) := by
  rw [Json.escapeChar, if_neg hslash, if_neg hquote, if_neg hprint, kShort_eq]
  by_cases h8 : c.toNat = 8
  · rw [if_pos h8, if_pos h8, Option.getD_some]
  rw [if_neg h8, if_neg h8]
  by_cases h9 : c.toNat = 9
  · rw [if_pos h9, if_pos h9, Option.getD_some]
  rw [if_neg h9, if_neg h9]
  by_cases h10 : c.toNat = 10
  · rw [if_pos h10, if_pos h10, Option.getD_some]
  rw [if_neg h10, if_neg h10]
  by_cases h12 : c.toNat = 12
  · rw [if_pos h12, if_pos h12, Option.getD_some]
  rw [if_neg h12, if_neg h12]
  by_cases h13 : c.toNat = 13
  · rw [if_pos h13, if_pos h13, Option.getD_some]
  rw [if_neg h13, if_neg h13, Option.getD_none]

/-- One byte, for a character of ASCII. -/
theorem appendBytes_ascii (out : String) {c : Char} (hc : c.toNat ≤ 127) (rest : List UInt8) :
    appendBytes out (UInt8.ofNat c.toNat :: rest) = appendBytes (out ++ Json.escapeChar c) rest := by
  have hb : (UInt8.ofNat c.toNat).toNat = c.toNat := by
    rw [UInt8.toNat_ofNat']
    omega
  have hchar : Char.ofNat c.toNat = c := Char.ofNat_toNat c
  have hslash : c = '\\' ↔ c.toNat = 0x5C := by rw [← Char.toNat_inj]; rfl
  have hquote : c = '"' ↔ c.toNat = 0x22 := by rw [← Char.toNat_inj]; rfl
  conv_lhs => unfold appendBytes
  simp only [hb]
  by_cases h : c.toNat = 0x22 ∨ c.toNat = 0x5C
  · rw [if_pos h, hchar, String.append_assoc]
    rcases h with h | h
    · rw [hquote.mpr h]; rfl
    · rw [hslash.mpr h]; rfl
  · rw [if_neg h, hchar]
    obtain ⟨hnquote, hnslash⟩ := not_or.mp h
    by_cases hprint : 32 ≤ c.toNat ∧ c.toNat ≤ 126
    · rw [if_pos (by omega), Json.escapeChar, if_neg (mt hslash.mp hnslash), if_neg (mt hquote.mp hnquote), if_pos hprint]
    · rw [if_neg (by omega), escapeChar_short (mt hslash.mp hnslash) (mt hquote.mp hnquote) hprint]
      cases kShort c.toNat with
      | some escape => rfl
      | none =>
        simp only
        rw [if_neg (by omega), if_neg (by omega), if_neg (by omega), appendCode_eq]
        rfl

/-- The low bits of a first byte, below its marker. -/
theorem marked_and (k m : Nat) {n : Nat} (h : n < 2 ^ k) : (m * 2 ^ k + n) &&& (2 ^ k - 1) = n := by
  rw [Nat.and_two_pow_sub_one_eq_mod, Nat.mul_comm, Nat.mul_add_mod, Nat.mod_eq_of_lt h]

theorem marked_byte {n marker : Nat} (h : n + marker < 256) : (UInt8.ofNat (n + marker)).toNat = n + marker := by
  rw [UInt8.toNat_ofNat', Nat.mod_eq_of_lt h]

/-- The bytes of one character, whatever follows. -/
theorem appendBytes_char (out : String) (c : Char) (rest : List UInt8) :
    appendBytes out (String.utf8EncodeChar c ++ rest) = appendBytes (out ++ Json.escapeChar c) rest := by
  have hmax : c.toNat < 0x110000 := by
    have := c.valid
    simp only [UInt32.isValidChar, Nat.isValidChar] at this
    show c.val.toNat < _
    omega
  unfold String.utf8EncodeChar
  rw [show c.val.toNat = c.toNat from rfl]
  generalize hn : c.toNat = n at hmax
  have htail (m : Nat) : (UInt8.ofNat (m % 64 + 0x80)).toNat = m % 64 + 0x80 := marked_byte (by omega)
  dsimp only
  split
  · rw [← hn]
    exact appendBytes_ascii out (by omega) rest
  rw [escapeChar_wide (by omega), hn]
  split
  · have hb : (UInt8.ofNat (n / 64 % 0x20 + 0xC0)).toNat = n / 64 % 32 + 192 := marked_byte (by omega)
    have hlead : (n / 64 % 32 + 192) &&& 31 = n / 64 := by
      rw [show n / 64 % 32 + 192 = 6 * 2 ^ 5 + n / 64 by omega]
      exact marked_and 5 6 (by omega)
    conv_lhs => unfold appendBytes
    simp only [List.cons_append, List.nil_append, hb, shiftIn_eq, htail, appendCode_eq, hlead]
    rw [if_neg (by omega), if_neg (by omega), kShort_of_le (by omega)]
    simp only
    rw [if_neg (by omega), if_neg (by omega), if_pos (by omega)]
    congr 3
    omega
  split
  · have hb : (UInt8.ofNat (n / 4096 % 0x10 + 0xE0)).toNat = n / 4096 % 16 + 224 := marked_byte (by omega)
    have hlead : (n / 4096 % 16 + 224) &&& 15 = n / 4096 := by
      rw [show n / 4096 % 16 + 224 = 14 * 2 ^ 4 + n / 4096 by omega]
      exact marked_and 4 14 (by omega)
    conv_lhs => unfold appendBytes
    simp only [List.cons_append, List.nil_append, hb, shiftIn_eq, htail, appendCode_eq, hlead]
    rw [if_neg (by omega), if_neg (by omega), kShort_of_le (by omega)]
    simp only
    rw [if_neg (by omega), if_pos (by omega)]
    congr 3
    omega
  · have hb : (UInt8.ofNat (n / 262144 % 0x08 + 0xF0)).toNat = n / 262144 % 8 + 240 := marked_byte (by omega)
    have hlead : (n / 262144 % 8 + 240) &&& 7 = n / 262144 := by
      rw [show n / 262144 % 8 + 240 = 30 * 2 ^ 3 + n / 262144 by omega]
      exact marked_and 3 30 (by omega)
    conv_lhs => unfold appendBytes
    simp only [List.cons_append, List.nil_append, hb, shiftIn_eq, htail, appendCode_eq, hlead]
    rw [if_neg (by omega), if_neg (by omega), kShort_of_le (by omega)]
    simp only
    rw [if_pos (by omega)]
    congr 3
    omega

theorem appendBytes_utf8 (cs : List Char) : ∀ out : String,
    appendBytes out (cs.flatMap String.utf8EncodeChar) = .ok (out ++ Json.escape cs) := by
  induction cs with
  | nil => intro out; simp [appendBytes, Json.escape]
  | cons c cs ih =>
    intro out
    rw [List.flatMap_cons, appendBytes_char, ih, Json.escape, String.append_assoc]

/-- A string that came out of UTF-8 is never refused. -/
theorem appendString_utf8 (out s : String) : appendString out (utf8 s) = .ok (out ++ Json.quote s) := by
  simp only [appendString, utf8, appendBytes_utf8]
  simp [Json.quote, String.append_assoc, bind, Except.bind, pure, Except.pure]

theorem utf8_injective : Function.Injective utf8 := by
  intro s t h
  have hbytes : s.toList.utf8Encode = t.toList.utf8Encode := by
    rw [List.utf8Encode, List.utf8Encode]
    exact congrArg List.toByteArray h
  have hdecode := congrArg ByteArray.utf8Decode? hbytes
  simp only [List.utf8Decode?_utf8Encode, Option.some.injEq] at hdecode
  exact String.toList_inj.mp (by simpa using hdecode)

/-! ## Arrays -/

section
variable {α β ρ : Type} {element : String → β → Except String String} {port : α → β} {text : α → String}

theorem foldlM_commas {l : List α} {m : List β} (h : List.Forall₂ (fun a b => ∀ out, element out b = .ok (out ++ text a)) l m) :
    ∀ out : String, m.foldlM (fun out b => element (out ++ ",") b) out =
      .ok (out ++ (l.map text).foldr (fun t rest => "," ++ t ++ rest) "") := by
  induction h with
  | nil => intro out; simp [pure, Except.pure]
  | cons hab _ ih =>
    intro out
    rw [List.foldlM_cons, hab]
    refine (ih _).trans ?_
    simp [String.append_assoc]

/-- Elements written alike, one for one. -/
theorem appendElements_eq {l : List α} {m : List β}
    (h : List.Forall₂ (fun a b => ∀ out, element out b = .ok (out ++ text a)) l m) (out : String) :
    appendElements element out m = .ok (out ++ Json.commas (l.map text)) := by
  cases h with
  | nil => simp [appendElements, Json.commas]
  | cons hab hrest =>
    rw [appendElements, hab]
    refine (foldlM_commas hrest _).trans ?_
    simp [Json.commas, String.append_assoc]

/-- An array whose elements both planes write alike. -/
theorem appendArray_eq (spell : ρ → String) {value : α → Json ρ}
    (h : ∀ out a, element out (port a) = .ok (out ++ Json.dumps spell (value a))) (out : String) (l : List α) :
    appendArray element out (l.map port) = .ok (out ++ Json.dumps spell (.array (l.map value))) := by
  have hall : List.Forall₂ (fun a b => ∀ out, element out b = .ok (out ++ Json.dumps spell (value a))) l (l.map port) :=
    List.forall₂_map_right_iff.mpr (List.forall₂_same.mpr fun a _ out => h out a)
  rw [appendArray, appendElements_eq hall]
  simp [Json.dumps, String.append_assoc, bind, Except.bind, pure, Except.pure]

end

/-! ## The event both planes hold -/

section
variable {ρ : Type}

def ObjectRecord.ported (o : ObjectRecord String ρ) : ObjectRecord (List UInt8) ρ where
  detId := utf8 o.detId
  className := utf8 o.className
  score := o.score
  bbox := o.bbox
  embedding := o.embedding
  shipId := o.shipId
  similarity := o.similarity
  maskAreaPx := o.maskAreaPx
  trackId := o.trackId
  trackState := o.trackState.map utf8
  globalId := o.globalId

/-- The C++ plane holds texts only. -/
def portedExtra (p : String × Json ρ) : Option (List UInt8 × List UInt8) :=
  match p.2 with
  | .string s => some (utf8 p.1, utf8 s)
  | _ => none

/-- The same event as the C++ plane holds it, whose type and version are constants. -/
def PerceptionEvent.ported (e : PerceptionEvent ρ) : Option (Cpp.PerceptionEvent ρ) :=
  if e.type = MESSAGE_TYPE ∧ e.schemaVersion = SCHEMA_VERSION then
    (e.extra.entries.mapM portedExtra).map fun extra =>
      { cameraId := utf8 e.cameraId
        frameId := e.frameId
        sourceId := utf8 e.sourceId
        objects := e.objects.map ObjectRecord.ported
        imgWidth := e.imgWidth
        imgHeight := e.imgHeight
        imgFps := e.imgFps
        capturedUnixNs := e.capturedUnixNs
        emittedUnixNs := e.emittedUnixNs
        latencyUs := e.latencyUs
        missingStages := e.missingStages.map utf8
        reason := utf8 e.reason
        globalIdGroup := utf8 (e.globalIdGroup.getD "")
        extra := extra }
  else none

theorem ok_bind {ε α β : Type} (a : α) (f : α → Except ε β) : (Except.ok a >>= f) = f a := rfl

/-! ## Columns -/

variable (spell : ρ → String)

theorem numbers_eq (out : String) (xs : List ρ) :
    appendArray (appendNumber spell) out xs = .ok (out ++ Json.dumps spell (.array (xs.map .number))) := by
  have h : appendArray (appendNumber spell) out (xs.map id) = .ok (out ++ Json.dumps spell (.array (xs.map .number))) :=
    appendArray_eq spell (fun _ _ => rfl) out xs
  rwa [List.map_id] at h

theorem words_eq (out : String) (words : List String) :
    appendArray appendString out (words.map utf8) = .ok (out ++ Json.dumps spell (.array (words.map .string))) :=
  appendArray_eq spell (fun out s => appendString_utf8 out s) out words

/-- A column whose entries both planes write alike. -/
theorem column_eq {element : String → ObjectRecord (List UInt8) ρ → Except String String}
    {value : ObjectRecord String ρ → Json ρ}
    (h : ∀ out o, element out o.ported = .ok (out ++ Json.dumps spell (value o))) (out : String)
    (objects : List (ObjectRecord String ρ)) :
    appendArray element out (objects.map ObjectRecord.ported) =
      .ok (out ++ Json.dumps spell (PerceptionEvent.column objects value)) :=
  appendArray_eq spell h out objects

variable (out : String) (o : ObjectRecord String ρ)

theorem optional_eq {α β : Type} {append : String → β → Except String String} {port : α → β} {value : α → Json ρ}
    (h : ∀ out a, append out (port a) = .ok (out ++ Json.dumps spell (value a))) (a : Option α) :
    appendOptional append out (a.map port) = .ok (out ++ Json.dumps spell (.orNull value a)) := by
  cases a with
  | none => rfl
  | some a => exact h out a

theorem optionalInt_eq (n : Option Int) : appendOptionalInt out n = .ok (out ++ Json.dumps spell (.orNull .int n)) := by
  have h : appendOptionalInt out (n.map id) = .ok (out ++ Json.dumps spell (.orNull .int n)) :=
    optional_eq spell out (fun _ _ => rfl) n
  rwa [Option.map_id] at h

theorem optionalNumber_eq (x : Option ρ) :
    appendOptional (appendNumber spell) out x = .ok (out ++ Json.dumps spell (.orNull .number x)) := by
  have h : appendOptional (appendNumber spell) out (x.map id) = .ok (out ++ Json.dumps spell (.orNull .number x)) :=
    optional_eq spell out (fun _ _ => rfl) x
  rwa [Option.map_id] at h

theorem optionalWord_eq (s : Option String) :
    appendOptional appendString out (s.map utf8) = .ok (out ++ Json.dumps spell (.orNull .string s)) :=
  optional_eq spell out (fun out s => appendString_utf8 out s) s

theorem bbox_eq : appendBbox spell out o.ported = .ok (out ++ Json.dumps spell (PerceptionEvent.bboxList o)) :=
  numbers_eq spell out _

theorem embedding_eq :
    appendEmbedding spell out o.ported = .ok (out ++ Json.dumps spell (.array (o.embedding.map .number))) :=
  numbers_eq spell out _

variable (objects : List (ObjectRecord String ρ))

theorem detId_column : appendArray (fun out o => appendString out o.detId) out (objects.map ObjectRecord.ported) =
    .ok (out ++ Json.dumps spell (PerceptionEvent.column objects fun o => .string o.detId)) :=
  column_eq spell (fun out o => appendString_utf8 out o.detId) out objects

theorem score_column : appendArray (fun out o => appendNumber spell out o.score) out (objects.map ObjectRecord.ported) =
    .ok (out ++ Json.dumps spell (PerceptionEvent.column objects fun o => .number o.score)) :=
  column_eq spell (fun _ _ => rfl) out objects

theorem shipId_column : appendArray (fun out o => appendOptionalInt out o.shipId) out (objects.map ObjectRecord.ported) =
    .ok (out ++ Json.dumps spell (PerceptionEvent.column objects fun o => .orNull .int o.shipId)) :=
  column_eq spell (fun out o => optionalInt_eq spell out o.shipId) out objects

theorem similarity_column : appendArray (fun out o => appendOptional (appendNumber spell) out o.similarity) out (objects.map ObjectRecord.ported) =
    .ok (out ++ Json.dumps spell (PerceptionEvent.column objects fun o => .orNull .number o.similarity)) :=
  column_eq spell (fun out o => optionalNumber_eq spell out o.similarity) out objects

theorem maskAreaPx_column : appendArray (fun out o => appendOptional (appendNumber spell) out o.maskAreaPx) out (objects.map ObjectRecord.ported) =
    .ok (out ++ Json.dumps spell (PerceptionEvent.column objects fun o => .orNull .number o.maskAreaPx)) :=
  column_eq spell (fun out o => optionalNumber_eq spell out o.maskAreaPx) out objects

theorem trackId_column : appendArray (fun out o => appendOptionalInt out o.trackId) out (objects.map ObjectRecord.ported) =
    .ok (out ++ Json.dumps spell (PerceptionEvent.column objects fun o => .orNull .int o.trackId)) :=
  column_eq spell (fun out o => optionalInt_eq spell out o.trackId) out objects

theorem trackState_column : appendArray (fun out o => appendOptional appendString out o.trackState) out (objects.map ObjectRecord.ported) =
    .ok (out ++ Json.dumps spell (PerceptionEvent.column objects fun o => .orNull .string o.trackState)) :=
  column_eq spell (fun out o => optionalWord_eq spell out o.trackState) out objects

theorem globalId_column : appendArray (fun out o => appendOptionalInt out o.globalId) out (objects.map ObjectRecord.ported) =
    .ok (out ++ Json.dumps spell (PerceptionEvent.column objects fun o => .orNull .int o.globalId)) :=
  column_eq spell (fun out o => optionalInt_eq spell out o.globalId) out objects

theorem bbox_column : appendArray (appendBbox spell) out (objects.map ObjectRecord.ported) =
    .ok (out ++ Json.dumps spell (PerceptionEvent.column objects PerceptionEvent.bboxList)) :=
  column_eq spell (bbox_eq spell) out objects

theorem embedding_column : appendArray (appendEmbedding spell) out (objects.map ObjectRecord.ported) =
    .ok (out ++ Json.dumps spell (PerceptionEvent.column objects fun o => .array (o.embedding.map .number))) :=
  column_eq spell (embedding_eq spell) out objects

theorem objectsOf_ported (className : String) :
    ((objects.map ObjectRecord.ported).filter fun o => decide (o.className = utf8 className)) =
      (objects.filter fun o => decide (o.className = className)).map ObjectRecord.ported := by
  rw [List.filter_map]
  congr 1
  apply List.filter_congr
  intro o _
  simp only [Function.comp, ObjectRecord.ported, utf8_injective.eq_iff]

/-! ## The whole line -/

/-- Further entries of an object that has some. -/
theorem commas_append {ts : List String} (h : ts ≠ []) (more : List String) :
    Json.commas (ts ++ more) = Json.commas ts ++ more.foldr (fun t rest => "," ++ t ++ rest) "" := by
  cases ts with
  | nil => exact absurd rfl h
  | cons t ts =>
    simp only [List.cons_append, Json.commas, List.foldr_append, String.append_assoc]
    congr 1
    clear h
    induction ts with
    | nil => simp
    | cons u ts ih => simp only [List.foldr_cons, ih, String.append_assoc]

/-- No escape is needed. -/
def isPlain (c : Char) : Bool := c.toNat != 92 && c.toNat != 34 && Nat.ble 32 c.toNat && Nat.ble c.toNat 126

theorem escapeChar_plain {c : Char} (h : isPlain c = true) : Json.escapeChar c = String.singleton c := by
  simp only [isPlain, Bool.and_eq_true, bne_iff_ne, Nat.ble_eq] at h
  obtain ⟨⟨⟨hslash, hquote⟩, hlow⟩, hhigh⟩ := h
  unfold Json.escapeChar
  rw [if_neg (by rintro rfl; exact hslash rfl), if_neg (by rintro rfl; exact hquote rfl), if_pos ⟨hlow, hhigh⟩]

theorem escape_plain : ∀ {cs : List Char}, cs.all isPlain = true → Json.escape cs = String.ofList cs
  | [], _ => rfl
  | c :: cs, h => by
    rw [List.all_cons, Bool.and_eq_true] at h
    rw [Json.escape, escapeChar_plain h.1, escape_plain h.2]
    apply String.toList_inj.mp
    simp

theorem quote_plain {k : String} (h : k.toList.all isPlain = true) : Json.quote k = "\"" ++ k ++ "\"" := by
  rw [Json.quote, escape_plain h, String.ofList_toList]

/-- The columns that every event has. -/
def PerceptionEvent.columns (e : PerceptionEvent ρ) : String :=
  "\x7b" ++ Json.commas (Json.dumpsEntries spell (e.asDet2mot ++ e.additions))

theorem cpp_columns {e : PerceptionEvent ρ} {c : Cpp.PerceptionEvent ρ} (h : e.ported = some c) :
    c.appendColumns spell = .ok (e.columns spell) := by
  unfold PerceptionEvent.ported at h
  split at h
  case isFalse => cases h
  case isTrue hconst =>
  obtain ⟨htype, hversion⟩ := hconst
  obtain ⟨extra, -, rfl⟩ := Option.map_eq_some_iff.mp h
  clear h
  simp only [Cpp.PerceptionEvent.appendColumns, Cpp.PerceptionEvent.objectsOf, objectsOf_ported, appendString_utf8,
    detId_column spell, score_column, shipId_column spell, similarity_column, maskAreaPx_column, trackId_column spell,
    trackState_column spell, globalId_column spell, bbox_column, embedding_column, words_eq spell, ok_bind]
  refine congrArg Except.ok ?_
  simp only [PerceptionEvent.columns, PerceptionEvent.asDet2mot, PerceptionEvent.additions, List.cons_append,
    List.nil_append, Json.dumpsEntries, Json.commas, List.foldr_cons, List.foldr_nil, String.append_empty]
  simp only [PerceptionEvent.objectsOf, PerceptionEvent.isPartial, Cpp.PerceptionEvent.isPartial, appendInt, htype, hversion,
    Json.dumps_bool, Json.dumps_int, Json.dumps_string, List.isEmpty_map]
  generalize Json.quote MESSAGE_TYPE = type
  -- Each key with its quotes and colon is one literal, as the C++ plane has it.
  simp (disch := decide) only [quote_plain, ← String.append_assoc, String.reduceAppend]

/-- What follows them when a tier answered. -/
def groupText (group : Option String) : String := group.elim "" fun group => ",\"global_id_group\":" ++ Json.quote group

theorem groupText_none : groupText none = "" := rfl

theorem groupText_some (group : String) : groupText (some group) = ",\"global_id_group\":" ++ Json.quote group := rfl

def extraText (entries : List (String × Json ρ)) : String :=
  if entries.isEmpty then "" else ",\"extra\":\x7b" ++ Json.commas (Json.dumpsEntries spell entries) ++ "\x7d"

theorem columns_nodup (e : PerceptionEvent ρ) : ((e.asDet2mot ++ e.additions).map Prod.fst).Nodup := by
  simp [PerceptionEvent.asDet2mot, PerceptionEvent.additions]

theorem asDict_entries (e : PerceptionEvent ρ) : e.asDict.entries =
    e.asDet2mot ++ e.additions ++ e.globalIdGroup.toList.map (fun group => ("global_id_group", Json.string group)) ++
      if e.extra.entries.isEmpty then [] else [("extra", Json.object e.extra.entries)] := by
  have hnodup := columns_nodup e
  have hdet : (Dict.empty.update e.asDet2mot).entries = e.asDet2mot := by
    rw [List.map_append] at hnodup
    exact Dict.update_entries_of_new hnodup.of_append_left
  have hbase : ((Dict.empty.update e.asDet2mot).update e.additions).entries = e.asDet2mot ++ e.additions := by
    rw [Dict.update_entries_of_new, hdet]
    rw [Dict.keys, hdet, ← List.map_append]
    exact hnodup
  have hgroup : "global_id_group" ∉ (e.asDet2mot ++ e.additions).map Prod.fst := by
    simp [PerceptionEvent.asDet2mot, PerceptionEvent.additions]
  have hextra : "extra" ∉ (e.asDet2mot ++ e.additions).map Prod.fst := by
    simp [PerceptionEvent.asDet2mot, PerceptionEvent.additions]
  unfold PerceptionEvent.asDict
  generalize (Dict.empty.update e.asDet2mot).update e.additions = payload at hbase ⊢
  have hkeys : payload.keys = (e.asDet2mot ++ e.additions).map Prod.fst := by rw [Dict.keys, hbase]
  cases hg : e.globalIdGroup with
  | none =>
    dsimp only
    split
    · simp [hbase]
    · rw [Dict.set_entries_of_new (by rw [hkeys]; exact hextra), hbase]
      simp
  | some group =>
    have hset : (payload.set "global_id_group" (.string group)).entries =
        e.asDet2mot ++ e.additions ++ [("global_id_group", .string group)] := by
      rw [Dict.set_entries_of_new (by rw [hkeys]; exact hgroup), hbase]
    dsimp only
    split
    · rw [hset]
      simp
    · rw [Dict.set_entries_of_new, hset]
      · rfl
      · rw [Dict.keys, hset, List.map_append, List.mem_append, not_or]
        exact ⟨hextra, by simp⟩

theorem toJson_eq (e : PerceptionEvent ρ) :
    e.toJson spell = e.columns spell ++ groupText e.globalIdGroup ++ extraText spell e.extra.entries ++ "\x7d" := by
  have hne : Json.dumpsEntries spell (e.asDet2mot ++ e.additions) ≠ [] := List.cons_ne_nil _ _
  have hgroup : Json.quote "global_id_group" = "\"global_id_group\"" := quote_plain (by decide)
  have hextra : Json.quote "extra" = "\"extra\"" := quote_plain (by decide)
  have hmore : (Json.dumpsEntries spell (e.globalIdGroup.toList.map (fun group => ("global_id_group", Json.string group)) ++
      if e.extra.entries.isEmpty then [] else [("extra", Json.object e.extra.entries)])).foldr
        (fun t rest => "," ++ t ++ rest) "" = groupText e.globalIdGroup ++ extraText spell e.extra.entries := by
    unfold extraText
    cases e.globalIdGroup with
    | none =>
      rw [groupText_none]
      split
      · rfl
      · simp [Json.dumpsEntries, Json.dumps, hextra, ← String.append_assoc]
    | some group =>
      rw [groupText_some]
      split
      · simp [Json.dumpsEntries, hgroup, ← String.append_assoc]
      · simp [Json.dumpsEntries, Json.dumps, hgroup, hextra, ← String.append_assoc]
  rw [PerceptionEvent.toJson, asDict_entries, Json.dumps, List.append_assoc, Json.dumpsEntries_append, commas_append hne,
    hmore, PerceptionEvent.columns]
  simp only [String.append_assoc]

/-- An extra the C++ plane holds is a text. -/
theorem appendExtra_eq {p : String × Json ρ} {q : List UInt8 × List UInt8} (h : portedExtra p = some q) (out : String) :
    appendExtra out q = .ok (out ++ (Json.quote p.1 ++ ":" ++ Json.dumps spell p.2)) := by
  obtain ⟨k, v⟩ := p
  cases v with
  | string s =>
    obtain rfl := Option.some.inj h
    simp [appendExtra, appendString_utf8, ok_bind, String.append_assoc]
  | _ => cases h

theorem utf8_isEmpty (s : String) : (utf8 s).isEmpty = decide (s = "") := by
  rw [Bool.eq_iff_iff, List.isEmpty_iff, decide_eq_true_iff]
  exact utf8_injective.eq_iff (b := "")

/-- The group of an event, unless its name is empty. -/
def PerceptionEvent.namedGroup (e : PerceptionEvent ρ) : Option String :=
  if e.globalIdGroup = some "" then none else e.globalIdGroup

theorem appendGroup_eq (e : PerceptionEvent ρ) (out : String) :
    appendGroup out (utf8 (e.globalIdGroup.getD "")) = .ok (out ++ groupText e.namedGroup) := by
  unfold appendGroup PerceptionEvent.namedGroup
  rw [utf8_isEmpty]
  cases e.globalIdGroup with
  | none =>
    simp only [Option.getD_none, decide_true, if_true, reduceCtorEq, if_false, groupText_none, String.append_empty]
  | some group =>
    by_cases h : group = ""
    · simp [h, groupText_none]
    · simp [h, groupText_some, appendString_utf8, String.append_assoc]

theorem appendExtras_eq {entries : List (String × Json ρ)} {extra : List (List UInt8 × List UInt8)}
    (h : entries.mapM portedExtra = some extra) (out : String) :
    appendExtras out extra = .ok (out ++ extraText spell entries) := by
  unfold appendExtras extraText
  have hall := forall₂_of_mapM_some h
  have helements := appendElements_eq (hall.imp fun _ _ hpq out => appendExtra_eq spell hpq out) (out ++ ",\"extra\":\x7b")
  rw [← Json.dumpsEntries_eq_map] at helements
  cases hall with
  | nil => simp
  | cons _ _ =>
    simp only [List.isEmpty_cons, Bool.false_eq_true, if_false, helements, ok_bind, String.append_assoc]
    rfl

/-- The line of the C++ plane: an empty name is no group. -/
theorem cpp_toJson_eq {e : PerceptionEvent ρ} {c : Cpp.PerceptionEvent ρ} (h : e.ported = some c) :
    c.toJson spell = .ok (e.columns spell ++ groupText e.namedGroup ++ extraText spell e.extra.entries ++ "\x7d") := by
  have hcolumns := cpp_columns spell h
  unfold PerceptionEvent.ported at h
  split at h
  case isFalse => cases h
  obtain ⟨extra, hextra, rfl⟩ := Option.map_eq_some_iff.mp h
  rw [Cpp.PerceptionEvent.toJson, hcolumns, ok_bind, appendGroup_eq, ok_bind, appendExtras_eq spell hextra]
  rfl

/-- An event both planes hold is one text on both, exactly when its group is not
the empty name. -/
theorem json_agrees (e : PerceptionEvent ρ) (c : Cpp.PerceptionEvent ρ) (h : e.ported = some c) :
    c.toJson spell = .ok (e.toJson spell) ↔ e.globalIdGroup ≠ some "" := by
  rw [cpp_toJson_eq spell h, toJson_eq, Except.ok.injEq]
  unfold PerceptionEvent.namedGroup
  by_cases hempty : e.globalIdGroup = some ""
  · simp only [hempty, if_true]
    refine iff_of_false ?_ (fun hne => hne rfl)
    intro heq
    have hlength := congrArg String.length heq
    have hkey : String.length ",\"global_id_group\":" = 19 := by decide
    simp only [String.length_append, groupText_none, groupText_some, hkey, String.length_empty] at hlength
    omega
  · rw [if_neg hempty]
    exact iff_of_true rfl hempty
end

def harbour : PerceptionEvent Nat where
  cameraId := "cảng \"7\""
  frameId := 42
  sourceId := "shard-0"
  objects := [{ detId := "cảng_42_0", className := "ship", score := 1, bbox := (0, 0, 4, 2), shipId := some 0, trackState := some "" }]
  missingStages := ["embed"]
  globalIdGroup := some "mtmc-north"
  extra := ⟨[("note", .string "🚢")], by simp⟩

theorem harbour_agrees : ∃ c, harbour.ported = some c ∧ c.toJson toString = .ok (harbour.toJson toString) :=
  ⟨_, rfl, (json_agrees toString harbour _ rfl).mpr (by decide)⟩

/-- A frame that the slot with the empty name answered for. -/
def unnamed : PerceptionEvent Nat where
  cameraId := "cam-7"
  frameId := 42
  sourceId := "shard-0"
  globalIdGroup := some ""

theorem unnamed_disagrees : ¬∀ (e : PerceptionEvent Nat) (c : Cpp.PerceptionEvent Nat), e.ported = some c →
    c.toJson toString = .ok (e.toJson toString) := by
  intro hall
  have h := hall unnamed _ rfl
  revert h
  decide +kernel

end ShipInfer.Events
