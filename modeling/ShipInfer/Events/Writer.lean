import ShipInfer.Events.Schema

/-!
# The event as the C++ plane writes it

`core/events/schema.cpp` over the writers of `core/events/json.h`. A string is its
bytes. Everything appends to one text, whose bytes are ASCII; a refusal is thrown
by a writer part way through.
-/

namespace ShipInfer.Events.Cpp

/-- A string's bytes. -/
def utf8 (s : String) : List UInt8 := s.toList.flatMap String.utf8EncodeChar

def truncated : String := "event string is truncated utf-8, which has no JSON spelling either plane agrees on"

def kHex (n : Nat) : Char := Json.hexDigit (n &&& 0xF)

def appendEscape (out : String) (code : Nat) : String :=
  out ++ "\\u" ++ String.ofList [kHex (code >>> 12), kHex (code >>> 8), kHex (code >>> 4), kHex code]

/-- An astral code point is a surrogate pair. -/
def appendCode (out : String) (code : Nat) : String :=
  if code ≥ 0x10000 then
    let rest := code - 0x10000
    appendEscape (appendEscape out (0xD800 + (rest >>> 10))) (0xDC00 + (rest &&& 0x3FF))
  else appendEscape out code

/-- The escapes with a name, from 0x08 on. -/
def kShort (byte : Nat) : Option String :=
  match byte with
  | 0x08 => some "\\b"
  | 0x09 => some "\\t"
  | 0x0A => some "\\n"
  | 0x0C => some "\\f"
  | 0x0D => some "\\r"
  | _ => none

/-- One continuation byte more. -/
def shiftIn (code : Nat) (byte : UInt8) : Nat := (code <<< 6) ||| (byte.toNat &&& 0x3F)

/-- The loop over the bytes; the first byte of a code point says how many follow it. -/
def appendBytes (out : String) : List UInt8 → Except String String
  | [] => .ok out
  | byte :: rest =>
    let b := byte.toNat
    if b = 0x22 ∨ b = 0x5C then appendBytes (out ++ "\\" ++ String.singleton (Char.ofNat b)) rest
    else if 0x20 ≤ b ∧ b < 0x7F then appendBytes (out ++ String.singleton (Char.ofNat b)) rest
    else
      match kShort b with
      | some short => appendBytes (out ++ short) rest
      | none =>
        if b ≥ 0xF0 then
          match rest with
          | b₁ :: b₂ :: b₃ :: rest => appendBytes (appendCode out (shiftIn (shiftIn (shiftIn (b &&& 0x07) b₁) b₂) b₃)) rest
          | _ => .error truncated
        else if b ≥ 0xE0 then
          match rest with
          | b₁ :: b₂ :: rest => appendBytes (appendCode out (shiftIn (shiftIn (b &&& 0x0F) b₁) b₂)) rest
          | _ => .error truncated
        else if b ≥ 0xC0 then
          match rest with
          | b₁ :: rest => appendBytes (appendCode out (shiftIn (b &&& 0x1F) b₁)) rest
          | _ => .error truncated
        else appendBytes (appendCode out b) rest

def appendString (out : String) (value : List UInt8) : Except String String := do
  let out ← appendBytes (out ++ "\"") value
  return out ++ "\""

structure PerceptionEvent (ρ : Type) where
  cameraId : List UInt8
  frameId : Int := 0
  sourceId : List UInt8
  objects : List (ObjectRecord (List UInt8) ρ) := []
  imgWidth : Int := 0
  imgHeight : Int := 0
  imgFps : Int := 0
  capturedUnixNs : Int := 0
  emittedUnixNs : Int := 0
  latencyUs : Int := 0
  missingStages : List (List UInt8) := []
  reason : List UInt8 := utf8 "complete"
  /-- Empty when no cross-camera stage answered. -/
  globalIdGroup : List UInt8 := []
  extra : List (List UInt8 × List UInt8) := []

variable {ρ : Type} {α : Type}

/-- A comma before each element but the first. -/
def appendElements (element : String → α → Except String String) (out : String) : List α → Except String String
  | [] => .ok out
  | a :: rest => do
    let out ← element out a
    rest.foldlM (fun out a => element (out ++ ",") a) out

def appendArray (element : String → α → Except String String) (out : String) (elements : List α) : Except String String := do
  let out ← appendElements element (out ++ "[") elements
  return out ++ "]"

def appendInt (out : String) (value : Int) : String := out ++ toString value

def appendOptional (append : String → α → Except String String) (out : String) : Option α → Except String String
  | none => .ok (out ++ "null")
  | some value => append out value

section
variable (spell : ρ → String)

def appendNumber (out : String) (value : ρ) : Except String String := .ok (out ++ spell value)

def appendBbox (out : String) (o : ObjectRecord (List UInt8) ρ) : Except String String :=
  appendArray (appendNumber spell) out (bounds o.bbox)

def appendEmbedding (out : String) (o : ObjectRecord (List UInt8) ρ) : Except String String :=
  appendArray (appendNumber spell) out o.embedding

end

def appendOptionalInt (out : String) (value : Option Int) : Except String String :=
  appendOptional (fun out n => .ok (appendInt out n)) out value

/-- Omitted when empty. -/
def appendGroup (out : String) (group : List UInt8) : Except String String :=
  if group.isEmpty then .ok out else appendString (out ++ ",\"global_id_group\":") group

def appendExtra (out : String) (entry : List UInt8 × List UInt8) : Except String String := do
  let out ← appendString out entry.1
  appendString (out ++ ":") entry.2

def appendExtras (out : String) (extra : List (List UInt8 × List UInt8)) : Except String String :=
  if extra.isEmpty then .ok out
  else do
    let out ← appendElements appendExtra (out ++ ",\"extra\":\x7b") extra
    return out ++ "\x7d"

namespace PerceptionEvent

def isPartial (e : PerceptionEvent ρ) : Bool := !e.missingStages.isEmpty

def objectsOf (e : PerceptionEvent ρ) (className : List UInt8) : List (ObjectRecord (List UInt8) ρ) :=
  e.objects.filter fun o => decide (o.className = className)

/-- `to_json` up to the reason, in the order of the other plane. -/
def appendColumns (spell : ρ → String) (e : PerceptionEvent ρ) : Except String String := do
  let people := e.objectsOf (utf8 "person")
  let ships := e.objectsOf (utf8 "ship")
  let out := "\x7b"
  let out ← appendString (out ++ "\"sub_id\":") e.sourceId
  let out ← appendArray (fun out o => appendString out o.detId) (out ++ ",\"det_id_vec\":") people
  let out ← appendString (out ++ ",\"camera_id\":") e.cameraId
  let out := appendInt (out ++ ",\"image_id\":") e.frameId
  let out ← appendArray (fun out o => appendNumber spell out o.score) (out ++ ",\"det_body_score_vec\":") people
  let out ← appendArray (appendBbox spell) (out ++ ",\"body_bbox_vec\":") people
  let out ← appendArray (appendEmbedding spell) (out ++ ",\"body_feature_vec\":") people
  let out := appendInt (out ++ ",\"img_width\":") e.imgWidth
  let out := appendInt (out ++ ",\"img_height\":") e.imgHeight
  let out := appendInt (out ++ ",\"img_fps\":") e.imgFps
  let out ← appendString (out ++ ",\"type\":") (utf8 MESSAGE_TYPE)
  let out := appendInt (out ++ ",\"schema_version\":") SCHEMA_VERSION
  let out ← appendArray (fun out o => appendString out o.detId) (out ++ ",\"ship_det_id_vec\":") ships
  let out ← appendArray (fun out o => appendNumber spell out o.score) (out ++ ",\"det_ship_score_vec\":") ships
  let out ← appendArray (appendBbox spell) (out ++ ",\"ship_bbox_vec\":") ships
  let out ← appendArray (appendEmbedding spell) (out ++ ",\"ship_feature_vec\":") ships
  let out ← appendArray (fun out o => appendOptionalInt out o.shipId) (out ++ ",\"ship_id_vec\":") ships
  let out ← appendArray (fun out o => appendOptional (appendNumber spell) out o.similarity) (out ++ ",\"ship_similarity_vec\":") ships
  let out ← appendArray (fun out o => appendOptional (appendNumber spell) out o.maskAreaPx) (out ++ ",\"ship_mask_area_vec\":") ships
  let out ← appendArray (fun out o => appendOptionalInt out o.trackId) (out ++ ",\"body_track_id_vec\":") people
  let out ← appendArray (fun out o => appendOptional appendString out o.trackState) (out ++ ",\"body_track_state_vec\":") people
  let out ← appendArray (fun out o => appendOptionalInt out o.trackId) (out ++ ",\"ship_track_id_vec\":") ships
  let out ← appendArray (fun out o => appendOptional appendString out o.trackState) (out ++ ",\"ship_track_state_vec\":") ships
  let out ← appendArray (fun out o => appendOptionalInt out o.globalId) (out ++ ",\"body_global_id_vec\":") people
  let out ← appendArray (fun out o => appendOptionalInt out o.globalId) (out ++ ",\"ship_global_id_vec\":") ships
  let out := appendInt (out ++ ",\"captured_unix_ns\":") e.capturedUnixNs
  let out := appendInt (out ++ ",\"emitted_unix_ns\":") e.emittedUnixNs
  let out := appendInt (out ++ ",\"latency_us\":") e.latencyUs
  let out := out ++ ",\"partial\":" ++ (if e.isPartial then "true" else "false")
  let out ← appendArray appendString (out ++ ",\"missing_stages\":") e.missingStages
  appendString (out ++ ",\"reason\":") e.reason

def toJson (spell : ρ → String) (e : PerceptionEvent ρ) : Except String String := do
  let out ← e.appendColumns spell
  let out ← appendGroup out e.globalIdGroup
  let out ← appendExtras out e.extra
  return out ++ "\x7d"

end PerceptionEvent

end ShipInfer.Events.Cpp
