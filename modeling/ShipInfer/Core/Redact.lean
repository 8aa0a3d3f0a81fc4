import ShipInfer.Lib.Pattern
import ShipInfer.Lib.Texts

/-!
# Redaction

`redact` and `redact_in` of `core/redact`, over the characters of a text, and `redact_uri` and
`redact_in` of the C++ plane, over its bytes.
-/

namespace ShipInfer.Redact

open Pattern

def placeholder : List Char := ['*', '*', '*']

/-- What `redact` prints when it raised. -/
def unparseable : List Char := "<unparseable uri>".toList

def redact : Option (List Char) → List Char
  | none | some [] => []
  | some uri =>
    match partition [':', '/', '/'] uri with
    | none => uri
    | some (scheme, rest) =>
      match rpartition '@' rest with
      | none => uri
      | some (userinfo, host) =>
        match partition [':'] userinfo with
        -- a username with no password
        | none => uri
        | some (username, _) =>
          if host = [] then unparseable
          else scheme ++ [':', '/', '/'] ++ username ++ [':'] ++ placeholder ++ ['@'] ++ host

/-- `[a-zA-Z0-9+.\-]` -/
def schemeClass (c : Char) : Bool := c.isAlpha || c.isDigit || c == '+' || c == '.' || c == '-'

/-- `[^\s:/@]` -/
def userClass (c : Char) : Bool := !(isSpace c || c == ':' || c == '/' || c == '@')

/-- `_EMBEDDED`: `([a-zA-Z][a-zA-Z0-9+.\-]*://)([^\s:/@]+):([^\s]+)@`, a group for each
parenthesis and for each character between them. -/
def embedded : List (List (Piece Char)) :=
  [[.one Char.isAlpha, .many schemeClass, .one (· == ':'), .one (· == '/'), .one (· == '/')],
    [.one userClass, .many userClass],
    [.one (· == ':')],
    [.one fun c => !isSpace c, .many fun c => !isSpace c],
    [.one (· == '@')]]

/-- What `redact_in` puts for a match, by its groups. -/
def replacement (groups : List (List Char)) : List Char :=
  groups.getD 0 [] ++ groups.getD 1 [] ++ [':'] ++ placeholder ++ ['@']

def redactIn (text : List Char) : List Char :=
  sub (fun s => (runGroups embedded s).map fun m => (replacement m.1, m.2)) text

namespace Cpp

/-- The bytes of a literal. -/
def lit (s : List Char) : List UInt8 := s.map Char.toUInt8

def isSpace (c : UInt8) : Bool :=
  c == ' '.toUInt8 || c == '\t'.toUInt8 || c == '\n'.toUInt8 || c == '\r'.toUInt8 || c == '\x0c'.toUInt8 ||
    c == '\x0b'.toUInt8

def isAlpha (c : UInt8) : Bool :=
  ('a'.toUInt8 ≤ c && c ≤ 'z'.toUInt8) || ('A'.toUInt8 ≤ c && c ≤ 'Z'.toUInt8)

def isSchemeChar (c : UInt8) : Bool :=
  isAlpha c || ('0'.toUInt8 ≤ c && c ≤ '9'.toUInt8) || c == '+'.toUInt8 || c == '-'.toUInt8 || c == '.'.toUInt8

/-- What the scan over the user part passes. -/
def isUserChar (c : UInt8) : Bool :=
  !isSpace c && c != ':'.toUInt8 && c != '/'.toUInt8 && c != '@'.toUInt8

def redactUri (uri : List UInt8) : List UInt8 :=
  if uri = [] then []
  else
    match find (lit [':', '/', '/']) uri with
    | none => uri
    | some separator =>
      let rest := uri.drop (separator + 3)
      match rfind '@'.toUInt8 rest with
      | none => uri
      | some i =>
        let userinfo := rest.take i
        let host := rest.drop (i + 1)
        match find (lit [':']) userinfo with
        | none => uri
        | some colon =>
          if host = [] then lit unparseable
          else
            uri.take separator ++ lit [':', '/', '/'] ++ userinfo.take colon ++ lit [':'] ++ lit placeholder ++
              lit ['@'] ++ host

/-- `text.find(needle, cursor)` -/
def findFrom (needle text : List UInt8) (cursor : Nat) : Option Nat :=
  (find needle (text.drop cursor)).map (cursor + ·)

/-- Where a scan that passes what is in `p` stops. -/
def stopOf (p : UInt8 → Bool) (text : List UInt8) (start : Nat) : Nat := start + ((text.drop start).takeWhile p).length

/-- The characters from `start` up to `stop`. -/
def slice (text : List UInt8) (start stop : Nat) : List UInt8 := (text.take stop).drop start

/-- The first letter of the run of scheme characters before `mark`; `mark` where it has none. -/
def schemeOf (text : List UInt8) (mark : Nat) : Nat :=
  let scheme := mark - ((text.take mark).reverse.takeWhile isSchemeChar).length
  scheme + ((slice text scheme mark).takeWhile fun c => !isAlpha c).length

/-- The scan from `cursor`: what it appends. A turn moves `cursor` on, so that as many turns as
there are characters are enough. -/
def scan (text : List UInt8) : Nat → Nat → List UInt8
  | 0, _ => []
  | turns + 1, cursor =>
    if cursor < text.length then
      match findFrom (lit [':', '/', '/']) text cursor with
      | none => text.drop cursor
      | some mark =>
        if schemeOf text mark = mark then slice text cursor (mark + 3) ++ scan text turns (mark + 3)
        else
          let colon := stopOf isUserChar text (mark + 3)
          if colon = mark + 3 ∨ text[colon]? ≠ some ':'.toUInt8 then
            slice text cursor colon ++ scan text turns colon
          else
            let stop := stopOf (fun c => !isSpace c) text (colon + 1)
            match rfind '@'.toUInt8 (text.take stop) with
            | none => slice text cursor stop ++ scan text turns stop
            | some i =>
              if i < colon + 2 then slice text cursor stop ++ scan text turns stop
              else slice text cursor (colon + 1) ++ lit placeholder ++ lit ['@'] ++ scan text turns (i + 1)
    else []

def redactIn (text : List UInt8) : List UInt8 := scan text text.length 0

end Cpp

end ShipInfer.Redact
