import Mathlib.Data.List.Basic

/-!
# JSON text

A JSON value and the one line of text `json.dumps` writes for it: no blanks, and
every character that is not printable ASCII escaped. How a number is spelled is
a parameter.
-/

namespace ShipInfer

inductive Json (ρ : Type)
  | null
  | bool (b : Bool)
  | int (n : Int)
  | number (x : ρ)
  | string (s : String)
  | array (items : List (Json ρ))
  | object (entries : List (String × Json ρ))

namespace Json

def hexDigit (n : Nat) : Char := if n < 10 then Char.ofNat (48 + n) else Char.ofNat (87 + n)

/-- The format `04x` of a number below 2^16. -/
def hex4 (n : Nat) : String :=
  String.ofList [hexDigit (n / 4096 % 16), hexDigit (n / 256 % 16), hexDigit (n / 16 % 16), hexDigit (n % 16)]

/-- A code point as escapes: one from the basic plane, a surrogate pair else. -/
def escapeCode (n : Nat) : String :=
  if n < 0x10000 then "\\u" ++ hex4 n
  else "\\u" ++ hex4 (0xD800 + (n - 0x10000) / 1024) ++ "\\u" ++ hex4 (0xDC00 + (n - 0x10000) % 1024)

def escapeChar (c : Char) : String :=
  if c = '\\' then "\\\\"
  else if c = '"' then "\\\""
  else if 32 ≤ c.toNat ∧ c.toNat ≤ 126 then String.singleton c
  else if c.toNat = 8 then "\\b"
  else if c.toNat = 9 then "\\t"
  else if c.toNat = 10 then "\\n"
  else if c.toNat = 12 then "\\f"
  else if c.toNat = 13 then "\\r"
  else escapeCode c.toNat

def escape : List Char → String
  | [] => ""
  | c :: cs => escapeChar c ++ escape cs

def quote (s : String) : String := "\"" ++ escape s.toList ++ "\""

/-- Texts one after the other, with commas between them. -/
def commas : List String → String
  | [] => ""
  | t :: ts => t ++ ts.foldr (fun t rest => "," ++ t ++ rest) ""

section
variable {ρ : Type} (spell : ρ → String)

mutual

def dumps : Json ρ → String
  | null => "null"
  | bool b => if b then "true" else "false"
  | int n => toString n
  | number x => spell x
  | string s => quote s
  | array items => "[" ++ commas (dumpsItems items) ++ "]"
  | object entries => "\x7b" ++ commas (dumpsEntries entries) ++ "\x7d"

def dumpsItems : List (Json ρ) → List String
  | [] => []
  | v :: rest => dumps v :: dumpsItems rest

def dumpsEntries : List (String × Json ρ) → List String
  | [] => []
  | (k, v) :: rest => (quote k ++ ":" ++ dumps v) :: dumpsEntries rest

end

@[simp] theorem dumps_bool (b : Bool) : dumps spell (.bool b) = if b then "true" else "false" := by rw [dumps]

@[simp] theorem dumps_int (n : Int) : dumps spell (.int n) = toString n := by rw [dumps]

@[simp] theorem dumps_string (s : String) : dumps spell (.string s) = quote s := by rw [dumps]

@[simp] theorem dumpsItems_map {α : Type} (f : α → Json ρ) (l : List α) :
    dumpsItems spell (l.map f) = l.map fun a => dumps spell (f a) := by
  induction l with
  | nil => rfl
  | cons a l ih => simp only [List.map_cons, dumpsItems, ih]

theorem dumpsEntries_eq_map (l : List (String × Json ρ)) :
    dumpsEntries spell l = l.map fun p => quote p.1 ++ ":" ++ dumps spell p.2 := by
  induction l with
  | nil => rfl
  | cons p l ih => simp only [List.map_cons, dumpsEntries, ih]

@[simp] theorem dumpsEntries_append (l l' : List (String × Json ρ)) :
    dumpsEntries spell (l ++ l') = dumpsEntries spell l ++ dumpsEntries spell l' := by
  simp only [dumpsEntries_eq_map, List.map_append]

end

/-- An optional value, `null` where there is none. -/
def orNull {ρ α : Type} (f : α → Json ρ) : Option α → Json ρ
  | none => null
  | some a => f a

end Json

end ShipInfer
