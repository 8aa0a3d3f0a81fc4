import Mathlib.Data.List.Basic

/-!
# Caps

What an element hands over and what the next one will take, `topology/caps.py`:
a format and a memory, each of which a declaration may leave open.
-/

namespace ShipInfer.Chain

/-- A lowercase token that starts with a letter. -/
def IsToken (s : String) : Prop :=
  match s.toList with
  | [] => False
  | c :: cs => c.isLower = true ∧ ∀ d ∈ cs, d.isLower || d.isDigit || d == '_'

instance (s : String) : Decidable (IsToken s) := by
  unfold IsToken
  split
  · exact instDecidableFalse
  · exact @instDecidableAnd _ _ (instDecidableEqBool _ _) (List.decidableBAll _ _)

structure Format where
  token : String
  legal : IsToken token
  deriving DecidableEq

inductive Location
  | gpu
  | cpu
  deriving DecidableEq

/-- One half of a cap; `any` is the wildcard. -/
inductive Half (α : Type)
  | any
  | only (value : α)
  deriving DecidableEq

namespace Half

variable {α : Type}

/-- The side that is concrete. -/
def resolve : Half α → Half α → Half α
  | any, b => b
  | only a, _ => only a

theorem resolve_of_ne_any {a b : Half α} (h : a ≠ any) : a.resolve b = a := by
  cases a with
  | any => exact absurd rfl h
  | only a => rfl

variable [DecidableEq α]

/-- The same value, or either side unconstrained. -/
def matchesWith : Half α → Half α → Bool
  | any, _ | _, any => true
  | only a, only b => a = b

/-- What two sides settle on, the second takes. -/
theorem resolve_matchesWith {a b : Half α} (h : a.matchesWith b = true) : (a.resolve b).matchesWith b = true := by
  cases a with
  | any => cases b <;> simp [resolve, Half.matchesWith]
  | only a => exact h

end Half

structure Caps where
  format : Half Format
  location : Half Location
  deriving DecidableEq

namespace Caps

/-- Either half is unconstrained. -/
def isWildcard (c : Caps) : Bool := c.format = .any ∨ c.location = .any

/-- Both halves agree. -/
def matchesWith (c d : Caps) : Bool := c.format.matchesWith d.format && c.location.matchesWith d.location

/-- The cap two declarations settle on; none when they do not match. -/
def resolve (c d : Caps) : Option Caps :=
  if c.matchesWith d then some ⟨c.format.resolve d.format, c.location.resolve d.location⟩ else none

end Caps

/-- The cap an edge will carry: the first produced that any accepted takes. -/
def negotiate (produced accepted : List Caps) : Option Caps :=
  produced.findSome? fun candidate => accepted.findSome? fun target => candidate.resolve target

/-- Some cap of the list takes this one. -/
def Caps.TakenBy (c : Caps) (accepted : List Caps) : Prop := ∃ target ∈ accepted, c.matchesWith target = true

instance (c : Caps) (accepted : List Caps) : Decidable (c.TakenBy accepted) :=
  inferInstanceAs (Decidable (∃ target ∈ accepted, _))

theorem Caps.resolve_spec {c d r : Caps} (h : c.resolve d = some r) :
    c.matchesWith d = true ∧ r.matchesWith d = true ∧ (c.format ≠ .any → r.format = c.format) ∧
      (c.location ≠ .any → r.location = c.location) := by
  unfold resolve at h
  split at h
  · rename_i hm
    obtain rfl := Option.some.inj h
    obtain ⟨hf, hl⟩ := (Bool.and_eq_true _ _).mp hm
    refine ⟨hm, (Bool.and_eq_true _ _).mpr ⟨Half.resolve_matchesWith hf, Half.resolve_matchesWith hl⟩, ?_, ?_⟩
    · exact Half.resolve_of_ne_any
    · exact Half.resolve_of_ne_any
  · cases h

/-- What is negotiated comes from a produced cap, whose concrete halves it keeps, and is taken. -/
theorem negotiate_spec {produced accepted : List Caps} {c : Caps} (h : negotiate produced accepted = some c) :
    c.TakenBy accepted ∧ ∃ p ∈ produced, (p.format ≠ .any → c.format = p.format) ∧
      (p.location ≠ .any → c.location = p.location) := by
  obtain ⟨p, hp, hsome⟩ := List.exists_of_findSome?_eq_some h
  obtain ⟨target, ht, hres⟩ := List.exists_of_findSome?_eq_some hsome
  obtain ⟨-, htaken, hformat, hlocation⟩ := Caps.resolve_spec hres
  exact ⟨⟨target, ht, htaken⟩, p, hp, hformat, hlocation⟩

/-- A cap alone is negotiated just when it is taken. -/
theorem takenBy_of_negotiate {c d : Caps} {accepted : List Caps} (h : negotiate [c] accepted = some d) :
    c.TakenBy accepted := by
  obtain ⟨p, hp, hsome⟩ := List.exists_of_findSome?_eq_some h
  obtain ⟨target, ht, hres⟩ := List.exists_of_findSome?_eq_some hsome
  obtain rfl := List.mem_singleton.mp hp
  exact ⟨target, ht, (Caps.resolve_spec hres).1⟩

end ShipInfer.Chain
