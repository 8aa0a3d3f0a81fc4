import Mathlib.Logic.Relation
import Mathlib.Data.List.Induction
import Mathlib.Data.List.Perm.Basic

/-!
# Machines: labelled steps, runs, invariants and lockstep simulation

A machine has initial states and labelled steps. A safety property of every
interleaving is an invariant: it holds initially and every step keeps it
(`Reachable.invariant`). What may only grow along a run is a preorder that
every step respects (`Run.grows`). A machine given by a function (`ofFn`)
answers each input with an output; two such machines that stay related answer
a whole script alike (`exec_sim`).
-/

namespace ShipInfer

/-- Initial states and labelled steps. -/
structure Machine (σ : Type*) (ℓ : Type*) where
  init : σ → Prop
  step : σ → ℓ → σ → Prop

namespace Machine

variable {σ ℓ ι ο τ : Type*}

/-- `Run M s ls t`: the labels `ls`, in order, lead from `s` to `t`. -/
inductive Run (M : Machine σ ℓ) : σ → List ℓ → σ → Prop
  | nil (s : σ) : Run M s [] s
  | snoc {s t u : σ} {ls : List ℓ} {l : ℓ} : Run M s ls t → M.step t l u → Run M s (ls ++ [l]) u

/-- A state some run from an initial state ends in. -/
def Reachable (M : Machine σ ℓ) (s : σ) : Prop := ∃ s₀ ls, M.init s₀ ∧ M.Run s₀ ls s

/-- The machine whose steps are those of `M` that meet the condition `C`. -/
def restrict (M : Machine σ ℓ) (C : σ → ℓ → Prop) : Machine σ ℓ where
  init := M.init
  step s l t := M.step s l t ∧ C s l

section
variable {M : Machine σ ℓ}

theorem Reachable.init {s : σ} (h : M.init s) : M.Reachable s := ⟨s, [], h, .nil s⟩

theorem Reachable.step {s t : σ} {l : ℓ} (h : M.Reachable s) (hst : M.step s l t) : M.Reachable t := by
  obtain ⟨s₀, ls, h₀, hr⟩ := h
  exact ⟨s₀, ls ++ [l], h₀, hr.snoc hst⟩

theorem Reachable.run {s t : σ} {ls : List ℓ} (h : M.Reachable s) (hr : M.Run s ls t) : M.Reachable t := by
  induction hr with
  | nil => exact h
  | snoc _ hst ih => exact ih.step hst

theorem Run.invariant {I : σ → Prop} (hstep : ∀ s l t, I s → M.step s l t → I t) {s t : σ} {ls : List ℓ}
    (hr : M.Run s ls t) (hs : I s) : I t := by
  induction hr with
  | nil => exact hs
  | snoc _ hst ih => exact hstep _ _ _ ih hst

/-- **Invariant rule.** -/
theorem Reachable.invariant {I : σ → Prop} (hinit : ∀ s, M.init s → I s)
    (hstep : ∀ s l t, I s → M.step s l t → I t) {s : σ} (h : M.Reachable s) : I s := by
  obtain ⟨s₀, ls, h₀, hr⟩ := h
  exact hr.invariant hstep (hinit s₀ h₀)

/-- An invariant proved of the steps from reachable states only. -/
theorem Reachable.induction {I : σ → Prop} (hinit : ∀ s, M.init s → I s)
    (hstep : ∀ s l t, M.Reachable s → I s → M.step s l t → I t) {s : σ} (h : M.Reachable s) : I s := by
  have key : M.Reachable s ∧ I s := h.invariant (I := fun s => M.Reachable s ∧ I s)
    (fun s h₀ => ⟨.init h₀, hinit s h₀⟩) (fun s l t hs hst => ⟨hs.1.step hst, hstep s l t hs.1 hs.2 hst⟩)
  exact key.2

/-- What every step from a state of the invariant respects, the whole run respects. -/
theorem Run.grows {I : σ → Prop} {R : σ → σ → Prop} (hI : ∀ s l t, I s → M.step s l t → I t)
    (hrefl : ∀ s, R s s) (htrans : ∀ s t u, R s t → R t u → R s u)
    (hstep : ∀ s l t, I s → M.step s l t → R s t) {s t : σ} {ls : List ℓ} (hr : M.Run s ls t) (hs : I s) :
    R s t := by
  induction hr with
  | nil => exact hrefl _
  | snoc hr hst ih =>
    exact htrans _ _ _ ih (hstep _ _ _ (hr.invariant hI hs) hst)

end

/-- A script of a partial step function is a run. -/
theorem reachable_foldlM {M : Machine σ ℓ} {f : σ → ℓ → Option σ} (hf : ∀ s l t, f s l = some t → M.step s l t) :
    ∀ (ls : List ℓ) {s t : σ}, M.Reachable s → ls.foldlM f s = some t → M.Reachable t
  | [], _, _, hs, h => Option.some.inj h ▸ hs
  | l :: ls, s, t, hs, h => by
    rw [List.foldlM_cons] at h
    obtain ⟨u, hu, hrest⟩ := Option.bind_eq_some_iff.mp h
    exact reachable_foldlM hf ls (hs.step (hf s l u hu)) hrest

/-! ## Machines given by a function -/

/-- The machine of a step function: a label is an input with the output it got. -/
def ofFn (start : σ → Prop) (f : σ → ι → σ × ο) : Machine σ (ι × ο) where
  init := start
  step s l t := f s l.1 = (t, l.2)

/-- Feeding a script to a step function: the last state and the outputs in order. -/
def exec (f : σ → ι → σ × ο) : σ → List ι → σ × List ο
  | s, [] => (s, [])
  | s, i :: is =>
    let r := f s i
    let q := exec f r.1 is
    (q.1, r.2 :: q.2)

theorem ofFn_step {start : σ → Prop} {f : σ → ι → σ × ο} {s t : σ} {l : ι × ο} :
    (ofFn start f).step s l t ↔ f s l.1 = (t, l.2) := Iff.rfl

theorem exec_append {f : σ → ι → σ × ο} : ∀ (is js : List ι) (s : σ),
    exec f s (is ++ js) = ((exec f (exec f s is).1 js).1, (exec f s is).2 ++ (exec f (exec f s is).1 js).2)
  | [], _, _ => rfl
  | i :: is, js, s => by
    simp only [List.cons_append, exec, exec_append is js]

/-- **Invariant rule** for what relates a state to all the outputs on the way to it. -/
theorem exec_induction {f : σ → ι → σ × ο} {I : List ο → σ → Prop} {s : σ} (hinit : I [] s)
    (hstep : ∀ os s i, I os s → I (os ++ [(f s i).2]) (f s i).1) (is : List ι) :
    I (exec f s is).2 (exec f s is).1 := by
  induction is using List.reverseRecOn with
  | nil => exact hinit
  | append_singleton is i ih =>
    rw [exec_append]
    exact hstep _ _ i ih

/-- Feeding a script is a run. -/
theorem reachable_exec {start : σ → Prop} {f : σ → ι → σ × ο} : ∀ (is : List ι) {s : σ},
    (ofFn start f).Reachable s → (ofFn start f).Reachable (exec f s is).1
  | [], _, hs => hs
  | i :: is, s, hs => reachable_exec is (hs.step (l := (i, (f s i).2)) rfl)

/-- Every step of the script, fed from `s`, meets the condition `C`. -/
def Along (f : σ → ι → σ × ο) (C : σ → ι → Prop) : σ → List ι → Prop
  | _, [] => True
  | s, i :: is => C s i ∧ Along f C (f s i).1 is

instance decidableAlong {f : σ → ι → σ × ο} {C : σ → ι → Prop} [∀ s i, Decidable (C s i)] :
    ∀ (s : σ) (is : List ι), Decidable (Along f C s is)
  | _, [] => .isTrue trivial
  | s, i :: is =>
    have := decidableAlong (f := f) (C := C) (f s i).1 is
    inferInstanceAs (Decidable (C s i ∧ _))

theorem along_true {f : σ → ι → σ × ο} : ∀ (s : σ) (is : List ι), Along f (fun _ _ => True) s is
  | _, [] => trivial
  | s, i :: is => ⟨trivial, along_true (f s i).1 is⟩

theorem Along.and {f : σ → ι → σ × ο} {C D : σ → ι → Prop} : ∀ {s : σ} {is : List ι}, Along f C s is → Along f D s is →
    Along f (fun s i => C s i ∧ D s i) s is
  | _, [], _, _ => trivial
  | _, _ :: _, hC, hD => ⟨⟨hC.1, hD.1⟩, hC.2.and hD.2⟩

theorem along_append {f : σ → ι → σ × ο} {C : σ → ι → Prop} : ∀ {s : σ} (is : List ι) {js : List ι},
    Along f C s (is ++ js) ↔ Along f C s is ∧ Along f C (exec f s is).1 js
  | _, [], _ => by simp [Along, exec]
  | _, _ :: is, _ => by simp only [List.cons_append, Along, exec, along_append is, and_assoc]

theorem Along.append {f : σ → ι → σ × ο} {C : σ → ι → Prop} {s : σ} (is : List ι) {js : List ι}
    (h : Along f C s (is ++ js)) : Along f C s is ∧ Along f C (exec f s is).1 js :=
  (along_append is).mp h

theorem along_snoc {f : σ → ι → σ × ο} {C : σ → ι → Prop} {s : σ} (is : List ι) (i : ι) :
    Along f C s (is ++ [i]) ↔ Along f C s is ∧ C (exec f s is).1 i := by
  rw [along_append]
  simp [Along]

theorem exec_snoc {f : σ → ι → σ × ο} (is : List ι) (i : ι) (s : σ) :
    exec f s (is ++ [i]) = ((f (exec f s is).1 i).1, (exec f s is).2 ++ [(f (exec f s is).1 i).2]) :=
  exec_append is [i] s

/-- **Invariant rule** for what relates a state to all the outputs on the way to
it, along the scripts whose steps meet `C`. -/
theorem Along.induction {f : σ → ι → σ × ο} {C : σ → ι → Prop} : ∀ {I : List ο → σ → Prop},
    (∀ os s i, I os s → C s i → I (os ++ [(f s i).2]) (f s i).1) → ∀ (is : List ι) {s : σ}, Along f C s is → I [] s →
      I (exec f s is).2 (exec f s is).1
  | _, _, [], _, _, hI => hI
  | I, hstep, i :: is, s, hC, hI =>
    Along.induction (I := fun os t => I ((f s i).2 :: os) t) (fun os t j => hstep ((f s i).2 :: os) t j) is hC.2
      (hstep [] s i hI hC.1)

/-- **Ledger.** What is inside at first and what comes in along a script is what goes
out along it and what is inside at last, when every step that meets `C` keeps such a
ledger. -/
theorem Along.ledger {α : Type*} {f : σ → ι → σ × ο} {C : σ → ι → Prop} {inside : σ → List α} {come go : ο → List α}
    {I : σ → Prop} (h : ∀ s i, I s → C s i →
      I (f s i).1 ∧ (inside s ++ come (f s i).2).Perm (go (f s i).2 ++ inside (f s i).1)) :
    ∀ (is : List ι) {s : σ}, Along f C s is → I s → I (exec f s is).1 ∧
      (inside s ++ (exec f s is).2.flatMap come).Perm ((exec f s is).2.flatMap go ++ inside (exec f s is).1)
  | [], s, _, hs => ⟨hs, by simp [exec]⟩
  | i :: is, s, hC, hs => by
    obtain ⟨hI, hstep⟩ := h s i hs hC.1
    obtain ⟨hI', hrest⟩ := Along.ledger h is hC.2 hI
    refine ⟨hI', ?_⟩
    simp only [exec, List.flatMap_cons]
    rw [← List.append_assoc, List.append_assoc (go _)]
    refine (hstep.append_right _).trans ?_
    rw [List.append_assoc]
    exact hrest.append_left _

/-- The ledger along any script. -/
theorem exec_ledger {α : Type*} {f : σ → ι → σ × ο} {inside : σ → List α} {come go : ο → List α} {I : σ → Prop}
    (h : ∀ s i, I s → I (f s i).1 ∧ (inside s ++ come (f s i).2).Perm (go (f s i).2 ++ inside (f s i).1))
    (is : List ι) {s : σ} (hs : I s) : I (exec f s is).1 ∧
      (inside s ++ (exec f s is).2.flatMap come).Perm ((exec f s is).2.flatMap go ++ inside (exec f s is).1) :=
  Along.ledger (fun s i hI _ => h s i hI) is (along_true s is) hs

/-- **Invariant rule** along a script whose steps meet `C`, at every point of it. -/
theorem Along.invariant {f : σ → ι → σ × ο} {C : σ → ι → Prop} {P : σ → Prop}
    (hstep : ∀ s i, P s → C s i → P (f s i).1) : ∀ (is : List ι) {s : σ}, P s → Along f C s is →
      ∀ js, js <+: is → P (exec f s js).1
  | _, _, hs, _, [], _ => hs
  | [], _, _, _, _ :: _, hjs => (List.not_mem_nil (hjs.subset List.mem_cons_self)).elim
  | i :: is, s, hs, ⟨hC, hrest⟩, j :: js, hjs => by
    obtain ⟨rfl, hjs'⟩ := List.cons_prefix_cons.mp hjs
    exact Along.invariant hstep is (hstep s j hs hC) hrest js hjs'

/-- Conditions that agree where the invariant `I` holds agree along every script. -/
theorem along_congr {f : σ → ι → σ × ο} {C D : σ → ι → Prop} {I : σ → Prop} (hI : ∀ s i, I s → I (f s i).1)
    (h : ∀ s i, I s → (C s i ↔ D s i)) : ∀ (is : List ι) {s : σ}, I s → (Along f C s is ↔ Along f D s is)
  | [], _, _ => Iff.rfl
  | i :: is, s, hs => and_congr (h s i hs) (along_congr hI h is (hI s i hs))

/-- A property that a step keeps just when it meets `C` holds at every point of a
script just when all steps of it meet `C`. -/
theorem along_iff {f : σ → ι → σ × ο} {C : σ → ι → Prop} {P : σ → Prop}
    (hstep : ∀ s i, P s → (P (f s i).1 ↔ C s i)) : ∀ (is : List ι) {s : σ}, P s →
      ((∀ js, js <+: is → P (exec f s js).1) ↔ Along f C s is)
  | is, s, hs => by
    refine ⟨fun h => ?_, Along.invariant (fun s i hs => (hstep s i hs).mpr) is hs⟩
    cases is with
    | nil => trivial
    | cons i is =>
      have hi : P (f s i).1 := h [i] (List.prefix_append [i] is)
      refine ⟨(hstep s i hs).mp hi, (along_iff hstep is hi).mp fun js hjs => ?_⟩
      exact h (i :: js) ((List.prefix_cons_inj i).mpr hjs)

/-- A property that under the invariant `I` a step keeps just when it meets `C`. -/
theorem along_iff_of {f : σ → ι → σ × ο} {C : σ → ι → Prop} {I P : σ → Prop} (hI : ∀ s i, I s → I (f s i).1)
    (hstep : ∀ s i, I s → P s → (P (f s i).1 ↔ C s i)) (is : List ι) {s : σ} (hs : I s) (hp : P s) :
    (∀ js, js <+: is → P (exec f s js).1) ↔ Along f C s is := by
  have hinv : ∀ js, js <+: is → I (exec f s js).1 := Along.invariant (fun s i hs _ => hI s i hs) is hs (along_true s is)
  have key := along_iff (f := f) (C := C) (P := fun s => I s ∧ P s)
    (fun s i hs => ⟨fun h => (hstep s i hs.1 hs.2).mp h.2, fun h => ⟨hI s i hs.1, (hstep s i hs.1 hs.2).mpr h⟩⟩) is ⟨hs, hp⟩
  rw [← key]
  exact forall₂_congr fun js hjs => ⟨fun h => ⟨hinv js hjs, h⟩, fun h => h.2⟩

/-- A property with a strengthening `Q`, on the scripts whose steps meet `V`: when from
a state of `Q` a step has the property just when it meets `C`, and then keeps `Q`. -/
theorem along_iff_while {f : σ → ι → σ × ο} {V C : σ → ι → Prop} {P Q : σ → Prop} (hQ : ∀ s, Q s → P s)
    (hstep : ∀ s i, Q s → V s i → (P (f s i).1 → C s i) ∧ (C s i → Q (f s i).1)) : ∀ (is : List ι) {s : σ}, Q s →
      Along f V s is → ((∀ js, js <+: is → P (exec f s js).1) ↔ Along f C s is)
  | [], s, hs, _ => by
    refine ⟨fun _ => trivial, fun _ js hjs => ?_⟩
    rw [List.prefix_nil.mp hjs]
    exact hQ s hs
  | i :: is, s, hs, ⟨hV, hrest⟩ => by
    obtain ⟨hto, hfrom⟩ := hstep s i hs hV
    constructor
    · intro h
      have hC := hto (h [i] (List.prefix_append [i] is))
      refine ⟨hC, (along_iff_while hQ hstep is (hfrom hC) hrest).mp fun js hjs => ?_⟩
      exact h (i :: js) ((List.prefix_cons_inj i).mpr hjs)
    · rintro ⟨hC, hC'⟩ js hjs
      have hlater := (along_iff_while hQ hstep is (hfrom hC) hrest).mpr hC'
      cases js with
      | nil => exact hQ s hs
      | cons j js =>
        obtain ⟨rfl, hjs'⟩ := List.cons_prefix_cons.mp hjs
        exact hlater js hjs'

/-- **Lockstep simulation.** Related states that answer every input alike and
stay related, on the inputs that meet `C`, answer a whole script alike. -/
theorem exec_sim {f : σ → ι → σ × ο} {g : τ → ι → τ × ο} {R : σ → τ → Prop} {C : σ → ι → Prop}
    (h : ∀ s t i, R s t → C s i → R (f s i).1 (g t i).1 ∧ (f s i).2 = (g t i).2) :
    ∀ (is : List ι) (s : σ) (t : τ), R s t → Along f C s is →
      R (exec f s is).1 (exec g t is).1 ∧ (exec f s is).2 = (exec g t is).2
  | [], _, _, hR, _ => ⟨hR, rfl⟩
  | i :: is, s, t, hR, hC => by
    obtain ⟨hR', ho⟩ := h s t i hR hC.1
    obtain ⟨hR'', hos⟩ := exec_sim h is _ _ hR' hC.2
    exact ⟨hR'', by simp only [exec, ho, hos]⟩

/-- **Lockstep simulation** where the answers are related, not the same. -/
theorem exec_related {ο' : Type*} {f : σ → ι → σ × ο} {g : τ → ι → τ × ο'} {R : σ → τ → Prop} {Q : ο → ο' → Prop}
    (h : ∀ s t i, R s t → R (f s i).1 (g t i).1 ∧ Q (f s i).2 (g t i).2) : ∀ (is : List ι) (s : σ) (t : τ), R s t →
      R (exec f s is).1 (exec g t is).1 ∧ List.Forall₂ Q (exec f s is).2 (exec g t is).2
  | [], _, _, hR => ⟨hR, .nil⟩
  | i :: is, s, t, hR => by
    obtain ⟨hR', hQ⟩ := h s t i hR
    obtain ⟨hR'', hQs⟩ := exec_related h is _ _ hR'
    exact ⟨hR'', .cons hQ hQs⟩

/-- **Lockstep agreement.** Related states that answer an input alike just when it
meets `C`, and then stay related, answer a whole script alike just when all of it
meets `C`. -/
theorem exec_related_iff {ο' : Type*} {f : σ → ι → σ × ο} {g : τ → ι → τ × ο'} {R : σ → τ → Prop} {Q : ο → ο' → Prop}
    {C : σ → ι → Prop} (h : ∀ s t i, R s t → (Q (f s i).2 (g t i).2 ↔ C s i) ∧ (C s i → R (f s i).1 (g t i).1)) :
    ∀ (is : List ι) (s : σ) (t : τ), R s t → (List.Forall₂ Q (exec f s is).2 (exec g t is).2 ↔ Along f C s is)
  | [], _, _, _ => ⟨fun _ => trivial, fun _ => .nil⟩
  | i :: is, s, t, hR => by
    obtain ⟨hiff, hkeep⟩ := h s t i hR
    show List.Forall₂ Q (_ :: _) (_ :: _) ↔ C s i ∧ _
    rw [List.forall₂_cons, hiff]
    exact and_congr_right fun hC => exec_related_iff h is _ _ (hkeep hC)

end Machine

end ShipInfer
