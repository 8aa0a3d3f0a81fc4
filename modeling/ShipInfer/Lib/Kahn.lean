import Mathlib.Data.List.Nodup
import Mathlib.Data.List.Perm.Subperm
import Mathlib.Data.List.Basic
import Mathlib.Logic.Function.Basic
import Mathlib.Logic.Relation

/-!
# Kahn's algorithm

A queue of the elements all of whose inputs are out, started with those that
have none. Whatever the graph, each element that comes out comes out once and
after its inputs; if all come out the list is a topological order, and one that
does not come out waits for another that does not.
-/

namespace ShipInfer.Kahn

variable {α : Type*}

/-- Each element of the list comes after its inputs, of which some are done before it. -/
def Forward (inputs : α → List α) : List α → List α → Prop
  | _, [] => True
  | done, a :: l => inputs a ⊆ done ∧ Forward inputs (done ++ [a]) l

theorem forward_snoc {inputs : α → List α} {a : α} : ∀ {l done : List α},
    Forward inputs done (l ++ [a]) ↔ Forward inputs done l ∧ inputs a ⊆ done ++ l
  | [], done => by simp [Forward]
  | b :: l, done => by
    rw [List.cons_append, Forward, forward_snoc, Forward, and_assoc, List.append_assoc, List.singleton_append]

theorem Forward.before {inputs : α → List α} {a : α} {post : List α} : ∀ {pre done : List α},
    Forward inputs done (pre ++ a :: post) → inputs a ⊆ done ++ pre
  | [], done, h => by simpa using h.1
  | b :: pre, done, h => by simpa using Forward.before h.2

/-- A closed walk that meets no element twice: each has an edge to the next, and the last to the first. -/
def IsCycle (edge : α → α → Prop) (l : List α) : Prop :=
  l.Nodup ∧ ∃ first rest, l = first :: rest ∧ (l ++ [first]).IsChain edge

def Acyclic (edge : α → α → Prop) : Prop := ∀ a, ¬Relation.TransGen edge a a

theorem transGen_of_isChain {edge : α → α → Prop} {b : α} : ∀ {l : List α} {a : α},
    (a :: l ++ [b]).IsChain edge → Relation.TransGen edge a b
  | [], a, h => .single (by simpa using h)
  | c :: l, a, h => by
    obtain ⟨hac, hrest⟩ := List.isChain_cons_cons.mp h
    exact .head hac (transGen_of_isChain hrest)

theorem IsCycle.not_acyclic {edge : α → α → Prop} {l : List α} (h : IsCycle edge l) : ¬Acyclic edge := by
  obtain ⟨-, first, rest, rfl, hchain⟩ := h
  intro hacyclic
  exact hacyclic first (transGen_of_isChain hchain)

/-- What ranks the elements upward along every edge leaves no cycle. -/
theorem acyclic_of_rank {edge : α → α → Prop} (rank : α → Nat) (h : ∀ a b, edge a b → rank a < rank b) :
    Acyclic edge := by
  intro a hcycle
  have hlt : ∀ b, Relation.TransGen edge a b → rank a < rank b := by
    intro b hb
    induction hb with
    | single hedge => exact h _ _ hedge
    | tail _ hedge ih => exact Nat.lt_trans ih (h _ _ hedge)
  exact Nat.lt_irrefl _ (hlt a hcycle)

variable [DecidableEq α]

/-- An input of an element stands before it. -/
theorem Forward.idxOf_lt {inputs : α → List α} {l : List α} {a b : α} (h : Forward inputs [] l) (ha : a ∈ l)
    (hb : b ∈ inputs a) : l.idxOf b < l.idxOf a := by
  obtain ⟨pre, post, rfl, hpre⟩ := List.eq_append_cons_of_mem ha
  have hmem : b ∈ pre := by simpa using h.before hb
  rw [List.idxOf_append_of_mem hmem, List.idxOf_append_of_notMem hpre, List.idxOf_cons_self, Nat.add_zero]
  exact List.idxOf_lt_length_of_mem hmem

/-- A consumer of an element that came out waits for one less. -/
def release (s : (α → Nat) × List α) (c : α) : (α → Nat) × List α :=
  (Function.update s.1 c (s.1 c - 1), if s.1 c - 1 = 0 then s.2 ++ [c] else s.2)

/-- The loop, for at most so many rounds. -/
def loop (consumers : α → List α) : Nat → (α → Nat) → List α → List α → List α
  | 0, _, _, order => order
  | _ + 1, _, [], order => order
  | n + 1, pending, a :: ready, order =>
    let s := (consumers a).foldl release (pending, ready)
    loop consumers n s.1 s.2 (order ++ [a])

/-- What a round does to the counts and to the queue. -/
theorem foldl_release : ∀ {cs : List α} (pending : α → Nat) (ready : List α), cs.Nodup →
    (∀ c, (cs.foldl release (pending, ready)).1 c = if c ∈ cs then pending c - 1 else pending c) ∧
      (cs.foldl release (pending, ready)).2 = ready ++ cs.filter fun c => decide (pending c - 1 = 0)
  | [], _, _, _ => by simp
  | a :: cs, pending, ready, hn => by
    obtain ⟨ha, hcs⟩ := List.nodup_cons.mp hn
    obtain ⟨hpending, hready⟩ := foldl_release (release (pending, ready) a).1 (release (pending, ready) a).2 hcs
    have hother (c : α) (hc : c ≠ a) : (release (pending, ready) a).1 c = pending c := Function.update_of_ne hc _ _
    rw [List.foldl_cons]
    constructor
    · intro c
      rw [hpending]
      by_cases hc : c = a
      · subst hc
        simp [ha, release]
      · simp [hc, hother c hc]
    · rw [hready]
      have hfilter : (cs.filter fun c => decide ((release (pending, ready) a).1 c - 1 = 0)) =
          cs.filter fun c => decide (pending c - 1 = 0) := by
        refine List.filter_congr fun c hc => ?_
        rw [hother c fun heq => ha (heq ▸ hc)]
      rw [hfilter, List.filter_cons]
      simp only [release]
      by_cases hzero : pending a - 1 = 0 <;> simp [hzero]

/-- How many inputs of an element are still to come out. -/
def missing (inputs : α → List α) (order : List α) (c : α) : Nat := (inputs c).countP fun p => decide (p ∉ order)

theorem missing_eq_zero {inputs : α → List α} {order : List α} {c : α} :
    missing inputs order c = 0 ↔ inputs c ⊆ order := by
  simp [missing, List.countP_eq_zero, List.subset_def]

theorem missing_snoc {inputs : α → List α} {order : List α} {a : α} (ha : a ∉ order) {c : α} (hn : (inputs c).Nodup) :
    missing inputs (order ++ [a]) c = if a ∈ inputs c then missing inputs order c - 1 else missing inputs order c := by
  have key : ∀ l : List α, l.Nodup →
      (l.countP fun p => decide (p ∉ order)) = (l.countP fun p => decide (p ∉ order ++ [a])) + if a ∈ l then 1 else 0 := by
    intro l
    induction l with
    | nil => simp
    | cons b l ih =>
      intro hl
      obtain ⟨hb, hl⟩ := List.nodup_cons.mp hl
      rw [List.countP_cons, List.countP_cons, ih hl]
      by_cases hba : b = a
      · subst hba
        simp [ha, hb]
      · have hab : a ≠ b := fun heq => hba heq.symm
        by_cases hbo : b ∈ order <;> simp [hbo, hba, hab]
        omega
  have h := key (inputs c) hn
  unfold missing
  split <;> simp_all

/-- The shape of the loop's state. -/
structure Inv (slots : List α) (inputs : α → List α) (pending : α → Nat) (ready order : List α) : Prop where
  counts : ∀ c ∈ slots, pending c = missing inputs order c
  nodup : (order ++ ready).Nodup
  out : ∀ c, c ∈ order ++ ready ↔ c ∈ slots ∧ pending c = 0
  forward : Forward inputs [] order

variable {slots : List α} {inputs consumers : α → List α} {pending : α → Nat} {ready order : List α}

theorem Inv.round (hin : ∀ c ∈ slots, (inputs c).Nodup) (hcs : ∀ a, (consumers a).Nodup)
    (hiff : ∀ a c, c ∈ consumers a ↔ c ∈ slots ∧ a ∈ inputs c) {a : α}
    (h : Inv slots inputs pending (a :: ready) order) :
    Inv slots inputs ((consumers a).foldl release (pending, ready)).1 ((consumers a).foldl release (pending, ready)).2
      (order ++ [a]) := by
  obtain ⟨hpending, hready⟩ := foldl_release pending ready (hcs a)
  obtain ⟨haslot, hazero⟩ := (h.out a).mp (by simp)
  have haorder : a ∉ order := fun hmem => List.disjoint_of_nodup_append h.nodup hmem List.mem_cons_self
  have hcount (c : α) (hc : c ∈ slots) :
      ((consumers a).foldl release (pending, ready)).1 c = missing inputs (order ++ [a]) c := by
    rw [hpending, missing_snoc haorder (hin c hc), h.counts c hc]
    simp [hiff, hc]
  -- A consumer of `a` has waited for `a`, so it was not out yet.
  have hwaited (c : α) (hc : c ∈ consumers a) : c ∈ slots ∧ 0 < pending c := by
    obtain ⟨hslot, hac⟩ := (hiff a c).mp hc
    refine ⟨hslot, Nat.pos_of_ne_zero fun hzero => haorder ?_⟩
    rw [h.counts c hslot, missing_eq_zero] at hzero
    exact hzero hac
  have hnew (c : α) : c ∈ ((consumers a).foldl release (pending, ready)).2 ↔
      c ∈ ready ∨ c ∈ consumers a ∧ pending c - 1 = 0 := by
    rw [hready]
    simp
  refine ⟨hcount, ?_, fun c => ?_, ?_⟩
  · rw [hready, List.append_assoc, List.singleton_append, ← List.cons_append, ← List.append_assoc]
    refine h.nodup.append ((hcs a).filter _) fun c hc hmem => ?_
    have hzero := ((h.out c).mp hc).2
    have := (hwaited c (List.mem_of_mem_filter hmem)).2
    omega
  · rw [List.append_assoc, List.mem_append, List.singleton_append, List.mem_cons, hnew]
    have hold := h.out c
    rw [List.mem_append, List.mem_cons] at hold
    rw [hpending]
    constructor
    · rintro (hmem | rfl | hmem | ⟨hmem, hzero⟩)
      · obtain ⟨hslot, hz⟩ := hold.mp (.inl hmem)
        exact ⟨hslot, by split <;> omega⟩
      · exact ⟨haslot, by split <;> omega⟩
      · obtain ⟨hslot, hz⟩ := hold.mp (.inr (.inr hmem))
        exact ⟨hslot, by split <;> omega⟩
      · exact ⟨(hwaited c hmem).1, by rw [if_pos hmem]; exact hzero⟩
    · rintro ⟨hslot, hzero⟩
      by_cases hc : c ∈ consumers a
      · rw [if_pos hc] at hzero
        exact .inr (.inr (.inr ⟨hc, hzero⟩))
      · rw [if_neg hc] at hzero
        rcases hold.mpr ⟨hslot, hzero⟩ with hmem | rfl | hmem
        · exact .inl hmem
        · exact .inr (.inl rfl)
        · exact .inr (.inr (.inl hmem))
  · refine forward_snoc.mpr ⟨h.forward, ?_⟩
    rw [List.nil_append, ← missing_eq_zero, ← h.counts a haslot, hazero]

/-- The loop ends with nothing ready, or for want of rounds. -/
theorem loop_inv (hin : ∀ c ∈ slots, (inputs c).Nodup) (hcs : ∀ a, (consumers a).Nodup)
    (hiff : ∀ a c, c ∈ consumers a ↔ c ∈ slots ∧ a ∈ inputs c) : ∀ (n : Nat) {pending : α → Nat} {ready order : List α},
    Inv slots inputs pending ready order → ∃ pending' ready',
      Inv slots inputs pending' ready' (loop consumers n pending ready order) ∧
        (ready' = [] ∨ (loop consumers n pending ready order).length = order.length + n)
  | 0, pending, ready, _, h => ⟨pending, ready, h, .inr rfl⟩
  | _ + 1, pending, [], _, h => ⟨pending, [], h, .inl rfl⟩
  | n + 1, pending, a :: ready, order, h => by
    obtain ⟨pending', ready', hinv, hend⟩ := loop_inv hin hcs hiff n (h.round hin hcs hiff)
    refine ⟨pending', ready', hinv, hend.imp_right fun hlength => ?_⟩
    rw [loop, hlength, List.length_append, List.length_singleton]
    omega

theorem Inv.start (hslots : slots.Nodup) :
    Inv slots inputs (fun c => (inputs c).length) (slots.filter fun c => decide ((inputs c).length = 0)) [] := by
  refine ⟨fun c _ => ?_, hslots.filter _, fun c => by simp, trivial⟩
  rw [missing, eq_comm, List.countP_eq_length]
  simp

/-- **The order.** What comes out comes out once and after its inputs. -/
theorem loop_forward (hin : ∀ c ∈ slots, (inputs c).Nodup) (hcs : ∀ a, (consumers a).Nodup)
    (hiff : ∀ a c, c ∈ consumers a ↔ c ∈ slots ∧ a ∈ inputs c) (hslots : slots.Nodup) (n : Nat) :
    let order := loop consumers n (fun c => (inputs c).length) (slots.filter fun c => decide ((inputs c).length = 0)) []
    order.Nodup ∧ order ⊆ slots ∧ Forward inputs [] order := by
  intro order
  obtain ⟨pending', ready', h, -⟩ := loop_inv hin hcs hiff n (Inv.start hslots)
  exact ⟨h.nodup.of_append_left, fun c hc => ((h.out c).mp (List.mem_append_left _ hc)).1, h.forward⟩

/-- **What is left.** As many rounds as slots are enough: an element that does not come out has an input that does not. -/
theorem loop_stuck (hin : ∀ c ∈ slots, (inputs c).Nodup) (hcs : ∀ a, (consumers a).Nodup)
    (hiff : ∀ a c, c ∈ consumers a ↔ c ∈ slots ∧ a ∈ inputs c) (hslots : slots.Nodup) :
    let order := loop consumers slots.length (fun c => (inputs c).length)
      (slots.filter fun c => decide ((inputs c).length = 0)) []
    ∀ c ∈ slots, c ∉ order → ∃ p ∈ inputs c, p ∉ order := by
  intro order c hc hout
  obtain ⟨pending', ready', h, hend⟩ := loop_inv hin hcs hiff slots.length (Inv.start hslots)
  have hready : ready' = [] := by
    rcases hend with hnil | hlength
    · exact hnil
    · have hsub : order ++ ready' ⊆ slots := fun a ha => ((h.out a).mp ha).1
      have hle := (List.subperm_of_subset h.nodup hsub).length_le
      rw [List.length_append, List.length_nil, Nat.zero_add] at *
      exact List.eq_nil_of_length_eq_zero (by omega)
  have hne : missing inputs order c ≠ 0 := by
    intro hzero
    rw [← h.counts c hc] at hzero
    have hmem := (h.out c).mpr ⟨hc, hzero⟩
    rw [hready, List.append_nil] at hmem
    exact hout hmem
  rw [Ne, missing_eq_zero, List.subset_def] at hne
  simpa using hne

end ShipInfer.Kahn
