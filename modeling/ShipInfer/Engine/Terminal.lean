import ShipInfer.Engine.Execution
import Mathlib.Data.List.Perm.Basic

/-!
# The one terminal transition

Whoever takes an execution out of its unsettled state gives its slot back and ends its
future, and no one else does. So each of the two happens once, and what is left of the
semaphore and the requests that hold a slot make up the capacity.
-/

namespace ShipInfer.Engine

namespace Thread

/-- Past the claim, this thread is the one that ends the request. -/
def owns : Thread → Bool
  | .closing .claim _ _ => false
  | .closing _ _ _ => true
  | _ => false

/-- On its way to the claim. -/
def dooms : Thread → Bool
  | .closing .claim _ _ => true
  | _ => false

/-- On the way to `_begin`'s look at the future. -/
def opens : Thread → Bool
  | .enlisting | .submitting .begin | .entering => true
  | _ => false

end Thread

/-- The future has not come to an end. -/
def CallerFuture.isOpen : CallerFuture → Bool
  | .pending | .running => true
  | _ => false

namespace Flight

section
variable {g : EnsembleGraph} {poolUp : Bool} {f f' : Flight}

/-- What one event does to a request. -/
inductive Moves (g : EnsembleGraph) (f : Flight) : Event → Flight → Prop
  | act {k answer t rest f₁ t'} : f.threads[k]? = some t → f.threads.Perm (t :: rest) → Acts g f answer t f₁ t' →
    Moves g f (.act k answer) { f₁ with threads := rest ++ t'.toList }
  | enters : f.begins = true → f.execution.settled = false →
    Moves g f .begin { f with begins := false, threads := f.threads ++ [Thread.entering] }
  | tooLate : f.begins = true → f.execution.settled = true → Moves g f .begin { f with begins := false }
  | advance : 0 < f.advances →
    Moves g f .advance { f with advances := f.advances - 1, threads := f.threads ++ [Thread.pumping] }
  | stepFailed {k e plan rest} : f.running.Perm (plan :: rest) →
    Moves g f (.finish k (.error e)) { f with running := rest, threads := f.threads ++ [failing (.raised e) none] }
  | ignored {k outputs plan rest} : f.running.Perm (plan :: rest) → f.execution.settled = true →
    Moves g f (.finish k (.ok outputs)) { f with running := rest }
  | stepDone {k outputs plan rest} : f.running[k]? = some plan → f.running.Perm (plan :: rest) →
    f.execution.settled = false →
    Moves g f (.finish k (.ok outputs))
      { f with
        running := rest
        execution := f.execution.stepDone plan outputs
        returned := f.returned ++ [(plan, outputs)]
        threads := f.threads ++ [Thread.submitting .advance] }
  | cancel : f.future = .pending →
    Moves g f .cancel { f with future := .cancelled, settlements := f.settlements + 1 }
  | sweep : f.listed = true → Moves g f .sweep { f with threads := f.threads ++ [failing .stopped none] }

theorem perm_of_getElem? {α : Type*} {l : List α} {k : Nat} {a : α} (h : l[k]? = some a) :
    l.Perm (a :: l.eraseIdx k) := by
  obtain ⟨hk, rfl⟩ := List.getElem?_eq_some_iff.mp h
  exact (List.getElem_cons_eraseIdx_perm hk).symm

theorem acts_threads {answer : Answer} {t : Thread} {f₁ : Flight} {t' : Option Thread} (h : Acts g f answer t f₁ t') :
    f₁.threads = f.threads := by
  cases h <;> first | rfl | skip
  rename_i outcome next
  cases outcome <;> cases f with | mk x future => cases future <;> rfl

theorem moves {e : Event} (h : f.step g poolUp e = some f') : Moves g f e f' := by
  cases e with
  | act k answer =>
    obtain ⟨t, ht, rfl⟩ := Option.map_eq_some_iff.mp h
    exact .act ht (perm_of_getElem? ht) (acts poolUp t)
  | begin =>
    simp only [step] at h
    split at h
    · rename_i hb
      cases h
      by_cases hs : f.execution.settled = true
      · simp only [if_pos hs]
        exact .tooLate hb hs
      · simp only [if_neg hs]
        exact .enters hb (Bool.eq_false_iff.mpr hs)
    · cases h
  | advance =>
    simp only [step] at h
    split at h
    · cases h
      exact .advance ‹_›
    · cases h
  | finish k result =>
    obtain ⟨plan, hplan, rfl⟩ := Option.map_eq_some_iff.mp h
    have hperm := perm_of_getElem? hplan
    cases result with
    | error e => exact .stepFailed hperm
    | ok outputs =>
      unfold finish
      by_cases hs : f.execution.settled = true
      · simp only [if_pos hs]
        exact .ignored hperm hs
      · simp only [if_neg hs]
        exact .stepDone hplan hperm (Bool.eq_false_iff.mpr hs)
  | cancel =>
    simp only [step] at h
    split at h
    · cases h
      exact .cancel ‹_›
    · cases h
  | sweep =>
    simp only [step] at h
    split at h
    · cases h
      exact .sweep ‹_›
    · cases h

end

/-! ## Who ends a request -/

/-- The threads that own the end of the request, at most one. -/
def owners (f : Flight) : List Thread := f.threads.filter Thread.owns

/-- How far the end of a request has come. -/
structure Terminal (f : Flight) : Prop where
  /-- Its future's end is counted. -/
  counted : f.settlements = if f.future.isOpen then 0 else 1
  /-- Before the claim nothing has been given back. -/
  before : f.execution.settled = false → f.owners = [] ∧ f.releases = 0 ∧ ∀ outputs e, f.future ≠ .answered outputs ∧
    f.future ≠ .failed e
  /-- After it there is one owner, until all is done. -/
  after : f.execution.settled = true →
    (f.owners = [] ∧ f.releases = 1 ∧ f.future.isOpen = false ∧ f.listed = false) ∨
      ∃ stage outcome next, f.owners = [.closing stage outcome next] ∧
        (f.releases = if stage = .settle then 1 else 0) ∧ (f.listed = true ↔ stage = .discard)
  /-- An outcome that tells nothing is that of a cancelled future. -/
  nothing : ∀ stage next, .closing stage .nothing next ∈ f.threads → f.future = .cancelled
  /-- Nothing happens to a request before it is in the list. -/
  fresh : .enlisting ∈ f.threads → f.threads = [.enlisting] ∧ f.execution.settled = false ∧ f.listed = false ∧
    f.begins = false ∧ f.advances = 0 ∧ f.running = []
  unlisted : f.listed = false → f.execution.settled = false → .enlisting ∈ f.threads

theorem terminal_accept (inputs : Dict String Tensor) : Terminal (accept inputs) := by
  refine ⟨rfl, fun _ => ⟨rfl, rfl, ?_⟩, ?_, ?_, ?_, ?_⟩
  · simp [accept]
  · simp [accept]
  · simp [accept]
  · simp [accept]
  · simp [accept]

section
variable {g : EnsembleGraph} {poolUp : Bool} {f f' : Flight}

/-- What neither claims nor ends anything keeps all of it. -/
theorem Terminal.same (h : Terminal f) (hsettled : f'.execution.settled = f.execution.settled)
    (hfuture : f'.future = f.future) (hcount : f'.settlements = f.settlements) (hreleases : f'.releases = f.releases)
    (hlisted : f'.listed = f.listed) (howners : f'.owners.Perm f.owners)
    (hnothing : ∀ stage next, .closing stage .nothing next ∈ f'.threads → f.future = .cancelled)
    (hold : .enlisting ∉ f.threads) (hnew : .enlisting ∉ f'.threads) : Terminal f' := by
  refine ⟨?_, fun hs => ?_, fun hs => ?_, fun stage next hmem => ?_, fun hmem => absurd hmem hnew, fun hl hs => ?_⟩
  · rw [hcount, hfuture]
    exact h.counted
  · rw [hsettled] at hs
    obtain ⟨hnone, hzero, hopen⟩ := h.before hs
    rw [hnone] at howners
    rw [hreleases, hfuture]
    exact ⟨howners.eq_nil, hzero, hopen⟩
  · rw [hsettled] at hs
    rw [hreleases, hfuture, hlisted]
    rcases h.after hs with ⟨hnone, hrest⟩ | ⟨stage, outcome, next, hone, hrest⟩
    · rw [hnone] at howners
      exact .inl ⟨howners.eq_nil, hrest⟩
    · rw [hone] at howners
      exact .inr ⟨stage, outcome, next, List.perm_singleton.mp howners, hrest⟩
  · rw [hfuture]
    exact hnothing stage next hmem
  · rw [hlisted] at hl
    rw [hsettled] at hs
    exact absurd (h.unlisted hl hs) hold

theorem owners_perm {t : Thread} {rest : List Thread} (hperm : f.threads.Perm (t :: rest)) :
    f.owners.Perm ((if t.owns then [t] else []) ++ rest.filter Thread.owns) := by
  refine (hperm.filter _).trans ?_
  rw [List.filter_cons]
  split <;> simp

theorem owners_same {t : Thread} {rest more : List Thread} (hperm : f.threads.Perm (t :: rest)) (ht : t.owns = false)
    (hmore : ∀ x ∈ more, x.owns = false) : ((rest ++ more).filter Thread.owns).Perm f.owners := by
  have h := owners_perm hperm
  rw [ht] at h
  have hnil : more.filter Thread.owns = [] := List.filter_eq_nil_iff.mpr fun x hx => by simp [hmore x hx]
  rw [List.filter_append, hnil, List.append_nil]
  exact h.symm

theorem Terminal.not_fresh (h : Terminal f) {t : Thread} {rest : List Thread} (hperm : f.threads.Perm (t :: rest))
    (ht : t ≠ .enlisting) : .enlisting ∉ f.threads := by
  intro hmem
  have hone := (h.fresh hmem).1
  rw [hone] at hperm
  have := List.singleton_perm.mp hperm
  simp_all

theorem resume_plain {next : Option (List StepPlan × Bool)} : ∀ x ∈ resume next, x.owns = false ∧ x ≠ .enlisting ∧
    ∀ stage o n, x ≠ .closing stage o n := by
  intro x hx
  cases next with
  | none => cases hx
  | some p =>
    cases hx
    exact ⟨rfl, by simp, by simp⟩

/-- A turn of a thread that stands in no claim. -/
theorem Terminal.turn (h : Terminal f) {t : Thread} {rest : List Thread} {f₁ : Flight} {t' : Option Thread}
    (hperm : f.threads.Perm (t :: rest)) (ht : t.owns = false) (ht' : t ≠ .enlisting)
    (hsettled : f₁.execution.settled = f.execution.settled) (hfuture : f₁.future = f.future)
    (hcount : f₁.settlements = f.settlements) (hreleases : f₁.releases = f.releases) (hlisted : f₁.listed = f.listed)
    (hnext : ∀ x ∈ t', x.owns = false ∧ x ≠ .enlisting ∧
      ∀ stage next, x = .closing stage .nothing next → f.future = .cancelled) :
    Terminal { f₁ with threads := rest ++ t'.toList } := by
  have hfresh := h.not_fresh hperm ht'
  refine h.same hsettled hfuture hcount hreleases hlisted ?_ (fun stage next hmem => ?_) hfresh fun hmem => ?_
  · exact owners_same hperm ht fun x hx => (hnext x (by simpa using hx)).1
  · rcases List.mem_append.mp hmem with hmem | hmem
    · exact h.nothing stage next (hperm.mem_iff.mpr (List.mem_cons_of_mem _ hmem))
    · exact (hnext _ (by simpa using hmem)).2.2 stage next rfl
  · rcases List.mem_append.mp hmem with hmem | hmem
    · exact hfresh (hperm.mem_iff.mpr (List.mem_cons_of_mem _ hmem))
    · exact (hnext _ (by simpa using hmem)).2.1 rfl

/-- The owner's turn. -/
theorem Terminal.owner (h : Terminal f) {stage : Stage} {outcome : Ending} {next : Option (List StepPlan × Bool)}
    {rest : List Thread} (hperm : f.threads.Perm (.closing stage outcome next :: rest)) (hstage : stage ≠ .claim) :
    f.execution.settled = true ∧ rest.filter Thread.owns = [] ∧ (f.releases = if stage = .settle then 1 else 0) ∧
      (f.listed = true ↔ stage = .discard) ∧ .enlisting ∉ rest := by
  have hown : (Thread.closing stage outcome next).owns = true := by cases stage <;> simp_all [Thread.owns]
  have howners := owners_perm hperm
  rw [if_pos hown] at howners
  have hsettled : f.execution.settled = true := by
    cases hs : f.execution.settled with
    | true => rfl
    | false =>
      rw [(h.before hs).1] at howners
      exact absurd howners.symm.eq_nil (by simp)
  have hfresh := h.not_fresh hperm (by simp)
  refine ⟨hsettled, ?_⟩
  rcases h.after hsettled with ⟨hnone, -⟩ | ⟨stage', outcome', next', hone, hreleases, hlisted⟩
  · rw [hnone] at howners
    exact absurd howners.symm.eq_nil (by simp)
  · rw [hone] at howners
    have heq := List.singleton_perm.mp howners
    simp only [List.singleton_append, List.cons.injEq, Thread.closing.injEq] at heq
    obtain ⟨⟨rfl, -, -⟩, hrest⟩ := heq
    refine ⟨hrest.symm, hreleases, hlisted, fun hmem => hfresh (hperm.mem_iff.mpr (List.mem_cons_of_mem _ hmem))⟩

theorem settle_spec (outcome : Ending) : ∃ future settlements,
    f.settle outcome = { f with future := future, settlements := settlements } := by
  refine ⟨(f.settle outcome).future, (f.settle outcome).settlements, ?_⟩
  cases outcome with
  | nothing => rfl
  | answers outputs => unfold settle; cases f.future <;> rfl
  | fails e => unfold settle; cases f.future <;> rfl

/-- `_settle` ends a future that is open, and leaves one that has come to an end. -/
theorem settle_counted (h : f.settlements = if f.future.isOpen then 0 else 1) {outcome : Ending}
    (hnothing : outcome = .nothing → f.future = .cancelled) :
    (f.settle outcome).settlements = 1 ∧ (f.settle outcome).future.isOpen = false ∧
      (f.future = .cancelled → (f.settle outcome).future = .cancelled) := by
  cases outcome with
  | nothing =>
    have hc := hnothing rfl
    rw [hc] at h
    exact ⟨h, by rw [settle, hc]; rfl, fun h => h⟩
  | answers outputs =>
    unfold settle
    cases hf : f.future <;> simp_all [CallerFuture.isOpen]
  | fails e =>
    unfold settle
    cases hf : f.future <;> simp_all [CallerFuture.isOpen]

theorem Fails.plain {answer : Answer} {t : Thread} {e : RunError} {next : Option (List StepPlan × Bool)}
    (h : Fails f answer t e next) : t.owns = false ∧ t ≠ .enlisting := by
  cases h <;> exact ⟨rfl, by simp⟩

theorem Terminal.act (h : Terminal f) {answer : Answer} {t : Thread} {rest : List Thread} {f₁ : Flight}
    {t' : Option Thread} (hperm : f.threads.Perm (t :: rest)) (hacts : Acts g f answer t f₁ t') :
    Terminal { f₁ with threads := rest ++ t'.toList } := by
  -- A closing thread that goes on hands its outcome on.
  have hthreads {stage stage' : Stage} {outcome : Ending} {next : Option (List StepPlan × Bool)}
      (ht : t = .closing stage outcome next) : ∀ s n, Thread.closing s .nothing n ∈ rest ++ [Thread.closing stage' outcome next] →
        f.future = .cancelled := by
    intro s n hmem
    rcases List.mem_append.mp hmem with hmem | hmem
    · exact h.nothing s n (hperm.mem_iff.mpr (List.mem_cons_of_mem _ hmem))
    · simp only [List.mem_singleton, Thread.closing.injEq] at hmem
      obtain ⟨-, rfl, -⟩ := hmem
      exact h.nothing stage next (hperm.mem_iff.mpr (ht ▸ List.mem_cons_self))
  have hno {stage stage' : Stage} {outcome : Ending} {next : Option (List StepPlan × Bool)}
      (ht : t = .closing stage outcome next) : Thread.enlisting ∉ rest ++ [Thread.closing stage' outcome next] := by
    intro hmem
    have hfresh := h.not_fresh hperm (by simp [ht])
    rcases List.mem_append.mp hmem with hmem | hmem
    · exact hfresh (hperm.mem_iff.mpr (List.mem_cons_of_mem _ hmem))
    · simp at hmem
  cases hacts with
  | enlist =>
    obtain ⟨hone, hs, hl, hb, ha, hr⟩ := h.fresh (hperm.mem_iff.mpr List.mem_cons_self)
    rw [hone] at hperm
    have hrest : rest = [] := by simpa using (List.singleton_perm.mp hperm).symm
    rw [hrest]
    obtain ⟨-, hzero, hopen⟩ := h.before hs
    refine ⟨h.counted, fun _ => ⟨rfl, hzero, hopen⟩, fun hs' => ?_, ?_, ?_, ?_⟩
    · rw [hs] at hs'
      cases hs'
    · simp
    · simp
    · simp
  | begins => exact h.turn hperm rfl (by simp) rfl rfl rfl rfl rfl (by simp)
  | advances => exact h.turn hperm rfl (by simp) rfl rfl rfl rfl rfl (by simp)
  | fail hfails =>
    refine h.turn hperm hfails.plain.1 hfails.plain.2 rfl rfl rfl rfl rfl fun x hx => ?_
    cases hx
    exact ⟨rfl, by simp [failing], fun stage next heq => by simp [failing] at heq⟩
  | enter hf =>
    have hfresh := h.not_fresh hperm (by simp)
    refine ⟨?_, fun hs => ?_, fun hs => ?_, fun stage next hmem => ?_, fun hmem => ?_, fun hl hs => ?_⟩
    · have hcount := h.counted
      rw [hf] at hcount
      exact hcount
    · obtain ⟨hnone, hzero, -⟩ := h.before hs
      have howners := @owners_same _ _ _ [.pumping] hperm rfl (by simp [Thread.owns])
      rw [hnone] at howners
      exact ⟨howners.eq_nil, hzero, fun _ _ => ⟨by simp, by simp⟩⟩
    · have howners := @owners_same _ _ _ [.pumping] hperm rfl (by simp [Thread.owns])
      rcases h.after hs with ⟨-, -, hopen, -⟩ | ⟨stage, outcome, next, hone, hrest⟩
      · rw [hf] at hopen
        cases hopen
      · rw [hone] at howners
        exact .inr ⟨stage, outcome, next, List.perm_singleton.mp howners, hrest⟩
    · rcases List.mem_append.mp hmem with hmem | hmem
      · have hc := h.nothing stage next (hperm.mem_iff.mpr (List.mem_cons_of_mem _ hmem))
        rw [hf] at hc
        cases hc
      · simp at hmem
    · rcases List.mem_append.mp hmem with hmem | hmem
      · exact absurd (hperm.mem_iff.mpr (List.mem_cons_of_mem _ hmem)) hfresh
      · simp at hmem
    · exact absurd (h.unlisted hl hs) hfresh
  | retire hf =>
    refine h.turn hperm rfl (by simp) rfl rfl rfl rfl rfl fun x hx => ?_
    cases hx
    exact ⟨rfl, by simp, fun _ _ _ => hf⟩
  | late => exact h.turn hperm rfl (by simp) rfl rfl rfl rfl rfl (by simp)
  | left => exact h.turn hperm rfl (by simp) rfl rfl rfl rfl rfl (by simp)
  | complete => exact h.turn hperm rfl (by simp) rfl rfl rfl rfl rfl (by simp [Thread.owns])
  | rest => exact h.turn hperm rfl (by simp) rfl rfl rfl rfl rfl (by simp)
  | take => exact h.turn hperm rfl (by simp) rfl rfl rfl rfl rfl (by simp [Thread.owns])
  | late' => exact h.turn hperm rfl (by simp) rfl rfl rfl rfl rfl (by simp)
  | reply => exact h.turn hperm rfl (by simp) rfl rfl rfl rfl rfl (by simp [Thread.owns])
  | again => exact h.turn hperm rfl (by simp) rfl rfl rfl rfl rfl (by simp [Thread.owns])
  | spent => exact h.turn hperm rfl (by simp) rfl rfl rfl rfl rfl (by simp)
  | drop => exact h.turn hperm rfl (by simp) rfl rfl rfl rfl rfl (by simp [Thread.owns])
  | skip => exact h.turn hperm rfl (by simp) rfl rfl rfl rfl rfl (by simp [Thread.owns])
  | launch => exact h.turn hperm rfl (by simp) rfl rfl rfl rfl rfl (by simp [Thread.owns])
  | skipped => exact h.turn hperm rfl (by simp) rfl rfl rfl rfl rfl (by simp [Thread.owns])
  | beaten =>
    refine h.turn hperm rfl (by simp) rfl rfl rfl rfl rfl fun x hx => ?_
    obtain ⟨hown, hne, hclose⟩ := resume_plain x hx
    exact ⟨hown, hne, fun stage next heq => absurd heq (hclose _ _ _)⟩
  | @claim outcome next hs =>
    have hfresh := h.not_fresh hperm (by simp)
    obtain ⟨hnone, hzero, -⟩ := h.before hs
    have howners := owners_perm hperm
    rw [hnone] at howners
    have hrest : rest.filter Thread.owns = [] := howners.symm.eq_nil
    have hlisted : f.listed = true := by
      cases hl : f.listed with
      | true => rfl
      | false => exact absurd (h.unlisted hl hs) hfresh
    refine ⟨h.counted, by simp, fun _ => .inr ⟨.discard, outcome, next, ?_, hzero, ?_⟩, ?_, fun hmem => ?_, by simp⟩
    · simp [owners, List.filter_append, hrest, Thread.owns]
    · simp [hlisted]
    · exact hthreads rfl
    · exact absurd hmem (hno rfl)
  | @discard outcome next =>
    obtain ⟨hs, hrest, hreleases, -, -⟩ := h.owner hperm (by simp)
    refine ⟨h.counted, fun hs' => ?_, fun _ => .inr ⟨.release, outcome, next, ?_, hreleases, by simp⟩, hthreads rfl,
      fun hmem => absurd hmem (hno rfl), fun _ hs' => ?_⟩
    · exact absurd (hs.symm.trans hs') (by simp)
    · simp [owners, List.filter_append, hrest, Thread.owns]
    · exact absurd (hs.symm.trans hs') (by simp)
  | @release outcome next =>
    obtain ⟨hs, hrest, hreleases, hlisted, -⟩ := h.owner hperm (by simp)
    refine ⟨h.counted, fun hs' => ?_, fun _ => .inr ⟨.settle, outcome, next, ?_, ?_, ?_⟩, hthreads rfl,
      fun hmem => absurd hmem (hno rfl), fun _ hs' => ?_⟩
    · exact absurd (hs.symm.trans hs') (by simp)
    · simp [owners, List.filter_append, hrest, Thread.owns]
    · simpa using hreleases
    · simpa using hlisted
    · exact absurd (hs.symm.trans hs') (by simp)
  | @settle outcome next =>
    obtain ⟨hs, hrest, hreleases, hlisted, hmem⟩ := h.owner hperm (by simp)
    have hnothing : outcome = .nothing → f.future = .cancelled := by
      rintro rfl
      exact h.nothing _ _ (hperm.mem_iff.mpr List.mem_cons_self)
    obtain ⟨hone, hclosed, hcancelled⟩ := settle_counted h.counted hnothing
    obtain ⟨future, settlements, heq⟩ := settle_spec (f := f) outcome
    rw [heq] at hone hclosed hcancelled ⊢
    dsimp only at hone hclosed hcancelled
    have howners : (rest ++ (resume next).toList).filter Thread.owns = [] := by
      rw [List.filter_append, hrest, List.nil_append, List.filter_eq_nil_iff]
      intro x hx
      simp [(resume_plain x (by simpa using hx)).1]
    refine ⟨?_, fun hs' => ?_, fun _ => .inl ⟨howners, by simpa using hreleases, hclosed, by simpa using hlisted⟩,
      fun stage next' hm => ?_, fun hm => ?_, fun _ hs' => ?_⟩
    · simp [hone, hclosed]
    · exact absurd (hs.symm.trans hs') (by simp)
    · rcases List.mem_append.mp hm with hm | hm
      · exact hcancelled (h.nothing stage next' (hperm.mem_iff.mpr (List.mem_cons_of_mem _ hm)))
      · exact absurd rfl ((resume_plain _ (by simpa using hm)).2.2 _ _ _)
    · rcases List.mem_append.mp hm with hm | hm
      · exact absurd hm hmem
      · exact absurd rfl (resume_plain _ (by simpa using hm)).2.1
    · exact absurd (hs.symm.trans hs') (by simp)

theorem write_rest (plan : StepPlan) (x : Execution) (output : String × Tensor) :
    (x.write plan output).settled = x.settled ∧ (x.write plan output).started = x.started ∧
      (x.write plan output).finished = x.finished := by
  unfold Execution.write
  dsimp only
  split <;> exact ⟨rfl, rfl, rfl⟩

theorem stepDone_rest (plan : StepPlan) (outputs : Dict String Tensor) (x : Execution) :
    (x.stepDone plan outputs).settled = x.settled ∧ (x.stepDone plan outputs).started = x.started ∧
      (x.stepDone plan outputs).finished = x.finished ++ [plan.index] := by
  have hfold : ∀ (l : List (String × Tensor)) (x : Execution), (l.foldl (Execution.write plan) x).settled = x.settled ∧
      (l.foldl (Execution.write plan) x).started = x.started ∧
      (l.foldl (Execution.write plan) x).finished = x.finished := by
    intro l
    induction l with
    | nil => exact fun x => ⟨rfl, rfl, rfl⟩
    | cons output l ih =>
      intro x
      obtain ⟨hs, hst, hf⟩ := ih (x.write plan output)
      obtain ⟨hs', hst', hf'⟩ := write_rest plan x output
      exact ⟨hs.trans hs', hst.trans hst', hf.trans hf'⟩
  obtain ⟨hs, hst, hf⟩ := hfold outputs.entries x
  exact ⟨hs, hst, congrArg (· ++ [plan.index]) hf⟩

/-- What adds plain threads to a request that is under way. -/
theorem Terminal.more (h : Terminal f) {more : List Thread} (hold : .enlisting ∉ f.threads)
    (hmore : ∀ x ∈ more, x.owns = false ∧ x ≠ .enlisting ∧ ∀ stage next, x ≠ .closing stage .nothing next)
    (hthreads : f'.threads = f.threads ++ more) (hsettled : f'.execution.settled = f.execution.settled)
    (hfuture : f'.future = f.future) (hcount : f'.settlements = f.settlements) (hreleases : f'.releases = f.releases)
    (hlisted : f'.listed = f.listed) : Terminal f' := by
  have hnil : more.filter Thread.owns = [] := List.filter_eq_nil_iff.mpr fun x hx => by simp [(hmore x hx).1]
  refine h.same hsettled hfuture hcount hreleases hlisted ?_ (fun stage next hmem => ?_) hold fun hmem => ?_
  · rw [owners, hthreads, List.filter_append, hnil, List.append_nil]
    exact List.Perm.refl _
  · rw [hthreads] at hmem
    rcases List.mem_append.mp hmem with hmem | hmem
    · exact h.nothing stage next hmem
    · exact absurd rfl ((hmore _ hmem).2.2 stage next)
  · rw [hthreads] at hmem
    rcases List.mem_append.mp hmem with hmem | hmem
    · exact hold hmem
    · exact (hmore _ hmem).2.1 rfl

theorem Terminal.moves (h : Terminal f) {e : Event} (hmoves : Moves g f e f') : Terminal f' := by
  cases hmoves with
  | act _ hperm hacts => exact h.act hperm hacts
  | enters hb _ =>
    have hold : .enlisting ∉ f.threads := fun hmem => by simp [(h.fresh hmem).2.2.2.1] at hb
    exact h.more hold (by simp [Thread.owns]) rfl rfl rfl rfl rfl rfl
  | tooLate hb _ =>
    have hold : .enlisting ∉ f.threads := fun hmem => by simp [(h.fresh hmem).2.2.2.1] at hb
    exact @Terminal.more _ _ h [] hold (by simp) (by simp) rfl rfl rfl rfl rfl
  | advance ha =>
    have hold : .enlisting ∉ f.threads := fun hmem => by simp [(h.fresh hmem).2.2.2.2.1] at ha
    exact h.more hold (by simp [Thread.owns]) rfl rfl rfl rfl rfl rfl
  | stepFailed hperm =>
    have hold : .enlisting ∉ f.threads := fun hmem => by simp [(h.fresh hmem).2.2.2.2.2] at hperm
    exact h.more hold (by simp [failing, Thread.owns]) rfl rfl rfl rfl rfl rfl
  | ignored hperm _ =>
    have hold : .enlisting ∉ f.threads := fun hmem => by simp [(h.fresh hmem).2.2.2.2.2] at hperm
    exact @Terminal.more _ _ h [] hold (by simp) (by simp) rfl rfl rfl rfl rfl
  | stepDone _ hperm _ =>
    have hold : .enlisting ∉ f.threads := fun hmem => by simp [(h.fresh hmem).2.2.2.2.2] at hperm
    exact h.more hold (by simp [Thread.owns]) rfl (stepDone_rest _ _ _).1 rfl rfl rfl rfl
  | sweep hl =>
    have hold : .enlisting ∉ f.threads := fun hmem => by simp [(h.fresh hmem).2.2.1] at hl
    exact h.more hold (by simp [failing, Thread.owns]) rfl rfl rfl rfl rfl rfl
  | cancel hf =>
    have hcount := h.counted
    rw [hf] at hcount
    refine ⟨?_, fun hs => ?_, fun hs => ?_, fun _ _ _ => rfl, h.fresh, h.unlisted⟩
    · simpa [CallerFuture.isOpen] using hcount
    · obtain ⟨hnone, hzero, -⟩ := h.before hs
      exact ⟨hnone, hzero, fun _ _ => ⟨by simp, by simp⟩⟩
    · rcases h.after hs with ⟨-, -, hopen, -⟩ | hone
      · rw [hf] at hopen
        cases hopen
      · exact .inr hone

/-- A slot is given back once, and the future comes to an end once. -/
theorem Terminal.once (h : Terminal f) : f.releases ≤ 1 ∧ f.settlements ≤ 1 := by
  constructor
  · cases hs : f.execution.settled with
    | false => rw [(h.before hs).2.1]; exact Nat.zero_le 1
    | true =>
      rcases h.after hs with ⟨-, hone, -⟩ | ⟨stage, -, -, -, hone, -⟩
      · exact hone.le
      · rw [hone]
        split <;> omega
  · rw [h.counted]
    split <;> omega

end

end Flight

/-! ## The slots -/

/-- What every request keeps, when those that come in have it and what happens to one keeps it. -/
theorem every_flight {g : EnsembleGraph} {s t : EnsembleState} {P : Flight → Prop} (hs : ∀ f ∈ s.flights, P f)
    (haccept : ∀ inputs, validateAgainst inputs g.config.inputs .input = .ok () → P (.accept inputs))
    {e : EnsembleEvent} (hstep : s.step g e = some t) (hmoves : ∀ i event f f', e = .flight i event →
      s.flights[i]? = some f → Flight.Moves g f event f' → P f → P f') : ∀ f ∈ t.flights, P f := by
  intro f hf
  cases e with
  | call =>
    simp only [EnsembleState.step] at hstep
    split at hstep
    · cases hstep
      exact hs f hf
    · cases hstep
  | acquire inputs =>
    simp only [EnsembleState.step] at hstep
    split at hstep
    · cases hstep
    split at hstep
    · rename_i hvalid
      cases hstep
      rcases List.mem_append.mp hf with hf | hf
      · exact hs f hf
      · rw [List.mem_singleton.mp hf]
        exact haccept inputs hvalid.1
    · cases hstep
      exact hs f hf
  | flight i event =>
    simp only [EnsembleState.step] at hstep
    split at hstep
    · cases hstep
    rename_i f₀ hf₀
    obtain ⟨f', hf', rfl⟩ := Option.map_eq_some_iff.mp hstep
    rcases List.mem_or_eq_of_mem_set hf with hf | rfl
    · exact hs f hf
    · exact hmoves i event f₀ f rfl hf₀ (Flight.moves hf') (hs f₀ (List.mem_of_getElem? hf₀))
  | stop =>
    cases hstep
    exact hs f hf
  | shutdown =>
    cases hstep
    exact hs f hf

/-- The requests that hold a slot. -/
def EnsembleState.holding (s : EnsembleState) : Nat := s.flights.countP fun f => decide (f.releases = 0)

structure Slots (capacity : Nat) (s : EnsembleState) : Prop where
  terminal : ∀ f ∈ s.flights, f.Terminal
  capacity : s.free + s.holding = capacity

theorem releases_moves {g : EnsembleGraph} {f f' : Flight} {e : Flight.Event} (h : Flight.Moves g f e f') :
    f.releases ≤ f'.releases := by
  cases h with
  | act _ hperm hacts =>
    cases hacts with
    | release => exact Nat.le_succ _
    | @settle outcome next =>
      obtain ⟨future, settlements, heq⟩ := Flight.settle_spec (f := f) outcome
      simp [heq]
    | _ => exact Nat.le_refl _
  | _ => exact Nat.le_refl _

theorem Slots.step {g : EnsembleGraph} {capacity : Nat} {s t : EnsembleState} {e : EnsembleEvent} (h : Slots capacity s)
    (hstep : s.step g e = some t) : Slots capacity t := by
  refine ⟨every_flight h.terminal (fun inputs _ => Flight.terminal_accept inputs) hstep
    fun _ _ _ _ _ _ hmoves hterminal => hterminal.moves hmoves, ?_⟩
  have hcap := h.capacity
  cases e with
  | call =>
    simp only [EnsembleState.step] at hstep
    split at hstep
    · cases hstep
      exact hcap
    · cases hstep
  | acquire inputs =>
    simp only [EnsembleState.step] at hstep
    split at hstep
    · cases hstep
    split at hstep
    · cases hstep
      have hnew : ([Flight.accept inputs].countP fun f => decide (f.releases = 0)) = 1 := rfl
      simp only [EnsembleState.holding, List.countP_append, hnew] at hcap ⊢
      omega
    · cases hstep
      exact hcap
  | flight i event =>
    simp only [EnsembleState.step] at hstep
    split at hstep
    · cases hstep
    rename_i f hf
    obtain ⟨f', hf', rfl⟩ := Option.map_eq_some_iff.mp hstep
    have hmem := List.mem_of_getElem? hf
    have hmoves := Flight.moves hf'
    have hle := releases_moves hmoves
    have hone := ((h.terminal f hmem).moves hmoves).once.1
    obtain ⟨hi, rfl⟩ := List.getElem?_eq_some_iff.mp hf
    simp only [EnsembleState.holding] at hcap ⊢
    rw [List.countP_set hi]
    by_cases hold : s.flights[i].releases = 0
    · have hpos : 0 < s.flights.countP fun f => decide (f.releases = 0) :=
        List.countP_pos_iff.mpr ⟨_, hmem, by simpa using hold⟩
      by_cases hnew : f'.releases = 0
      · simp [hold, hnew]
        omega
      · simp [hold, hnew]
        omega
    · have hnew : f'.releases ≠ 0 := by omega
      simp [hold, hnew]
      omega
  | stop =>
    cases hstep
    exact hcap
  | shutdown =>
    cases hstep
    exact hcap

theorem slots {g : EnsembleGraph} {capacity : Nat} {s : EnsembleState} (h : (ensemble g capacity).Reachable s) :
    Slots capacity s := by
  refine h.invariant (fun s hs => ?_) fun s e t hs hst => hs.step hst
  cases hs
  exact ⟨by simp, by simp [EnsembleState.holding]⟩

end ShipInfer.Engine
