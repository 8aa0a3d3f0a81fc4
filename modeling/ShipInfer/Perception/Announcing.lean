import ShipInfer.Perception.Planning

/-!
# Announcing and reporting

What a frame misses at seal is what was announced and did not run. Where every stage
announced is run, that is the stages that failed; where a stage may be announced before
another one replaces a name it requires, some outcome has it skipped and missed.
-/

namespace ShipInfer.Perception

open ShipInfer.Reassembly (PendingFrame PendingKey FrameCollector FrameResult)

namespace PipelineGraph

/-! ## What the collector makes of it -/

/-- What a call of the graph does to the frame that waits. -/
def told (f : PendingFrame) : Call → PendingFrame
  | .planned stages => f.expect stages
  | .finished stage .ran => f.deliver stage
  | .finished _ .skipped => f
  | .finished _ .failed => f

def Announced (turns : List Turn) (name : String) : Prop := ∃ t ∈ turns, name ∈ t.ready

def Ended (status : StageStatus) (turns : List Turn) (name : String) : Prop :=
  ∃ t ∈ turns, t.stage.name = name ∧ t.status = status

section
variable {key : PendingKey} {name : String}

theorem publishing_forgetCamera (c : FrameCollector) (key : PendingKey) : (c.forgetCamera key).publishing = c.publishing := by
  unfold FrameCollector.forgetCamera
  split
  · rfl
  · split
    · rfl
    · rfl

/-- The calls reach the frame, and nothing is published for them. -/
theorem observed (cfg : Reassembly.Config) : ∀ (calls : List Call) {c : FrameCollector} {f : PendingFrame}, c.pending.get? key = some f →
    (Machine.exec (FrameCollector.step cfg) c (calls.filterMap (observe key))).1.pending.get? key = some (calls.foldl told f) ∧
      (Machine.exec (FrameCollector.step cfg) c (calls.filterMap (observe key))).1.publishing = c.publishing
  | [], c, f, h => ⟨h, rfl⟩
  | .planned stages :: calls, c, f, h => by
    have hexpect : (c.expect key stages).1.pending.get? key = some (f.expect stages) ∧
        (c.expect key stages).1.publishing = c.publishing := by
      unfold FrameCollector.expect
      by_cases hnone : stages = []
      · rw [if_pos hnone, hnone]
        exact ⟨by simpa [PendingFrame.expect] using h, rfl⟩
      · rw [if_neg hnone, h]
        exact ⟨Dict.get?_set_self _ _ _, rfl⟩
    obtain ⟨hget, hpublishing⟩ := observed cfg calls hexpect.1
    exact ⟨hget, hpublishing.trans hexpect.2⟩
  | .finished stage .ran :: calls, c, f, h => by
    have hdeliver : (c.deliver key stage).1.pending.get? key = some (f.deliver stage) ∧
        (c.deliver key stage).1.publishing = c.publishing := by
      unfold FrameCollector.deliver
      rw [h]
      exact ⟨Dict.get?_set_self _ _ _, rfl⟩
    obtain ⟨hget, hpublishing⟩ := observed cfg calls hdeliver.1
    exact ⟨hget, hpublishing.trans hdeliver.2⟩
  | .finished stage .skipped :: calls, c, f, h => observed cfg calls h
  | .finished stage .failed :: calls, c, f, h => observed cfg calls h

theorem publishing_seal {c : FrameCollector} {f : PendingFrame} (h : c.pending.get? key = some f) (now : Int) :
    (c.seal key now).publishing = c.publishing ++ [f.result (if f.isComplete then .complete else .incomplete) now] := by
  unfold FrameCollector.seal FrameCollector.remove
  rw [h]
  simp only [publishing_forgetCamera]

theorem mem_turn_expected (t : Turn) (f : PendingFrame) : name ∈ (t.calls.foldl told f).expected ↔
    name ∈ f.expected ∨ name ∈ t.ready ∨ (t.stage.name = name ∧ t.status = .ran) := by
  unfold Turn.calls
  by_cases hnone : t.ready = []
  · rw [if_pos hnone, hnone]
    cases t.status with
    | ran => simp [told, PendingFrame.deliver, or_comm, eq_comm]
    | skipped => simp [told]
    | failed => simp [told]
  · rw [if_neg hnone]
    cases t.status with
    | ran =>
      simp [told, PendingFrame.deliver, PendingFrame.expect, eq_comm]
      tauto
    | skipped => simp [told, PendingFrame.expect, or_comm]
    | failed => simp [told, PendingFrame.expect, or_comm]

theorem mem_turn_delivered (t : Turn) (f : PendingFrame) : name ∈ (t.calls.foldl told f).delivered ↔
    name ∈ f.delivered ∨ (t.stage.name = name ∧ t.status = .ran) := by
  have hdeliver : ∀ f : PendingFrame, name ∈ (f.deliver t.stage.name).delivered ↔ name ∈ f.delivered ∨ t.stage.name = name := by
    intro f
    simp only [PendingFrame.deliver]
    split
    next hin =>
      constructor
      · exact .inl
      · intro h
        cases h with
        | inl h => exact h
        | inr h => exact h ▸ hin
    · simp [eq_comm]
  unfold Turn.calls
  by_cases hnone : t.ready = []
  · rw [if_pos hnone]
    cases t.status with
    | ran => simpa [told] using hdeliver f
    | skipped => simp [told]
    | failed => simp [told]
  · rw [if_neg hnone]
    cases t.status with
    | ran =>
      have hran := hdeliver (f.expect t.ready)
      rw [show (f.expect t.ready).delivered = f.delivered from rfl] at hran
      simpa [told] using hran
    | skipped => simp [told, PendingFrame.expect]
    | failed => simp [told, PendingFrame.expect]

theorem mem_expected : ∀ {turns : List Turn} {f : PendingFrame}, name ∈ ((turns.flatMap Turn.calls).foldl told f).expected ↔
    name ∈ f.expected ∨ Announced turns name ∨ Ended .ran turns name
  | [], f => by simp [Announced, Ended]
  | t :: turns, f => by
    rw [List.flatMap_cons, List.foldl_append, mem_expected, mem_turn_expected]
    simp only [Announced, Ended, List.exists_mem_cons_iff]
    rw [or_assoc, or_or_or_comm]

theorem mem_delivered : ∀ {turns : List Turn} {f : PendingFrame}, name ∈ ((turns.flatMap Turn.calls).foldl told f).delivered ↔
    name ∈ f.delivered ∨ Ended .ran turns name
  | [], f => by simp [Ended]
  | t :: turns, f => by
    rw [List.flatMap_cons, List.foldl_append, mem_delivered, mem_turn_delivered]
    simp only [Ended, List.exists_mem_cons_iff]
    tauto

end

/-- Sealed, a frame that was opened for the entry stage misses the stages that failed. -/
def MissingFailed (g : PipelineGraph) (turns : List Turn) : Prop :=
  ∀ (cfg : Reassembly.Config) (c : FrameCollector) (key : PendingKey) (f : PendingFrame) (now : Int),
    c.pending.get? key = some f → f.expected = [g.entry.name] → f.delivered = [] →
      ∃ result : FrameResult,
        ((Machine.exec (FrameCollector.step cfg) c ((turns.flatMap Turn.calls).filterMap (observe key))).1.seal key now).publishing =
          c.publishing ++ [result] ∧ ∀ name, name ∈ result.missing ↔ Ended .failed turns name

theorem missingFailed_iff {g : PipelineGraph} {turns : List Turn} : MissingFailed g turns ↔
    ∀ name, (name = g.entry.name ∨ Announced turns name ∨ Ended .ran turns name) ∧ ¬Ended .ran turns name ↔
      Ended .failed turns name := by
  have hmissing : ∀ (f : PendingFrame) (reason : Reassembly.Reason) (now : Int), f.expected = [g.entry.name] → f.delivered = [] →
      ∀ name, name ∈ (((turns.flatMap Turn.calls).foldl told f).result reason now).missing ↔
        (name = g.entry.name ∨ Announced turns name ∨ Ended .ran turns name) ∧ ¬Ended .ran turns name := by
    intro f reason now hexpected hdelivered name
    simp only [PendingFrame.result, PendingFrame.missing, List.mem_insertionSort, List.mem_filter, decide_eq_true_eq,
      mem_expected, mem_delivered, hexpected, hdelivered, List.mem_singleton, List.not_mem_nil, false_or]
  constructor
  · intro h name
    let f : PendingFrame := { ticket := 0, state := { context := {} }, openedNs := 0, deadlineNs := 0, expected := [g.entry.name] }
    let c : FrameCollector := { pending := Dict.empty.set ("", 0) f }
    have hget : c.pending.get? ("", 0) = some f := Dict.get?_set_self _ _ _
    obtain ⟨result, hpublishing, hfailed⟩ := h ⟨1, 0, fun _ => none⟩ c ("", 0) f 0 hget rfl rfl
    obtain ⟨hafter, hnone⟩ := observed ⟨1, 0, fun _ => none⟩ (turns.flatMap Turn.calls) hget
    rw [publishing_seal hafter, hnone] at hpublishing
    have hresult := List.append_cancel_left hpublishing
    rw [List.singleton_inj] at hresult
    rw [← hfailed, ← hresult, hmissing f _ _ rfl rfl]
  · intro h cfg c key f now hget hexpected hdelivered
    obtain ⟨hafter, hnone⟩ := observed cfg (turns.flatMap Turn.calls) hget
    refine ⟨_, by rw [publishing_seal hafter, hnone], fun name => ?_⟩
    rw [hmissing f _ _ hexpected hdelivered, h name]

/-! ## Runs that announce in vain -/

variable {g : PipelineGraph} {l rest : List (Stage × List String)} {done dead : List String} {st b c : Stage}
  {s : FrameState} {m n : String} {outcomes : Stage → Outcome} {size : Nat}

theorem Ahead.loop_stages : ∀ {l : List (Stage × List String)} {done : List String} {s : FrameState}, Ahead g l done →
    (g.loop outcomes l done s).map Turn.stage = l.map Prod.fst
  | [], _, _, _ => rfl
  | (st, dead) :: rest, done, s, h => by
    rw [h.loop_cons, List.map_cons, h.tail.loop_stages]
    rfl

/-- Who runs was announced in that round. -/
theorem Ahead.loop_ready : ∀ {l : List (Stage × List String)} {done : List String} {s : FrameState}, Ahead g l done →
    ∀ t ∈ g.loop outcomes l done s, t.status ≠ .skipped → t.stage.name ∈ t.ready
  | [], _, _, _, t, ht, _ => (List.not_mem_nil ht).elim
  | (st, dead) :: rest, done, s, h, t, ht, hstatus => by
    rw [h.loop_cons] at ht
    cases List.mem_cons.mp ht with
    | inl heq =>
      subst heq
      rw [← List.contains_iff_mem, h.contains_head]
      exact status_ne_skipped.mp hstatus
    | inr hin => exact h.tail.loop_ready t hin hstatus

theorem nonEmpty_release : ∀ (dead : List String) {s : FrameState}, (release s dead).nonEmpty n = true → s.nonEmpty n = true
  | [], s, h => h
  | name :: dead, s, h => by
    have hrest := nonEmpty_release dead (s := if name = frameInput then s.releaseImage else s.drop name) h
    rw [FrameState.nonEmpty_iff] at hrest ⊢
    split at hrest
    · simp only [FrameState.view, FrameState.releaseImage] at hrest ⊢
      grind
    · simp only [FrameState.view, FrameState.drop, Dict.get?_erase] at hrest ⊢
      grind

theorem image_release_zero : ∀ (dead : List String) {s : FrameState}, s.image = 0 → (release s dead).image = 0
  | [], s, h => h
  | name :: dead, s, h => by
    refine image_release_zero dead (s := if name = frameInput then s.releaseImage else s.drop name) ?_
    split
    · rfl
    · exact h

theorem detections_release : ∀ (dead : List String) {s : FrameState}, (release s dead).detections = s.detections
  | [], s => rfl
  | name :: dead, s => by
    refine (detections_release dead (s := if name = frameInput then s.releaseImage else s.drop name)).trans ?_
    split
    · rfl
    · rfl

/-- While every stage fails, a stage that requires an empty name is skipped. -/
theorem quiet_run (hn : n ∈ c.requires) : ∀ {l : List (Stage × List String)} {done : List String} {s : FrameState}, Ahead g l done →
    (∀ p ∈ l, (outcomes p.1).effects = []) → s.nonEmpty n = false →
      ∀ u ∈ g.loop outcomes l done s, u.stage = c → u.status = .skipped
  | [], _, _, _, _, _, u, hu, _ => (List.not_mem_nil hu).elim
  | (st, dead) :: rest, done, s, h, hquiet, hempty, u, hu, hstage => by
    rw [h.loop_cons] at hu
    cases List.mem_cons.mp hu with
    | inl heq =>
      subst heq
      subst hstage
      by_contra hstatus
      have hopen := (gate_iff.mp (status_ne_skipped.mp hstatus)).2 n hn
      rw [hempty] at hopen
      cases hopen
    | inr hin =>
      refine quiet_run hn h.tail (fun p hp => hquiet p (List.mem_cons_of_mem _ hp)) ?_ u hin hstage
      have hsame : afterTurn outcomes st s = s := by
        unfold afterTurn
        rw [hquiet (st, dead) List.mem_cons_self]
        simp [applyAll]
      rw [hsame, Bool.eq_false_iff]
      intro hopen
      rw [nonEmpty_release _ hopen] at hempty
      cases hempty

/-- Every stage before `b` attaches all it may, `b` an empty batch under `n`, and who comes
after fails. -/
def worst (before : List Stage) (b : Stage) (n : String) (st : Stage) : Outcome :=
  if st ∈ before then { effects := st.produces.map fun name => .attach name 1 }
  else if st = b then { effects := [.attach n 0] }
  else { failed := true }

theorem worst_declared (before : List Stage) (hn : n ∈ b.produces) : Declared g (worst before b n) := by
  intro st _ e he
  unfold worst at he
  split at he
  · obtain ⟨name, hname, rfl⟩ := List.mem_map.mp he
    exact hname
  split at he
  next heq =>
    rw [List.mem_singleton.mp he, heq]
    exact hn
  · exact (List.not_mem_nil he).elim

theorem nonEmpty_attach (name : String) (h : s.nonEmpty m = true) : (s.apply (.attach name 1)).nonEmpty m = true := by
  rw [FrameState.nonEmpty_iff] at h ⊢
  by_cases hm : m = name
  · exact .inl ⟨1, by simp [FrameState.view, FrameState.apply, FrameState.attach, hm], Nat.one_ne_zero⟩
  · rw [FrameState.view_apply_other s (e := .attach name 1) hm]
    exact h

theorem nonEmpty_fill : ∀ (produces : List String) {s : FrameState}, (m ∈ produces ∨ s.nonEmpty m = true) →
    (applyAll s (produces.map fun name => .attach name 1)).nonEmpty m = true
  | [], s, h => h.resolve_left List.not_mem_nil
  | name :: produces, s, h => by
    refine nonEmpty_fill produces (s := s.apply (.attach name 1)) ?_
    cases h with
    | inr h => exact .inr (nonEmpty_attach name h)
    | inl h =>
      cases List.mem_cons.mp h with
      | inr h => exact .inl h
      | inl h =>
        right
        rw [FrameState.nonEmpty_iff]
        exact .inl ⟨1, by simp [FrameState.view, FrameState.apply, FrameState.attach, h], Nat.one_ne_zero⟩

theorem detections_fill : ∀ (produces : List String) {s : FrameState},
    (applyAll s (produces.map fun name => .attach name 1)).detections = s.detections
  | [], _ => rfl
  | name :: produces, s => detections_fill produces (s := s.apply (.attach name 1))

/-- What a worst run has kept for the stages ahead. -/
structure Full (size : Nat) (names : List String) (l : List (Stage × List String)) (s : FrameState) : Prop where
  detections : s.detections = none
  image : size = 0 → s.image = 0
  full : ∀ m ∈ names, (∃ p ∈ l, m ∈ p.1.reads) → s.nonEmpty m = true

theorem Full.gate {names : List String} (hf : Full size names l s) (hreq : ∀ m ∈ c.requires, m ∈ c.consumes)
    (hc : c ∈ l.map Prod.fst) (hw : within names c = true) : gate s c = true := by
  obtain ⟨p, hp, rfl⟩ := List.mem_map.mp hc
  have hfull : ∀ m ∈ p.1.consumes, s.nonEmpty m = true := fun m hm =>
    hf.full m (within_iff.mp hw m hm) ⟨p, hp, List.mem_append_left _ hm⟩
  exact gate_iff.mpr ⟨fun m hm => FrameState.available_of_nonEmpty (hfull m hm), fun m hm => hfull m (hreq m hm)⟩

theorem Full.next {names : List String} {before : List Stage} (hreq : Gated g) (h : Ahead g ((st, dead) :: rest) done)
    (hf : Full size names ((st, dead) :: rest) s) (hst : st ∈ before) :
    Full size (supplied names st) rest (release (afterTurn (worst before b n) st s) dead) where
  detections := by
    rw [detections_release, afterTurn, worst, if_pos hst]
    split
    · rw [detections_fill]
      exact hf.detections
    · exact hf.detections
  image hsize := by
    apply image_release_zero
    rw [image_afterTurn]
    exact hf.image hsize
  full m hm := by
    intro hread
    obtain ⟨p, hp, hreads⟩ := hread
    have hspent : m ∉ dead := fun hd => (List.pairwise_cons.mp h.spent).1 p hp m hd hreads
    have hold : m ∈ names → s.nonEmpty m = true := fun hin => hf.full m hin ⟨p, List.mem_cons_of_mem _ hp, hreads⟩
    rw [FrameState.nonEmpty_of_view (view_release hspent), afterTurn, worst, if_pos hst]
    unfold supplied at hm
    split at hm
    next hw =>
      rw [if_pos (hf.gate (hreq st h.head.1) List.mem_cons_self hw)]
      apply nonEmpty_fill
      exact (List.mem_append.mp hm).symm.imp_right hold
    · split
      · exact nonEmpty_fill _ (.inr (hold hm))
      · exact hold hm

/-- A stage announced as another one comes to replace, by nothing, a name it requires. -/
theorem worst_run (hreq : Gated g) {before after : List Stage} (hb : b ∉ before) (hafter : ∀ st ∈ after, st ∉ before ∧ st ≠ b)
    (hc : c ∈ after) (hn : n ∈ c.requires) (hpixels : n ∉ frameNames size) :
    ∀ {todo : List Stage} {l : List (Stage × List String)} {done names : List String} {s : FrameState}, Ahead g l done →
      l.map Prod.fst = todo ++ b :: after → (∀ st ∈ todo, st ∈ before) → Full size names l s →
      within (todo.foldl supplied names) b = true → within (todo.foldl supplied names) c = true →
        ∃ pre t post, g.loop (worst before b n) l done s = pre ++ t :: post ∧ c.name ∈ t.ready ∧
          ∀ u ∈ t :: post, u.stage = c → u.status = .skipped
  | [], (st, dead) :: rest, done, names, s, h, heq, _, hf, hwb, hwc => by
    obtain ⟨rfl, hrest⟩ := List.cons.inj heq
    have hcin : c ∈ ((st, dead) :: rest).map Prod.fst := List.mem_cons_of_mem _ (hrest ▸ hc)
    have hgateb : gate s st = true := hf.gate (hreq st h.head.1) List.mem_cons_self hwb
    have hgatec : gate s c = true := hf.gate (hreq c ((h.stages c).mp hcin).1) hcin hwc
    have hempty : (release (afterTurn (worst before st n) st s) dead).nonEmpty n = false := by
      rw [Bool.eq_false_iff]
      intro hopen
      have hopen := FrameState.nonEmpty_iff.mp (nonEmpty_release _ hopen)
      rw [afterTurn, if_pos hgateb, worst, if_neg hb, if_pos rfl] at hopen
      rcases hopen with ⟨k, hk, hne⟩ | ⟨k, hk, hne⟩ | ⟨k, hk, hne⟩
      · simp only [applyAll, List.foldl_cons, List.foldl_nil, FrameState.view, FrameState.apply, FrameState.attach,
          Dict.get?_set_self, Option.some.injEq] at hk
        exact hne hk.symm
      · simp only [applyAll, List.foldl_cons, List.foldl_nil, FrameState.view, FrameState.apply, FrameState.attach] at hk
        split at hk
        next hinput =>
          simp only [frameNames] at hpixels
          split at hpixels
          next hsize => exact hne ((Option.some.inj hk).symm.trans (hf.image hsize))
          · exact hpixels (List.mem_singleton.mpr hinput)
        · cases hk
      · simp only [applyAll, List.foldl_cons, List.foldl_nil, FrameState.view, FrameState.apply, FrameState.attach,
          hf.detections, ite_self] at hk
        cases hk
    refine ⟨[], _, _, h.loop_cons _ s, h.mem_runnable.mpr ⟨c, hcin, rfl, hgatec⟩, fun u hu hstage => ?_⟩
    cases List.mem_cons.mp hu with
    | inl hhead =>
      subst hhead
      exact absurd hstage.symm (hafter c hc).2
    | inr hin =>
      refine quiet_run hn h.tail (fun p hp => ?_) hempty u hin hstage
      obtain ⟨hnot, hne⟩ := hafter p.1 (hrest ▸ List.mem_map_of_mem hp)
      rw [worst, if_neg hnot, if_neg hne]
  | d :: todo, (st, dead) :: rest, done, names, s, h, heq, htodo, hf, hwb, hwc => by
    obtain ⟨rfl, hrest⟩ := List.cons.inj heq
    obtain ⟨pre, t, post, hloop, hready, hskip⟩ := worst_run hreq hb hafter hc hn hpixels h.tail hrest
      (fun d hd => htodo d (List.mem_cons_of_mem _ hd)) (hf.next hreq h (htodo st List.mem_cons_self)) hwb hwc
    rw [h.loop_cons, hloop]
    exact ⟨_ :: pre, t, post, rfl, hready, hskip⟩

/-- Where a stage may be replaced, the graph shows it. -/
theorem exists_of_replaced : ∀ {stages : List Stage} {names : List String}, ¬NeverReplaced size names stages →
    ∃ before b after c n, stages = before ++ b :: after ∧ c ∈ after ∧ within (before.foldl supplied names) b = true ∧
      within (before.foldl supplied names) c = true ∧ n ∈ c.requires ∧ n ∈ b.produces ∧ n ∉ frameNames size
  | [], names, h => (h trivial).elim
  | st :: rest, names, h => by
    by_cases hhead : within names st = true → ∀ c ∈ rest, within names c = true → ∀ n ∈ c.requires, n ∈ st.produces →
        n ∈ frameNames size
    · obtain ⟨before, b, after, c, n, heq, hspec⟩ := exists_of_replaced fun hrest => h ⟨hhead, hrest⟩
      exact ⟨st :: before, b, after, c, n, by rw [heq]; rfl, hspec⟩
    · push Not at hhead
      obtain ⟨hb, c, hc, hwc, n, hn, hprod, hpixels⟩ := hhead
      exact ⟨[], st, rest, c, n, rfl, hc, hb, hwc, hn, hprod, hpixels⟩

/-! ## Accepted graphs -/

theorem checkStage_ok {modelChecks : Stage → Dict String Stage → Bool} {produced produced' : Dict String Stage}
    (h : checkStage modelChecks produced st = .ok produced') : (∀ n ∈ st.requires, n ∈ st.consumes) ∧
      (∀ n ∈ st.reads, n = frameInput ∨ n ∈ produced.keys) ∧
      produced' = produced.update (st.produces.map fun name => (name, st)) := by
  unfold checkStage at h
  dsimp only at h
  split at h
  · cases h
  next hunconsumed =>
  split at h
  · cases h
  obtain ⟨⟨⟩, hforM, h⟩ := bind_ok.mp h
  have hreads := forM_ok_iff.mp hforM
  refine ⟨fun n hn => ?_, fun n hn => ?_, ?_⟩
  · have hnone := List.filter_eq_nil_iff.mp (not_not.mp hunconsumed) n hn
    simpa using hnone
  · have hread := hreads n hn
    unfold checkRead at hread
    split at hread
    next hinput => exact .inl hinput
    · right
      cases hget : produced.get? n with
      | none => rw [hget] at hread; cases hread
      | some source => exact Dict.contains_iff.mp (by simp [Dict.contains, hget])
  · split at h
    · cases h
    · cases h
      rfl

theorem stages_ok {modelChecks : Stage → Dict String Stage → Bool} : ∀ {stages : List Stage} {produced produced' : Dict String Stage},
    stages.foldlM (checkStage modelChecks) produced = .ok produced' → ∀ st ∈ stages, ∀ n ∈ st.requires, n ∈ st.consumes
  | [], _, _, _, st, hst => (List.not_mem_nil hst).elim
  | d :: stages, produced, produced', h, st, hst => by
    rw [List.foldlM_cons] at h
    obtain ⟨next, hd, h⟩ := bind_ok.mp h
    cases List.mem_cons.mp hst with
    | inl heq => exact heq ▸ (checkStage_ok hd).1
    | inr hin => exact stages_ok h st hin

theorem validate_gated {modelChecks : Stage → Dict String Stage → Bool} (h : g.validate modelChecks = .ok ()) : Gated g := by
  unfold validate at h
  obtain ⟨produced, hstages, -⟩ := bind_ok.mp h
  exact stages_ok hstages

/-! ## Planning and release -/

/-- A frame as it comes in. -/
def fresh (size : Nat) : FrameState := { image := size }

/-- The first stage may run on the frame, and no stage is replaced a name it requires. -/
def Settled (g : PipelineGraph) (size : Nat) : Prop :=
  within (frameNames size) g.entry = true ∧ NeverReplaced size (frameNames size) g.stages

theorem available_fresh (n : String) : (fresh size).available n = true ↔ n ∈ frameNames size := by
  unfold frameNames
  by_cases hsize : size = 0
  · simp [fresh, FrameState.available, hsize, Dict.contains]
  · simp [fresh, FrameState.available, hsize, Dict.contains]

theorem nonEmpty_fresh (n : String) : (fresh size).nonEmpty n = true ↔ n ∈ frameNames size := by
  unfold frameNames
  by_cases hsize : size = 0
  · simp [fresh, FrameState.nonEmpty, hsize]
  · simp [fresh, FrameState.nonEmpty, hsize]

theorem entry_mem (g : PipelineGraph) : ∃ rest, g.stages = g.entry :: rest :=
  ⟨g.stages.tail, (List.cons_head_tail g.nonempty).symm⟩

theorem execute_stages (g : PipelineGraph) (outcomes : Stage → Outcome) (s : FrameState) :
    (g.execute outcomes s).map Turn.stage = g.stages := by
  rw [execute, (ahead_planned g).loop_stages, List.map_map]
  exact List.zipIdx_map_fst 0 g.stages

/-- A name tells its round. -/
theorem turn_unique {t u : Turn} {s : FrameState} (ht : t ∈ g.execute outcomes s) (hu : u ∈ g.execute outcomes s)
    (h : t.stage.name = u.stage.name) : t = u := by
  have hnd : ((g.execute outcomes s).map fun t => t.stage.name).Nodup := by
    have hnames := g.names_nodup
    rw [← execute_stages g outcomes s, List.map_map] at hnames
    exact hnames
  exact List.inj_on_of_nodup_map hnd ht hu h

theorem entry_turn (hreq : Gated g) (outcomes : Stage → Outcome) (hentry : within (frameNames size) g.entry = true) :
    ∃ t ∈ g.execute outcomes (fresh size), t.stage = g.entry ∧ t.status ≠ .skipped := by
  obtain ⟨rest, hrest⟩ := entry_mem g
  have hconsumes := within_iff.mp hentry
  have hgate : gate (fresh size) g.entry = true := by
    refine gate_iff.mpr ⟨fun n hn => (available_fresh n).mpr (hconsumes n hn), fun n hn => (nonEmpty_fresh n).mpr (hconsumes n ?_)⟩
    exact hreq g.entry (hrest ▸ List.mem_cons_self) n hn
  have hahead := ahead_planned g
  unfold execute
  rw [hrest, List.zipIdx_cons, List.map_cons] at hahead ⊢
  rw [hahead.loop_cons]
  exact ⟨_, List.mem_cons_self, rfl, status_ne_skipped.mpr hgate⟩

theorem entry_skipped (outcomes : Stage → Outcome) (hentry : ¬within (frameNames size) g.entry = true) :
    ∃ t ∈ g.execute outcomes (fresh size), t.stage = g.entry ∧ t.status = .skipped := by
  obtain ⟨rest, hrest⟩ := entry_mem g
  have hgate : ¬gate (fresh size) g.entry = true := by
    intro hgate
    exact hentry (within_iff.mpr fun n hn => (available_fresh n).mp ((gate_iff.mp hgate).1 n hn))
  have hahead := ahead_planned g
  unfold execute
  rw [hrest, List.zipIdx_cons, List.map_cons] at hahead ⊢
  rw [hahead.loop_cons]
  exact ⟨_, List.mem_cons_self, rfl, not_not.mp (status_ne_skipped.not.mpr hgate)⟩

/-- Where all that is announced is run, what is missed is what failed. -/
theorem missingFailed_of (hannounced : AnnouncedRun (g.execute outcomes (fresh size)))
    (hentry : ∃ t ∈ g.execute outcomes (fresh size), t.stage = g.entry ∧ t.status ≠ .skipped) :
    MissingFailed g (g.execute outcomes (fresh size)) := by
  have hwaited : ∀ name, (name = g.entry.name ∨ Announced (g.execute outcomes (fresh size)) name) →
      ∃ t ∈ g.execute outcomes (fresh size), t.stage.name = name ∧ t.status ≠ .skipped := by
    intro name hname
    cases hname with
    | inl heq =>
      obtain ⟨t, ht, hstage, hstatus⟩ := hentry
      exact ⟨t, ht, by rw [hstage, heq], hstatus⟩
    | inr hready =>
      obtain ⟨t, ht, hready⟩ := hready
      obtain ⟨before, after, hsplit⟩ := List.append_of_mem ht
      obtain ⟨u, hu, hstage, hstatus⟩ := hannounced before t after hsplit name hready
      exact ⟨u, hsplit ▸ List.mem_append_right _ hu, hstage, hstatus⟩
  refine missingFailed_iff.mpr fun name => ⟨fun ⟨hwait, hran⟩ => ?_, fun ⟨t, ht, hstage, hstatus⟩ => ⟨?_, ?_⟩⟩
  · obtain ⟨t, ht, hstage, hstatus⟩ := hwaited name (by
      rcases hwait with hwait | hwait | hwait
      · exact .inl hwait
      · exact .inr hwait
      · exact absurd hwait hran)
    refine ⟨t, ht, hstage, ?_⟩
    cases hcase : t.status with
    | ran => exact absurd ⟨t, ht, hstage, hcase⟩ hran
    | skipped => exact absurd hcase hstatus
    | failed => rfl
  · refine .inr (.inl ⟨t, ht, ?_⟩)
    rw [← hstage]
    exact (ahead_planned g).loop_ready t ht (by rw [hstatus]; exact StageStatus.noConfusion)
  · intro ⟨u, hu, hname, hran⟩
    rw [turn_unique hu ht (hname.trans hstage.symm), hstatus] at hran
    cases hran

/-- **Planning and release.** A frame shows every stage what it would if nothing were ever
released, so nobody is skipped and nothing missed for it. Whatever the stages do, every
stage announced is run and the frame misses what failed, just where the first stage may
run and no stage is replaced a name it requires once it may have been announced. -/
theorem planning_and_release {modelChecks : Stage → Dict String Stage → Bool} (hvalid : g.validate modelChecks = .ok ()) (size : Nat) :
    (∀ outcomes, (g.execute outcomes (fresh size)).map Turn.shown = (g.executeKeeping outcomes (fresh size)).map Turn.shown) ∧
      ((∀ outcomes, Declared g outcomes → AnnouncedRun (g.execute outcomes (fresh size)) ∧
        MissingFailed g (g.execute outcomes (fresh size))) ↔ Settled g size) := by
  have hreq := validate_gated hvalid
  refine ⟨fun outcomes => ?_, fun hsound => ⟨?_, ?_⟩, fun ⟨hentry, hnever⟩ outcomes hdeclared => ?_⟩
  · refine loop_shown hreq (ahead_planned g) (ahead_keeping g) ?_ fun _ _ _ _ => rfl
    rw [List.map_map, List.map_map]
    show g.stages.zipIdx.map Prod.fst = g.stages.map id
    rw [List.zipIdx_map_fst, List.map_id]
  · -- a first stage that cannot run is waited for, and never fails
    by_contra hentry
    obtain ⟨t, ht, hstage, hskipped⟩ := entry_skipped (fun _ => { failed := true }) hentry
    have hmissing := missingFailed_iff.mp
      (hsound (fun _ => { failed := true }) fun _ _ e he => (List.not_mem_nil he).elim).2 g.entry.name
    have hended : ∀ status, Ended status (g.execute (fun _ => { failed := true }) (fresh size)) g.entry.name →
        status = .skipped := by
      intro status ⟨u, hu, hname, hstatus⟩
      rw [← hstatus, turn_unique hu ht (by rw [hname, hstage]), hskipped]
    have hfailed := hmissing.mp ⟨.inl rfl, fun hran => StageStatus.noConfusion (hended .ran hran)⟩
    exact StageStatus.noConfusion (hended .failed hfailed)
  · by_contra hreplaced
    obtain ⟨before, b, after, c, n, hsplit, hc, hwb, hwc, hn, hprod, hpixels⟩ := exists_of_replaced hreplaced
    have hahead := ahead_planned g
    have hfst : (g.stages.zipIdx.map fun p => (p.1, g.deadAfter p.2)).map Prod.fst = before ++ b :: after := by
      rw [List.map_map, ← hsplit]
      exact List.zipIdx_map_fst 0 g.stages
    have hnd : (before ++ b :: after).Nodup := hsplit ▸ g.names_nodup.of_map
    obtain ⟨-, hnd, hdisjoint⟩ := List.nodup_append.mp hnd
    obtain ⟨hb, -⟩ := List.nodup_cons.mp hnd
    have hfull : Full size (frameNames size) (g.stages.zipIdx.map fun p => (p.1, g.deadAfter p.2)) (fresh size) :=
      ⟨rfl, fun hsize => hsize, fun m hm _ => (nonEmpty_fresh m).mpr hm⟩
    obtain ⟨pre, t, post, hloop, hready, hskip⟩ := worst_run hreq (fun hin => hdisjoint b hin b List.mem_cons_self rfl)
      (fun st hst => ⟨fun hin => hdisjoint st hin st (List.mem_cons_of_mem _ hst) rfl, fun heq => hb (heq ▸ hst)⟩)
      hc hn hpixels hahead hfst (fun _ hst => hst) hfull hwb hwc
    obtain ⟨u, hu, hname, hstatus⟩ := (hsound _ (worst_declared before hprod)).1 pre t post hloop c.name hready
    have hin : u ∈ g.execute (worst before b n) (fresh size) := by
      rw [execute, hloop]
      exact List.mem_append_right _ hu
    have hstage : u.stage ∈ g.stages := execute_stages g (worst before b n) (fresh size) ▸ List.mem_map_of_mem hin
    have hcin : c ∈ g.stages := hsplit ▸ List.mem_append_right _ (List.mem_cons_of_mem _ hc)
    exact hstatus (hskip u hu (List.inj_on_of_nodup_map g.names_nodup hstage hcin hname))
  · have hstocked : Stocked size (frameNames size) (g.stages.zipIdx.map fun p => (p.1, g.deadAfter p.2)) (fresh size) :=
      ⟨fun n hn => (available_fresh n).mp hn, fun _ => rfl⟩
    have hfst : (g.stages.zipIdx.map fun p => (p.1, g.deadAfter p.2)).map Prod.fst = g.stages := by
      rw [List.map_map]
      exact List.zipIdx_map_fst 0 g.stages
    have hannounced := (run_announced hreq hdeclared (ahead_planned g) hstocked (hfst.symm ▸ hnever)).2
    exact ⟨hannounced, missingFailed_of hannounced (entry_turn hreq outcomes hentry)⟩

/-! ## The condition, read off the graph -/

theorem NeverReplaced.at_split : ∀ (before : List Stage) {names : List String} {b : Stage} {after : List Stage},
    NeverReplaced size names (before ++ b :: after) → within (before.foldl supplied names) b = true → ∀ c ∈ after,
      within (before.foldl supplied names) c = true → ∀ n ∈ c.requires, n ∈ b.produces → n ∈ frameNames size
  | [], _, _, _, h => h.1
  | _ :: before, _, _, _, h => NeverReplaced.at_split before h.2

/-- On an accepted graph every stage may run, on what the stages before it produce. -/
theorem supplied_all {modelChecks : Stage → Dict String Stage → Bool} : ∀ {before : List Stage} {b : Stage} {after : List Stage}
    {names : List String} {produced produced' : Dict String Stage},
    (before ++ b :: after).foldlM (checkStage modelChecks) produced = .ok produced' → frameInput ∈ names →
      (∀ n ∈ produced.keys, n ∈ names) → within (before.foldl supplied names) b = true ∧
        ∀ m, m ∈ before.foldl supplied names ↔ m ∈ names ∨ ∃ a ∈ before, m ∈ a.produces
  | before, b, after, names, produced, produced', h, hinput, hkeys => by
    have hhead : ∀ {st : Stage} {next : Dict String Stage}, checkStage modelChecks produced st = .ok next →
        within names st = true := by
      intro st next hst
      refine within_iff.mpr fun n hn => ?_
      cases (checkStage_ok hst).2.1 n (List.mem_append_left _ hn) with
      | inl h => exact h ▸ hinput
      | inr h => exact hkeys n h
    cases before with
    | nil =>
      rw [List.nil_append, List.foldlM_cons] at h
      obtain ⟨next, hb, -⟩ := bind_ok.mp h
      exact ⟨hhead hb, by simp⟩
    | cons a before =>
      rw [List.cons_append, List.foldlM_cons] at h
      obtain ⟨next, ha, h⟩ := bind_ok.mp h
      have hsupplied : supplied names a = names ++ a.produces := by rw [supplied, if_pos (hhead ha)]
      have hnext : ∀ n ∈ next.keys, n ∈ supplied names a := by
        intro n hn
        rw [(checkStage_ok ha).2.2, Dict.mem_keys_update] at hn
        rw [hsupplied]
        cases hn with
        | inl h => exact List.mem_append_left _ (hkeys n h)
        | inr h =>
          rw [List.map_map] at h
          exact List.mem_append_right _ (by simpa [Function.comp_def] using h)
      obtain ⟨hw, hmem⟩ := supplied_all h (supplied_of_mem hinput) hnext
      refine ⟨hw, fun m => ?_⟩
      rw [List.foldl_cons, hmem, hsupplied, List.mem_append, List.exists_mem_cons_iff, or_assoc]

/-- On a frame with pixels and a graph that is accepted: where a stage produces a name
that a later one requires, that one consumes another name not produced before. -/
theorem settled_iff {modelChecks : Stage → Dict String Stage → Bool} (hvalid : g.validate modelChecks = .ok ()) (hsize : size ≠ 0) :
    Settled g size ↔ ∀ before b after, g.stages = before ++ b :: after → ∀ c ∈ after, ∀ n ∈ c.requires, n ∈ b.produces →
      n ≠ frameInput → ∃ m ∈ c.consumes, m ≠ frameInput ∧ ∀ a ∈ before, m ∉ a.produces := by
  unfold validate at hvalid
  obtain ⟨produced, hstages, -⟩ := bind_ok.mp hvalid
  have hpixels : frameNames size = [frameInput] := if_neg hsize
  have hinput : frameInput ∈ frameNames size := hpixels ▸ List.mem_singleton_self _
  have hmay : ∀ before b after, g.stages = before ++ b :: after → within (before.foldl supplied (frameNames size)) b = true ∧
      ∀ m, m ∈ before.foldl supplied (frameNames size) ↔ m = frameInput ∨ ∃ a ∈ before, m ∈ a.produces := by
    intro before b after hsplit
    obtain ⟨hw, hmem⟩ := supplied_all (hsplit ▸ hstages) hinput fun n hn => (List.not_mem_nil hn).elim
    exact ⟨hw, fun m => by rw [hmem, hpixels, List.mem_singleton]⟩
  constructor
  · intro ⟨_, hnever⟩ before b after hsplit c hc n hn hprod hne
    obtain ⟨hwb, hmem⟩ := hmay before b after hsplit
    by_contra hnone
    push Not at hnone
    have hwc : within (before.foldl supplied (frameNames size)) c = true := by
      refine within_iff.mpr fun m hm => (hmem m).mpr ?_
      by_cases hm' : m = frameInput
      · exact .inl hm'
      · exact .inr (hnone m hm hm')
    have hin := NeverReplaced.at_split before (hsplit ▸ hnever) hwb c hc hwc n hn hprod
    rw [hpixels, List.mem_singleton] at hin
    exact hne hin
  · intro hothers
    obtain ⟨rest, hrest⟩ := entry_mem g
    refine ⟨(hmay [] g.entry rest hrest).1, ?_⟩
    by_contra hreplaced
    obtain ⟨before, b, after, c, n, hsplit, hc, -, hwc, hn, hprod, hnot⟩ := exists_of_replaced hreplaced
    rw [hpixels, List.mem_singleton] at hnot
    obtain ⟨m, hm, hne, hnone⟩ := hothers before b after hsplit c hc n hn hprod hnot
    cases ((hmay before b after hsplit).2 m).mp (within_iff.mp hwc m hm) with
    | inl h => exact hne h
    | inr h =>
      obtain ⟨a, ha, hma⟩ := h
      exact hnone a ha hma

/-! ## Two graphs -/

def detect : Stage := { name := "detect", consumes := ["image"], requires := ["image"], produces := ["detections"], drivesModel := true }

def crop (name : String) : Stage :=
  { name := name
    consumes := ["detections", "image"]
    requires := ["detections"]
    produces := ["ship_crops"]
    cardinality := .perObject
    expands := true }

def embed : Stage :=
  { name := "ship_embedder"
    consumes := ["ship_crops"]
    requires := ["ship_crops"]
    produces := ["ship_embedding"]
    cardinality := .perObject
    drivesModel := true }

def onePerName : PipelineGraph where
  stages := [detect, crop "crop", embed]
  fieldMap := [("embedding", ["ship_embedding"])]
  nonempty := List.cons_ne_nil _ _
  names_nodup := by decide

def croppedTwice : PipelineGraph where
  stages := [detect, crop "crop", crop "recrop", embed]
  fieldMap := [("embedding", ["ship_embedding"])]
  nonempty := List.cons_ne_nil _ _
  names_nodup := by decide

/-- A graph with one producer for each name runs all it announces. -/
theorem onePerName_sound : onePerName.validate (fun _ _ => true) = .ok () ∧
    ∀ outcomes, Declared onePerName outcomes → AnnouncedRun (onePerName.execute outcomes (fresh 6)) ∧
      MissingFailed onePerName (onePerName.execute outcomes (fresh 6)) := by
  have hvalid : onePerName.validate (fun _ _ => true) = .ok () := by decide
  refine ⟨hvalid, (planning_and_release hvalid 6).2.mpr ⟨by decide, ?_⟩⟩
  simp [onePerName, NeverReplaced, detect, crop, embed, within, supplied, frameNames, frameInput]

/-- The first crop finds two ships, the second none. -/
def noneTheSecondTime (st : Stage) : Outcome :=
  if st.name = "detect" then { effects := [.setDetections 2] }
  else if st.name = "crop" then { effects := [.attach "ship_crops" 2] }
  else if st.name = "recrop" then { effects := [.attach "ship_crops" 0] }
  else { failed := true }

/-- The embedder is announced after the first crop and skipped after the second; the frame
misses it though no stage failed. -/
theorem announced_and_skipped : croppedTwice.validate (fun _ _ => true) = .ok () ∧
    Declared croppedTwice noneTheSecondTime ∧
    (croppedTwice.execute noneTheSecondTime (fresh 6)).map (fun t => (t.ready, t.stage.name, t.status)) =
      [(["detect"], "detect", .ran), (["crop", "recrop"], "crop", .ran), (["recrop", "ship_embedder"], "recrop", .ran),
        ([], "ship_embedder", .skipped)] ∧
    ¬(AnnouncedRun (croppedTwice.execute noneTheSecondTime (fresh 6)) ∨
      MissingFailed croppedTwice (croppedTwice.execute noneTheSecondTime (fresh 6))) := by
  have hmap : (croppedTwice.execute noneTheSecondTime (fresh 6)).map (fun t => (t.ready, t.stage.name, t.status)) =
      [(["detect"], "detect", .ran), (["crop", "recrop"], "crop", .ran), (["recrop", "ship_embedder"], "recrop", .ran),
        ([], "ship_embedder", .skipped)] := by decide
  have hended : ∀ u ∈ croppedTwice.execute noneTheSecondTime (fresh 6), u.stage.name = "ship_embedder" → u.status = .skipped := by
    intro u hu hname
    have hin := List.mem_map_of_mem (f := fun t : Turn => (t.ready, t.stage.name, t.status)) hu
    rw [hmap] at hin
    simp [hname] at hin
    exact hin.2
  obtain ⟨t, ht, hready⟩ : Announced (croppedTwice.execute noneTheSecondTime (fresh 6)) "ship_embedder" := by
    have hin : (["recrop", "ship_embedder"], "recrop", StageStatus.ran) ∈
        (croppedTwice.execute noneTheSecondTime (fresh 6)).map (fun t => (t.ready, t.stage.name, t.status)) := by simp [hmap]
    obtain ⟨t, ht, heq⟩ := List.mem_map.mp hin
    refine ⟨t, ht, ?_⟩
    simp only [Prod.mk.injEq] at heq
    simp [heq.1]
  refine ⟨by decide, ?_, hmap, fun hsound => ?_⟩
  · intro st hst e he
    simp only [croppedTwice, List.mem_cons, List.not_mem_nil, or_false] at hst
    rcases hst with rfl | rfl | rfl | rfl <;> simp_all [noneTheSecondTime, detect, crop, embed, Effect.name, detectionsName]
  · cases hsound with
    | inl hannounced =>
      obtain ⟨before, after, hsplit⟩ := List.append_of_mem ht
      obtain ⟨u, hu, hname, hstatus⟩ := hannounced before t after hsplit "ship_embedder" hready
      exact hstatus (hended u (hsplit ▸ List.mem_append_right _ hu) hname)
    | inr hmissing =>
      obtain ⟨u, hu, hname, hstatus⟩ := (missingFailed_iff.mp hmissing "ship_embedder").mp
        ⟨.inr (.inl ⟨t, ht, hready⟩), fun ⟨u, hu, hname, hstatus⟩ => by rw [hended u hu hname] at hstatus; cases hstatus⟩
      rw [hended u hu hname] at hstatus
      cases hstatus

end PipelineGraph

end ShipInfer.Perception
