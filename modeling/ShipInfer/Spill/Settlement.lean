import ShipInfer.Spill.Reader

/-!
# Futures are settled once

A step moves registrations between the table, the hands of the thread and the
settled futures, and loses none as long as nobody registers under a pending id
(`Conserves`). Nothing is registered after the last sweep either: then the
table is empty when the thread has gone. A registration that comes later is
never settled.
-/

namespace ShipInfer.Spill.ResultReader

variable {ρ : Type} {cfg : ReaderConfig} {s : ResultReader ρ}

/-- The registration a step makes. -/
def registers (s : ResultReader ρ) : ReaderEvent ρ → List Nat
  | .expect _ _ _ => [s.registered]
  | _ => []

/-- After the last sweep the table stays empty, and the thread that has gone
holds nothing. -/
def Swept (s : ResultReader ρ) : Prop := s.swept = true → s.pending.entries = []

structure Conserves (s : ResultReader ρ) (e : ReaderEvent ρ) (a : Step ρ) : Prop where
  perm : (a.2.map Prod.fst ++ a.1.unsettled).Perm (s.unsettled ++ s.registers e)
  registered : a.1.registered = s.registered + (s.registers e).length
  swept : a.1.Swept

theorem Conserves.still (h : s.Swept) {e : ReaderEvent ρ} (he : s.registers e = []) : Conserves s e (s, []) :=
  ⟨by rw [he, List.append_nil]; exact .refl _, by rw [he]; rfl, h⟩

theorem unsettled_looping (h : s.phase = .looping) : s.unsettled = s.pending.entries.map fun p => p.2.future := by
  rw [unsettled, hands, h]; rfl

/-! ## Out of the table -/

theorem takeOut_unsettled (h : s.phase = .looping) (which : Int × Entry → Bool) (settled : Entry → Settled ρ) :
    (s.takeOut which settled).unsettled.Perm s.unsettled := by
  rw [unsettled_looping h]
  have hsplit := (List.filter_append_perm which s.pending.entries).map fun p => p.2.future
  rw [List.map_append] at hsplit
  simp only [unsettled, hands, takeOut, List.map_map]
  exact hsplit

theorem resolve_unsettled (h : s.phase = .looping) (owner : String) (payload : Payload ρ) :
    (s.resolve owner payload).unsettled.Perm s.unsettled := by
  unfold resolve
  cases hg : s.pending.get? payload.requestId with
  | none => exact .refl _
  | some e =>
    rw [unsettled_looping h]
    exact ((Dict.entries_perm hg).map fun p => p.2.future).symm

theorem failStranded_unsettled (h : s.phase = .looping) : s.failStranded.unsettled.Perm s.unsettled := by
  rw [unsettled_looping h]
  simp only [unsettled, hands, failStranded, List.map_map, Dict.entries_empty, List.map_nil, List.append_nil]
  exact .refl _

theorem checkHeartbeat_unsettled (h : s.phase = .looping) (owner : String) (closed : Bool) (stamped now : Int) :
    (s.checkHeartbeat cfg owner closed stamped now).unsettled.Perm s.unsettled := by
  unfold checkHeartbeat
  split
  · exact .refl _
  split
  · exact .refl _
  split
  · exact .refl _
  · exact takeOut_unsettled (s := { s with lost := s.lost ++ [owner] }) h _ _

/-! ## Steps -/

theorem Conserves.looping (h : s.Swept) {e : ReaderEvent ρ} (he : s.registers e = []) {next : ResultReader ρ}
    (hnext : s.phase = .looping →
      next.unsettled.Perm s.unsettled ∧ next.registered = s.registered ∧ next.Swept) :
    Conserves s e (s.looping next) := by
  unfold ResultReader.looping
  cases hp : s.phase with
  | looping =>
    obtain ⟨hperm, hreg, hswept⟩ := hnext hp
    refine ⟨?_, by rw [he]; exact hreg, hswept⟩
    rw [he, List.append_nil]
    exact hperm
  | _ => exact .still h he

theorem resolve_frame (h : s.phase = .looping) (owner : String) (payload : Payload ρ) :
    (s.resolve owner payload).registered = s.registered ∧ (s.resolve owner payload).swept = false := by
  unfold resolve
  split
  · exact ⟨rfl, by rw [ResultReader.swept, h]⟩
  · exact ⟨rfl, rfl⟩

theorem checkHeartbeat_frame (h : s.phase = .looping) (owner : String) (closed : Bool) (stamped now : Int) :
    (s.checkHeartbeat cfg owner closed stamped now).registered = s.registered ∧
      (s.checkHeartbeat cfg owner closed stamped now).swept = false := by
  have hs : s.swept = false := by rw [ResultReader.swept, h]
  unfold checkHeartbeat
  split
  · exact ⟨rfl, hs⟩
  split
  · exact ⟨rfl, hs⟩
  split
  · exact ⟨rfl, hs⟩
  · exact ⟨rfl, rfl⟩

theorem swept_of_false {t : ResultReader ρ} (h : t.swept = false) : t.Swept := fun ht => by
  rw [h] at ht; cases ht

/-- A new id: the table gains an entry and loses none. -/
theorem expect_unsettled {item : WorkItem} (h : item.request.requestId ∉ s.pending.keys) (owner : String) (now : Int) :
    (s.expect cfg item owner now).unsettled = s.unsettled ++ [s.registered] := by
  have hentries := Dict.set_entries_of_new (v := (⟨s.registered, item, owner, now + cfg.pendingDeadlineNs⟩ : Entry)) h
  simp only [unsettled, expect, hentries, List.map_append, List.map_cons, List.map_nil, List.append_assoc]
  rfl

theorem settle_conserves (h : s.Swept) : Conserves s .settle s.settle := by
  unfold settle
  cases hp : s.phase with
  | looping => exact .still h rfl
  | exited => exact .still h rfl
  | settling hands =>
    cases hands with
    | nil =>
      refine ⟨?_, rfl, swept_of_false rfl⟩
      simp only [unsettled, ResultReader.hands, hp]
      exact (List.append_nil _).symm ▸ .refl _
    | cons p hands =>
      refine ⟨?_, rfl, swept_of_false rfl⟩
      simp only [unsettled, ResultReader.hands, hp]
      exact (List.append_nil _).symm ▸ .refl _
  | sweeping hands =>
    have hempty : s.pending.entries = [] := h (by rw [ResultReader.swept, hp])
    cases hands with
    | nil =>
      refine ⟨?_, rfl, fun _ => hempty⟩
      simp only [unsettled, ResultReader.hands, hp]
      exact (List.append_nil _).symm ▸ .refl _
    | cons p hands =>
      refine ⟨?_, rfl, fun _ => hempty⟩
      simp only [unsettled, ResultReader.hands, hp]
      exact (List.append_nil _).symm ▸ .refl _

variable (cfg) in
theorem step_conserves (h : s.Swept) {e : ReaderEvent ρ} (hin : s.InTime e) : Conserves s e (s.step cfg e) := by
  have hstranded : s.phase = .looping →
      s.failStranded.unsettled.Perm s.unsettled ∧ s.failStranded.registered = s.registered ∧ s.failStranded.Swept :=
    fun hp => ⟨failStranded_unsettled hp, rfl, fun _ => rfl⟩
  cases e with
  | expect item owner now =>
    obtain ⟨hswept, hnew⟩ := hin
    refine ⟨?_, rfl, swept_of_false hswept⟩
    show (s.expect cfg item owner now).unsettled.Perm _
    rw [expect_unsettled hnew]
    exact .refl _
  | watch owner => exact ⟨(List.append_nil _).symm ▸ .refl _, rfl, h⟩
  | stop => exact ⟨(List.append_nil _).symm ▸ .refl _, rfl, h⟩
  | result owner payload =>
    refine .looping h rfl fun hp => ⟨resolve_unsettled hp owner payload, ?_⟩
    exact ⟨(resolve_frame hp owner payload).1, swept_of_false (resolve_frame hp owner payload).2⟩
  | heartbeat owner closed stamped now =>
    refine .looping h rfl fun hp => ⟨checkHeartbeat_unsettled hp owner closed stamped now, ?_⟩
    exact ⟨(checkHeartbeat_frame hp owner closed stamped now).1,
      swept_of_false (checkHeartbeat_frame hp owner closed stamped now).2⟩
  | expire now =>
    exact .looping h rfl fun hp => ⟨takeOut_unsettled hp _ _, rfl, swept_of_false rfl⟩
  | settle => exact settle_conserves h
  | leave =>
    simp only [step]
    split
    · exact .looping h rfl hstranded
    · exact .still h rfl
  | raise => exact .looping h rfl hstranded

/-! ## Runs -/

theorem range_registers (s : ResultReader ρ) (e : ReaderEvent ρ) :
    List.range s.registered ++ s.registers e = List.range (s.registered + (s.registers e).length) := by
  cases e with
  | expect item owner now => exact List.range_succ.symm
  | _ => exact List.append_nil _

/-- Along a run that registers in time, what was settled and what is not yet are
the registrations, each once. -/
theorem exec_conserves : ∀ (events : List (ReaderEvent ρ)) {s : ResultReader ρ} {settled : List Nat}, s.Swept →
    (settled ++ s.unsettled).Perm (List.range s.registered) → Machine.Along (step cfg) InTime s events →
    (Machine.exec (step cfg) s events).1.Swept ∧
    (settled ++ (Machine.exec (step cfg) s events).2.flatten.map Prod.fst ++
        (Machine.exec (step cfg) s events).1.unsettled).Perm
      (List.range (Machine.exec (step cfg) s events).1.registered)
  | [], s, settled, hs, hperm, _ => ⟨hs, by simpa only [Machine.exec, List.flatten_nil, List.map_nil, List.append_nil]⟩
  | e :: events, s, settled, hs, hperm, halong => by
    have hstep := step_conserves cfg hs halong.1
    have hnext : (settled ++ (s.step cfg e).2.map Prod.fst ++ (s.step cfg e).1.unsettled).Perm
        (List.range (s.step cfg e).1.registered) := by
      rw [hstep.registered, ← range_registers, List.append_assoc]
      refine (hstep.perm.append_left settled).trans ?_
      rw [← List.append_assoc]
      exact hperm.append_right _
    obtain ⟨hswept, hall⟩ := exec_conserves events hstep.swept hnext halong.2
    refine ⟨hswept, ?_⟩
    simp only [Machine.exec, List.flatten_cons, List.map_append]
    rw [← List.append_assoc settled]
    exact hall

/-- **Settled once.** As long as registrations come in time, every registered
request is pending, in the thread's hands or settled, one of these and once; and
when the thread has gone nothing is pending, and every registered request was
settled once, with one outcome. -/
theorem settled_once (cfg : ReaderConfig) (events : List (ReaderEvent ρ))
    (h : Machine.Along (step cfg) InTime {} events) :
    let s := (run cfg events).1
    let settled := (run cfg events).2
    (∀ f < s.registered, (settled.map Prod.fst).count f + s.unsettled.count f = 1) ∧
    (∀ p ∈ settled, p.1 < s.registered) ∧
    (s.phase = .exited → s.pending.entries = [] ∧
      ∀ f < s.registered, ∃ outcome, settled.filter (fun p => decide (p.1 = f)) = [(f, outcome)]) := by
  intro s settled
  have hstart : ([] ++ ({} : ResultReader ρ).unsettled).Perm (List.range ({} : ResultReader ρ).registered) := .refl _
  obtain ⟨hswept, hperm⟩ := exec_conserves events (fun _ => rfl) hstart h
  have hperm : (settled.map Prod.fst ++ s.unsettled).Perm (List.range s.registered) := hperm
  have hcount : ∀ f < s.registered, (settled.map Prod.fst).count f + s.unsettled.count f = 1 := by
    intro f hf
    rw [← List.count_append, hperm.count_eq]
    exact List.count_eq_one_of_mem List.nodup_range (List.mem_range.mpr hf)
  refine ⟨hcount, fun p hp => ?_, fun hexit => ?_⟩
  · exact List.mem_range.mp (hperm.subset (List.mem_append_left _ (List.mem_map_of_mem hp)))
  · have hswept : s.Swept := hswept
    have hpending : s.pending.entries = [] := hswept (by rw [swept, hexit])
    refine ⟨hpending, fun f hf => ?_⟩
    have hnone : s.unsettled = [] := by rw [unsettled, hands, hexit, hpending]; rfl
    have hone := hcount f hf
    rw [hnone, List.count_nil, List.count_eq_countP, List.countP_map, List.countP_eq_length_filter] at hone
    obtain ⟨⟨f', outcome⟩, hfilter⟩ := List.length_eq_one_iff.mp hone
    have hmem : (f', outcome) ∈ settled.filter ((· == f) ∘ Prod.fst) := hfilter ▸ List.mem_singleton_self _
    have hf' : f' = f := by simpa using (List.mem_filter.mp hmem).2
    refine ⟨outcome, ?_⟩
    rw [← hf', ← hfilter, hf']
    exact List.filter_congr fun p _ => by simp [beq_eq_decide]

def frameItem (requestId : Int) (cameraId : String) (frameId : Int) : WorkItem :=
  { request :=
      { modelName := "detector"
        inputs := .empty
        requestId := requestId
        context := { cameraId := cameraId, frameId := frameId } } }

/-- Every cause once: a result, an expiry, a loss, and a stop with one request
in the thread's hands. -/
def fourCauses : List (ReaderEvent Unit) :=
  [.watch "b", .expect (frameItem 1 "bow" 10) "a" 0, .expect (frameItem 2 "bow" 11) "a" 0,
    .expect (frameItem 3 "stern" 7) "b" 5, .expect (frameItem 4 "stern" 8) "a" 5, .result "a" ⟨1, .response ()⟩,
    .settle, .settle, .heartbeat "b" false 0 9, .stop, .settle, .settle, .expire 101, .settle, .settle, .leave, .settle,
    .settle]

def second : ReaderConfig := ⟨5, 100⟩

theorem four_causes_settled_once :
    (run second fourCauses).2.map (fun p => (p.1, p.2.cause)) = [(0, .result), (2, .peerLoss), (1, .expiry), (3, .stop)] ∧
    ∀ f < (run second fourCauses).1.registered,
      ∃ outcome, (run second fourCauses).2.filter (fun p => decide (p.1 = f)) = [(f, outcome)] :=
  ⟨by decide, ((settled_once second fourCauses (by decide)).2.2 rfl).2⟩

/-! ## Too late -/

variable (cfg) in
theorem step_exited (h : s.phase = .exited) (e : ReaderEvent ρ) :
    (s.step cfg e).1.phase = .exited ∧ (s.step cfg e).2 = [] := by
  have hlooping : ∀ next : ResultReader ρ, s.looping next = (s, []) := by
    intro next
    rw [looping, h]
  cases e with
  | expect item owner now => exact ⟨h, rfl⟩
  | watch owner => exact ⟨h, rfl⟩
  | stop => exact ⟨h, rfl⟩
  | settle =>
    simp only [step, settle, h]
    exact ⟨trivial, trivial⟩
  | leave =>
    simp only [step, hlooping, ite_self]
    exact ⟨h, trivial⟩
  | _ =>
    simp only [step, hlooping]
    exact ⟨h, trivial⟩

variable (cfg) in
/-- The thread that has gone settles nothing more. -/
theorem exited_silent : ∀ (events : List (ReaderEvent ρ)) {s : ResultReader ρ}, s.phase = .exited →
    (Machine.exec (step cfg) s events).1.phase = .exited ∧ (Machine.exec (step cfg) s events).2.flatten = []
  | [], _, h => ⟨h, rfl⟩
  | e :: events, s, h => by
    have hstep := step_exited cfg h e
    obtain ⟨hphase, hout⟩ := exited_silent events hstep.1
    exact ⟨hphase, by rw [Machine.exec, List.flatten_cons, hstep.2, hout]; rfl⟩

def tooLate : List (ReaderEvent Unit) := [.stop, .leave, .settle, .expect (frameItem 1 "bow" 10) "a" 0]

def reused : List (ReaderEvent Unit) :=
  [.expect (frameItem 1 "bow" 10) "a" 0, .expect (frameItem 1 "bow" 10) "b" 0, .stop, .leave, .settle, .settle]

/-- A registration that slips in after the last sweep is pending when the thread
has gone, and whatever comes, its future is never settled; nor is the first of
two under one id. -/
theorem stranded_registrations :
    ((run second tooLate).1.phase = .exited ∧ (run second tooLate).1.pending.keys = [1] ∧
      ∀ events : List (ReaderEvent Unit),
        (run second (tooLate ++ events)).1.phase = .exited ∧ (run second (tooLate ++ events)).2 = []) ∧
    (run second reused).1.phase = .exited ∧ (run second reused).1.registered = 2 ∧
      (run second reused).2.map Prod.fst = [1] := by
  have hexit : (Machine.exec (step second) {} tooLate).1.phase = .exited := rfl
  refine ⟨⟨hexit, rfl, fun events => ?_⟩, rfl, rfl, rfl⟩
  obtain ⟨hphase, hout⟩ := exited_silent second events hexit
  simp only [run, Machine.exec_append, List.flatten_append, hout, List.append_nil]
  exact ⟨hphase, rfl⟩

end ShipInfer.Spill.ResultReader
