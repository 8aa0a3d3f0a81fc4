import Mathlib.Order.Nat
import ShipInfer.Lib.Machine

/-!
# The trace totals of a server's runs

`start`, `stop`, `_release` and `_trace_stats` of `engine/pool`, with the fields they
share. What runs under `_lifecycle_lock` is one step, all else has a step of
its own; a thread that waits takes none. `_control_lock`, which keeps teardowns apart,
is left out: the results hold without it.
-/

namespace ShipInfer.Engine.Tracing

/-- A `TraceSink`. `run` is the run that built it; a `NullTraceSink` is no run's. -/
structure Sink where
  name : String
  rate : Nat
  recorded : Nat := 0
  sampledOut : Nat := 0
  failed : Nat := 0
  counter : Nat := 0
  closed : Bool := false
  /-- Its `stats` answers. The base class's does; an override may raise. -/
  answers : Bool := true
  run : Option Nat
  deriving DecidableEq

def Sink.null : Sink := { name := "none", rate := 1, run := none }

/-- What `stats` says of the sink in place `source`. -/
structure Totals where
  source : Nat
  sink : String
  rate : Nat
  recorded : Nat
  sampledOut : Nat
  failed : Nat
  deriving DecidableEq

namespace Sink

def shouldRecord (k : Sink) : Sink × Bool :=
  if k.run.isNone ∨ k.closed then (k, false)
  else if k.counter % k.rate ≠ 0 then
    ({ k with counter := k.counter + 1, sampledOut := k.sampledOut + 1 }, false)
  else ({ k with counter := k.counter + 1 }, true)

/-- `raises` is whether `_do_record` does. -/
def record (k : Sink) (raises : Bool) : Sink × Bool :=
  if k.closed ∨ raises then ({ k with failed := k.failed + 1 }, false)
  else ({ k with recorded := k.recorded + 1 }, true)

def close (k : Sink) : Sink := { k with closed := true }

def stats (k : Sink) (source : Nat) : Totals :=
  { source, sink := k.name, rate := k.rate, recorded := k.recorded, sampledOut := k.sampledOut, failed := k.failed }

end Sink

/-- Where a call of `start` is, with the sink it built. -/
inductive StartAt
  | claimed
  | built (sink : Nat)
  /-- In the `except` branch, before `_stop_run`. -/
  | failed (sink : Option Nat)
  /-- Before `_abandon_start` closes its sink. -/
  | abandoning (sink : Option Nat)
  | over
  deriving DecidableEq

structure Start where
  run : Nat
  pc : StartAt := .claimed
  deriving DecidableEq

/-- Where a `_teardown` is. -/
inductive TeardownAt
  | entered
  /-- Past `_stale`: leaving the service tier and draining the models. -/
  | draining
  /-- Has read the sink off the field. -/
  | reading (sink : Nat)
  /-- Has read that sink's totals. -/
  | publishing (sink : Nat) (totals : Option Totals)
  | closing (sink : Nat)
  /-- In the `finally`. -/
  | returning
  | returned
  deriving DecidableEq

structure Teardown where
  run : Nat
  pc : TeardownAt := .entered
  deriving DecidableEq

inductive Answer
  | totals (t : Totals)
  /-- `{"sink": <name>, "error": "the trace sink raised in stats()"}` -/
  | raised (sink : Option String)
  deriving DecidableEq

/-- Where a call of `_trace_stats` is. -/
inductive ScrapeAt
  | called
  | snapped (last : Option Totals) (sink : Nat)
  /-- Found no totals and a closed sink. -/
  | rereading (sink : Nat)
  | asking (sink : Nat)
  | answered (a : Answer)
  deriving DecidableEq

structure Scrape where
  /-- The last run that had published its sink when the scrape began. -/
  began : Option Nat
  pc : ScrapeAt := .called
  deriving DecidableEq

structure State where
  generation : Nat := 0
  started : Bool := false
  starting : Bool := false
  tornDown : Bool := true
  /-- Every sink ever built; a sink is named by its place. -/
  sinks : List Sink := [.null]
  traces : Nat := 0
  lastTraceStats : Option Totals := none
  starts : List Start := []
  teardowns : List Teardown := []
  scrapes : List Scrape := []
  /-- The last run whose sink `_finish_start` installed. -/
  published : Option Nat := none
  deriving DecidableEq

inductive Event
  | start
  /-- `build_trace_sink`, for the start in place `i`. -/
  | build (i : Nat) (name : String) (rate : Nat) (answers : Bool)
  /-- Anything in the `try` of `start` raises. -/
  | fail (i : Nat)
  | unwind (i : Nat)
  | finish (i : Nat)
  | abandon (i : Nat)
  | stop
  /-- The next step of the teardown in place `i`. -/
  | release (i : Nat)
  /-- A teardown leaves by an exception it does not catch. -/
  | interrupt (i : Nat)
  /-- The barrier is set while a teardown is inside: it is overtaken. -/
  | overtake
  | sample (sink : Nat)
  | record (sink : Nat) (raises : Bool)
  | scrape
  /-- The next step of the scrape in place `i`. -/
  | read (i : Nat)
  deriving DecidableEq

namespace State

def setStart (s : State) (i : Nat) (st : Start) (pc : StartAt) : State :=
  { s with starts := s.starts.set i { st with pc } }

def setTeardown (s : State) (i : Nat) (td : Teardown) (pc : TeardownAt) : State :=
  { s with teardowns := s.teardowns.set i { td with pc } }

def setScrape (s : State) (i : Nat) (c : Scrape) (pc : ScrapeAt) : State :=
  { s with scrapes := s.scrapes.set i { c with pc } }

def touch (s : State) (j : Nat) (f : Sink → Sink) : State := { s with sinks := s.sinks.modify j f }

def sinkStats (s : State) (j : Nat) : Option Totals :=
  s.sinks[j]?.bind fun k => if k.answers then some (k.stats j) else none

/-- `_begin_start`. A claim that is answered or refused changes nothing. -/
def beginStart (s : State) : State :=
  if s.started ∨ s.starting ∨ ¬ s.tornDown then s
  else { s with generation := s.generation + 1, starting := true, tornDown := false,
                starts := s.starts ++ [{ run := s.generation + 1 }] }

def build (s : State) (i : Nat) (st : Start) (name : String) (rate : Nat) (answers : Bool) : State :=
  -- `trace rate must be >= 1, got <rate>`
  if rate < 1 then s.setStart i st (.failed none)
  else
    let sink : Sink := { name, rate, answers, run := some st.run }
    { s with sinks := s.sinks ++ [sink] }.setStart i st (.built s.sinks.length)

def finishStart (s : State) (generation sink : Nat) : State × Bool :=
  if s.generation ≠ generation ∨ ¬ s.starting then (s, false)
  else ({ s with started := true, starting := false, traces := sink, lastTraceStats := none,
                 published := some generation }, true)

/-- The locked part of `_stop_run`; a caller that clears the flags goes on to `_teardown`. -/
def stopRun (s : State) (generation : Option Nat) : State :=
  if generation.any (· ≠ s.generation) then s
  else if s.started ∨ s.starting then
    { s with started := false, starting := false, teardowns := s.teardowns ++ [{ run := s.generation }] }
  else s

def publishTotals (s : State) (sink : Nat) (totals : Option Totals) : State :=
  { s with
    lastTraceStats := if totals.isSome ∧ ¬ s.sinks[sink]?.any (·.run.isNone) then totals else s.lastTraceStats
    traces := s.sinks.length
    sinks := s.sinks ++ [.null] }

def release (s : State) (i : Nat) (td : Teardown) : State :=
  match td.pc with
  | .entered => s.setTeardown i td (if s.generation ≠ td.run then .returning else .draining)
  | .draining => s.setTeardown i td (if s.generation = td.run then .reading s.traces else .returning)
  | .reading j => s.setTeardown i td (.publishing j (s.sinkStats j))
  | .publishing j totals =>
    if s.generation = td.run then (s.publishTotals j totals).setTeardown i td (.closing j)
    else s.setTeardown i td .returning
  | .closing j => (s.touch j .close).setTeardown i td .returning
  | .returning => { s with tornDown := true }.setTeardown i td .returned
  | .returned => s

def traceStats (s : State) : ScrapeAt → ScrapeAt
  | .called => .snapped s.lastTraceStats s.traces
  | .snapped (some t) _ => .answered (.totals t)
  | .snapped none j => if s.sinks[j]?.any (·.closed) then .rereading j else .asking j
  | .rereading j => s.lastTraceStats.elim (.asking j) fun t => .answered (.totals t)
  | .asking j => .answered ((s.sinkStats j).elim (.raised (s.sinks[j]?.map (·.name))) .totals)
  | .answered a => .answered a

def startStep (s : State) (i : Nat) (st : Start) : Event → Option State
  | .build _ name rate answers => if st.pc = .claimed then some (s.build i st name rate answers) else none
  | .fail _ =>
    match st.pc with
    | .claimed => some (s.setStart i st (.failed none))
    | .built j => some (s.setStart i st (.failed (some j)))
    | _ => none
  | .unwind _ =>
    match st.pc with
    | .failed sink => some ((s.stopRun (some st.run)).setStart i st (.abandoning sink))
    | _ => none
  | .finish _ =>
    match st.pc with
    | .built j =>
      let r := s.finishStart st.run j
      some (r.1.setStart i st (if r.2 then .over else .abandoning (some j)))
    | _ => none
  | .abandon _ =>
    match st.pc with
    | .abandoning sink => some ((sink.elim s fun j => s.touch j .close).setStart i st .over)
    | _ => none
  | _ => none

def step (s : State) : Event → Option State
  | .start => some s.beginStart
  | .build i name rate answers => s.starts[i]?.bind fun st => s.startStep i st (.build i name rate answers)
  | .fail i => s.starts[i]?.bind fun st => s.startStep i st (.fail i)
  | .unwind i => s.starts[i]?.bind fun st => s.startStep i st (.unwind i)
  | .finish i => s.starts[i]?.bind fun st => s.startStep i st (.finish i)
  | .abandon i => s.starts[i]?.bind fun st => s.startStep i st (.abandon i)
  | .stop => some (s.stopRun none)
  | .release i => s.teardowns[i]?.map (s.release i)
  | .interrupt i => s.teardowns[i]?.map fun td => { s with tornDown := true }.setTeardown i td .returned
  | .overtake => some { s with tornDown := true }
  | .sample j => some (s.touch j (·.shouldRecord.1))
  | .record j raises => some (s.touch j fun k => (k.record raises).1)
  | .scrape => some { s with scrapes := s.scrapes ++ [{ began := s.published }] }
  | .read i => s.scrapes[i]?.map fun c => s.setScrape i c (s.traceStats c.pc)

end State

/-- A server from its construction on. -/
def machine : Machine State Event where
  init s := s = {}
  step s e t := s.step e = some t

/-- The sink that is built is a recording one: its `stats` answers. -/
def Event.recording : Event → Bool
  | .build _ _ _ answers => answers
  | _ => true

def recording : Machine State Event := machine.restrict fun _ e => e.recording = true

/-! ## What a sink keeps -/

/-- `k` later on: the counters only grow. -/
structure Sink.Grows (k k' : Sink) : Prop where
  name : k'.name = k.name
  rate : k'.rate = k.rate
  run : k'.run = k.run
  answers : k'.answers = k.answers
  recorded : k.recorded ≤ k'.recorded
  sampledOut : k.sampledOut ≤ k'.sampledOut
  failed : k.failed ≤ k'.failed

theorem Sink.grows_refl (k : Sink) : k.Grows k := ⟨rfl, rfl, rfl, rfl, le_rfl, le_rfl, le_rfl⟩

theorem Sink.Grows.trans {k k' k'' : Sink} (h : k.Grows k') (h' : k'.Grows k'') : k.Grows k'' :=
  ⟨h'.name.trans h.name, h'.rate.trans h.rate, h'.run.trans h.run, h'.answers.trans h.answers,
    h.recorded.trans h'.recorded, h.sampledOut.trans h'.sampledOut, h.failed.trans h'.failed⟩

theorem Sink.shouldRecord_grows (k : Sink) : k.Grows k.shouldRecord.1 := by
  unfold shouldRecord
  split
  · exact k.grows_refl
  · split <;> constructor <;> simp

theorem Sink.record_grows (k : Sink) (raises : Bool) : k.Grows (k.record raises).1 := by
  unfold record
  split <;> constructor <;> simp

theorem Sink.close_grows (k : Sink) : k.Grows k.close := by constructor <;> simp [close]

/-- The totals are those `k` had at some time. -/
structure Totals.Genuine (t : Totals) (k : Sink) : Prop where
  sink : t.sink = k.name
  rate : t.rate = k.rate
  recorded : t.recorded ≤ k.recorded
  sampledOut : t.sampledOut ≤ k.sampledOut
  failed : t.failed ≤ k.failed

theorem Sink.stats_genuine (k : Sink) (j : Nat) : (k.stats j).Genuine k := by constructor <;> simp [stats]

theorem Totals.Genuine.mono {t : Totals} {k k' : Sink} (h : t.Genuine k) (hk : k.Grows k') : t.Genuine k' :=
  ⟨h.sink.trans hk.name.symm, h.rate.trans hk.rate.symm, h.recorded.trans hk.recorded,
    h.sampledOut.trans hk.sampledOut, h.failed.trans hk.failed⟩

/-- No sink is lost, and each keeps its run. -/
def Grew (ks ks' : List Sink) : Prop := ∀ (j : Nat) (k : Sink), ks[j]? = some k → ∃ k', ks'[j]? = some k' ∧ k.Grows k'

theorem grew_refl (ks : List Sink) : Grew ks ks := fun _ k h => ⟨k, h, k.grows_refl⟩

theorem grew_append (ks : List Sink) (k : Sink) : Grew ks (ks ++ [k]) := by
  intro j k' h
  refine ⟨k', ?_, k'.grows_refl⟩
  rw [List.getElem?_append_left (List.getElem?_eq_some_iff.mp h).1, h]

theorem grew_modify (ks : List Sink) (j : Nat) {f : Sink → Sink} (hf : ∀ k : Sink, k.Grows (f k)) :
    Grew ks (ks.modify j f) := by
  intro i k h
  rw [List.getElem?_modify, h]
  by_cases hij : j = i
  · exact ⟨f k, by simp [hij], hf k⟩
  · exact ⟨k, by simp [hij], k.grows_refl⟩

namespace State

/-- The sink in place `j` is the one of the run `r`. -/
def SinkOf (s : State) (j r : Nat) : Prop := ∃ k, s.sinks[j]? = some k ∧ k.run = some r

/-- The totals are numbers of the run `r`: its sink had them. -/
def TotalsOf (s : State) (t : Totals) (r : Nat) : Prop :=
  ∃ k, s.sinks[t.source]? = some k ∧ k.run = some r ∧ t.Genuine k

/-- A run from `p` on has published its sink. -/
def Since (s : State) (p : Nat) : Prop := ∃ r, s.published = some r ∧ p ≤ r

/-! ## The invariant -/

/-- The pair a scrape snapshots: the sink of the last published run and no totals, or
a null sink and the totals of that run. -/
def Paired (s : State) : Prop :=
  ∃ k, s.sinks[s.traces]? = some k ∧
    ((k.run = s.published ∧ s.lastTraceStats = none) ∨
      (k.run = none ∧ ∃ t r, s.published = some r ∧ s.lastTraceStats = some t ∧ s.TotalsOf t r))

/-- The sink a teardown of the present run has read is the one in the field. -/
def Held (s : State) (td : Teardown) : Prop :=
  match td.pc with
  | .reading j => (∃ k, s.sinks[j]? = some k) ∧ (td.run = s.generation → j = s.traces)
  | .publishing j totals =>
    (∃ k t, s.sinks[j]? = some k ∧ totals = some t ∧ t.source = j ∧ t.Genuine k) ∧
      (td.run = s.generation → j = s.traces)
  | _ => True

def KeptAt (s : State) (p : Nat) : ScrapeAt → Prop
  | .called => True
  | .snapped (some t) _ => ∃ r, p ≤ r ∧ s.TotalsOf t r
  | .snapped none j | .rereading j | .asking j => ∃ r, p ≤ r ∧ s.SinkOf j r
  | .answered a => ∃ t r, a = .totals t ∧ p ≤ r ∧ s.TotalsOf t r

/-- A scrape that began after run `p` had published holds nothing older. -/
def Kept (s : State) (c : Scrape) : Prop := ∀ p, c.began = some p → s.Since p ∧ s.KeptAt p c.pc

structure Inv (s : State) : Prop where
  answers : ∀ k ∈ s.sinks, k.answers = true
  paired : s.Paired
  published : ∀ r, s.published = some r → r ≤ s.generation
  built : ∀ st ∈ s.starts, ∀ j, st.pc = .built j → s.SinkOf j st.run
  /-- A run is torn down once. -/
  once : ∀ (i i' : Nat) (td td' : Teardown), s.teardowns[i]? = some td → s.teardowns[i']? = some td' →
    td.run = td'.run → i = i'
  old : ∀ td ∈ s.teardowns, td.run ≤ s.generation
  /-- A server that is up has no teardown of its run. -/
  idle : s.started ∨ s.starting → ∀ td ∈ s.teardowns, td.run ≠ s.generation
  held : ∀ td ∈ s.teardowns, s.Held td
  kept : ∀ c ∈ s.scrapes, s.Kept c

/-! ## What lasts -/

variable {s t : State}

theorem SinkOf.mono (h : Grew s.sinks t.sinks) {j r : Nat} (hs : s.SinkOf j r) : t.SinkOf j r := by
  obtain ⟨k, hk, hr⟩ := hs
  obtain ⟨k', hk', hg⟩ := h j k hk
  exact ⟨k', hk', hg.run.trans hr⟩

theorem TotalsOf.mono (h : Grew s.sinks t.sinks) {u : Totals} {r : Nat} (hs : s.TotalsOf u r) : t.TotalsOf u r := by
  obtain ⟨k, hk, hr, hu⟩ := hs
  obtain ⟨k', hk', hg⟩ := h u.source k hk
  exact ⟨k', hk', hg.run.trans hr, hu.mono hg⟩

theorem Held.mono {td : Teardown} (h : Grew s.sinks t.sinks)
    (hsame : td.run = t.generation → td.run = s.generation ∧ t.traces = s.traces) (hs : s.Held td) : t.Held td := by
  unfold Held at hs ⊢
  cases hpc : td.pc with
  | reading j =>
    simp only [hpc] at hs ⊢
    obtain ⟨⟨k, hk⟩, htr⟩ := hs
    obtain ⟨k', hk', -⟩ := h j k hk
    refine ⟨⟨k', hk'⟩, fun hrun => ?_⟩
    rw [(hsame hrun).2]
    exact htr (hsame hrun).1
  | publishing j totals =>
    simp only [hpc] at hs ⊢
    obtain ⟨⟨k, u, hk, htot, hsrc, hgen⟩, htr⟩ := hs
    obtain ⟨k', hk', hg⟩ := h j k hk
    refine ⟨⟨k', u, hk', htot, hsrc, hgen.mono hg⟩, fun hrun => ?_⟩
    rw [(hsame hrun).2]
    exact htr (hsame hrun).1
  | _ => trivial

theorem Since.mono (hpub : ∀ r, s.published = some r → t.Since r) {p : Nat} (h : s.Since p) : t.Since p := by
  obtain ⟨r, hr, hp⟩ := h
  obtain ⟨r', hr', hle⟩ := hpub r hr
  exact ⟨r', hr', hp.trans hle⟩

theorem KeptAt.mono (h : Grew s.sinks t.sinks) {p : Nat} {pc : ScrapeAt} (hs : s.KeptAt p pc) : t.KeptAt p pc := by
  cases pc with
  | called => trivial
  | snapped last j =>
    cases last with
    | none =>
      obtain ⟨r, hp, hj⟩ := hs
      exact ⟨r, hp, hj.mono h⟩
    | some u =>
      obtain ⟨r, hp, hu⟩ := hs
      exact ⟨r, hp, hu.mono h⟩
  | rereading j | asking j =>
    obtain ⟨r, hp, hj⟩ := hs
    exact ⟨r, hp, hj.mono h⟩
  | answered a =>
    obtain ⟨u, r, ha, hp, hu⟩ := hs
    exact ⟨u, r, ha, hp, hu.mono h⟩

theorem Kept.mono (h : Grew s.sinks t.sinks) (hpub : ∀ r, s.published = some r → t.Since r) {c : Scrape}
    (hs : s.Kept c) : t.Kept c := by
  intro p hp
  obtain ⟨hsince, hat⟩ := hs p hp
  exact ⟨hsince.mono hpub, hat.mono h⟩

theorem Paired.mono (h : Grew s.sinks t.sinks) (htr : t.traces = s.traces) (hpub : t.published = s.published)
    (hlast : t.lastTraceStats = s.lastTraceStats) (hs : s.Paired) : t.Paired := by
  obtain ⟨k, hk, hor⟩ := hs
  obtain ⟨k', hk', hg⟩ := h _ k hk
  refine ⟨k', htr ▸ hk', ?_⟩
  rw [hg.run, hpub, hlast]
  refine hor.imp_right fun ⟨hnull, u, r, hr, hu, hof⟩ => ⟨hnull, u, r, hr, hu, hof.mono h⟩

/-! ## What the operations keep -/

theorem Inv.sinks (h : s.Inv) {ks : List Sink} (hks : Grew s.sinks ks) (ha : ∀ k ∈ ks, k.answers = true) :
    Inv { s with sinks := ks } where
  answers := ha
  paired := h.paired.mono hks rfl rfl rfl
  published := h.published
  built st hst j hj := (h.built st hst j hj).mono hks
  once := h.once
  old := h.old
  idle := h.idle
  held td htd := (h.held td htd).mono hks fun hrun => ⟨hrun, rfl⟩
  kept c hc := by
    apply Kept.mono hks _ (h.kept c hc)
    exact fun r hr => ⟨r, hr, le_rfl⟩

theorem Inv.touch (h : s.Inv) (j : Nat) {f : Sink → Sink} (hf : ∀ k : Sink, k.Grows (f k)) : (s.touch j f).Inv := by
  apply h.sinks (grew_modify s.sinks j hf)
  intro k hk
  obtain ⟨i, hi⟩ := List.getElem?_of_mem hk
  rw [List.getElem?_modify] at hi
  cases hs : s.sinks[i]? with
  | none => simp [hs] at hi
  | some k₀ =>
    have ha : k₀.answers = true := h.answers k₀ (List.mem_of_getElem? hs)
    by_cases hij : j = i
    · rw [← ha, ← (hf k₀).answers]
      simp_all
    · simp_all

theorem Inv.setStart (h : s.Inv) {i : Nat} {st : Start} {pc : StartAt} (hpc : ∀ j, pc = .built j → s.SinkOf j st.run) :
    (s.setStart i st pc).Inv where
  answers := h.answers
  paired := h.paired
  published := h.published
  built st' hst' j hj := by
    rcases List.mem_or_eq_of_mem_set hst' with hold | rfl
    · exact h.built st' hold j hj
    · exact hpc j hj
  once := h.once
  old := h.old
  idle := h.idle
  held := h.held
  kept := h.kept

theorem Inv.setTeardown (h : s.Inv) {i : Nat} {td : Teardown} {pc : TeardownAt} (hi : s.teardowns[i]? = some td)
    (hpc : s.Held { td with pc }) : (s.setTeardown i td pc).Inv where
  answers := h.answers
  paired := h.paired
  published := h.published
  built := h.built
  once := by
    have hrun : ∀ (l : Nat) (td' : Teardown), (s.setTeardown i td pc).teardowns[l]? = some td' →
        ∃ td₀, s.teardowns[l]? = some td₀ ∧ td₀.run = td'.run := by
      intro l td' hl
      simp only [State.setTeardown, List.getElem?_set] at hl
      split at hl
      · rename_i hil
        split at hl
        · simp only [Option.some.injEq] at hl
          exact ⟨td, hil ▸ hi, by rw [← hl]⟩
        · cases hl
      · exact ⟨td', hl, rfl⟩
    intro l l' td₁ td₂ h₁ h₂ heq
    obtain ⟨u₁, hu₁, hr₁⟩ := hrun l td₁ h₁
    obtain ⟨u₂, hu₂, hr₂⟩ := hrun l' td₂ h₂
    exact h.once l l' u₁ u₂ hu₁ hu₂ (by rw [hr₁, hr₂, heq])
  old td' htd' := by
    rcases List.mem_or_eq_of_mem_set htd' with hold | rfl
    · exact h.old td' hold
    · exact h.old td (List.mem_of_getElem? hi)
  idle hup td' htd' := by
    rcases List.mem_or_eq_of_mem_set htd' with hold | rfl
    · exact h.idle hup td' hold
    · exact h.idle hup td (List.mem_of_getElem? hi)
  held td' htd' := by
    rcases List.mem_or_eq_of_mem_set htd' with hold | rfl
    · exact h.held td' hold
    · exact hpc
  kept := h.kept

theorem Inv.setScrape (h : s.Inv) {i : Nat} {c : Scrape} {pc : ScrapeAt} (hpc : s.Kept { c with pc }) :
    (s.setScrape i c pc).Inv where
  answers := h.answers
  paired := h.paired
  published := h.published
  built := h.built
  once := h.once
  old := h.old
  idle := h.idle
  held := h.held
  kept c' hc' := by
    rcases List.mem_or_eq_of_mem_set hc' with hold | rfl
    · exact h.kept c' hold
    · exact hpc

theorem Inv.barrier (h : s.Inv) : Inv { s with tornDown := true } :=
  ⟨h.answers, h.paired, h.published, h.built, h.once, h.old, h.idle, h.held, h.kept⟩

theorem Inv.scrape (h : s.Inv) : Inv { s with scrapes := s.scrapes ++ [{ began := s.published }] } where
  answers := h.answers
  paired := h.paired
  published := h.published
  built := h.built
  once := h.once
  old := h.old
  idle := h.idle
  held := h.held
  kept c hc := by
    rcases List.mem_append.mp hc with hold | hnew
    · exact h.kept c hold
    · rw [List.mem_singleton.mp hnew]
      intro p hp
      exact ⟨⟨p, hp, le_rfl⟩, trivial⟩

theorem Inv.beginStart (h : s.Inv) : s.beginStart.Inv := by
  unfold State.beginStart
  split
  · exact h
  have hlt : ∀ td ∈ s.teardowns, td.run ≠ s.generation + 1 := by
    intro td htd
    have hold := h.old td htd
    omega
  exact {
    answers := h.answers
    paired := h.paired
    published := fun r hr => (h.published r hr).trans (Nat.le_succ _)
    built := by
      intro st hst j hj
      rcases List.mem_append.mp hst with hold | hnew
      · exact h.built st hold j hj
      · rw [List.mem_singleton.mp hnew] at hj
        cases hj
    once := h.once
    old := fun td htd => (h.old td htd).trans (Nat.le_succ _)
    idle := fun _ => hlt
    held := fun td htd => (h.held td htd).mono (grew_refl s.sinks) fun hrun => absurd hrun (hlt td htd)
    kept := by
      intro c hc
      refine Kept.mono ?_ ?_ (h.kept c hc)
      · exact grew_refl s.sinks
      · exact fun r hr => ⟨r, hr, le_rfl⟩ }

theorem Inv.build (h : s.Inv) (i : Nat) (st : Start) (name : String) (rate : Nat) :
    (s.build i st name rate true).Inv := by
  unfold State.build
  split
  · exact h.setStart fun j hj => by cases hj
  · apply (h.sinks (grew_append s.sinks _) _).setStart
    · intro j hj
      cases hj
      exact ⟨_, List.getElem?_concat_length, rfl⟩
    · intro k hk
      rcases List.mem_append.mp hk with hold | hnew
      · exact h.answers k hold
      · rw [List.mem_singleton.mp hnew]

theorem Inv.finishStart (h : s.Inv) {run j : Nat} (hj : s.SinkOf j run) : (s.finishStart run j).1.Inv := by
  unfold State.finishStart
  split
  · exact h
  rename_i hown
  simp only [ne_eq, not_or, not_not] at hown
  obtain ⟨hgen, hstarting⟩ := hown
  have hidle := h.idle (.inr hstarting)
  exact {
    answers := h.answers
    paired := by
      obtain ⟨k, hk, hrun⟩ := hj
      exact ⟨k, hk, .inl ⟨hrun, rfl⟩⟩
    published := by
      intro r hr
      cases hr
      exact hgen.ge
    built := h.built
    once := h.once
    old := h.old
    idle := fun _ => hidle
    held := fun td htd => (h.held td htd).mono (grew_refl s.sinks) fun hrun => absurd hrun (hidle td htd)
    kept := by
      intro c hc
      refine Kept.mono ?_ ?_ (h.kept c hc)
      · exact grew_refl s.sinks
      · intro r hr
        exact ⟨run, rfl, (h.published r hr).trans hgen.le⟩ }

theorem Inv.stopRun (h : s.Inv) (generation : Option Nat) : (s.stopRun generation).Inv := by
  unfold State.stopRun
  split
  · exact h
  split
  · rename_i hup
    have hidle := h.idle hup
    exact {
      answers := h.answers
      paired := h.paired
      published := h.published
      built := h.built
      once := by
        -- the teardown that comes to be is the first of its run
        have hnew : ∀ (l : Nat) (td : Teardown), (s.teardowns ++ [{ run := s.generation }])[l]? = some td →
            (l < s.teardowns.length ∧ s.teardowns[l]? = some td) ∨
              (l = s.teardowns.length ∧ td.run = s.generation) := by
          intro l td hl
          rw [List.getElem?_append] at hl
          split at hl
          · exact .inl ⟨by assumption, hl⟩
          · obtain ⟨hlt, htd⟩ := List.getElem?_eq_some_iff.mp hl
            simp only [List.length_singleton] at hlt
            refine .inr ⟨by omega, ?_⟩
            rw [← htd]
            simp
        intro l l' td td' hl hl' heq
        rcases hnew l td hl with ⟨-, hold⟩ | ⟨rfl, hrun⟩ <;> rcases hnew l' td' hl' with ⟨-, hold'⟩ | ⟨rfl, hrun'⟩
        · exact h.once l l' td td' hold hold' heq
        · exact absurd (heq.trans hrun') (hidle td (List.mem_of_getElem? hold))
        · exact absurd (heq.symm.trans hrun) (hidle td' (List.mem_of_getElem? hold'))
        · rfl
      old := by
        intro td htd
        rcases List.mem_append.mp htd with hold | hnew
        · exact h.old td hold
        · rw [List.mem_singleton.mp hnew]
      idle := by simp
      held := by
        intro td htd
        rcases List.mem_append.mp htd with hold | hnew
        · exact h.held td hold
        · rw [List.mem_singleton.mp hnew]
          trivial
      kept := h.kept }
  · exact h

/-- The swap, by the only teardown of the run. -/
theorem Inv.publishTotals (h : s.Inv) {u : Totals} {k : Sink} (hk : s.sinks[s.traces]? = some k)
    (hsrc : u.source = s.traces) (hgen : u.Genuine k) (hfree : ∀ td ∈ s.teardowns, td.run = s.generation →
      ∀ s' : State, s'.Held td) : (s.publishTotals s.traces (some u)).Inv := by
  have hgrew := grew_append s.sinks .null
  exact {
    answers := by
      intro k' hk'
      rcases List.mem_append.mp hk' with hold | hnew
      · exact h.answers k' hold
      · rw [List.mem_singleton.mp hnew]
        rfl
    paired := by
      refine ⟨.null, List.getElem?_concat_length, ?_⟩
      obtain ⟨k', hk', hor⟩ := h.paired
      rw [hk] at hk'
      cases hk'
      simp only [State.publishTotals, hk]
      rcases hor with ⟨hrun, hlast⟩ | ⟨hnull, v, r, hr, hv, hof⟩
      · cases hpub : s.published with
        | none =>
          refine .inl ⟨rfl, ?_⟩
          simp [hrun, hpub, hlast]
        | some r =>
          refine .inr ⟨rfl, u, r, rfl, by simp [hrun, hpub], ?_⟩
          refine TotalsOf.mono hgrew ⟨k, hsrc ▸ hk, hrun.trans hpub, hgen⟩
      · exact .inr ⟨rfl, v, r, hr, by simp [hnull, hv], hof.mono hgrew⟩
    published := h.published
    built := fun st hst j hj => (h.built st hst j hj).mono hgrew
    once := h.once
    old := h.old
    idle := h.idle
    held := by
      intro td htd
      by_cases hrun : td.run = s.generation
      · exact hfree td htd hrun _
      · exact (h.held td htd).mono hgrew fun hsame => absurd hsame hrun
    kept := by
      intro c hc
      apply Kept.mono hgrew _ (h.kept c hc)
      exact fun r hr => ⟨r, hr, le_rfl⟩ }

/-! ## The steps -/

theorem sinkStats_genuine (h : s.Inv) {j : Nat} {k : Sink} (hk : s.sinks[j]? = some k) :
    s.sinkStats j = some (k.stats j) := by
  simp [sinkStats, hk, h.answers k (List.mem_of_getElem? hk)]

theorem Inv.release (h : s.Inv) {i : Nat} {td : Teardown} (hi : s.teardowns[i]? = some td) : (s.release i td).Inv := by
  have hheld := h.held td (List.mem_of_getElem? hi)
  unfold State.release
  unfold Held at hheld
  cases hpc : td.pc with
  | entered =>
    apply h.setTeardown hi
    by_cases hrun : s.generation = td.run <;> simp [hrun, Held]
  | draining =>
    obtain ⟨k, hk, -⟩ := h.paired
    apply h.setTeardown hi
    by_cases hrun : s.generation = td.run
    · simp only [hrun, ↓reduceIte, Held]
      exact ⟨⟨k, hk⟩, fun _ => trivial⟩
    · simp [hrun, Held]
  | reading j =>
    simp only [hpc] at hheld
    obtain ⟨⟨k, hk⟩, htr⟩ := hheld
    apply h.setTeardown hi
    exact ⟨⟨k, k.stats j, hk, sinkStats_genuine h hk, rfl, k.stats_genuine j⟩, htr⟩
  | publishing j totals =>
    simp only [hpc] at hheld ⊢
    obtain ⟨⟨k, u, hk, rfl, hsrc, hgen⟩, htr⟩ := hheld
    split
    · rename_i hrun
      cases htr hrun.symm
      have hset : (s.setTeardown i td (.closing s.traces)).Inv := h.setTeardown hi trivial
      refine Inv.publishTotals hset hk hsrc hgen fun td' htd' hrun' s' => ?_
      -- the other teardowns are of other runs
      obtain ⟨l, hl⟩ := List.getElem?_of_mem htd'
      by_cases hil : i = l
      · subst hil
        rw [State.setTeardown, List.getElem?_set_self (List.getElem?_eq_some_iff.mp hi).1, Option.some.injEq] at hl
        subst hl
        trivial
      · simp only [State.setTeardown, List.getElem?_set_ne hil] at hl
        exact absurd (h.once i l td td' hi hl (hrun.symm.trans hrun'.symm)) hil
    · exact h.setTeardown hi trivial
  | closing j =>
    apply (h.touch j Sink.close_grows).setTeardown hi
    trivial
  | returning =>
    apply h.barrier.setTeardown hi
    trivial
  | returned => exact h

/-- What the pair says to a scrape that began after run `p` had published. -/
theorem snapshot_kept (h : s.Inv) {p : Nat} (hp : s.Since p) : s.KeptAt p (.snapped s.lastTraceStats s.traces) := by
  obtain ⟨r, hr, hle⟩ := hp
  obtain ⟨k, hk, ⟨hrun, hlast⟩ | ⟨-, t, r', hr', hlast, hof⟩⟩ := h.paired
  · rw [hlast]
    exact ⟨r, hle, k, hk, hrun.trans hr⟩
  · rw [hlast]
    rw [hr] at hr'
    cases hr'
    exact ⟨r, hle, hof⟩

theorem traceStats_kept (h : s.Inv) {p : Nat} (hp : s.Since p) {pc : ScrapeAt} (hpc : s.KeptAt p pc) :
    s.KeptAt p (s.traceStats pc) := by
  cases pc with
  | called => exact snapshot_kept h hp
  | snapped last j =>
    cases last with
    | none =>
      simp only [traceStats]
      split <;> exact hpc
    | some t =>
      obtain ⟨r, hle, hof⟩ := hpc
      exact ⟨t, r, rfl, hle, hof⟩
  | rereading j =>
    cases hlast : s.lastTraceStats with
    | none =>
      simp only [traceStats, hlast, Option.elim_none]
      exact hpc
    | some t =>
      have hsnap := snapshot_kept h hp
      rw [hlast] at hsnap
      obtain ⟨r, hle, hof⟩ := hsnap
      simp only [traceStats, hlast, Option.elim_some]
      exact ⟨t, r, rfl, hle, hof⟩
  | asking j =>
    obtain ⟨r, hle, k, hk, hrun⟩ := hpc
    simp only [traceStats, sinkStats_genuine h hk, Option.elim_some]
    exact ⟨k.stats j, r, rfl, hle, k, hk, hrun, k.stats_genuine j⟩
  | answered a => exact hpc

theorem Inv.startStep (h : s.Inv) {i : Nat} {st : Start} (hst : st ∈ s.starts) {e : Event}
    (he : e.recording = true) (hstep : s.startStep i st e = some t) : t.Inv := by
  cases e with
  | build _ name rate answers =>
    simp only [State.startStep] at hstep
    split at hstep
    · cases hstep
      cases he
      exact h.build i st name rate
    · cases hstep
  | fail =>
    simp only [State.startStep] at hstep
    split at hstep <;> cases hstep
    · exact h.setStart fun j hj => by cases hj
    · exact h.setStart fun j hj => by cases hj
  | unwind =>
    simp only [State.startStep] at hstep
    split at hstep <;> cases hstep
    exact (h.stopRun (some st.run)).setStart fun j hj => by cases hj
  | finish =>
    simp only [State.startStep] at hstep
    split at hstep <;> cases hstep
    rename_i j hpc
    refine (h.finishStart (h.built st hst j hpc)).setStart fun j' hj' => ?_
    split at hj' <;> cases hj'
  | abandon =>
    simp only [State.startStep] at hstep
    split at hstep <;> cases hstep
    rename_i sink _
    cases sink with
    | none => exact h.setStart fun j hj => by cases hj
    | some j => exact (h.touch j Sink.close_grows).setStart fun j hj => by cases hj
  | _ => cases hstep

theorem Inv.step (h : s.Inv) {e : Event} (he : e.recording = true) (hstep : s.step e = some t) : t.Inv := by
  have hstart : ∀ (i : Nat), (s.starts[i]?.bind fun st => s.startStep i st e) = some t → t.Inv := by
    intro i hi
    obtain ⟨st, hst, ht⟩ := Option.bind_eq_some_iff.mp hi
    exact h.startStep (List.mem_of_getElem? hst) he ht
  cases e with
  | start =>
    cases hstep
    exact h.beginStart
  | build i | fail i | unwind i | finish i | abandon i => exact hstart i hstep
  | stop =>
    cases hstep
    exact h.stopRun none
  | release i =>
    obtain ⟨td, hi, rfl⟩ := Option.map_eq_some_iff.mp hstep
    exact h.release hi
  | interrupt i =>
    obtain ⟨td, hi, rfl⟩ := Option.map_eq_some_iff.mp hstep
    apply h.barrier.setTeardown hi
    trivial
  | overtake =>
    cases hstep
    exact h.barrier
  | sample j =>
    cases hstep
    exact h.touch j Sink.shouldRecord_grows
  | record j raises =>
    cases hstep
    exact h.touch j fun k => k.record_grows raises
  | scrape =>
    cases hstep
    exact h.scrape
  | read i =>
    obtain ⟨c, hi, rfl⟩ := Option.map_eq_some_iff.mp hstep
    apply h.setScrape
    intro p hp
    obtain ⟨hsince, hat⟩ := h.kept c (List.mem_of_getElem? hi) p hp
    exact ⟨hsince, traceStats_kept h hsince hat⟩

theorem inv_init : ({} : State).Inv where
  answers := by simp [Sink.null]
  paired := ⟨.null, rfl, .inl ⟨rfl, rfl⟩⟩
  published := by simp
  built := by simp
  once := by simp
  old := by simp
  idle := by simp
  held := by simp
  kept := by simp

end State

theorem recording_inv {s : State} (h : recording.Reachable s) : s.Inv := by
  refine h.invariant (I := State.Inv) ?_ ?_
  · rintro s rfl
    exact State.inv_init
  · intro s e t hs hst
    exact hs.step hst.2 hst.1

/-- A scrape snapshots the live sink; the run is torn down before the scrape asks whether
that sink is closed. -/
def overtakenScrape : List Event :=
  [.start, .build 0 "jsonlines" 1 true, .finish 0, .sample 1, .record 1 false, .scrape, .read 0, .stop,
    .release 0, .release 0, .release 0, .release 0, .release 0, .read 0, .read 0]

def recordingStep (s : State) (e : Event) : Option State := if e.recording then s.step e else none

/-- The state the script leads to. -/
def afterTeardown : State := (overtakenScrape.foldlM recordingStep {}).getD {}

theorem afterTeardown_reachable : recording.Reachable afterTeardown := by
  refine Machine.reachable_foldlM (f := recordingStep) ?_ overtakenScrape (.init rfl) (by decide +kernel)
  intro s e t h
  unfold recordingStep at h
  split at h
  · exact ⟨h, by assumption⟩
  · cases h

end ShipInfer.Engine.Tracing
