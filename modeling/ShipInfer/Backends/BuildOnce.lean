import ShipInfer.Backends.Autobuild

/-!
# One build at a time

A call that holds the lock owns the file at its name, and a lock taken for abandoned
is one whose creator has died or is through with it. Under what a step may meet there
is one builder at a time, and the plan is put in place whole and once.
-/

namespace ShipInfer.Backends.Autobuild

/-! ## What the steps are to meet -/

/-- No build outlasts the build timeout: a lock that old is not held by a living call. -/
def timely (s : State) : Event → Bool
  | .act c choice =>
    match s.calls[c]?, s.lock with
    | some call, some file => !(call.phase == .aging && choice.old && s.inside file.creator)
    | _, _ => true
  | _ => true

/-- A takeover unlinks the file it judged or none, and the lock is created while the
plan is not in place. -/
def careful (s : State) : Event → Bool
  | .act c _ =>
    match s.calls[c]? with
    | none => true
    | some call =>
      match s.lock, call.phase with
      | some file, .seizing judged => !s.alive call.process || judged == some file.creator
      | none, .opening => !s.alive call.process || s.target.isNone
      | _, _ => true
  | _ => true

theorem timely_act {s : State} {c : Nat} {choice : Choice} (h : timely s (.act c choice) = true) {call : Call}
    {file : LockFile} (hcall : s.calls[c]? = some call) (hphase : call.phase = .aging) (hold : choice.old = true)
    (hlock : s.lock = some file) : ¬Inside s file.creator := by
  simp [timely, hcall, hlock, hphase, hold] at h
  simp [Inside, h]

theorem careful_seizing {s : State} {c : Nat} {choice : Choice} (h : careful s (.act c choice) = true) {call : Call}
    {judged : Option Nat} {file : LockFile} (hcall : s.calls[c]? = some call) (halive : s.alive call.process = true)
    (hphase : call.phase = .seizing judged) (hlock : s.lock = some file) : judged = some file.creator := by
  simpa [careful, hcall, hlock, hphase, halive] using h

theorem careful_opening {s : State} {c : Nat} {choice : Choice} (h : careful s (.act c choice) = true) {call : Call}
    (hcall : s.calls[c]? = some call) (halive : s.alive call.process = true) (hphase : call.phase = .opening)
    (hlock : s.lock = none) : s.target = none := by
  simpa [careful, hcall, hlock, hphase, halive] using h

/-! ## The invariant -/

/-- Past the creation of a lock, or through. -/
def Phase.passed (phase : Phase) : Prop := phase.holds = true ∨ phase = .returned ∨ phase = .raised

/-- A call that can hold no lock any more. -/
def Spent (s : State) (c : Nat) : Prop :=
  ∃ call, s.calls[c]? = some call ∧
    (call.phase = .returned ∨ call.phase = .raised ∨ call.phase.holds = true ∧ s.alive call.process = false)

def Owns (s : State) (c : Nat) : Prop := ∃ file, s.lock = some file ∧ file.creator = c

def pidOf (s : State) (process : Nat) : Option Nat := (s.processes[process]?).map Process.pid

/-- What a lock file says of its creator. -/
def Recorded (s : State) (file : LockFile) : Prop :=
  ∃ call, s.calls[file.creator]? = some call ∧ call.phase.passed ∧
    ∀ pid, file.pid = some pid → pidOf s call.process = some pid

def CallInv (s : State) (c : Nat) (call : Call) : Prop :=
  match call.phase with
  | .probing file => Recorded s file ∧ file.pid.isSome = true
  | .seizing (some judged) => Spent s judged
  | .created | .ready | .building _ => s.alive call.process = true → Owns s c ∧ s.target = none
  | .placing build =>
    s.alive call.process = true → Owns s c ∧ s.target = none ∧ s.staging = some (.whole build) ∧ build ∈ s.completed
  | .cleaning | .closing true => s.alive call.process = true → Owns s c
  | .closing false => s.alive call.process = true → Owns s c ∧ s.target.isSome = true
  | _ => True

structure Inv (s : State) : Prop where
  known : ∀ (c : Nat) (call : Call), s.calls[c]? = some call → call.process < s.processes.length
  calls : ∀ (c : Nat) (call : Call), s.calls[c]? = some call → CallInv s c call
  lock : ∀ file, s.lock = some file → Recorded s file ∧ ∃ call, s.calls[file.creator]? = some call ∧ call.phase.holds = true
  target : ∀ content, s.target = some content → ∃ build ∈ s.completed, content = .whole build

variable {s s' : State}

theorem Inv.owns (h : Inv s) {c : Nat} (hc : Inside s c) : Owns s c := by
  obtain ⟨call, hcall, hholds, halive⟩ := inside_iff.mp hc
  have hinv := h.calls c call hcall
  unfold CallInv at hinv
  cases hp : call.phase with
  | created => rw [hp] at hinv; exact (hinv halive).1
  | ready => rw [hp] at hinv; exact (hinv halive).1
  | building build => rw [hp] at hinv; exact (hinv halive).1
  | placing build => rw [hp] at hinv; exact (hinv halive).1
  | cleaning => rw [hp] at hinv; exact hinv halive
  | closing failed =>
    rw [hp] at hinv
    cases failed with
    | false => exact (hinv halive).1
    | true => exact hinv halive
  | _ => simp [hp, Phase.holds] at hholds

/-- **Exclusion.** -/
theorem Inv.alone (h : Inv s) {c d : Nat} (hc : Inside s c) (hd : Inside s d) : c = d := by
  obtain ⟨file, hfile, hcreator⟩ := h.owns hc
  obtain ⟨file', hfile', hcreator'⟩ := h.owns hd
  rw [hfile, Option.some.injEq] at hfile'
  rw [← hcreator, hfile', hcreator']

theorem Spent.not_inside {c : Nat} (h : Spent s c) : ¬Inside s c := by
  intro hin
  obtain ⟨call, hcall, hholds, halive⟩ := inside_iff.mp hin
  obtain ⟨call', hcall', hspent⟩ := h
  rw [hcall, Option.some.injEq] at hcall'
  subst hcall'
  rcases hspent with hp | hp | ⟨-, hdead⟩
  · rw [hp] at hholds
    cases hholds
  · rw [hp] at hholds
    cases hholds
  · rw [halive] at hdead
    cases hdead

/-! ## What a step leaves of the calls -/

/-- The processes and calls of a state are still there, no more alive and no further back. -/
structure Later (s s' : State) : Prop where
  pids : ∀ (p pid : Nat), pidOf s p = some pid → pidOf s' p = some pid
  alive : ∀ p < s.processes.length, s'.alive p = true → s.alive p = true
  calls : ∀ (c : Nat) (call : Call), s.calls[c]? = some call → ∃ call' : Call, s'.calls[c]? = some call' ∧
    call'.process = call.process ∧ (call.phase.passed → call'.phase.passed) ∧
      (s.alive call.process = false ∨ call.phase = .returned ∨ call.phase = .raised → call'.phase = call.phase)

theorem Later.recorded (h : Later s s') {file : LockFile} (hr : Recorded s file) : Recorded s' file := by
  obtain ⟨call, hcall, hpassed, hpid⟩ := hr
  obtain ⟨call', hcall', hprocess, hpass, -⟩ := h.calls _ call hcall
  refine ⟨call', hcall', hpass hpassed, fun pid hfile => ?_⟩
  rw [hprocess]
  exact h.pids _ pid (hpid pid hfile)

theorem Later.spent (h : Later s s') (hI : Inv s) {c : Nat} (hs : Spent s c) : Spent s' c := by
  obtain ⟨call, hcall, hspent⟩ := hs
  obtain ⟨call', hcall', hprocess, -, hsame⟩ := h.calls c call hcall
  refine ⟨call', hcall', ?_⟩
  rcases hspent with hp | hp | ⟨hholds, hdead⟩
  · rw [hsame (.inr (.inl hp))]
    exact .inl hp
  · rw [hsame (.inr (.inr hp))]
    exact .inr (.inl hp)
  · rw [hsame (.inl hdead), hprocess]
    refine .inr (.inr ⟨hholds, ?_⟩)
    cases halive : s'.alive call.process with
    | false => rfl
    | true =>
      have hback := h.alive _ (hI.known c call hcall) halive
      rw [hback] at hdead
      cases hdead

/-- A call that took no step keeps its part of the invariant, when the files are as they
were or it is not inside. -/
theorem CallInv.later {c : Nat} {call : Call} (h : CallInv s c call) (hI : Inv s) (hcall : s.calls[c]? = some call)
    (hl : Later s s')
    (hfiles : (s'.lock.map LockFile.creator = s.lock.map LockFile.creator ∧ s'.target = s.target ∧
      s'.staging = s.staging ∧ s'.completed = s.completed) ∨ ¬Inside s c) : CallInv s' c call := by
  have hinside : call.phase.holds = true → s'.alive call.process = true →
      s.alive call.process = true ∧ (s'.lock.map LockFile.creator = s.lock.map LockFile.creator ∧
        s'.target = s.target ∧ s'.staging = s.staging ∧ s'.completed = s.completed) := by
    intro hholds halive
    have hback := hl.alive _ (hI.known c call hcall) halive
    rcases hfiles with hfiles | hout
    · exact ⟨hback, hfiles⟩
    · exact absurd (inside_iff.mpr ⟨call, hcall, hholds, hback⟩) hout
  have howns : s'.lock.map LockFile.creator = s.lock.map LockFile.creator → Owns s c → Owns s' c := by
    rintro hlock ⟨file, hfile, hcreator⟩
    rw [hfile, Option.map_some] at hlock
    obtain ⟨file', hfile', hcreator'⟩ := Option.map_eq_some_iff.mp hlock
    exact ⟨file', hfile', hcreator'.trans hcreator⟩
  unfold CallInv at h ⊢
  cases hp : call.phase with
  | probing file =>
    rw [hp] at h
    exact ⟨hl.recorded h.1, h.2⟩
  | seizing judged =>
    rw [hp] at h
    cases judged with
    | none => trivial
    | some judged => exact hl.spent hI h
  | created =>
    rw [hp] at h
    intro halive
    obtain ⟨hback, hlock, htarget, -, -⟩ := hinside (by rw [hp]; rfl) halive
    exact ⟨howns hlock (h hback).1, htarget.trans (h hback).2⟩
  | ready =>
    rw [hp] at h
    intro halive
    obtain ⟨hback, hlock, htarget, -, -⟩ := hinside (by rw [hp]; rfl) halive
    exact ⟨howns hlock (h hback).1, htarget.trans (h hback).2⟩
  | building build =>
    rw [hp] at h
    intro halive
    obtain ⟨hback, hlock, htarget, -, -⟩ := hinside (by rw [hp]; rfl) halive
    exact ⟨howns hlock (h hback).1, htarget.trans (h hback).2⟩
  | placing build =>
    rw [hp] at h
    intro halive
    obtain ⟨hback, hlock, htarget, hstaging, hcompleted⟩ := hinside (by rw [hp]; rfl) halive
    obtain ⟨ho, ht, hs, hc⟩ := h hback
    exact ⟨howns hlock ho, htarget.trans ht, hstaging.trans hs, by rw [hcompleted]; exact hc⟩
  | cleaning =>
    rw [hp] at h
    intro halive
    obtain ⟨hback, hlock, -, -, -⟩ := hinside (by rw [hp]; rfl) halive
    exact howns hlock (h hback)
  | closing failed =>
    rw [hp] at h
    cases failed with
    | false =>
      intro halive
      obtain ⟨hback, hlock, htarget, -, -⟩ := hinside (by rw [hp]; rfl) halive
      exact ⟨howns hlock (h hback).1, by rw [htarget]; exact (h hback).2⟩
    | true =>
      intro halive
      obtain ⟨hback, hlock, -, -, -⟩ := hinside (by rw [hp]; rfl) halive
      exact howns hlock (h hback)
  | _ => trivial

/-! ## The steps of a call -/

/-- A living call moves on; the processes are as they were. -/
theorem later_move {c : Nat} {call : Call} (hcall : s.calls[c]? = some call) {phase : Phase}
    (hcalls : s'.calls = s.calls.set c { call with phase := phase }) (hprocesses : s'.processes = s.processes)
    (halive : s.alive call.process = true) (hrunning : call.phase ≠ .returned ∧ call.phase ≠ .raised)
    (hpassed : call.phase.passed → phase.passed) : Later s s' := by
  have hsame : ∀ p, s'.alive p = s.alive p := fun p => by rw [State.alive, State.alive, hprocesses]
  refine ⟨fun p pid h => by rwa [pidOf, hprocesses], fun p _ h => by rwa [hsame] at h, fun d other hother => ?_⟩
  by_cases hd : d = c
  · subst hd
    rw [hcall, Option.some.injEq] at hother
    subst hother
    refine ⟨{ call with phase := phase }, ?_, rfl, hpassed, ?_⟩
    · rw [hcalls, List.getElem?_set_self (List.getElem?_eq_some_iff.mp hcall).1]
    · rintro (hdead | hp | hp)
      · rw [halive] at hdead
        cases hdead
      · exact absurd hp hrunning.1
      · exact absurd hp hrunning.2
  · refine ⟨other, ?_, rfl, id, fun _ => rfl⟩
    rw [hcalls, List.getElem?_set_ne (fun h => hd h.symm)]
    exact hother

/-- **Step rule.** A living call `c` moves to a phase; its own part of the invariant, and
that of the lock and the target, are what is left to show. -/
theorem Inv.move (h : Inv s) {c : Nat} {call : Call} (hcall : s.calls[c]? = some call) {phase : Phase}
    (hcalls : s'.calls = s.calls.set c { call with phase := phase }) (hprocesses : s'.processes = s.processes)
    (halive : s.alive call.process = true) (hrunning : call.phase ≠ .returned ∧ call.phase ≠ .raised)
    (hpassed : call.phase.passed → phase.passed)
    (hfiles : (s'.lock.map LockFile.creator = s.lock.map LockFile.creator ∧ s'.target = s.target ∧
      s'.staging = s.staging ∧ s'.completed = s.completed) ∨ ∀ d, d ≠ c → ¬Inside s d)
    (hown : Later s s' → CallInv s' c { call with phase := phase })
    (hlock : Later s s' → ∀ file, s'.lock = some file →
      Recorded s' file ∧ ∃ k, s'.calls[file.creator]? = some k ∧ k.phase.holds = true)
    (htarget : ∀ content, s'.target = some content → ∃ build ∈ s'.completed, content = .whole build) : Inv s' := by
  have hl := later_move hcall hcalls hprocesses halive hrunning hpassed
  refine ⟨?_, ?_, hlock hl, htarget⟩
  · intro d other hother
    rw [hprocesses]
    rw [hcalls] at hother
    by_cases hd : d = c
    · subst hd
      rw [List.getElem?_set_self (List.getElem?_eq_some_iff.mp hcall).1, Option.some.injEq] at hother
      rw [← hother]
      exact h.known d call hcall
    · rw [List.getElem?_set_ne (fun h => hd h.symm)] at hother
      exact h.known d other hother
  · intro d other hother
    rw [hcalls] at hother
    by_cases hd : d = c
    · subst hd
      rw [List.getElem?_set_self (List.getElem?_eq_some_iff.mp hcall).1, Option.some.injEq] at hother
      rw [← hother]
      exact hown hl
    · rw [List.getElem?_set_ne (fun h => hd h.symm)] at hother
      exact (h.calls d other hother).later h hother hl (hfiles.imp_right fun hout => hout d hd)

/-- The lock is where it was, and the creator of it still holds it. -/
theorem Inv.lock_kept (h : Inv s) {c : Nat} {call : Call} (hcall : s.calls[c]? = some call) {phase : Phase}
    (hcalls : s'.calls = s.calls.set c { call with phase := phase }) (hl : Later s s') (hlock : s'.lock = s.lock)
    (hholds : call.phase.holds = true → phase.holds = true) : ∀ file, s'.lock = some file →
      Recorded s' file ∧ ∃ k, s'.calls[file.creator]? = some k ∧ k.phase.holds = true := by
  intro file hfile
  rw [hlock] at hfile
  obtain ⟨hrecorded, k, hk, hkholds⟩ := h.lock file hfile
  refine ⟨hl.recorded hrecorded, ?_⟩
  by_cases hc : file.creator = c
  · rw [hc] at hk ⊢
    rw [hcall, Option.some.injEq] at hk
    subst hk
    exact ⟨{ call with phase := phase }, by rw [hcalls, List.getElem?_set_self (List.getElem?_eq_some_iff.mp hcall).1],
      hholds hkholds⟩
  · exact ⟨k, by rw [hcalls, List.getElem?_set_ne (fun h => hc h.symm)]; exact hk, hkholds⟩

/-- A move that leaves the files alone. -/
theorem Inv.moveTo (h : Inv s) {c : Nat} {call : Call} (hcall : s.calls[c]? = some call) (phase : Phase)
    (halive : s.alive call.process = true) (hrunning : call.phase ≠ .returned ∧ call.phase ≠ .raised)
    (hholds : call.phase.holds = true → phase.holds = true)
    (hown : Later s (s.moveTo c call phase) → CallInv (s.moveTo c call phase) c { call with phase := phase }) :
    Inv (s.moveTo c call phase) := by
  have hpassed : call.phase.passed → phase.passed := by
    rintro (hp | hp | hp)
    · exact .inl (hholds hp)
    · exact absurd hp hrunning.1
    · exact absurd hp hrunning.2
  exact h.move hcall rfl rfl halive hrunning hpassed (.inl ⟨rfl, rfl, rfl, rfl⟩) hown
    (fun hl => h.lock_kept hcall rfl hl rfl hholds) h.target

/-- A call that is inside acts alone. -/
theorem Inv.others_out (h : Inv s) {c : Nat} {call : Call} (hcall : s.calls[c]? = some call)
    (hholds : call.phase.holds = true) (halive : s.alive call.process = true) : ∀ d, d ≠ c → ¬Inside s d :=
  fun _ hd hin => hd (h.alone hin (inside_iff.mpr ⟨call, hcall, hholds, halive⟩))

/-- With no lock, or the lock of a call that is not inside, nobody is. -/
theorem Inv.nobody (h : Inv s) (hlock : ∀ file, s.lock = some file → ¬Inside s file.creator) (d : Nat) : ¬Inside s d := by
  intro hin
  obtain ⟨file, hfile, hcreator⟩ := h.owns hin
  rw [← hcreator] at hin
  exact hlock file hfile hin

theorem pidAlive_of {process pid : Nat} (hpid : pidOf s process = some pid) (halive : s.alive process = true) :
    s.pidAlive pid = true := by
  obtain ⟨p, hp, hpp⟩ := Option.map_eq_some_iff.mp hpid
  rw [State.alive, hp] at halive
  rw [State.pidAlive, List.any_eq_true]
  refine ⟨p, List.mem_of_getElem? hp, ?_⟩
  simp only [Option.any_some] at halive
  simp [halive, hpp]

/-- A lock that names no living process has been left by its creator. -/
theorem Recorded.spent {file : LockFile} (hr : Recorded s file) {pid : Nat} (hpid : file.pid = some pid)
    (hdead : s.pidAlive pid = false) : Spent s file.creator := by
  obtain ⟨call, hcall, hpassed, hof⟩ := hr
  refine ⟨call, hcall, ?_⟩
  rcases hpassed with hp | hp | hp
  · refine .inr (.inr ⟨hp, ?_⟩)
    cases halive : s.alive call.process with
    | false => rfl
    | true =>
      rw [pidAlive_of (hof pid hpid) halive] at hdead
      cases hdead
  · exact .inl hp
  · exact .inr (.inl hp)

/-- What the phase of an acting call must be, as its invariant. -/
theorem Inv.own (h : Inv s) {c : Nat} {call : Call} (hcall : s.calls[c]? = some call) {phase : Phase}
    (hp : call.phase = phase) : CallInv s c { call with phase := phase } := by
  have hc := h.calls c call hcall
  cases call
  cases hp
  exact hc

theorem act_inv (h : Inv s) {c : Nat} {call : Call} {choice : Choice} (hcall : s.calls[c]? = some call)
    (halive : s.alive call.process = true) (htimely : timely s (.act c choice) = true)
    (hcareful : careful s (.act c choice) = true) : Inv (s.act c call choice).1 := by
  unfold State.act
  cases hp : call.phase with
  | looking =>
    have hrun : call.phase ≠ .returned ∧ call.phase ≠ .raised := by simp [hp]
    dsimp only
    split
    · exact h.moveTo hcall .returned halive hrun (by simp [hp, Phase.holds]) fun _ => trivial
    · exact h.moveTo hcall .opening halive hrun (by simp [hp, Phase.holds]) fun _ => trivial
  | opening =>
    have hrun : call.phase ≠ .returned ∧ call.phase ≠ .raised := by simp [hp]
    dsimp only
    split
    · exact h.moveTo hcall .reading halive hrun (by simp [hp, Phase.holds]) fun _ => trivial
    · rename_i hnone
      have htarget := careful_opening hcareful hcall halive hp hnone
      have hnobody := h.nobody (by simp [hnone])
      refine h.move hcall rfl rfl halive hrun (fun _ => .inl rfl) (.inr fun d _ => hnobody d) ?_ ?_ h.target
      · intro _ _
        exact ⟨⟨_, rfl, rfl⟩, htarget⟩
      · intro _ file hfile
        cases hfile
        have hnew : (s.calls.set c { call with phase := .created })[c]? = some { call with phase := .created } :=
          List.getElem?_set_self (List.getElem?_eq_some_iff.mp hcall).1
        exact ⟨⟨_, hnew, .inl rfl, by simp⟩, _, hnew, rfl⟩
  | reading =>
    have hrun : call.phase ≠ .returned ∧ call.phase ≠ .raised := by simp [hp]
    dsimp only
    split
    · exact h.moveTo hcall .aging halive hrun (by simp [hp, Phase.holds]) fun _ => trivial
    · rename_i file hfile
      split
      · exact h.moveTo hcall .aging halive hrun (by simp [hp, Phase.holds]) fun _ => trivial
      · rename_i hpid
        exact h.moveTo hcall (.probing file) halive hrun (by simp [hp, Phase.holds]) fun hl =>
          ⟨hl.recorded (h.lock file hfile).1, by rw [hpid]; rfl⟩
  | probing file =>
    have hrun : call.phase ≠ .returned ∧ call.phase ≠ .raised := by simp [hp]
    obtain ⟨hrecorded, hsome⟩ : Recorded s file ∧ file.pid.isSome = true := h.own hcall hp
    obtain ⟨pid, hpid⟩ := Option.isSome_iff_exists.mp hsome
    dsimp only
    rw [hpid, Option.any_some]
    split
    · exact h.moveTo hcall .waiting halive hrun (by simp [hp, Phase.holds]) fun _ => trivial
    · rename_i hdead
      exact h.moveTo hcall (.seizing (some file.creator)) halive hrun (by simp [hp, Phase.holds]) fun hl =>
        hl.spent h (hrecorded.spent hpid (by simpa using hdead))
  | aging =>
    have hrun : call.phase ≠ .returned ∧ call.phase ≠ .raised := by simp [hp]
    dsimp only
    split
    · exact h.moveTo hcall (.seizing none) halive hrun (by simp [hp, Phase.holds]) fun _ => trivial
    · rename_i file hfile
      split
      · rename_i hold
        obtain ⟨_, k, hk, hkholds⟩ := h.lock file hfile
        have hout := timely_act htimely hcall hp hold hfile
        have hspent : Spent s file.creator := by
          refine ⟨k, hk, .inr (.inr ⟨hkholds, ?_⟩)⟩
          cases hka : s.alive k.process with
          | false => rfl
          | true => exact absurd (inside_iff.mpr ⟨k, hk, hkholds, hka⟩) hout
        exact h.moveTo hcall (.seizing (some file.creator)) halive hrun (by simp [hp, Phase.holds]) fun hl =>
          hl.spent h hspent
      · exact h.moveTo hcall .waiting halive hrun (by simp [hp, Phase.holds]) fun _ => trivial
  | seizing judged =>
    have hrun : call.phase ≠ .returned ∧ call.phase ≠ .raised := by simp [hp]
    have hnobody : ∀ d, ¬Inside s d := by
      refine h.nobody fun file hfile => ?_
      have hj := careful_seizing hcareful hcall halive hp hfile
      subst hj
      have hspent : Spent s file.creator := h.own hcall hp
      exact hspent.not_inside
    exact h.move hcall rfl rfl halive hrun (by rintro (hq | hq | hq) <;> simp [hp, Phase.holds] at hq)
      (.inr fun d _ => hnobody d) (fun _ => trivial) (fun _ file hfile => by cases hfile) h.target
  | waiting =>
    have hrun : call.phase ≠ .returned ∧ call.phase ≠ .raised := by simp [hp]
    dsimp only
    split
    · exact h.moveTo hcall .raised halive hrun (by simp [hp, Phase.holds]) fun _ => trivial
    · split
      · exact h.moveTo hcall .returned halive hrun (by simp [hp, Phase.holds]) fun _ => trivial
      · exact h.moveTo hcall .watching halive hrun (by simp [hp, Phase.holds]) fun _ => trivial
  | watching =>
    have hrun : call.phase ≠ .returned ∧ call.phase ≠ .raised := by simp [hp]
    dsimp only
    split
    · exact h.moveTo hcall .waiting halive hrun (by simp [hp, Phase.holds]) fun _ => trivial
    · exact h.moveTo hcall .rechecking halive hrun (by simp [hp, Phase.holds]) fun _ => trivial
  | rechecking =>
    have hrun : call.phase ≠ .returned ∧ call.phase ≠ .raised := by simp [hp]
    dsimp only
    split
    · exact h.moveTo hcall .returned halive hrun (by simp [hp, Phase.holds]) fun _ => trivial
    · exact h.moveTo hcall .raised halive hrun (by simp [hp, Phase.holds]) fun _ => trivial
  | created =>
    have hrun : call.phase ≠ .returned ∧ call.phase ≠ .raised := by simp [hp]
    have hout := h.others_out hcall (by simp [hp, Phase.holds]) halive
    obtain ⟨⟨file, hfile, hcreator⟩, htarget⟩ : Owns s c ∧ s.target = none := h.own hcall hp halive
    dsimp only
    rw [hfile, Option.map_some, if_pos hcreator]
    refine h.move hcall rfl rfl halive hrun (fun _ => .inl rfl) (.inr hout) (fun _ _ => ?_) ?_ h.target
    · exact ⟨⟨_, rfl, hcreator⟩, htarget⟩
    · intro _ file' hfile'
      cases hfile'
      have hnew : (s.calls.set c { call with phase := .ready })[file.creator]? = some { call with phase := .ready } := by
        rw [hcreator]
        exact List.getElem?_set_self (List.getElem?_eq_some_iff.mp hcall).1
      exact ⟨⟨_, hnew, .inl rfl, fun pid hpid => hpid⟩, _, hnew, rfl⟩
  | ready =>
    have hrun : call.phase ≠ .returned ∧ call.phase ≠ .raised := by simp [hp]
    have hout := h.others_out hcall (by simp [hp, Phase.holds]) halive
    have hown := h.own hcall hp halive
    exact h.move hcall rfl rfl halive hrun (fun _ => .inl rfl) (.inr hout) (fun _ _ => hown)
      (fun hl => h.lock_kept hcall rfl hl rfl fun _ => rfl) h.target
  | building build =>
    have hrun : call.phase ≠ .returned ∧ call.phase ≠ .raised := by simp [hp]
    have hout := h.others_out hcall (by simp [hp, Phase.holds]) halive
    have hown : Owns s c ∧ s.target = none := h.own hcall hp halive
    dsimp only
    split
    · exact h.moveTo hcall .cleaning halive hrun (fun _ => rfl) fun _ _ => hown.1
    · refine h.move hcall rfl rfl halive hrun (fun _ => .inl rfl) (.inr hout) (fun _ _ => ?_)
        (fun hl => h.lock_kept hcall rfl hl rfl fun _ => rfl) ?_
      · exact ⟨hown.1, hown.2, rfl, List.mem_cons_self⟩
      · intro content hcontent
        obtain ⟨b, hb, heq⟩ := h.target content hcontent
        exact ⟨b, List.mem_cons_of_mem _ hb, heq⟩
  | placing build =>
    have hrun : call.phase ≠ .returned ∧ call.phase ≠ .raised := by simp [hp]
    have hout := h.others_out hcall (by simp [hp, Phase.holds]) halive
    obtain ⟨howns, htarget, hstaging, hcompleted⟩ :
        Owns s c ∧ s.target = none ∧ s.staging = some (.whole build) ∧ build ∈ s.completed := h.own hcall hp halive
    dsimp only
    rw [hstaging]
    refine h.move hcall rfl rfl halive hrun (fun _ => .inl rfl) (.inr hout) (fun _ _ => ⟨howns, rfl⟩)
      (fun hl => h.lock_kept hcall rfl hl rfl fun _ => rfl) ?_
    intro content hcontent
    cases hcontent
    exact ⟨build, hcompleted, rfl⟩
  | cleaning =>
    have hrun : call.phase ≠ .returned ∧ call.phase ≠ .raised := by simp [hp]
    have hout := h.others_out hcall (by simp [hp, Phase.holds]) halive
    have howns : Owns s c := h.own hcall hp halive
    exact h.move hcall rfl rfl halive hrun (fun _ => .inl rfl) (.inr hout) (fun _ _ => howns)
      (fun hl => h.lock_kept hcall rfl hl rfl fun _ => rfl) h.target
  | closing failed =>
    have hrun : call.phase ≠ .returned ∧ call.phase ≠ .raised := by simp [hp]
    have hout := h.others_out hcall (by simp [hp, Phase.holds]) halive
    cases failed with
    | false =>
      exact h.move hcall rfl rfl halive hrun (fun _ => .inr (.inl rfl)) (.inr hout) (fun _ => trivial)
        (fun _ file hfile => by cases hfile) h.target
    | true =>
      exact h.move hcall rfl rfl halive hrun (fun _ => .inr (.inr rfl)) (.inr hout) (fun _ => trivial)
        (fun _ file hfile => by cases hfile) h.target
  | returned => exact h
  | raised => exact h

/-! ## Every step -/

theorem alive_lt {p : Nat} (h : s.alive p = true) : p < s.processes.length := by
  rw [State.alive] at h
  by_contra hn
  rw [List.getElem?_eq_none (Nat.not_lt.mp hn)] at h
  cases h

/-- A step that moves no call and touches no file. -/
theorem Inv.aside (h : Inv s) (hl : Later s s') (hknown : s.processes.length ≤ s'.processes.length)
    (hold : ∀ (c : Nat) (call : Call), s'.calls[c]? = some call →
      s.calls[c]? = some call ∨ call.phase = .looking ∧ call.process < s'.processes.length)
    (hsame : ∀ (c : Nat) (call : Call), s.calls[c]? = some call → s'.calls[c]? = some call)
    (hlock : s'.lock = s.lock) (htarget : s'.target = s.target) (hstaging : s'.staging = s.staging)
    (hcompleted : s'.completed = s.completed) : Inv s' := by
  refine ⟨?_, ?_, ?_, ?_⟩
  · intro c call hcall
    rcases hold c call hcall with hcall | ⟨-, hlt⟩
    · exact Nat.lt_of_lt_of_le (h.known c call hcall) hknown
    · exact hlt
  · intro c call hcall
    rcases hold c call hcall with hcall | ⟨hphase, -⟩
    · exact (h.calls c call hcall).later h hcall hl (.inl ⟨by rw [hlock], htarget, hstaging, hcompleted⟩)
    · rw [CallInv, hphase]
      trivial
  · intro file hfile
    rw [hlock] at hfile
    obtain ⟨hrecorded, k, hk, hholds⟩ := h.lock file hfile
    exact ⟨hl.recorded hrecorded, k, hsame _ k hk, hholds⟩
  · intro content hcontent
    rw [htarget] at hcontent
    rw [hcompleted]
    exact h.target content hcontent

theorem step_inv (h : Inv s) {e : Event} (htimely : timely s e = true) (hcareful : careful s e = true) : Inv (step s e).1 := by
  cases e with
  | spawn pid =>
    simp only [step]
    split
    · exact h
    · have hl : Later s { s with processes := s.processes ++ [{ pid := pid }] } := by
        refine ⟨?_, ?_, fun c call hcall => ⟨call, hcall, rfl, id, fun _ => rfl⟩⟩
        · intro p q hq
          obtain ⟨process, hprocess, hpid⟩ := Option.map_eq_some_iff.mp hq
          have hlt := (List.getElem?_eq_some_iff.mp hprocess).1
          rw [pidOf, List.getElem?_append_left hlt]
          exact hq
        · intro p hlt halive
          rw [State.alive, List.getElem?_append_left hlt] at halive
          exact halive
      exact h.aside hl (by simp) (fun c call hcall => .inl hcall) (fun c call hcall => hcall) rfl rfl rfl rfl
  | resolve process =>
    simp only [step]
    split
    · rename_i halive
      have hsame : ∀ (c : Nat) (call : Call), s.calls[c]? = some call →
          (s.calls ++ [{ process := process }])[c]? = some call := by
        intro c call hcall
        rw [List.getElem?_append_left (List.getElem?_eq_some_iff.mp hcall).1]
        exact hcall
      have hl : Later s { s with calls := s.calls ++ [{ process := process }] } :=
        ⟨fun p q hq => hq, fun p _ hp => hp, fun c call hcall => ⟨call, hsame c call hcall, rfl, id, fun _ => rfl⟩⟩
      refine h.aside hl (Nat.le_refl _) ?_ hsame rfl rfl rfl rfl
      intro c call hcall
      rcases Nat.lt_or_ge c s.calls.length with hlt | hge
      · exact .inl (by rwa [List.getElem?_append_left hlt] at hcall)
      · rw [List.getElem?_append_right hge] at hcall
        rw [List.mem_singleton.mp (List.mem_of_getElem? hcall)]
        exact .inr ⟨rfl, alive_lt halive⟩
    · exact h
  | act c choice =>
    simp only [step]
    split
    · exact h
    · rename_i call hcall
      split
      · rename_i halive
        exact act_inv h hcall halive htimely hcareful
      · exact h
  | kill process =>
    have hl : Later s { s with processes := s.processes.modify process fun p => { p with alive := false } } := by
      refine ⟨?_, ?_, fun c call hcall => ⟨call, hcall, rfl, id, fun _ => rfl⟩⟩
      · intro p q hq
        obtain ⟨k, hk, hpid⟩ := Option.map_eq_some_iff.mp hq
        simp only [pidOf, List.getElem?_modify, hk]
        split <;> simp [hpid]
      · intro p hlt halive
        rw [State.alive] at halive ⊢
        simp only [List.getElem?_modify] at halive
        cases hp : s.processes[p]? with
        | none =>
          rw [hp] at halive
          cases halive
        | some k =>
          rw [hp] at halive
          simp only [Option.any_some] at halive ⊢
          split at halive
          · cases halive
          · exact halive
    exact h.aside hl (by simp [step]) (fun c call hcall => .inl hcall) (fun c call hcall => hcall) rfl rfl rfl rfl

/-! ## What a step shows -/

/-- What is to hold of a step: a lock file is removed by its creator or after its creator
died, a path is returned for a plan that one completed builder call wrote, and a build is
begun while the plan is not in place. -/
structure Sound (s : State) (e : Event) : Prop where
  removed : ∀ file, (step s e).2.removed = some file → (∃ choice, e = .act file.creator choice) ∨ Died s file.creator
  returned : (step s e).2.returned = true → ∃ build ∈ s.completed, (step s e).1.target = some (.whole build)
  started : ∀ build, (step s e).2.started = some build → s.target = none

theorem Spent.died {c : Nat} (h : Spent s c) {call : Call} (hcall : s.calls[c]? = some call)
    (hholds : call.phase.holds = true) : Died s c := by
  obtain ⟨call', hcall', hspent⟩ := h
  rw [hcall, Option.some.injEq] at hcall'
  subst hcall'
  rcases hspent with hp | hp | ⟨-, hdead⟩
  · rw [hp] at hholds
    cases hholds
  · rw [hp] at hholds
    cases hholds
  · exact ⟨call, hcall, hdead⟩

/-- A plan in place is whole. -/
theorem Inv.in_place (h : Inv s) (hsome : s.target.isSome = true) : ∃ build ∈ s.completed, s.target = some (.whole build) := by
  obtain ⟨content, hcontent⟩ := Option.isSome_iff_exists.mp hsome
  obtain ⟨build, hbuild, heq⟩ := h.target content hcontent
  exact ⟨build, hbuild, by rw [hcontent, heq]⟩

theorem act_sound (h : Inv s) {c : Nat} {call : Call} {choice : Choice} (hcall : s.calls[c]? = some call)
    (halive : s.alive call.process = true) (hcareful : careful s (.act c choice) = true) :
    (∀ file, (s.act c call choice).2.removed = some file → file.creator = c ∨ Died s file.creator) ∧
      ((s.act c call choice).2.returned = true →
        ∃ build ∈ s.completed, (s.act c call choice).1.target = some (.whole build)) ∧
      ∀ build, (s.act c call choice).2.started = some build → s.target = none := by
  unfold State.act
  cases hp : call.phase with
  | looking =>
    dsimp only
    split
    · rename_i hsome
      exact ⟨by simp, fun _ => h.in_place hsome, by simp⟩
    · simp
  | opening =>
    dsimp only
    split <;> simp
  | reading =>
    dsimp only
    split
    · simp
    · split <;> simp
  | probing file =>
    dsimp only
    split <;> simp
  | aging =>
    dsimp only
    split
    · simp
    · split <;> simp
  | seizing judged =>
    refine ⟨fun file hfile => .inr ?_, by simp, by simp⟩
    have hj := careful_seizing hcareful hcall halive hp hfile
    subst hj
    have hspent : Spent s file.creator := h.own hcall hp
    obtain ⟨-, k, hk, hholds⟩ := h.lock file hfile
    exact hspent.died hk hholds
  | waiting =>
    dsimp only
    split
    · simp
    · split
      · rename_i hsome
        exact ⟨by simp, fun _ => h.in_place hsome, by simp⟩
      · simp
  | watching =>
    dsimp only
    split <;> simp
  | rechecking =>
    dsimp only
    split
    · rename_i hsome
      exact ⟨by simp, fun _ => h.in_place hsome, by simp⟩
    · simp
  | created => simp
  | ready =>
    have hown : Owns s c ∧ s.target = none := h.own hcall hp halive
    exact ⟨by simp, by simp, fun _ _ => hown.2⟩
  | building build =>
    dsimp only
    split <;> simp
  | placing build =>
    dsimp only
    split <;> simp
  | cleaning => simp
  | closing failed =>
    have howns : Owns s c := h.owns (inside_iff.mpr ⟨call, hcall, by rw [hp]; rfl, halive⟩)
    obtain ⟨file, hfile, hcreator⟩ := howns
    refine ⟨fun file' hfile' => .inl ?_, ?_, by simp⟩
    · dsimp only at hfile'
      rw [hfile, Option.some.injEq] at hfile'
      rw [← hfile', hcreator]
    · intro hreturned
      cases failed with
      | true => cases hreturned
      | false =>
        have hown : Owns s c ∧ s.target.isSome = true := h.own hcall hp halive
        exact h.in_place hown.2
  | returned => simp
  | raised => simp

theorem step_sound (h : Inv s) {e : Event} (hcareful : careful s e = true) : Sound s e := by
  cases e with
  | spawn pid =>
    have hquiet : (step s (.spawn pid)).2 = {} := by
      simp only [step]
      split <;> rfl
    constructor <;> simp [hquiet]
  | resolve process =>
    have hquiet : (step s (.resolve process)).2 = {} := by
      simp only [step]
      split <;> rfl
    constructor <;> simp [hquiet]
  | kill process => constructor <;> simp [step]
  | act c choice =>
    cases hcall : s.calls[c]? with
    | none => constructor <;> simp [step, hcall]
    | some call =>
      by_cases halive : s.alive call.process = true
      · obtain ⟨hremoved, hreturned, hstarted⟩ := act_sound h hcall halive hcareful
        have hstep : step s (.act c choice) = s.act c call choice := by simp [step, hcall, halive]
        rw [← hstep] at hremoved hreturned hstarted
        refine ⟨fun file hfile => ?_, hreturned, hstarted⟩
        rcases hremoved file hfile with hc | hdied
        · exact .inl ⟨choice, by rw [hc]⟩
        · exact .inr hdied
      · constructor <;> simp [step, hcall, halive]

/-! ## Runs -/

/-- A model directory with nothing built, and no process yet. -/
def State.empty : State := {}

theorem empty_inv : Inv .empty where
  known := by simp [State.empty]
  calls := by simp [State.empty]
  lock := by simp [State.empty]
  target := by simp [State.empty]

theorem building_inside {c build : Nat} (h : Building s c build) : Inside s c := by
  obtain ⟨call, hcall, hp, halive⟩ := h
  simp [Inside, State.inside, hcall, hp, halive, Phase.holds]

/-- **A plan is built once and never seen half-written**, in every run in which no build
outlasts the build timeout, a takeover unlinks no file but the one it judged, and the lock
is created while the plan is not in place. -/
theorem built_once (script : List Event)
    (h : Machine.Along step (fun s e => timely s e = true ∧ careful s e = true) .empty script) :
    ∀ before after, script = before ++ after →
      let s := (Machine.exec step .empty before).1
      (∀ c d b b', Building s c b → Building s d b' → c = d) ∧
        (∀ content, s.target = some content → ∃ build ∈ s.completed, content = .whole build) ∧
        ∀ e rest, after = e :: rest → Sound s e := by
  rintro before after rfl
  have hinv : Inv (Machine.exec step .empty before).1 :=
    Machine.Along.invariant (P := Inv) (f := step) (fun s e hs hc => step_inv hs hc.1 hc.2) _ empty_inv h before
      (List.prefix_append _ _)
  refine ⟨?_, hinv.target, ?_⟩
  · intro c d b b' hc hd
    exact hinv.alone (building_inside hc) (building_inside hd)
  · rintro e rest rfl
    exact step_sound hinv (Machine.Along.append before h).2.1.2

/-! ## Two processes and a third -/

/-- The second waits for what the first builds. -/
def handover : List Event :=
  [.spawn 100, .spawn 200, .resolve 0, .resolve 1, .act 0 {}, .act 1 {}, .act 0 {}, .act 0 {}, .act 0 {}, .act 1 {},
    .act 1 {}, .act 1 {}, .act 1 {}, .act 1 {}, .act 0 {}, .act 0 {}, .act 0 {}]

theorem handover_sound : Sound (Machine.exec step .empty handover).1 (.act 1 {}) ∧
    (step (Machine.exec step .empty handover).1 (.act 1 {})).2.returned = true :=
  ⟨(built_once (handover ++ [.act 1 {}]) (by decide) handover [.act 1 {}] rfl).2.2 _ [] rfl, by decide⟩

/-- The first looks for the plan and is held up until the second has built it. -/
def late : List Event :=
  [.spawn 100, .spawn 200, .resolve 0, .resolve 1, .act 0 {}, .act 1 {}, .act 1 {}, .act 1 {}, .act 1 {}, .act 1 {},
    .act 1 {}, .act 1 {}, .act 0 {}, .act 0 {}]

/-- Two processes find the lock of a dead one; the second unlinks the lock the first has
created since. -/
def overtaken : List Event :=
  [.spawn 100, .spawn 200, .spawn 300, .resolve 0, .resolve 1, .resolve 2, .act 0 {}, .act 0 {}, .act 0 {}, .kill 0,
    .act 1 {}, .act 1 {}, .act 1 {}, .act 1 {}, .act 2 {}, .act 2 {}, .act 2 {}, .act 2 {}, .act 1 {}, .act 1 {}, .act 1 {},
    .act 1 {}, .act 2 {}, .act 2 {}, .act 2 {}, .act 2 {}]

theorem late_and_overtaken_fail :
    (Machine.Along step (fun s e => timely s e = true) .empty (late ++ [.act 0 {}]) ∧
        (Machine.exec step .empty late).1.target = some (.whole 0) ∧
        (step (Machine.exec step .empty late).1 (.act 0 {})).2.started = some 1) ∧
      Machine.Along step (fun s e => timely s e = true) .empty overtaken ∧
        Building (Machine.exec step .empty overtaken).1 1 0 ∧ Building (Machine.exec step .empty overtaken).1 2 1 :=
  ⟨by decide, by decide, ⟨{ process := 1, phase := .building 0 }, by decide, rfl, by decide⟩,
    { process := 2, phase := .building 1 }, by decide, rfl, by decide⟩

end ShipInfer.Backends.Autobuild
