import ShipInfer.Launch.Supervisor

/-!
# No shard outlives its fleet

Every process that was spawned is reaped, in the list, or in the hands of the `start` that
spawned it. What carries this through a `stop` is how far its two loops have come (`Done`),
and that no `start` puts a process into the list behind them (`Apart`).
-/

namespace ShipInfer.Launch

/-- The phases of a thread that has the lock. -/
def StopPhase.locked : StopPhase → Bool
  | .locking | .left => false
  | _ => true

/-- Those in which it goes through the list. -/
def StopPhase.working : StopPhase → Bool
  | .locking | .checking | .releasing | .left => false
  | _ => true

/-- Neither with a process in its hands nor in `stop`. -/
def Call.plain : Call → Bool
  | .appending _ | .stopping _ _ => false
  | _ => true

/-- A process does not come back. -/
structure Ages (before after : Life) : Prop where
  up : before ≠ .up → after ≠ .up
  reaped : before = .reaped → after = .reaped

theorem Ages.rfl {life : Life} : Ages life life := ⟨id, id⟩

theorem Ages.trans {a b c : Life} (h : Ages a b) (h' : Ages b c) : Ages a c :=
  ⟨fun hup => h'.up (h.up hup), fun hreaped => h'.reaped (h.reaped hreaped)⟩

theorem Ages.polled (life : Life) : Ages life life.polled := by
  cases life <;> constructor <;> simp [Life.polled]

theorem Ages.asked (life : Life) : Ages life life.asked := by
  cases life <;> constructor <;> simp [Life.asked]

theorem Ages.killed {life : Life} (h : life.alive = true) : Ages life .killed := by
  cases life <;> constructor <;> simp [Life.alive] at h ⊢

theorem Ages.zombie {life : Life} (h : life.alive = true) : Ages life .zombie := by
  cases life <;> constructor <;> simp [Life.alive] at h ⊢

theorem asked_ne_up (life : Life) : life.asked ≠ .up := by
  cases life <;> simp [Life.asked]

theorem polled_of_dead {life : Life} (h : life.alive = false) : life.polled = .reaped := by
  cases life <;> simp [Life.alive, Life.polled] at h ⊢

theorem ne_up_of_dead {life : Life} (h : life.alive = false) : life ≠ .up := by
  cases life <;> simp [Life.alive] at h ⊢

namespace Fleet

variable {f : Fleet}

/-- A thread that has the lock is in the middle of the list. -/
def atWork (f : Fleet) : Bool :=
  match f.lock with
  | none => false
  | some t =>
    match f.call t with
    | .stopping phase _ => phase.working
    | _ => false

/-- The step of a `start` that puts a process into the list. -/
def appends (f : Fleet) : FleetEvent → Bool
  | .step t _ =>
    match f.call t with
    | .appending _ => true
    | _ => false
  | _ => false

/-- No process comes into the list while a `stop` goes through it. -/
def Apart (f : Fleet) (e : FleetEvent) : Prop := f.appends e = true → f.atWork = false

instance (f : Fleet) (e : FleetEvent) : Decidable (f.Apart e) :=
  inferInstanceAs (Decidable (f.appends e = true → f.atWork = false))

/-- None of them is up. -/
def Asked (f : Fleet) (ps : List ShardProcess) : Prop := ∀ p ∈ ps, f.life p.process ≠ .up

def Reaped (f : Fleet) (ps : List ShardProcess) : Prop := ∀ p ∈ ps, f.life p.process = .reaped

/-- How far a `stop` has come with the list. -/
def Done (f : Fleet) : StopPhase → Prop
  | .asking i => f.Asked (f.running.take i)
  | .terminating i p => f.Asked (f.running.take i) ∧ f.running[i]? = some p
  | .waiting i => f.Asked f.running ∧ f.Reaped (f.running.take i)
  | .killing i p | .reaping i p => f.Asked f.running ∧ f.Reaped (f.running.take i) ∧ f.running[i]? = some p
  | .clearing => f.Reaped f.running
  | _ => True

/-- The process is in the hands of the `start` that spawned it. -/
def InHand (f : Fleet) (process : Nat) : Prop := ∃ t p, f.call t = .appending p ∧ p.process = process

structure Inv (f : Fleet) : Prop where
  holder : ∀ {t phase after}, f.call t = .stopping phase after → phase.locked = true → f.lock = some t
  known : ∀ p ∈ f.running, p.process < f.spawned
  hand : ∀ {t p}, f.call t = .appending p → p.process < f.spawned
  tracked : ∀ process < f.spawned,
    f.life process = .reaped ∨ process ∈ f.running.map ShardProcess.process ∨ f.InHand process
  work : ∀ {t phase after}, f.call t = .stopping phase after → f.Done phase

/-! ## What a step keeps -/

theorem Asked.ages {g : Fleet} {ps : List ShardProcess} (h : f.Asked ps)
    (hage : ∀ p ∈ ps, Ages (f.life p.process) (g.life p.process)) : g.Asked ps :=
  fun p hp => (hage p hp).up (h p hp)

theorem Reaped.ages {g : Fleet} {ps : List ShardProcess} (h : f.Reaped ps)
    (hage : ∀ p ∈ ps, Ages (f.life p.process) (g.life p.process)) : g.Reaped ps :=
  fun p hp => (hage p hp).reaped (h p hp)

theorem Done.ages {g : Fleet} {phase : StopPhase} (h : f.Done phase) (hrunning : g.running = f.running)
    (hage : ∀ p ∈ f.running, Ages (f.life p.process) (g.life p.process)) : g.Done phase := by
  have htake : ∀ i, ∀ p ∈ f.running.take i, Ages (f.life p.process) (g.life p.process) := fun i p hp =>
    hage p (List.mem_of_mem_take hp)
  cases phase with
  | asking i => rw [Done, hrunning]; exact Asked.ages h (htake i)
  | terminating i p => rw [Done, hrunning]; exact ⟨h.1.ages (htake i), h.2⟩
  | waiting i => rw [Done, hrunning]; exact ⟨h.1.ages hage, h.2.ages (htake i)⟩
  | killing i p => rw [Done, hrunning]; exact ⟨h.1.ages hage, h.2.1.ages (htake i), h.2.2⟩
  | reaping i p => rw [Done, hrunning]; exact ⟨h.1.ages hage, h.2.1.ages (htake i), h.2.2⟩
  | clearing => rw [Done, hrunning]; exact Reaped.ages h hage
  | _ => trivial

theorem done_of_not_working {phase : StopPhase} (h : phase.working = false) : f.Done phase := by
  cases phase <;> trivial

theorem locked_of_working {phase : StopPhase} (h : phase.working = true) : phase.locked = true := by
  cases phase <;> first | rfl | simp [StopPhase.working] at h

theorem ages_setLife {process : Nat} {life : Life} (h : Ages (f.life process) life) (other : Nat) :
    Ages (f.life other) ((f.setLife process life).life other) := by
  show Ages (f.life other) (Function.update f.life process life other)
  by_cases hother : other = process
  · rw [hother, Function.update_self]
    exact h
  · rw [Function.update_of_ne hother]
    exact .rfl

theorem goto_eq {t u : Nat} {c d : Call} (h : (f.goto t c).call u = d) : (u = t ∧ c = d) ∨ (u ≠ t ∧ f.call u = d) := by
  by_cases hu : u = t
  · subst hu
    exact .inl ⟨rfl, by simpa [goto] using h⟩
  · exact .inr ⟨hu, by simpa [goto, hu] using h⟩

/-- A thread with nothing in its hands takes nothing out of another's. -/
theorem InHand.goto {g : Fleet} {t process : Nat} {c : Call} (h : f.InHand process)
    (hcall : g.call = (f.goto t c).call) (hfrom : ∀ p, f.call t ≠ .appending p) : g.InHand process := by
  obtain ⟨u, p, hu, hp⟩ := h
  have hne : u ≠ t := by
    rintro rfl
    exact hfrom p hu
  refine ⟨u, p, ?_, hp⟩
  rw [hcall]
  exact (Function.update_of_ne hne _ _).trans hu

/-- A thread goes on, nothing comes into the list or leaves it, and processes age. -/
theorem Inv.goto (h : Inv f) {g : Fleet} {t : Nat} {c : Call} (hrunning : g.running = f.running)
    (hlock : g.lock = f.lock) (hspawned : g.spawned = f.spawned) (hcall : g.call = (f.goto t c).call)
    (hage : ∀ process, Ages (f.life process) (g.life process)) (hfrom : ∀ p, f.call t ≠ .appending p)
    (hto : ∀ p, c ≠ .appending p)
    (hstop : ∀ phase after, c = .stopping phase after → (phase.locked = true → f.lock = some t) ∧ g.Done phase) :
    Inv g where
  holder := by
    intro u phase after hu hlocked
    rw [hcall] at hu
    rw [hlock]
    rcases goto_eq hu with ⟨rfl, hc⟩ | ⟨-, hc⟩
    · exact (hstop phase after hc).1 hlocked
    · exact h.holder hc hlocked
  known := by
    rw [hrunning, hspawned]
    exact h.known
  hand := by
    intro u p hu
    rw [hcall] at hu
    rw [hspawned]
    rcases goto_eq hu with ⟨-, hc⟩ | ⟨-, hc⟩
    · exact absurd hc (hto p)
    · exact h.hand hc
  tracked := by
    intro process hprocess
    rw [hspawned] at hprocess
    rcases h.tracked process hprocess with hreaped | hlist | hhand
    · exact .inl ((hage process).reaped hreaped)
    · exact .inr (.inl (by rw [hrunning]; exact hlist))
    · exact .inr (.inr (hhand.goto hcall hfrom))
  work := by
    intro u phase after hu
    rw [hcall] at hu
    rcases goto_eq hu with ⟨-, hc⟩ | ⟨-, hc⟩
    · exact (hstop phase after hc).2
    · exact (h.work hc).ages hrunning fun p _ => hage p.process

theorem Inv.atWork (h : Inv f) {t : Nat} {phase : StopPhase} {after : Afterwards}
    (hcall : f.call t = .stopping phase after) (hworking : phase.working = true) : f.atWork = true := by
  have hlock := h.holder hcall (locked_of_working hworking)
  simp [Fleet.atWork, hlock, hcall, hworking]

/-- Nothing but what `g` says of its processes changes. -/
theorem Inv.live (h : Inv f) {g : Fleet} (hrunning : g.running = f.running) (hlock : g.lock = f.lock)
    (hspawned : g.spawned = f.spawned) (hcall : g.call = f.call)
    (hage : ∀ process, Ages (f.life process) (g.life process)) : Inv g where
  holder := by
    rw [hcall, hlock]
    exact h.holder
  known := by
    rw [hrunning, hspawned]
    exact h.known
  hand := by
    rw [hcall, hspawned]
    exact h.hand
  tracked := by
    intro process hprocess
    rw [hspawned] at hprocess
    unfold InHand
    rw [hrunning, hcall]
    rcases h.tracked process hprocess with hreaped | hrest
    · exact .inl ((hage process).reaped hreaped)
    · exact .inr hrest
  work := by
    intro u phase after hu
    rw [hcall] at hu
    exact (h.work hu).ages hrunning fun p _ => hage p.process

theorem not_appending {t : Nat} {c : Call} (hcall : f.call t = c) (hc : c.plain = true) (p : ShardProcess) :
    f.call t ≠ .appending p := by
  rw [hcall]
  rintro rfl
  cases hc

theorem not_appending_of_stopping {t : Nat} {phase : StopPhase} {after : Afterwards}
    (hcall : f.call t = .stopping phase after) (p : ShardProcess) : f.call t ≠ .appending p := by
  rw [hcall]
  rintro ⟨⟩

theorem Inv.turn (h : Inv f) {t : Nat} {c d : Call} (hcall : f.call t = c) (hc : c.plain = true) (hd : d.plain = true) :
    Inv (f.goto t d) := by
  refine h.goto rfl rfl rfl rfl (fun _ => .rfl) (not_appending hcall hc) ?_ ?_
  · rintro p rfl
    cases hd
  · rintro phase after rfl
    cases hd

theorem Inv.callStop (h : Inv f) {t : Nat} {c : Call} (hcall : f.call t = c) (hc : c.plain = true)
    (after : Afterwards) : Inv (f.callStop t after) := by
  refine h.goto rfl rfl rfl rfl (fun _ => .rfl) (not_appending hcall hc) (fun _ hd => by cases hd) ?_
  intro phase after' hd
  cases hd
  exact ⟨fun hlocked => (by cases hlocked), trivial⟩

theorem Inv.begin (h : Inv f) {t : Nat} {c : Call} (hc : c.plain = true) : Inv (f.begin t c).1 := by
  unfold Fleet.begin
  split
  · rename_i hidle
    exact h.turn hidle rfl hc
  · exact h

theorem Inv.spawn (h : Inv f) {t shard : Nat} {c : Call} (hcall : f.call t = c) (hc : c.plain = true) :
    Inv
      { (f.setLife f.spawned .up).goto t (.appending { shard, process := f.spawned }) with
        spawned := f.spawned + 1 } := by
  have hsame : ∀ process < f.spawned, (f.setLife f.spawned .up).life process = f.life process := fun process hlt =>
    Function.update_of_ne hlt.ne _ _
  constructor
  · intro u phase after hu hlocked
    rcases goto_eq hu with ⟨-, hc⟩ | ⟨-, hc⟩
    · cases hc
    · exact h.holder hc hlocked
  · exact fun p hp => (h.known p hp).trans (Nat.lt_succ_self _)
  · intro u p hu
    rcases goto_eq hu with ⟨-, hc⟩ | ⟨-, hc⟩
    · cases hc
      exact Nat.lt_succ_self _
    · exact (h.hand hc).trans (Nat.lt_succ_self _)
  · intro process hprocess
    by_cases hnew : process = f.spawned
    · subst hnew
      exact .inr (.inr ⟨t, _, Function.update_self _ _ _, rfl⟩)
    · have hold : process < f.spawned := lt_of_le_of_ne (Nat.lt_succ_iff.mp hprocess) hnew
      rcases h.tracked process hold with hreaped | hlist | hhand
      · exact .inl ((hsame process hold).trans hreaped)
      · exact .inr (.inl hlist)
      · exact .inr (.inr (hhand.goto rfl (not_appending hcall hc)))
  · intro u phase after hu
    rcases goto_eq hu with ⟨-, hc⟩ | ⟨-, hc⟩
    · cases hc
    · refine (h.work hc).ages rfl fun p hp => ?_
      show Ages (f.life p.process) ((f.setLife f.spawned .up).life p.process)
      rw [hsame p.process (h.known p hp)]
      exact .rfl

theorem Inv.append (h : Inv f) {t : Nat} {p : ShardProcess} (hcall : f.call t = .appending p)
    (hapart : f.atWork = false) : Inv { f.goto t (.spawning (p.shard + 1)) with running := f.running ++ [p] } := by
  constructor
  · intro u phase after hu hlocked
    rcases goto_eq hu with ⟨-, hc⟩ | ⟨-, hc⟩
    · cases hc
    · exact h.holder hc hlocked
  · intro q hq
    rcases List.mem_append.mp hq with hq | hq
    · exact h.known q hq
    · rw [List.mem_singleton.mp hq]
      exact h.hand hcall
  · intro u q hu
    rcases goto_eq hu with ⟨-, hc⟩ | ⟨-, hc⟩
    · cases hc
    · exact h.hand hc
  · intro process hprocess
    rcases h.tracked process hprocess with hreaped | hlist | ⟨u, q, hu, hq⟩
    · exact .inl hreaped
    · exact .inr (.inl (by simp [hlist]))
    · by_cases hut : u = t
      · subst hut
        rw [hcall] at hu
        cases hu
        exact .inr (.inl (by simp [hq]))
      · exact .inr (.inr ⟨u, q, (Function.update_of_ne hut _ _).trans hu, hq⟩)
  · intro u phase after hu
    rcases goto_eq hu with ⟨-, hc⟩ | ⟨-, hc⟩
    · cases hc
    · apply done_of_not_working
      by_contra hworking
      rw [h.atWork hc (by simpa using hworking)] at hapart
      cases hapart

theorem Inv.clear (h : Inv f) {t : Nat} {after : Afterwards} (hcall : f.call t = .stopping .clearing after) :
    Inv { f.goto t (.stopping .releasing after) with running := [] } := by
  have hlock := h.holder hcall rfl
  have hreaped : f.Reaped f.running := h.work hcall
  constructor
  · intro u phase after' hu hlocked
    rcases goto_eq hu with ⟨rfl, hc⟩ | ⟨-, hc⟩
    · exact hlock
    · exact h.holder hc hlocked
  · exact fun q hq => absurd hq List.not_mem_nil
  · intro u q hu
    rcases goto_eq hu with ⟨-, hc⟩ | ⟨-, hc⟩
    · cases hc
    · exact h.hand hc
  · intro process hprocess
    rcases h.tracked process hprocess with hr | hlist | hhand
    · exact .inl hr
    · obtain ⟨q, hq, rfl⟩ := List.mem_map.mp hlist
      exact .inl (hreaped q hq)
    · exact .inr (.inr (hhand.goto rfl (not_appending_of_stopping hcall)))
  · intro u phase after' hu
    rcases goto_eq hu with ⟨-, hc⟩ | ⟨hne, hc⟩
    · cases hc
      trivial
    · apply done_of_not_working
      by_contra hworking
      have hother := h.holder hc (locked_of_working (by simpa using hworking))
      rw [hlock] at hother
      exact hne (Option.some.inj hother).symm

theorem Inv.relock (h : Inv f) {t : Nat} {phase phase' : StopPhase} {after : Afterwards} {lock : Option Nat}
    (hcall : f.call t = .stopping phase after) (hlock : phase'.locked = true → lock = some t)
    (hquiet : phase'.working = false) (hothers : ∀ u, u ≠ t → f.lock = some u → lock = some u) :
    Inv { f.goto t (.stopping phase' after) with lock := lock } := by
  constructor
  · intro u phase'' after' hu hlocked
    rcases goto_eq hu with ⟨rfl, hc⟩ | ⟨hne, hc⟩
    · cases hc
      exact hlock hlocked
    · exact hothers u hne (h.holder hc hlocked)
  · exact h.known
  · intro u q hu
    rcases goto_eq hu with ⟨-, hc⟩ | ⟨-, hc⟩
    · cases hc
    · exact h.hand hc
  · intro process hprocess
    rcases h.tracked process hprocess with hr | hlist | hhand
    · exact .inl hr
    · exact .inr (.inl hlist)
    · exact .inr (.inr (hhand.goto rfl (not_appending_of_stopping hcall)))
  · intro u phase'' after' hu
    rcases goto_eq hu with ⟨-, hc⟩ | ⟨-, hc⟩
    · cases hc
      exact done_of_not_working hquiet
    · exact (h.work hc).ages rfl fun _ _ => .rfl

/-- A thread in `stop` goes on in it, under the lock if it had it. -/
theorem Inv.proceed (h : Inv f) {g : Fleet} {t : Nat} {phase phase' : StopPhase} {after : Afterwards}
    (hfrom : f.call t = .stopping phase after) (hlocked : phase.locked = true) (hrunning : g.running = f.running)
    (hlock : g.lock = f.lock) (hspawned : g.spawned = f.spawned)
    (hcall : g.call = (f.goto t (.stopping phase' after)).call)
    (hage : ∀ process, Ages (f.life process) (g.life process)) (hdone : g.Done phase') : Inv g := by
  refine h.goto hrunning hlock hspawned hcall hage (not_appending_of_stopping hfrom) (fun p hc => by cases hc) ?_
  intro phase'' after' hc
  cases hc
  exact ⟨fun _ => h.holder hfrom hlocked, hdone⟩

theorem setLife_self (process : Nat) (life : Life) : (f.setLife process life).life process = life :=
  Function.update_self _ _ _

theorem polled_life (p : ShardProcess) : (f.poll p).life p.process = (f.life p.process).polled :=
  setLife_self _ _

theorem ages_poll (p : ShardProcess) (process : Nat) : Ages (f.life process) ((f.poll p).life process) :=
  ages_setLife (.polled _) process

theorem take_succ_of_getElem? {ps : List ShardProcess} {i : Nat} {p : ShardProcess} (h : ps[i]? = some p) :
    ps.take (i + 1) = ps.take i ++ [p] := by
  rw [List.take_add_one, h]
  rfl

theorem take_of_getElem?_none {ps : List ShardProcess} {i : Nat} (h : ps[i]? = none) : ps.take i = ps :=
  List.take_of_length_le (List.getElem?_eq_none_iff.mp h)

theorem Asked.snoc {ps : List ShardProcess} {p : ShardProcess} (h : f.Asked ps) (hp : f.life p.process ≠ .up) :
    f.Asked (ps ++ [p]) := by
  intro q hq
  rcases List.mem_append.mp hq with hq | hq
  · exact h q hq
  · rw [List.mem_singleton.mp hq]
    exact hp

theorem Reaped.snoc {ps : List ShardProcess} {p : ShardProcess} (h : f.Reaped ps) (hp : f.life p.process = .reaped) :
    f.Reaped (ps ++ [p]) := by
  intro q hq
  rcases List.mem_append.mp hq with hq | hq
  · exact h q hq
  · rw [List.mem_singleton.mp hq]
    exact hp

/-- The first loop passes a process that has ended. -/
theorem Asked.pass {i : Nat} {p : ShardProcess} (h : f.Asked (f.running.take i)) (hp : f.running[i]? = some p)
    (hdead : f.alive p = false) : (f.poll p).Asked (f.running.take (i + 1)) := by
  rw [take_succ_of_getElem? hp]
  exact (h.ages fun q _ => ages_poll p q.process).snoc ((ages_poll p p.process).up (ne_up_of_dead hdead))

/-- The second loop passes a process that has ended, and reaps it. -/
theorem Reaped.pass {i : Nat} {p : ShardProcess} (h : f.Reaped (f.running.take i)) (hp : f.running[i]? = some p)
    (hdead : f.alive p = false) : (f.poll p).Reaped (f.running.take (i + 1)) := by
  rw [take_succ_of_getElem? hp]
  refine (h.ages fun q _ => ages_poll p q.process).snoc ?_
  rw [polled_life]
  exact polled_of_dead hdead

theorem Inv.stopStep (h : Inv f) {t : Nat} {phase : StopPhase} {after : Afterwards} (told : Bool)
    (hcall : f.call t = .stopping phase after) : Inv (f.stopStep t told after phase).1 := by
  have hdone := h.work hcall
  cases phase with
  | locking =>
    simp only [Fleet.stopStep]
    split
    · rename_i hfree
      refine h.relock hcall (fun _ => rfl) rfl fun u _ hu => ?_
      rw [hfree] at hu
      cases hu
    · exact h
  | checking =>
    simp only [Fleet.stopStep]
    split
    · exact h.proceed hcall rfl rfl rfl rfl rfl (fun _ => .rfl) trivial
    · exact h.proceed hcall rfl rfl rfl rfl rfl (fun _ => .rfl) fun p hp => absurd hp List.not_mem_nil
  | asking i =>
    simp only [Fleet.stopStep]
    split
    · rename_i hend
      refine h.proceed hcall rfl rfl rfl rfl rfl (fun _ => .rfl) ⟨?_, fun p hp => absurd hp List.not_mem_nil⟩
      exact take_of_getElem?_none hend ▸ hdone
    · rename_i p hp
      refine h.proceed hcall rfl rfl rfl rfl rfl (ages_poll p) ?_
      split
      · exact ⟨Asked.ages hdone fun q _ => ages_poll p q.process, hp⟩
      · rename_i hdead
        exact Asked.pass hdone hp (Bool.eq_false_of_not_eq_true hdead)
  | terminating i p =>
    obtain ⟨hasked, hp⟩ := hdone
    simp only [Fleet.stopStep]
    split
    · refine h.proceed hcall rfl rfl rfl rfl rfl (ages_setLife (.asked _)) ?_
      show (f.setLife p.process (f.life p.process).asked).Asked (f.running.take (i + 1))
      rw [take_succ_of_getElem? hp]
      refine (hasked.ages fun q _ => ages_setLife (.asked _) q.process).snoc ?_
      rw [setLife_self]
      exact asked_ne_up _
    · rename_i hdead
      exact h.proceed hcall rfl rfl rfl rfl rfl (ages_poll p) (hasked.pass hp (Bool.eq_false_of_not_eq_true hdead))
  | waiting i =>
    obtain ⟨hasked, hreaped⟩ := hdone
    simp only [Fleet.stopStep]
    split
    · rename_i hend
      rw [take_of_getElem?_none hend] at hreaped
      exact h.proceed hcall rfl rfl rfl rfl rfl (fun _ => .rfl) hreaped
    · rename_i p hp
      split
      · split
        · exact h.proceed hcall rfl rfl rfl rfl rfl (fun _ => .rfl) ⟨hasked, hreaped, hp⟩
        · exact h
      · rename_i hdead
        exact h.proceed hcall rfl rfl rfl rfl rfl (ages_poll p)
          ⟨hasked.ages fun q _ => ages_poll p q.process, hreaped.pass hp (Bool.eq_false_of_not_eq_true hdead)⟩
  | killing i p =>
    obtain ⟨hasked, hreaped, hp⟩ := hdone
    simp only [Fleet.stopStep]
    split
    · rename_i halive
      have hage : ∀ process, Ages (f.life process) ((f.setLife p.process .killed).life process) :=
        ages_setLife (.killed halive)
      exact h.proceed hcall rfl rfl rfl rfl rfl hage
        ⟨hasked.ages fun q _ => hage q.process, hreaped.ages fun q _ => hage q.process, hp⟩
    · exact h.proceed hcall rfl rfl rfl rfl rfl (ages_poll p)
        ⟨hasked.ages fun q _ => ages_poll p q.process, hreaped.ages fun q _ => ages_poll p q.process, hp⟩
  | reaping i p =>
    obtain ⟨hasked, hreaped, hp⟩ := hdone
    simp only [Fleet.stopStep]
    split
    · exact h
    · rename_i hdead
      exact h.proceed hcall rfl rfl rfl rfl rfl (ages_poll p)
        ⟨hasked.ages fun q _ => ages_poll p q.process, hreaped.pass hp (Bool.eq_false_of_not_eq_true hdead)⟩
  | clearing => exact h.clear hcall
  | releasing =>
    have hlock := h.holder hcall rfl
    refine h.relock hcall (fun hlocked => (by cases hlocked)) rfl fun u hne hu => ?_
    rw [hlock] at hu
    exact absurd (Option.some.inj hu).symm hne
  | left =>
    have hidle : ∀ o, Inv (f.goto t .idle, o).1 := fun (o : FleetOutput) =>
      h.goto rfl rfl rfl rfl (fun _ => .rfl) (not_appending_of_stopping hcall) (fun _ hc => by cases hc)
        fun _ _ hc => by cases hc
    cases after with
    | back => exact hidle (.returned t)
    | raise error => exact hidle (.raised t error)

theorem Inv.poll (h : Inv f) (p : ShardProcess) : Inv (f.poll p) :=
  h.live rfl rfl rfl rfl (ages_poll p)

theorem Inv.callStep (h : Inv f) (shards : Nat) {t : Nat} (told : Bool) (hapart : f.Apart (.step t told)) :
    Inv (f.callStep shards t told).1 := by
  unfold Fleet.callStep
  cases hcall : f.call t with
  | idle => exact h
  | startChecking =>
    simp only
    split
    · exact h.turn hcall rfl rfl
    · exact h.turn hcall rfl rfl
  | startClearing => exact (h.turn hcall rfl rfl).live rfl rfl rfl rfl fun _ => .rfl
  | spawning shard =>
    simp only
    split
    · exact h.turn hcall rfl rfl
    · split
      · exact h.callStop hcall rfl _
      · exact h.spawn hcall rfl
  | appending p => exact h.append hcall (hapart (by simp [appends, hcall]))
  | stopping phase after => exact h.stopStep told hcall
  | superviseChecking => exact h.turn hcall rfl (by split <;> rfl)
  | superviseUnstarted =>
    simp only
    split
    · exact h.turn hcall rfl rfl
    · exact h.turn hcall rfl rfl
  | watching =>
    simp only
    split
    · exact h.callStop hcall rfl _
    · exact h.turn hcall rfl rfl
  | looking =>
    simp only
    split
    · exact h.callStop hcall rfl _
    · exact h.turn hcall rfl rfl
  | polling i casualties =>
    simp only
    split
    · rename_i p hp
      exact (h.poll p).turn hcall rfl rfl
    · split
      · exact h.turn hcall rfl rfl
      · exact h.callStop hcall rfl _
  | asking =>
    simp only
    split
    · exact h.turn hcall rfl rfl
    · exact h.turn hcall rfl rfl
  | sleeping => exact h.turn hcall rfl rfl

/-- **Step lemma.** -/
theorem Inv.step (h : Inv f) (shards : Nat) {e : FleetEvent} (hapart : f.Apart e) : Inv (f.step shards e).1 := by
  cases e with
  | start t => exact h.begin rfl
  | stop t =>
    simp only [Fleet.step]
    split
    · rename_i hidle
      exact h.callStop hidle rfl _
    · exact h
  | requestStop => exact h.live rfl rfl rfl rfl fun _ => .rfl
  | supervise t => exact h.begin rfl
  | step t told => exact h.callStep shards told hapart
  | exit process =>
    simp only [Fleet.step]
    split
    · rename_i halive
      exact h.live rfl rfl rfl rfl (ages_setLife (.zombie halive.2))
    · exact h

theorem inv_new : Inv {} where
  holder := fun hc => by cases hc
  known := fun _ hp => absurd hp List.not_mem_nil
  hand := fun hc => by cases hc
  tracked := fun _ hp => absurd hp (Nat.not_lt_zero _)
  work := fun hc => by cases hc

/-- **Run lemma.** -/
theorem Inv.run (shards : Nat) {events : List FleetEvent} (h : Machine.Along (Fleet.step shards) Apart {} events) :
    Inv (run shards events).1 :=
  Machine.Along.invariant (fun _ _ hinv hapart => hinv.step shards hapart) events inv_new h events (List.prefix_refl _)

/-! ## What is down stays down -/

/-- Processes are only added, and only age. -/
structure Onward (f g : Fleet) : Prop where
  spawned : f.spawned ≤ g.spawned
  ages : ∀ process < f.spawned, Ages (f.life process) (g.life process)

theorem Onward.rfl : Onward f f := ⟨le_rfl, fun _ _ => .rfl⟩

theorem Onward.trans {g k : Fleet} (h : Onward f g) (h' : Onward g k) : Onward f k :=
  ⟨h.spawned.trans h'.spawned, fun process hp => (h.ages process hp).trans (h'.ages process (hp.trans_le h.spawned))⟩

/-- A change that leaves what was spawned as it was, or lets one process age. -/
theorem Onward.of_ages {g : Fleet} (hspawned : g.spawned = f.spawned)
    (hage : ∀ process, Ages (f.life process) (g.life process)) : Onward f g :=
  ⟨hspawned.ge, fun process _ => hage process⟩

theorem onward_stopStep (f : Fleet) (t : Nat) (told : Bool) (after : Afterwards) (phase : StopPhase) :
    Onward f (f.stopStep t told after phase).1 := by
  cases phase with
  | asking i =>
    simp only [stopStep]
    split
    · exact .of_ages rfl fun _ => .rfl
    · rename_i p hp
      exact .of_ages rfl (ages_poll p)
  | terminating i p =>
    simp only [stopStep]
    split
    · exact .of_ages rfl (ages_setLife (.asked _))
    · exact .of_ages rfl (ages_poll p)
  | waiting i =>
    simp only [stopStep]
    split
    · exact .of_ages rfl fun _ => .rfl
    · rename_i p hp
      split
      · split
        · exact .of_ages rfl fun _ => .rfl
        · exact .rfl
      · exact .of_ages rfl (ages_poll p)
  | killing i p =>
    simp only [stopStep]
    split
    · rename_i halive
      exact .of_ages rfl (ages_setLife (.killed halive))
    · exact .of_ages rfl (ages_poll p)
  | reaping i p =>
    simp only [stopStep]
    split
    · exact .rfl
    · exact .of_ages rfl (ages_poll p)
  | left => cases after <;> exact .of_ages rfl fun _ => .rfl
  | _ =>
    simp only [stopStep]
    try split
    all_goals exact .of_ages rfl fun _ => .rfl

theorem onward_callStep (shards : Nat) (f : Fleet) (t : Nat) (told : Bool) : Onward f (f.callStep shards t told).1 := by
  unfold Fleet.callStep
  cases hcall : f.call t with
  | stopping phase after => exact onward_stopStep f t told after phase
  | spawning shard =>
    simp only
    split
    · exact .of_ages rfl fun _ => .rfl
    · split
      · exact .of_ages rfl fun _ => .rfl
      · refine ⟨Nat.le_succ _, fun process hp => ?_⟩
        have hsame : (f.setLife f.spawned .up).life process = f.life process := Function.update_of_ne hp.ne _ _
        show Ages _ ((f.setLife f.spawned .up).life process)
        rw [hsame]
        exact .rfl
  | polling i casualties =>
    simp only
    split
    · rename_i p hp
      exact .of_ages rfl (ages_poll p)
    · split <;> exact .of_ages rfl fun _ => .rfl
  | _ =>
    simp only
    try split
    all_goals exact .of_ages rfl fun _ => .rfl

theorem onward_step (shards : Nat) (f : Fleet) (e : FleetEvent) : Onward f (f.step shards e).1 := by
  cases e with
  | step t told => exact onward_callStep shards f t told
  | exit process =>
    simp only [Fleet.step]
    split
    · rename_i halive
      exact .of_ages rfl (ages_setLife (.zombie halive.2))
    · exact .rfl
  | requestStop => exact .of_ages rfl fun _ => .rfl
  | start t | supervise t =>
    simp only [Fleet.step, begin]
    split <;> exact .of_ages rfl fun _ => .rfl
  | stop t =>
    simp only [Fleet.step]
    split <;> exact .of_ages rfl fun _ => .rfl

theorem onward_exec (shards : Nat) (f : Fleet) (events : List FleetEvent) :
    Onward f (Machine.exec (Fleet.step shards) f events).1 :=
  Machine.exec_induction (I := fun _ g => Onward f g) .rfl (fun _ g e h => h.trans (onward_step shards g e)) events

theorem run_append (shards : Nat) (before after : List FleetEvent) :
    (run shards (before ++ after)).1 = (Machine.exec (Fleet.step shards) (run shards before).1 after).1 := by
  rw [run, Machine.exec_append]
  rfl

theorem run_snoc (shards : Nat) (before : List FleetEvent) (e : FleetEvent) :
    (run shards (before ++ [e])).1 = ((run shards before).1.step shards e).1 := by
  rw [run, Machine.exec_snoc]
  rfl

theorem down_stopStep {t u : Nat} {told : Bool} {after : Afterwards} {phase : StopPhase}
    (hdown : (f.stopStep u told after phase).2 = .down t) : (f.stopStep u told after phase).1.running = [] := by
  cases phase with
  | checking =>
    simp only [stopStep] at hdown ⊢
    split at hdown
    · rename_i hempty
      rw [if_pos hempty]
      exact hempty
    · cases hdown
  | clearing => rfl
  | waiting i =>
    simp only [stopStep] at hdown
    split at hdown
    · cases hdown
    · split at hdown
      · split at hdown <;> cases hdown
      · cases hdown
  | left => cases after <;> cases hdown
  | releasing => cases hdown
  | _ =>
    simp only [stopStep] at hdown
    split at hdown <;> cases hdown

/-- A `stop` says that the fleet is down where it finds the list empty or empties it. -/
theorem down_empty {shards : Nat} {e : FleetEvent} {t : Nat} (hdown : (f.step shards e).2 = .down t) :
    (f.step shards e).1.running = [] := by
  cases e with
  | step u told =>
    simp only [Fleet.step, Fleet.callStep] at hdown ⊢
    cases hcall : f.call u with
    | stopping phase after =>
      rw [hcall] at hdown
      exact down_stopStep hdown
    | spawning shard =>
      simp only [hcall] at hdown
      split at hdown
      · cases hdown
      · split at hdown <;> cases hdown
    | polling i casualties =>
      simp only [hcall] at hdown
      split at hdown
      · cases hdown
      · split at hdown <;> cases hdown
    | idle | startClearing | appending p | superviseChecking | sleeping =>
      simp only [hcall] at hdown
      cases hdown
    | startChecking | superviseUnstarted | watching | looking | asking =>
      simp only [hcall] at hdown
      split at hdown <;> cases hdown
  | requestStop => cases hdown
  | start u | supervise u =>
    simp only [Fleet.step, begin] at hdown
    split at hdown <;> cases hdown
  | stop u | exit process =>
    simp only [Fleet.step] at hdown
    split at hdown <;> cases hdown

theorem down_for_good {shards : Nat} {before after : List FleetEvent} {e : FleetEvent} {t : Nat}
    (hapart : Machine.Along (Fleet.step shards) Apart {} (before ++ e :: after))
    (hdown : ((run shards before).1.step shards e).2 = .down t) :
    (run shards (before ++ [e])).1.running = [] ∧
      ∀ process < (run shards (before ++ [e])).1.spawned, ¬(run shards (before ++ [e])).1.InHand process →
        (run shards (before ++ e :: after)).1.life process = .reaped := by
  have hsplit : before ++ e :: after = (before ++ [e]) ++ after := by simp
  rw [hsplit] at hapart ⊢
  have hempty : (run shards (before ++ [e])).1.running = [] := by
    rw [run_snoc]
    exact down_empty hdown
  refine ⟨hempty, fun process hprocess hhand => ?_⟩
  rw [run_append]
  refine ((onward_exec shards _ after).ages process hprocess).reaped ?_
  rcases (Inv.run shards (hapart.append _).1).tracked process hprocess with hreaped | hlist | hin
  · exact hreaped
  · rw [hempty] at hlist
    exact absurd hlist List.not_mem_nil
  · exact absurd hin hhand

/-- A thread that has been through the list and is on its way out of `stop`. -/
def Through (f : Fleet) (t : Nat) (after : Afterwards) : Prop :=
  f.call t = .stopping .releasing after ∨ f.call t = .stopping .left after

theorem goto_ne {t u : Nat} (h : t ≠ u) (c : Call) : (f.goto u c).call t = f.call t := Function.update_of_ne h _ _

theorem goto_self (t : Nat) (c : Call) : (f.goto t c).call t = c := Function.update_self _ _ _

/-- A thread's step is its own. -/
theorem callStep_ne (shards : Nat) {t u : Nat} (h : t ≠ u) (told : Bool) :
    (f.callStep shards u told).1.call t = f.call t := by
  unfold Fleet.callStep
  cases hcall : f.call u with
  | stopping phase after =>
    cases phase with
    | left => cases after <;> exact goto_ne h _
    | releasing | clearing => exact goto_ne h _
    | waiting i =>
      simp only [stopStep]
      split
      · exact goto_ne h _
      · split
        · split
          · exact goto_ne h _
          · rfl
        · exact goto_ne h _
    | locking | reaping i p =>
      simp only [stopStep]
      split <;> first | rfl | exact goto_ne h _
    | _ =>
      simp only [stopStep]
      split <;> exact goto_ne h _
  | idle => rfl
  | spawning shard =>
    simp only
    split
    · exact goto_ne h _
    · split <;> exact goto_ne h _
  | polling i casualties =>
    simp only
    split
    · exact goto_ne h _
    · split <;> exact goto_ne h _
  | startClearing | appending p | superviseChecking | sleeping => exact goto_ne h _
  | _ =>
    simp only
    split <;> exact goto_ne h _

theorem not_through {t : Nat} {c : Call} {after : Afterwards} (hcall : f.call t = c)
    (hc : ∀ phase after, c = .stopping phase after → phase ≠ .releasing ∧ phase ≠ .left) : ¬f.Through t after := by
  rintro (h | h)
  · exact (hc _ _ (hcall.symm.trans h)).1 rfl
  · exact (hc _ _ (hcall.symm.trans h)).2 rfl

/-- Nobody comes through a `stop` without its having said that the fleet is down. -/
theorem through_stopStep {t : Nat} {told : Bool} {phase : StopPhase} {after after' : Afterwards}
    (hcall : f.call t = .stopping phase after) (h : (f.stopStep t told after phase).1.Through t after') :
    (f.stopStep t told after phase).2 = .down t ∨ f.Through t after' := by
  have hnew : ∀ {g : Fleet} {c : Call}, (g.goto t c).Through t after' →
      (∀ phase after, c = .stopping phase after → phase ≠ .releasing ∧ phase ≠ .left) → f.Through t after' :=
    fun hthrough hc => absurd hthrough (not_through (goto_self t _) hc)
  cases phase with
  | clearing => exact .inl rfl
  | checking =>
    simp only [stopStep] at h ⊢
    split at h
    · rename_i hempty
      rw [if_pos hempty]
      exact .inl rfl
    · exact .inr (hnew h fun _ _ hc => by cases hc; simp)
  | releasing =>
    rcases h with h | h <;> rw [stopStep, goto_self] at h <;> cases h
    exact .inr (.inl hcall)
  | left => cases after <;> exact .inr (hnew h fun _ _ hc => by cases hc)
  | locking =>
    simp only [stopStep] at h
    split at h
    · exact absurd h (not_through (goto_self t _) fun _ _ hc => by cases hc; simp)
    · exact .inr h
  | asking i =>
    simp only [stopStep] at h
    split at h
    · exact .inr (hnew h fun _ _ hc => by cases hc; simp)
    · refine .inr (hnew h fun _ _ hc => ?_)
      split at hc <;> cases hc <;> simp
  | waiting i =>
    simp only [stopStep] at h
    split at h
    · exact .inr (hnew h fun _ _ hc => by cases hc; simp)
    · split at h
      · split at h
        · exact .inr (hnew h fun _ _ hc => by cases hc; simp)
        · exact .inr h
      · exact .inr (hnew h fun _ _ hc => by cases hc; simp)
  | reaping i p =>
    simp only [stopStep] at h
    split at h
    · exact .inr h
    · exact .inr (hnew h fun _ _ hc => by cases hc; simp)
  | terminating i p | killing i p =>
    simp only [stopStep] at h
    split at h <;> exact .inr (hnew h fun _ _ hc => by cases hc; simp)

theorem through_step {shards : Nat} {e : FleetEvent} {t : Nat} {after : Afterwards}
    (h : (f.step shards e).1.Through t after) : (f.step shards e).2 = .down t ∨ f.Through t after := by
  have hother : ∀ {u : Nat} {c : Call} {g : Fleet}, g.call = f.call →
      (∀ phase after, c = .stopping phase after → phase ≠ .releasing ∧ phase ≠ .left) → (g.goto u c).Through t after →
        f.Through t after := by
    intro u c g hg hc hthrough
    by_cases hut : t = u
    · subst hut
      exact absurd hthrough (not_through (goto_self t c) hc)
    · unfold Through at hthrough
      rw [goto_ne hut, hg] at hthrough
      exact hthrough
  cases e with
  | step u told =>
    by_cases hut : t = u
    · subst hut
      have hself : ∀ {c : Call} {g : Fleet}, g.call = f.call → (g.goto t c).Through t after →
          (∀ phase after, c = .stopping phase after → phase ≠ .releasing ∧ phase ≠ .left) → f.Through t after :=
        fun hg hthrough hc => hother hg hc hthrough
      simp only [Fleet.step, Fleet.callStep] at h ⊢
      cases hcall : f.call t with
      | stopping phase after' =>
        rw [hcall] at h
        exact through_stopStep hcall h
      | idle =>
        rw [hcall] at h
        exact .inr h
      | spawning shard =>
        simp only [hcall] at h
        right
        split at h
        · exact hself rfl h fun _ _ hc => by cases hc
        · split at h
          · exact hself (g := { f with stopped := true }) rfl h fun _ _ hc => by cases hc; simp
          · exact hself (g := f.setLife f.spawned .up) rfl h fun _ _ hc => by cases hc
      | polling i casualties =>
        simp only [hcall] at h
        right
        split at h
        · rename_i p hp
          exact hself (g := f.poll p) rfl h fun _ _ hc => by cases hc
        · split at h
          · exact hself rfl h fun _ _ hc => by cases hc
          · exact hself (g := { f with stopped := true }) rfl h fun _ _ hc => by cases hc; simp
      | startClearing | appending p | sleeping =>
        simp only [hcall] at h
        exact .inr (hself (g := f) rfl h fun _ _ hc => by cases hc)
      | superviseChecking =>
        simp only [hcall] at h
        refine .inr (hself (g := f) rfl h fun _ _ hc => ?_)
        split at hc <;> cases hc
      | startChecking | superviseUnstarted | asking =>
        simp only [hcall] at h
        right
        split at h <;> exact hself (g := f) rfl h fun _ _ hc => by cases hc
      | watching | looking =>
        simp only [hcall] at h
        right
        split at h
        · exact hself (g := { f with stopped := true }) rfl h fun _ _ hc => by cases hc; simp
        · exact hself (g := f) rfl h fun _ _ hc => by cases hc
    · refine .inr ?_
      unfold Through at h ⊢
      rwa [show (f.step shards (.step u told)).1.call t = f.call t from callStep_ne shards hut told] at h
  | requestStop => exact .inr h
  | exit process =>
    simp only [Fleet.step] at h
    split at h <;> exact .inr h
  | start u | supervise u =>
    simp only [Fleet.step, begin] at h
    split at h
    · exact .inr (hother (g := f) rfl (fun _ _ hc => by cases hc) h)
    · exact .inr h
  | stop u =>
    simp only [Fleet.step] at h
    split at h
    · exact .inr (hother (g := { f with stopped := true }) rfl (fun _ _ hc => by cases hc; simp) h)
    · exact .inr h

/-- Its `down` lies in the same call: since then the thread has only been on its way out. -/
theorem down_before (shards : Nat) {t : Nat} {after : Afterwards} : ∀ {events : List FleetEvent},
    (run shards events).1.Through t after →
      ∃ before e rest, events = before ++ e :: rest ∧ ((run shards before).1.step shards e).2 = .down t ∧
        ∀ mid, mid <+: rest → (run shards (before ++ e :: mid)).1.Through t after := by
  intro events
  induction events using List.reverseRecOn with
  | nil =>
    rintro (h | h) <;> cases h
  | append_singleton events e ih =>
    intro h
    have hlast := h
    rw [run_snoc] at h
    rcases through_step h with hdown | hthrough
    · refine ⟨events, e, [], rfl, hdown, fun mid hmid => ?_⟩
      rw [List.prefix_nil.mp hmid]
      exact hlast
    · obtain ⟨before, d, rest, rfl, hdown, hmid⟩ := ih hthrough
      refine ⟨before, d, rest ++ [e], by simp, hdown, fun mid hprefix => ?_⟩
      rcases List.prefix_concat_iff.mp hprefix with rfl | hshort
      · have hsame : before ++ d :: (rest ++ [e]) = before ++ d :: rest ++ [e] := by simp
        rw [hsame]
        exact hlast
      · exact hmid mid hshort

/-- **No shard outlives its fleet.** A call that comes through `stop` (of itself, of `supervise`
or of a `start` that failed) has seen the list empty, and every process spawned until then is
reaped, but for one that another `start` had in its hands. -/
theorem through_is_reaped (shards : Nat) (events : List FleetEvent) (t : Nat) (after : Afterwards)
    (hapart : Machine.Along (Fleet.step shards) Apart {} events) (hthrough : (run shards events).1.Through t after) :
    ∃ before e rest, events = before ++ e :: rest ∧
      (∀ mid, mid <+: rest → (run shards (before ++ e :: mid)).1.Through t after) ∧
      (run shards (before ++ [e])).1.running = [] ∧
      ∀ process < (run shards (before ++ [e])).1.spawned, ¬(run shards (before ++ [e])).1.InHand process →
        (run shards events).1.life process = .reaped := by
  obtain ⟨before, e, rest, rfl, hdown, hmid⟩ := down_before shards hthrough
  exact ⟨before, e, rest, rfl, hmid, down_for_good hapart hdown⟩

/-- One shard is spawned, told to stop, and ends. -/
def mourned : List FleetEvent :=
  .start 0 :: List.replicate 5 (.step 0 false) ++ .stop 0 :: List.replicate 5 (.step 0 false) ++
    .exit 0 :: List.replicate 3 (.step 0 false)

theorem mourned_is_reaped : ∃ before e rest, mourned = before ++ e :: rest ∧
    (run 1 (before ++ [e])).1.running = [] ∧ ∀ process < (run 1 (before ++ [e])).1.spawned,
      ¬(run 1 (before ++ [e])).1.InHand process → (run 1 mourned).1.life process = .reaped := by
  obtain ⟨before, e, rest, hsplit, -, hempty, hreaped⟩ :=
    through_is_reaped 1 mourned 0 .back (by decide +kernel) (.inl (by decide +kernel))
  exact ⟨before, e, rest, hsplit, hempty, hreaped⟩

end Fleet

end ShipInfer.Launch
