import ShipInfer.Ingest.Manager

/-!
# When no camera has two actors

A started actor that has not been told to stop is in the map, or its own
`add_camera` is still to re-check it, or an operation that holds it is still to
tell it. So no actor is orphaned. An actor that is out of the map and not told yet
has a twin as soon as the camera is added again and started.
-/

namespace ShipInfer.Ingest.IngestManager

variable {s s' : IngestManager} {i : Nat} {a a' : CameraActor}

/-- The manager still has the actor in hand. -/
def Held (s : IngestManager) (i : Nat) (a : CameraActor) : Prop :=
  s.actors.get? a.camera = some i ∨ a.adding = .started ∨ ∃ todo ∈ s.stopping, i ∈ todo

/-- An actor is not started before its signal is cleared, and one that has been
started and not told to stop is in hand. -/
structure Accounted (s : IngestManager) : Prop where
  fresh : ∀ (i : Nat) (a : CameraActor), s.built[i]? = some a → a.adding = .inserted ∨ a.adding = .cleared →
    a.thread = .unstarted
  held : ∀ (i : Nat) (a : CameraActor), s.built[i]? = some a → a.thread ≠ .unstarted → a.stop = false → s.Held i a

theorem getElem?_setActor (h : s.built[i]? = some a) (a' : CameraActor) (k : Nat) :
    (s.setActor i a').built[k]? = if k = i then some a' else s.built[k]? := by
  obtain ⟨hlt, -⟩ := List.getElem?_eq_some_iff.mp h
  by_cases hk : k = i
  · simp [setActor, hk, hlt]
  · simp [setActor, hk, Ne.symm hk]

theorem accounted_empty : ({} : IngestManager).Accounted :=
  ⟨fun i a h => by simp at h, fun i a h => by simp at h⟩

/-- The manager moves what it has in hand. -/
theorem Accounted.hand (h : s.Accounted) (hbuilt : s'.built = s.built) (hheld : ∀ i a, s.Held i a → s'.Held i a) :
    s'.Accounted := by
  constructor
  · intro i a ha
    exact h.fresh i a (hbuilt ▸ ha)
  · intro i a ha hthread hstop
    exact hheld i a (h.held i a (hbuilt ▸ ha) hthread hstop)

/-- One actor changes. -/
theorem Accounted.setActor (h : s.Accounted) (ha : s.built[i]? = some a)
    (hfresh : a'.adding = .inserted ∨ a'.adding = .cleared → a'.thread = .unstarted)
    (hheld : a'.thread ≠ .unstarted → a'.stop = false → s.Held i a') : (s.setActor i a').Accounted := by
  constructor
  · intro k b hb
    rw [getElem?_setActor ha] at hb
    split at hb
    · obtain rfl := Option.some.inj hb
      exact hfresh
    · exact h.fresh k b hb
  · intro k b hb
    rw [getElem?_setActor ha] at hb
    split at hb
    · rename_i hki
      subst hki
      obtain rfl := Option.some.inj hb
      exact hheld
    · exact h.held k b hb

theorem Accounted.add (h : s.Accounted) (camera : String) : (s.add camera).1.Accounted := by
  unfold IngestManager.add
  split
  · exact h
  · rename_i hnew
    have hbuilt (k : Nat) (b : CameraActor) (hb : (s.built ++ [{ camera := camera }])[k]? = some b) :
        s.built[k]? = some b ∨ b = { camera := camera } := by
      rcases Nat.lt_or_ge k s.built.length with hlt | hge
      · exact .inl (by rwa [List.getElem?_append_left hlt] at hb)
      · rw [List.getElem?_append_right hge] at hb
        exact .inr (List.mem_singleton.mp (List.mem_of_getElem? hb))
    constructor
    · intro k b hb
      rcases hbuilt k b hb with hold | rfl
      · exact h.fresh k b hold
      · exact fun _ => rfl
    · intro k b hb hthread hstop
      rcases hbuilt k b hb with hold | rfl
      · rcases h.held k b hold hthread hstop with hmap | hin
        · left
          have hne : b.camera ≠ camera := by
            intro hbc
            apply hnew
            rw [Dict.contains, ← hbc, hmap]
            rfl
          dsimp only
          rw [Dict.get?_set_ne hne]
          exact hmap
        · exact .inr hin
      · exact absurd rfl hthread

theorem Held.more {j : Nat} (h : s.Held i a) (hactors : s'.actors = s.actors)
    (hstopping : s'.stopping = s.stopping ++ [[j]]) : s'.Held i a := by
  rcases h with hmap | hadding | ⟨todo, htodo, hi⟩
  · exact .inl (hactors ▸ hmap)
  · exact .inr (.inl hadding)
  · refine .inr (.inr ⟨todo, ?_, hi⟩)
    simp [hstopping, htodo]

theorem Accounted.remove (h : s.Accounted) (camera : String) : (s.remove camera).1.Accounted := by
  unfold IngestManager.remove
  split
  · exact h
  · rename_i i hi
    refine h.hand rfl ?_
    intro k b hk
    rcases hk with hmap | hadding | ⟨todo, htodo, hin⟩
    · by_cases hbc : b.camera = camera
      · have hki : k = i := by
          rw [hbc, hi] at hmap
          exact (Option.some.inj hmap).symm
        exact .inr (.inr ⟨[i], by simp, by simp [hki]⟩)
      · exact .inl (by simpa [Dict.get?_erase, hbc] using hmap)
    · exact .inr (.inl hadding)
    · exact .inr (.inr ⟨todo, by simp [htodo], hin⟩)

theorem Accounted.stop (h : s.Accounted) : s.stop.Accounted := by
  refine h.hand rfl ?_
  intro k b hk
  rcases hk with hmap | hadding | ⟨todo, htodo, hin⟩
  · have hmem : k ∈ s.actors.values := List.mem_map.mpr ⟨(b.camera, k), Dict.get?_eq_some_iff.mp hmap, rfl⟩
    exact .inr (.inr ⟨s.actors.values ++ s.actors.values, by simp [IngestManager.stop], by simp [hmem]⟩)
  · exact .inr (.inl hadding)
  · exact .inr (.inr ⟨todo, by simp [IngestManager.stop, htodo], hin⟩)

/-- A `request_stop` that has been made holds its actor no more, and the rest as before. -/
theorem Held.told {k j : Nat} {rest : List Nat} (h : s.Held j a) (hk : s.stopping[k]? = some (i :: rest)) (hne : j ≠ i) :
    Held { s with stopping := s.stopping.set k rest } j a := by
  obtain ⟨hlt, -⟩ := List.getElem?_eq_some_iff.mp hk
  rcases h with hmap | hadding | ⟨todo, htodo, hj⟩
  · exact .inl hmap
  · exact .inr (.inl hadding)
  · obtain ⟨l, hl⟩ := List.mem_iff_getElem?.mp htodo
    by_cases hlk : l = k
    · subst hlk
      rw [hk] at hl
      obtain rfl := Option.some.inj hl
      have hrest : j ∈ rest := by simpa [hne] using hj
      exact .inr (.inr ⟨rest, List.mem_of_getElem? (i := l) (by simp [hlt]), hrest⟩)
    · refine .inr (.inr ⟨todo, List.mem_of_getElem? (i := l) ?_, hj⟩)
      simpa [Ne.symm hlk] using hl

theorem Accounted.requestStop (h : s.Accounted) (k : Nat) : (s.requestStop k).Accounted := by
  unfold IngestManager.requestStop
  split
  · rename_i i rest hk
    dsimp only
    split
    · rename_i a ha
      constructor
      · intro j b hb
        rw [getElem?_setActor (s := { s with stopping := s.stopping.set k rest }) ha] at hb
        split at hb
        · obtain rfl := Option.some.inj hb
          exact h.fresh i a ha
        · exact h.fresh j b hb
      · intro j b hb hthread hstop
        rw [getElem?_setActor (s := { s with stopping := s.stopping.set k rest }) ha] at hb
        split at hb
        · obtain rfl := Option.some.inj hb
          cases hstop
        · rename_i hne
          exact (h.held j b hb hthread hstop).told hk hne
    · rename_i hnone
      constructor
      · exact h.fresh
      · intro j b hb hthread hstop
        have hne : j ≠ i := by
          rintro rfl
          rw [hnone] at hb
          cases hb
        exact (h.held j b hb hthread hstop).told hk hne
  · exact h

/-- A step of one actor keeps what each way to make it keeps. -/
theorem onActor_cases {P : IngestManager → Prop} (hs : P s) {p : CameraActor → Bool} {f : CameraActor → IngestManager × IngestOutput}
    (hf : ∀ a, s.built[i]? = some a → p a = true → P (f a).1) : P (s.onActor i p f).1 := by
  unfold onActor
  split
  · rename_i a ha
    split
    · rename_i hp
      exact hf a ha hp
    · exact hs
  · exact hs

theorem Accounted.recheck (h : s.Accounted) (ha : s.built[i]? = some a) : (s.recheck i a).1.Accounted := by
  unfold IngestManager.recheck
  split
  · rename_i hmap
    exact h.setActor ha (fun hfresh => by simp at hfresh) fun _ _ => .inl hmap
  · have hmore : ({ s with stopping := s.stopping ++ [[i]] } : IngestManager).Accounted := h.hand rfl fun k b hk => hk.more rfl rfl
    exact hmore.setActor (a := a) ha (fun hfresh => by simp at hfresh) fun _ _ => .inr (.inr ⟨[i], by simp, by simp⟩)

theorem Accounted.step (h : s.Accounted) (e : IngestEvent) : (s.step e).1.Accounted := by
  cases e with
  | add camera => exact h.add camera
  | remove camera => exact h.remove camera
  | stop => exact h.stop
  | requestStop k => exact h.requestStop k
  | recheck i => exact onActor_cases h fun a ha _ => h.recheck ha
  | clear i =>
    refine onActor_cases h fun a ha hp => ?_
    have hunstarted := h.fresh i a ha (.inl (of_decide_eq_true hp))
    exact h.setActor ha (fun _ => hunstarted) fun hthread => absurd hunstarted hthread
  | launch i =>
    refine onActor_cases h fun a ha _ => ?_
    exact h.setActor ha (fun hfresh => by simp at hfresh) fun _ _ => .inr (.inl rfl)
  | launchFails i =>
    refine onActor_cases h fun a ha hp => ?_
    have hunstarted := h.fresh i a ha (.inr (of_decide_eq_true hp))
    exact h.setActor ha (fun _ => hunstarted) fun hthread => absurd hunstarted hthread
  | halt i =>
    refine onActor_cases h fun a ha _ => ?_
    exact h.setActor ha (h.fresh i a ha) fun _ hstop => by cases hstop
  | finish i =>
    refine onActor_cases h fun a ha hp => ?_
    have hrunning : a.thread = .running := of_decide_eq_true hp
    have hstarted : a.thread ≠ .unstarted := by simp [hrunning]
    exact h.setActor ha (fun hfresh => absurd (h.fresh i a ha hfresh) hstarted) fun _ hstop => h.held i a ha hstarted hstop

/-! ## One actor a camera -/

theorem live_iff : a.live = true ↔ a.thread = .running ∧ a.stop = false := by
  simp [CameraActor.live]

/-- The actor that is started has no twin: none of its camera that runs untold is in
the map, before its own re-check, or waiting to be told by what took it out. -/
def Untwinned (s : IngestManager) : IngestEvent → Prop
  | .launch i => ∀ a ∈ s.built[i]?, a.adding = .cleared → a.stop = false →
      ∀ j b, s.built[j]? = some b → j ≠ i → b.camera = a.camera → b.live = true → ¬s.Held j b
  | _ => True

/-- What runs untold after `e` did so before, or `e` starts it. -/
def LiveFrom (s : IngestManager) (e : IngestEvent) (s' : IngestManager) : Prop :=
  ∀ j b, s'.built[j]? = some b → b.live = true →
    (∃ b₀, s.built[j]? = some b₀ ∧ b₀.camera = b.camera ∧ b₀.live = true) ∨
    ∃ b₀, e = .launch j ∧ s.built[j]? = some b₀ ∧ b₀.camera = b.camera ∧ b₀.adding = .cleared ∧ b₀.stop = false

theorem LiveFrom.same {e : IngestEvent} (hbuilt : s'.built = s.built) : LiveFrom s e s' := by
  intro j b hb hlive
  exact .inl ⟨b, hbuilt ▸ hb, rfl, hlive⟩

theorem LiveFrom.setActor {e : IngestEvent} (ha : s.built[i]? = some a) (hbuilt : s'.built = (s.setActor i a').built)
    (hcamera : a.camera = a'.camera)
    (hlive : a'.live = true → a.live = true ∨ e = .launch i ∧ a.adding = .cleared ∧ a.stop = false) : LiveFrom s e s' := by
  intro j b hb hb'
  rw [hbuilt, getElem?_setActor ha] at hb
  split at hb
  · rename_i hji
    subst hji
    obtain rfl := Option.some.inj hb
    rcases hlive hb' with hold | ⟨he, hadding, hstop⟩
    · exact .inl ⟨a, ha, hcamera, hold⟩
    · exact .inr ⟨a, he, ha, hcamera, hadding, hstop⟩
  · exact .inl ⟨b, hb, rfl, hb'⟩

theorem LiveFrom.add (camera : String) : LiveFrom s (.add camera) (s.add camera).1 := by
  unfold IngestManager.add
  split
  · exact .same rfl
  · intro j b hb hlive
    rcases Nat.lt_or_ge j s.built.length with hlt | hge
    · rw [List.getElem?_append_left hlt] at hb
      exact .inl ⟨b, hb, rfl, hlive⟩
    · rw [List.getElem?_append_right hge] at hb
      obtain rfl := List.mem_singleton.mp (List.mem_of_getElem? hb)
      simp [live_iff] at hlive

theorem LiveFrom.step (h : s.Accounted) (e : IngestEvent) : LiveFrom s e (s.step e).1 := by
  have hself : LiveFrom s e s := .same rfl
  cases e with
  | add camera => exact .add camera
  | remove camera =>
    simp only [IngestManager.step, IngestManager.remove]
    split <;> exact .same rfl
  | stop => exact .same rfl
  | requestStop k =>
    simp only [IngestManager.step, IngestManager.requestStop]
    split
    · split
      · rename_i ha
        exact .setActor ha rfl rfl fun hlive => by simp [live_iff] at hlive
      · exact .same rfl
    · exact .same rfl
  | recheck i =>
    refine onActor_cases hself fun a ha _ => ?_
    unfold IngestManager.recheck
    split
    · exact .setActor ha rfl rfl .inl
    · exact .setActor ha rfl rfl .inl
  | clear i =>
    refine onActor_cases hself fun a ha hp => .setActor ha rfl rfl fun hlive => ?_
    have hunstarted := h.fresh i a ha (.inl (of_decide_eq_true hp))
    simp [live_iff, hunstarted] at hlive
  | launch i =>
    refine onActor_cases hself fun a ha hp => .setActor ha rfl rfl fun hlive => ?_
    exact .inr ⟨rfl, of_decide_eq_true hp, (live_iff.mp hlive).2⟩
  | launchFails i => exact onActor_cases hself fun a ha _ => .setActor ha rfl rfl .inl
  | halt i => exact onActor_cases hself fun a ha _ => .setActor ha rfl rfl fun hlive => by simp [live_iff] at hlive
  | finish i => exact onActor_cases hself fun a ha _ => .setActor ha rfl rfl fun hlive => by simp [live_iff] at hlive

theorem NoTwins.step (ht : s.NoTwins) (h : s.Accounted) (e : IngestEvent) : (s.step e).1.NoTwins ↔ s.Untwinned e := by
  constructor
  · intro ht'
    cases e with
    | launch i =>
      intro a ha hadding hstop j b hb hji hcamera hlive _
      have hbuilt (k : Nat) : (s.step (.launch i)).1.built[k]? =
          if k = i then some { a with thread := .running, adding := .started } else s.built[k]? := by
        have ha' : s.built[i]? = some a := ha
        simp only [IngestManager.step, onActor, ha', hadding, decide_true, if_true]
        exact getElem?_setActor ha' _ k
      apply hji
      refine ht' j i b { a with thread := .running, adding := .started } ?_ ?_ hcamera hlive ?_
      · rw [hbuilt, if_neg hji]
        exact hb
      · rw [hbuilt, if_pos rfl]
      · simp [live_iff, hstop]
    | _ => trivial
  · intro hun
    -- an actor that runs untold is in hand, so the one that is started has no other beside it
    have hheld (k : Nat) (b : CameraActor) (hb : s.built[k]? = some b) (hlive : b.live = true) : s.Held k b := by
      obtain ⟨hrunning, hstop⟩ := live_iff.mp hlive
      exact h.held k b hb (by simp [hrunning]) hstop
    intro i j a b ha hb hcamera hlivea hliveb
    rcases LiveFrom.step h e i a ha hlivea with ⟨a₀, ha₀, hca, hla⟩ | ⟨a₀, he, ha₀, hca, hadding, hstop⟩
    · rcases LiveFrom.step h e j b hb hliveb with ⟨b₀, hb₀, hcb, hlb⟩ | ⟨b₀, he, hb₀, hcb, hadding, hstop⟩
      · exact ht i j a₀ b₀ ha₀ hb₀ (by rw [hca, hcb, hcamera]) hla hlb
      · by_contra hij
        rw [he] at hun
        exact hun b₀ hb₀ hadding hstop i a₀ ha₀ hij (by rw [hca, hcb, hcamera]) hla (hheld i a₀ ha₀ hla)
    · rcases LiveFrom.step h e j b hb hliveb with ⟨b₀, hb₀, hcb, hlb⟩ | ⟨b₀, he', -, -, -, -⟩
      · by_contra hij
        rw [he] at hun
        exact hun a₀ ha₀ hadding hstop j b₀ hb₀ (Ne.symm hij) (by rw [hca, hcb, hcamera]) hlb (hheld j b₀ hb₀ hlb)
      · exact IngestEvent.launch.inj (he.symm.trans he')

/-- At every point where no operation is under way, no actor is orphaned; and no camera
ever has two actors that run untold just when no actor is started beside another. -/
theorem actors_accounted (events : List IngestEvent) :
    (∀ seen, seen <+: events → (run seen).1.Quiet → (run seen).1.NoOrphan) ∧
    ((∀ seen, seen <+: events → (run seen).1.NoTwins) ↔ Machine.Along step Untwinned {} events) := by
  constructor
  · intro seen _ hquiet i a ha hthread
    have h : (run seen).1.Accounted :=
      Machine.exec_induction (f := step) (I := fun _ s => s.Accounted) accounted_empty (fun _ _ e hs => hs.step e) seen
    cases hstop : a.stop with
    | true => exact .inr rfl
    | false =>
      rcases h.held i a ha hthread hstop with hmap | hadding | ⟨todo, htodo, hi⟩
      · exact .inl hmap
      · rw [hquiet.1 a (List.mem_of_getElem? ha)] at hadding
        cases hadding
      · rw [hquiet.2 todo htodo] at hi
        cases hi
  · have hempty : ({} : IngestManager).NoTwins := fun i j a b ha => by simp at ha
    exact Machine.along_iff_of (I := Accounted) (P := NoTwins) (fun s e h => h.step e) (fun s e h ht => ht.step h e) events
      accounted_empty hempty

/-- A removal has taken the actor and not told it yet; or the actor is taken before
its `start`, which then clears the signal. -/
theorem twin_while_removed :
    ¬(run [.add "gate", .clear 0, .launch 0, .recheck 0, .remove "gate", .add "gate", .clear 1, .launch 1]).1.NoTwins ∧
    ¬(run [.add "gate", .remove "gate", .requestStop 0, .add "gate", .clear 1, .launch 1, .clear 0, .launch 0]).1.NoTwins := by
  have hlive : ({ camera := "gate", thread := .running, adding := .started } : CameraActor).live = true := rfl
  constructor
  · intro h
    have hsame := h 0 1 { camera := "gate", thread := .running, adding := .returned }
      { camera := "gate", thread := .running, adding := .started } (by decide) (by decide) rfl rfl hlive
    cases hsame
  · intro h
    have hsame := h 0 1 { camera := "gate", thread := .running, adding := .started }
      { camera := "gate", thread := .running, adding := .started } (by decide) (by decide) rfl hlive hlive
    cases hsame

end ShipInfer.Ingest.IngestManager
