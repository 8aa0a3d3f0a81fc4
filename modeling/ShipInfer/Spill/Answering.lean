import ShipInfer.Spill.Ingress

/-!
# When every slot is answered once

A slot taken is a reply, a deferred item or a future in flight until it is
released, and it is released with a reply published or counted as dropped. The
thread loses slots at its end: it frees the replies and the deferred items it
finds, and a future still in flight then settles into a queue nobody reads; and
a failure that cannot be written takes its own reply with it.
-/

namespace ShipInfer.Spill.RingIngress

variable {cfg : IngressConfig} {s s' : RingIngress} {os : List IngressOutput} {answer : ClaimAnswer} {responseFits : Bool}
  {now : Int}

/-- No slot is read or written through a detached ring, each failure to be
written fits, and the last sweep over the replies leaves nothing in flight. -/
def Keeps (cfg : IngressConfig) (s : RingIngress) : IngressEvent → Prop
  | .sweep (.taken .detached) _ => False
  | .drain answer responseFits _ =>
    ∀ r ∈ s.replies.head?, answer ≠ .detached ∧
      (answer = .slot → (r.error = none ∧ responseFits) ∨ encodeFailure (cfg.resultSlots.getD r.claim.lane 0) r.claim)
  | .close => s.phase = .closing → s.replies = [] → s.inFlight = []
  | _ => True

/-- What one step does to the slots. -/
structure Moves (s : RingIngress) (r : Step) : Prop where
  taken : r.1.tickets = s.tickets ∧ r.2.taken = [] ∨ r.1.tickets = s.tickets + 1 ∧ r.2.taken = [s.tickets]
  held : (s.held ++ r.2.taken).Perm (r.2.released ++ r.1.held)
  answered : r.2.released.Perm (r.2.published ++ r.2.dropped)
  dropped : r.1.dropped = s.dropped + r.2.dropped.length

theorem Moves.quiet (ht : s'.tickets = s.tickets) (hd : s'.dropped = s.dropped) (hh : s'.held.Perm s.held) :
    Moves s (s', {}) where
  taken := .inl ⟨ht, rfl⟩
  held := by simpa using hh.symm
  answered := .refl _
  dropped := hd

theorem Moves.refl (s : RingIngress) : Moves s (s, {}) := .quiet rfl rfl (.refl _)

theorem Moves.take (ht : s'.tickets = s.tickets + 1) (hd : s'.dropped = s.dropped)
    (hh : s'.held.Perm (s.held ++ [s.tickets])) : Moves s (s', { taken := [s.tickets] }) where
  taken := .inr ⟨ht, rfl⟩
  held := hh.symm
  answered := .refl _
  dropped := hd

theorem Moves.land {t : Nat} (ht : s'.tickets = s.tickets) (hd : s'.dropped = s.dropped)
    (hh : s.held.Perm (t :: s'.held)) : Moves s (s', { released := [t], published := [t] }) where
  taken := .inl ⟨ht, rfl⟩
  held := by simpa using hh
  answered := .refl _
  dropped := hd

theorem Moves.drop {t : Nat} (ht : s'.tickets = s.tickets) (hd : s'.dropped = s.dropped + 1)
    (hh : s.held.Perm (t :: s'.held)) : Moves s (s', { released := [t], dropped := [t] }) where
  taken := .inl ⟨ht, rfl⟩
  held := by simpa using hh
  answered := .refl _
  dropped := hd

/-- A slot comes into the ingress, and nothing else changes that the ledger sees. -/
structure Holds (s s' : RingIngress) (ticket : Nat) : Prop where
  tickets : s'.tickets = s.tickets
  dropped : s'.dropped = s.dropped
  phase : s'.phase = s.phase
  held : s'.held.Perm (s.held ++ [ticket])

variable (cfg) in
theorem holds_reply (s : RingIngress) (c : Claim) (error : Option String) (now : Int) :
    Holds s (s.reply cfg c error now) c.ticket := by
  refine ⟨rfl, rfl, rfl, List.perm_iff_count.mpr fun a => ?_⟩
  simp only [held, reply, List.map_append, List.map_cons, List.map_nil, List.count_append]
  omega

variable (cfg) in
theorem holds_failureReply (s : RingIngress) (c : Claim) (error : String) (now : Int) :
    Holds s (s.failureReply cfg c error now) c.ticket :=
  ⟨rfl, rfl, rfl, (holds_reply cfg s c (some error) now).held⟩

variable (cfg) in
theorem holds_dispatch (s : RingIngress) (c : Claim) (cap now : Int) (answer : DispatchAnswer) :
    Holds s (s.dispatch cfg c cap now answer) c.ticket := by
  cases answer with
  | accepted => exact ⟨rfl, rfl, rfl, by simp [dispatch, held]⟩
  | raised error => exact holds_failureReply cfg s c error now
  | refused =>
    simp only [dispatch]
    split
    · exact holds_failureReply cfg s c _ now
    · refine ⟨rfl, rfl, rfl, List.perm_iff_count.mpr fun a => ?_⟩
      simp only [held, List.map_append, List.map_cons, List.map_nil, List.count_append]
      omega

variable (cfg) in
theorem holds_serve (s : RingIngress) (lane : Nat) (now : Int) {served : Served} (h : served ≠ .detached) :
    Holds s (s.serve cfg lane now served) s.tickets := by
  cases served with
  | detached => exact absurd rfl h
  | undecodable requestId error => exact holds_failureReply cfg s _ _ now
  | notAdmitted requestId modelName error => exact holds_failureReply cfg s _ _ now
  | cached requestId modelName => exact holds_reply cfg s _ _ now
  | admitted requestId modelName answer => exact holds_dispatch cfg s _ _ now answer

theorem moves_settles (i : Nat) (error : Option String) (now : Int) :
    Moves s (s.step cfg (.settles i error now)) := by
  simp only [step]
  split
  · exact .refl s
  · rename_i c hc
    obtain ⟨hlt, rfl⟩ := List.getElem?_eq_some_iff.mp hc
    refine .quiet rfl rfl (List.perm_iff_count.mpr fun a => ?_)
    have herase := ((List.getElem_cons_eraseIdx_perm hlt).map Claim.ticket).count_eq a
    simp only [List.map_cons, List.count_cons] at herase
    simp only [held, reply, List.map_append, List.map_cons, List.map_nil, List.count_append, List.count_cons]
    simp only [List.count_nil]
    omega

/-- The oldest reply leaves the replies. -/
theorem held_tail {r : IngressReply} {rs : List IngressReply} (hs : s.replies = r :: rs) (hr : s'.replies = rs)
    (hd : s'.deferred = s.deferred) (hf : s'.inFlight = s.inFlight) : s.held.Perm (r.claim.ticket :: s'.held) := by
  simp only [held, hs, hr, hd, hf, List.map_cons, List.cons_append]
  exact .refl _

theorem moves_drain (h : Keeps cfg s (.drain answer responseFits now)) :
    Moves s (s.step cfg (.drain answer responseFits now)) := by
  simp only [step]
  split
  · exact .quiet rfl rfl (.refl _)
  · split
    · exact .quiet rfl rfl (.refl _)
    · rename_i left _ r rs hrs
      obtain ⟨hattached, hfits⟩ := h r (by simp [hrs])
      have hpop (s' : RingIngress) (hr : s'.replies = rs) (hd : s'.deferred = s.deferred) (hf : s'.inFlight = s.inFlight) :
          s.held.Perm (r.claim.ticket :: s'.held) := held_tail hrs hr hd hf
      unfold drainReply
      cases answer with
      | closed => exact .drop rfl rfl (hpop _ (by simp [hrs]) rfl rfl)
      | detached => exact absurd rfl hattached
      | full =>
        dsimp only
        split
        · exact .drop rfl rfl (hpop _ (by simp [hrs]) rfl rfl)
        · refine .quiet rfl rfl (List.perm_iff_count.mpr fun a => ?_)
          simp only [held, hrs, List.tail_cons, List.map_append, List.map_cons, List.map_nil, List.count_append,
            List.count_cons, List.count_nil]
          omega
      | slot =>
        dsimp only
        split
        · exact .land rfl rfl (hpop _ (by simp [hrs]) rfl rfl)
        · rename_i hnone
          rw [if_pos ((hfits rfl).resolve_left hnone)]
          exact .land rfl rfl (hpop _ (by simp [hrs]) rfl rfl)
  · exact .refl s

theorem moves_retry (answer : DispatchAnswer) (now : Int) : Moves s (s.step cfg (.retry answer now)) := by
  simp only [step]
  split
  · exact .quiet rfl rfl (.refl _)
  · rename_i left started _
    split
    · exact .quiet rfl rfl (.refl _)
    · rename_i d ds hds
      have hpop (phase : IngressPhase) (a : Nat) : List.count a s.held =
          List.count a ({ s with deferred := s.deferred.tail, phase := phase } : RingIngress).held +
            List.count a [d.claim.ticket] := by
        simp only [held, hds, List.tail_cons, List.map_cons, List.count_append, List.count_cons, List.count_nil]
        omega
      unfold retryDeferred
      split
      · refine .quiet rfl rfl (List.perm_iff_count.mpr fun a => ?_)
        simp only [held, hds, List.tail_cons, List.map_append, List.map_cons, List.map_nil, List.count_append,
          List.count_cons, List.count_nil]
        omega
      · have hd := holds_dispatch cfg { s with deferred := s.deferred.tail, phase := .retrying left started } d.claim d.cap now
          answer
        refine .quiet hd.tickets hd.dropped (List.perm_iff_count.mpr fun a => ?_)
        rw [hd.held.count_eq a, List.count_append]
        exact (hpop _ a).symm
  · exact .refl s

theorem moves_sweep {answer : SweepAnswer} (h : Keeps cfg s (.sweep answer now)) : Moves s (s.step cfg (.sweep answer now)) := by
  simp only [step]
  split
  · exact .quiet rfl rfl (.refl _)
  · rename_i lane rest blocked opened _
    unfold sweepLane
    cases answer with
    | closed => exact .quiet rfl rfl (.refl _)
    | idle => exact .quiet rfl rfl (.refl _)
    | taken served =>
      dsimp only
      split
      · exact .quiet rfl rfl (.refl _)
      · have hattached : served ≠ .detached := by
          rintro rfl
          exact h
        have hs := holds_serve cfg { s with phase := .sweeping rest blocked (opened + 1) } lane now hattached
        exact .take rfl hs.dropped hs.held
  · exact .refl s

theorem moves_close : Moves s s.close := by
  unfold close
  split
  · split
    · exact .quiet rfl rfl (.refl _)
    · rename_i r rs hrs
      exact .drop rfl rfl (held_tail hrs (by simp [hrs]) rfl rfl)
  · split
    · exact .quiet rfl rfl (.refl _)
    · rename_i d ds hds
      refine .drop rfl rfl (List.perm_iff_count.mpr fun a => ?_)
      simp only [held, hds, List.map_cons, List.count_append, List.count_cons]
      omega
  · exact .refl s

theorem moves_step {e : IngressEvent} (h : Keeps cfg s e) : Moves s (s.step cfg e) := by
  cases e with
  | stop => exact .quiet rfl rfl (.refl _)
  | settles i error now => exact moves_settles i error now
  | drain answer responseFits now => exact moves_drain h
  | retry answer now => exact moves_retry answer now
  | sweep answer now => exact moves_sweep h
  | close => exact moves_close
  | enter | stampRaises =>
    simp only [step]
    split <;> first | exact .refl s | exact .quiet rfl rfl (.refl _)

/-! ## The end of the thread -/

/-- Behind the sweep over the replies there is nothing to answer, and behind the last nothing deferred. -/
structure Swept (s : RingIngress) : Prop where
  answered : s.phase = .closingDeferred ∨ s.phase = .exited → s.replies = [] ∧ s.inFlight = []
  deferred : s.phase = .exited → s.deferred = []

theorem Swept.of_open (hc : s.phase ≠ .closingDeferred) (he : s.phase ≠ .exited) : s.Swept :=
  ⟨fun h => (h.elim hc he).elim, fun h => absurd h he⟩

theorem Swept.settles (h : s.Swept) (i : Nat) (error : Option String) (now : Int) :
    (s.step cfg (.settles i error now)).1.Swept := by
  simp only [step]
  split
  · exact h
  · rename_i c hc
    have hopen : ¬(s.phase = .closingDeferred ∨ s.phase = .exited) := by
      intro hp
      simp [(h.answered hp).2] at hc
    exact .of_open (fun hp => hopen (.inl hp)) fun hp => hopen (.inr hp)

theorem Swept.close (h : s.Swept) (hk : Keeps cfg s .close) : s.close.1.Swept := by
  unfold RingIngress.close
  split
  · rename_i hp
    split
    · rename_i hrs
      exact ⟨fun _ => ⟨hrs, hk hp hrs⟩, fun hx => by cases hx⟩
    · exact .of_open (by simp [drop, hp]) (by simp [drop, hp])
  · rename_i hp
    have hempty := h.answered (.inl hp)
    split
    · rename_i hds
      exact ⟨fun _ => hempty, fun _ => hds⟩
    · exact ⟨fun _ => hempty, fun hx => by simp [hp] at hx⟩
  · exact h

theorem swept_drain (h : s.Swept) : (s.step cfg (.drain answer responseFits now)).1.Swept := by
  simp only [step]
  split
  · exact .of_open (by simp) (by simp)
  · split
    · exact .of_open (by simp) (by simp)
    · unfold drainReply
      split
      · exact .of_open (by simp [drop]) (by simp [drop])
      · split
        · exact .of_open (by simp [drop]) (by simp [drop])
        · exact .of_open (by simp) (by simp)
      · exact .of_open (by simp [lose]) (by simp [lose])
      · split
        · exact .of_open (by simp [land]) (by simp [land])
        · split
          · exact .of_open (by simp [land]) (by simp [land])
          · exact .of_open (by simp [lose]) (by simp [lose])
  · exact h

theorem swept_retry (h : s.Swept) (answer : DispatchAnswer) : (s.step cfg (.retry answer now)).1.Swept := by
  simp only [step]
  split
  · exact .of_open (by simp) (by simp)
  · split
    · exact .of_open (by simp) (by simp)
    · unfold retryDeferred
      split
      · exact .of_open (by simp) (by simp)
      · apply Swept.of_open
        · rw [(holds_dispatch cfg _ _ _ _ _).phase]
          simp
        · rw [(holds_dispatch cfg _ _ _ _ _).phase]
          simp
  · exact h

theorem swept_sweep (h : s.Swept) (answer : SweepAnswer) : (s.step cfg (.sweep answer now)).1.Swept := by
  simp only [step]
  split
  · split <;> exact .of_open (by simp) (by simp)
  · rename_i lane rest blocked opened _
    unfold sweepLane
    split
    · exact .of_open (by simp) (by simp)
    · exact .of_open (by simp) (by simp)
    · rename_i served
      split
      · exact .of_open (by simp) (by simp)
      · by_cases hd : served = .detached
        · rw [hd]
          exact .of_open (by simp [serve]) (by simp [serve])
        · have hp := (holds_serve cfg { s with phase := .sweeping rest blocked (opened + 1) } lane now hd).phase
          exact .of_open (by simp [hp]) (by simp [hp])
  · exact h

theorem Swept.step (h : s.Swept) {e : IngressEvent} (hk : Keeps cfg s e) : (s.step cfg e).1.Swept := by
  cases e with
  | stop => exact ⟨h.answered, h.deferred⟩
  | settles i error now => exact h.settles i error now
  | drain answer responseFits now => exact swept_drain h
  | retry answer now => exact swept_retry h answer
  | sweep answer now => exact swept_sweep h answer
  | close => exact h.close hk
  | enter =>
    simp only [RingIngress.step]
    split
    · split <;> exact .of_open (by simp) (by simp)
    · exact h
  | stampRaises =>
    simp only [RingIngress.step]
    split <;> first | exact h | exact .of_open (by simp) (by simp)

/-! ## Runs -/

structure Inv (os : List IngressOutput) (s : RingIngress) : Prop where
  taken : os.flatMap IngressOutput.taken = List.range s.tickets
  held : (os.flatMap IngressOutput.taken).Perm (os.flatMap IngressOutput.released ++ s.held)
  answered : (os.flatMap IngressOutput.released).Perm
    (os.flatMap IngressOutput.published ++ os.flatMap IngressOutput.dropped)
  dropped : s.dropped = (os.flatMap IngressOutput.dropped).length
  swept : s.Swept

theorem inv_empty : Inv [] {} := ⟨rfl, .refl _, .refl _, rfl, .of_open (by simp) (by simp)⟩

theorem Inv.step (h : Inv os s) {e : IngressEvent} (hk : Keeps cfg s e) :
    Inv (os ++ [(s.step cfg e).2]) (s.step cfg e).1 := by
  have hm : Moves s (s.step cfg e) := moves_step hk
  refine ⟨?_, List.perm_iff_count.mpr fun a => ?_, List.perm_iff_count.mpr fun a => ?_, ?_, h.swept.step hk⟩
  · rcases hm.taken with ⟨ht, ho⟩ | ⟨ht, ho⟩
    · simp [h.taken, ht, ho]
    · simp [h.taken, ht, ho, List.range_succ]
  · have hheld := h.held.count_eq a
    have hstep := hm.held.count_eq a
    simp only [List.flatMap_append, List.flatMap_cons, List.flatMap_nil, List.append_nil, List.count_append] at *
    omega
  · have hanswered := h.answered.count_eq a
    have hstep := hm.answered.count_eq a
    simp only [List.flatMap_append, List.flatMap_cons, List.flatMap_nil, List.append_nil, List.count_append] at *
    omega
  · simp [hm.dropped, h.dropped]

theorem Inv.exited (h : Inv os s) (he : s.phase = .exited) : s.held = [] := by
  obtain ⟨hr, hf⟩ := h.swept.answered (.inr he)
  simp [RingIngress.held, hr, hf, h.swept.deferred he]

/-- In a run whose steps all keep what they hold, each slot taken is held or released,
and released once, each with a reply published or one counted as dropped; when the
thread is over, none is held. -/
theorem slots_answered_once (cfg : IngressConfig) (events : List IngressEvent)
    (h : Machine.Along (step cfg) (Keeps cfg) {} events) :
    let r := run cfg events
    let taken := r.2.flatMap IngressOutput.taken
    let released := r.2.flatMap IngressOutput.released
    let published := r.2.flatMap IngressOutput.published
    let dropped := r.2.flatMap IngressOutput.dropped
    taken.Nodup ∧ taken.Perm (released ++ r.1.held) ∧ released.Perm (published ++ dropped) ∧
      r.1.dropped = dropped.length ∧
      (r.1.phase = .exited → taken.Perm released ∧ taken.Perm (published ++ dropped)) := by
  intro r taken released published dropped
  have hinv : Inv r.2 r.1 := h.induction (fun _ _ _ hI hk => hI.step hk) events inv_empty
  have hfresh : taken = List.range r.1.tickets := hinv.taken
  refine ⟨hfresh ▸ List.nodup_range, hinv.held, hinv.answered, hinv.dropped, fun he => ?_⟩
  have hall : taken.Perm released := by simpa [hinv.exited he] using hinv.held
  exact ⟨hall, hall.trans hinv.answered⟩

instance : ∀ e : IngressEvent, Decidable (Keeps cfg s e)
  | .sweep (.taken .detached) _ => inferInstanceAs (Decidable False)
  | .sweep .closed _ | .sweep .idle _ => .isTrue trivial
  | .sweep (.taken (.undecodable _ _)) _ | .sweep (.taken (.notAdmitted _ _ _)) _ => .isTrue trivial
  | .sweep (.taken (.cached _ _)) _ | .sweep (.taken (.admitted _ _ _)) _ => .isTrue trivial
  | .drain answer responseFits _ =>
    inferInstanceAs (Decidable (∀ r ∈ s.replies.head?, answer ≠ .detached ∧
      (answer = .slot → (r.error = none ∧ responseFits) ∨ encodeFailure (cfg.resultSlots.getD r.claim.lane 0) r.claim)))
  | .close => inferInstanceAs (Decidable (s.phase = .closing → s.replies = [] → s.inFlight = []))
  | .stop | .settles _ _ _ | .enter | .retry _ _ | .stampRaises => .isTrue trivial

def oneLane : IngressConfig := { resultSlots := [4096] }

/-- One sweep that takes a request, and finds it as `served` says. -/
def firstSweep (served : Served) : List IngressEvent :=
  [.enter, .drain .slot true 0, .retry .accepted 0, .sweep (.taken served) 0, .sweep .idle 0]

/-- One request is answered with its response, one is refused and given up at the stop. -/
def servedAndRefused : List IngressEvent :=
  firstSweep (.admitted 7 "detector" .accepted) ++
    ([.settles 0 none 1, .enter, .drain .slot true 1, .drain .slot true 1, .retry .accepted 1,
      .sweep (.taken (.notAdmitted 8 "detector" "ValidationError")) 2, .sweep .idle 2, .stop, .enter, .close, .close,
      .close] : List IngressEvent)

theorem servedAndRefused_answered :
    (run oneLane servedAndRefused).1.phase = .exited ∧
    (run oneLane servedAndRefused).2.flatMap IngressOutput.taken = [0, 1] ∧
    (run oneLane servedAndRefused).2.flatMap IngressOutput.published = [0] ∧
    ((run oneLane servedAndRefused).2.flatMap IngressOutput.taken).Perm
      ((run oneLane servedAndRefused).2.flatMap IngressOutput.released) :=
  ⟨by decide, by decide, by decide, ((slots_answered_once oneLane servedAndRefused (by decide)).2.2.2.2 (by decide)).1⟩

/-- The thread stops while a model runs, and the future settles behind it. -/
def settledTooLate : List IngressEvent :=
  firstSweep (.admitted 7 "detector" .accepted) ++ ([.stop, .enter, .close, .close, .settles 0 none 1] : List IngressEvent)

/-- A request whose model name has no room in a head is refused, and its failure is written. -/
def unwritable : List IngressEvent :=
  firstSweep (.notAdmitted 7 (String.ofList (List.replicate 64 'x')) "ValidationError") ++
    ([.enter, .drain .slot true 1, .close, .close] : List IngressEvent)

/-- Both slots are taken and neither released nor answered, and the thread is over. -/
theorem slots_lost :
    ((run oneLane settledTooLate).1.phase = .exited ∧ (run oneLane unwritable).1.phase = .exited) ∧
    ((run oneLane settledTooLate).2.flatMap IngressOutput.taken = [0] ∧
      (run oneLane unwritable).2.flatMap IngressOutput.taken = [0]) ∧
    ((run oneLane settledTooLate).2.flatMap IngressOutput.released = [] ∧
      (run oneLane unwritable).2.flatMap IngressOutput.released = []) ∧
    (run oneLane settledTooLate).1.dropped = 0 ∧ (run oneLane unwritable).1.dropped = 0 := by
  decide

end ShipInfer.Spill.RingIngress
