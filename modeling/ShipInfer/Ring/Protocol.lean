import ShipInfer.Ring.Model

/-!
# The life of a slot

Every step leaves a slot as it was or moves it along the protocol, and the
events of one slot follow one another as they should (`Follows`): the claimant
itself publishes or abandons, a publication is taken next and once, with its
bytes, and released with them. What carries this through the two processes is
that each state has one side that may leave it: the claimant a claimed slot, the
owner a written or a taken one, and a free one whoever has the view lock.
-/

namespace ShipInfer.Ring

variable {β : Type}

/-! ## The protocol of one slot -/

def SlotEvent.before : SlotEvent β → SlotState
  | .claimed _ => .free
  | .published _ _ => .claimed
  | .abandoned _ => .claimed
  | .took _ => .written
  | .released _ => .taken

def SlotEvent.after : SlotEvent β → SlotState
  | .claimed _ => .claimed
  | .published _ _ => .written
  | .abandoned _ => .free
  | .took _ => .taken
  | .released _ => .free

def stateAfter (last : Option (SlotEvent β)) : SlotState := last.elim .free SlotEvent.after

/-- What may come after the last event of a slot: the thread that claimed ends
the claim, and a publication is taken and released with its own bytes. -/
inductive Follows : Option (SlotEvent β) → SlotEvent β → Prop
  | first (t : Nat) : Follows none (.claimed t)
  | afterRelease (b : β) (t : Nat) : Follows (some (.released b)) (.claimed t)
  | afterAbandon (u t : Nat) : Follows (some (.abandoned u)) (.claimed t)
  | published (t : Nat) (b : β) : Follows (some (.claimed t)) (.published t b)
  | abandoned (t : Nat) : Follows (some (.claimed t)) (.abandoned t)
  | took (t : Nat) (b : β) : Follows (some (.published t b)) (.took b)
  | released (b : β) : Follows (some (.took b)) (.released b)

def Obeys : Option (SlotEvent β) → List (SlotEvent β) → Prop
  | _, [] => True
  | last, event :: events => Follows last event ∧ Obeys (some event) events

theorem Follows.before_eq {last : Option (SlotEvent β)} {event : SlotEvent β} (h : Follows last event) :
    event.before = stateAfter last := by
  cases h <;> rfl

/-! ## The invariant -/

/-- Between the read and the write of a swap. -/
def SubmitCall.swapping : SubmitCall → Bool
  | .claimSwap _ => true
  | .endSwap _ _ => true
  | _ => false

def OwnerCall.index? : OwnerCall → Option Nat
  | .releasing i => some i
  | .releaseSwap i => some i
  | _ => none

namespace SharedRing

/-- Taken by the owner and not free again. -/
def owned (r : SharedRing β) : List Nat := r.ownerCall.index?.toList ++ r.held

structure Inv (r : SharedRing β) : Prop where
  held : ∀ t i, (r.call t).index? = some i → r.state i = .claimed
  exclusive : ∀ t u i, (r.call t).index? = some i → (r.call u).index? = some i → t = u
  claiming : ∀ t i, r.call t = .claimSwap i → r.state i = .free
  locked : ∀ t, (r.call t).swapping = true → r.viewLock = some t
  detached : r.detached = true → r.viewLock = none
  taking : ∀ i, r.ownerCall = .takeSwap i → r.state i = .written
  owned : ∀ i ∈ r.owned, r.state i = .taken
  nodup : r.owned.Nodup
  ownerDetached : r.ownerDetached = true → r.ownerSwapping = false

/-- The slot is where its last event left it: claimed slots with their claimant,
published and taken ones with their bytes. -/
structure Matches (r : SharedRing β) (i : Nat) (last : Option (SlotEvent β)) : Prop where
  state : r.state i = stateAfter last
  claimant : ∀ t, last = some (.claimed t) → ∀ u, (r.call u).index? = some i → u = t
  bytes : ∀ b, (∃ t, last = some (.published t b)) ∨ last = some (.took b) → r.bytes i = b

/-- A slot without an event matches as before, one with an event matches that. -/
def Legal (r : SharedRing β) (i : Nat) (last : Option (SlotEvent β)) : Option (SlotEvent β) → Prop
  | none => r.Matches i last
  | some event => Follows last event ∧ r.Matches i (some event)

structure Good (r : SharedRing β) (a : Step β) : Prop where
  inv : a.1.Inv
  legal : ∀ i last, r.Matches i last → a.1.Legal i last (a.2.at i)
  raises : ∀ i state, a.2 ≠ .raised (.protocol i state)

variable {r : SharedRing β}

/-- A step after which the memory is the same and nobody holds more. -/
theorem Good.quiet {a : Step β} (hinv : a.1.Inv) (hstate : a.1.state = r.state) (hbytes : a.1.bytes = r.bytes)
    (hcall : ∀ u i, (a.1.call u).index? = some i → (r.call u).index? = some i)
    (hat : ∀ i, a.2.at i = none) (hraise : ∀ i state, a.2 ≠ .raised (.protocol i state)) : Good r a := by
  refine ⟨hinv, fun i last hm => ?_, hraise⟩
  rw [hat]
  exact ⟨by rw [hstate]; exact hm.state, fun t ht u hu => hm.claimant t ht u (hcall u i hu), by
    rw [hbytes]; exact hm.bytes⟩

theorem Good.same (h : r.Inv) {o : Output β} (hat : ∀ i, o.at i = none)
    (hraise : ∀ i state, o ≠ .raised (.protocol i state)) : Good r (r, o) :=
  .quiet h rfl rfl (fun _ _ hu => hu) hat hraise

theorem Good.still (h : r.Inv) : Good r (r, .quiet) := .same h (fun _ => rfl) fun _ _ he => by cases he

/-! ## The submitting handle -/

theorem goto_self (t : Nat) (c : SubmitCall) : (r.goto t c).call t = c := by
  simp only [SharedRing.goto, Function.update_self]

theorem goto_ne {t u : Nat} (h : u ≠ t) (c : SubmitCall) : (r.goto t c).call u = r.call u := by
  simp only [SharedRing.goto, Function.update_of_ne h]

/-- A thread that goes on holds what it held, or less. -/
theorem goto_index {t : Nat} {c : SubmitCall} (hi : ∀ i, c.index? = some i → (r.call t).index? = some i) (u i : Nat)
    (hu : ((r.goto t c).call u).index? = some i) : (r.call u).index? = some i := by
  by_cases hut : u = t
  · subst hut
    rw [goto_self] at hu
    exact hi i hu
  · rwa [goto_ne hut] at hu

theorem Inv.goto (h : r.Inv) {t : Nat} {c : SubmitCall} (hi : ∀ i, c.index? = some i → (r.call t).index? = some i)
    (hs : c.swapping = false) (submitLock : Option Nat) (next : Nat) :
    ({ r.goto t c with submitLock := submitLock, next := next } : SharedRing β).Inv := by
  refine ⟨fun u i hu => h.held u i (goto_index hi u i hu), fun u v i hu hv => ?_, fun u i hu => ?_, fun u hu => ?_,
    h.detached, h.taking, h.owned, h.nodup, h.ownerDetached⟩
  · exact h.exclusive u v i (goto_index hi u i hu) (goto_index hi v i hv)
  · by_cases hut : u = t
    · subst hut
      have hc : c = .claimSwap i := (goto_self u c).symm.trans hu
      rw [hc] at hs
      cases hs
    · exact h.claiming u i ((goto_ne hut c).symm.trans hu)
  · by_cases hut : u = t
    · subst hut
      have hc : c.swapping = true := (congrArg _ (goto_self u c)).symm.trans hu
      rw [hc] at hs
      cases hs
    · exact h.locked u ((congrArg _ (goto_ne hut c)).symm.trans hu)

/-- A thread takes the view lock for a swap. -/
theorem Inv.acquire (h : r.Inv) {t : Nat} {c : SubmitCall} (hi : ∀ i, c.index? = some i → (r.call t).index? = some i)
    (hfree : r.viewLock = none) (hdet : r.detached = false) (hclaim : ∀ i, c = .claimSwap i → r.state i = .free)
    (next : Nat) : ({ r.goto t c with viewLock := some t, next := next } : SharedRing β).Inv := by
  refine ⟨fun u i hu => h.held u i (goto_index hi u i hu), fun u v i hu hv => ?_, fun u i hu => ?_, fun u hu => ?_,
    fun hd => ?_, h.taking, h.owned, h.nodup, h.ownerDetached⟩
  · exact h.exclusive u v i (goto_index hi u i hu) (goto_index hi v i hv)
  · by_cases hut : u = t
    · subst hut
      exact hclaim i ((goto_self u c).symm.trans hu)
    · exact h.claiming u i ((goto_ne hut c).symm.trans hu)
  · by_cases hut : u = t
    · rw [hut]
    · have hl := h.locked u ((congrArg _ (goto_ne hut c)).symm.trans hu)
      rw [hfree] at hl
      cases hl
  · have hd : r.detached = true := hd
    rw [hdet] at hd
    cases hd

/-- The write of a swap, by the only thread in one, on a slot that is nobody
else's. -/
theorem Inv.swap (h : r.Inv) {t i : Nat} {c : SubmitCall} {x : SlotState} (hswap : (r.call t).swapping = true)
    (hc : c.swapping = false) (hi : ∀ j, c.index? = some j → j = i ∧ x = .claimed)
    (hothers : ∀ u, (r.call u).index? = some i → u = t)
    (hstate : r.state i = .free ∨ r.state i = .claimed) :
    ({ r.goto t c with
        state := Function.update r.state i x
        viewLock := none
        submitLock := none } : SharedRing β).Inv := by
  have hother : ∀ u, u ≠ t → (r.call u).swapping = true → False := fun u hut hu => by
    have := (h.locked u hu).symm.trans (h.locked t hswap)
    exact hut (Option.some.inj this)
  have hne : ∀ j, r.state j ≠ .free → r.state j ≠ .claimed → j ≠ i := fun j hf hcl hji => by
    subst hji
    exact hstate.elim hf hcl
  refine ⟨fun u j hu => ?_, fun u v j hu hv => ?_, fun u j hu => ?_, fun u hu => ?_, fun _ => rfl, fun j hj => ?_,
    fun j hj => ?_, h.nodup, h.ownerDetached⟩
  · by_cases hut : u = t
    · subst hut
      obtain ⟨rfl, rfl⟩ := hi j ((congrArg _ (goto_self u c)).symm.trans hu)
      exact Function.update_self _ _ _
    · have hu : (r.call u).index? = some j := (congrArg _ (goto_ne hut c)).symm.trans hu
      have hji : j ≠ i := fun hji => hut (hothers u (hji ▸ hu))
      exact (Function.update_of_ne hji _ _).trans (h.held u j hu)
  · have hsame : ∀ u, u ≠ t → ((r.goto t c).call u).index? = some j → (r.call u).index? = some j ∧ j ≠ i := by
      intro u hut hu
      rw [goto_ne hut] at hu
      exact ⟨hu, fun hji => hut (hothers u (hji ▸ hu))⟩
    have hself : ((r.goto t c).call t).index? = some j → j = i := fun hu => by
      rw [goto_self] at hu
      exact (hi j hu).1
    by_cases hut : u = t <;> by_cases hvt : v = t
    · rw [hut, hvt]
    · exact absurd (hself (hut ▸ hu)) (hsame v hvt hv).2
    · exact absurd (hself (hvt ▸ hv)) (hsame u hut hu).2
    · exact h.exclusive u v j (hsame u hut hu).1 (hsame v hvt hv).1
  · by_cases hut : u = t
    · subst hut
      have hcs : c = .claimSwap j := (goto_self u c).symm.trans hu
      rw [hcs] at hc
      cases hc
    · exact absurd (hother u hut (by rw [show r.call u = .claimSwap j from (goto_ne hut c).symm.trans hu]; rfl)) id
  · by_cases hut : u = t
    · subst hut
      have hcs : c.swapping = true := (congrArg _ (goto_self u c)).symm.trans hu
      rw [hcs] at hc
      cases hc
    · exact absurd (hother u hut ((congrArg _ (goto_ne hut c)).symm.trans hu)) id
  · have hw := h.taking j hj
    have hji := hne j (by rw [hw]; exact SlotState.noConfusion) (by rw [hw]; exact SlotState.noConfusion)
    exact (Function.update_of_ne hji _ _).trans hw
  · have hw := h.owned j hj
    have hji := hne j (by rw [hw]; exact SlotState.noConfusion) (by rw [hw]; exact SlotState.noConfusion)
    exact (Function.update_of_ne hji _ _).trans hw

theorem Matches.of_same {r' : SharedRing β} {j : Nat} {last : Option (SlotEvent β)} (hm : r.Matches j last)
    (hs : r'.state j = r.state j) (hb : r'.bytes j = r.bytes j)
    (hc : ∀ u, (r'.call u).index? = some j → (r.call u).index? = some j) : r'.Matches j last :=
  ⟨hs.trans hm.state, fun t ht u hu => hm.claimant t ht u (hc u hu), fun b hl => hb.trans (hm.bytes b hl)⟩

/-- A step that writes one state byte, with its event. -/
theorem Good.slot {r' : SharedRing β} {i : Nat} {event : SlotEvent β} (hinv : r'.Inv)
    (hstate : ∀ j, j ≠ i → r'.state j = r.state j) (hbytes : r'.bytes = r.bytes)
    (hcall : ∀ j, j ≠ i → ∀ u, (r'.call u).index? = some j → (r.call u).index? = some j)
    (hevent : ∀ last, r.Matches i last → Follows last event ∧ r'.Matches i (some event)) :
    Good r (r', .slot i event) := by
  refine ⟨hinv, fun j last hm => ?_, fun _ _ he => by cases he⟩
  by_cases hj : i = j
  · subst hj
    rw [Output.at, if_pos rfl]
    exact hevent last hm
  · rw [Output.at, if_neg hj]
    exact hm.of_same (hstate j (Ne.symm hj)) (congrFun hbytes j) (hcall j (Ne.symm hj))

theorem follows_claimed {last : Option (SlotEvent β)} (h : stateAfter last = .free) (t : Nat) :
    Follows last (.claimed t) := by
  cases last with
  | none => exact .first t
  | some event =>
    cases event with
    | released b => exact .afterRelease b t
    | abandoned u => exact .afterAbandon u t
    | _ => cases h

theorem last_claimed {last : Option (SlotEvent β)} (h : stateAfter last = .claimed) : ∃ t, last = some (.claimed t) := by
  cases last with
  | none => cases h
  | some event =>
    cases event with
    | claimed t => exact ⟨t, rfl⟩
    | _ => cases h

theorem last_published {last : Option (SlotEvent β)} (h : stateAfter last = .written) :
    ∃ t b, last = some (.published t b) := by
  cases last with
  | none => cases h
  | some event =>
    cases event with
    | published t b => exact ⟨t, b, rfl⟩
    | _ => cases h

theorem last_took {last : Option (SlotEvent β)} (h : stateAfter last = .taken) : ∃ b, last = some (.took b) := by
  cases last with
  | none => cases h
  | some event =>
    cases event with
    | took b => exact ⟨b, rfl⟩
    | _ => cases h

/-! ## One lemma for each swap -/

theorem Inv.claimSwap (h : r.Inv) {t i : Nat} (hc : r.call t = .claimSwap i) :
    Good r ({ r.goto t (.holding i) with
      state := Function.update r.state i .claimed
      viewLock := none
      submitLock := none }, .slot i (.claimed t)) := by
  have hfree := h.claiming t i hc
  have hnobody : ∀ u, (r.call u).index? ≠ some i := fun u hu => by
    have := h.held u i hu
    rw [hfree] at this
    cases this
  refine .slot (h.swap (by rw [hc]; rfl) rfl (fun j hj => ⟨(Option.some.inj hj).symm, rfl⟩)
    (fun u hu => absurd hu (hnobody u)) (.inl hfree)) (fun j hj => Function.update_of_ne hj _ _) rfl ?_ ?_
  · intro j hj u hu
    by_cases hut : u = t
    · subst hut
      have := (congrArg _ (goto_self u (.holding i))).symm.trans hu
      exact absurd (Option.some.inj this).symm hj
    · exact (congrArg _ (goto_ne hut (.holding i))).symm.trans hu
  · intro last hm
    refine ⟨follows_claimed (hm.state.symm.trans hfree) t, Function.update_self _ _ _, fun t' ht' u hu => ?_, ?_⟩
    · cases ht'
      by_contra hut
      exact hnobody u ((congrArg _ (goto_ne hut (.holding i))).symm.trans hu)
    · rintro b (⟨t', hl⟩ | hl) <;> cases hl

theorem Inv.endSwap (h : r.Inv) {t i : Nat} {how : Ending} (hc : r.call t = .endSwap i how) :
    Good r ({ r.goto t .idle with
      state := Function.update r.state i how.to
      viewLock := none
      submitLock := none }, .slot i (how.event t (r.bytes i))) := by
  have hidx : (r.call t).index? = some i := by rw [hc]; rfl
  have hclaimed := h.held t i hidx
  have hless : ∀ u j, ((r.goto t .idle).call u).index? = some j → (r.call u).index? = some j :=
    goto_index fun j hj => by cases hj
  refine .slot (h.swap (by rw [hc]; rfl) rfl (fun j hj => by cases hj) (fun u hu => h.exclusive u t i hu hidx)
    (.inr hclaimed)) (fun j hj => Function.update_of_ne hj _ _) rfl (fun j _ u hu => hless u j hu) fun last hm => ?_
  obtain ⟨t', rfl⟩ := last_claimed (hm.state.symm.trans hclaimed)
  obtain rfl := hm.claimant t' rfl t hidx
  cases how with
  | publish =>
    refine ⟨.published t _, Function.update_self _ _ _, fun t' ht' => (by cases ht'), ?_⟩
    rintro b (⟨t', hl⟩ | hl) <;> cases hl
    rfl
  | abandon =>
    refine ⟨.abandoned t, Function.update_self _ _ _, fun t' ht' => (by cases ht'), ?_⟩
    rintro b (⟨t', hl⟩ | hl) <;> cases hl

/-- The owner's write: no submitter has the slot, and no other slot changes. -/
theorem Inv.ownerSwap (h : r.Inv) {i : Nat} {x : SlotState} (hstate : r.state i = .written ∨ r.state i = .taken)
    {takeNext : Nat} {held : List Nat} (howned : ∀ j ∈ held, (j = i ∧ x = .taken) ∨ (j ≠ i ∧ j ∈ r.owned))
    (hnodup : held.Nodup) :
    ({ r with
        state := Function.update r.state i x
        takeNext := takeNext
        held := held
        ownerCall := .idle } : SharedRing β).Inv := by
  have hne : ∀ j, r.state j ≠ .written → r.state j ≠ .taken → j ≠ i := fun j hw ht hji => by
    subst hji
    exact hstate.elim hw ht
  refine ⟨fun u j hu => ?_, h.exclusive, fun u j hu => ?_, h.locked, h.detached, fun j hj => (by cases hj), fun j hj => ?_,
    hnodup, fun _ => rfl⟩
  · have hw := h.held u j hu
    have hji := hne j (by rw [hw]; exact SlotState.noConfusion) (by rw [hw]; exact SlotState.noConfusion)
    exact (Function.update_of_ne hji _ _).trans hw
  · have hw := h.claiming u j hu
    have hji := hne j (by rw [hw]; exact SlotState.noConfusion) (by rw [hw]; exact SlotState.noConfusion)
    exact (Function.update_of_ne hji _ _).trans hw
  · rcases howned j hj with ⟨rfl, rfl⟩ | ⟨hji, hm⟩
    · exact Function.update_self _ _ _
    · exact (Function.update_of_ne hji _ _).trans (h.owned j hm)

theorem Inv.takeSwap (h : r.Inv) {i : Nat} (hc : r.ownerCall = .takeSwap i) (takeNext : Nat) :
    Good r ({ r with
      state := Function.update r.state i .taken
      takeNext := takeNext
      held := i :: r.held
      ownerCall := .idle }, .slot i (.took (r.bytes i))) := by
  have hwritten := h.taking i hc
  have howned : r.owned = r.held := by rw [SharedRing.owned, hc]; rfl
  have hnot : i ∉ r.held := fun hm => by
    have := h.owned i (howned ▸ hm)
    rw [hwritten] at this
    cases this
  refine .slot (h.ownerSwap (.inl hwritten) (fun j hj => ?_) (List.nodup_cons.mpr ⟨hnot, howned ▸ h.nodup⟩))
    (fun j hj => Function.update_of_ne hj _ _) rfl (fun _ _ _ hu => hu) fun last hm => ?_
  · rcases List.mem_cons.mp hj with rfl | hj
    · exact .inl ⟨rfl, rfl⟩
    · exact .inr ⟨fun hji => hnot (hji ▸ hj), howned ▸ hj⟩
  · obtain ⟨t, b, rfl⟩ := last_published (hm.state.symm.trans hwritten)
    have hb : r.bytes i = b := hm.bytes b (.inl ⟨t, rfl⟩)
    refine ⟨hb ▸ .took t b, Function.update_self _ _ _, fun t' ht' => (by cases ht'), ?_⟩
    rintro b (⟨t', hl⟩ | hl) <;> cases hl
    rfl

theorem Inv.releaseSwap (h : r.Inv) {i : Nat} (hc : r.ownerCall = .releaseSwap i) :
    Good r ({ r with
      state := Function.update r.state i .free
      ownerCall := .idle }, .slot i (.released (r.bytes i))) := by
  have howned : r.owned = i :: r.held := by rw [SharedRing.owned, hc]; rfl
  have htaken : r.state i = .taken := h.owned i (howned ▸ List.mem_cons_self)
  obtain ⟨hnot, hnodup⟩ := List.nodup_cons.mp (howned ▸ h.nodup)
  refine .slot (h.ownerSwap (.inr htaken) (fun j hj => .inr ⟨fun hji => hnot (hji ▸ hj), ?_⟩) hnodup)
    (fun j hj => Function.update_of_ne hj _ _) rfl (fun _ _ _ hu => hu) fun last hm => ?_
  · rw [howned]
    exact List.mem_cons_of_mem _ hj
  · obtain ⟨b, rfl⟩ := last_took (hm.state.symm.trans htaken)
    have hb : r.bytes i = b := hm.bytes b (.inr rfl)
    refine ⟨hb ▸ .released b, Function.update_self _ _ _, fun t' ht' => (by cases ht'), ?_⟩
    rintro b (⟨t', hl⟩ | hl) <;> cases hl

/-! ## Steps -/

/-- A thread goes on, and the memory is the same. -/
theorem Good.goto (h : r.Inv) {t : Nat} {c : SubmitCall} (hi : ∀ i, c.index? = some i → (r.call t).index? = some i)
    (hs : c.swapping = false) {submitLock : Option Nat} {next : Nat} {o : Output β} (hat : ∀ i, o.at i = none)
    (hraise : ∀ i state, o ≠ .raised (.protocol i state)) :
    Good r ({ r.goto t c with submitLock := submitLock, next := next }, o) :=
  .quiet (h.goto hi hs submitLock next) rfl rfl (goto_index hi) hat hraise

theorem good_submitStep (slots : Nat) (h : r.Inv) (t : Nat) (late : Bool) : Good r (r.submitStep slots t late) := by
  have hquiet : ∀ i, (Output.quiet : Output β).at i = none := fun _ => rfl
  have hnever : ∀ i state, (Output.quiet : Output β) ≠ .raised (.protocol i state) := fun _ _ he => by cases he
  have hnone : ∀ {c : SubmitCall}, c.index? = none → ∀ i, c.index? = some i → (r.call t).index? = some i :=
    fun hc i hi => by rw [hc] at hi; cases hi
  unfold submitStep
  cases hc : r.call t with
  | claiming =>
    dsimp only
    split
    · exact .still h
    split
    · exact .goto h (hnone rfl) rfl (fun _ => rfl) fun _ _ he => by cases he
    · exact .goto h (hnone rfl) rfl hquiet hnever
  | locking =>
    dsimp only
    split
    · exact .still h
    · exact .goto h (hnone rfl) rfl hquiet hnever
  | scanning left =>
    cases left with
    | zero => exact .goto h (hnone rfl) rfl hquiet hnever
    | succ left =>
      dsimp only
      split
      · exact .still h
      · rename_i hlock
        rw [not_not] at hlock
        unfold tryClaim
        dsimp only
        split
        · rename_i hfree
          refine .quiet (h.acquire (hnone rfl) hlock hfree.1 (fun i hi => ?_) _) rfl rfl (goto_index (hnone rfl)) hquiet
            hnever
          cases hi
          exact hfree.2
        · exact .goto h (hnone rfl) rfl hquiet hnever
  | claimSwap i => exact h.claimSwap hc
  | missed =>
    dsimp only
    split
    · split
      · exact .still h
      · exact .goto h (hnone rfl) rfl (fun _ => rfl) fun _ _ he => by cases he
    · exact .goto h (hnone rfl) rfl hquiet hnever
  | ending i how =>
    dsimp only
    split
    · exact .still h
    · exact .goto h (fun j hj => by rw [hc]; exact hj) rfl hquiet hnever
  | endingLocked i how =>
    dsimp only
    split
    · exact .still h
    rename_i hlock
    rw [not_not] at hlock
    split
    · exact .goto h (hnone rfl) rfl hquiet hnever
    rename_i hdet
    rw [Bool.not_eq_true] at hdet
    have hclaimed := h.held t i (by rw [hc]; rfl)
    rw [if_neg (not_not.mpr hclaimed)]
    have hi : ∀ j, (SubmitCall.endSwap i how).index? = some j → (r.call t).index? = some j := fun j hj => by
      rw [hc]
      exact hj
    exact .quiet (h.acquire hi hlock hdet (fun i hi => by cases hi) _) rfl rfl (goto_index hi) hquiet hnever
  | endSwap i how => exact h.endSwap hc
  | idle => exact .still h
  | holding i => exact .still h
  | filling i => exact .still h

/-- The owner's thread goes on, having no more than it had. -/
theorem Good.ownerGoto (h : r.Inv) {c : OwnerCall} {held : List Nat} (hc : ∀ i, c = .takeSwap i → r.state i = .written)
    (ho : (c.index?.toList ++ held).Sublist r.owned ∨ (c.index?.toList ++ held).Perm r.owned)
    (hd : r.ownerDetached = true → ({ r with ownerCall := c } : SharedRing β).ownerSwapping = false)
    {o : Output β} (hat : ∀ i, o.at i = none) (hraise : ∀ i state, o ≠ .raised (.protocol i state)) :
    Good r ({ r with ownerCall := c, held := held }, o) := by
  refine .quiet ⟨h.held, h.exclusive, h.claiming, h.locked, h.detached, hc, fun i hi => ?_, ?_, hd⟩ rfl rfl
    (fun _ _ hu => hu) hat hraise
  · exact h.owned i (ho.elim (fun hsub => hsub.subset hi) fun hp => hp.subset hi)
  · exact ho.elim (fun hsub => hsub.nodup h.nodup) fun hp => hp.nodup_iff.mpr h.nodup

theorem good_ownerStep (slots : Nat) (h : r.Inv) (late : Bool) : Good r (r.ownerStep slots late) := by
  have hquiet : ∀ i, (Output.quiet : Output β).at i = none := fun _ => rfl
  have hnever : ∀ i state, (Output.quiet : Output β) ≠ .raised (.protocol i state) := fun _ _ he => by cases he
  have hheld : r.held.Sublist r.owned := List.sublist_append_right _ _
  -- The calls that neither hold a slot nor swap.
  have hgo : ∀ {c : OwnerCall} {o : Output β}, c.index? = none → (∀ i, c ≠ .takeSwap i) →
      ({ r with ownerCall := c } : SharedRing β).ownerSwapping = false → (∀ i, o.at i = none) →
      (∀ i state, o ≠ .raised (.protocol i state)) → Good r ({ r with ownerCall := c }, o) :=
    fun hc ht hs => .ownerGoto h (fun i hi => absurd hi (ht i)) (.inl (by rw [hc]; exact hheld)) fun _ => hs
  unfold ownerStep
  cases hc : r.ownerCall with
  | idle => exact .still h
  | taking =>
    dsimp only
    split
    · exact hgo rfl (fun _ => OwnerCall.noConfusion) rfl (fun _ => rfl) fun _ _ he => by cases he
    · exact hgo rfl (fun _ => OwnerCall.noConfusion) rfl hquiet hnever
  | scanning step =>
    dsimp only
    split
    · split
      · rename_i hw
        refine .ownerGoto h (c := .takeSwap _) (fun i hi => ?_) (.inl hheld) (fun hd => ?_) hquiet hnever
        · cases hi
          exact hw.2
        · rw [hw.1] at hd
          cases hd
      · exact hgo rfl (fun _ => OwnerCall.noConfusion) rfl hquiet hnever
    · exact hgo rfl (fun _ => OwnerCall.noConfusion) rfl hquiet hnever
  | takeSwap i => exact h.takeSwap hc _
  | missed =>
    dsimp only
    split
    · exact hgo rfl (fun _ => OwnerCall.noConfusion) rfl (fun _ => rfl) fun _ _ he => by cases he
    · exact hgo rfl (fun _ => OwnerCall.noConfusion) rfl hquiet hnever
  | releasing i =>
    dsimp only
    split
    · exact hgo rfl (fun _ => OwnerCall.noConfusion) rfl hquiet hnever
    rename_i hdet
    have howned : r.owned = i :: r.held := by rw [SharedRing.owned, hc]; rfl
    have htaken : r.state i = .taken := h.owned i (howned ▸ List.mem_cons_self)
    rw [if_neg (not_not.mpr htaken)]
    exact .ownerGoto h (fun _ => OwnerCall.noConfusion) (.inl (by rw [howned]; exact .refl _)) (fun hd => absurd hd hdet)
      hquiet hnever
  | releaseSwap i => exact h.releaseSwap hc

theorem good_write (h : r.Inv) (t : Nat) (bytes : β) : Good r (r.write t bytes) := by
  unfold write
  cases hc : r.call t with
  | filling i =>
    have hclaimed := h.held t i (by rw [hc]; rfl)
    refine ⟨{ h with }, fun j last hm => ⟨hm.state, hm.claimant, fun b hb => ?_⟩, fun _ _ he => by cases he⟩
    have hji : j ≠ i := fun hji => by
      subst hji
      have hs := hm.state.symm.trans hclaimed
      rcases hb with ⟨t', rfl⟩ | rfl <;> cases hs
    exact (Function.update_of_ne hji _ _).trans (hm.bytes b hb)
  | _ => exact .still h

/-- **Every step is good.** -/
theorem Inv.step (slots : Nat) (h : r.Inv) (e : Event β) : Good r (r.step slots e) := by
  have hquiet : ∀ i, (Output.quiet : Output β).at i = none := fun _ => rfl
  have hnever : ∀ i state, (Output.quiet : Output β) ≠ .raised (.protocol i state) := fun _ _ he => by cases he
  cases e with
  | claim t =>
    simp only [SharedRing.step, claim]
    split
    · exact .goto h (fun i hi => by cases hi) rfl hquiet hnever
    · exact .still h
  | payload t =>
    simp only [SharedRing.step, payload]
    cases hc : r.call t with
    | holding i =>
      dsimp only
      split
      · exact .still h
      split
      · exact .same h (fun _ => rfl) fun _ _ he => by cases he
      · exact .goto h (fun j hj => by rw [hc]; exact hj) rfl hquiet hnever
    | _ => exact .still h
  | write t bytes => exact good_write h t bytes
  | finish t how =>
    have hfinish : ∀ i, (r.call t).index? = some i →
        Good r (if r.detached then (r.goto t .idle, .quiet) else (r.goto t (.ending i how), .quiet)) := by
      intro i hi
      split
      · exact .goto h (fun j hj => by cases hj) rfl hquiet hnever
      · exact .goto h (c := .ending i how) (fun j hj => hi.trans hj) rfl hquiet hnever
    simp only [SharedRing.step, finish]
    cases hc : r.call t with
    | holding i => exact hfinish i (by rw [hc]; rfl)
    | filling i => exact hfinish i (by rw [hc]; rfl)
    | _ => exact .still h
  | submitStep t late => exact good_submitStep slots h t late
  | detach =>
    simp only [SharedRing.step, detach]
    split
    · exact .still h
    · rename_i hlock
      rw [not_not] at hlock
      exact .quiet { h with detached := fun _ => hlock } rfl rfl (fun _ _ hu => hu) hquiet hnever
  | take =>
    simp only [SharedRing.step, take]
    split
    · exact .ownerGoto h (fun _ => OwnerCall.noConfusion) (.inl (List.sublist_append_right _ _)) (fun _ => rfl) hquiet
        hnever
    · exact .still h
  | release i =>
    simp only [SharedRing.step, release]
    split
    · rename_i hi
      have howned : r.owned = r.held := by rw [SharedRing.owned, hi.1]; rfl
      split
      · refine .ownerGoto h (c := r.ownerCall) h.taking (.inl ?_) h.ownerDetached hquiet hnever
        rw [howned, hi.1]
        exact List.erase_sublist
      · refine .ownerGoto h (fun _ => OwnerCall.noConfusion) (.inr ?_) (fun _ => rfl) hquiet hnever
        rw [howned]
        exact (List.perm_cons_erase hi.2).symm
    · exact .still h
  | ownerStep late => exact good_ownerStep slots h late
  | markClosed =>
    simp only [SharedRing.step, markClosed]
    split
    · exact .still h
    · exact .quiet { h with } rfl rfl (fun _ _ hu => hu) hquiet hnever
  | ownerDetach =>
    simp only [SharedRing.step, ownerDetach]
    split
    · exact .still h
    · rename_i hs
      rw [Bool.not_eq_true] at hs
      exact .quiet { h with ownerDetached := fun _ => hs } rfl rfl (fun _ _ hu => hu) hquiet hnever

/-! ## Detached handles -/

/-- On a detached handle no swap is under way and none begins. -/
theorem Inv.submit_detached (h : r.Inv) (slots : Nat) (hd : r.detached = true) {e : Event β} (he : e.onSubmit = true) :
    (r.step slots e).1.state = r.state ∧ (r.step slots e).1.bytes = r.bytes := by
  have hidle : ∀ t, (r.call t).swapping = true → False := fun t ht => by
    have := (h.locked t ht).symm.trans (h.detached hd)
    cases this
  cases e with
  | claim t => simp only [SharedRing.step, claim]; split <;> exact ⟨rfl, rfl⟩
  | payload t =>
    simp only [SharedRing.step, payload]
    split
    · split_ifs <;> exact ⟨rfl, rfl⟩
    · exact ⟨rfl, rfl⟩
  | finish t how =>
    simp only [SharedRing.step, finish, hd, if_true]
    split <;> exact ⟨rfl, rfl⟩
  | submitStep t late =>
    simp only [SharedRing.step, submitStep]
    cases hc : r.call t with
    | claimSwap i => exact (hidle t (by rw [hc]; rfl)).elim
    | endSwap i how => exact (hidle t (by rw [hc]; rfl)).elim
    | scanning left =>
      cases left with
      | zero => exact ⟨rfl, rfl⟩
      | succ left =>
        dsimp only
        split
        · exact ⟨rfl, rfl⟩
        · unfold tryClaim
          dsimp only
          split <;> exact ⟨rfl, rfl⟩
    | idle => exact ⟨rfl, rfl⟩
    | holding i => exact ⟨rfl, rfl⟩
    | filling i => exact ⟨rfl, rfl⟩
    | _ => dsimp only; split_ifs <;> exact ⟨rfl, rfl⟩
  | detach => simp only [SharedRing.step, detach]; split <;> exact ⟨rfl, rfl⟩
  | _ => cases he

theorem Inv.owner_detached (h : r.Inv) (slots : Nat) (hd : r.ownerDetached = true) {e : Event β} (he : e.onOwner = true) :
    (r.step slots e).1.state = r.state ∧ (r.step slots e).1.bytes = r.bytes ∧ (r.step slots e).1.closed = r.closed := by
  have hidle := h.ownerDetached hd
  cases e with
  | take => simp only [SharedRing.step, take]; split <;> exact ⟨rfl, rfl, rfl⟩
  | release i => simp only [SharedRing.step, release]; split_ifs <;> exact ⟨rfl, rfl, rfl⟩
  | ownerStep late =>
    simp only [SharedRing.step, ownerStep]
    cases hc : r.ownerCall with
    | takeSwap i => rw [ownerSwapping, hc] at hidle; cases hidle
    | releaseSwap i => rw [ownerSwapping, hc] at hidle; cases hidle
    | idle => exact ⟨rfl, rfl, rfl⟩
    | _ => dsimp only; split_ifs <;> exact ⟨rfl, rfl, rfl⟩
  | markClosed =>
    simp only [SharedRing.step, markClosed, if_pos (Or.inr hd)]
    exact ⟨trivial, trivial, trivial⟩
  | ownerDetach => simp only [SharedRing.step, ownerDetach]; split <;> exact ⟨rfl, rfl, rfl⟩
  | _ => cases he

/-! ## Runs -/

theorem inv_new (bytes : Nat → β) : ({ bytes := bytes } : SharedRing β).Inv where
  held _ _ hi := by cases hi
  exclusive _ _ _ hi := by cases hi
  claiming _ _ hi := by cases hi
  locked _ hs := by cases hs
  detached _ := rfl
  taking _ hi := by cases hi
  owned _ hi := by cases hi
  nodup := List.nodup_nil
  ownerDetached _ := rfl

/-- From any state of the invariant: every slot's events go on as they should
from its last one, and the slot ends where the last of them leaves it. -/
theorem exec_protocol (slots : Nat) : ∀ (events : List (Event β)) {r : SharedRing β}
    (last : Nat → Option (SlotEvent β)), r.Inv → (∀ i, r.Matches i (last i)) →
    (Machine.exec (step slots) r events).1.Inv ∧ ∀ i,
      Obeys (last i) (slotTrace i (Machine.exec (step slots) r events).2) ∧
      (Machine.exec (step slots) r events).1.Matches i
        ((slotTrace i (Machine.exec (step slots) r events).2).getLast?.or (last i))
  | [], _, _, h, hm => ⟨h, fun i => ⟨trivial, hm i⟩⟩
  | e :: events, r, last, h, hm => by
    have hgood := h.step slots e
    have hlegal : ∀ i, (r.step slots e).1.Matches i (((r.step slots e).2.at i).or (last i)) := by
      intro i
      have := hgood.legal i (last i) (hm i)
      cases hat : (r.step slots e).2.at i with
      | none => rw [hat] at this; exact this
      | some event => rw [hat] at this; exact this.2
    obtain ⟨hinv, hall⟩ := exec_protocol slots events _ hgood.inv hlegal
    refine ⟨hinv, fun i => ?_⟩
    obtain ⟨hobeys, hmatch⟩ := hall i
    have hfollows := hgood.legal i (last i) (hm i)
    simp only [Machine.exec, slotTrace] at hobeys hmatch ⊢
    cases hat : (r.step slots e).2.at i with
    | none =>
      rw [hat] at hobeys hmatch
      rw [List.filterMap_cons_none hat]
      exact ⟨hobeys, hmatch⟩
    | some event =>
      rw [hat] at hobeys hmatch hfollows
      rw [List.filterMap_cons_some hat, List.getLast?_cons]
      refine ⟨⟨hfollows.1, hobeys⟩, ?_⟩
      cases hlast : (List.filterMap (Output.at i) (Machine.exec (step slots) (r.step slots e).1 events).2).getLast? with
      | none => rw [hlast] at hmatch; exact hmatch
      | some event' => rw [hlast] at hmatch; exact hmatch

theorem obeys_middle : ∀ {xs ys : List (SlotEvent β)} {last : Option (SlotEvent β)} {event : SlotEvent β},
    Obeys last (xs ++ event :: ys) → Follows (xs.getLast?.or last) event
  | [], _, _, _, h => h.1
  | x :: xs, ys, last, event, h => by
    have := obeys_middle (show Obeys (some x) (xs ++ event :: ys) from h.2)
    rw [List.getLast?_cons]
    cases hx : xs.getLast? with
    | none => rw [hx] at this; exact this
    | some y => rw [hx] at this; exact this

/-- A slot that is taken has just been published, by the thread that had just
claimed it, with the bytes that are taken. -/
theorem took_after {xs ys : List (SlotEvent β)} {b : β} (h : Obeys none (xs ++ .took b :: ys)) :
    ∃ t zs, xs = zs ++ [SlotEvent.claimed t, .published t b] := by
  have hpub := obeys_middle h
  rw [Option.or_none] at hpub
  cases hx : xs.getLast? with
  | none => rw [hx] at hpub; cases hpub
  | some event =>
    rw [hx] at hpub
    obtain ⟨zs, rfl⟩ := List.getLast?_eq_some_iff.mp hx
    cases hpub with
    | took t b =>
      rw [List.append_assoc] at h
      have hclaim := obeys_middle h
      rw [Option.or_none] at hclaim
      cases hz : zs.getLast? with
      | none => rw [hz] at hclaim; cases hclaim
      | some event =>
        rw [hz] at hclaim
        obtain ⟨ws, rfl⟩ := List.getLast?_eq_some_iff.mp hz
        cases hclaim
        exact ⟨t, ws, by simp⟩

/-- **The slot protocol**, whatever the threads of the two processes do and when. -/
theorem slot_protocol (slots : Nat) (bytes : Nat → β) (events : List (Event β)) :
    let r := (run slots bytes events).1
    let trace := fun i => slotTrace i (run slots bytes events).2
    -- The events of a slot follow one another, and its state is where they leave it.
    (∀ i, Obeys none (trace i) ∧ r.state i = stateAfter (trace i).getLast?) ∧
    -- A take is of the claim published just before, with its bytes; they stay until the release.
    (∀ i b xs ys, trace i = xs ++ .took b :: ys → ∃ t zs, xs = zs ++ [.claimed t, .published t b]) ∧
    (∀ i b, (∃ t, (trace i).getLast? = some (.published t b)) ∨ (trace i).getLast? = some (.took b) → r.bytes i = b) ∧
    -- One claimant.
    (∀ t u i, (r.call t).index? = some i → (r.call u).index? = some i → t = u) ∧
    -- Whatever comes next moves a slot along the protocol or not at all.
    (∀ e i, (r.step slots e).1.state i = r.state i ∨ ∃ event, (r.step slots e).2 = .slot i event ∧
      r.state i = event.before ∧ (r.step slots e).1.state i = event.after) ∧
    -- A detached handle changes nothing.
    (r.detached = true → ∀ e : Event β, e.onSubmit = true →
      (r.step slots e).1.state = r.state ∧ (r.step slots e).1.bytes = r.bytes) ∧
    (r.ownerDetached = true → ∀ e : Event β, e.onOwner = true →
      (r.step slots e).1.state = r.state ∧ (r.step slots e).1.bytes = r.bytes ∧
        (r.step slots e).1.closed = r.closed) := by
  intro r trace
  obtain ⟨hinv, hall⟩ := exec_protocol slots events (fun _ => none) (inv_new bytes)
    fun i => ⟨rfl, fun _ h => (by cases h), fun _ h => (by rcases h with ⟨_, h⟩ | h <;> cases h)⟩
  have hinv : r.Inv := hinv
  have hmatch : ∀ i, r.Matches i (trace i).getLast? := fun i => by
    have := (hall i).2
    rwa [Option.or_none] at this
  refine ⟨fun i => ⟨(hall i).1, (hmatch i).state⟩, fun i b xs ys h => ?_, fun i => (hmatch i).bytes, hinv.exclusive,
    fun e i => ?_, fun hd e he => hinv.submit_detached slots hd he, fun hd e he => hinv.owner_detached slots hd he⟩
  · have hobeys : Obeys none (trace i) := (hall i).1
    exact took_after (h ▸ hobeys)
  · have hlegal := (hinv.step slots e).legal i _ (hmatch i)
    cases hat : (r.step slots e).2.at i with
    | none =>
      rw [hat] at hlegal
      exact .inl (hlegal.state.trans (hmatch i).state.symm)
    | some event =>
      rw [hat] at hlegal
      refine .inr ⟨event, ?_, (hmatch i).state.trans hlegal.1.before_eq.symm, hlegal.2.state⟩
      cases ho : (r.step slots e).2 with
      | slot j event' =>
        rw [ho, Output.at] at hat
        split at hat
        · rename_i hj
          cases hat
          rw [hj]
        · cases hat
      | _ => rw [ho] at hat; cases hat

end SharedRing

end ShipInfer.Ring
