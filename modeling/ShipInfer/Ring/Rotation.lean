import ShipInfer.Ring.Protocol

/-!
# No written slot starves

The owner scans from behind the slot it took last, so every take brings the cursor nearer to a
written slot. A scan that has passed the slot before it was written is a take more (`Near`): the
cursor it leaves is past the slot, and a whole round away but for one.
-/

namespace ShipInfer.Ring

variable {β : Type}

def Output.isTook : Output β → Bool
  | .slot _ (.took _) => true
  | _ => false

/-- How many slots a scan from `p` tries before `i`. -/
def ahead (slots p i : Nat) : Nat := if p ≤ i then i - p else i + slots - p

theorem mod_cases {slots x : Nat} (h : x < 2 * slots) : x % slots = if x < slots then x else x - slots := by
  split
  · rename_i hlt
    exact Nat.mod_eq_of_lt hlt
  · rename_i hge
    rw [Nat.mod_eq_sub_mod (Nat.not_lt.mp hge), Nat.mod_eq_of_lt (by omega)]

theorem ahead_lt {slots p i : Nat} (hi : i < slots) (hp : p < slots) : ahead slots p i < slots := by
  unfold ahead
  split <;> omega

/-- The scan is at the slot as many steps on as it is ahead. -/
theorem scan_at {slots p i s : Nat} (hi : i < slots) (hp : p < slots) (hs : s < slots) :
    (p + s) % slots = i ↔ s = ahead slots p i := by
  rw [mod_cases (by omega)]
  unfold ahead
  split <;> split <;> omega

/-- What is ahead once the cursor is behind the slot tried in step `s`. -/
theorem ahead_next {slots p i s : Nat} (hi : i < slots) (hp : p < slots) (hs : s < slots) (hne : s ≠ ahead slots p i) :
    ahead slots (((p + s) % slots + 1) % slots) i + 1 =
      if s < ahead slots p i then ahead slots p i - s else slots + ahead slots p i - s := by
  have hlt : (p + s) % slots < slots := Nat.mod_lt _ (by omega)
  have hat : (p + s) % slots = if p + s < slots then p + s else p + s - slots := mod_cases (by omega)
  have hnext : ((p + s) % slots + 1) % slots = if (p + s) % slots + 1 < slots then (p + s) % slots + 1
      else (p + s) % slots + 1 - slots := mod_cases (by omega)
  rw [hnext]
  generalize (p + s) % slots = j at hat hlt ⊢
  unfold ahead at hne ⊢
  split at hat <;> split at hne <;> split <;> split <;> split <;> omega

namespace SharedRing

variable {r : SharedRing β} {slots : Nat}

/-! ## Slots and cursors are in range -/

structure Placed (slots : Nat) (r : SharedRing β) : Prop where
  states : ∀ i, r.state i ≠ .free → i < slots
  next : 0 < slots → r.next < slots
  takeNext : 0 < slots → r.takeNext < slots
  scanning : ∀ t left, r.call t = .scanning left → left ≤ slots
  claiming : ∀ t i, r.call t = .claimSwap i → i < slots
  tried : ∀ step, r.ownerCall = .scanning step → step ≤ slots

theorem Placed.goto (h : r.Placed slots) {t : Nat} {c : SubmitCall} (hs : ∀ left, c = .scanning left → left ≤ slots)
    (hc : ∀ i, c = .claimSwap i → i < slots) (viewLock submitLock : Option Nat) {next : Nat}
    (hn : 0 < slots → next < slots) :
    ({ r.goto t c with viewLock := viewLock, submitLock := submitLock, next := next } : SharedRing β).Placed slots := by
  refine ⟨h.states, hn, h.takeNext, fun u left hu => ?_, fun u i hu => ?_, h.tried⟩
  · by_cases hut : u = t
    · subst hut
      exact hs left ((goto_self u c).symm.trans hu)
    · exact h.scanning u left ((goto_ne hut c).symm.trans hu)
  · by_cases hut : u = t
    · subst hut
      exact hc i ((goto_self u c).symm.trans hu)
    · exact h.claiming u i ((goto_ne hut c).symm.trans hu)

/-- A thread that stands nowhere in a scan. -/
theorem Placed.stand (h : r.Placed slots) {t : Nat} {c : SubmitCall} (hs : ∀ left, c ≠ .scanning left)
    (hc : ∀ i, c ≠ .claimSwap i) (viewLock submitLock : Option Nat) :
    ({ r.goto t c with viewLock := viewLock, submitLock := submitLock } : SharedRing β).Placed slots :=
  h.goto (fun left he => absurd he (hs left)) (fun i he => absurd he (hc i)) viewLock submitLock h.next

theorem Placed.write (h : r.Placed slots) {i : Nat} (hi : i < slots) (x : SlotState) :
    ({ r with state := Function.update r.state i x } : SharedRing β).Placed slots := by
  refine ⟨fun j hj => ?_, h.next, h.takeNext, h.scanning, h.claiming, h.tried⟩
  by_cases hji : j = i
  · rw [hji]
    exact hi
  · have hsame : Function.update r.state i x j = r.state j := Function.update_of_ne hji _ _
    exact h.states j fun he => hj (hsame.trans he)

theorem Placed.submitStep (hinv : r.Inv) (h : r.Placed slots) (t : Nat) (late : Bool) :
    (r.submitStep slots t late).1.Placed slots := by
  have hnot : ∀ {c : SubmitCall}, (∀ left, c ≠ .scanning left) → (∀ i, c ≠ .claimSwap i) →
      (r.goto t c).Placed slots := fun hs hc => h.stand hs hc r.viewLock r.submitLock
  unfold SharedRing.submitStep
  cases hcall : r.call t with
  | claiming =>
    dsimp only
    split
    · exact h
    · split <;> exact hnot (fun _ => SubmitCall.noConfusion) fun _ => SubmitCall.noConfusion
  | locking =>
    dsimp only
    split
    · exact h
    · exact h.goto (fun left he => by cases he; exact Nat.le_refl _) (fun _ => SubmitCall.noConfusion) _ _ h.next
  | scanning left =>
    have hle := h.scanning t left hcall
    cases left with
    | zero => exact h.stand (fun _ => SubmitCall.noConfusion) (fun _ => SubmitCall.noConfusion) r.viewLock none
    | succ left =>
      dsimp only
      split
      · exact h
      · unfold tryClaim
        dsimp only
        have hnext : 0 < slots → (r.next + 1) % slots < slots := Nat.mod_lt _
        split
        · refine h.goto (fun _ => SubmitCall.noConfusion) (fun i he => ?_) (some t) r.submitLock hnext
          cases he
          exact h.next (by omega)
        · refine h.goto (fun left' he => ?_) (fun _ => SubmitCall.noConfusion) r.viewLock r.submitLock hnext
          cases he
          omega
  | claimSwap i =>
    exact (h.stand (fun _ => SubmitCall.noConfusion) (fun _ => SubmitCall.noConfusion) none none).write
      (h.claiming t i hcall) .claimed
  | missed =>
    dsimp only
    split
    · split
      · exact h
      · exact hnot (fun _ => SubmitCall.noConfusion) fun _ => SubmitCall.noConfusion
    · exact hnot (fun _ => SubmitCall.noConfusion) fun _ => SubmitCall.noConfusion
  | ending i how =>
    dsimp only
    split
    · exact h
    · exact h.stand (fun _ => SubmitCall.noConfusion) (fun _ => SubmitCall.noConfusion) r.viewLock (some t)
  | endingLocked i how =>
    dsimp only
    split
    · exact h
    split
    · exact h.stand (fun _ => SubmitCall.noConfusion) (fun _ => SubmitCall.noConfusion) r.viewLock none
    split
    · exact h.stand (fun _ => SubmitCall.noConfusion) (fun _ => SubmitCall.noConfusion) r.viewLock none
    · exact h.stand (fun _ => SubmitCall.noConfusion) (fun _ => SubmitCall.noConfusion) (some t) r.submitLock
  | endSwap i how =>
    have hclaimed := hinv.held t i (by rw [hcall]; rfl)
    exact (h.stand (fun _ => SubmitCall.noConfusion) (fun _ => SubmitCall.noConfusion) none none).write
      (h.states i (by rw [hclaimed]; exact SlotState.noConfusion)) how.to
  | idle => exact h
  | holding i => exact h
  | filling i => exact h

theorem Placed.ownerStep (hinv : r.Inv) (h : r.Placed slots) (late : Bool) :
    (r.ownerStep slots late).1.Placed slots := by
  have hgoto : ∀ c : OwnerCall, (∀ step, c = .scanning step → step ≤ slots) →
      ({ r with ownerCall := c } : SharedRing β).Placed slots := fun _ hc => { h with tried := hc }
  have hstand : ∀ c : OwnerCall, (∀ step, c ≠ .scanning step) →
      ({ r with ownerCall := c } : SharedRing β).Placed slots := fun c hc => hgoto c fun step he => absurd he (hc step)
  unfold SharedRing.ownerStep
  cases hcall : r.ownerCall with
  | idle => exact h
  | taking =>
    dsimp only
    split
    · exact hstand _ fun _ => OwnerCall.noConfusion
    · refine hgoto _ fun step he => ?_
      cases he
      exact Nat.zero_le _
  | scanning s =>
    dsimp only
    split
    · rename_i hlt
      split
      · exact hstand _ fun _ => OwnerCall.noConfusion
      · refine hgoto _ fun step he => ?_
        cases he
        exact hlt
    · exact hstand _ fun _ => OwnerCall.noConfusion
  | takeSwap i =>
    have hi := h.states i (by rw [hinv.taking i hcall]; exact SlotState.noConfusion)
    exact { h.write hi .taken with takeNext := Nat.mod_lt _, tried := fun _ => OwnerCall.noConfusion }
  | missed =>
    dsimp only
    split <;> exact hstand _ fun _ => OwnerCall.noConfusion
  | releasing i =>
    dsimp only
    split
    · exact hstand _ fun _ => OwnerCall.noConfusion
    split <;> exact hstand _ fun _ => OwnerCall.noConfusion
  | releaseSwap i =>
    have htaken := hinv.owned i (List.mem_append_left _ (by rw [hcall]; exact List.mem_singleton_self i))
    exact { h.write (h.states i (by rw [htaken]; exact SlotState.noConfusion)) .free with
      tried := fun _ => OwnerCall.noConfusion }

theorem Placed.step (hinv : r.Inv) (h : r.Placed slots) (e : Event β) : (r.step slots e).1.Placed slots := by
  have hnot : ∀ {t : Nat} {c : SubmitCall}, (∀ left, c ≠ .scanning left) → (∀ i, c ≠ .claimSwap i) →
      (r.goto t c).Placed slots := fun hs hc => h.stand hs hc r.viewLock r.submitLock
  cases e with
  | claim t =>
    simp only [SharedRing.step, claim]
    split
    · exact hnot (fun _ => SubmitCall.noConfusion) fun _ => SubmitCall.noConfusion
    · exact h
  | payload t =>
    simp only [SharedRing.step, payload]
    cases r.call t with
    | holding i =>
      dsimp only
      split
      · exact h
      split
      · exact h
      · exact hnot (fun _ => SubmitCall.noConfusion) fun _ => SubmitCall.noConfusion
    | _ => exact h
  | write t bytes =>
    simp only [SharedRing.step, SharedRing.write]
    cases r.call t with
    | filling i => exact { h with }
    | _ => exact h
  | finish t how =>
    have hfinish : ∀ i, (if r.detached then (r.goto t .idle, Output.quiet)
        else (r.goto t (.ending i how), .quiet) : Step β).1.Placed slots := by
      intro i
      split <;> exact hnot (fun _ => SubmitCall.noConfusion) fun _ => SubmitCall.noConfusion
    simp only [SharedRing.step, finish]
    cases r.call t with
    | holding i => exact hfinish i
    | filling i => exact hfinish i
    | _ => exact h
  | submitStep t late => exact Placed.submitStep hinv h t late
  | detach =>
    simp only [SharedRing.step, detach]
    split
    · exact h
    · exact { h with }
  | take =>
    simp only [SharedRing.step, take]
    split
    · exact { h with tried := fun _ => OwnerCall.noConfusion }
    · exact h
  | release i =>
    simp only [SharedRing.step, release]
    split
    · split
      · exact { h with }
      · exact { h with tried := fun _ => OwnerCall.noConfusion }
    · exact h
  | ownerStep late => exact Placed.ownerStep hinv h late
  | markClosed =>
    simp only [SharedRing.step, markClosed]
    split
    · exact h
    · exact { h with }
  | ownerDetach =>
    simp only [SharedRing.step, ownerDetach]
    split
    · exact h
    · exact { h with }

/-! ## The bound -/

/-- At most `k` takes of other slots come before the slot's own, if the owner takes at all. A scan
that is past the slot comes back to it after the take that it ends with. -/
def Near (slots : Nat) (r : SharedRing β) (i k : Nat) : Prop :=
  r.ownerDetached = true ∨
    match r.ownerCall with
    | .scanning s => s ≤ slots ∧
        (if s ≤ ahead slots r.takeNext i then ahead slots r.takeNext i else slots + ahead slots r.takeNext i - s) ≤ k
    | .takeSwap j => j = i ∨ ahead slots ((j + 1) % slots) i + 1 ≤ k
    | _ => ahead slots r.takeNext i ≤ k

theorem near_start (hinv : r.Inv) (h : r.Placed slots) {i : Nat} (hw : r.state i = .written) :
    Near slots r i (slots - 1) := by
  have hi : i < slots := h.states i (by rw [hw]; exact SlotState.noConfusion)
  have hahead := ahead_lt hi (h.takeNext (by omega))
  unfold Near
  cases hc : r.ownerCall with
  | scanning s =>
    have hs := h.tried s hc
    refine .inr ⟨hs, ?_⟩
    split <;> omega
  | takeSwap j =>
    have hj : j < slots := h.states j (by rw [hinv.taking j hc]; exact SlotState.noConfusion)
    have hnext : (j + 1) % slots = if j + 1 < slots then j + 1 else j + 1 - slots := mod_cases (by omega)
    refine .inr ?_
    by_cases hji : j = i
    · exact .inl hji
    · right
      rw [hnext]
      unfold ahead
      split <;> split <;> omega
  | _ =>
    refine .inr ?_
    dsimp only
    omega

/-- A step of the owner: the slot's take, or the bound is kept, less one for another's take. -/
theorem Near.ownerStep (hinv : r.Inv) (h : r.Placed slots) {i k : Nat} (hw : r.state i = .written)
    (hnear : Near slots r i k) (late : Bool) :
    (∃ b, (r.ownerStep slots late).2 = .slot i (.took b)) ∨
      ∃ k', Near slots (r.ownerStep slots late).1 i k' ∧ k' + (r.ownerStep slots late).2.isTook.toNat ≤ k := by
  have hi : i < slots := h.states i (by rw [hw]; exact SlotState.noConfusion)
  have hp : r.takeNext < slots := h.takeNext (by omega)
  have hahead := ahead_lt hi hp
  cases hd : r.ownerDetached with
  | true =>
    have hswap := hinv.ownerDetached hd
    right
    refine ⟨k, .inl ?_, ?_⟩
    · unfold SharedRing.ownerStep
      cases hc : r.ownerCall with
      | takeSwap j =>
        rw [ownerSwapping, hc] at hswap
        cases hswap
      | releaseSwap j =>
        rw [ownerSwapping, hc] at hswap
        cases hswap
      | idle => exact hd
      | taking => simp [hd]
      | scanning s =>
        dsimp only
        split
        · split <;> exact hd
        · exact hd
      | missed => simp [hd]
      | releasing j => simp [hd]
    · unfold SharedRing.ownerStep
      cases hc : r.ownerCall with
      | takeSwap j =>
        rw [ownerSwapping, hc] at hswap
        cases hswap
      | releaseSwap j =>
        rw [ownerSwapping, hc] at hswap
        cases hswap
      | idle => simp [Output.isTook]
      | taking => simp [hd, Output.isTook]
      | scanning s =>
        dsimp only
        split
        · split <;> simp [Output.isTook]
        · simp [Output.isTook]
      | missed => simp [hd, Output.isTook]
      | releasing j => simp [hd, Output.isTook]
  | false =>
    unfold Near at hnear
    rw [hd] at hnear
    have hnear := hnear.resolve_left Bool.false_ne_true
    unfold SharedRing.ownerStep
    cases hc : r.ownerCall with
    | idle =>
      rw [hc] at hnear
      refine .inr ⟨k, .inr ?_, by simp [Output.isTook]⟩
      rw [hc]
      exact hnear
    | taking =>
      rw [hc] at hnear
      rw [hd]
      refine .inr ⟨k, .inr ?_, by simp [Output.isTook]⟩
      refine ⟨Nat.zero_le _, ?_⟩
      rw [if_pos (Nat.zero_le _)]
      exact hnear
    | scanning s =>
      rw [hc] at hnear
      obtain ⟨hs, hbound⟩ := hnear
      dsimp only
      by_cases hlt : s < slots
      · rw [if_pos hlt, hd]
        by_cases hwritten : r.state ((r.takeNext + s) % slots) = .written
        · rw [if_pos ⟨rfl, hwritten⟩]
          refine .inr ⟨k, .inr ?_, by simp [Output.isTook]⟩
          by_cases hat : s = ahead slots r.takeNext i
          · exact .inl ((scan_at hi hp hlt).mpr hat)
          · right
            rw [ahead_next hi hp hlt hat]
            split <;> split at hbound <;> omega
        · rw [if_neg fun hh => hwritten hh.2]
          have hat : s ≠ ahead slots r.takeNext i := by
            intro hat
            rw [(scan_at hi hp hlt).mpr hat] at hwritten
            exact hwritten hw
          refine .inr ⟨k, .inr ⟨hlt, ?_⟩, by simp [Output.isTook]⟩
          dsimp only
          split at hbound <;> split <;> omega
      · rw [if_neg hlt]
        refine .inr ⟨k, .inr ?_, by simp [Output.isTook]⟩
        dsimp only
        split at hbound <;> omega
    | takeSwap j =>
      rw [hc] at hnear
      rcases hnear with rfl | hnext
      · exact .inl ⟨_, rfl⟩
      · refine .inr ⟨ahead slots ((j + 1) % slots) i, .inr (Nat.le_refl _), ?_⟩
        simpa [Output.isTook] using hnext
    | missed =>
      rw [hc] at hnear
      dsimp only
      split
      · exact .inr ⟨k, .inr hnear, by simp [Output.isTook]⟩
      · exact .inr ⟨k, .inr hnear, by simp [Output.isTook]⟩
    | releasing j =>
      rw [hc] at hnear
      dsimp only
      split
      · exact .inr ⟨k, .inr hnear, by simp [Output.isTook]⟩
      split
      · exact .inr ⟨k, .inr hnear, by simp [Output.isTook]⟩
      · exact .inr ⟨k, .inr hnear, by simp [Output.isTook]⟩
    | releaseSwap j =>
      rw [hc] at hnear
      exact .inr ⟨k, .inr hnear, by simp [Output.isTook]⟩

/-- What the submitters do is nothing to the owner's cursor. -/
structure OwnerSame (r : SharedRing β) (a : Step β) : Prop where
  call : a.1.ownerCall = r.ownerCall
  takeNext : a.1.takeNext = r.takeNext
  detached : a.1.ownerDetached = r.ownerDetached
  took : a.2.isTook = false

theorem ownerSame_submitStep (t : Nat) (late : Bool) : OwnerSame r (r.submitStep slots t late) := by
  unfold SharedRing.submitStep
  cases r.call t with
  | claiming =>
    dsimp only
    split
    · exact ⟨rfl, rfl, rfl, rfl⟩
    · split <;> exact ⟨rfl, rfl, rfl, rfl⟩
  | locking =>
    dsimp only
    split <;> exact ⟨rfl, rfl, rfl, rfl⟩
  | scanning left =>
    cases left with
    | zero => exact ⟨rfl, rfl, rfl, rfl⟩
    | succ left =>
      dsimp only
      split
      · exact ⟨rfl, rfl, rfl, rfl⟩
      · unfold tryClaim
        dsimp only
        split <;> exact ⟨rfl, rfl, rfl, rfl⟩
  | missed =>
    dsimp only
    split
    · split <;> exact ⟨rfl, rfl, rfl, rfl⟩
    · exact ⟨rfl, rfl, rfl, rfl⟩
  | ending i how =>
    dsimp only
    split <;> exact ⟨rfl, rfl, rfl, rfl⟩
  | endingLocked i how =>
    dsimp only
    split
    · exact ⟨rfl, rfl, rfl, rfl⟩
    split
    · exact ⟨rfl, rfl, rfl, rfl⟩
    · split <;> exact ⟨rfl, rfl, rfl, rfl⟩
  | endSwap i how => cases how <;> exact ⟨rfl, rfl, rfl, rfl⟩
  | claimSwap i => exact ⟨rfl, rfl, rfl, rfl⟩
  | idle => exact ⟨rfl, rfl, rfl, rfl⟩
  | holding i => exact ⟨rfl, rfl, rfl, rfl⟩
  | filling i => exact ⟨rfl, rfl, rfl, rfl⟩

theorem ownerSame_step (slots : Nat) {e : Event β} (he : e.onOwner = false) : OwnerSame r (r.step slots e) := by
  cases e with
  | claim t =>
    simp only [SharedRing.step, claim]
    split <;> exact ⟨rfl, rfl, rfl, rfl⟩
  | payload t =>
    simp only [SharedRing.step, payload]
    split
    · split
      · exact ⟨rfl, rfl, rfl, rfl⟩
      · split <;> exact ⟨rfl, rfl, rfl, rfl⟩
    · exact ⟨rfl, rfl, rfl, rfl⟩
  | write t bytes =>
    simp only [SharedRing.step, SharedRing.write]
    split <;> exact ⟨rfl, rfl, rfl, rfl⟩
  | finish t how =>
    simp only [SharedRing.step, finish]
    split
    · split <;> exact ⟨rfl, rfl, rfl, rfl⟩
    · split <;> exact ⟨rfl, rfl, rfl, rfl⟩
    · exact ⟨rfl, rfl, rfl, rfl⟩
  | submitStep t late => exact ownerSame_submitStep t late
  | detach =>
    simp only [SharedRing.step, detach]
    split <;> exact ⟨rfl, rfl, rfl, rfl⟩
  | take => cases he
  | release i => cases he
  | ownerStep late => cases he
  | markClosed => cases he
  | ownerDetach => cases he

theorem OwnerSame.near {a : Step β} (hs : OwnerSame r a) {i k : Nat} (h : Near slots r i k) : Near slots a.1 i k := by
  unfold Near at h ⊢
  rw [hs.call, hs.takeNext, hs.detached]
  exact h

/-- Any step: the slot's take, or the bound is kept, less one for another's take. -/
theorem Near.step (hinv : r.Inv) (h : r.Placed slots) {i k : Nat} (hw : r.state i = .written)
    (hnear : Near slots r i k) (e : Event β) :
    (∃ b, (r.step slots e).2 = .slot i (.took b)) ∨
      ∃ k', Near slots (r.step slots e).1 i k' ∧ k' + (r.step slots e).2.isTook.toNat ≤ k := by
  cases he : e.onOwner with
  | false =>
    have hs : OwnerSame r (r.step slots e) := ownerSame_step slots he
    exact .inr ⟨k, hs.near hnear, by rw [hs.took]; exact Nat.le_refl _⟩
  | true =>
    cases e with
    | ownerStep late => exact Near.ownerStep hinv h hw hnear late
    | take =>
      simp only [SharedRing.step, take]
      split
      · rename_i hidle
        refine .inr ⟨k, ?_, Nat.le_refl _⟩
        unfold Near at hnear ⊢
        rw [hidle] at hnear
        exact hnear
      · exact .inr ⟨k, hnear, Nat.le_refl _⟩
    | release j =>
      simp only [SharedRing.step, release]
      split
      · rename_i hidle
        unfold Near at hnear
        rw [hidle.1] at hnear
        split
        · rename_i hd
          exact .inr ⟨k, .inl hd, Nat.le_refl _⟩
        · exact .inr ⟨k, hnear, Nat.le_refl _⟩
      · exact .inr ⟨k, hnear, Nat.le_refl _⟩
    | markClosed =>
      simp only [SharedRing.step, markClosed]
      split
      · exact .inr ⟨k, hnear, Nat.le_refl _⟩
      · exact .inr ⟨k, hnear, Nat.le_refl _⟩
    | ownerDetach =>
      simp only [SharedRing.step, ownerDetach]
      split
      · exact .inr ⟨k, hnear, Nat.le_refl _⟩
      · exact .inr ⟨k, .inl rfl, Nat.le_refl _⟩
    | claim t => cases he
    | payload t => cases he
    | write t bytes => cases he
    | finish t how => cases he
    | submitStep t late => cases he
    | detach => cases he

/-- A written slot stays so, until it is taken. -/
theorem Inv.written_step (slots : Nat) (hinv : r.Inv) {i : Nat} (hw : r.state i = .written) (e : Event β) :
    (∃ b, (r.step slots e).2 = .slot i (.took b)) ∨ (r.step slots e).1.state i = .written := by
  have hmatch : r.Matches i (some (.published 0 (r.bytes i))) := by
    refine ⟨hw, fun t ht => (by cases ht), ?_⟩
    rintro b (⟨t, hb⟩ | hb) <;> cases hb
    rfl
  have hlegal := (hinv.step slots e).legal i _ hmatch
  cases hat : (r.step slots e).2.at i with
  | none =>
    rw [hat] at hlegal
    exact .inr hlegal.state
  | some event =>
    rw [hat] at hlegal
    left
    cases hlegal.1 with
    | took t b =>
      unfold Output.at at hat
      split at hat
      · split at hat
        · rename_i hj
          cases hat
          rw [hj] at *
          exact ⟨_, by assumption⟩
        · cases hat
      · cases hat

/-- A run from a state in which the slot is written: it is taken, with no more than `k` other takes
before, or it is still written, with no more than that in all. -/
def InTime (k i : Nat) (r : SharedRing β) (outputs : List (Output β)) : Prop :=
  (∃ before b after, outputs = before ++ .slot i (.took b) :: after ∧ before.countP Output.isTook ≤ k) ∨
    (r.state i = .written ∧ outputs.countP Output.isTook ≤ k)

theorem Near.run {i : Nat} : ∀ (events : List (Event β)) {r : SharedRing β} {k : Nat}, r.Inv → r.Placed slots →
    r.state i = .written → Near slots r i k →
    InTime k i (Machine.exec (SharedRing.step slots) r events).1 (Machine.exec (SharedRing.step slots) r events).2
  | [], _, _, _, _, hw, _ => .inr ⟨hw, Nat.zero_le _⟩
  | e :: events, r, k, hinv, h, hw, hnear => by
    rcases Inv.written_step slots hinv hw e with ⟨b, hb⟩ | hw'
    · exact .inl ⟨[], b, _, by rw [← hb]; rfl, Nat.zero_le _⟩
    rcases Near.step hinv h hw hnear e with ⟨b, hb⟩ | ⟨k', hnear', hle⟩
    · exact .inl ⟨[], b, _, by rw [← hb]; rfl, Nat.zero_le _⟩
    -- this step's output comes before the rest
    have hone : ∀ outputs : List (Output β), outputs.countP Output.isTook ≤ k' →
        ((r.step slots e).2 :: outputs).countP Output.isTook ≤ k := by
      intro outputs hcount
      rw [List.countP_cons]
      cases ht : (r.step slots e).2.isTook with
      | true =>
        rw [ht, Bool.toNat_true] at hle
        simp only [if_true]
        omega
      | false =>
        rw [ht, Bool.toNat_false] at hle
        simp only [Bool.false_eq_true, if_false]
        omega
    rcases Near.run events (hinv.step slots e).inv (Placed.step hinv h e) hw' hnear' with
      ⟨before, b, after, hsplit, hcount⟩ | ⟨hend, hcount⟩
    · refine .inl ⟨(r.step slots e).2 :: before, b, after, ?_, hone before hcount⟩
      simp only [Machine.exec, hsplit, List.cons_append]
    · exact .inr ⟨hend, hone _ hcount⟩

theorem placed_new (slots : Nat) (bytes : Nat → β) : ({ bytes := bytes } : SharedRing β).Placed slots where
  states _ hs := absurd rfl hs
  next := id
  takeNext := id
  scanning _ _ hc := by cases hc
  claiming _ _ hc := by cases hc
  tried _ hc := by cases hc

theorem placed_exec : ∀ (events : List (Event β)) {r : SharedRing β}, r.Inv → r.Placed slots →
    (Machine.exec (SharedRing.step slots) r events).1.Inv ∧
      (Machine.exec (SharedRing.step slots) r events).1.Placed slots
  | [], _, hinv, h => ⟨hinv, h⟩
  | e :: events, _, hinv, h => placed_exec events (hinv.step slots e).inv (Placed.step hinv h e)

/-- **No written slot starves.** Whatever the threads of both sides do from then on, a slot that is
written stays so until the owner takes it, and the owner takes it before it has taken more than
`slots - 1` times from the others. -/
theorem taken_in_turn (bytes : Nat → β) (before after : List (Event β)) {i : Nat}
    (hw : (run slots bytes before).1.state i = .written) :
    InTime (slots - 1) i (Machine.exec (SharedRing.step slots) (run slots bytes before).1 after).1
      (Machine.exec (SharedRing.step slots) (run slots bytes before).1 after).2 := by
  obtain ⟨hinv, hplaced⟩ := placed_exec before (inv_new bytes) (placed_new slots bytes)
  exact Near.run after hinv hplaced hw (near_start hinv hplaced hw)

/-- One thread claims the first slot, fills and publishes it. -/
def oneMessage : List (Event Nat) :=
  [.claim 0, .submitStep 0 false, .submitStep 0 false, .submitStep 0 false, .submitStep 0 false, .payload 0, .write 0 7,
    .finish 0 .publish, .submitStep 0 false, .submitStep 0 false, .submitStep 0 false]

def oneTake : List (Event Nat) := [.take, .ownerStep false, .ownerStep false, .ownerStep false]

theorem message_taken_in_turn :
    InTime 1 0 (Machine.exec (SharedRing.step 2) (run 2 (fun _ => 0) oneMessage).1 oneTake).1
      (Machine.exec (SharedRing.step 2) (run 2 (fun _ => 0) oneMessage).1 oneTake).2 :=
  taken_in_turn (fun _ => 0) oneMessage oneTake (by decide)

end SharedRing

end ShipInfer.Ring
