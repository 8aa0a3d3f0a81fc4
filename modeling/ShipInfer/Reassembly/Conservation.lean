import ShipInfer.Reassembly.Collector

/-!
# No frame lost, none twice

Frames leave the collector in many ways, but each takes them from the pending
ones to the hands of a call with the index kept in step (`Moves`). From that:
every opened frame is in exactly one place, the index is the pending frames by
camera, and what a result misses is what its frame was to wait for and never got.
-/

namespace ShipInfer.Reassembly

namespace FrameCollector

/-! ## The index -/

/-- The index holds exactly the keys that meet `P`, each under its camera, and no
empty camera. -/
structure Indexed (byCamera : Dict String (Dict PendingKey Unit)) (P : PendingKey → Prop) : Prop where
  nonempty : ∀ p ∈ byCamera.entries, p.2.entries ≠ []
  own : ∀ p ∈ byCamera.entries, ∀ key ∈ p.2.keys, key.1 = p.1 ∧ P key
  all : ∀ key, P key → ∃ keys, byCamera.get? key.1 = some keys ∧ key ∈ keys.keys

theorem Indexed.congr {byCamera : Dict String (Dict PendingKey Unit)} {P Q : PendingKey → Prop}
    (h : Indexed byCamera P) (hpq : ∀ key, P key ↔ Q key) : Indexed byCamera Q := by
  have : P = Q := funext fun key => propext (hpq key)
  exact this ▸ h

theorem indexed_empty : Indexed .empty fun _ => False :=
  ⟨fun _ h => (List.not_mem_nil h).elim, fun _ h => (List.not_mem_nil h).elim, fun _ h => h.elim⟩

theorem Indexed.add {byCamera : Dict String (Dict PendingKey Unit)} {P : PendingKey → Prop} (h : Indexed byCamera P)
    (key : PendingKey) :
    Indexed (byCamera.set key.1 (((byCamera.get? key.1).getD .empty).set key ())) fun k => k = key ∨ P k := by
  have hold : ∀ k ∈ ((byCamera.get? key.1).getD .empty).keys, k.1 = key.1 ∧ P k := by
    intro k hk
    cases hg : byCamera.get? key.1 with
    | none => rw [hg] at hk; cases hk
    | some keys =>
      rw [hg] at hk
      exact h.own _ (Dict.get?_eq_some_iff.mp hg) k hk
  refine ⟨fun p hp => ?_, fun p hp k hk => ?_, fun k hk => ?_⟩
  · rcases Dict.mem_set_entries.mp hp with rfl | ⟨hp, -⟩
    · exact List.ne_nil_of_mem (Dict.mem_set_entries.mpr (.inl rfl))
    · exact h.nonempty p hp
  · rcases Dict.mem_set_entries.mp hp with rfl | ⟨hp, -⟩
    · rcases Dict.mem_keys_set.mp hk with rfl | hk
      · exact ⟨rfl, .inl rfl⟩
      · exact ⟨(hold k hk).1, .inr (hold k hk).2⟩
    · exact ⟨(h.own p hp k hk).1, .inr (h.own p hp k hk).2⟩
  · rw [Dict.get?_set]
    by_cases hc : k.1 = key.1
    · rw [if_pos hc]
      refine ⟨_, rfl, Dict.mem_keys_set.mpr ?_⟩
      rcases hk with rfl | hk
      · exact .inl rfl
      · obtain ⟨keys, hg, hmem⟩ := h.all k hk
        rw [← hc, hg]
        exact .inr hmem
    · rw [if_neg hc]
      rcases hk with rfl | hk
      · exact absurd rfl hc
      · exact h.all k hk

variable {c c' : FrameCollector}

theorem forgetCamera_eq (c : FrameCollector) (key : PendingKey) :
    c.forgetCamera key = { c with byCamera := (c.forgetCamera key).byCamera } := by
  unfold forgetCamera
  split
  · rfl
  · split <;> rfl

theorem Indexed.forget {P : PendingKey → Prop} (h : Indexed c.byCamera P) {key : PendingKey} (hkey : P key) :
    Indexed (c.forgetCamera key).byCamera fun k => P k ∧ k ≠ key := by
  obtain ⟨keys, hg, hmem⟩ := h.all key hkey
  have hentry := Dict.get?_eq_some_iff.mp hg
  have hother : ∀ p ∈ c.byCamera.entries, p.1 ≠ key.1 → ∀ k ∈ p.2.keys, k.1 = p.1 ∧ P k ∧ k ≠ key := by
    intro p hp hne k hk
    have hown := h.own p hp k hk
    exact ⟨hown.1, hown.2, fun e => hne (by rw [← hown.1, e])⟩
  unfold forgetCamera
  rw [hg]
  dsimp only
  by_cases hempty : (keys.erase key).entries = []
  · rw [if_pos hempty]
    refine ⟨fun p hp => ?_, fun p hp => ?_, fun k hk => ?_⟩
    · exact h.nonempty p (Dict.mem_erase_entries.mp hp).1
    · exact hother p (Dict.mem_erase_entries.mp hp).1 (Dict.mem_erase_entries.mp hp).2
    · obtain ⟨keys', hg', hmem'⟩ := h.all k hk.1
      dsimp only
      rw [Dict.get?_erase]
      by_cases hc : k.1 = key.1
      · rw [hc, hg] at hg'
        cases hg'
        have herase : k ∈ (keys.erase key).keys := Dict.mem_keys_erase.mpr ⟨hmem', hk.2⟩
        rw [Dict.keys, hempty] at herase
        cases herase
      · rw [if_neg hc]
        exact ⟨keys', hg', hmem'⟩
  · rw [if_neg hempty]
    refine ⟨fun p hp => ?_, fun p hp => ?_, fun k hk => ?_⟩
    · rcases Dict.mem_set_entries.mp hp with rfl | ⟨hp, -⟩
      · exact hempty
      · exact h.nonempty p hp
    · rcases Dict.mem_set_entries.mp hp with rfl | ⟨hp, hne⟩
      · intro k hk
        obtain ⟨hk, hne⟩ := Dict.mem_keys_erase.mp hk
        exact ⟨(h.own _ hentry k hk).1, (h.own _ hentry k hk).2, hne⟩
      · exact hother p hp hne
    · obtain ⟨keys', hg', hmem'⟩ := h.all k hk.1
      dsimp only
      rw [Dict.get?_set]
      by_cases hc : k.1 = key.1
      · rw [if_pos hc]
        rw [hc, hg] at hg'
        cases hg'
        exact ⟨_, rfl, Dict.mem_keys_erase.mpr ⟨hmem', hk.2⟩⟩
      · rw [if_neg hc]
        exact ⟨keys', hg', hmem'⟩

/-! ## Frames taken out -/

/-- The numbers of the frames inside, waiting or in hand. -/
def held (c : FrameCollector) : List Nat :=
  c.pending.values.map PendingFrame.ticket ++ c.publishing.map FrameResult.ticket

/-- Some frames go from the pending ones to the hands of a call. -/
structure Moves (c c' : FrameCollector) : Prop where
  held : c'.held.Perm c.held
  opened : c'.opened = c.opened
  reported : c'.reported = c.reported
  waiting : ∀ p ∈ c'.pending.entries, p ∈ c.pending.entries
  results : ∀ r ∈ c'.publishing, r ∈ c.publishing ∨
    ∃ p ∈ c.pending.entries, ∃ reason now, r = p.2.result reason now
  size : c'.pending.size ≤ c.pending.size
  indexed : Indexed c.byCamera (· ∈ c.pending.keys) → Indexed c'.byCamera (· ∈ c'.pending.keys)

theorem Moves.refl (c : FrameCollector) : Moves c c :=
  ⟨.refl _, rfl, rfl, fun _ h => h, fun _ h => .inl h, Nat.le_refl _, id⟩

/-- The other counters may change with it. -/
theorem Moves.counted {complete incomplete evicted late rejected duplicates : Nat} (h : Moves c c') :
    Moves c { c' with
      complete := complete
      incomplete := incomplete
      evicted := evicted
      late := late
      rejected := rejected
      duplicates := duplicates } :=
  ⟨h.held, h.opened, h.reported, h.waiting, h.results, h.size, h.indexed⟩

theorem Moves.trans {c₁ c₂ c₃ : FrameCollector} (h : Moves c₁ c₂) (k : Moves c₂ c₃) : Moves c₁ c₃ where
  held := k.held.trans h.held
  opened := k.opened.trans h.opened
  reported := k.reported.trans h.reported
  waiting p hp := h.waiting p (k.waiting p hp)
  results r hr := by
    rcases k.results r hr with hr | ⟨p, hp, hres⟩
    · exact h.results r hr
    · exact .inr ⟨p, h.waiting p hp, hres⟩
  size := k.size.trans h.size
  indexed := k.indexed ∘ h.indexed

/-- A frame removed goes to the hands of the call that removed it. -/
theorem remove_moves {key : PendingKey} {f : PendingFrame} (h : c.remove key = some (f, c')) (reason : Reason)
    (now : Int) :
    Moves c { c' with publishing := c'.publishing ++ [f.result reason now] } ∧ c'.publishing = c.publishing ∧
      c'.pending.size + 1 = c.pending.size := by
  unfold remove at h
  split at h
  · cases h
  · rename_i g hg
    have hperm := Dict.entries_perm hg
    have hsize : (c.pending.erase key).size + 1 = c.pending.size := hperm.length_eq.symm
    rw [forgetCamera_eq] at h
    cases h
    refine ⟨⟨?_, rfl, rfl, fun p hp => (Dict.mem_erase_entries.mp hp).1, fun r hr => ?_, ?_, fun hi => ?_⟩, rfl, ?_⟩
    · have htickets := (hperm.map Prod.snd).map PendingFrame.ticket
      simp only [held, Dict.values, List.map_append, List.map_cons, List.map_nil] at htickets ⊢
      rw [← List.append_assoc]
      refine (List.perm_append_singleton _ _).trans ?_
      exact (htickets.symm.append_right _)
    · rcases List.mem_append.mp hr with hr | hr
      · exact .inl hr
      · exact .inr ⟨(key, f), Dict.get?_eq_some_iff.mp hg, reason, now, List.mem_singleton.mp hr⟩
    · show (c.pending.erase key).size ≤ c.pending.size
      omega
    · have hkey : key ∈ c.pending.keys := Dict.mem_keys_of_mem (Dict.get?_eq_some_iff.mp hg)
      exact (hi.forget (c := { c with pending := c.pending.erase key }) hkey).congr fun k => Dict.mem_keys_erase.symm
    · exact hsize

theorem seal_moves (c : FrameCollector) (key : PendingKey) (now : Int) : Moves c (c.seal key now) := by
  unfold FrameCollector.seal
  split
  · exact .refl c
  · rename_i f c' h
    exact (remove_moves h _ now).1

theorem removeAll_moves (reason : Reason) (now : Int) : ∀ (keys : List PendingKey) (c : FrameCollector),
    Moves c (removeAll reason now keys c)
  | [], c => .refl c
  | key :: keys, c => by
    unfold removeAll
    split
    · exact removeAll_moves reason now keys c
    · rename_i f c' h
      exact (remove_moves h reason now).1.trans (removeAll_moves reason now keys _)

theorem drain_moves (c : FrameCollector) (now : Int) : Moves c (c.drain now) where
  held := by
    simp only [held, drain, Dict.values, Dict.empty, List.map_nil, List.nil_append, List.map_append, List.map_map]
    exact List.perm_append_comm
  opened := rfl
  reported := rfl
  waiting _ hp := (List.not_mem_nil hp).elim
  results r hr := by
    rcases List.mem_append.mp hr with hr | hr
    · exact .inl hr
    · obtain ⟨f, hf, rfl⟩ := List.mem_map.mp hr
      obtain ⟨p, hp, rfl⟩ := List.mem_map.mp hf
      exact .inr ⟨p, hp, _, now, rfl⟩
  size := Nat.zero_le _
  indexed _ := indexed_empty.congr fun _ => ⟨False.elim, fun h => List.not_mem_nil h⟩

theorem evict_moves {cfg : Config} {now : Int} {r : FrameResult} (h : c.evict cfg now = some (r, c')) :
    Moves c { c' with publishing := c'.publishing ++ [r] } ∧ c'.pending.size + 1 = c.pending.size := by
  unfold evict at h
  split at h
  · cases h
  · split at h
    · cases h
    · rename_i f c₁ hrem
      cases h
      obtain ⟨hm, -, hsize⟩ := remove_moves hrem .evicted now
      exact ⟨hm.counted, hsize⟩

/-- Making room in a collector within its bound: it has room already, or nobody
leaves and the newcomer is turned away, or one frame leaves. -/
theorem makeRoom_cases (cfg : Config) (now : Int) (hb : c.pending.size ≤ cfg.capacity) :
    (∃ room, makeRoom cfg now c.pending.size c none = (room, c, none) ∧ (room = true → c.pending.size < cfg.capacity)) ∨
      ∃ r c', makeRoom cfg now c.pending.size c none = (true, c', some r) ∧ c'.pending.size < cfg.capacity ∧
        Moves c { c' with publishing := c'.publishing ++ [r] } := by
  cases hn : c.pending.size with
  | zero => exact .inl ⟨_, rfl, fun h => by simpa [hn] using h⟩
  | succ n =>
    unfold makeRoom
    by_cases hroom : c.pending.size < cfg.capacity
    · rw [if_pos hroom]
      exact .inl ⟨true, rfl, fun _ => hn ▸ hroom⟩
    · rw [if_neg hroom]
      cases he : c.evict cfg now with
      | none => exact .inl ⟨false, rfl, Bool.noConfusion⟩
      | some q =>
        obtain ⟨r, c'⟩ := q
        obtain ⟨hmoves, hsize⟩ := evict_moves he
        have hlt : c'.pending.size < cfg.capacity := by omega
        refine .inr ⟨r, c', ?_, hlt, hmoves⟩
        cases n with
        | zero => simp [makeRoom, hlt]
        | succ n => simp [makeRoom, hlt]

/-! ## One step -/

/-- The frames inside stay within the bound, and the index is theirs. -/
structure Keeps (cfg : Config) (c : FrameCollector) : Prop where
  bounded : c.pending.size ≤ cfg.capacity
  keyed : ∀ p ∈ c.pending.entries, p.2.state.key = p.1
  indexed : Indexed c.byCamera (· ∈ c.pending.keys)

theorem Keeps.moves {cfg : Config} (h : c.Keeps cfg) (hm : Moves c c') : c'.Keeps cfg :=
  ⟨hm.size.trans h.bounded, fun p hp => h.keyed p (hm.waiting p hp), hm.indexed h.indexed⟩

theorem Keeps.update {cfg : Config} (h : c.Keeps cfg) {key : PendingKey} {f g : PendingFrame}
    (hg : c.pending.get? key = some f) (hs : g.state = f.state) : { c with pending := c.pending.set key g }.Keeps cfg := by
  have hmem : key ∈ c.pending.keys := Dict.mem_keys_of_mem (Dict.get?_eq_some_iff.mp hg)
  have hkeys : ∀ k, k ∈ (c.pending.set key g).keys ↔ k ∈ c.pending.keys := by
    intro k
    rw [Dict.mem_keys_set]
    exact ⟨fun hk => hk.elim (fun e => e ▸ hmem) id, .inr⟩
  refine ⟨?_, fun p hp => ?_, h.indexed.congr fun k => (hkeys k).symm⟩
  · have hsize : (c.pending.set key g).keys.length = c.pending.keys.length := by rw [Dict.keys_set, if_pos hmem]
    rw [Dict.keys_length, Dict.keys_length] at hsize
    exact hsize ▸ h.bounded
  · rcases Dict.mem_set_entries.mp hp with rfl | ⟨hp, -⟩
    · dsimp only
      rw [hs]
      exact h.keyed (key, f) (Dict.get?_eq_some_iff.mp hg)
    · exact h.keyed p hp

theorem Keeps.insert {cfg : Config} (h : c.Keeps cfg) (hroom : c.pending.size < cfg.capacity) {f : PendingFrame}
    (hnew : f.state.key ∉ c.pending.keys) : (c.insert f).Keeps cfg := by
  refine ⟨?_, fun p hp => ?_, ?_⟩
  · have hsize : (c.pending.set f.state.key f).keys.length = c.pending.keys.length + 1 := by
      rw [Dict.keys_set, if_neg hnew, List.length_append, List.length_singleton]
    rw [Dict.keys_length, Dict.keys_length] at hsize
    show (c.pending.set f.state.key f).size ≤ cfg.capacity
    omega
  · rcases Dict.mem_set_entries.mp hp with rfl | ⟨hp, -⟩
    · rfl
    · exact h.keyed p hp
  · exact (h.indexed.add f.state.key).congr fun k => Dict.mem_keys_set.symm

end FrameCollector

/-! ## What the outputs tell -/

/-- The frame an output is about, before its emission. -/
def Output.about : Output → Option Nat
  | .opened t _ | .expected t _ | .delivered t _ => some t
  | .quiet | .emitted _ => none

theorem quiet_about (t : Nat) : Output.quiet.about ≠ some t := nofun

def openedBy (os : List Output) : List Nat :=
  os.filterMap fun
    | .opened t _ => some t
    | _ => none

def emittedBy (os : List Output) : List FrameResult :=
  os.filterMap fun
    | .emitted r => some r
    | _ => none

/-- The frame was to wait for the stage. -/
def asked (os : List Output) (t : Nat) (stage : String) : Prop :=
  ∃ stages, (.opened t stages ∈ os ∨ .expected t stages ∈ os) ∧ stage ∈ stages

/-- The stage's answer reached the frame. -/
def answered (os : List Output) (t : Nat) (stage : String) : Prop := .delivered t stage ∈ os

section
variable {os : List Output} {o : Output} {t : Nat} {stage : String}

theorem asked_append : asked (os ++ [o]) t stage ↔ asked os t stage ∨ asked [o] t stage := by
  unfold asked
  constructor
  · rintro ⟨stages, h, hs⟩
    simp only [List.mem_append] at h
    rcases h with (h | h) | (h | h)
    · exact .inl ⟨stages, .inl h, hs⟩
    · exact .inr ⟨stages, .inl h, hs⟩
    · exact .inl ⟨stages, .inr h, hs⟩
    · exact .inr ⟨stages, .inr h, hs⟩
  · rintro (⟨stages, h, hs⟩ | ⟨stages, h, hs⟩)
    · exact ⟨stages, h.imp (List.mem_append_left _) (List.mem_append_left _), hs⟩
    · exact ⟨stages, h.imp (List.mem_append_right _) (List.mem_append_right _), hs⟩

theorem answered_append : answered (os ++ [o]) t stage ↔ answered os t stage ∨ answered [o] t stage :=
  List.mem_append

theorem asked_about (h : asked [o] t stage) : o.about = some t := by
  obtain ⟨stages, h, -⟩ := h
  rcases h with h | h <;> rw [← List.mem_singleton.mp h] <;> rfl

theorem answered_about (h : answered [o] t stage) : o.about = some t := by
  rw [← List.mem_singleton.mp h]
  rfl

theorem asked_other (h : o.about ≠ some t) : asked (os ++ [o]) t stage ↔ asked os t stage := by
  rw [asked_append]
  exact ⟨fun ha => ha.resolve_right fun ha => h (asked_about ha), .inl⟩

theorem answered_other (h : o.about ≠ some t) : answered (os ++ [o]) t stage ↔ answered os t stage := by
  rw [answered_append]
  exact ⟨fun ha => ha.resolve_right fun ha => h (answered_about ha), .inl⟩

end

/-- A waiting frame has what it was asked to wait for and what answered. -/
def Waits (os : List Output) (f : PendingFrame) : Prop :=
  ∀ stage, (stage ∈ f.expected ↔ asked os f.ticket stage ∨ answered os f.ticket stage) ∧
    (stage ∈ f.delivered ↔ answered os f.ticket stage)

/-- A result misses what its frame was to wait for and what never answered. -/
def Tells (os : List Output) (r : FrameResult) : Prop :=
  ∀ stage, stage ∈ r.missing ↔ asked os r.ticket stage ∧ ¬ answered os r.ticket stage

theorem Waits.other {os : List Output} {o : Output} {f : PendingFrame} (h : Waits os f) (ho : o.about ≠ some f.ticket) :
    Waits (os ++ [o]) f := by
  intro stage
  rw [asked_other ho, answered_other ho]
  exact h stage

theorem Tells.other {os : List Output} {o : Output} {r : FrameResult} (h : Tells os r) (ho : o.about ≠ some r.ticket) :
    Tells (os ++ [o]) r := by
  intro stage
  rw [asked_other ho, answered_other ho]
  exact h stage

theorem Waits.result {os : List Output} {f : PendingFrame} (h : Waits os f) (reason : Reason) (now : Int) :
    Tells os (f.result reason now) := by
  intro stage
  show stage ∈ f.missing ↔ asked os f.ticket stage ∧ ¬ answered os f.ticket stage
  rw [PendingFrame.missing, List.mem_insertionSort, List.mem_filter, decide_eq_true_iff, (h stage).1, (h stage).2]
  exact and_congr_left fun hnot => or_iff_left hnot

namespace FrameCollector

/-! ## The run -/

structure Inv (cfg : Config) (os : List Output) (c : FrameCollector) : Prop where
  keeps : c.Keeps cfg
  opened : openedBy os = List.range c.opened
  reported : (emittedBy os).length = c.reported
  places : ((emittedBy os).map FrameResult.ticket ++ c.held).Perm (List.range c.opened)
  waiting : ∀ p ∈ c.pending.entries, Waits os p.2
  results : ∀ r ∈ emittedBy os ++ c.publishing, Tells os r
  fresh : ∀ t stage, c.opened ≤ t → ¬ asked os t stage ∧ ¬ answered os t stage

variable {cfg : Config} {os : List Output} {c c' : FrameCollector}

theorem Inv.moves (h : Inv cfg os c) (hm : Moves c c') : Inv cfg os c' where
  keeps := h.keeps.moves hm
  opened := by rw [h.opened, hm.opened]
  reported := by rw [h.reported, hm.reported]
  places := by
    rw [hm.opened]
    exact (hm.held.append_left _).trans h.places
  waiting p hp := h.waiting p (hm.waiting p hp)
  results r hr := by
    rcases List.mem_append.mp hr with hr | hr
    · exact h.results r (List.mem_append_left _ hr)
    · rcases hm.results r hr with hr | ⟨p, hp, reason, now, rfl⟩
      · exact h.results r (List.mem_append_right _ hr)
      · exact (h.waiting p hp).result reason now
  fresh := by
    rw [hm.opened]
    exact h.fresh

theorem Inv.quiet (h : Inv cfg os c) : Inv cfg (os ++ [Output.quiet]) c where
  keeps := h.keeps
  opened := by simpa [openedBy] using h.opened
  reported := by simpa [emittedBy] using h.reported
  places := by simpa [emittedBy] using h.places
  waiting p hp := (h.waiting p hp).other (quiet_about _)
  results r hr := by
    refine (h.results r ?_).other (quiet_about _)
    simpa [emittedBy] using hr
  fresh t stage ht := by
    rw [asked_other (quiet_about t), answered_other (quiet_about t)]
    exact h.fresh t stage ht

theorem Inv.nodup (h : Inv cfg os c) : ((emittedBy os).map FrameResult.ticket ++ c.held).Nodup :=
  h.places.nodup_iff.mpr List.nodup_range

theorem Inv.lt (h : Inv cfg os c) {t : Nat} (ht : t ∈ c.held) : t < c.opened :=
  List.mem_range.mp (h.places.subset (List.mem_append_right _ ht))

theorem mem_held {p : PendingKey × PendingFrame} (hp : p ∈ c.pending.entries) : p.2.ticket ∈ c.held :=
  List.mem_append_left _ (List.mem_map_of_mem (List.mem_map_of_mem hp))

/-- Frames that wait are told apart by their numbers. -/
theorem Inv.ticket_inj (h : Inv cfg os c) {p q : PendingKey × PendingFrame} (hp : p ∈ c.pending.entries)
    (hq : q ∈ c.pending.entries) (he : p.2.ticket = q.2.ticket) : p = q := by
  have hn : (c.pending.entries.map fun p => p.2.ticket).Nodup := by
    have := (List.nodup_append.mp (List.nodup_append.mp h.nodup).2.1).1
    rwa [Dict.values, List.map_map] at this
  exact List.inj_on_of_nodup_map hn hp hq he

theorem Inv.ticket_ne (h : Inv cfg os c) {p : PendingKey × PendingFrame} (hp : p ∈ c.pending.entries) {r : FrameResult}
    (hr : r ∈ emittedBy os ++ c.publishing) : p.2.ticket ≠ r.ticket := by
  have hticket : p.2.ticket ∈ c.pending.values.map PendingFrame.ticket :=
    List.mem_map_of_mem (List.mem_map_of_mem hp)
  obtain ⟨-, hheld, hdisj⟩ := List.nodup_append.mp h.nodup
  rcases List.mem_append.mp hr with hr | hr
  · exact fun e => hdisj _ (List.mem_map_of_mem hr) _ (mem_held hp) e.symm
  · exact (List.nodup_append.mp hheld).2.2 _ hticket _ (List.mem_map_of_mem hr)

/-- A waiting frame is told more: what it waits for or what answered. -/
theorem Inv.touch (h : Inv cfg os c) {key : PendingKey} {f g : PendingFrame} {o : Output}
    (hf : c.pending.get? key = some f) (hs : g.state = f.state) (ht : g.ticket = f.ticket)
    (ho : o.about = some f.ticket) (hopen : openedBy [o] = []) (hemit : emittedBy [o] = [])
    (hw : Waits (os ++ [o]) g) : Inv cfg (os ++ [o]) { c with pending := c.pending.set key g } := by
  have hmem := Dict.get?_eq_some_iff.mp hf
  have hother : ∀ t, t ≠ f.ticket → o.about ≠ some t := fun t hne he => hne (Option.some.inj (he.symm.trans ho))
  have hemitted : emittedBy (os ++ [o]) = emittedBy os := by
    rw [emittedBy, List.filterMap_append]
    exact (congrArg _ hemit).trans (List.append_nil _)
  refine ⟨h.keeps.update hf hs, ?_, ?_, ?_, fun p hp => ?_, fun r hr => ?_, fun t stage hlt => ?_⟩
  · rw [openedBy, List.filterMap_append]
    exact ((congrArg _ hopen).trans (List.append_nil _)).trans h.opened
  · rw [hemitted]
    exact h.reported
  · rw [hemitted]
    refine List.Perm.trans (.append_left _ (.append_right _ ?_)) h.places
    have hset := ((Dict.set_entries_perm c.pending key g).map Prod.snd).map PendingFrame.ticket
    have hold := ((Dict.entries_perm hf).map Prod.snd).map PendingFrame.ticket
    simp only [List.map_cons, ht] at hset
    exact hset.trans hold.symm
  · rcases Dict.mem_set_entries.mp hp with rfl | ⟨hp, hne⟩
    · exact hw
    · refine (h.waiting p hp).other (hother _ fun e => hne ?_)
      rw [h.ticket_inj hp hmem e]
  · rw [hemitted] at hr
    exact (h.results r hr).other (hother _ fun e => h.ticket_ne hmem hr e.symm)
  · have hne : t ≠ f.ticket := by
      have hheld : f.ticket < c.opened := h.lt (mem_held hmem)
      have hle : c.opened ≤ t := hlt
      omega
    rw [asked_other (hother t hne), answered_other (hother t hne)]
    exact h.fresh t stage hlt

theorem Inv.insert (h : Inv cfg os c) (hroom : c.pending.size < cfg.capacity) {f : PendingFrame} (stages : List String)
    (hnew : f.state.key ∉ c.pending.keys) (ht : f.ticket = c.opened) (hnone : f.expected = []) (hbare : f.delivered = []) :
    Inv cfg (os ++ [Output.opened c.opened stages]) (c.insert (f.expect stages)) := by
  have hemitted : emittedBy (os ++ [Output.opened c.opened stages]) = emittedBy os := by
    rw [emittedBy, List.filterMap_append]
    exact List.append_nil _
  have hpending : (c.insert (f.expect stages)).pending.entries = c.pending.entries ++ [(f.state.key, f.expect stages)] :=
    Dict.set_entries_of_new hnew
  have hother : ∀ t, t < c.opened → (Output.opened c.opened stages).about ≠ some t := by
    intro t hlt he
    have := Option.some.inj he
    omega
  refine ⟨h.keeps.insert hroom hnew, ?_, ?_, ?_, fun p hp => ?_, fun r hr => ?_, fun t stage hlt => ?_⟩
  · rw [openedBy, List.filterMap_append, ← openedBy, h.opened]
    exact List.range_succ.symm
  · rw [hemitted]
    exact h.reported
  · have hheld : (c.insert (f.expect stages)).held.Perm (c.held ++ [c.opened]) := by
      unfold held Dict.values
      rw [hpending, List.map_append, List.map_append, List.append_assoc]
      refine (List.Perm.append_left _ List.perm_append_comm).trans ?_
      rw [List.append_assoc, ← ht]
      exact .refl _
    rw [hemitted]
    refine (hheld.append_left _).trans ?_
    rw [← List.append_assoc]
    refine (h.places.append_right _).trans ?_
    exact .of_eq List.range_succ.symm
  · rw [hpending] at hp
    rcases List.mem_append.mp hp with hp | hp
    · exact (h.waiting p hp).other (hother _ (h.lt (mem_held hp)))
    · rw [List.mem_singleton.mp hp]
      intro stage
      obtain ⟨hnever, hquiet⟩ := h.fresh c.opened stage (Nat.le_refl _)
      have hasked : asked (os ++ [Output.opened c.opened stages]) c.opened stage ↔ stage ∈ stages := by
        rw [asked_append]
        refine ⟨fun ha => ?_, fun hs => .inr ⟨stages, .inl (List.mem_singleton.mpr rfl), hs⟩⟩
        obtain ⟨ss, hss, hs⟩ := ha.resolve_left hnever
        rcases hss with hss | hss
        · cases List.mem_singleton.mp hss
          exact hs
        · cases List.mem_singleton.mp hss
      have hanswered : ¬ answered (os ++ [Output.opened c.opened stages]) c.opened stage := by
        rw [answered_append]
        rintro (ha | ha)
        · exact hquiet ha
        · cases List.mem_singleton.mp ha
      have htick : (f.expect stages).ticket = c.opened := ht
      have hexp : (f.expect stages).expected = stages ∪ [] := by rw [PendingFrame.expect, hnone]
      have hdel : (f.expect stages).delivered = [] := hbare
      rw [htick, hexp, hdel, hasked]
      simp [hanswered]
  · rw [hemitted] at hr
    refine (h.results r hr).other (hother _ ?_)
    refine List.mem_range.mp (h.places.subset ?_)
    rcases List.mem_append.mp hr with hr | hr
    · exact List.mem_append_left _ (List.mem_map_of_mem hr)
    · exact List.mem_append_right _ (List.mem_append_right _ (List.mem_map_of_mem hr))
  · have hle : c.opened + 1 ≤ t := hlt
    have hne : (Output.opened c.opened stages).about ≠ some t := fun he => by
      have := Option.some.inj he
      omega
    rw [asked_other hne, answered_other hne]
    exact h.fresh t stage (by omega)

theorem Inv.open (h : Inv cfg os c) (state : FrameState) (expected : List String) (now evictNow : Int) :
    Inv cfg (os ++ [(c.open cfg state expected now evictNow).2]) (c.open cfg state expected now evictNow).1 := by
  unfold FrameCollector.open
  by_cases hdup : state.key ∈ c.pending.keys
  · rw [if_pos hdup]
    exact h.quiet.moves (Moves.refl c).counted
  · rw [if_neg hdup]
    rcases makeRoom_cases cfg evictNow h.keeps.bounded with ⟨room, heq, hroom⟩ | ⟨r, c', heq, hroom, hmoves⟩
    · rw [heq]
      cases room with
      | false => exact h.quiet.moves (Moves.refl c).counted
      | true =>
        dsimp only
        rw [Option.toList_none, List.append_nil]
        exact h.insert (hroom rfl) expected hdup rfl rfl rfl
    · rw [heq]
      have hnew : state.key ∉ c'.pending.keys := by
        intro hk
        obtain ⟨f, hf⟩ := Dict.exists_of_mem_keys hk
        exact hdup (Dict.mem_keys_of_mem (hmoves.waiting _ hf))
      exact (h.moves hmoves).insert hroom expected hnew rfl rfl rfl

theorem Inv.expect (h : Inv cfg os c) (key : PendingKey) (stages : List String) :
    Inv cfg (os ++ [(c.expect key stages).2]) (c.expect key stages).1 := by
  unfold FrameCollector.expect
  split
  · exact h.quiet
  · split
    · exact h.quiet
    · rename_i f hf
      refine h.touch hf rfl rfl rfl rfl rfl fun stage => ?_
      obtain ⟨hexp, hdel⟩ : (stage ∈ f.expected ↔ asked os f.ticket stage ∨ answered os f.ticket stage) ∧
          (stage ∈ f.delivered ↔ answered os f.ticket stage) :=
        h.waiting _ (Dict.get?_eq_some_iff.mp hf) stage
      have hasked : asked [.expected f.ticket stages] f.ticket stage ↔ stage ∈ stages := by
        refine ⟨?_, fun hs => ⟨stages, .inr (List.mem_singleton.mpr rfl), hs⟩⟩
        rintro ⟨ss, hss | hss, hs⟩
        · cases List.mem_singleton.mp hss
        · cases List.mem_singleton.mp hss
          exact hs
      have hanswered : ¬ answered [.expected f.ticket stages] f.ticket stage := fun ha => by
        cases List.mem_singleton.mp ha
      show (stage ∈ stages ∪ f.expected ↔ asked (os ++ [Output.expected f.ticket stages]) f.ticket stage ∨
          answered (os ++ [Output.expected f.ticket stages]) f.ticket stage) ∧
        (stage ∈ f.delivered ↔ answered (os ++ [Output.expected f.ticket stages]) f.ticket stage)
      rw [asked_append, answered_append, hasked, List.mem_union_iff, hexp, hdel, or_iff_left hanswered]
      exact ⟨or_left_comm.trans or_assoc.symm, Iff.rfl⟩

theorem Inv.deliver (h : Inv cfg os c) (key : PendingKey) (stage : String) :
    Inv cfg (os ++ [(c.deliver key stage).2]) (c.deliver key stage).1 := by
  unfold FrameCollector.deliver
  split
  · exact h.quiet.moves (Moves.refl c).counted
  · rename_i f hf
    refine h.touch hf rfl rfl rfl rfl rfl fun other => ?_
    obtain ⟨hexp, hdel⟩ : (other ∈ f.expected ↔ asked os f.ticket other ∨ answered os f.ticket other) ∧
        (other ∈ f.delivered ↔ answered os f.ticket other) :=
      h.waiting _ (Dict.get?_eq_some_iff.mp hf) other
    have hasked : ¬ asked [.delivered f.ticket stage] f.ticket other := by
      rintro ⟨ss, hss, -⟩
      rcases hss with hss | hss <;> cases List.mem_singleton.mp hss
    have hanswered : answered [.delivered f.ticket stage] f.ticket other ↔ other = stage := by
      rw [answered, List.mem_singleton, Output.delivered.injEq]
      exact ⟨And.right, fun e => ⟨rfl, e⟩⟩
    have hdelivered : other ∈ (f.deliver stage).delivered ↔ other ∈ f.delivered ∨ other = stage := by
      unfold PendingFrame.deliver
      dsimp only
      split
      · exact ⟨.inl, fun ho => ho.elim id fun e => e ▸ ‹_›⟩
      · simp
    show (other ∈ f.expected.insert stage ↔ asked (os ++ [Output.delivered f.ticket stage]) f.ticket other ∨
        answered (os ++ [Output.delivered f.ticket stage]) f.ticket other) ∧
      (other ∈ (f.deliver stage).delivered ↔ answered (os ++ [Output.delivered f.ticket stage]) f.ticket other)
    rw [hdelivered, asked_append, answered_append, hanswered, List.mem_insert_iff, hexp, hdel,
      or_iff_left hasked]
    exact ⟨or_comm.trans or_assoc, Iff.rfl⟩

theorem Inv.publish (h : Inv cfg os c) (i : Nat) : Inv cfg (os ++ [(c.publish i).2]) (c.publish i).1 := by
  unfold FrameCollector.publish
  split
  · exact h.quiet
  · rename_i r hr
    obtain ⟨hi, hri⟩ := List.getElem?_eq_some_iff.mp hr
    have hperm : c.publishing.Perm (r :: c.publishing.eraseIdx i) := by
      rw [← hri]
      exact (List.getElem_cons_eraseIdx_perm hi).symm
    have hemitted : emittedBy (os ++ [Output.emitted r]) = emittedBy os ++ [r] := List.filterMap_append
    have hopened : openedBy (os ++ [Output.emitted r]) = openedBy os := List.filterMap_append.trans (List.append_nil _)
    have habout : ∀ t, (Output.emitted r).about ≠ some t := fun t => nofun
    have key : Inv cfg (os ++ [Output.emitted r]) { c with publishing := c.publishing.eraseIdx i, reported := c.reported + 1 } := by
      refine ⟨⟨h.keeps.bounded, h.keeps.keyed, h.keeps.indexed⟩, hopened.trans h.opened, ?_, ?_, ?_, ?_, ?_⟩
      · rw [hemitted, List.length_append, h.reported]
        rfl
      · rw [hemitted, List.map_append, List.append_assoc]
        refine List.Perm.trans (.append_left _ ?_) h.places
        refine List.perm_append_comm.trans ?_
        show ((_ ++ _) ++ [r.ticket]).Perm (_ ++ _)
        rw [List.append_assoc]
        refine .append_left _ (List.perm_append_comm.trans ?_)
        exact (hperm.map FrameResult.ticket).symm
      · exact fun p hp => (h.waiting p hp).other (habout _)
      · intro q hq
        refine (h.results q ?_).other (habout _)
        rw [hemitted, List.append_assoc] at hq
        rcases List.mem_append.mp hq with hq | hq
        · exact List.mem_append_left _ hq
        · exact List.mem_append_right _ (hperm.symm.subset hq)
      · intro t stage ht
        rw [asked_other (habout t), answered_other (habout t)]
        exact h.fresh t stage ht
    dsimp only
    split
    · exact key.moves (Moves.refl _).counted
    · exact key.moves (Moves.refl _).counted

theorem Inv.step (h : Inv cfg os c) (e : Event) : Inv cfg (os ++ [(c.step cfg e).2]) (c.step cfg e).1 := by
  cases e with
  | «open» state expected now evictNow => exact h.open state expected now evictNow
  | expect key stages => exact h.expect key stages
  | deliver key stage => exact h.deliver key stage
  | «seal» key now => exact h.quiet.moves (seal_moves c key now)
  | sweep now => exact h.quiet.moves (removeAll_moves _ _ _ c)
  | drain now => exact h.quiet.moves (drain_moves c now)
  | publish i => exact h.publish i

theorem inv_empty (cfg : Config) : Inv cfg [] {} where
  keeps := ⟨Nat.zero_le _, fun _ hp => (List.not_mem_nil hp).elim,
    indexed_empty.congr fun _ => ⟨False.elim, fun h => List.not_mem_nil h⟩⟩
  opened := rfl
  reported := rfl
  places := .refl _
  waiting _ hp := (List.not_mem_nil hp).elim
  results _ hr := (List.not_mem_nil hr).elim
  fresh _ _ _ := ⟨fun ⟨_, h, _⟩ => h.elim List.not_mem_nil List.not_mem_nil, List.not_mem_nil⟩

theorem inv_run (cfg : Config) (events : List Event) : Inv cfg (run cfg events).2 (run cfg events).1 :=
  Machine.exec_induction (inv_empty cfg) (fun _ _ e h => h.step e) events

/-- **Conservation.** On every script, an opened frame is in exactly one place:
emitted once, in the hands of a call, or pending. The counters say so, the
pending frames stay within the capacity, the index is exactly theirs, and what
an emitted frame misses is what it was to wait for and never got. -/
theorem frames_conserved (cfg : Config) (events : List Event) :
    ((emittedBy (run cfg events).2).map FrameResult.ticket ++ (run cfg events).1.held).Perm (openedBy (run cfg events).2) ∧
      (openedBy (run cfg events).2).Nodup ∧
      (openedBy (run cfg events).2).length = (run cfg events).1.opened ∧
      (emittedBy (run cfg events).2).length = (run cfg events).1.reported ∧
      (run cfg events).1.opened =
        (run cfg events).1.reported + (run cfg events).1.pending.size + (run cfg events).1.publishing.length ∧
      (run cfg events).1.pending.size ≤ cfg.capacity ∧
      (∀ camera key, (∃ keys, (run cfg events).1.byCamera.get? camera = some keys ∧ key ∈ keys.keys) ↔
        key ∈ (run cfg events).1.pending.keys ∧ key.1 = camera) ∧
      (∀ camera keys, (run cfg events).1.byCamera.get? camera = some keys → keys.keys ≠ []) ∧
      ∀ r ∈ emittedBy (run cfg events).2, ∀ stage,
        stage ∈ r.missing ↔ asked (run cfg events).2 r.ticket stage ∧ ¬ answered (run cfg events).2 r.ticket stage := by
  have h := inv_run cfg events
  generalize run cfg events = r at h ⊢
  obtain ⟨c, os⟩ := r
  dsimp only at h ⊢
  refine ⟨h.opened ▸ h.places, h.opened ▸ List.nodup_range, by rw [h.opened, List.length_range], h.reported, ?_,
    h.keeps.bounded, fun camera key => ?_, fun camera keys hg => ?_, fun r hr => h.results r (List.mem_append_left _ hr)⟩
  · have hlen := h.places.length_eq
    simp only [held, Dict.values, List.length_append, List.length_map, List.length_range, h.reported] at hlen
    have hsize : c.pending.size = c.pending.entries.length := rfl
    omega
  · constructor
    · rintro ⟨keys, hg, hk⟩
      have hown := h.keeps.indexed.own _ (Dict.get?_eq_some_iff.mp hg) key hk
      exact ⟨hown.2, hown.1⟩
    · rintro ⟨hk, rfl⟩
      exact h.keeps.indexed.all key hk
  · intro hnil
    exact h.keeps.indexed.nonempty _ (Dict.get?_eq_some_iff.mp hg) (List.map_eq_nil_iff.mp hnil)

end FrameCollector

end ShipInfer.Reassembly
