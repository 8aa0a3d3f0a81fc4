import ShipInfer.Reassembly.Conservation

/-!
# Keys of the frames inside the collector

The keys of the frames that wait and of the results not yet emitted, and what each call
of the collector does to them.
-/

namespace ShipInfer.Reassembly.FrameCollector

/-- The keys of the frames inside, waiting or in hand. -/
def inside (c : FrameCollector) : List PendingKey := c.pending.keys ++ c.publishing.map fun r => r.state.key

theorem inside_counts (c : FrameCollector) (key : PendingKey) :
    c.inside.count key = c.pending.keys.count key + (c.publishing.map fun r => r.state.key).count key := by
  rw [inside, List.count_append]

variable {cfg : Config} {c c' : FrameCollector} {key : PendingKey} {f : PendingFrame}

theorem remove_keys (hk : c.Keeps cfg) (h : c.remove key = some (f, c')) :
    c.pending.keys.Perm (key :: c'.pending.keys) ∧ f.state.key = key := by
  unfold remove at h
  split at h
  · cases h
  next hget =>
    rw [forgetCamera_eq] at h
    cases h
    exact ⟨(Dict.entries_perm hget).map Prod.fst, hk.keyed _ (Dict.get?_eq_some_iff.mp hget)⟩

theorem remove_inside (hk : c.Keeps cfg) (h : c.remove key = some (f, c')) (reason : Reason) (now : Int) :
    { c' with publishing := c'.publishing ++ [f.result reason now] }.inside.Perm c.inside := by
  obtain ⟨hkeys, hkey⟩ := remove_keys hk h
  have hpub := (remove_moves h reason now).2.1
  unfold inside
  dsimp only
  rw [hpub, List.map_append, List.map_singleton, show (f.result reason now).state.key = key from hkey, ← List.append_assoc]
  refine (List.perm_append_singleton _ _).trans ?_
  exact (hkeys.symm.append_right _)

theorem seal_inside (hk : c.Keeps cfg) (key : PendingKey) (now : Int) : (c.seal key now).inside.Perm c.inside := by
  unfold FrameCollector.seal
  split
  · exact .refl _
  next h => exact remove_inside hk h _ now

theorem removeAll_inside (reason : Reason) (now : Int) : ∀ (keys : List PendingKey) {c : FrameCollector}, c.Keeps cfg →
    (removeAll reason now keys c).inside.Perm c.inside
  | [], _, _ => .refl _
  | key :: keys, c, hk => by
    unfold removeAll
    split
    · exact removeAll_inside reason now keys hk
    next h =>
      have hmoves := (remove_moves h reason now).1
      exact (removeAll_inside reason now keys (hk.moves hmoves)).trans (remove_inside hk h reason now)

theorem drain_inside (hk : c.Keeps cfg) (now : Int) : (c.drain now).inside.Perm c.inside := by
  have hkeys : c.pending.values.map (fun f => f.state.key) = c.pending.keys := by
    unfold Dict.values Dict.keys
    rw [List.map_map]
    exact List.map_congr_left fun p hp => hk.keyed p hp
  unfold inside FrameCollector.drain
  dsimp only
  rw [List.map_append, List.map_map, show ((fun r : FrameResult => r.state.key) ∘ fun f : PendingFrame => f.result .shutdown now) =
    fun f => f.state.key from rfl, hkeys]
  show ([] ++ (_ ++ _)).Perm _
  rw [List.nil_append]
  exact List.perm_append_comm

theorem evict_inside (hk : c.Keeps cfg) {now : Int} {r : FrameResult} (h : c.evict cfg now = some (r, c')) :
    c.pending.keys.Perm (r.state.key :: c'.pending.keys) ∧ c'.publishing = c.publishing := by
  unfold evict at h
  split at h
  · cases h
  · split at h
    · cases h
    next f c₁ hrem =>
      cases h
      obtain ⟨hkeys, hkey⟩ := remove_keys hk hrem
      refine ⟨?_, (remove_moves hrem .evicted now).2.1⟩
      rw [show (f.result .evicted now).state.key = _ from hkey]
      exact hkeys

/-- Making room in a collector within its bound: the frames that stay, and the one that leaves. -/
theorem makeRoom_inside (hk : c.Keeps cfg) (now : Int) {room : Bool} {victim : Option FrameResult}
    (h : makeRoom cfg now c.pending.size c none = (room, c', victim)) :
    c.pending.keys.Perm (victim.toList.map (fun r => r.state.key) ++ c'.pending.keys) ∧ c'.publishing = c.publishing ∧
      (room = false → victim = none) := by
  cases hn : c.pending.size with
  | zero =>
    rw [hn] at h
    cases h
    exact ⟨.refl _, rfl, fun _ => rfl⟩
  | succ n =>
    rw [hn, makeRoom] at h
    split at h
    · cases h
      exact ⟨.refl _, rfl, fun _ => rfl⟩
    · cases he : c.evict cfg now with
      | none =>
        rw [he] at h
        cases h
        exact ⟨.refl _, rfl, fun _ => rfl⟩
      | some q =>
        obtain ⟨r, c₁⟩ := q
        rw [he] at h
        dsimp only at h
        obtain ⟨hkeys, hpub⟩ := evict_inside hk he
        have hsize := (evict_moves he).2
        have hlt : c₁.pending.size < cfg.capacity := by
          have hbound := hk.bounded
          omega
        have hmake : makeRoom cfg now n c₁ (some r) = (true, c₁, some r) := by
          cases n with
          | zero => simp [makeRoom, hlt]
          | succ n => simp [makeRoom, hlt]
        rw [hmake] at h
        cases h
        refine ⟨hkeys, hpub, ?_⟩
        intro hroom
        cases hroom

/-- The state of every result in hand after a call is that of one before it, or of a pending frame. -/
def Tracks (c c' : FrameCollector) : Prop :=
  ∀ r ∈ c'.publishing, r ∈ c.publishing ∨ ∃ p ∈ c.pending.entries, r.state = p.2.state

theorem Moves.tracks (h : Moves c c') : c.Tracks c' := by
  intro r hr
  cases h.results r hr with
  | inl hr => exact .inl hr
  | inr hp =>
    obtain ⟨p, hp, reason, now, rfl⟩ := hp
    exact .inr ⟨p, hp, rfl⟩

/-- What an opening leaves. -/
structure Opens (cfg : Config) (state : FrameState) (c c' : FrameCollector) (isOpened : Bool) : Prop where
  keeps : c'.Keeps cfg
  pending : ∀ p ∈ c'.pending.entries, p ∈ c.pending.entries ∨ p.2.state = state
  tracks : c.Tracks c'
  inside : c'.inside.Perm (if isOpened then state.key :: c.inside else c.inside)

theorem insert_opens {f : PendingFrame} {pub : List FrameResult} (hk : c'.Keeps cfg) (hroom : c'.pending.size < cfg.capacity)
    (hnew : f.state.key ∉ c'.pending.keys) (hwaiting : ∀ p ∈ c'.pending.entries, p ∈ c.pending.entries)
    (hpub : ∀ r ∈ pub, r ∈ c.publishing ∨ ∃ p ∈ c.pending.entries, r.state = p.2.state)
    (hinside : (c'.pending.keys ++ pub.map fun r => r.state.key).Perm c.inside) :
    Opens cfg f.state c { c'.insert f with publishing := pub } true where
  keeps := ⟨(hk.insert hroom hnew).bounded, (hk.insert hroom hnew).keyed, (hk.insert hroom hnew).indexed⟩
  pending p hp := by
    cases Dict.mem_set_entries.mp hp with
    | inl he => exact .inr (he ▸ rfl)
    | inr hp => exact .inl (hwaiting p hp.1)
  tracks := hpub
  inside := by
    have hkeys : (c'.insert f).pending.keys = c'.pending.keys ++ [f.state.key] := by
      show (c'.pending.set f.state.key f).keys = _
      rw [Dict.keys_set, if_neg hnew]
    show ((c'.insert f).pending.keys ++ pub.map fun r => r.state.key).Perm (f.state.key :: c.inside)
    rw [hkeys, List.append_assoc, List.singleton_append]
    exact List.perm_middle.trans (.cons _ hinside)

theorem open_opens (hk : c.Keeps cfg) (state : FrameState) (expected : List String) (now evictNow : Int) :
    Opens cfg state c (c.open cfg state expected now evictNow).1 (c.open cfg state expected now evictNow).2.isOpened := by
  have hsame : ∀ rejected duplicates : Nat,
      Opens cfg state c { c with rejected := rejected, duplicates := duplicates } false := fun _ _ =>
    ⟨⟨hk.bounded, hk.keyed, hk.indexed⟩, fun p hp => .inl hp, fun r hr => .inl hr, .refl _⟩
  let frame (ticket : Nat) : PendingFrame :=
    PendingFrame.expect { ticket := ticket, state := state, openedNs := now, deadlineNs := deadline cfg state now } expected
  unfold FrameCollector.open
  by_cases hnew : state.key ∈ c.pending.keys
  · rw [if_pos hnew]
    exact hsame _ _
  · rw [if_neg hnew]
    cases makeRoom_cases cfg evictNow hk.bounded with
    | inl hnone =>
      obtain ⟨room, hmake, hroom⟩ := hnone
      rw [hmake]
      cases room with
      | false => exact hsame _ _
      | true =>
        refine insert_opens (f := frame c.opened) hk (hroom rfl) hnew (fun p hp => hp) (fun r hr => .inl ?_) ?_
        · simpa using hr
        · simp only [Option.toList_none, List.append_nil]
          exact .refl _
    | inr hsome =>
      obtain ⟨r, c', hmake, hroom, hmoves⟩ := hsome
      obtain ⟨hkeys, hpub, -⟩ := makeRoom_inside hk evictNow hmake
      have hk' := hk.moves hmoves
      have hwaiting : ∀ p ∈ c'.pending.entries, p ∈ c.pending.entries := hmoves.waiting
      have hgone : state.key ∉ c'.pending.keys := by
        intro hin
        obtain ⟨f, hf⟩ := Dict.exists_of_mem_keys hin
        exact hnew (Dict.mem_keys_of_mem (hwaiting _ hf))
      rw [hmake]
      have hkeeps : c'.Keeps cfg := ⟨hk'.bounded, hk'.keyed, hk'.indexed⟩
      refine insert_opens (f := frame c'.opened) hkeeps hroom hgone hwaiting
        (fun q hq => hmoves.tracks q hq) ?_
      rw [hpub, Option.toList_some, List.map_append, List.map_singleton, ← List.append_assoc]
      refine (List.perm_append_singleton _ _).trans ?_
      exact hkeys.symm.append_right _

/-- The same frames are inside, some told more. -/
structure Touches (cfg : Config) (c c' : FrameCollector) : Prop where
  keeps : c'.Keeps cfg
  publishing : c'.publishing = c.publishing
  keys : c'.pending.keys = c.pending.keys
  states : ∀ p ∈ c'.pending.entries, ∃ q ∈ c.pending.entries, p.2.state = q.2.state

theorem Keeps.touches (hk : c.Keeps cfg) {g : PendingFrame} (hget : c.pending.get? key = some f) (hs : g.state = f.state) :
    Touches cfg c { c with pending := c.pending.set key g } where
  keeps := hk.update hget hs
  publishing := rfl
  keys := by
    have hmem : key ∈ c.pending.keys := Dict.mem_keys_of_mem (Dict.get?_eq_some_iff.mp hget)
    show (c.pending.set key g).keys = _
    rw [Dict.keys_set, if_pos hmem]
  states p hp := by
    cases Dict.mem_set_entries.mp hp with
    | inl he => exact ⟨(key, f), Dict.get?_eq_some_iff.mp hget, he ▸ hs⟩
    | inr hp => exact ⟨p, hp.1, rfl⟩

theorem expect_touches (hk : c.Keeps cfg) (key : PendingKey) (stages : List String) : Touches cfg c (c.expect key stages).1 := by
  unfold FrameCollector.expect
  split
  · exact ⟨hk, rfl, rfl, fun p hp => ⟨p, hp, rfl⟩⟩
  · split
    · exact ⟨hk, rfl, rfl, fun p hp => ⟨p, hp, rfl⟩⟩
    next hget => exact hk.touches hget rfl

theorem deliver_touches (hk : c.Keeps cfg) (key : PendingKey) (stage : String) : Touches cfg c (c.deliver key stage).1 := by
  unfold FrameCollector.deliver
  split
  · exact ⟨⟨hk.bounded, hk.keyed, hk.indexed⟩, rfl, rfl, fun p hp => ⟨p, hp, rfl⟩⟩
  next hget => exact hk.touches hget rfl

end ShipInfer.Reassembly.FrameCollector
