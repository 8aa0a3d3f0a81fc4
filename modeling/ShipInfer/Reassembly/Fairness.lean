import Mathlib.Algebra.Order.BigOperators.Group.Finset
import ShipInfer.Reassembly.Conservation

/-!
# Who loses a slot

The index keeps a camera's keys as they came (`Ordered`), so the policy's two questions have the
answers they should: how many frames a camera has waiting, and which of them came first. The rest
is counting: a camera below the average is not the greediest.
-/

namespace ShipInfer.Reassembly

namespace FrameCollector

variable {c c' : FrameCollector}

/-- A camera's keys among the pending ones, in order of arrival. -/
def keysOf (c : FrameCollector) (camera : String) : List PendingKey :=
  c.pending.keys.filter fun key => decide (key.1 = camera)

/-- How many frames of a camera are pending. -/
def waiting (c : FrameCollector) (camera : String) : Nat := (c.keysOf camera).length

/-- How many cameras have frames pending. -/
def cameras (c : FrameCollector) : Nat := (c.pending.keys.map Prod.fst).toFinset.card

/-- The index lists each camera's keys as the pending ones do, and these are in order of opening. -/
structure Ordered (c : FrameCollector) : Prop where
  lists : ∀ camera, ((c.byCamera.get? camera).getD .empty).keys = c.keysOf camera
  kept : ∀ camera keys, c.byCamera.get? camera = some keys → keys.entries ≠ []
  inOrder : (c.pending.values.map PendingFrame.ticket).Pairwise (· < ·)
  issued : ∀ f ∈ c.pending.values, f.ticket < c.opened

theorem Ordered.congr (h : c.Ordered) (hp : c'.pending = c.pending) (hb : c'.byCamera = c.byCamera)
    (ho : c'.opened = c.opened) : c'.Ordered := by
  refine ⟨fun camera => ?_, fun camera keys hk => ?_, ?_, fun f hf => ?_⟩
  · unfold keysOf
    rw [hb, hp]
    exact h.lists camera
  · rw [hb] at hk
    exact h.kept camera keys hk
  · rw [hp]
    exact h.inOrder
  · rw [hp] at hf
    rw [ho]
    exact h.issued f hf

theorem ordered_empty (hp : c.pending = .empty) (hb : c.byCamera = .empty) : c.Ordered := by
  refine ⟨fun camera => ?_, fun camera keys hk => ?_, ?_, fun f hf => ?_⟩
  · unfold keysOf
    rw [hp, hb]
    rfl
  · rw [hb] at hk
    cases hk
  · rw [hp]
    exact List.Pairwise.nil
  · rw [hp] at hf
    cases hf

/-! ## Each write keeps the order -/

theorem keys_erase {κ ν : Type*} [DecidableEq κ] (d : Dict κ ν) (k : κ) :
    (d.erase k).keys = d.keys.filter fun a => decide (a ≠ k) := by
  unfold Dict.keys Dict.erase
  rw [Dict.entries_filter, List.filter_map]
  rfl

theorem Ordered.remove (h : c.Ordered) {key : PendingKey} {f : PendingFrame} (hr : c.remove key = some (f, c')) :
    c'.Ordered := by
  unfold FrameCollector.remove at hr
  split at hr
  · cases hr
  rw [forgetCamera_eq] at hr
  cases hr
  have hkeys : ∀ camera, ({ c with pending := c.pending.erase key } : FrameCollector).keysOf camera =
      (c.keysOf camera).filter fun a => decide (a ≠ key) := by
    intro camera
    unfold keysOf
    rw [keys_erase, List.filter_comm]
  have hother : ∀ camera, camera ≠ key.1 → (c.keysOf camera).filter (fun a => decide (a ≠ key)) = c.keysOf camera := by
    intro camera hne
    rw [List.filter_eq_self]
    intro a ha
    have hcam := of_decide_eq_true (List.mem_filter.mp ha).2
    exact decide_eq_true fun he => hne (by rw [← hcam, he])
  have hsub : (c.pending.erase key).values.Sublist c.pending.values := by
    unfold Dict.values Dict.erase
    rw [Dict.entries_filter]
    exact List.filter_sublist.map Prod.snd
  refine ⟨fun camera => ?_, fun camera keys hk => ?_, ?_, fun g hg => ?_⟩
  · refine Eq.trans ?_ (hkeys camera).symm
    rw [← h.lists camera]
    dsimp only
    unfold forgetCamera
    by_cases hcam : camera = key.1
    · subst hcam
      dsimp only
      cases hget : c.byCamera.get? key.1 with
      | none =>
        dsimp only
        rw [hget]
        rfl
      | some keys =>
        dsimp only
        split
        · rename_i hempty
          have hnil : (keys.erase key).keys = [] := by
            unfold Dict.keys
            rw [hempty]
            rfl
          rw [Dict.get?_erase, if_pos rfl, Option.getD_some, ← keys_erase, hnil]
          rfl
        · rw [Dict.get?_set_self, Option.getD_some, Option.getD_some, keys_erase]
    · rw [h.lists camera, hother camera hcam, ← h.lists camera]
      dsimp only
      split
      · rfl
      · split
        · rw [Dict.get?_erase, if_neg hcam]
        · rw [Dict.get?_set_ne hcam]
  · dsimp only at hk
    unfold forgetCamera at hk
    dsimp only at hk
    split at hk
    · exact h.kept camera keys hk
    · split at hk
      · dsimp only at hk
        rw [Dict.get?_erase] at hk
        split at hk
        · cases hk
        · exact h.kept camera keys hk
      · rename_i hne
        dsimp only at hk
        rw [Dict.get?_set] at hk
        split at hk
        · cases hk
          exact hne
        · exact h.kept camera keys hk
  · exact h.inOrder.sublist (hsub.map _)
  · exact h.issued g (hsub.subset hg)

/-- A pending frame written over: the same key, the same opening. -/
theorem Ordered.update (h : c.Ordered) {key : PendingKey} {f g : PendingFrame} (hg : c.pending.get? key = some f)
    (ht : g.ticket = f.ticket) : ({ c with pending := c.pending.set key g } : FrameCollector).Ordered := by
  have hmem : key ∈ c.pending.keys := Dict.mem_keys_of_mem (Dict.get?_eq_some_iff.mp hg)
  have hkeys : (c.pending.set key g).keys = c.pending.keys := by rw [Dict.keys_set, if_pos hmem]
  have htickets : (c.pending.set key g).values.map PendingFrame.ticket = c.pending.values.map PendingFrame.ticket := by
    have hentries : ∀ l : List (PendingKey × PendingFrame), (∀ p ∈ l, p.1 = key → p.2.ticket = f.ticket) →
        key ∈ l.map Prod.fst →
        ((Dict.setEntries l key g).map Prod.snd).map PendingFrame.ticket =
          (l.map Prod.snd).map PendingFrame.ticket := by
      intro l
      induction l with
      | nil =>
        intro _ hin
        cases hin
      | cons p l ih =>
        intro hall hin
        obtain ⟨k, w⟩ := p
        unfold Dict.setEntries
        by_cases hp : key = k
        · have hfirst : w.ticket = f.ticket := hall (k, w) List.mem_cons_self hp.symm
          simp only [if_pos hp, List.map_cons, ht, hfirst]
        · have hrest := ih (fun q hq => hall q (List.mem_cons_of_mem _ hq)) ((List.mem_cons.mp hin).resolve_left hp)
          simp only [if_neg hp, List.map_cons, hrest]
    refine hentries c.pending.entries (fun p hp hpk => ?_) hmem
    have hone := Dict.entry_unique (show (key, p.2) ∈ c.pending.entries by rw [← hpk]; exact hp)
      (Dict.get?_eq_some_iff.mp hg)
    rw [hone]
  refine ⟨fun camera => ?_, h.kept, ?_, fun f' hf' => ?_⟩
  · unfold keysOf
    dsimp only
    rw [hkeys]
    exact h.lists camera
  · dsimp only
    rw [htickets]
    exact h.inOrder
  · have hin := List.mem_map_of_mem (f := PendingFrame.ticket) hf'
    rw [htickets] at hin
    obtain ⟨f₀, hf₀, he⟩ := List.mem_map.mp hin
    rw [← he]
    exact h.issued f₀ hf₀

theorem Ordered.insert (h : c.Ordered) {f : PendingFrame} (hnew : f.state.key ∉ c.pending.keys)
    (ht : f.ticket = c.opened) : (c.insert f).Ordered := by
  have hkeys : (c.pending.set f.state.key f).keys = c.pending.keys ++ [f.state.key] := by
    rw [Dict.keys_set, if_neg hnew]
  have hvalues : (c.pending.set f.state.key f).values = c.pending.values ++ [f] := by
    unfold Dict.values
    rw [Dict.set_entries_of_new hnew, List.map_append]
    rfl
  have hunlisted : f.state.key ∉ ((c.byCamera.get? f.state.context.cameraId).getD .empty).keys := by
    rw [h.lists]
    exact fun hm => hnew (List.mem_of_mem_filter hm)
  refine ⟨fun camera => ?_, fun camera keys hk => ?_, ?_, fun g hg => ?_⟩
  · unfold keysOf FrameCollector.insert
    dsimp only
    rw [hkeys, List.filter_append, Dict.get?_set]
    by_cases hcam : camera = f.state.context.cameraId
    · have hlast : [f.state.key].filter (fun key => decide (key.1 = camera)) = [f.state.key] := by
        refine List.filter_eq_self.mpr fun a ha => ?_
        rw [List.mem_singleton.mp ha]
        exact decide_eq_true hcam.symm
      rw [if_pos hcam, Option.getD_some, Dict.keys_set, if_neg hunlisted, hlast, h.lists, hcam]
      rfl
    · have hlast : [f.state.key].filter (fun key => decide (key.1 = camera)) = [] := by
        refine List.filter_eq_nil_iff.mpr fun a ha => ?_
        rw [List.mem_singleton.mp ha, decide_eq_true_eq]
        exact fun he => hcam he.symm
      rw [if_neg hcam, hlast, List.append_nil]
      exact h.lists camera
  · unfold FrameCollector.insert at hk
    dsimp only at hk
    rw [Dict.get?_set] at hk
    split at hk
    · cases hk
      exact List.ne_nil_of_mem (Dict.mem_set_entries.mpr (.inl rfl))
    · exact h.kept camera keys hk
  · unfold FrameCollector.insert
    dsimp only
    rw [hvalues, List.map_append, List.map_singleton]
    refine List.pairwise_append.mpr ⟨h.inOrder, List.pairwise_singleton _ _, fun a ha b hb => ?_⟩
    obtain ⟨g, hg, rfl⟩ := List.mem_map.mp ha
    rw [List.mem_singleton.mp hb, ht]
    exact h.issued g hg
  · unfold FrameCollector.insert at hg ⊢
    dsimp only at hg ⊢
    rw [hvalues] at hg
    rcases List.mem_append.mp hg with hg | hg
    · exact Nat.lt_succ_of_lt (h.issued g hg)
    · rw [List.mem_singleton.mp hg, ht]
      exact Nat.lt_succ_self _

theorem Ordered.removeAll (reason : Reason) (now : Int) : ∀ (keys : List PendingKey) {c : FrameCollector}, c.Ordered →
    (removeAll reason now keys c).Ordered
  | [], _, h => h
  | key :: keys, c, h => by
    unfold FrameCollector.removeAll
    cases hr : c.remove key with
    | none => exact Ordered.removeAll reason now keys h
    | some q =>
      obtain ⟨f, c₁⟩ := q
      exact Ordered.removeAll reason now keys ((h.remove hr).congr rfl rfl rfl)

theorem Ordered.evict {cfg : Config} (h : c.Ordered) {now : Int} {r : FrameResult}
    (he : c.evict cfg now = some (r, c')) : c'.Ordered := by
  unfold FrameCollector.evict at he
  split at he
  · cases he
  · split at he
    · cases he
    · rename_i f c₁ hr
      cases he
      exact (h.remove hr).congr rfl rfl rfl

theorem Ordered.makeRoom {cfg : Config} (now : Int) : ∀ (n : Nat) {c : FrameCollector} (victim : Option FrameResult),
    c.Ordered → (makeRoom cfg now n c victim).2.1.Ordered
  | 0, _, _, h => h
  | n + 1, c, victim, h => by
    unfold FrameCollector.makeRoom
    split
    · exact h
    · cases he : c.evict cfg now with
      | none => exact h
      | some q =>
        obtain ⟨r, c₁⟩ := q
        exact Ordered.makeRoom now n (some r) (h.evict he)

theorem Ordered.step {cfg : Config} (hk : c.Keeps cfg) (h : c.Ordered) (e : Event) : (c.step cfg e).1.Ordered := by
  cases e with
  | «open» state expected now evictNow =>
    show (c.open cfg state expected now evictNow).1.Ordered
    have hroom : (FrameCollector.makeRoom cfg evictNow c.pending.size c none).2.1.Ordered := h.makeRoom evictNow _ none
    let frame (ticket : Nat) : PendingFrame :=
      PendingFrame.expect { ticket := ticket, state := state, openedNs := now, deadlineNs := deadline cfg state now }
        expected
    unfold FrameCollector.open
    split
    · exact h.congr rfl rfl rfl
    · rename_i hnew
      rcases makeRoom_cases cfg evictNow hk.bounded with ⟨room, hmake, -⟩ | ⟨r, c₁, hmake, -, hmoves⟩
      · rw [hmake]
        cases room with
        | false => exact h.congr rfl rfl rfl
        | true =>
          exact Ordered.congr (h.insert (f := frame c.opened) hnew rfl) rfl rfl rfl
      · rw [hmake] at hroom ⊢
        have hgone : state.key ∉ c₁.pending.keys := by
          intro hin
          obtain ⟨f, hf⟩ := Dict.exists_of_mem_keys hin
          exact hnew (Dict.mem_keys_of_mem (hmoves.waiting _ hf))
        exact Ordered.congr (Ordered.insert (f := frame c₁.opened) hroom hgone rfl) rfl rfl rfl
  | expect key stages =>
    show (c.expect key stages).1.Ordered
    unfold FrameCollector.expect
    split
    · exact h
    · split
      · exact h
      · rename_i f hg
        exact h.update hg rfl
  | deliver key stage =>
    show (c.deliver key stage).1.Ordered
    unfold FrameCollector.deliver
    split
    · exact h.congr rfl rfl rfl
    · rename_i f hg
      exact h.update hg rfl
  | «seal» key now =>
    show (c.seal key now).Ordered
    unfold FrameCollector.seal
    cases hr : c.remove key with
    | none => exact h
    | some q =>
      obtain ⟨f, c₁⟩ := q
      exact (h.remove hr).congr rfl rfl rfl
  | sweep now => exact h.removeAll .timeout now _
  | drain now => exact ordered_empty rfl rfl
  | publish i =>
    show (c.publish i).1.Ordered
    unfold FrameCollector.publish
    split
    · exact h
    · split <;> exact h.congr rfl rfl rfl

theorem ordered_run (cfg : Config) (events : List Event) :
    (run cfg events).1.Keeps cfg ∧ (run cfg events).1.Ordered := by
  refine Machine.exec_induction (I := fun os c => Inv cfg os c ∧ c.Ordered) ⟨inv_empty cfg, ordered_empty rfl rfl⟩
    (fun os c e h => ⟨h.1.step e, ?_⟩) events |>.imp_left fun h => h.keeps
  exact Ordered.step h.1.keeps h.2 e

/-! ## The choice -/

theorem greediest_max : ∀ {l : List (String × Nat)} {p : String × Nat}, greediest l = some p →
    p ∈ l ∧ ∀ q ∈ l, q.2 ≤ p.2
  | [], _, h => by cases h
  | q :: l, p, h => by
    unfold greediest at h
    cases hl : greediest l with
    | none =>
      rw [hl] at h
      cases h
      have hnil : l = [] := by
        cases l with
        | nil => rfl
        | cons q' l' =>
          unfold greediest at hl
          split at hl
          · cases hl
          · split at hl <;> cases hl
      subst hnil
      exact ⟨List.mem_cons_self, fun q' hq' => by rw [List.mem_singleton.mp hq']⟩
    | some m =>
      rw [hl] at h
      obtain ⟨hm, hmax⟩ := greediest_max hl
      dsimp only at h
      split at h
      · rename_i hbeats
        cases h
        have hle : m.2 ≤ q.2 := by
          rcases hbeats with hlt | ⟨heq, -⟩ <;> omega
        refine ⟨List.mem_cons_self, fun q' hq' => ?_⟩
        rcases List.mem_cons.mp hq' with rfl | hq'
        · exact Nat.le_refl _
        · exact (hmax q' hq').trans hle
      · rename_i hloses
        cases h
        refine ⟨List.mem_cons_of_mem _ hm, fun q' hq' => ?_⟩
        rcases List.mem_cons.mp hq' with rfl | hq'
        · exact Nat.not_lt.mp fun hlt => hloses (.inl hlt)
        · exact hmax q' hq'

theorem greediest_some {l : List (String × Nat)} (hl : l ≠ []) : ∃ p, greediest l = some p := by
  cases l with
  | nil => exact absurd rfl hl
  | cons q l =>
    unfold greediest
    split
    · exact ⟨_, rfl⟩
    · split <;> exact ⟨_, rfl⟩

theorem Ordered.listed (h : c.Ordered) {camera : String} (hw : 0 < c.waiting camera) :
    ∃ keys, (camera, keys) ∈ c.byCamera.entries ∧ keys.keys = c.keysOf camera := by
  have hlist := h.lists camera
  cases hget : c.byCamera.get? camera with
  | none =>
    rw [hget] at hlist
    unfold waiting at hw
    rw [← hlist] at hw
    cases hw
  | some keys =>
    rw [hget] at hlist
    exact ⟨keys, Dict.get?_eq_some_iff.mp hget, hlist⟩

/-- What the policy answers: the first key of a camera that has the most waiting. -/
theorem Ordered.chooses (h : c.Ordered) (hne : c.pending.keys ≠ []) :
    ∃ key, greediestCameraEviction c.index = some key ∧ (c.keysOf key.1).head? = some key ∧
      ∀ camera, c.waiting camera ≤ c.waiting key.1 := by
  have hcount : ∀ camera keys, (camera, keys) ∈ c.byCamera.entries →
      keys.keys = c.keysOf camera ∧ keys.size = c.waiting camera := by
    intro camera keys hin
    have hlist := h.lists camera
    rw [Dict.get?_eq_some_iff.mpr hin] at hlist
    refine ⟨hlist, ?_⟩
    rw [← Dict.keys_length]
    exact congrArg List.length hlist
  obtain ⟨key₀, hkey₀⟩ := List.exists_mem_of_ne_nil _ hne
  have hsome : 0 < c.waiting key₀.1 :=
    List.length_pos_of_mem (List.mem_filter.mpr ⟨hkey₀, decide_eq_true rfl⟩)
  obtain ⟨keys₀, hkeys₀, -⟩ := h.listed hsome
  have hcounts : c.index.cameraCounts.entries ≠ [] := by
    refine List.ne_nil_of_mem (a := (key₀.1, keys₀.size)) ?_
    exact List.mem_map.mpr ⟨_, hkeys₀, rfl⟩
  obtain ⟨p, hp⟩ := greediest_some hcounts
  obtain ⟨hmem, hmax⟩ := greediest_max hp
  obtain ⟨⟨camera, keys⟩, hkeys, rfl⟩ := List.mem_map.mp hmem
  obtain ⟨hlist, hsize⟩ := hcount camera keys hkeys
  have hget : c.byCamera.get? camera = some keys := Dict.get?_eq_some_iff.mpr hkeys
  have hnonempty : keys.keys ≠ [] := fun he => h.kept camera keys hget (List.map_eq_nil_iff.mp he)
  obtain ⟨key, rest, hcons⟩ := List.exists_cons_of_ne_nil hnonempty
  have hcam : key.1 = camera := by
    have hin : key ∈ c.keysOf camera := by
      rw [← hlist, hcons]
      exact List.mem_cons_self
    exact of_decide_eq_true (List.mem_filter.mp hin).2
  refine ⟨key, ?_, ?_, fun other => ?_⟩
  · unfold greediestCameraEviction
    rw [hp]
    show (c.byCamera.get? camera).bind (fun keys => keys.keys.head?) = some key
    rw [hget, Option.bind_some, hcons, List.head?_cons]
  · rw [hcam, ← hlist, hcons, List.head?_cons]
  · rw [hcam, ← hsize]
    by_cases hw : 0 < c.waiting other
    · obtain ⟨keys', hin, -⟩ := h.listed hw
      rw [← (hcount other keys' hin).2]
      exact hmax (other, keys'.size) (List.mem_map.mpr ⟨_, hin, rfl⟩)
    · omega

/-- The first key of a camera is that of its oldest frame. -/
theorem Ordered.first (h : c.Ordered) {camera : String} {key : PendingKey} (hh : (c.keysOf camera).head? = some key) :
    ∃ f, (key, f) ∈ c.pending.entries ∧ ∀ p ∈ c.pending.entries, p.1.1 = camera → f.ticket ≤ p.2.ticket := by
  have hkeys : c.keysOf camera = (c.pending.entries.filter fun p => decide (p.1.1 = camera)).map Prod.fst := by
    unfold keysOf Dict.keys
    rw [List.filter_map]
    rfl
  have hsorted : (c.pending.entries.filter fun p => decide (p.1.1 = camera)).Pairwise
      fun p q => p.2.ticket < q.2.ticket := by
    refine List.Pairwise.filter _ ?_
    have hall := h.inOrder
    unfold Dict.values at hall
    rw [List.map_map] at hall
    exact List.pairwise_map.mp hall
  cases hl : c.pending.entries.filter (fun p => decide (p.1.1 = camera)) with
  | nil =>
    rw [hkeys, hl] at hh
    cases hh
  | cons q l =>
    rw [hkeys, hl] at hh
    cases hh
    rw [hl] at hsorted
    have hq : q ∈ c.pending.entries := List.mem_of_mem_filter (hl ▸ List.mem_cons_self)
    refine ⟨q.2, hq, fun p hp hcam => ?_⟩
    have hin : p ∈ q :: l := hl ▸ List.mem_filter.mpr ⟨hp, decide_eq_true hcam⟩
    rcases List.mem_cons.mp hin with rfl | hin
    · exact Nat.le_refl _
    · exact Nat.le_of_lt ((List.pairwise_cons.mp hsorted).1 p hin)

/-- No camera has more than `m` waiting: then no more than `m` for each are pending. -/
theorem pending_le {m : Nat} (hmax : ∀ camera, c.waiting camera ≤ m) : c.pending.size ≤ m * c.cameras := by
  have hcard : c.pending.size = c.pending.keys.toFinset.card := by
    rw [List.toFinset_card_of_nodup c.pending.keys_nodup, Dict.keys_length]
  have himage : c.pending.keys.toFinset.image Prod.fst = (c.pending.keys.map Prod.fst).toFinset := by
    ext camera
    simp
  rw [hcard, cameras, ← himage]
  refine Finset.card_le_mul_card_image _ m fun camera _ => ?_
  have hfilter : (c.pending.keys.toFinset.filter fun key => key.1 = camera) = (c.keysOf camera).toFinset := by
    ext key
    simp [keysOf]
  have hnodup : (c.keysOf camera).Nodup := c.pending.keys_nodup.filter _
  rw [hfilter, List.toFinset_card_of_nodup hnodup]
  exact hmax camera

/-! ## The eviction -/

variable {cfg : Config}

/-- The collector a frame's opening leaves: it as it was, or the frame behind the others. -/
theorem open_full (h : c.Ordered) (hpolicy : cfg.policy = greediestCameraEviction)
    (hfull : c.pending.size = cfg.capacity) (hpos : 0 < cfg.capacity) (state : FrameState) (expected : List String)
    (now evictNow : Int) (hnew : state.key ∉ c.pending.keys) :
    ∃ key f, (key, f) ∈ c.pending.entries ∧
      (c.open cfg state expected now evictNow).1.publishing = c.publishing ++ [f.result .evicted evictNow] ∧
      (∃ newcomer, (c.open cfg state expected now evictNow).1.pending.entries =
        (c.pending.erase key).entries ++ [(state.key, newcomer)]) ∧
      (∀ camera, c.waiting camera ≤ c.waiting key.1) ∧
      ∀ p ∈ c.pending.entries, p.1.1 = key.1 → f.ticket ≤ p.2.ticket := by
  have hne : c.pending.keys ≠ [] := by
    intro he
    have hlen := congrArg List.length he
    rw [Dict.keys_length, List.length_nil] at hlen
    omega
  obtain ⟨key, hchoice, hhead, hmost⟩ := h.chooses hne
  obtain ⟨f, hf, holdest⟩ := h.first hhead
  refine ⟨key, f, hf, ?_⟩
  have hget : c.pending.get? key = some f := Dict.get?_eq_some_iff.mpr hf
  have hgone : state.key ∉ (c.pending.erase key).keys := fun hin => hnew (Dict.mem_keys_erase.mp hin).1
  have hsize : (c.pending.erase key).size + 1 = c.pending.size := (Dict.entries_perm hget).length_eq.symm
  obtain ⟨c₁, hevict, hpending, hpublishing⟩ : ∃ c₁,
      c.evict cfg evictNow = some (f.result .evicted evictNow, c₁) ∧ c₁.pending = c.pending.erase key ∧
      c₁.publishing = c.publishing := by
    unfold FrameCollector.evict FrameCollector.remove
    rw [hpolicy, hchoice]
    dsimp only
    rw [hget, forgetCamera_eq]
    exact ⟨_, rfl, rfl, rfl⟩
  have hroom : FrameCollector.makeRoom cfg evictNow c.pending.size c none =
      (true, c₁, some (f.result .evicted evictNow)) := by
    have hlt : c₁.pending.size < cfg.capacity := by
      rw [hpending]
      omega
    rw [← hsize]
    unfold FrameCollector.makeRoom
    rw [if_neg (by omega), hevict]
    cases (c.pending.erase key).size with
    | zero => simp [FrameCollector.makeRoom, hlt]
    | succ n => simp [FrameCollector.makeRoom, hlt]
  unfold FrameCollector.open
  rw [if_neg hnew, hroom]
  let newcomer : PendingFrame :=
    { ticket := c₁.opened, state := state, openedNs := now, deadlineNs := deadline cfg state now }
  refine ⟨?_, ⟨newcomer.expect expected, ?_⟩, hmost, holdest⟩
  · show c₁.publishing ++ [f.result .evicted evictNow] = _
    rw [hpublishing]
  · show (c₁.pending.set state.key _).entries = _
    rw [hpending, Dict.set_entries_of_new hgone]

/-- A camera with less than its share keeps its frames. -/
theorem open_keeps (hk : c.Keeps cfg) (h : c.Ordered) (hpolicy : cfg.policy = greediestCameraEviction) {camera : String}
    (hshare : c.waiting camera * c.cameras < cfg.capacity) (state : FrameState) (expected : List String)
    (now evictNow : Int) {p : PendingKey × PendingFrame} (hp : p ∈ c.pending.entries) (hcam : p.1.1 = camera) :
    p ∈ (c.open cfg state expected now evictNow).1.pending.entries := by
  by_cases hnew : state.key ∈ c.pending.keys
  · unfold FrameCollector.open
    rw [if_pos hnew]
    exact hp
  by_cases hfull : c.pending.size = cfg.capacity
  · obtain ⟨key, f, hf, -, ⟨newcomer, hentries⟩, hmost, -⟩ :=
      open_full h hpolicy hfull (by omega) state expected now evictNow hnew
    rw [hentries]
    refine List.mem_append_left _ (Dict.mem_erase_entries.mpr ⟨hp, fun he => ?_⟩)
    -- the greediest camera has its share at least
    have hsize := pending_le hmost
    rw [← he, hcam, hfull] at hsize
    omega
  · have hroom : c.pending.size < cfg.capacity := Nat.lt_of_le_of_ne hk.bounded hfull
    have hmake : FrameCollector.makeRoom cfg evictNow c.pending.size c none = (true, c, none) := by
      cases hn : c.pending.size with
      | zero => simp [FrameCollector.makeRoom, hn, hn ▸ hroom]
      | succ n => simp [FrameCollector.makeRoom, hroom]
    unfold FrameCollector.open
    rw [if_neg hnew, hmake]
    show p ∈ (c.pending.set state.key _).entries
    rw [Dict.set_entries_of_new hnew]
    exact List.mem_append_left _ hp

/-- **Eviction is fair.** Whatever came before: a full collector that admits a frame gives up the
oldest frame of a camera that has the most pending, and no other. So a camera whose frames times
the cameras that have some are fewer than the capacity loses none to any opening. -/
theorem eviction_fair (cfg : Config) (hpolicy : cfg.policy = greediestCameraEviction) (events : List Event)
    (state : FrameState) (expected : List String) (now evictNow : Int) :
    ((run cfg events).1.pending.size = cfg.capacity → 0 < cfg.capacity → state.key ∉ (run cfg events).1.pending.keys →
      ∃ key f, (key, f) ∈ (run cfg events).1.pending.entries ∧
        ((run cfg events).1.open cfg state expected now evictNow).1.publishing =
          (run cfg events).1.publishing ++ [f.result .evicted evictNow] ∧
        (∃ newcomer, ((run cfg events).1.open cfg state expected now evictNow).1.pending.entries =
          ((run cfg events).1.pending.erase key).entries ++ [(state.key, newcomer)]) ∧
        (∀ camera, (run cfg events).1.waiting camera ≤ (run cfg events).1.waiting key.1) ∧
        ∀ p ∈ (run cfg events).1.pending.entries, p.1.1 = key.1 → f.ticket ≤ p.2.ticket) ∧
    ∀ camera, (run cfg events).1.waiting camera * (run cfg events).1.cameras < cfg.capacity →
      ∀ p ∈ (run cfg events).1.pending.entries, p.1.1 = camera →
        p ∈ ((run cfg events).1.open cfg state expected now evictNow).1.pending.entries := by
  obtain ⟨hk, h⟩ := ordered_run cfg events
  refine ⟨fun hfull hpos hnew => open_full h hpolicy hfull hpos state expected now evictNow hnew, ?_⟩
  exact fun camera hshare p hp hcam => open_keeps hk h hpolicy hshare state expected now evictNow hp hcam

/-- A frame of a camera, as the collector reads it. -/
def frameOf (camera : String) (frame : Int) : FrameState := { context := { cameraId := camera, frameId := frame } }

/-- A quiet camera's frame, then two of a busy one. -/
def quietThenBusy : List Event :=
  [.open (frameOf "corridor" 0) [] 0 0, .open (frameOf "quay" 0) [] 0 0, .open (frameOf "quay" 1) [] 0 0]

/-- The next busy frame costs the busy camera one. -/
theorem corridor_stays : ("corridor", 0) ∈ (run ⟨3, 100, greediestCameraEviction⟩ quietThenBusy).1.pending.keys ∧
    ∀ p ∈ (run ⟨3, 100, greediestCameraEviction⟩ quietThenBusy).1.pending.entries, p.1.1 = "corridor" →
      p ∈ ((run ⟨3, 100, greediestCameraEviction⟩ quietThenBusy).1.open ⟨3, 100, greediestCameraEviction⟩
        (frameOf "quay" 2) [] 0 0).1.pending.entries :=
  ⟨by decide +kernel,
    (eviction_fair ⟨3, 100, greediestCameraEviction⟩ rfl quietThenBusy (frameOf "quay" 2) [] 0 0).2 "corridor"
      (by decide +kernel)⟩

/-- With the inherited policy the quiet camera's frame goes. -/
theorem corridor_evicted :
    let cfg : Config := ⟨3, 100, oldestFrameEviction⟩
    let c := (run cfg quietThenBusy).1
    c.pending.size = cfg.capacity ∧ c.pending.keys = [("corridor", 0), ("quay", 0), ("quay", 1)] ∧
      (c.open cfg (frameOf "quay" 2) [] 0 0).1.pending.keys = [("quay", 0), ("quay", 1), ("quay", 2)] := by
  decide +kernel

end FrameCollector

end ShipInfer.Reassembly
