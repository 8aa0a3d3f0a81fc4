import ShipInfer.Reassembly.Pairing

/-!
# The two collectors agree

The Python collector and the C++ one, on one script: they answer alike just as long as
every eviction takes from one camera that holds the most a frame that is both its oldest
and the first by the text of its key, and every sweep finds no frame past a deadline of
its own and not yet past the timeout.
-/

namespace ShipInfer.Reassembly

open Std (TreeMap)
open Twin (keyText insertAll)

/-! ## Frames of each camera -/

namespace Twin.FrameCollector

def tally (camera : String) (l : List (String × Pending)) : Nat :=
  l.countP fun p => decide (p.2.state.context.cameraId = camera)

theorem tally_cons (camera : String) (p : String × Pending) (l : List (String × Pending)) :
    tally camera (p :: l) = tally camera l + if p.2.state.context.cameraId = camera then 1 else 0 := by
  simp [tally, List.countP_cons]

theorem tally_perm {l m : List (String × Pending)} (h : l.Perm m) (camera : String) : tally camera l = tally camera m :=
  h.countP_eq _

/-- The counts by camera are those of the pending frames, and no camera stays at zero. -/
def Counted (t : FrameCollector) : Prop :=
  ∀ camera, t.perCamera[camera]? =
    if tally camera t.pending.toList = 0 then none else some (tally camera t.pending.toList)

variable {t : FrameCollector} {text : String} {q : Pending}

theorem counted_empty : Counted {} := by
  intro camera
  rw [TreeMap.getElem?_emptyc]
  simp [tally]

theorem Counted.getD (h : t.Counted) (camera : String) : t.perCamera.getD camera 0 = tally camera t.pending.toList := by
  rw [TreeMap.getD_eq_getD_getElem?, h]
  by_cases hz : tally camera t.pending.toList = 0
  · rw [if_pos hz, hz]
    rfl
  · rw [if_neg hz]
    rfl

theorem Counted.erase (h : t.Counted) (hq : t.pending[text]? = some q) :
    (t.erase text q.state.context.cameraId).Counted := by
  intro camera
  have htally : ∀ camera, tally camera t.pending.toList = tally camera (t.pending.erase text).toList +
      if q.state.context.cameraId = camera then 1 else 0 := by
    intro camera
    rw [tally_perm (SortedMap.toList_perm hq), tally_cons]
  have hleft : t.perCamera.getD q.state.context.cameraId 0 - 1 =
      tally q.state.context.cameraId (t.pending.erase text).toList := by
    rw [h.getD, htally, if_pos rfl]
    rfl
  unfold FrameCollector.erase
  dsimp only
  rw [hleft]
  by_cases hcam : camera = q.state.context.cameraId
  · subst hcam
    split
    next hz => rw [SortedMap.getElem?_erase, if_pos rfl]
    next hz => rw [SortedMap.getElem?_insert, if_pos rfl]
  · have hsame : t.perCamera[camera]? = if tally camera (t.pending.erase text).toList = 0 then none
        else some (tally camera (t.pending.erase text).toList) := by
      rw [h camera, htally, if_neg (Ne.symm hcam)]
      rfl
    split
    next hz => rw [SortedMap.getElem?_erase, if_neg hcam, hsame]
    next hz => rw [SortedMap.getElem?_insert, if_neg hcam, hsame]

/-- A frame of the same camera in its place. -/
theorem Counted.put (h : t.Counted) (hq : t.pending[text]? = some q) {q' : Pending} (hs : q'.state = q.state) :
    { t with pending := t.pending.insert text q' }.Counted := by
  intro camera
  have htally : tally camera (t.pending.insert text q').toList = tally camera t.pending.toList := by
    rw [tally_perm (SortedMap.toList_insert _ _ _), tally_perm (SortedMap.toList_perm hq), tally_cons, tally_cons, hs]
  dsimp only
  rw [htally]
  exact h camera

theorem Counted.insert (h : t.Counted) {state : FrameState} (hnew : t.pending[keyText state.key]? = none)
    (expected : List String) (now : Int) : (t.insert state expected now).Counted := by
  intro camera
  have herase : (t.pending.erase (keyText state.key)).toList = t.pending.toList := by
    rw [SortedMap.toList_erase]
    apply List.filter_eq_self.mpr
    intro p hp
    apply decide_eq_true
    intro he
    obtain ⟨text, q⟩ := p
    have hget := SortedMap.mem_toList.mp hp
    dsimp only at he
    rw [he, hnew] at hget
    cases hget
  unfold FrameCollector.insert
  dsimp only
  rw [tally_perm (SortedMap.toList_insert _ _ _), tally_cons, herase, h.getD, SortedMap.getElem?_insert]
  by_cases hcam : camera = state.context.cameraId
  · rw [if_pos hcam, if_pos hcam.symm, hcam]
    rfl
  · rw [if_neg hcam, if_neg (Ne.symm hcam)]
    exact h camera

end Twin.FrameCollector

/-! ## The camera that holds the most -/

theorem greediest_some : ∀ {l : List (String × Nat)} {p : String × Nat}, greediest l = some p →
    p ∈ l ∧ ∀ q ∈ l, q.2 < p.2 ∨ q.2 = p.2 ∧ q.1 ≤ p.1
  | [], _, h => nomatch h
  | p :: l, r, h => by
    unfold greediest at h
    cases hl : greediest l with
    | none =>
      rw [hl] at h
      cases h
      have hnil : l = [] := by
        cases l with
        | nil => rfl
        | cons q l =>
          unfold greediest at hl
          split at hl
          · cases hl
          · split at hl <;> cases hl
      subst hnil
      simp
    | some g =>
      rw [hl] at h
      obtain ⟨hmem, hmax⟩ := greediest_some hl
      dsimp only at h
      split at h
      next hlt =>
        cases h
        refine ⟨List.mem_cons_self, fun q hq => ?_⟩
        cases List.mem_cons.mp hq with
        | inl he => exact .inr ⟨congrArg Prod.snd he, (congrArg Prod.fst he).le⟩
        | inr hq =>
          cases hlt with
          | inl hlt => exact .inl (by have hq := hmax q hq; omega)
          | inr hlt =>
            cases hmax q hq with
            | inl hq => exact .inl (by omega)
            | inr hq => exact .inr ⟨by omega, hq.2.trans hlt.2.le⟩
      next hlt =>
        cases h
        refine ⟨List.mem_cons_of_mem _ hmem, fun q hq => ?_⟩
        cases List.mem_cons.mp hq with
        | inl he =>
          rw [he]
          by_cases hp : p.2 = r.2
          · exact .inr ⟨hp, not_lt.mp fun hn => hlt (.inr ⟨hp.symm, hn⟩)⟩
          · exact .inl (by omega)
        | inr hq => exact hmax q hq

theorem exists_greediest : ∀ {l : List (String × Nat)}, l ≠ [] → ∃ p, greediest l = some p
  | [], h => absurd rfl h
  | p :: l, _ => by
    unfold greediest
    split
    · exact ⟨_, rfl⟩
    · split
      · exact ⟨_, rfl⟩
      · exact ⟨_, rfl⟩

namespace Twin.FrameCollector

theorem maxElement_spec : ∀ (l : List (String × Nat)) (p : String × Nat), (p :: l).Pairwise (fun p q => p.1 < q.1) →
    (l.foldl (fun best q => if best.2 < q.2 then q else best) p) ∈ p :: l ∧
      ∀ q ∈ p :: l, q.2 < (l.foldl (fun best q => if best.2 < q.2 then q else best) p).2 ∨
        q.2 = (l.foldl (fun best q => if best.2 < q.2 then q else best) p).2 ∧
          (l.foldl (fun best q => if best.2 < q.2 then q else best) p).1 ≤ q.1
  | [], p, _ => by simp
  | a :: l, p, hs => by
    rw [List.pairwise_cons, List.pairwise_cons] at hs
    rw [List.foldl_cons]
    by_cases hlt : p.2 < a.2
    · rw [if_pos hlt]
      obtain ⟨hmem, hmax⟩ := maxElement_spec l a (List.pairwise_cons.mpr hs.2)
      refine ⟨List.mem_cons_of_mem _ hmem, fun q hq => ?_⟩
      cases List.mem_cons.mp hq with
      | inl he =>
        have ha := hmax a List.mem_cons_self
        rw [he]
        exact .inl (by omega)
      | inr hq => exact hmax q hq
    · rw [if_neg hlt]
      have hs' : (p :: l).Pairwise (fun p q => p.1 < q.1) :=
        List.pairwise_cons.mpr ⟨fun q hq => hs.1 q (List.mem_cons_of_mem _ hq), hs.2.2⟩
      obtain ⟨hmem, hmax⟩ := maxElement_spec l p hs'
      have hp := hmax p List.mem_cons_self
      refine ⟨?_, fun q hq => ?_⟩
      · cases List.mem_cons.mp hmem with
        | inl he => exact List.mem_cons.mpr (.inl he)
        | inr hm => exact List.mem_cons_of_mem _ (List.mem_cons_of_mem _ hm)
      · cases List.mem_cons.mp hq with
        | inl he => exact he ▸ hp
        | inr hq =>
          cases List.mem_cons.mp hq with
          | inl he =>
            rw [he]
            have hpa : p.1 < a.1 := hs.1 a List.mem_cons_self
            cases hp with
            | inl hp => exact .inl (by omega)
            | inr hp =>
              by_cases hq : a.2 = p.2
              · exact .inr ⟨by omega, hp.2.trans hpa.le⟩
              · exact .inl (by omega)
          | inr hq => exact hmax q (List.mem_cons_of_mem _ hq)

theorem maxElement_some {l : List (String × Nat)} {g : String × Nat} (hs : l.Pairwise fun p q => p.1 < q.1)
    (h : maxElement l = some g) : g ∈ l ∧ ∀ q ∈ l, q.2 < g.2 ∨ q.2 = g.2 ∧ g.1 ≤ q.1 := by
  cases l with
  | nil => cases h
  | cons p l =>
    cases h
    exact maxElement_spec l p hs

theorem exists_maxElement {l : List (String × Nat)} (h : l ≠ []) : ∃ g, maxElement l = some g := by
  cases l with
  | nil => exact absurd rfl h
  | cons p l => exact ⟨_, rfl⟩

end Twin.FrameCollector

/-- In a sorted list the first that meets a condition is the least that does. -/
theorem find?_least {β : Type} {P : String × β → Bool} : ∀ {l : List (String × β)} {p : String × β},
    l.Pairwise (fun p q => p.1 < q.1) → l.find? P = some p → ∀ q ∈ l, P q = true → p.1 ≤ q.1
  | [], _, _, h, _, _, _ => nomatch h
  | a :: l, p, hs, h, q, hq, hP => by
    rw [List.pairwise_cons] at hs
    rw [List.find?_cons] at h
    cases ha : P a with
    | true =>
      rw [ha] at h
      cases h
      cases List.mem_cons.mp hq with
      | inl he => exact he ▸ le_refl _
      | inr hq => exact (hs.1 q hq).le
    | false =>
      rw [ha] at h
      cases List.mem_cons.mp hq with
      | inl he =>
        rw [he, ha] at hP
        cases hP
      | inr hq => exact find?_least hs.2 h q hq hP

/-! ## What an eviction takes -/

section
variable {cfg : Config} {now : Int} {c : FrameCollector} {t : Twin.FrameCollector}

/-- As many frames of a camera wait on the two planes. -/
theorem tally_eq (hk : c.Keeps cfg) (hp : SamePending cfg now c.pending t.pending) (camera : String) :
    Twin.FrameCollector.tally camera t.pending.toList =
      (c.pending.keys.filter fun key => decide (key.1 = camera)).length := by
  obtain ⟨l, hperm, hall⟩ := hp.listed
  rw [← Twin.FrameCollector.tally_perm hperm, Twin.FrameCollector.tally, List.countP_eq_length_filter, Dict.keys,
    List.filter_map, List.length_map]
  refine (List.Forall₂.length_eq (List.rel_filter ?_ hall)).symm
  intro p q hpq
  have hkey : p.2.state.context.cameraId = p.1.1 := congrArg Prod.fst (hk.keyed p hpq.1)
  dsimp only [Function.comp_apply]
  rw [decide_eq_true_iff, decide_eq_true_iff, ← hpq.2.2.state, hkey]

/-- The frames of a camera that the index holds. -/
theorem size_of_indexed (hk : c.Keeps cfg) {camera : String} {keys : Dict PendingKey Unit}
    (hkeys : c.byCamera.get? camera = some keys) :
    keys.size = (c.pending.keys.filter fun key => decide (key.1 = camera)).length := by
  rw [← Dict.keys_length]
  apply List.Perm.length_eq
  rw [List.perm_ext_iff_of_nodup keys.keys_nodup (c.pending.keys_nodup.filter _)]
  intro key
  rw [List.mem_filter, decide_eq_true_iff]
  have hown := hk.indexed.own _ (Dict.get?_eq_some_iff.mp hkeys)
  refine ⟨fun h => ⟨(hown key h).2, (hown key h).1⟩, fun h => ?_⟩
  obtain ⟨keys', hkeys', hmem⟩ := hk.indexed.all key h.1
  rw [h.2, hkeys, Option.some.injEq] at hkeys'
  rwa [hkeys']

theorem held_iff (hk : c.Keeps cfg) (hp : SamePending cfg now c.pending t.pending) (hc : t.Counted) {camera : String} {n : Nat} :
    (camera, n) ∈ t.perCamera.toList ↔ ∃ keys, c.byCamera.get? camera = some keys ∧ keys.size = n := by
  rw [SortedMap.mem_toList, hc camera, tally_eq hk hp]
  constructor
  · intro h
    split at h
    · cases h
    next hz =>
      obtain ⟨key, hkey⟩ := List.exists_mem_of_length_pos (Nat.pos_of_ne_zero hz)
      obtain ⟨hmem, hcam⟩ := List.mem_filter.mp hkey
      obtain ⟨keys, hkeys, -⟩ := hk.indexed.all key hmem
      rw [of_decide_eq_true hcam] at hkeys
      exact ⟨keys, hkeys, (size_of_indexed hk hkeys).trans (Option.some.inj h)⟩
  · intro h
    obtain ⟨keys, hkeys, rfl⟩ := h
    have hsize := size_of_indexed hk hkeys
    have hpos : keys.size ≠ 0 := by
      intro hz
      exact hk.indexed.nonempty _ (Dict.get?_eq_some_iff.mp hkeys) (List.length_eq_zero_iff.mp hz)
    rw [← hsize, if_neg hpos]

theorem mem_cameraCounts {camera : String} {n : Nat} :
    (camera, n) ∈ c.index.cameraCounts.entries ↔ ∃ keys, c.byCamera.get? camera = some keys ∧ keys.size = n := by
  unfold FrameCollector.index
  rw [Dict.entries_mapValues, List.mem_map]
  constructor
  · intro h
    obtain ⟨p, hp, he⟩ := h
    cases he
    exact ⟨p.2, Dict.get?_eq_some_iff.mpr hp, rfl⟩
  · intro h
    obtain ⟨keys, hkeys, rfl⟩ := h
    exact ⟨(camera, keys), Dict.get?_eq_some_iff.mp hkeys, rfl⟩

/-- The frame that Python evicts: the oldest of the camera of the last name among those that hold
the most. -/
structure Picks (c : FrameCollector) (key : PendingKey) (keys : Dict PendingKey Unit) : Prop where
  held : c.byCamera.get? key.1 = some keys
  oldest : keys.keys.head? = some key
  most : ∀ camera keys', c.byCamera.get? camera = some keys' →
    keys'.size < keys.size ∨ keys'.size = keys.size ∧ camera ≤ key.1

theorem exists_picks (hk : c.Keeps cfg) (hne : c.pending.keys ≠ []) :
    ∃ key keys, greediestCameraEviction c.index = some key ∧ Picks c key keys := by
  obtain ⟨key, hkey⟩ := List.exists_mem_of_ne_nil _ hne
  obtain ⟨keys, hkeys, -⟩ := hk.indexed.all key hkey
  have hcounts : c.index.cameraCounts.entries ≠ [] :=
    List.ne_nil_of_mem (mem_cameraCounts.mpr ⟨keys, hkeys, rfl⟩)
  obtain ⟨p, hp⟩ := exists_greediest hcounts
  obtain ⟨hmem, hmost⟩ := greediest_some hp
  obtain ⟨keys, hkeys, hsize⟩ := mem_cameraCounts.mp hmem
  have hentry := Dict.get?_eq_some_iff.mp hkeys
  have hkeysne : keys.keys ≠ [] := fun h => hk.indexed.nonempty _ hentry (List.map_eq_nil_iff.mp h)
  obtain ⟨key, rest, hhead⟩ := List.exists_cons_of_ne_nil hkeysne
  have holdest : keys.keys.head? = some key := by rw [hhead, List.head?_cons]
  have hcam : key.1 = p.1 := (hk.indexed.own _ hentry key (hhead ▸ List.mem_cons_self)).1
  refine ⟨key, keys, ?_, hcam ▸ hkeys, holdest, fun camera keys' hkeys' => ?_⟩
  · unfold greediestCameraEviction
    rw [hp]
    show (c.byCamera.get? p.1).bind (fun keys => keys.keys.head?) = some key
    rw [hkeys]
    exact holdest
  · rw [hsize, hcam]
    exact hmost _ (mem_cameraCounts.mpr ⟨keys', hkeys', rfl⟩)

/-- The frame that C++ evicts: the first by the text of its key of the camera of the first name among
those that hold the most. -/
structure PicksTwin (c : FrameCollector) (key : PendingKey) (keys : Dict PendingKey Unit) : Prop where
  held : c.byCamera.get? key.1 = some keys
  mem : key ∈ keys.keys
  least : ∀ key' ∈ keys.keys, keyText key ≤ keyText key'
  most : ∀ camera keys', c.byCamera.get? camera = some keys' →
    keys'.size < keys.size ∨ keys'.size = keys.size ∧ key.1 ≤ camera

theorem exists_picks_twin (hk : c.Keeps cfg) (hp : SamePending cfg now c.pending t.pending) (hc : t.Counted)
    (hne : c.pending.keys ≠ []) :
    ∃ key keys q n, Twin.FrameCollector.maxElement t.perCamera.toList = some (key.1, n) ∧
      t.pending.toList.find? (fun p => decide (p.2.state.context.cameraId = key.1)) = some (keyText key, q) ∧
      PicksTwin c key keys := by
  obtain ⟨key, hkey⟩ := List.exists_mem_of_ne_nil _ hne
  obtain ⟨keys, hkeys, -⟩ := hk.indexed.all key hkey
  obtain ⟨g, hg⟩ := Twin.FrameCollector.exists_maxElement (List.ne_nil_of_mem ((held_iff hk hp hc).mpr ⟨keys, hkeys, rfl⟩))
  obtain ⟨hmem, hmost⟩ := Twin.FrameCollector.maxElement_some (SortedMap.toList_sorted _) hg
  obtain ⟨keys, hkeys, hsize⟩ := (held_iff hk hp hc).mp hmem
  have hentry := Dict.get?_eq_some_iff.mp hkeys
  -- a frame of the camera, under the text of its key
  have hframe : ∀ key ∈ keys.keys, ∃ q, (keyText key, q) ∈ t.pending.toList ∧ q.state.key = key := by
    intro key hkey
    obtain ⟨f, hf⟩ := Dict.exists_of_mem_keys (hk.indexed.own _ hentry key hkey).2
    obtain ⟨q, hq, hsame⟩ := hp.get (Dict.get?_eq_some_iff.mpr hf)
    exact ⟨q, SortedMap.mem_toList.mpr hq, hsame.state ▸ hk.keyed _ hf⟩
  have hcamera : ∀ key ∈ keys.keys, key.1 = g.1 := fun key hkey => (hk.indexed.own _ hentry key hkey).1
  have hkeysne : keys.keys ≠ [] := fun h => hk.indexed.nonempty _ hentry (List.map_eq_nil_iff.mp h)
  obtain ⟨key₀, hkey₀⟩ := List.exists_mem_of_ne_nil _ hkeysne
  obtain ⟨q₀, hq₀, hstate₀⟩ := hframe key₀ hkey₀
  cases hfind : t.pending.toList.find? fun p => decide (p.2.state.context.cameraId = g.1) with
  | none =>
    have hno := List.find?_eq_none.mp hfind _ hq₀
    have hcam : q₀.state.context.cameraId = g.1 := (congrArg Prod.fst hstate₀).trans (hcamera key₀ hkey₀)
    exact absurd (decide_eq_true hcam) hno
  | some p =>
    obtain ⟨text, q⟩ := p
    obtain ⟨key, f, rfl, hf, hsame⟩ := hp.back (SortedMap.mem_toList.mp (List.mem_of_find?_eq_some hfind))
    have hstate : q.state.key = key := hsame.state ▸ hk.keyed _ (Dict.get?_eq_some_iff.mp hf)
    have hfound := List.find?_some hfind
    rw [decide_eq_true_iff] at hfound
    have hcam : key.1 = g.1 := (congrArg Prod.fst hstate).symm.trans hfound
    refine ⟨key, keys, q, g.2, ?_, ?_, hcam ▸ hkeys, ?_, fun key' hkey' => ?_, fun camera keys' hkeys' => ?_⟩
    · rw [hcam]
      exact hg
    · rw [hcam]
      exact hfind
    · obtain ⟨held, hheld, hmem⟩ := hk.indexed.all key (Dict.mem_keys_of_mem (Dict.get?_eq_some_iff.mp hf))
      rw [hcam, hkeys, Option.some.injEq] at hheld
      rwa [hheld]
    · obtain ⟨q', hq', hstate'⟩ := hframe key' hkey'
      have hcam' : q'.state.context.cameraId = g.1 := (congrArg Prod.fst hstate').trans (hcamera key' hkey')
      exact find?_least (SortedMap.toList_sorted _) hfind _ hq' (decide_eq_true hcam')
    · rw [hsize, hcam]
      exact hmost _ ((held_iff hk hp hc).mpr ⟨keys', hkeys', rfl⟩)

/-- One camera holds more frames than every other, and the frame of it that came first is the first
of them by the text of its key. -/
def Fair (c : FrameCollector) : Prop :=
  ∃ camera keys key, c.byCamera.get? camera = some keys ∧
    (∀ other keys', other ≠ camera → c.byCamera.get? other = some keys' → keys'.size < keys.size) ∧
    keys.keys.head? = some key ∧ ∀ key' ∈ keys.keys, keyText key ≤ keyText key'

/-- The two evict one frame just when the choice is fair. -/
theorem fair_iff {key key' : PendingKey} {keys keys' : Dict PendingKey Unit} (h : Picks c key keys)
    (h' : PicksTwin c key' keys') : Fair c ↔ key = key' := by
  constructor
  · intro hfair
    obtain ⟨camera, held, first, hcamera, hstrict, hfirst, hall⟩ := hfair
    have hcam : key.1 = camera := by
      by_contra hne
      have hlt := hstrict key.1 keys hne h.held
      have hle := h.most camera held hcamera
      omega
    have hcam' : key'.1 = camera := by
      by_contra hne
      have hlt := hstrict key'.1 keys' hne h'.held
      have hle := h'.most camera held hcamera
      omega
    have hk : keys = held := by
      have hh := h.held
      rw [hcam, hcamera] at hh
      exact (Option.some.inj hh).symm
    have hk' : keys' = held := by
      have hh := h'.held
      rw [hcam', hcamera] at hh
      exact (Option.some.inj hh).symm
    have hkey : key = first := by
      have ho := h.oldest
      rw [hk, hfirst] at ho
      exact (Option.some.inj ho).symm
    have hmemfirst : first ∈ held.keys := List.mem_of_mem_head? hfirst
    apply keyText_inj
    rw [hkey]
    exact le_antisymm (hall key' (hk' ▸ h'.mem)) (h'.least first (hk'.symm ▸ hmemfirst))
  · intro hkey
    subst hkey
    have hk : keys' = keys := by
      have hh := h.held
      rw [h'.held] at hh
      exact Option.some.inj hh
    subst hk
    refine ⟨key.1, keys', key, h.held, fun other held hne hother => ?_, h.oldest, h'.least⟩
    cases h.most other held hother with
    | inl hlt => exact hlt
    | inr heq =>
      cases h'.most other held hother with
      | inl hlt => exact hlt
      | inr heq' => exact absurd (le_antisymm heq.2 heq'.2) hne

/-! ## The two side by side -/

/-- What holds between the two collectors at one time. -/
structure Beside (cfg : Config) (now : Int) (c : FrameCollector) (t : Twin.FrameCollector) : Prop where
  keeps : c.Keeps cfg
  pending : SamePending cfg now c.pending t.pending
  counted : t.Counted

theorem Beside.published (h : Beside cfg now c t) (results : List FrameResult) :
    Beside cfg now { c with publishing := results } t :=
  ⟨⟨h.keeps.bounded, h.keeps.keyed, h.keeps.indexed⟩, h.pending, h.counted⟩

theorem Beside.contains_iff (h : Beside cfg now c t) (key : PendingKey) :
    t.pending.contains (keyText key) = true ↔ key ∈ c.pending.keys := by
  rw [TreeMap.contains_eq_isSome_getElem?, Option.isSome_iff_ne_none, Ne, ← h.pending.none_iff, Dict.get?_eq_none_iff,
    not_not]

theorem Beside.size (h : Beside cfg now c t) : t.pending.size = c.pending.size := by
  obtain ⟨l, hperm, hall⟩ := h.pending.listed
  rw [← TreeMap.length_toList, ← hperm.length_eq, ← hall.length_eq]
  rfl

/-- A frame leaves both. -/
theorem Beside.remove (h : Beside cfg now c t) {key : PendingKey} {f : PendingFrame} (hf : c.pending.get? key = some f) :
    ∃ c' q, c.remove key = some (f, c') ∧ c'.publishing = c.publishing ∧ c'.pending = c.pending.erase key ∧
      t.pending[keyText key]? = some q ∧ SameFrame cfg now f q ∧
      Beside cfg now c' (t.erase (keyText key) q.state.context.cameraId) := by
  obtain ⟨q, hq, hsame⟩ := h.pending.get hf
  have hrem : c.remove key = some (f, { c with pending := c.pending.erase key }.forgetCamera key) := by
    unfold FrameCollector.remove
    rw [hf]
  have hmoves := (FrameCollector.remove_moves hrem .evicted now).1
  have hkeeps := h.keeps.moves hmoves
  refine ⟨_, q, hrem, ?_, ?_, hq, hsame, ⟨hkeeps.bounded, hkeeps.keyed, hkeeps.indexed⟩, ?_, h.counted.erase hq⟩
  · rw [FrameCollector.forgetCamera_eq]
  · rw [FrameCollector.forgetCamera_eq]
  · rw [FrameCollector.forgetCamera_eq]
    exact h.pending.erase key

/-- A frame comes to both. -/
theorem Beside.insert (h : Beside cfg now c t) {state : FrameState} (hnew : state.key ∉ c.pending.keys)
    (hroom : c.pending.size < cfg.capacity) (ticket : Nat) (expected : List String) :
    Beside cfg now (c.insert (PendingFrame.expect
      { ticket := ticket, state := state, openedNs := now, deadlineNs := FrameCollector.deadline cfg state now } expected))
      (t.insert state expected now) where
  keeps := h.keeps.insert hroom hnew
  pending := by
    refine h.pending.set ⟨rfl, rfl, le_refl _, rfl, fun s => ?_, fun s => ?_⟩ state.key
    · exact Iff.rfl
    · simp [PendingFrame.expect, mem_insertAll]
  counted := by
    refine h.counted.insert ?_ expected now
    rw [← h.pending.none_iff, Dict.get?_eq_none_iff]
    exact hnew

theorem SameResults.single_iff {r : FrameResult} {q : Twin.Result} : SameResults [r] [q] ↔ SameResult r q := by
  refine ⟨fun h => ?_, SameResults.single⟩
  obtain ⟨q', hq', hsame⟩ := h.exists_of_mem List.mem_cons_self
  exact List.mem_singleton.mp hq' ▸ hsame

/-- Making room in a full collector. -/
theorem makeRoom_full {key : PendingKey} {f : PendingFrame} {c' : FrameCollector} (hb : c.pending.size ≤ cfg.capacity)
    (hfull : cfg.capacity ≤ c.pending.size) (hpolicy : cfg.policy c.index = some key) (hrem : c.remove key = some (f, c')) :
    FrameCollector.makeRoom cfg now c.pending.size c none =
      (true, { c' with evicted := c'.evicted + 1 }, some (f.result .evicted now)) := by
  have hsize : c'.pending.size + 1 = c.pending.size := (FrameCollector.remove_moves hrem .evicted now).2.2
  have hevict : c.evict cfg now = some (f.result .evicted now, { c' with evicted := c'.evicted + 1 }) := by
    unfold FrameCollector.evict
    rw [hpolicy]
    dsimp only
    rw [hrem]
  have hlt : c'.pending.size < cfg.capacity := by omega
  rw [← hsize, FrameCollector.makeRoom, if_neg (by omega), hevict]
  dsimp only
  cases hn : c'.pending.size with
  | zero =>
    rw [FrameCollector.makeRoom]
    simp [hlt]
  | succ n =>
    rw [FrameCollector.makeRoom, if_pos hlt]

theorem makeRoom_room (hroom : c.pending.size < cfg.capacity) :
    FrameCollector.makeRoom cfg now c.pending.size c none = (true, c, none) := by
  cases hn : c.pending.size with
  | zero =>
    rw [FrameCollector.makeRoom]
    simp [hroom]
  | succ n => rw [FrameCollector.makeRoom, if_pos hroom]

/-- What an opening asks of the collector for the two to do the same. -/
def MeetsOpen (cfg : Config) (c : FrameCollector) (state : FrameState) : Prop :=
  state.key ∉ c.pending.keys → cfg.capacity ≤ c.pending.size → c.pending.keys ≠ [] → Fair c

/-- Nothing to evict. -/
theorem Beside.evict_none (h : Beside cfg now c t) (hnone : c.pending.keys = []) : t.evict now = none := by
  have hempty : t.perCamera.toList = [] := by
    rw [List.eq_nil_iff_forall_not_mem]
    intro p hp
    obtain ⟨keys, hkeys, -⟩ := (held_iff h.keeps h.pending h.counted).mp hp
    have hentry := Dict.get?_eq_some_iff.mp hkeys
    obtain ⟨q, hq⟩ := List.exists_mem_of_ne_nil _ (h.keeps.indexed.nonempty _ hentry)
    have hkey := (h.keeps.indexed.own _ hentry q.1 (List.mem_map_of_mem hq)).2
    rw [hnone] at hkey
    cases hkey
  unfold Twin.FrameCollector.evict
  rw [hempty]
  rfl

/-- What the two evict to make room: one frame just when the choice is fair. -/
theorem Beside.evict (h : Beside cfg now c t) (hpolicy : cfg.policy = greediestCameraEviction)
    (hfull : cfg.capacity ≤ c.pending.size) (hne : c.pending.keys ≠ []) :
    ∃ (f : PendingFrame) (q : Twin.Pending) (c' : FrameCollector) (t' : Twin.FrameCollector),
      FrameCollector.makeRoom cfg now c.pending.size c none = (true, c', some (f.result .evicted now)) ∧
      t.evict now = some (q.finish .evicted now, t') ∧ c'.publishing = c.publishing ∧
      c'.pending.size < cfg.capacity ∧ (∀ key ∈ c'.pending.keys, key ∈ c.pending.keys) ∧
      (SameResult (f.result .evicted now) (q.finish .evicted now) ↔ Fair c) ∧ (Fair c → Beside cfg now c' t') := by
  obtain ⟨key, keys, hchoice, hpick⟩ := exists_picks h.keeps hne
  obtain ⟨key', keys', q', n, hmax, hfind, hpick'⟩ := exists_picks_twin h.keeps h.pending h.counted hne
  have hmem : key ∈ c.pending.keys :=
    (h.keeps.indexed.own _ (Dict.get?_eq_some_iff.mp hpick.held) key (List.mem_of_mem_head? hpick.oldest)).2
  obtain ⟨f, hf⟩ := Dict.exists_of_mem_keys hmem
  obtain ⟨c', q, hrem, hpub, hpending, hq, hsame, hbeside⟩ := h.remove (Dict.get?_eq_some_iff.mpr hf)
  have hevict : t.evict now = some (q'.finish .evicted now,
      { t.erase (keyText key') key'.1 with
        evicted := t.evicted + 1
        evictedByCamera := t.evictedByCamera.insert key'.1 (t.evictedByCamera.getD key'.1 0 + 1)
        reported := t.reported + 1 }) := by
    unfold Twin.FrameCollector.evict
    rw [hmax]
    dsimp only
    rw [hfind]
  have hkey : f.state.key = key := h.keeps.keyed _ hf
  have hq' : t.pending[keyText key']? = some q' := SortedMap.mem_toList.mp (List.mem_of_find?_eq_some hfind)
  have hkey' : q'.state.key = key' := by
    obtain ⟨k, g, htext, hg, hsame'⟩ := h.pending.back hq'
    rw [← keyText_inj htext, ← hsame'.state]
    exact h.keeps.keyed _ (Dict.get?_eq_some_iff.mp hg)
  have hvictim : key = key' → q = q' := by
    intro he
    rw [← he, hq] at hq'
    exact Option.some.inj hq'
  refine ⟨f, q', _, _, makeRoom_full h.keeps.bounded hfull (hpolicy ▸ hchoice) hrem, hevict, hpub, ?_, fun k hk => ?_, ?_,
    fun hfair => ?_⟩
  · have hsize := (FrameCollector.remove_moves hrem .evicted now).2.2
    have hbound := h.keeps.bounded
    dsimp only
    omega
  · dsimp only at hk
    rw [hpending] at hk
    exact (Dict.mem_keys_erase.mp hk).1
  · rw [fair_iff hpick hpick']
    constructor
    · intro hres
      have hstate : f.state = q'.state := hres.state
      rw [← hkey, hstate, hkey']
    · intro he
      exact hvictim he ▸ hsame.result .evicted
  · have he := (fair_iff hpick hpick').mp hfair
    have hcam : q.state.context.cameraId = key'.1 := by
      rw [hvictim he]
      exact congrArg Prod.fst hkey'
    subst he
    rw [hcam] at hbeside
    exact ⟨⟨hbeside.keeps.bounded, hbeside.keeps.keyed, hbeside.keeps.indexed⟩, hbeside.pending, hbeside.counted⟩

theorem Beside.open (h : Beside cfg now c t) (hpolicy : cfg.policy = greediestCameraEviction) (hclear : c.publishing = [])
    (state : FrameState) (expected : List String) :
    ((c.open cfg state expected now now).2.isOpened = (t.open cfg.capacity state expected now).2.1 ∧
        SameResults (c.open cfg state expected now now).1.publishing (t.open cfg.capacity state expected now).2.2 ↔
      MeetsOpen cfg c state) ∧
    (MeetsOpen cfg c state →
      Beside cfg now (c.open cfg state expected now now).1 (t.open cfg.capacity state expected now).1) := by
  have hnil : SameResults c.publishing [] := hclear ▸ .nil
  unfold FrameCollector.open Twin.FrameCollector.open MeetsOpen
  by_cases hnew : state.key ∈ c.pending.keys
  · rw [if_pos hnew, if_pos ((h.contains_iff _).mpr hnew)]
    refine ⟨iff_of_true ⟨rfl, hnil⟩ fun hn => absurd hnew hn, fun _ => ⟨?_, h.pending, h.counted⟩⟩
    exact ⟨h.keeps.bounded, h.keeps.keyed, h.keeps.indexed⟩
  · rw [if_neg hnew, if_neg fun hc => hnew ((h.contains_iff _).mp hc), h.size]
    by_cases hroom : c.pending.size < cfg.capacity
    · rw [makeRoom_room hroom, if_neg (not_le.mpr hroom)]
      have hin := (h.insert hnew hroom c.opened expected).published (c.publishing ++ Option.toList none)
      refine ⟨iff_of_true ⟨rfl, ?_⟩ fun _ hfull => absurd hroom (not_lt.mpr hfull), fun _ => hin⟩
      dsimp only
      rw [Option.toList_none, List.append_nil]
      exact hnil
    · have hfull : cfg.capacity ≤ c.pending.size := not_lt.mp hroom
      rw [if_pos hfull]
      by_cases hne : c.pending.keys = []
      · have hzero : c.pending.size = 0 := by rw [← Dict.keys_length, hne, List.length_nil]
        rw [h.evict_none hne, hzero, FrameCollector.makeRoom, hzero, decide_eq_false (by omega)]
        refine ⟨iff_of_true ⟨rfl, hnil⟩ fun _ _ hsome => absurd hne hsome, fun _ => ⟨?_, h.pending, h.counted⟩⟩
        exact ⟨h.keeps.bounded, h.keeps.keyed, h.keeps.indexed⟩
      · obtain ⟨f, q, c', t', hmake, hevict, hpub, hroom', hgone, hsame, hbeside⟩ := h.evict hpolicy hfull hne
        have hmeets : (state.key ∉ c.pending.keys → cfg.capacity ≤ c.pending.size → c.pending.keys ≠ [] → Fair c) ↔ Fair c :=
          ⟨fun hall => hall hnew hfull hne, fun hfair _ _ _ => hfair⟩
        rw [hmake, hevict]
        dsimp only
        rw [hpub, hclear, List.nil_append, Option.toList_some, SameResults.single_iff, hmeets, hsame]
        refine ⟨⟨fun hres => hres.2, fun hfair => ⟨rfl, hfair⟩⟩, fun hfair => ?_⟩
        exact ((hbeside hfair).insert (fun hin => hnew (hgone _ hin)) hroom' _ expected).published _

theorem Beside.update (h : Beside cfg now c t) {key : PendingKey} {f g : PendingFrame} {q p : Twin.Pending}
    (hf : c.pending.get? key = some f) (hg : g.state = f.state) (hq : t.pending[keyText key]? = some q)
    (hp : p.state = q.state) (hsame : SameFrame cfg now g p) :
    Beside cfg now { c with pending := c.pending.set key g } { t with pending := t.pending.insert (keyText key) p } :=
  ⟨h.keeps.update hf hg, h.pending.set hsame key, h.counted.put hq hp⟩

theorem Beside.expect (h : Beside cfg now c t) (key : PendingKey) (stages : List String) :
    Beside cfg now (c.expect key stages).1 (t.alsoExpect key stages) := by
  unfold FrameCollector.expect Twin.FrameCollector.alsoExpect
  cases hf : c.pending.get? key with
  | none =>
    rw [h.pending.none_iff.mp hf]
    split <;> exact h
  | some f =>
    obtain ⟨q, hq, hsame⟩ := h.pending.get hf
    rw [hq]
    by_cases hnone : stages = []
    · rw [if_pos hnone]
      subst hnone
      exact ⟨h.keeps, h.pending.put hf hsame, h.counted.put hq rfl⟩
    · rw [if_neg hnone]
      refine h.update hf rfl hq rfl ⟨hsame.state, hsame.openedNs, hsame.past, hsame.deadlineNs, hsame.delivered, fun s => ?_⟩
      have hold := hsame.expected s
      simp only [PendingFrame.expect, List.mem_union_iff, mem_insertAll]
      rw [hold, or_assoc]

theorem Beside.deliver (h : Beside cfg now c t) (key : PendingKey) (stage : String) :
    Beside cfg now (c.deliver key stage).1 (t.deliver key stage) := by
  unfold FrameCollector.deliver Twin.FrameCollector.deliver
  cases hf : c.pending.get? key with
  | none =>
    rw [h.pending.none_iff.mp hf]
    exact ⟨⟨h.keeps.bounded, h.keeps.keyed, h.keeps.indexed⟩, h.pending, h.counted⟩
  | some f =>
    obtain ⟨q, hq, hsame⟩ := h.pending.get hf
    rw [hq]
    have hdelivered : ∀ s, s ∈ (f.deliver stage).delivered ↔ s ∈ insertAll [stage] q.delivered := by
      intro s
      have hold := hsame.delivered s
      simp only [PendingFrame.deliver, mem_insertAll, List.mem_singleton]
      split
      next hin => exact ⟨fun hs => .inr (hold.mp hs), fun hs => hs.elim (fun he => he ▸ hin) hold.mpr⟩
      · rw [List.mem_append, List.mem_singleton, hold, or_comm]
    refine h.update hf rfl hq rfl ⟨hsame.state, hsame.openedNs, hsame.past, hsame.deadlineNs, hdelivered, fun s => ?_⟩
    have hold := hsame.expected s
    simp only [PendingFrame.deliver, List.mem_insert_iff, mem_insertAll, List.mem_singleton]
    rw [hold, or_left_comm]

theorem Beside.seal (h : Beside cfg now c t) (hclear : c.publishing = []) (key : PendingKey) :
    SameResults (c.seal key now).publishing (t.seal key now).2 ∧ Beside cfg now (c.seal key now) (t.seal key now).1 := by
  unfold FrameCollector.seal Twin.FrameCollector.seal
  cases hf : c.pending.get? key with
  | none =>
    have hrem : c.remove key = none := by
      unfold FrameCollector.remove
      rw [hf]
    rw [hrem, h.pending.none_iff.mp hf]
    dsimp only
    rw [hclear]
    exact ⟨.nil, h⟩
  | some f =>
    obtain ⟨c', q, hrem, hpub, -, hq, hsame, hbeside⟩ := h.remove hf
    rw [hrem, hq]
    dsimp only
    rw [hpub, hclear, hsame.complete]
    refine ⟨.single (hsame.result _), (hbeside.published _).keeps, hbeside.pending, hbeside.counted⟩

theorem Beside.drain (h : Beside cfg now c t) (hclear : c.publishing = []) :
    SameResults (c.drain now).publishing (t.drain now).2 ∧ Beside cfg now (c.drain now) (t.drain now).1 := by
  refine ⟨?_, h.keeps.moves (FrameCollector.drain_moves c now), samePending_empty, Twin.FrameCollector.counted_empty⟩
  obtain ⟨l, hperm, hall⟩ := h.pending.listed
  refine ⟨l.map fun p => p.2.finish .shutdown now, hperm.map _, ?_⟩
  show List.Forall₂ SameResult (c.publishing ++ (c.pending.entries.map Prod.snd).map fun f => f.result .shutdown now) _
  rw [hclear, List.nil_append, List.map_map, List.forall₂_map_left_iff, List.forall₂_map_right_iff]
  exact hall.imp fun p q hpq => hpq.2.2.result .shutdown

/-! ## Sweeping -/

theorem ite_or_eq {α β : Type} (a b : α) (l : List α) (o : Option β) [Decidable (a ∈ l)] [Decidable (a = b)]
    [Decidable (a ∈ b :: l)] :
    (if a ∈ l then none else if a = b then none else o) = if a ∈ b :: l then none else o := by
  by_cases hb : a = b
  · rw [if_pos hb, ite_self, if_pos (List.mem_cons.mpr (.inl hb))]
  · rw [if_neg hb]
    exact if_congr (by rw [List.mem_cons, or_iff_right hb]) rfl rfl

theorem removeAll_spec (reason : Reason) (now : Int) : ∀ (l : List (PendingKey × PendingFrame)) (c : FrameCollector),
    (∀ p ∈ l, c.pending.get? p.1 = some p.2) → (l.map Prod.fst).Nodup →
      (FrameCollector.removeAll reason now (l.map Prod.fst) c).publishing =
          c.publishing ++ l.map (fun p => p.2.result reason now) ∧
        ∀ key, (FrameCollector.removeAll reason now (l.map Prod.fst) c).pending.get? key =
          if key ∈ l.map Prod.fst then none else c.pending.get? key
  | [], c, _, _ => by simp [FrameCollector.removeAll]
  | p :: l, c, hl, hn => by
    rw [List.map_cons, List.nodup_cons] at hn
    have hrem : c.remove p.1 = some (p.2, { c with pending := c.pending.erase p.1 }.forgetCamera p.1) := by
      unfold FrameCollector.remove
      rw [hl p List.mem_cons_self]
    rw [FrameCollector.forgetCamera_eq] at hrem
    rw [List.map_cons, FrameCollector.removeAll, hrem]
    dsimp only
    obtain ⟨hpub, hget⟩ := removeAll_spec reason now l
      { c with
        pending := c.pending.erase p.1
        byCamera := ({ c with pending := c.pending.erase p.1 }.forgetCamera p.1).byCamera
        publishing := c.publishing ++ [p.2.result reason now] }
      (fun q hq => by
        have hne : q.1 ≠ p.1 := fun he => hn.1 (he ▸ List.mem_map_of_mem hq)
        dsimp only
        rw [Dict.get?_erase, if_neg hne]
        exact hl q (List.mem_cons_of_mem _ hq)) hn.2
    refine ⟨?_, fun key => ?_⟩
    · rw [hpub, List.map_cons, List.append_assoc, List.singleton_append]
    · rw [hget, Dict.get?_erase, ite_or_eq]

namespace Twin.FrameCollector

/-- A frame that a sweep takes. -/
def due (timeoutNs now : Int) (p : String × Pending) : Bool := decide (timeoutNs ≤ now - p.2.openedNs)

theorem sweepLoop_spec (timeoutNs now : Int) : ∀ (l : List (String × Pending)) (t : FrameCollector), t.Counted →
    (∀ p ∈ l, t.pending[p.1]? = some p.2) → (l.map Prod.fst).Nodup →
      (sweepLoop timeoutNs now l t).2 = (l.filter (due timeoutNs now)).map (fun p => p.2.finish .timeout now) ∧
        (∀ text, (sweepLoop timeoutNs now l t).1.pending[text]? =
          if text ∈ (l.filter (due timeoutNs now)).map Prod.fst then none else t.pending[text]?) ∧
        (sweepLoop timeoutNs now l t).1.Counted
  | [], t, hc, _, _ => by simpa [sweepLoop] using hc
  | (text, q) :: l, t, hc, hl, hn => by
    rw [List.map_cons, List.nodup_cons] at hn
    have hrest : ∀ p ∈ l, t.pending[p.1]? = some p.2 := fun p hp => hl p (List.mem_cons_of_mem _ hp)
    rw [sweepLoop]
    by_cases hlt : now - q.openedNs < timeoutNs
    · have hdue : due timeoutNs now (text, q) = false := decide_eq_false (not_le.mpr hlt)
      rw [if_pos hlt, List.filter_cons_of_neg (by simp [hdue])]
      exact sweepLoop_spec timeoutNs now l t hc hrest hn.2
    · have hdue : due timeoutNs now (text, q) = true := decide_eq_true (not_lt.mp hlt)
      rw [if_neg hlt, List.filter_cons_of_pos hdue]
      have hq : t.pending[text]? = some q := hl _ List.mem_cons_self
      obtain ⟨hres, hget, hcounted⟩ := sweepLoop_spec timeoutNs now l
        { t.erase text q.state.context.cameraId with reported := t.reported + 1, timedOut := t.timedOut + 1 }
        (hc.erase hq)
        (fun p hp => by
          have hne : p.1 ≠ text := by
            intro he
            apply hn.1
            rw [← he]
            exact List.mem_map.mpr ⟨p, hp, rfl⟩
          show (t.pending.erase text)[p.1]? = some p.2
          rw [SortedMap.getElem?_erase, if_neg hne]
          exact hrest p hp) hn.2
      refine ⟨?_, fun key => ?_, hcounted⟩
      · dsimp only
        rw [hres, List.map_cons]
      · dsimp only
        rw [hget]
        show (if key ∈ _ then none else (t.pending.erase text)[key]?) = _
        rw [SortedMap.getElem?_erase, List.map_cons, ite_or_eq]

end Twin.FrameCollector

/-- What a sweep asks of the collector for the two to do the same: no frame is past a deadline of its
own and within the timeout. -/
def MeetsSweep (cfg : Config) (now : Int) (c : FrameCollector) : Prop :=
  ∀ f ∈ c.pending.values, f.state.deadlineNs ≠ 0 → f.state.deadlineNs ≤ now → f.openedNs + cfg.timeoutNs ≤ now

theorem isExpired_iff {f : PendingFrame} (h : f.deadlineNs = FrameCollector.deadline cfg f.state f.openedNs) :
    f.isExpired now = true ↔
      f.openedNs + cfg.timeoutNs ≤ now ∨ (f.state.deadlineNs ≠ 0 ∧ f.state.deadlineNs ≤ now) := by
  rw [PendingFrame.isExpired, decide_eq_true_iff, h, FrameCollector.deadline]
  split
  next hz => simp [hz]
  next hz => simp [hz]

theorem Beside.sweep (h : Beside cfg now c t) (hclear : c.publishing = []) :
    (SameResults (c.sweep now).publishing (t.sweep cfg.timeoutNs now).2 ↔ MeetsSweep cfg now c) ∧
      (MeetsSweep cfg now c → Beside cfg now (c.sweep now) (t.sweep cfg.timeoutNs now).1) := by
  obtain ⟨l, hperm, hall⟩ := h.pending.listed
  have hsub : (c.pending.entries.filter fun p => p.2.isExpired now).Sublist c.pending.entries := List.filter_sublist
  obtain ⟨hpub, hget⟩ := removeAll_spec .timeout now (c.pending.entries.filter fun p => p.2.isExpired now) c
    (fun p hp => Dict.get?_eq_some_iff.mpr (hsub.subset hp)) (c.pending.nodup.sublist (hsub.map _))
  obtain ⟨hres, hfind, hcounted⟩ := Twin.FrameCollector.sweepLoop_spec cfg.timeoutNs now t.pending.toList t h.counted
    (fun p hp => SortedMap.mem_toList.mp hp) (SortedMap.nodup_keys _)
  have hdue : ∀ p ∈ c.pending.entries, ∀ q, p.2.openedNs = q.2.openedNs →
      (Twin.FrameCollector.due cfg.timeoutNs now q = true ↔ p.2.openedNs + cfg.timeoutNs ≤ now) := by
    intro p _ q he
    rw [Twin.FrameCollector.due, decide_eq_true_iff, ← he]
    omega
  have hexpired : MeetsSweep cfg now c → List.Forall₂ (fun p q => p ∈ c.pending.entries ∧ q.1 = keyText p.1 ∧
      SameFrame cfg now p.2 q.2) (c.pending.entries.filter fun p => p.2.isExpired now)
      (l.filter (Twin.FrameCollector.due cfg.timeoutNs now)) := by
    intro hmeets
    refine List.rel_filter (R := fun (p : PendingKey × PendingFrame) (q : String × Twin.Pending) =>
      p ∈ c.pending.entries ∧ q.1 = keyText p.1 ∧ SameFrame cfg now p.2 q.2) ?_ hall
    intro p q hpq
    dsimp only
    rw [hdue p hpq.1 q hpq.2.2.openedNs, isExpired_iff hpq.2.2.deadlineNs]
    refine ⟨fun hor => hor.elim id fun hown => ?_, .inl⟩
    exact hmeets p.2 (List.mem_map_of_mem hpq.1) hown.1 hown.2
  unfold FrameCollector.sweep Twin.FrameCollector.sweep
  rw [hpub, hclear, List.nil_append, hres]
  refine ⟨⟨fun hsame f hf hown hpast => ?_, fun hmeets => ?_⟩, fun hmeets => ?_⟩
  · obtain ⟨p, hp, rfl⟩ := List.mem_map.mp hf
    obtain ⟨q, -, hpq⟩ := h.pending.get (Dict.get?_eq_some_iff.mpr hp)
    have hexp : p.2.isExpired now = true := (isExpired_iff hpq.deadlineNs).mpr (.inr ⟨hown, hpast⟩)
    have hmem : p ∈ c.pending.entries.filter fun p => p.2.isExpired now := List.mem_filter.mpr ⟨hp, hexp⟩
    obtain ⟨r, hr, hsame⟩ := hsame.exists_of_mem (List.mem_map_of_mem hmem)
    obtain ⟨p', hp', rfl⟩ := List.mem_map.mp hr
    obtain ⟨hp', htaken⟩ := List.mem_filter.mp hp'
    obtain ⟨key, f, -, hget', hsame'⟩ := h.pending.back (SortedMap.mem_toList.mp hp')
    -- the frame that the other took is this one
    have hentry := Dict.get?_eq_some_iff.mp hget'
    have hstate : f.state = p.2.state := hsame'.state.trans hsame.state.symm
    have hkey : key = p.1 :=
      (h.keeps.keyed _ hentry).symm.trans ((congrArg FrameState.key hstate).trans (h.keeps.keyed _ hp))
    rw [hkey, Dict.get?_eq_some_iff.mpr hp, Option.some.injEq] at hget'
    rw [hget']
    exact (hdue (key, f) hentry p' hsame'.openedNs).mp htaken
  · refine ⟨_, (hperm.filter _).map _, ?_⟩
    rw [List.forall₂_map_left_iff, List.forall₂_map_right_iff]
    exact (hexpired hmeets).imp fun p q hpq => hpq.2.2.result .timeout
  · have htexts : ((l.filter (Twin.FrameCollector.due cfg.timeoutNs now)).map Prod.fst) =
        (c.pending.entries.filter fun p => p.2.isExpired now).map fun p => keyText p.1 := by
      symm
      rw [← List.forall₂_eq_eq_eq, List.forall₂_map_left_iff, List.forall₂_map_right_iff]
      exact (hexpired hmeets).imp fun p q hpq => hpq.2.1.symm
    have hgone : ∀ key, keyText key ∈ (t.pending.toList.filter (Twin.FrameCollector.due cfg.timeoutNs now)).map Prod.fst ↔
        key ∈ (c.pending.entries.filter fun p => p.2.isExpired now).map Prod.fst := by
      intro key
      rw [← ((hperm.filter _).map Prod.fst).mem_iff, htexts, List.mem_map, List.mem_map]
      exact exists_congr fun p => and_congr_right fun _ => ⟨keyText_inj, congrArg keyText⟩
    refine ⟨h.keeps.moves (FrameCollector.removeAll_moves .timeout now _ c), ⟨fun key => ?_, fun text q hq => ?_⟩, hcounted⟩
    · rw [hget, hfind]
      by_cases hkey : key ∈ (c.pending.entries.filter fun p => p.2.isExpired now).map Prod.fst
      · rw [if_pos hkey, if_pos ((hgone key).mpr hkey)]
        exact .none
      · rw [if_neg hkey, if_neg fun hin => hkey ((hgone key).mp hin)]
        exact h.pending.frames key
    · rw [hfind] at hq
      split at hq
      · cases hq
      · exact h.pending.keyed text q hq

end

/-! ## Scripts -/

theorem publishAll_eq (c : FrameCollector) : c.publishAll.pending = c.pending ∧ c.publishAll.byCamera = c.byCamera ∧
    c.publishAll.publishing = [] := by
  have hstep : ∀ (l : List FrameResult) (c : FrameCollector), c.publishing.length = l.length →
      (l.foldl (fun c _ => (c.publish 0).1) c).pending = c.pending ∧
        (l.foldl (fun c _ => (c.publish 0).1) c).byCamera = c.byCamera ∧
        (l.foldl (fun c _ => (c.publish 0).1) c).publishing = [] := by
    intro l
    induction l with
    | nil => exact fun c hlen => ⟨rfl, rfl, List.length_eq_zero_iff.mp hlen⟩
    | cons r l ih =>
      intro c hlen
      cases hp : c.publishing with
      | nil =>
        rw [hp] at hlen
        cases hlen
      | cons r' l' =>
        have hone : (c.publish 0).1.pending = c.pending ∧ (c.publish 0).1.byCamera = c.byCamera ∧
            (c.publish 0).1.publishing = l' := by
          unfold FrameCollector.publish
          rw [hp]
          simp only [List.getElem?_cons_zero]
          split <;> exact ⟨rfl, rfl, rfl⟩
        rw [List.foldl_cons, ← hone.1, ← hone.2.1]
        apply ih
        rw [hone.2.2]
        rw [hp] at hlen
        exact Nat.succ.inj hlen
  exact hstep c.publishing c rfl

/-- What a call asks of the Python collector for the two to do the same. -/
def Meets (cfg : Config) (s : Timed FrameCollector) : Call → Prop
  | .open state _ => MeetsOpen cfg s.collector state
  | .expect _ _ => True
  | .deliver _ _ => True
  | .seal _ => True
  | .sweep => MeetsSweep cfg s.now s.collector
  | .drain => True
  | .advance _ => True

/-- What holds between the two after every call. -/
structure Agrees (cfg : Config) (s : Timed FrameCollector) (t : Timed Twin.FrameCollector) : Prop where
  now : s.now = t.now
  clear : s.collector.publishing = []
  beside : Beside cfg s.now s.collector t.collector

theorem Beside.agrees {cfg : Config} {now : Int} {c : FrameCollector} {t : Twin.FrameCollector} (h : Beside cfg now c t) :
    Agrees cfg { collector := c.publishAll, now := now } { collector := t, now := now } := by
  obtain ⟨hpending, hcamera, hclear⟩ := publishAll_eq c
  refine ⟨rfl, hclear, ⟨?_, ?_, ?_⟩, ?_, h.counted⟩
  · rw [hpending]
    exact h.keeps.bounded
  · rw [hpending]
    exact h.keeps.keyed
  · rw [hpending, hcamera]
    exact h.keeps.indexed
  · rw [hpending]
    exact h.pending

theorem agrees_start (cfg : Config) (now : Int) : Agrees cfg { collector := {}, now := now } { collector := {}, now := now } where
  now := rfl
  clear := rfl
  beside := ⟨⟨Nat.zero_le _, fun _ hp => (List.not_mem_nil hp).elim,
    FrameCollector.indexed_empty.congr fun _ => ⟨False.elim, fun h => List.not_mem_nil h⟩⟩, samePending_empty,
    Twin.FrameCollector.counted_empty⟩

theorem call_agrees {cfg : Config} (hpolicy : cfg.policy = greediestCameraEviction) (s : Timed FrameCollector)
    (t : Timed Twin.FrameCollector) (call : Call) (h : Agrees cfg s t) :
    (SameAnswer (FrameCollector.call cfg s call).2 (Twin.FrameCollector.call cfg t call).2 ↔ Meets cfg s call) ∧
      (Meets cfg s call → Agrees cfg (FrameCollector.call cfg s call).1 (Twin.FrameCollector.call cfg t call).1) := by
  obtain ⟨c, now⟩ := s
  obtain ⟨t, now'⟩ := t
  obtain ⟨hnow, hclear, hbeside⟩ := h
  dsimp only at hnow hclear hbeside
  subst hnow
  cases call with
  | «open» state expected =>
    obtain ⟨hiff, hkeep⟩ := hbeside.open hpolicy hclear state expected
    refine ⟨?_, fun hmeets => (hkeep hmeets).agrees⟩
    rw [show Meets cfg ⟨c, now⟩ (.open state expected) = MeetsOpen cfg c state from rfl, ← hiff]
    exact ⟨fun h => ⟨Option.some.inj h.admitted, h.finished⟩, fun h => ⟨congrArg some h.1, h.2⟩⟩
  | expect key stages =>
    have hpub : (c.expect key stages).1.publishing = c.publishing := by
      unfold FrameCollector.expect
      split
      · rfl
      · split <;> rfl
    exact ⟨iff_of_true ⟨rfl, .nil⟩ trivial, fun _ => ⟨rfl, hpub.trans hclear, hbeside.expect key stages⟩⟩
  | deliver key stage =>
    have hpub : (c.deliver key stage).1.publishing = c.publishing := by
      unfold FrameCollector.deliver
      split <;> rfl
    exact ⟨iff_of_true ⟨rfl, .nil⟩ trivial, fun _ => ⟨rfl, hpub.trans hclear, hbeside.deliver key stage⟩⟩
  | «seal» key =>
    obtain ⟨hsame, hkeep⟩ := hbeside.seal hclear key
    exact ⟨iff_of_true ⟨rfl, hsame⟩ trivial, fun _ => hkeep.agrees⟩
  | sweep =>
    obtain ⟨hiff, hkeep⟩ := hbeside.sweep hclear
    refine ⟨?_, fun hmeets => (hkeep hmeets).agrees⟩
    rw [show Meets cfg ⟨c, now⟩ .sweep = MeetsSweep cfg now c from rfl, ← hiff]
    exact ⟨fun h => h.finished, fun h => ⟨rfl, h⟩⟩
  | drain =>
    obtain ⟨hsame, hkeep⟩ := hbeside.drain hclear
    exact ⟨iff_of_true ⟨rfl, hsame⟩ trivial, fun _ => hkeep.agrees⟩
  | advance ns =>
    refine ⟨iff_of_true ⟨rfl, .nil⟩ trivial, fun _ => ⟨rfl, hclear, hbeside.keeps, ?_, hbeside.counted⟩⟩
    exact hbeside.pending.later (Int.le_add_of_nonneg_right (Int.natCast_nonneg ns))

/-- The two answer a script alike just as long as the frames they evict and those they sweep meet the
conditions. -/
theorem collectors_agree_iff (capacity : Nat) (timeoutMs now : Int) (script : List Call) :
    List.Forall₂ SameAnswer
      (Machine.exec (FrameCollector.call ⟨capacity, timeoutMs, greediestCameraEviction⟩) { collector := {}, now := now } script).2
      (Machine.exec (Twin.FrameCollector.call ⟨capacity, timeoutMs, greediestCameraEviction⟩) { collector := {}, now := now } script).2 ↔
    Machine.Along (FrameCollector.call ⟨capacity, timeoutMs, greediestCameraEviction⟩)
      (Meets ⟨capacity, timeoutMs, greediestCameraEviction⟩) { collector := {}, now := now } script :=
  Machine.exec_related_iff (call_agrees rfl) script _ _ (agrees_start _ now)

/-! ## Where they differ -/

theorem SameResults.states {l : List FrameResult} {m : List Twin.Result} (h : SameResults l m) :
    (l.map FrameResult.state).Perm (m.map Twin.Result.state) := by
  obtain ⟨m', hperm, hall⟩ := h
  have heq : l.map FrameResult.state = m'.map Twin.Result.state := by
    rw [← List.forall₂_eq_eq_eq, List.forall₂_map_left_iff, List.forall₂_map_right_iff]
    exact hall.imp fun _ _ hsame => hsame.state
  rw [heq]
  exact hperm.map _

/-- Scripts answered alike finish the same frames. -/
theorem finished_perm {as : List (Answer FrameResult)} {bs : List (Answer Twin.Result)} (h : List.Forall₂ SameAnswer as bs) :
    (as.flatMap fun a => a.finished.map FrameResult.state).Perm (bs.flatMap fun b => b.finished.map Twin.Result.state) := by
  induction h with
  | nil => exact .nil
  | cons hab _ ih =>
    rw [List.flatMap_cons, List.flatMap_cons]
    exact hab.finished.states.append ih

/-- A frame of the camera `quay`. -/
def quay (frame deadlineNs : Int) : FrameState :=
  { context := { cameraId := "quay", frameId := frame }, deadlineNs := deadlineNs }

def twoAtMost : Config := ⟨2, 1000, greediestCameraEviction⟩

/-- Of the frames 9 and 10 the one evicts the older, the other the first by the text of its key. -/
def evicting : List Call := [.open (quay 9 0) [], .open (quay 10 0) [], .open (quay 11 0) []]

/-- A frame past its own deadline, within the timeout. -/
def sweeping : List Call := [.open (quay 9 5) [], .advance 10, .sweep]

theorem evicts_and_sweeps_apart :
    ¬ List.Forall₂ SameAnswer (Machine.exec (FrameCollector.call twoAtMost) { collector := {} } evicting).2
        (Machine.exec (Twin.FrameCollector.call twoAtMost) { collector := {} } evicting).2 ∧
      ¬ List.Forall₂ SameAnswer (Machine.exec (FrameCollector.call twoAtMost) { collector := {} } sweeping).2
        (Machine.exec (Twin.FrameCollector.call twoAtMost) { collector := {} } sweeping).2 := by
  constructor
  · intro h
    exact absurd (finished_perm h) (by decide +kernel)
  · intro h
    exact absurd (finished_perm h) (by decide +kernel)

end ShipInfer.Reassembly
