import Mathlib.Data.List.Range
import Mathlib.Tactic.Linarith
import ShipInfer.Barrier.Model

/-!
# What holds of a barrier in every interleaving

`Inv` is the state invariant, `Grows` what a step may do to the buckets there
already are: a bucket that takes no more entries keeps the ones it has, and one
that ended keeps its reason and its results. A critical section is a chain of a
few writes; each write has one lemma here (`Keeps`), and the operations follow
the source's order of writes.
-/

namespace ShipInfer.Barrier

variable {Camera Payload Results : Type}

/-- A bucket as the barrier builds it: one entry for each camera that reported,
all captures inside a span shorter than the window. -/
structure Bucket.WF (cfg : Config) (b : Bucket Camera Payload Results) : Prop where
  cameras : b.entries.map InstantEntry.cameraId = b.reported.keys
  inside : ∀ p ∈ b.reported.entries, b.first ≤ p.2 ∧ p.2 ≤ b.last
  spread : b.last - b.first < cfg.windowS

/-- What may become of a bucket. -/
structure Bucket.Grows (b c : Bucket Camera Payload Results) : Prop where
  instant : c.instant = b.instant
  entries : b.entries <+: c.entries
  frozen : b.ready = true ∨ b.done = true → c.entries = b.entries ∧ (c.ready = true ∨ c.done = true)
  ended : b.done = true → c.done = true ∧ c.reason = b.reason ∧ c.results = b.results

namespace Bucket

theorem Grows.refl (b : Bucket Camera Payload Results) : b.Grows b :=
  ⟨rfl, List.prefix_refl _, fun h => ⟨rfl, h⟩, fun h => ⟨h, rfl, rfl⟩⟩

theorem Grows.trans {a b c : Bucket Camera Payload Results} (hab : a.Grows b) (hbc : b.Grows c) : a.Grows c where
  instant := hbc.instant.trans hab.instant
  entries := hab.entries.trans hbc.entries
  frozen h := by
    obtain ⟨h₁, h₁'⟩ := hab.frozen h
    obtain ⟨h₂, h₂'⟩ := hbc.frozen h₁'
    exact ⟨h₂.trans h₁, h₂'⟩
  ended h := by
    obtain ⟨h₁, hr₁, hs₁⟩ := hab.ended h
    obtain ⟨h₂, hr₂, hs₂⟩ := hbc.ended h₁
    exact ⟨h₂, hr₂.trans hr₁, hs₂.trans hs₁⟩

theorem grows_resolve {b : Bucket Camera Payload Results} (h : b.done = false) (r : Reason) (res : Option Results) :
    b.Grows (b.resolve r res) :=
  ⟨rfl, List.prefix_refl _, fun _ => ⟨rfl, .inr rfl⟩, fun hd => absurd hd (by simp [h])⟩

/-- A write that leaves the entries and the outcome alone, and only ever seals. -/
theorem grows_of_flags {b c : Bucket Camera Payload Results} (hi : c.instant = b.instant)
    (he : c.entries = b.entries) (hr : b.ready = true → c.ready = true) (hd : c.done = b.done)
    (hs : c.reason = b.reason) (hq : c.results = b.results) : b.Grows c where
  instant := hi
  entries := he ▸ List.prefix_refl _
  frozen h := ⟨he, h.imp hr fun h => hd.trans h⟩
  ended h := ⟨hd.trans h, hs, hq⟩

theorem WF.resolve {cfg : Config} {b : Bucket Camera Payload Results} (h : b.WF cfg) (r : Reason)
    (res : Option Results) : (b.resolve r res).WF cfg := { h with }

theorem WF.cameras_nodup {cfg : Config} {b : Bucket Camera Payload Results} (h : b.WF cfg) :
    (b.entries.map InstantEntry.cameraId).Nodup := h.cameras ▸ b.reported.keys_nodup

/-- Any two captures of one instant are less than a window apart. -/
theorem WF.captures {cfg : Config} {b : Bucket Camera Payload Results} (h : b.WF cfg) {t u : ℚ}
    (ht : t ∈ b.reported.values) (hu : u ∈ b.reported.values) : t - u < cfg.windowS := by
  obtain ⟨p, hp, rfl⟩ := List.mem_map.mp ht
  obtain ⟨q, hq, rfl⟩ := List.mem_map.mp hu
  have h₁ := (h.inside p hp).2
  have h₂ := (h.inside q hq).1
  have h₃ := h.spread
  linarith

variable [DecidableEq Camera]

theorem grows_join {b : Bucket Camera Payload Results} (hr : b.ready = false) (hd : b.done = false)
    (call : Call Camera Payload Results) : b.Grows (b.join call) where
  instant := rfl
  entries := List.prefix_append _ _
  frozen h := by rcases h with h | h <;> simp_all
  ended h := by simp_all

theorem WF.join {cfg : Config} {b : Bucket Camera Payload Results} {call : Call Camera Payload Results}
    (h : b.WF cfg) (hnew : call.cameraId ∉ b.reported.keys) (hs : b.spreadWith call.captureS < cfg.windowS) :
    (b.join call).WF cfg where
  cameras := by
    rw [Bucket.join, Dict.keys_set, if_neg hnew, List.map_append, h.cameras]
    rfl
  inside p hp := by
    simp only [Bucket.join, Dict.mem_set_entries] at hp ⊢
    rcases hp with rfl | ⟨hp, -⟩
    · exact ⟨min_le_right _ _, le_max_right _ _⟩
    · exact ⟨(min_le_left _ _).trans (h.inside p hp).1, (h.inside p hp).2.trans (le_max_left _ _)⟩
  spread := hs

end Bucket

namespace State

/-- The invariant of a barrier's state. -/
structure Inv (cfg : Config) (s : State Camera Payload Results) : Prop where
  ids : (s.all.map Bucket.instant).Perm (List.range' 1 s.nextInstant)
  isOpen : ∀ b ∈ s.buckets, b.done = false
  isEnded : ∀ b ∈ s.ended, b.done = true ∧ b.reason.isSome
  wf : ∀ b ∈ s.all, b.WF cfg
  counts : ∀ r, s.instantCounts r = s.ended.countP fun b => decide (b.reason = some r)
  once : (s.associations.map Association.instant).Nodup
  consumed : ∀ a ∈ s.associations, ∃ b ∈ s.ended, b.instant = a.instant ∧ b.entries = a.entries ∧ b.results = a.results
  answered : ∀ b ∈ s.ended, b.results.isSome → ∃ a ∈ s.associations, a.instant = b.instant
  held : ∀ w ∈ s.parked, ∃ b ∈ s.all, b.instant = w.instant ∧ w.call.entry ∈ b.entries

/-- What a step does to the buckets and associations there already are. -/
structure Grows (s t : State Camera Payload Results) : Prop where
  buckets : ∀ b ∈ s.all, ∃ c ∈ t.all, b.Grows c
  associations : s.associations <+: t.associations

/-- A write that keeps the invariant and only grows what is there. -/
structure Keeps (cfg : Config) (s t : State Camera Payload Results) : Prop where
  inv : t.Inv cfg
  grows : s.Grows t
  closed : t.closed = s.closed

theorem Grows.refl (s : State Camera Payload Results) : s.Grows s :=
  ⟨fun b hb => ⟨b, hb, .refl b⟩, List.prefix_refl _⟩

theorem Grows.trans {s t u : State Camera Payload Results} (hst : s.Grows t) (htu : t.Grows u) : s.Grows u where
  buckets b hb := by
    obtain ⟨c, hc, hbc⟩ := hst.buckets b hb
    obtain ⟨d, hd, hcd⟩ := htu.buckets c hc
    exact ⟨d, hd, hbc.trans hcd⟩
  associations := hst.associations.trans htu.associations

theorem Keeps.trans {cfg : Config} {s t u : State Camera Payload Results} (hst : s.Keeps cfg t) (htu : t.Keeps cfg u) :
    s.Keeps cfg u := ⟨htu.inv, hst.grows.trans htu.grows, htu.closed.trans hst.closed⟩

section
variable {cfg : Config} {s : State Camera Payload Results}

theorem mem_all {b : Bucket Camera Payload Results} : b ∈ s.all ↔ b ∈ s.buckets ∨ b ∈ s.ended := List.mem_append

theorem Inv.nodup (h : s.Inv cfg) : (s.all.map Bucket.instant).Nodup := h.ids.nodup_iff.mpr List.nodup_range'

/-- An instant id is held by one bucket. -/
theorem Inv.unique (h : s.Inv cfg) {b c : Bucket Camera Payload Results} (hb : b ∈ s.all) (hc : c ∈ s.all)
    (hi : b.instant = c.instant) : b = c := List.inj_on_of_nodup_map h.nodup hb hc hi

theorem Inv.ended_of_done (h : s.Inv cfg) {b : Bucket Camera Payload Results} (hb : b ∈ s.all) (hd : b.done = true) :
    b ∈ s.ended := by
  rcases mem_all.mp hb with ho | he
  · rw [h.isOpen b ho] at hd; cases hd
  · exact he

/-- The instants opened so far are 1 to `nextInstant`, one bucket each. -/
theorem Inv.exists_unique (h : s.Inv cfg) {i : Nat} (h1 : 1 ≤ i) (hi : i ≤ s.nextInstant) :
    ∃! b, b ∈ s.all ∧ b.instant = i := by
  have hm : i ∈ s.all.map Bucket.instant := h.ids.mem_iff.mpr (List.mem_range'_1.mpr ⟨h1, by omega⟩)
  obtain ⟨b, hb, rfl⟩ := List.mem_map.mp hm
  exact ⟨b, ⟨hb, rfl⟩, fun c hc => h.unique hc.1 hb hc.2⟩

theorem Inv.instant_mem (h : s.Inv cfg) {b : Bucket Camera Payload Results} (hb : b ∈ s.all) :
    1 ≤ b.instant ∧ b.instant ≤ s.nextInstant := by
  have hm := h.ids.mem_iff.mp (List.mem_map_of_mem hb)
  rw [List.mem_range'_1] at hm
  omega

theorem Keeps.refl (h : s.Inv cfg) : s.Keeps cfg s := ⟨h, .refl s, rfl⟩

/-- A write to none of the fields the invariant speaks of. -/
theorem Keeps.of_fields (h : s.Inv cfg) {t : State Camera Payload Results} (hb : t.buckets = s.buckets)
    (he : t.ended = s.ended) (hn : t.nextInstant = s.nextInstant) (hc : t.instantCounts = s.instantCounts)
    (ha : t.associations = s.associations) (hp : t.parked = s.parked) (hcl : t.closed = s.closed) : s.Keeps cfg t := by
  have hall : t.all = s.all := by rw [all, all, hb, he]
  refine ⟨⟨?_, ?_, ?_, ?_, ?_, ?_, ?_, ?_, ?_⟩, ⟨?_, ?_⟩, hcl⟩
  · rw [hall, hn]; exact h.ids
  · rw [hb]; exact h.isOpen
  · rw [he]; exact h.isEnded
  · rw [hall]; exact h.wf
  · rw [hc, he]; exact h.counts
  · rw [ha]; exact h.once
  · rw [ha, he]; exact h.consumed
  · rw [ha, he]; exact h.answered
  · rw [hp, hall]; exact h.held
  · rw [hall]; exact fun b hb => ⟨b, hb, .refl b⟩
  · rw [ha]

theorem keeps_missed (h : s.Inv cfg) (r : Reason) (i : Nat) : s.Keeps cfg (s.missed r i).1 :=
  .of_fields h rfl rfl rfl rfl rfl rfl rfl

/-! ## Writes to one bucket -/

theorem all_mapAll (g : Bucket Camera Payload Results → Bucket Camera Payload Results) :
    (s.mapAll g).all = s.all.map g := List.map_append.symm

/-- The buckets after a map that keeps ids, ends and well-formedness. -/
structure Remap (cfg : Config) (s : State Camera Payload Results)
    (g : Bucket Camera Payload Results → Bucket Camera Payload Results) : Prop where
  grows : ∀ b ∈ s.all, b.Grows (g b)
  done : ∀ b ∈ s.all, (g b).done = b.done
  reason : ∀ b ∈ s.all, (g b).reason = b.reason
  results : ∀ b ∈ s.all, (g b).results = b.results
  wf : ∀ b ∈ s.all, (g b).WF cfg

theorem keeps_map (h : s.Inv cfg) {g : Bucket Camera Payload Results → Bucket Camera Payload Results}
    (hg : s.Remap cfg g) : s.Keeps cfg (s.mapAll g) := by
  have hall : (s.mapAll g).all = s.all.map g := all_mapAll g
  have hin : ∀ b ∈ s.ended, b ∈ s.all := fun b hb => mem_all.mpr (.inr hb)
  refine ⟨⟨?_, ?_, ?_, ?_, ?_, h.once, ?_, ?_, ?_⟩, ⟨?_, List.prefix_refl _⟩, rfl⟩
  · have hids : (s.all.map g).map Bucket.instant = s.all.map Bucket.instant := by
      rw [List.map_map]
      exact List.map_congr_left fun b hb => (hg.grows b hb).instant
    rw [hall, hids]
    exact h.ids
  · intro c hc
    obtain ⟨b, hb, rfl⟩ := List.mem_map.mp hc
    rw [hg.done b (mem_all.mpr (.inl hb))]; exact h.isOpen b hb
  · intro c hc
    obtain ⟨b, hb, rfl⟩ := List.mem_map.mp hc
    rw [hg.done b (hin b hb), hg.reason b (hin b hb)]; exact h.isEnded b hb
  · intro c hc
    rw [hall] at hc
    obtain ⟨b, hb, rfl⟩ := List.mem_map.mp hc
    exact hg.wf b hb
  · intro r
    show s.instantCounts r = (s.ended.map g).countP _
    rw [List.countP_map]
    exact (h.counts r).trans (List.countP_congr fun b hb => by simp [hg.reason b (hin b hb)])
  · intro a ha
    obtain ⟨b, hb, hi, he, hr⟩ := h.consumed a ha
    have hgb := hg.grows b (hin b hb)
    refine ⟨g b, List.mem_map_of_mem hb, hgb.instant.trans hi, ?_, (hg.results b (hin b hb)).trans hr⟩
    exact (hgb.frozen (.inr (h.isEnded b hb).1)).1.trans he
  · intro c hc hs
    obtain ⟨b, hb, rfl⟩ := List.mem_map.mp hc
    rw [hg.results b (hin b hb)] at hs
    rw [(hg.grows b (hin b hb)).instant]
    exact h.answered b hb hs
  · intro w hw
    obtain ⟨b, hb, hi, he⟩ := h.held w hw
    have hgb := hg.grows b hb
    exact ⟨g b, hall ▸ List.mem_map_of_mem hb, hgb.instant.trans hi, hgb.entries.subset he⟩
  · intro b hb
    exact ⟨g b, hall ▸ List.mem_map_of_mem hb, hg.grows b hb⟩

/-- A write to flags and counters of buckets: no entry, capture or outcome changes. -/
theorem remap_of_flags (h : s.Inv cfg) {g : Bucket Camera Payload Results → Bucket Camera Payload Results}
    (hg : ∀ b ∈ s.all, ∃ (k : Nat) (y : Bool) (r : Reason), (b.ready = true → y = true) ∧
      g b = { b with waiters := k, ready := y, readyReason := r }) : s.Remap cfg g := by
  refine ⟨?_, ?_, ?_, ?_, ?_⟩ <;> intro b hb <;> obtain ⟨k, y, r, hy, hgb⟩ := hg b hb <;> rw [hgb]
  · exact Bucket.grows_of_flags rfl rfl hy rfl rfl rfl
  · exact { h.wf b hb with }

theorem keeps_modify_flags (h : s.Inv cfg) (i : Nat) {f : Bucket Camera Payload Results → Bucket Camera Payload Results}
    (hf : ∀ b ∈ s.all, ∃ (k : Nat) (y : Bool) (r : Reason), (b.ready = true → y = true) ∧
      f b = { b with waiters := k, ready := y, readyReason := r }) : s.Keeps cfg (s.modify i f) := by
  refine keeps_map h (remap_of_flags h fun b hb => ?_)
  by_cases hi : b.instant = i
  · simp only [if_pos hi]; exact hf b hb
  · simp only [if_neg hi]; exact ⟨b.waiters, b.ready, b.readyReason, id, rfl⟩

theorem keeps_seal (h : s.Inv cfg) (i : Nat) (r : Reason) : s.Keeps cfg (s.modify i fun b => b.sealWith r) :=
  keeps_modify_flags h i fun b _ => ⟨b.waiters, true, r, fun _ => rfl, rfl⟩

/-- Sealing open buckets under a test; those that have ended stay as they are. -/
theorem keeps_sealWhere (h : s.Inv cfg) (p : Bucket Camera Payload Results → Prop) [DecidablePred p] (r : Reason) :
    s.Keeps cfg { s with buckets := s.buckets.map fun b => if p b then b.sealWith r else b } := by
  let g (b : Bucket Camera Payload Results) : Bucket Camera Payload Results :=
    if b.done = false ∧ p b then b.sealWith r else b
  have hbuckets : (s.buckets.map fun b => if p b then b.sealWith r else b) = s.buckets.map g :=
    List.map_congr_left fun b hb => by simp only [g, h.isOpen b hb, true_and]
  have hended : s.ended.map g = s.ended := by
    refine (List.map_congr_left fun b hb => ?_).trans s.ended.map_id
    simp only [g, (h.isEnded b hb).1, Bool.true_eq_false, false_and, if_false, id]
  have hg : { s with buckets := s.buckets.map fun b => if p b then b.sealWith r else b } = s.mapAll g := by
    rw [mapAll, hbuckets, hended]
  rw [hg]
  refine keeps_map h (remap_of_flags h fun b _ => ?_)
  by_cases hw : b.done = false ∧ p b
  · exact ⟨b.waiters, true, r, fun _ => rfl, if_pos hw⟩
  · exact ⟨b.waiters, b.ready, b.readyReason, id, if_neg hw⟩

/-! ## The end of a bucket -/

theorem mem_all_endBucket {b c : Bucket Camera Payload Results} {r : Reason} {res : Option Results} :
    c ∈ (s.endBucket b r res).all ↔
      (c ∈ s.buckets ∧ c.instant ≠ b.instant) ∨ c ∈ s.ended ∨ c = b.resolve r res := by
  simp only [all, endBucket, event, remember, List.mem_append, List.mem_filter, decide_eq_true_eq,
    List.mem_singleton]

theorem ids_endBucket (h : s.Inv cfg) {b : Bucket Camera Payload Results} (hb : b ∈ s.buckets) (r : Reason)
    (res : Option Results) : ((s.endBucket b r res).all.map Bucket.instant).Perm (s.all.map Bucket.instant) := by
  have hn : (s.buckets.map Bucket.instant).Nodup := by
    have := h.nodup
    rw [all, List.map_append] at this
    exact this.of_append_left
  have hf : (s.buckets.filter fun c => decide (c.instant ≠ b.instant)).map Bucket.instant =
      (s.buckets.map Bucket.instant).erase b.instant := by
    rw [hn.erase_eq_filter, List.filter_map]
    congr 1
    refine List.filter_congr fun c _ => ?_
    by_cases hc : c.instant = b.instant <;> simp [hc]
  have hp : (s.buckets.map Bucket.instant).Perm
      (b.instant :: (s.buckets.map Bucket.instant).erase b.instant) :=
    List.perm_cons_erase (List.mem_map_of_mem hb)
  calc (s.endBucket b r res).all.map Bucket.instant
      = (s.buckets.map Bucket.instant).erase b.instant ++ (s.ended.map Bucket.instant ++ [b.instant]) := by
        simp only [all, endBucket, event, remember, List.map_append, hf]; rfl
    _ |>.Perm (b.instant :: ((s.buckets.map Bucket.instant).erase b.instant ++ s.ended.map Bucket.instant)) := by
        rw [← List.append_assoc]; exact List.perm_append_singleton _ _
    _ |>.Perm (s.all.map Bucket.instant) := by
        rw [all, List.map_append]; exact (hp.append_right _).symm

theorem countP_resolve {b : Bucket Camera Payload Results} {r r' : Reason} {res : Option Results}
    (l : List (Bucket Camera Payload Results)) :
    (l ++ [b.resolve r res]).countP (fun c => decide (c.reason = some r')) =
      l.countP (fun c => decide (c.reason = some r')) + if r = r' then 1 else 0 := by
  rw [List.countP_append, List.countP_singleton]
  by_cases h : r = r' <;> simp [Bucket.resolve, h]

theorem grows_endBucket (h : s.Inv cfg) {b : Bucket Camera Payload Results} (hb : b ∈ s.buckets) (r : Reason)
    (res : Option Results) : ∀ c ∈ s.all, ∃ d ∈ (s.endBucket b r res).all, c.Grows d := by
  intro c hc
  by_cases hi : c.instant = b.instant
  · rw [h.unique hc (mem_all.mpr (.inl hb)) hi]
    exact ⟨b.resolve r res, mem_all_endBucket.mpr (.inr (.inr rfl)), Bucket.grows_resolve (h.isOpen b hb) r res⟩
  · refine ⟨c, mem_all_endBucket.mpr ?_, .refl c⟩
    exact (mem_all.mp hc).imp (fun ho => ⟨ho, hi⟩) .inl

/-- No association has consumed an open bucket. -/
theorem Inv.not_consumed (h : s.Inv cfg) {b : Bucket Camera Payload Results} (hb : b ∈ s.buckets) :
    b.instant ∉ s.associations.map Association.instant := by
  intro hm
  obtain ⟨a, ha, hi⟩ := List.mem_map.mp hm
  obtain ⟨c, hc, hci, -⟩ := h.consumed a ha
  have hcb := h.unique (mem_all.mpr (.inr hc)) (mem_all.mpr (.inl hb)) (hci.trans hi)
  have hd := (h.isEnded c hc).1
  rw [hcb, h.isOpen b hb] at hd; cases hd

/-- A bucket ends with no results, or with those of the one association run over it. -/
theorem keeps_end (h : s.Inv cfg) {b : Bucket Camera Payload Results} (hb : b ∈ s.buckets) (r : Reason)
    {res : Option Results} {runs : List (Association Camera Payload Results)}
    (hruns : runs = [] ∧ res = none ∨ runs = [⟨b.instant, b.entries, res⟩]) :
    s.Keeps cfg { s.endBucket b r res with associations := s.associations ++ runs } := by
  have hkeep := grows_endBucket h hb r res
  refine ⟨⟨?_, ?_, ?_, ?_, ?_, ?_, ?_, ?_, ?_⟩, ⟨hkeep, List.prefix_append _ _⟩, rfl⟩
  · exact (ids_endBucket h hb r res).trans h.ids
  · exact fun c hc => h.isOpen c (List.mem_of_mem_filter hc)
  · intro c hc
    rcases List.mem_append.mp hc with hc | hc
    · exact h.isEnded c hc
    · rw [List.mem_singleton.mp hc]; exact ⟨rfl, rfl⟩
  · intro c hc
    rcases mem_all_endBucket.mp hc with ⟨hc, -⟩ | hc | rfl
    · exact h.wf c (mem_all.mpr (.inl hc))
    · exact h.wf c (mem_all.mpr (.inr hc))
    · exact (h.wf b (mem_all.mpr (.inl hb))).resolve r res
  · intro r'
    show Function.update s.instantCounts r (s.instantCounts r + 1) r' = (s.ended ++ [b.resolve r res]).countP _
    rw [countP_resolve, Function.update_apply, ← h.counts r']
    by_cases hr : r' = r
    · simp [hr]
    · rw [if_neg hr, if_neg (Ne.symm hr)]; rfl
  · rcases hruns with ⟨rfl, -⟩ | rfl
    · rw [List.append_nil]; exact h.once
    · rw [List.map_append]
      exact List.nodup_append.mpr ⟨h.once, List.nodup_singleton _, by
        intro i hi j hj
        rw [List.mem_singleton.mp hj]
        rintro rfl
        exact h.not_consumed hb hi⟩
  · intro a ha
    rcases List.mem_append.mp ha with ha | ha
    · obtain ⟨c, hc, hca⟩ := h.consumed a ha
      exact ⟨c, List.mem_append_left _ hc, hca⟩
    · rcases hruns with ⟨rfl, -⟩ | rfl
      · cases ha
      · rw [List.mem_singleton.mp ha]
        exact ⟨b.resolve r res, List.mem_append_right _ (List.mem_singleton_self _), rfl, rfl, rfl⟩
  · intro c hc hs
    rcases List.mem_append.mp hc with hc | hc
    · obtain ⟨a, ha, hi⟩ := h.answered c hc hs
      exact ⟨a, List.mem_append_left _ ha, hi⟩
    · rw [List.mem_singleton.mp hc] at hs ⊢
      rcases hruns with ⟨-, rfl⟩ | rfl
      · cases hs
      · exact ⟨_, List.mem_append_right _ (List.mem_singleton_self _), rfl⟩
  · intro w hw
    obtain ⟨c, hc, hi, he⟩ := h.held w hw
    obtain ⟨d, hd, hcd⟩ := hkeep c hc
    exact ⟨d, hd, hcd.instant.trans hi, hcd.entries.subset he⟩

theorem keeps_endBucket (h : s.Inv cfg) {b : Bucket Camera Payload Results} (hb : b ∈ s.buckets) (r : Reason) :
    s.Keeps cfg (s.endBucket b r none) := by
  have hk : s.Keeps cfg { s.endBucket b r none with associations := s.associations ++ [] } :=
    keeps_end h hb r (.inl ⟨rfl, rfl⟩)
  rw [List.append_nil] at hk
  exact hk

/-- A caller that closes an instant is answered with the results of the
association it ran, over the entries of the instant. -/
theorem keeps_close (h : s.Inv cfg) {b : Bucket Camera Payload Results} (hb : b ∈ s.buckets) (r : Reason)
    (associate : Associate Camera Payload Results) :
    s.Keeps cfg (s.close b r associate).1 ∧
      ∀ o res, (s.close b r associate).2 = .outcome o → o.results = some res →
        ⟨b.instant, b.entries, some res⟩ ∈ (s.close b r associate).1.associations ∧ o.instant = b.instant := by
  unfold close
  cases hres : associate b.entries with
  | none =>
    refine ⟨keeps_end h hb .failed (.inr rfl), ?_⟩
    intro o res ho
    cases ho
  | some results =>
    refine ⟨keeps_end h hb r (.inr rfl), ?_⟩
    intro o res ho hr
    cases ho
    cases hr
    exact ⟨List.mem_append_right _ (List.mem_singleton_self _), rfl⟩

/-- Ending several open buckets without an association. -/
theorem keeps_discard (reason : Bucket Camera Payload Results → Reason) :
    ∀ (bs : List (Bucket Camera Payload Results)) {s : State Camera Payload Results}, s.Inv cfg →
      (∀ b ∈ bs, b ∈ s.buckets) → (bs.map Bucket.instant).Nodup → s.Keeps cfg (s.discard reason bs)
  | [], _, h, _, _ => .refl h
  | b :: bs, s, h, hbs, hn => by
    rw [List.map_cons, List.nodup_cons] at hn
    have hk := keeps_endBucket h (hbs b List.mem_cons_self) (reason b)
    refine hk.trans (keeps_discard reason bs hk.inv (fun c hc => ?_) hn.2)
    refine List.mem_filter.mpr ⟨hbs c (List.mem_cons_of_mem _ hc), ?_⟩
    simp only [ne_eq, decide_eq_true_eq]
    exact fun hi => hn.1 (hi ▸ List.mem_map_of_mem hc)

theorem buckets_discard (reason : Bucket Camera Payload Results → Reason) :
    ∀ (bs : List (Bucket Camera Payload Results)) (s : State Camera Payload Results),
      (s.discard reason bs).buckets = s.buckets.filter fun c => decide (c.instant ∉ bs.map Bucket.instant)
  | [], s => by simp [discard]
  | b :: bs, s => by
    rw [discard, buckets_discard reason bs]
    simp only [endBucket, event, remember, List.filter_filter]
    refine List.filter_congr fun c _ => ?_
    simp only [List.map_cons, List.mem_cons, not_or, ne_eq, Bool.decide_and, decide_not, Bool.and_comm]

theorem nextInstant_discard (reason : Bucket Camera Payload Results → Reason) :
    ∀ (bs : List (Bucket Camera Payload Results)) (s : State Camera Payload Results),
      (s.discard reason bs).nextInstant = s.nextInstant
  | [], _ => rfl
  | _ :: bs, _ => nextInstant_discard reason bs _

theorem Inv.buckets_nodup (h : s.Inv cfg) : (s.buckets.map Bucket.instant).Nodup := by
  have := h.nodup
  rw [all, List.map_append] at this
  exact this.of_append_left

theorem keeps_discard_sublist (h : s.Inv cfg) (reason : Bucket Camera Payload Results → Reason)
    {bs : List (Bucket Camera Payload Results)} (hbs : bs.Sublist s.buckets) : s.Keeps cfg (s.discard reason bs) :=
  keeps_discard reason bs h (fun _ hb => hbs.subset hb) ((hbs.map _).nodup h.buckets_nodup)

theorem keeps_retire (h : s.Inv cfg) (now : ℚ) : s.Keeps cfg (s.retire now) := by
  unfold retire
  split
  · exact .refl h
  · split
    · exact .refl h
    · exact keeps_discard_sublist h _ List.filter_sublist

theorem keeps_evict (h : s.Inv cfg) : s.Keeps cfg s.evict := keeps_discard_sublist h _ (List.take_sublist _ _)

/-! ## A new instant, and joining one -/

theorem keeps_push (h : s.Inv cfg) {b : Bucket Camera Payload Results} (hi : b.instant = s.nextInstant + 1)
    (hd : b.done = false) (hw : b.WF cfg) :
    s.Keeps cfg { s with nextInstant := s.nextInstant + 1, buckets := s.buckets ++ [b] } := by
  have hmem : ∀ c ∈ s.buckets ++ [b] ++ s.ended, c ∈ s.all ∨ c = b := by
    intro c hc
    simp only [List.mem_append, List.mem_singleton] at hc
    rcases hc with (hc | rfl) | hc
    · exact .inl (mem_all.mpr (.inl hc))
    · exact .inr rfl
    · exact .inl (mem_all.mpr (.inr hc))
  have hkeep : ∀ c ∈ s.all, c ∈ s.buckets ++ [b] ++ s.ended := by
    intro c hc
    simp only [List.mem_append]
    exact (mem_all.mp hc).imp_left .inl
  have hids : ((s.buckets ++ [b] ++ s.ended).map Bucket.instant).Perm (s.all.map Bucket.instant ++ [b.instant]) := by
    rw [all, List.map_append, List.map_append, List.map_append, List.append_assoc, List.append_assoc]
    exact List.perm_append_comm.append_left _
  refine ⟨⟨?_, ?_, h.isEnded, ?_, h.counts, h.once, h.consumed, h.answered, ?_⟩, ⟨fun c hc => ?_, List.prefix_refl _⟩, rfl⟩
  · refine hids.trans ?_
    have hr : List.range' 1 (s.nextInstant + 1) = List.range' 1 s.nextInstant ++ [b.instant] := by
      rw [List.range'_concat, hi, Nat.one_mul, Nat.add_comm 1]
    exact hr ▸ h.ids.append_right _
  · intro c hc
    rcases List.mem_append.mp hc with hc | hc
    · exact h.isOpen c hc
    · rw [List.mem_singleton.mp hc]; exact hd
  · intro c hc
    rcases hmem c hc with hc | rfl
    · exact h.wf c hc
    · exact hw
  · intro w hw
    obtain ⟨c, hc, hcw⟩ := h.held w hw
    exact ⟨c, hkeep c hc, hcw⟩
  · exact ⟨c, hkeep c hc, .refl c⟩

/-- A bucket the frame of `call` may join. -/
structure Fits (cfg : Config) (b : Bucket Camera Payload Results) (call : Call Camera Payload Results) : Prop where
  ready : b.ready = false
  done : b.done = false
  spread : b.spreadWith call.captureS < cfg.windowS
  new : call.cameraId ∉ b.reported.keys

theorem openInstant_spec (h : s.Inv cfg) (call : Call Camera Payload Results) (now : ℚ) :
    s.Keeps cfg (openInstant cfg s call.captureS now).1 ∧
      (openInstant cfg s call.captureS now).2 ∈ (openInstant cfg s call.captureS now).1.buckets ∧
      Fits cfg (openInstant cfg s call.captureS now).2 call := by
  have he := keeps_evict h
  have hspread : call.captureS - call.captureS < cfg.windowS := by rw [sub_self]; exact cfg.window_pos
  refine ⟨he.trans (keeps_push he.inv rfl rfl ⟨rfl, ?_, hspread⟩), ?_, ⟨rfl, rfl, ?_, List.not_mem_nil⟩⟩
  · intro p hp; cases hp
  · exact List.mem_append_right _ (List.mem_singleton_self _)
  · simp only [Bucket.spreadWith, openInstant, max_self, min_self]; exact hspread

theorem keeps_park (h : s.Inv cfg) {b : Bucket Camera Payload Results} (hb : b ∈ s.all)
    {call : Call Camera Payload Results} (he : call.entry ∈ b.entries) : s.Keeps cfg (s.park call b.instant) := by
  have hk := keeps_modify_flags h b.instant (f := Bucket.wait)
    fun c _ => ⟨c.waiters + 1, c.ready, c.readyReason, id, rfl⟩
  refine ⟨{ hk.inv with held := fun w hw => ?_ }, ⟨hk.grows.buckets, hk.grows.associations⟩, rfl⟩
  rcases List.mem_append.mp hw with hw | hw
  · exact hk.inv.held w hw
  · rw [List.mem_singleton.mp hw]
    obtain ⟨c, hc, hbc⟩ := hk.grows.buckets b hb
    exact ⟨c, hc, hbc.instant, hbc.entries.subset he⟩

theorem keeps_unpark (h : s.Inv cfg) (w : Waiter Camera Payload Results) : s.Keeps cfg (s.unpark w) := by
  have hk := keeps_modify_flags h w.instant (f := Bucket.leave)
    fun c _ => ⟨c.waiters - 1, c.ready, c.readyReason, id, rfl⟩
  exact ⟨{ hk.inv with held := fun v hv => hk.inv.held v (List.mem_of_mem_eraseP hv) },
    ⟨hk.grows.buckets, hk.grows.associations⟩, rfl⟩

variable [DecidableEq Camera]

theorem place_spec (h : s.Inv cfg) (call : Call Camera Payload Results) (now : ℚ) :
    match place cfg s call now with
    | .error r => s.Keeps cfg r.1 ∧ r.2.results = none
    | .ok r => s.Keeps cfg r.1 ∧ r.2 ∈ r.1.buckets ∧ Fits cfg r.2 call := by
  unfold place
  cases hm : matchOpen cfg s call.captureS with
  | none =>
    cases hl : lateInstant s call.captureS with
    | some late => exact ⟨keeps_missed h .late late, rfl⟩
    | none => exact openInstant_spec h call now
  | some b =>
    have hb : b ∈ s.buckets := List.mem_reverse.mp (List.mem_of_find?_eq_some hm)
    have hp := List.find?_some hm
    simp only [Bool.and_eq_true, Bool.not_eq_true', Bool.or_eq_false_iff, decide_eq_true_eq] at hp
    dsimp only
    cases hr : b.reported.get? call.cameraId with
    | none => exact ⟨.refl h, hb, hp.1.1, hp.1.2, hp.2, Dict.get?_eq_none_iff.mp hr⟩
    | some reported =>
      dsimp only
      by_cases hc : call.captureS ≤ reported
      · rw [if_pos hc]; exact ⟨keeps_missed h .duplicate b.instant, rfl⟩
      · rw [if_neg hc]
        have hs := keeps_seal h b.instant .advanced
        obtain ⟨ho, hmem, hfit⟩ := openInstant_spec hs.inv call now
        exact ⟨hs.trans ho, hmem, hfit⟩

/-- Joining one's instant keeps the invariant, and the bucket with the frame in it is open. -/
theorem joinBucket_spec (h : s.Inv cfg) {b : Bucket Camera Payload Results} (hb : b ∈ s.buckets)
    {call : Call Camera Payload Results} (hf : Fits cfg b call) (newest : Option ℚ) :
    s.Keeps cfg (s.joinBucket call newest b.instant) ∧
      b.join call ∈ (s.joinBucket call newest b.instant).buckets := by
  have hr : ∀ t : State Camera Payload Results, t.Inv cfg → t.buckets = s.buckets → t.ended = s.ended →
      t.Keeps cfg (t.modify b.instant fun b => b.join call) := by
    intro t ht htb hte
    have hbt : b ∈ t.all := mem_all.mpr (.inl (htb ▸ hb))
    refine keeps_map ht ⟨?_, ?_, ?_, ?_, ?_⟩ <;> intro c hc <;> dsimp only <;> split
    · rename_i hi; rw [ht.unique hc hbt hi]; exact Bucket.grows_join hf.ready hf.done call
    · exact .refl c
    · rfl
    · rfl
    · rfl
    · rfl
    · rfl
    · rfl
    · rename_i hi; rw [ht.unique hc hbt hi]; exact (ht.wf b hbt).join hf.new hf.spread
    · exact ht.wf c hc
  have hk : s.Keeps cfg (s.record call newest) := .of_fields h rfl rfl rfl rfl rfl rfl rfl
  refine ⟨hk.trans (hr _ hk.inv rfl rfl), ?_⟩
  exact List.mem_map.mpr ⟨b, hb, if_pos rfl⟩

/-! ## The operations -/

/-- What an answer says of the call it answers: its results, if any, are those of
the one association of its instant, and the call's frame is among its entries. -/
def Sound (s : State Camera Payload Results) (call : Call Camera Payload Results) (a : Answer Results) : Prop :=
  ∀ o res, a = .outcome o → o.results = some res →
    ∃ run ∈ s.associations, run.instant = o.instant ∧ run.results = some res ∧ call.entry ∈ run.entries

omit [DecidableEq Camera] in
theorem sound_of_none {s : State Camera Payload Results} {call : Call Camera Payload Results}
    {o : InstantOutcome Results} (h : o.results = none) : s.Sound call (.outcome o) := by
  intro o' res ho hr
  cases ho
  rw [h] at hr; cases hr

omit [DecidableEq Camera] in
theorem close_sound (h : s.Inv cfg) {b : Bucket Camera Payload Results} (hb : b ∈ s.buckets) (r : Reason)
    {call : Call Camera Payload Results} (he : call.entry ∈ b.entries) (associate : Associate Camera Payload Results) :
    s.Keeps cfg (s.close b r associate).1 ∧ (s.close b r associate).1.Sound call (s.close b r associate).2 := by
  obtain ⟨hk, hr⟩ := keeps_close h hb r associate
  refine ⟨hk, fun o res ho hres => ?_⟩
  obtain ⟨hrun, hi⟩ := hr o res ho hres
  exact ⟨_, hrun, hi.symm, rfl, he⟩

theorem keeps_refreshLive (h : s.Inv cfg) (cfg' : Config) : s.Keeps cfg (refreshLive cfg' s) := by
  unfold refreshLive
  dsimp only
  by_cases hc : cfg'.configuredMaxInstants.isSome = true
  · rw [if_pos hc]; exact .of_fields h rfl rfl rfl rfl rfl rfl rfl
  · rw [if_neg hc]; exact .of_fields h rfl rfl rfl rfl rfl rfl rfl

theorem buckets_refreshLive (s : State Camera Payload Results) : (refreshLive cfg s).buckets = s.buckets := by
  unfold refreshLive
  dsimp only
  by_cases hc : cfg.configuredMaxInstants.isSome = true
  · rw [if_pos hc]
  · rw [if_neg hc]

theorem keeps_see (h : s.Inv cfg) (cameraId : Camera) : s.Keeps cfg (s.see cfg cameraId) := by
  unfold see
  split
  · exact .refl h
  · have hk : s.Keeps cfg { s with seen := insert cameraId s.seen } := .of_fields h rfl rfl rfl rfl rfl rfl rfl
    exact hk.trans (keeps_refreshLive hk.inv cfg)

theorem keeps_checkBackward (h : s.Inv cfg) (call : Call Camera Payload Results) :
    s.Keeps cfg (checkBackward cfg s call).1 := by
  unfold checkBackward
  split
  · exact .refl h
  · split
    · dsimp only
      split <;> exact .of_fields h rfl rfl rfl rfl rfl rfl rfl
    · exact .refl h

theorem keeps_cameraAdded (h : s.Inv cfg) (cameraId : Camera) : s.Keeps cfg (s.cameraAdded cfg cameraId) := by
  have hk : s.Keeps cfg { s with hooked := true, announced := insert cameraId s.announced } :=
    .of_fields h rfl rfl rfl rfl rfl rfl rfl
  exact hk.trans (keeps_refreshLive hk.inv cfg)

theorem keeps_dropCamera (h : s.Inv cfg) (cameraId : Camera) : s.Keeps cfg (s.dropCamera cfg cameraId) := by
  have hk : s.Keeps cfg { s with
      announced := s.announced.erase cameraId
      seen := s.seen.erase cameraId
      newestCapture := Function.update s.newestCapture cameraId none
      backwardRun := Function.update s.backwardRun cameraId 0 } := .of_fields h rfl rfl rfl rfl rfl rfl rfl
  have hk := hk.trans (keeps_refreshLive hk.inv cfg)
  exact hk.trans (keeps_sealWhere hk.inv _ .complete)

omit [DecidableEq Camera] in
theorem closeAll_spec (h : s.Inv cfg) (r : Reason) :
    (s.closeAll r).Inv cfg ∧ s.Grows (s.closeAll r) ∧ (s.closeAll r).buckets = [] := by
  have hc : Inv cfg { s with closed := true } := { h with }
  have hk := keeps_discard_sublist hc (fun _ => r) (.refl s.buckets)
  refine ⟨hk.inv, ⟨hk.grows.buckets, hk.grows.associations⟩, ?_⟩
  rw [closeAll, buckets_discard]
  refine List.filter_eq_nil_iff.mpr fun b hb => ?_
  simp only [decide_eq_true_eq, not_not]
  exact List.mem_map_of_mem hb

theorem submit_spec (h : s.Inv cfg) (budget : WaiterBudget) (call : Call Camera Payload Results) :
    s.Keeps cfg (s.submit cfg budget call).1 ∧
      ∀ call' a, (s.submit cfg budget call).2.2 = some (call', a) → (s.submit cfg budget call).1.Sound call' a := by
  have missed : ∀ {t : State Camera Payload Results}, s.Keeps cfg t → ∀ (r : Reason) (i : Nat),
      s.Keeps cfg (t.missed r i).1 ∧ ∀ call' a, some (call, Answer.outcome (t.missed r i).2) = some (call', a) →
        (t.missed r i).1.Sound call' a := by
    intro t hk r i
    refine ⟨hk.trans (keeps_missed hk.inv r i), fun call' a ha => ?_⟩
    cases ha
    exact sound_of_none rfl
  unfold submit
  by_cases hc : s.closed = true
  · rw [if_pos hc]; exact missed (.refl h) .shutdown 0
  rw [if_neg hc]
  have hk := keeps_retire h s.clock
  have hk := hk.trans (keeps_see hk.inv call.cameraId)
  have hk := hk.trans (keeps_checkBackward hk.inv call)
  dsimp only
  rcases hb : checkBackward cfg ((s.retire s.clock).see cfg call.cameraId) call with ⟨t, newest⟩
  rw [hb] at hk
  cases newest with
  | none => exact missed hk .backward 0
  | some newest =>
    dsimp only at hk ⊢
    have hp := place_spec hk.inv call s.clock
    rcases hpl : place cfg t call s.clock with r | r
    · rw [hpl] at hp
      refine ⟨hk.trans hp.1, fun call' a ha => ?_⟩
      cases ha
      exact sound_of_none hp.2
    · rw [hpl] at hp
      obtain ⟨t', b⟩ := r
      obtain ⟨hkp, hbm, hfit⟩ := hp
      have hk := hk.trans hkp
      obtain ⟨hkj, hbj⟩ := joinBucket_spec hk.inv hbm hfit newest
      have hk := hk.trans hkj
      have hentry : call.entry ∈ (b.join call).entries := List.mem_append_right _ (List.mem_singleton_self _)
      dsimp only
      split
      · obtain ⟨hkc, hs⟩ := close_sound hk.inv hbj .complete hentry call.associate
        refine ⟨hk.trans hkc, fun call' a ha => ?_⟩
        cases ha
        exact hs
      · split
        · exact missed hk .wouldStarve b.instant
        · refine ⟨hk.trans (keeps_park hk.inv (mem_all.mpr (.inl hbj)) hentry), fun call' a ha => ?_⟩
          cases ha

omit [DecidableEq Camera] in
theorem wake_spec (h : s.Inv cfg) (budget : WaiterBudget) (ticket : Nat) :
    s.Keeps cfg (s.wake budget ticket).1 ∧
      ∀ call' a, (s.wake budget ticket).2.2 = some (call', a) → (s.wake budget ticket).1.Sound call' a := by
  unfold wake
  split
  · exact ⟨.refl h, fun _ _ ha => by cases ha⟩
  rename_i w hw
  split
  · exact ⟨.refl h, fun _ _ ha => by cases ha⟩
  rename_i b hb
  have hba : b ∈ s.all := List.mem_of_find?_eq_some hb
  have hi : b.instant = w.instant := by simpa using List.find?_some hb
  have hentry : w.call.entry ∈ b.entries := by
    obtain ⟨c, hc, hci, he⟩ := h.held w (List.mem_of_find?_eq_some hw)
    rwa [h.unique hba hc (hi.trans hci.symm)]
  split
  · exact ⟨.refl h, fun _ _ ha => by cases ha⟩
  have hk := keeps_unpark h w
  dsimp only
  split
  · refine ⟨hk, fun call' a ha => ?_⟩
    cases ha
    intro o res ho
    cases ho
  · split
    · rename_i hd
      refine ⟨hk, fun call' a ha => ?_⟩
      cases ha
      intro o res ho hres
      cases ho
      -- the bucket ended: its results are those of the association that consumed it
      have hres : b.results = some res := hres
      obtain ⟨run, hrun, hri⟩ := h.answered b (h.ended_of_done hba hd) (by rw [hres]; rfl)
      obtain ⟨c, hc, hci, hce, hcr⟩ := h.consumed run hrun
      have hcb := h.unique (mem_all.mpr (.inr hc)) hba (hci.trans hri)
      subst hcb
      exact ⟨run, hrun, hri, hcr.symm.trans hres, hce ▸ hentry⟩
    · rename_i hd
      split
      · have ho : b ∈ s.buckets := by
          rcases mem_all.mp hba with ho | he
          · exact ho
          · exact absurd (h.isEnded b he).1 hd
        have hl : b.leave ∈ (s.unpark w).buckets := List.mem_map.mpr ⟨b, ho, if_pos hi⟩
        have hentry : w.call.entry ∈ b.leave.entries := hentry
        obtain ⟨hkc, hs⟩ := close_sound hk.inv hl (if b.leave.ready then b.leave.readyReason else .window)
          hentry w.call.associate
        refine ⟨hk.trans hkc, fun call' a ha => ?_⟩
        cases ha
        exact hs
      · refine ⟨hk.trans (keeps_missed hk.inv .expired b.instant), fun call' a ha => ?_⟩
        cases ha
        exact sound_of_none rfl

omit [DecidableEq Camera] in
theorem wake_buckets_nil (budget : WaiterBudget) (ticket : Nat) (hn : s.buckets = []) :
    (s.wake budget ticket).1.buckets = [] := by
  have hu : ∀ w, (s.unpark w).buckets = [] := fun w => by simp [unpark, modify, mapAll, hn]
  unfold wake
  split
  · exact hn
  split
  · exact hn
  split
  · exact hn
  dsimp only
  split
  · exact hu _
  split
  · exact hu _
  rw [hu, List.map_nil, if_neg List.not_mem_nil]
  exact hu _

/-- What one critical section keeps. -/
theorem step_spec (h : s.Inv cfg) (hc : s.closed = true → s.buckets = []) (budget : WaiterBudget)
    (i : Input Camera Payload Results) :
    (s.step cfg budget i).1.Inv cfg ∧ s.Grows (s.step cfg budget i).1 ∧
      ((s.step cfg budget i).1.closed = true → (s.step cfg budget i).1.buckets = []) ∧
      ∀ call a, (s.step cfg budget i).2.2 = some (call, a) → (s.step cfg budget i).1.Sound call a := by
  have quiet : ∀ {t : State Camera Payload Results}, s.Keeps cfg t → (s.buckets = [] → t.buckets = []) →
      t.Inv cfg ∧ s.Grows t ∧ (t.closed = true → t.buckets = []) := by
    intro t hk hb
    exact ⟨hk.inv, hk.grows, fun ht => hb (hc (hk.closed ▸ ht))⟩
  cases i with
  | submit call =>
    obtain ⟨hk, ha⟩ := submit_spec h budget call
    refine ⟨hk.inv, hk.grows, fun ht => ?_, ha⟩
    have hcl : s.closed = true := hk.closed ▸ ht
    rw [step, submit, if_pos hcl]
    exact hc hcl
  | wake ticket =>
    obtain ⟨hk, ha⟩ := wake_spec h budget ticket
    obtain ⟨h₁, h₂, h₃⟩ := quiet hk (wake_buckets_nil budget ticket)
    exact ⟨h₁, h₂, h₃, ha⟩
  | cameraAdded cameraId =>
    obtain ⟨h₁, h₂, h₃⟩ := quiet (keeps_cameraAdded h cameraId) fun hb => by
      rw [cameraAdded, buckets_refreshLive]; exact hb
    exact ⟨h₁, h₂, h₃, fun _ _ ha => by cases ha⟩
  | dropCamera cameraId =>
    obtain ⟨h₁, h₂, h₃⟩ := quiet (keeps_dropCamera h cameraId) fun hb => by
      simp [dropCamera, buckets_refreshLive, hb]
    exact ⟨h₁, h₂, h₃, fun _ _ ha => by cases ha⟩
  | advance elapsed =>
    have hk : s.Keeps cfg { s with clock := s.clock + elapsed } := .of_fields h rfl rfl rfl rfl rfl rfl rfl
    obtain ⟨h₁, h₂, h₃⟩ := quiet hk id
    exact ⟨h₁, h₂, h₃, fun _ _ ha => by cases ha⟩
  | closeAll reason =>
    obtain ⟨h₁, h₂, h₃⟩ := closeAll_spec h reason
    exact ⟨h₁, h₂, fun _ => h₃, fun _ _ ha => by cases ha⟩

end

/-- What every reachable barrier looks like. -/
structure Safe (cfg : Config) (s : State Camera Payload Results) : Prop where
  opened : ∀ k, 1 ≤ k ∧ k ≤ s.nextInstant ↔ ∃ b ∈ s.all, b.instant = k
  heldOnce : (s.all.map Bucket.instant).Nodup
  isOpen : ∀ b ∈ s.buckets, b.done = false
  endedUnder : ∀ b ∈ s.ended, b.done = true ∧ ∃ r, b.reason = some r
  ends : ∀ r, s.instantCounts r = s.ended.countP fun b => decide (b.reason = some r)
  closed : s.closed = true → s.buckets = []
  associated : (s.associations.map Association.instant).Nodup
  oneEntryEach : ∀ b ∈ s.all, (b.entries.map InstantEntry.cameraId).Nodup
  reported : ∀ b ∈ s.all, b.entries.map InstantEntry.cameraId = b.reported.keys
  captures : ∀ b ∈ s.all, ∀ t ∈ b.reported.values, ∀ u ∈ b.reported.values, t - u < cfg.windowS

theorem Inv.safe {cfg : Config} {s : State Camera Payload Results} (h : s.Inv cfg)
    (hc : s.closed = true → s.buckets = []) : s.Safe cfg where
  opened k := by
    constructor
    · intro hk
      obtain ⟨b, hb, -⟩ := h.exists_unique hk.1 hk.2
      exact ⟨b, hb⟩
    · rintro ⟨b, hb, rfl⟩
      exact h.instant_mem hb
  heldOnce := h.nodup
  isOpen := h.isOpen
  endedUnder b hb := ⟨(h.isEnded b hb).1, Option.isSome_iff_exists.mp (h.isEnded b hb).2⟩
  ends := h.counts
  closed := hc
  associated := h.once
  oneEntryEach b hb := (h.wf b hb).cameras_nodup
  reported b hb := (h.wf b hb).cameras
  captures b hb t ht u hu := (h.wf b hb).captures ht hu

/-- The frame of a sound answer is the only entry of its camera in the one
association of the instant. -/
theorem Inv.answer {cfg : Config} {s : State Camera Payload Results} (h : s.Inv cfg)
    {call : Call Camera Payload Results} {o : InstantOutcome Results} {res : Results}
    (ha : s.Sound call (.outcome o)) (hr : o.results = some res) :
    ∃ run ∈ s.associations, run.instant = o.instant ∧ run.results = some res ∧ call.entry ∈ run.entries ∧
      (∀ e ∈ run.entries, e.cameraId = call.cameraId → e = call.entry) ∧
      ∀ run' ∈ s.associations, run'.instant = o.instant → run' = run := by
  obtain ⟨run, hrun, hi, hres, he⟩ := ha o res rfl hr
  refine ⟨run, hrun, hi, hres, he, ?_, ?_⟩
  · obtain ⟨b, hb, -, hbe, -⟩ := h.consumed run hrun
    have hn := (h.wf b (mem_all.mpr (.inr hb))).cameras_nodup
    rw [hbe] at hn
    exact fun e hem hc => List.inj_on_of_nodup_map hn hem he hc
  · exact fun run' hm hi' => List.inj_on_of_nodup_map h.once hm hrun (hi'.trans hi.symm)

theorem new_inv (cfg : Config) (clock : ℚ) : Inv cfg { (State.new cfg : State Camera Payload Results) with clock := clock } where
  ids := .refl _
  isOpen _ h := by cases h
  isEnded _ h := by cases h
  wf _ h := by cases h
  counts _ := rfl
  once := List.nodup_nil
  consumed _ h := by cases h
  answered _ h := by cases h
  held _ h := by cases h

end State

/-! ## Runs of barriers that share a budget -/

section
variable {ι : Type} [DecidableEq ι] [DecidableEq Camera] {cfg : ι → Config} {permits : Int}

/-- The invariant of every barrier of a system. -/
def System.Inv (cfg : ι → Config) (y : System ι Camera Payload Results) : Prop :=
  ∀ i, (y.barriers i).Inv (cfg i) ∧ ((y.barriers i).closed = true → (y.barriers i).buckets = [])

/-- A step of the system is a critical section of one of its barriers. -/
theorem system_step {y z : System ι Camera Payload Results} {i : ι} {input : Input Camera Payload Results}
    {reply : Option (Call Camera Payload Results × Answer Results)}
    (h : (system cfg permits).step y ((i, input), reply) z) :
    z.barriers i = ((y.barriers i).step (cfg i) y.budget input).1 ∧ (∀ j, j ≠ i → z.barriers j = y.barriers j) ∧
      z.budget = ((y.barriers i).step (cfg i) y.budget input).2.1 ∧
      reply = ((y.barriers i).step (cfg i) y.budget input).2.2 := by
  simp only [system, Machine.ofFn_step, System.run, Prod.mk.injEq] at h
  obtain ⟨rfl, rfl⟩ := h
  exact ⟨Function.update_self _ _ _, fun j hj => Function.update_of_ne hj _ _, rfl, rfl⟩

theorem System.Inv.step {y z : System ι Camera Payload Results}
    {l : (ι × Input Camera Payload Results) × Option (Call Camera Payload Results × Answer Results)}
    (h : y.Inv cfg) (hs : (system cfg permits).step y l z) :
    z.Inv cfg ∧ ∀ i, (y.barriers i).Grows (z.barriers i) := by
  obtain ⟨⟨i, input⟩, reply⟩ := l
  obtain ⟨hi, hne, -, -⟩ := system_step hs
  obtain ⟨hinv, hgrows, hclosed, -⟩ := State.step_spec (h i).1 (h i).2 y.budget input
  rw [← hi] at hinv hgrows hclosed
  refine ⟨fun j => ?_, fun j => ?_⟩ <;> by_cases hj : j = i
  · rw [hj]; exact ⟨hinv, hclosed⟩
  · rw [hne j hj]; exact h j
  · rw [hj]; exact hgrows
  · rw [hne j hj]; exact .refl _

theorem System.reachable_inv {y : System ι Camera Payload Results} (h : (system cfg permits).Reachable y) : y.Inv cfg := by
  refine h.invariant (fun y hy i => ?_) fun y l z hy hs => (hy.step hs).1
  obtain ⟨clock, hc⟩ := hy.2 i
  rw [hc]
  exact ⟨State.new_inv (cfg i) clock, fun _ => rfl⟩

/-- **Safety of the instant barrier.** In every run, of any barriers on one
budget: the state reached is safe, what was there before only grew, and a call
is answered with results only by the association that consumed its frame. -/
theorem barrier_safety {y z : System ι Camera Payload Results}
    {ls : List ((ι × Input Camera Payload Results) × Option (Call Camera Payload Results × Answer Results))}
    (hy : (system cfg permits).Reachable y) (hr : (system cfg permits).Run y ls z) (i : ι) :
    (z.barriers i).Safe (cfg i) ∧ (y.barriers i).Grows (z.barriers i) ∧
      ∀ input call o res w, (system cfg permits).step z ((i, input), some (call, .outcome o)) w →
        o.results = some res →
        ∃ run ∈ (w.barriers i).associations, run.instant = o.instant ∧ run.results = some res ∧
          call.entry ∈ run.entries ∧ (∀ e ∈ run.entries, e.cameraId = call.cameraId → e = call.entry) ∧
          ∀ run' ∈ (w.barriers i).associations, run'.instant = o.instant → run' = run := by
  have hinv := System.reachable_inv (hy.run hr)
  refine ⟨(hinv i).1.safe (hinv i).2, ?_, ?_⟩
  · have hg : ∀ j, (y.barriers j).Grows (z.barriers j) :=
      hr.grows (I := System.Inv cfg) (R := fun y z => ∀ j, (y.barriers j).Grows (z.barriers j))
        (fun y l z hy hs => (hy.step hs).1) (fun y j => .refl _) (fun _ _ _ h₁ h₂ j => (h₁ j).trans (h₂ j))
        (fun y l z hy hs => (hy.step hs).2) (System.reachable_inv hy)
    exact hg i
  · intro input call o res w hs hres
    obtain ⟨hi, -, -, hreply⟩ := system_step hs
    obtain ⟨hw, -, -, hsound⟩ := State.step_spec (hinv i).1 (hinv i).2 z.budget input
    rw [← hi] at hw hsound
    exact hw.answer (hsound call _ hreply.symm) hres

theorem pair_workers : 1 ≤ 2 := by decide

/-- Two barriers of a window of one second. -/
def pairConfig : Config := ⟨1, 2, none, zero_lt_one, pair_workers, fun _ h => by cases h⟩

def pairStart : System Bool String Nat (List Nat) := ⟨fun _ => State.new pairConfig, ⟨1, 1, 0⟩⟩

theorem pairStart_init : (system (fun _ => pairConfig) 1).init pairStart := ⟨rfl, fun _ => ⟨0, rfl⟩⟩

/-- Two cameras meet in one barrier while a third is turned away from the other. -/
def pairScript : List (Bool × Input String Nat (List Nat)) :=
  let submit cameraId captureS payload : Input String Nat (List Nat) :=
    .submit ⟨cameraId, captureS, payload, fun entries => some (entries.map InstantEntry.payload)⟩
  [(true, .cameraAdded "a"), (true, .cameraAdded "b"), (false, .cameraAdded "c"), (false, .cameraAdded "d"),
    (true, submit "a" 10 1), (false, submit "c" 10 2), (true, submit "b" (21 / 2) 3), (true, .wake 0)]

/-- The first frame of the pair waits, the second closes the instant, and the
first is then answered with the association of both. -/
theorem pair_safety :
    let y := (Machine.exec (System.run fun _ => pairConfig) pairStart (pairScript.take 7)).1
    (y.barriers true).Safe pairConfig ∧ (y.barriers true).Grows (y.barriers true) ∧
      ∀ input call o res w, (system (fun _ => pairConfig) 1).step y ((true, input), some (call, .outcome o)) w →
        o.results = some res →
        ∃ run ∈ (w.barriers true).associations, run.instant = o.instant ∧ run.results = some res ∧
          call.entry ∈ run.entries ∧ (∀ e ∈ run.entries, e.cameraId = call.cameraId → e = call.entry) ∧
          ∀ run' ∈ (w.barriers true).associations, run'.instant = o.instant → run' = run :=
  barrier_safety (Machine.reachable_exec _ (.init pairStart_init)) (.nil _) true

end

end ShipInfer.Barrier
