import Mathlib.Data.List.Dedup
import Mathlib.Data.List.Nodup
import Mathlib.Data.List.Pairwise
import ShipInfer.Scheduling.Sharding

/-!
# Sharing keeps the count

Every camera of an accepted plan is read by one shard, every device has a shard and
every shard a device. Shards with a device in common have the same devices, so a
device's owners see it under one number, divide each count by how many they are, and
take the remainder by rank: their parts add up to the count.
-/

namespace ShipInfer.Scheduling

open ShipInfer.Runtime

/-! ## Windows -/

section
variable {G : Type} {gpus : List G} {n : Nat}

theorem window_turn (h : gpus.length ≤ n) (hne : gpus ≠ []) (i : Nat) :
    ∃ g, gpus[i % gpus.length]? = some g ∧ window gpus n i = [g] := by
  have hlt : i % gpus.length < gpus.length := Nat.mod_lt _ (List.length_pos_iff.mpr hne)
  refine ⟨gpus[i % gpus.length], List.getElem?_eq_getElem hlt, ?_⟩
  simp [window, h, List.getElem?_eq_getElem hlt]

/-- Runs laid one after another: those of the first `k` shards are where shard `k` starts. -/
theorem windows_take (h : n < gpus.length) : ∀ k,
    (List.range k).flatMap (window gpus n) = gpus.take (k * (gpus.length / n) + min k (gpus.length % n))
  | 0 => by simp
  | k + 1 => by
    rw [List.range_succ, List.flatMap_append, windows_take h k]
    have hstart : (k + 1) * (gpus.length / n) + min (k + 1) (gpus.length % n) =
        k * (gpus.length / n) + min k (gpus.length % n) + (gpus.length / n + if k < gpus.length % n then 1 else 0) := by
      rw [Nat.succ_mul]
      by_cases hk : k < gpus.length % n
      · rw [if_pos hk]
        omega
      · rw [if_neg hk]
        omega
    rw [hstart, List.flatMap_singleton, window, if_neg (Nat.not_le.mpr h)]
    exact List.take_add.symm

theorem windows_flatten (h : n < gpus.length) (hn : 0 < n) : (List.range n).flatMap (window gpus n) = gpus := by
  rw [windows_take h, Nat.min_eq_right (Nat.mod_lt _ hn).le, Nat.mul_comm, Nat.mul_comm, Nat.div_add_mod, List.take_length]

theorem window_ne_nil (hne : gpus ≠ []) (hn : 0 < n) {i : Nat} (hi : i < n) : window gpus n i ≠ [] := by
  by_cases h : gpus.length ≤ n
  · obtain ⟨g, -, hw⟩ := window_turn h hne i
    simp [hw]
  · have hlt : n < gpus.length := Nat.not_le.mp h
    have hper : 0 < gpus.length / n := Nat.div_pos hlt.le hn
    have hmod := Nat.div_add_mod gpus.length n
    have hend : (i + 1) * (gpus.length / n) ≤ n * (gpus.length / n) := Nat.mul_le_mul_right _ hi
    rw [Nat.succ_mul] at hend
    apply List.ne_nil_of_length_pos
    simp only [window, if_neg h, List.length_take, List.length_drop]
    have hmin : min i (gpus.length % n) ≤ gpus.length % n := Nat.min_le_right _ _
    omega

theorem window_subset {i : Nat} {g : G} (hg : g ∈ window gpus n i) : g ∈ gpus := by
  unfold window at hg
  split at hg
  · rw [Option.mem_toList] at hg
    exact List.mem_of_getElem? hg
  · exact List.mem_of_mem_drop (List.mem_of_mem_take hg)

theorem nodup_window (h : gpus.Nodup) (i : Nat) : (window gpus n i).Nodup := by
  unfold window
  split
  · cases gpus[i % gpus.length]? with
    | none => exact List.nodup_nil
    | some g => exact List.nodup_singleton g
  · exact h.sublist ((List.take_sublist _ _).trans (List.drop_sublist _ _))

theorem exists_window (hn : 0 < n) {g : G} (hg : g ∈ gpus) : ∃ i < n, g ∈ window gpus n i := by
  by_cases h : gpus.length ≤ n
  · obtain ⟨i, hi, rfl⟩ := List.getElem_of_mem hg
    obtain ⟨g, hget, hw⟩ := window_turn h (List.ne_nil_of_mem hg) i
    rw [Nat.mod_eq_of_lt hi, List.getElem?_eq_getElem hi, Option.some.injEq] at hget
    exact ⟨i, by omega, by simp [hw, hget]⟩
  · rw [← windows_flatten (Nat.not_le.mp h) hn] at hg
    obtain ⟨i, hi, hmem⟩ := List.mem_flatMap.mp hg
    exact ⟨i, List.mem_range.mp hi, hmem⟩

/-- Shards with a device in common have the same devices. -/
theorem window_alike (hnd : gpus.Nodup) {i j : Nat} (hi : i < n) (hj : j < n) {g : G}
    (hgi : g ∈ window gpus n i) (hgj : g ∈ window gpus n j) : window gpus n i = window gpus n j := by
  by_cases h : gpus.length ≤ n
  · have hne : gpus ≠ [] := List.ne_nil_of_mem (window_subset hgi)
    obtain ⟨a, -, ha⟩ := window_turn h hne i
    obtain ⟨b, -, hb⟩ := window_turn h hne j
    rw [ha, List.mem_singleton] at hgi
    rw [hb, List.mem_singleton] at hgj
    rw [ha, hb, ← hgi, ← hgj]
  · have hflat : ((List.range n).flatMap (window gpus n)).Nodup := by
      rw [windows_flatten (Nat.not_le.mp h) (Nat.zero_lt_of_lt hi)]
      exact hnd
    have : Std.Symm (Function.onFun List.Disjoint (window gpus n)) := ⟨fun _ _ h _ ha hb => h hb ha⟩
    by_cases hij : i = j
    · rw [hij]
    · exact absurd hgj ((List.nodup_flatMap.mp hflat).2.forall (List.mem_range.mpr hi) (List.mem_range.mpr hj) hij hgi)

end

/-! ## Who shares a device -/

section
variable {G : Type} [DecidableEq G]

theorem getD_add (c : Counter G) (k : G) (m : Nat) (g : G) :
    ((c.add k m).get? g).getD 0 = (c.get? g).getD 0 + if g = k then m else 0 := by
  rw [Counter.add, Dict.get?_set]
  by_cases h : g = k
  · simp [h]
  · simp [h]

theorem getD_handOut (g : G) : ∀ (mine : List G) (c : Counter G),
    ((handOut c mine).get? g).getD 0 = (c.get? g).getD 0 + mine.count g
  | [], c => by simp [handOut]
  | k :: mine, c => by
    have hrest := getD_handOut g mine (c.add k 1)
    rw [getD_add] at hrest
    rw [List.count_cons]
    simp only [handOut, List.foldl_cons] at hrest ⊢
    rw [hrest]
    by_cases h : g = k
    · simp [h]
      omega
    · simp [h, Ne.symm h]

/-- The count of who shares a device is the number of lists it is in. -/
theorem getD_sharing (g : G) : ∀ {assigned : List (List G)} (c : Counter G), (∀ mine ∈ assigned, mine.Nodup) →
    ((assigned.foldl handOut c).get? g).getD 0 = (c.get? g).getD 0 + (assigned.filter fun mine => decide (g ∈ mine)).length
  | [], c, _ => by simp
  | mine :: assigned, c, h => by
    rw [List.foldl_cons, getD_sharing g _ fun m hm => h m (List.mem_cons_of_mem _ hm), getD_handOut,
      (h mine List.mem_cons_self).count]
    by_cases hg : g ∈ mine
    · simp [hg]
      omega
    · simp [hg]

end

/-! ## The plan -/

section
variable {K G : Type} [DecidableEq G]

/-- What an accepted plan is, for these cameras and devices. -/
structure ShardPlan.Sound (plan : ShardPlan K G) (names : List String) (gpus : List G) : Prop where
  index : (plan.shards.map Shard.index).Nodup
  cameras : (plan.shards.flatMap Shard.cameras).Perm names
  owned : ∀ gpu ∈ gpus, ∃ shard ∈ plan.shards, gpu ∈ shard.gpus
  own : ∀ shard ∈ plan.shards, shard.gpus ≠ [] ∧ shard.gpus.Nodup
  alike : ∀ s ∈ plan.shards, ∀ t ∈ plan.shards, ∀ gpu ∈ s.gpus, gpu ∈ t.gpus → s.gpus = t.gpus
  sharing : ∀ gpu, (plan.shardsPerGpu.get? gpu).getD 0 = (plan.owners gpu).length

variable [Zero K] [One K] [Add K] [Neg K] [Div K] [NatCast K] [LT K] [DecidableLT K] [BEq K]

omit [One K] [Add K] [Neg K] [NatCast K] in
theorem target_lt {capacity weights : List K} (h : 0 < weights.length) : target capacity weights < weights.length := by
  apply foldl_keeps (I := fun best => best < weights.length)
  · intro best i hi hbest
    split
    · exact List.mem_range.mp (List.mem_of_mem_tail hi)
    · exact hbest
  · exact h

theorem modify_append_perm (name : String) : ∀ {buckets : List (List String)} {i : Nat}, i < buckets.length →
    (buckets.modify i (· ++ [name])).flatten.Perm (name :: buckets.flatten)
  | [], _, h => absurd h (Nat.not_lt_zero _)
  | b :: buckets, 0, _ => by
    simp only [List.modify_zero_cons, List.flatten_cons, List.append_assoc]
    exact List.perm_middle
  | b :: buckets, i + 1, h => by
    rw [List.modify_succ_cons, List.flatten_cons, List.flatten_cons]
    exact ((modify_append_perm name (Nat.lt_of_succ_lt_succ h)).append_left b).trans List.perm_middle

omit [One K] [Neg K] [NatCast K] in
/-- Every camera goes in one bucket. -/
theorem place_all (capacity : List K) : ∀ (cameras : List (String × K)) {b : Buckets K}, 0 < b.weights.length →
    b.buckets.length = b.weights.length →
    (cameras.foldl (place capacity) b).buckets.length = b.buckets.length ∧
      (cameras.foldl (place capacity) b).buckets.flatten.Perm (b.buckets.flatten ++ cameras.map Prod.fst)
  | [], b, _, _ => by simp
  | camera :: cameras, b, hpos, hlen => by
    have hlt : target capacity b.weights < b.buckets.length := hlen ▸ target_lt hpos
    obtain ⟨hlength, hperm⟩ := place_all capacity cameras (b := place capacity b camera) (by simpa [place] using hpos)
      (by simpa [place] using hlen)
    rw [List.foldl_cons]
    refine ⟨by simpa [place] using hlength, hperm.trans ?_⟩
    have hone : (place capacity b camera).buckets.flatten.Perm (camera.1 :: b.buckets.flatten) := modify_append_perm camera.1 hlt
    exact (hone.append_right _).trans List.perm_middle.symm

theorem flatMap_sorted_perm : ∀ (buckets : List (List String)) {n : Nat}, buckets.length = n →
    ((List.range n).flatMap fun i => (buckets.getD i []).insertionSort (· ≤ ·)).Perm buckets.flatten
  | [], _, rfl => by simp
  | b :: buckets, _, rfl => by
    rw [List.length_cons, List.range_succ_eq_map, List.flatMap_cons, List.flatMap_map, List.flatten_cons]
    exact (List.perm_insertionSort _ _).append (flatMap_sorted_perm buckets rfl)

theorem planShards_sound {cameras : Cameras K} {shards : Int} {gpus : List G} {plan : ShardPlan K G} (hnd : gpus.Nodup)
    (h : planShards cameras shards gpus = .ok plan) : plan.Sound cameras.load.keys gpus := by
  simp only [planShards] at h
  split at h
  · cases h
  split at h
  · cases h
  split at h
  · cases h
  next hshards hgpus _ =>
  have hpos : 0 < shards.toNat := by omega
  generalize shards.toNat = n at h hpos
  generalize hfilled : List.foldl _ _ (byLoad cameras.load) = filled at h
  simp only [Except.ok.injEq] at h
  subst h
  have hassigned : ∀ i < n, ((List.range n).map (window gpus n)).getD i [] = window gpus n i := by
    intro i hi
    simp [hi]
  have hfill := place_all (((List.range n).map (window gpus n)).map
    (capacityOf (((List.range n).map (window gpus n)).foldl handOut .empty)) : List K) (byLoad cameras.load)
    (b := { buckets := List.replicate n [], weights := List.replicate n 0 }) (by simpa using hpos) (by simp)
  rw [hfilled] at hfill
  have hlist : (byLoad cameras.load).map Prod.fst |>.Perm cameras.load.keys := (List.perm_insertionSort _ _).map _
  constructor
  · simp [List.map_map, Function.comp_def, List.nodup_range]
  · rw [List.flatMap_map]
    refine (flatMap_sorted_perm _ (by simpa using hfill.1)).trans (hfill.2.trans ?_)
    simpa using hlist
  · intro gpu hgpu
    obtain ⟨i, hi, hmem⟩ := exists_window hpos hgpu
    refine ⟨_, List.mem_map.mpr ⟨i, List.mem_range.mpr hi, rfl⟩, ?_⟩
    rw [hassigned i hi]
    exact hmem
  · intro shard hshard
    obtain ⟨i, hi, rfl⟩ := List.mem_map.mp hshard
    rw [hassigned i (List.mem_range.mp hi)]
    exact ⟨window_ne_nil hgpus hpos (List.mem_range.mp hi), nodup_window hnd i⟩
  · intro s hs t ht gpu hgs hgt
    obtain ⟨i, hi, rfl⟩ := List.mem_map.mp hs
    obtain ⟨j, hj, rfl⟩ := List.mem_map.mp ht
    rw [hassigned i (List.mem_range.mp hi)] at hgs ⊢
    rw [hassigned j (List.mem_range.mp hj)] at hgt ⊢
    exact window_alike hnd (List.mem_range.mp hi) (List.mem_range.mp hj) hgs hgt
  · intro gpu
    rw [getD_sharing gpu _ fun mine hmine => by
      obtain ⟨i, -, rfl⟩ := List.mem_map.mp hmine
      exact nodup_window hnd i]
    simp only [Dict.get?_empty, Option.getD_none, Nat.zero_add, ShardPlan.owners, List.filter_map, List.length_map]
    congr 1
    apply List.filter_congr
    intro i hi
    simp only [Function.comp_apply]
    rw [hassigned i (List.mem_range.mp hi)]

end

/-! ## The parts of a count -/

/-- What the process of a rank gets of a count. -/
def portion (count sharing rank : Nat) : Nat := count / sharing + if rank < count % sharing then 1 else 0

theorem sum_remainder (a : Nat) : ∀ k, ((List.range k).map fun r => if r < a then 1 else 0).sum = min k a
  | 0 => by simp
  | k + 1 => by
    rw [List.range_succ, List.map_append, List.sum_append, sum_remainder a k]
    by_cases h : k < a
    · simp [h]
      omega
    · simp [h]
      omega

/-- The parts of all ranks add up to the count. -/
theorem sum_portion (count : Nat) {sharing : Nat} (h : 0 < sharing) :
    ((List.range sharing).map (portion count sharing)).sum = count := by
  have hsplit : ∀ k, ((List.range k).map (portion count sharing)).sum =
      k * (count / sharing) + ((List.range k).map fun r => if r < count % sharing then 1 else 0).sum := by
    intro k
    induction k with
    | zero => simp
    | succ k ih =>
      simp only [List.range_succ, List.map_append, List.sum_append, ih, List.map_cons, List.map_nil, List.sum_singleton,
        portion, Nat.succ_mul]
      omega
  rw [hsplit, sum_remainder, Nat.min_eq_right (Nat.mod_lt _ h).le, Nat.div_add_mod]

/-! ## A group in one process -/

/-- How often a group names the device a process sees under a number. -/
def times (group : InstanceGroup) (ordinal : Nat) : Nat :=
  if group.kind = .cpu then 0 else if group.gpus = [] then 1 else group.gpus.count ordinal

/-- The devices a group is loaded on, of those a process sees. -/
def targets (group : InstanceGroup) (visible : List Nat) : List Nat := if group.gpus = [] then visible else group.gpus

section
variable {group : InstanceGroup} {visible : List Nat} {sharedBy shareRank : Nat → Option Nat} {devices : List Device}

theorem share_eq (gpu : Nat) : group.share sharedBy shareRank gpu =
    if portion group.count ((sharedBy gpu).getD 1) ((shareRank gpu).getD 0) < 1 then
      .error (.noShare gpu ((sharedBy gpu).getD 1) ((shareRank gpu).getD 0))
    else .ok (List.replicate (portion group.count ((sharedBy gpu).getD 1) ((shareRank gpu).getD 0)) (cuda gpu)) := rfl

theorem cuda_injective {a b : Nat} (h : cuda a = cuda b) : a = b := by
  simpa [cuda] using h

theorem count_mapM_share (n : Nat) : ∀ {targets : List Nat} {lists : List (List Device)},
    targets.mapM (fun gpu => group.share sharedBy shareRank gpu) = .ok lists →
      (∀ t ∈ targets, 1 ≤ portion group.count ((sharedBy t).getD 1) ((shareRank t).getD 0)) ∧
      lists.flatten.count (cuda n) = targets.count n * portion group.count ((sharedBy n).getD 1) ((shareRank n).getD 0)
  | [], lists, h => by
    cases h
    simp
  | t :: targets, lists, h => by
    rw [List.mapM_cons] at h
    obtain ⟨own, hown, h⟩ := bind_ok.mp h
    obtain ⟨rest, hrest, h⟩ := bind_ok.mp h
    cases h
    obtain ⟨hpos, hcount⟩ := count_mapM_share n hrest
    rw [share_eq] at hown
    split at hown
    · cases hown
    next hshare =>
    cases hown
    refine ⟨fun u hu => ?_, ?_⟩
    · cases List.mem_cons.mp hu with
      | inl h => rw [h]; omega
      | inr h => exact hpos u h
    · rw [List.flatten_cons, List.count_append, hcount, List.count_replicate, List.count_cons]
      by_cases htn : t = n
      · simp [htn, Nat.succ_mul]
        omega
      · have hne : cuda t ≠ cuda n := fun h => htn (cuda_injective h)
        simp [htn, hne]

theorem exists_mapM_share : ∀ {targets : List Nat},
    (∀ t ∈ targets, 1 ≤ portion group.count ((sharedBy t).getD 1) ((shareRank t).getD 0)) →
      ∃ lists, targets.mapM (fun gpu => group.share sharedBy shareRank gpu) = .ok lists
  | [], _ => ⟨[], rfl⟩
  | t :: targets, h => by
    obtain ⟨rest, hrest⟩ := exists_mapM_share fun u hu => h u (List.mem_cons_of_mem _ hu)
    have ht := h t List.mem_cons_self
    refine ⟨List.replicate (portion group.count ((sharedBy t).getD 1) ((shareRank t).getD 0)) (cuda t) :: rest, ?_⟩
    rw [List.mapM_cons, share_eq, if_neg (by omega), hrest]
    rfl

theorem expand_cpu (h : group.kind = .cpu) (visible : List Nat) (sharedBy shareRank : Nat → Option Nat) :
    group.expand visible sharedBy shareRank = .ok (List.replicate group.count {}) := by
  simp [InstanceGroup.expand, h]

theorem expand_gpu (h : group.kind ≠ .cpu) (hvisible : visible ≠ []) :
    group.expand visible sharedBy shareRank =
      let missing := ((targets group visible).filter fun gpu => !visible.contains gpu).dedup
      if missing ≠ [] then .error (.notVisible missing.mergeSort)
      else ((targets group visible).mapM fun gpu => group.share sharedBy shareRank gpu).map List.flatten := by
  have hkind : (if group.kind = .auto then (if visible = [] then InstanceKind.cpu else .gpu) else group.kind) ≠ .cpu := by
    rw [if_neg hvisible]
    split
    · exact fun h => InstanceKind.noConfusion h
    · exact h
  have htargets : targets group visible ≠ [] := by
    unfold targets
    split
    · exact hvisible
    next hgpus => exact hgpus
  unfold InstanceGroup.expand
  rw [if_neg hkind]
  exact if_neg htargets

theorem count_targets {n : Nat} (h : group.kind ≠ .cpu) (hnd : visible.Nodup) (hn : n ∈ visible) :
    (targets group visible).count n = times group n := by
  rw [times, if_neg h, targets]
  split
  · exact List.count_eq_one_of_mem hnd hn
  · rfl

/-- A group loads its part on every device it names, once for each time it does. -/
theorem count_expand {n : Nat} (hnd : visible.Nodup) (hn : n ∈ visible)
    (h : group.expand visible sharedBy shareRank = .ok devices) :
    devices.count (cuda n) = times group n * portion group.count ((sharedBy n).getD 1) ((shareRank n).getD 0) := by
  by_cases hcpu : group.kind = .cpu
  · rw [expand_cpu hcpu, Except.ok.injEq] at h
    rw [← h, times, if_pos hcpu, Nat.zero_mul, List.count_replicate]
    rfl
  · rw [expand_gpu hcpu (List.ne_nil_of_mem hn)] at h
    dsimp only at h
    split at h
    · cases h
    cases hlists : (targets group visible).mapM fun gpu => group.share sharedBy shareRank gpu with
    | error e => rw [hlists] at h; cases h
    | ok lists =>
      rw [hlists] at h
      cases h
      rw [(count_mapM_share n hlists).2, count_targets hcpu hnd hn]

/-- Nobody loads a group that has no part for him on a device it names. -/
theorem expand_refuses {n : Nat} (hnd : visible.Nodup) (hn : n ∈ visible) (hnames : times group n ≠ 0)
    (hpart : portion group.count ((sharedBy n).getD 1) ((shareRank n).getD 0) = 0) :
    ∃ e, group.expand visible sharedBy shareRank = .error e := by
  have hcpu : group.kind ≠ .cpu := by
    intro h
    exact hnames (by rw [times, if_pos h])
  have htarget : n ∈ targets group visible := by
    rw [← List.count_pos_iff, count_targets hcpu hnd hn]
    omega
  rw [expand_gpu hcpu (List.ne_nil_of_mem hn)]
  dsimp only
  split
  · exact ⟨_, rfl⟩
  cases hlists : (targets group visible).mapM fun gpu => group.share sharedBy shareRank gpu with
  | error e => exact ⟨e, rfl⟩
  | ok lists =>
    have hpos := (count_mapM_share n hlists).1 n htarget
    omega

theorem expand_accepts (hne : visible ≠ []) (hnames : ∀ n ∈ group.gpus, n ∈ visible)
    (hparts : group.kind = .cpu ∨
      ∀ n ∈ visible, 1 ≤ portion group.count ((sharedBy n).getD 1) ((shareRank n).getD 0)) :
    ∃ devices, group.expand visible sharedBy shareRank = .ok devices := by
  by_cases hcpu : group.kind = .cpu
  · exact ⟨_, expand_cpu hcpu visible sharedBy shareRank⟩
  · have htargets : ∀ t ∈ targets group visible, t ∈ visible := by
      unfold targets
      split
      · exact fun _ h => h
      · exact hnames
    obtain ⟨lists, hlists⟩ := exists_mapM_share fun t ht => hparts.resolve_left hcpu t (htargets t ht)
    have hmissing : ((targets group visible).filter fun gpu => !visible.contains gpu).dedup = [] := by
      have hall : (targets group visible).filter (fun gpu => !visible.contains gpu) = [] := by
        rw [List.filter_eq_nil_iff]
        intro t ht
        simpa using htargets t ht
      rw [hall, List.dedup_nil]
    refine ⟨lists.flatten, ?_⟩
    rw [expand_gpu hcpu hne]
    dsimp only
    rw [if_neg (not_not_intro hmissing), hlists]
    rfl

end

/-! ## A group in the process of a shard -/

theorem byDevice_ok {visible : List Nat} (sent : List Nat) (hnd : visible.Nodup) (hlen : sent.length = visible.length) :
    ∃ d, byDevice visible sent = .ok d ∧ d.entries = visible.zip sent := by
  by_cases hsent : sent = []
  · refine ⟨.empty, by simp [byDevice, hsent], ?_⟩
    simp [hsent]
  · refine ⟨Dict.empty.update (visible.zip sent), by simp [byDevice, hsent, hlen], ?_⟩
    have hfst : (visible.zip sent).map Prod.fst = visible := List.map_fst_zip hlen.ge
    rw [Dict.update_entries_of_new]
    · rfl
    · rw [Dict.keys_empty, List.nil_append, hfst]
      exact hnd

section
variable {K G : Type} [DecidableEq G]

theorem Numbering.mem_zip (numbering : Numbering G) {gpus : List G} {gpu : G} (h : gpu ∈ gpus) :
    (numbering.ordinal gpus gpu, gpu) ∈ (numbering.visible gpus).zip gpus := by
  have hlt : gpus.idxOf gpu < gpus.length := List.idxOf_lt_length_of_mem h
  have hlt' : gpus.idxOf gpu < (numbering.visible gpus).length := (numbering.length_visible gpus).symm ▸ hlt
  refine List.mem_iff_getElem.mpr ⟨gpus.idxOf gpu, by simp [hlt, hlt'], ?_⟩
  rw [List.getElem_zip, List.getElem_idxOf hlt]
  simp [Numbering.ordinal, List.getD_eq_getElem?_getD, hlt']

theorem Numbering.ordinal_mem (numbering : Numbering G) {gpus : List G} {gpu : G} (h : gpu ∈ gpus) :
    numbering.ordinal gpus gpu ∈ numbering.visible gpus := (List.of_mem_zip (numbering.mem_zip h)).1

/-- A process sees nothing but its devices. -/
theorem Numbering.exists_ordinal (numbering : Numbering G) {gpus : List G} (hnd : gpus.Nodup) {n : Nat}
    (h : n ∈ numbering.visible gpus) : ∃ gpu ∈ gpus, numbering.ordinal gpus gpu = n := by
  obtain ⟨k, hk, rfl⟩ := List.getElem_of_mem h
  have hk' : k < gpus.length := numbering.length_visible gpus ▸ hk
  refine ⟨gpus[k], List.getElem_mem hk', ?_⟩
  rw [Numbering.ordinal, hnd.idxOf_getElem]
  simp [List.getD_eq_getElem?_getD, hk]

/-- Where a shard stands among the owners of a device. -/
def ShardPlan.rank (plan : ShardPlan K G) (shard : Shard K G) (gpu : G) : Nat :=
  ((plan.owners gpu).map Shard.index).idxOf shard.index

variable {plan : ShardPlan K G} {names : List String} {gpus : List G} {numbering : Numbering G} {group : InstanceGroup}
  {shard : Shard K G} {gpu : G} {devices : List Device}

theorem ShardPlan.mem_owners : shard ∈ plan.owners gpu ↔ shard ∈ plan.shards ∧ gpu ∈ shard.gpus := by
  simp [ShardPlan.owners]

/-- The process of a shard expands a group knowing its owners and rank on each device. -/
theorem ShardPlan.Sound.loads_eq (h : plan.Sound names gpus) (hshard : shard ∈ plan.shards) (numbering : Numbering G)
    (group : InstanceGroup) : ∃ sharedBy shareRank : Nat → Option Nat,
      plan.loads numbering group shard =
        (group.expand (numbering.visible shard.gpus) sharedBy shareRank).mapError LoadError.placement ∧
      ∀ gpu ∈ shard.gpus, sharedBy (numbering.ordinal shard.gpus gpu) = some (plan.owners gpu).length ∧
        shareRank (numbering.ordinal shard.gpus gpu) = some (plan.rank shard gpu) := by
  have hnd : (numbering.visible shard.gpus).Nodup := numbering.nodup_visible (h.own shard hshard).2
  have hlen := numbering.length_visible shard.gpus
  obtain ⟨d, hd, hdz⟩ := byDevice_ok (plan.sharingFor shard) hnd (by simp [ShardPlan.sharingFor, hlen])
  obtain ⟨r, hr, hrz⟩ := byDevice_ok (plan.rankFor shard) hnd (by simp [ShardPlan.rankFor, hlen])
  refine ⟨d.get?, r.get?, ?_, fun gpu hgpu => ?_⟩
  · simp only [ShardPlan.loads, hd, hr]
    rfl
  have hzip := numbering.mem_zip hgpu
  have howner : shard ∈ plan.owners gpu := ShardPlan.mem_owners.mpr ⟨hshard, hgpu⟩
  refine ⟨?_, ?_⟩
  · rw [Dict.get?_eq_some_iff, hdz, ShardPlan.sharingFor, List.zip_map_right]
    refine List.mem_map.mpr ⟨_, hzip, ?_⟩
    have hcount := h.sharing gpu
    have hpos : 0 < (plan.owners gpu).length := List.length_pos_of_mem howner
    cases hget : plan.shardsPerGpu.get? gpu with
    | none =>
      rw [hget, Option.getD_none] at hcount
      omega
    | some m =>
      rw [hget, Option.getD_some] at hcount
      simp [hget, hcount]
  · rw [Dict.get?_eq_some_iff, hrz, ShardPlan.rankFor, List.zip_map_right]
    refine List.mem_map.mpr ⟨_, hzip, ?_⟩
    have hmem : shard.index ∈ (plan.owners gpu).map Shard.index := List.mem_map_of_mem howner
    simp only [Prod.map_apply, id_eq, if_pos hmem]
    rfl

/-- The ranks of a device's owners are the numbers below their count. -/
theorem ShardPlan.Sound.ranks (h : plan.Sound names gpus) (gpu : G) :
    (plan.owners gpu).map (fun shard => plan.rank shard gpu) = List.range (plan.owners gpu).length := by
  have hnd : ((plan.owners gpu).map Shard.index).Nodup := h.index.sublist (List.filter_sublist.map _)
  apply List.ext_getElem
  · simp
  intro k hk hk'
  have hindex : k < ((plan.owners gpu).map Shard.index).length := by simpa using hk
  have hidx := hnd.idxOf_getElem k hindex
  rw [List.getElem_map] at hidx
  rw [List.getElem_map, List.getElem_range]
  exact hidx

theorem ShardPlan.Sound.count_loads (h : plan.Sound names gpus) (howner : shard ∈ plan.owners gpu)
    (hload : plan.loads numbering group shard = .ok devices) :
    devices.count (cuda (numbering.ordinal shard.gpus gpu)) = times group (numbering.ordinal shard.gpus gpu) *
      portion group.count (plan.owners gpu).length (plan.rank shard gpu) := by
  obtain ⟨hshard, hgpu⟩ := ShardPlan.mem_owners.mp howner
  obtain ⟨sharedBy, shareRank, heq, hget⟩ := h.loads_eq hshard numbering group
  obtain ⟨hby, hrank⟩ := hget gpu hgpu
  rw [heq] at hload
  cases hexp : group.expand (numbering.visible shard.gpus) sharedBy shareRank with
  | error e => rw [hexp] at hload; cases hload
  | ok list =>
    rw [hexp] at hload
    cases hload
    rw [count_expand (numbering.nodup_visible (h.own shard hshard).2) (numbering.ordinal_mem hgpu) hexp, hby, hrank]
    rfl

/-- Where the count is smaller than the number of owners, the last of them refuses. -/
theorem ShardPlan.Sound.loads_refuses (h : plan.Sound names gpus) (howner : shard ∈ plan.owners gpu)
    (hnames : times group (numbering.ordinal shard.gpus gpu) ≠ 0)
    (hpart : portion group.count (plan.owners gpu).length (plan.rank shard gpu) = 0) :
    ∃ e, plan.loads numbering group shard = .error e := by
  obtain ⟨hshard, hgpu⟩ := ShardPlan.mem_owners.mp howner
  obtain ⟨sharedBy, shareRank, heq, hget⟩ := h.loads_eq hshard numbering group
  obtain ⟨hby, hrank⟩ := hget gpu hgpu
  have hzero : portion group.count ((sharedBy (numbering.ordinal shard.gpus gpu)).getD 1)
      ((shareRank (numbering.ordinal shard.gpus gpu)).getD 0) = 0 := by
    rw [hby, hrank]
    exact hpart
  obtain ⟨e, he⟩ := expand_refuses (numbering.nodup_visible (h.own shard hshard).2) (numbering.ordinal_mem hgpu) hnames hzero
  exact ⟨.placement e, by rw [heq, he]; rfl⟩

/-- The owners of one device are those of every other device any of them has. -/
theorem ShardPlan.Sound.owners_eq (h : plan.Sound names gpus) (howner : shard ∈ plan.owners gpu) {other : G}
    (hother : other ∈ shard.gpus) : plan.owners other = plan.owners gpu := by
  obtain ⟨hshard, hgpu⟩ := ShardPlan.mem_owners.mp howner
  apply List.filter_congr
  intro t ht
  refine decide_eq_decide.mpr ⟨fun hmem => ?_, fun hmem => ?_⟩
  · rw [h.alike t ht shard hshard other hmem hother]
    exact hgpu
  · rw [h.alike t ht shard hshard gpu hmem hgpu]
    exact hother

theorem ShardPlan.Sound.loads_accepts (h : plan.Sound names gpus) (howner : shard ∈ plan.owners gpu)
    (hnames : ∀ n ∈ group.gpus, n ∈ numbering.visible shard.gpus)
    (hparts : group.kind = .cpu ∨ (plan.owners gpu).length ≤ group.count) :
    ∃ devices, plan.loads numbering group shard = .ok devices := by
  obtain ⟨hshard, hgpu⟩ := ShardPlan.mem_owners.mp howner
  obtain ⟨sharedBy, shareRank, heq, hget⟩ := h.loads_eq hshard numbering group
  obtain ⟨devices, hdevices⟩ : ∃ devices, group.expand (numbering.visible shard.gpus) sharedBy shareRank = .ok devices := by
    refine expand_accepts (List.ne_nil_of_mem (numbering.ordinal_mem hgpu)) hnames (hparts.imp_right fun hle n hn => ?_)
    obtain ⟨other, hother, rfl⟩ := numbering.exists_ordinal (h.own shard hshard).2 hn
    obtain ⟨hby, hrank⟩ := hget other hother
    rw [hby, hrank, h.owners_eq howner hother]
    have hdiv : 1 ≤ group.count / (plan.owners gpu).length := Nat.div_pos hle (List.length_pos_of_mem howner)
    exact hdiv.trans (Nat.le_add_right _ _)
  exact ⟨devices, by rw [heq, hdevices]; rfl⟩

/-- What the owners of a device load there is the sum of the parts of all ranks. -/
theorem ShardPlan.Sound.sum_loads (h : plan.Sound names gpus) {n : Nat} : ∀ {owners : List (Shard K G)}
    {loaded : List (List Device)}, (∀ shard ∈ owners, shard ∈ plan.owners gpu ∧ numbering.ordinal shard.gpus gpu = n) →
      owners.mapM (plan.loads numbering group) = .ok loaded → (loaded.map (List.count (cuda n))).sum =
        times group n * ((owners.map fun shard => plan.rank shard gpu).map (portion group.count (plan.owners gpu).length)).sum
  | [], loaded, _, hload => by
    cases hload
    simp
  | shard :: owners, loaded, hall, hload => by
    rw [List.mapM_cons] at hload
    obtain ⟨own, hown, hload⟩ := bind_ok.mp hload
    obtain ⟨rest, hrest, hload⟩ := bind_ok.mp hload
    cases hload
    obtain ⟨howner, hn⟩ := hall shard List.mem_cons_self
    have hcount := h.count_loads howner hown
    rw [hn] at hcount
    simp only [List.map_cons, List.sum_cons, Nat.mul_add, hcount,
      h.sum_loads (fun s hs => hall s (List.mem_cons_of_mem _ hs)) hrest]

end

section
variable {K G : Type} [DecidableEq G] [Zero K] [One K] [Add K] [Neg K] [Div K] [NatCast K] [LT K] [DecidableLT K] [BEq K]

omit [Zero K] [Add K] [Neg K] [Div K] [NatCast K] [LT K] [DecidableLT K] [BEq K] in
theorem Cameras.mem_load {cameras : Cameras K} {camera : String} : camera ∈ cameras.load.keys ↔ camera ∈ cameras.names := by
  cases cameras with
  | loads offered => exact Iff.rfl
  | ids names =>
    rw [Cameras.load, Dict.mem_keys_update]
    simp [Cameras.names, Function.comp_def]

/-- **Sharing keeps the count.** In an accepted plan every camera is in one shard, every
device has a shard and every shard a device. What the owners of a device load of a group
is the count, once for each time the group names the device; where a named device has more
owners than the count one of them refuses, else all do load it whose devices it names. -/
theorem sharing_keeps_count {cameras : Cameras K} {shards : Int} {gpus : List G} {plan : ShardPlan K G} (hgpus : gpus.Nodup)
    (h : planShards cameras shards gpus = .ok plan) :
    (∀ camera ∈ cameras.names, ∃! shard, shard ∈ plan.shards ∧ camera ∈ shard.cameras) ∧
      (∀ gpu ∈ gpus, ∃ shard ∈ plan.shards, gpu ∈ shard.gpus) ∧ (∀ shard ∈ plan.shards, shard.gpus ≠ []) ∧
      ∀ (numbering : Numbering G) (group : InstanceGroup), ∀ gpu ∈ gpus, ∃ n,
        (∀ shard ∈ plan.owners gpu, numbering.ordinal shard.gpus gpu = n) ∧
        (∀ loaded, (plan.owners gpu).mapM (plan.loads numbering group) = .ok loaded →
          (loaded.map (List.count (cuda n))).sum = times group n * group.count) ∧
        (times group n ≠ 0 → group.count < (plan.owners gpu).length →
          ∃ shard ∈ plan.owners gpu, ∃ e, plan.loads numbering group shard = .error e) ∧
        (group.kind = .cpu ∨ (plan.owners gpu).length ≤ group.count → ∀ shard ∈ plan.owners gpu,
          (∀ m ∈ group.gpus, m ∈ numbering.visible shard.gpus) →
            ∃ devices, plan.loads numbering group shard = .ok devices) := by
  have hsound := planShards_sound hgpus h
  refine ⟨fun camera hcamera => ?_, hsound.owned, fun shard hshard => (hsound.own shard hshard).1, ?_⟩
  · have hnd : (plan.shards.flatMap Shard.cameras).Nodup := hsound.cameras.nodup_iff.mpr cameras.load.keys_nodup
    have hsymm : Std.Symm (Function.onFun List.Disjoint (Shard.cameras (K := K) (G := G))) := ⟨fun _ _ h _ ha hb => h hb ha⟩
    obtain ⟨shard, hshard, hmem⟩ := List.mem_flatMap.mp (hsound.cameras.mem_iff.mpr (Cameras.mem_load.mpr hcamera))
    refine ⟨shard, ⟨hshard, hmem⟩, fun other hother => ?_⟩
    by_contra hne
    exact (List.nodup_flatMap.mp hnd).2.forall hother.1 hshard hne hother.2 hmem
  · intro numbering group gpu hgpu
    obtain ⟨owner, hshard, hown⟩ := hsound.owned gpu hgpu
    have howner : owner ∈ plan.owners gpu := ShardPlan.mem_owners.mpr ⟨hshard, hown⟩
    have hpos : 0 < (plan.owners gpu).length := List.length_pos_of_mem howner
    have hseen : ∀ shard ∈ plan.owners gpu, numbering.ordinal shard.gpus gpu = numbering.ordinal owner.gpus gpu := by
      intro shard hmem
      obtain ⟨hs, hg⟩ := ShardPlan.mem_owners.mp hmem
      rw [hsound.alike shard hs owner hshard gpu hg hown]
    refine ⟨numbering.ordinal owner.gpus gpu, hseen, fun loaded hload => ?_, fun hnames hfew => ?_, ?_⟩
    · rw [hsound.sum_loads (fun shard hmem => ⟨hmem, hseen shard hmem⟩) hload, hsound.ranks, sum_portion group.count hpos]
    · -- the owner of the last rank has no part: the count is all remainder, and smaller than the ranks
      have hlast : (plan.owners gpu).length - 1 ∈ (plan.owners gpu).map fun shard => plan.rank shard gpu := by
        rw [hsound.ranks]
        exact List.mem_range.mpr (by omega)
      obtain ⟨shard, hmem, hrank⟩ := List.mem_map.mp hlast
      refine ⟨shard, hmem, hsound.loads_refuses hmem (by rw [hseen shard hmem]; exact hnames) ?_⟩
      rw [hrank, portion, Nat.div_eq_of_lt hfew, Nat.mod_eq_of_lt hfew, if_neg (by omega)]
    · intro hparts shard hmem hnames
      exact hsound.loads_accepts hmem hnames hparts

/-- Three shards on two devices: the first device is shared, and its three instances are
two of one shard and one of the other. -/
theorem three_on_two :
    let group : InstanceGroup := ⟨.gpu, 3, [0], Nat.succ_pos 2, fun h => InstanceKind.noConfusion h⟩
    ∃ plan : ShardPlan Int Nat, planShards (.ids ["bow", "mast", "quay"]) 3 [5, 7] = .ok plan ∧
      (plan.owners 5).length = 2 ∧ ∃ n, ∀ loaded, (plan.owners 5).mapM (plan.loads .logical group) = .ok loaded →
        (loaded.map (List.count (cuda n))).sum = times group n * 3 := by
  intro group
  obtain ⟨plan, hplan⟩ : ∃ plan : ShardPlan Int Nat, planShards (.ids ["bow", "mast", "quay"]) 3 [5, 7] = .ok plan :=
    ⟨_, rfl⟩
  obtain ⟨n, -, hsum, -⟩ := (sharing_keeps_count (by decide) hplan).2.2.2 .logical group 5 (by decide)
  refine ⟨plan, hplan, ?_, n, hsum⟩
  cases hplan
  rfl

/-- Two shards of one device. A group that names it twice puts twice its count there; one
on the CPU puts nothing there, and nobody refuses it for a count too small. -/
theorem twice_and_cpu :
    let twice : InstanceGroup := ⟨.gpu, 2, [0, 0], Nat.succ_pos 1, fun h => InstanceKind.noConfusion h⟩
    let onCpu : InstanceGroup := ⟨.cpu, 1, [], Nat.succ_pos 0, fun _ => rfl⟩
    ∃ plan : ShardPlan Int Nat, planShards (.ids []) 2 [0] = .ok plan ∧ (plan.owners 0).length = 2 ∧
      (plan.owners 0).mapM (plan.loads .physical twice) = .ok [[cuda 0, cuda 0], [cuda 0, cuda 0]] ∧ twice.count = 2 ∧
      (plan.owners 0).mapM (plan.loads .physical onCpu) = .ok [[{}], [{}]] ∧ onCpu.count = 1 :=
  ⟨_, rfl, rfl, by decide, rfl, by decide, rfl⟩

end

end ShipInfer.Scheduling
