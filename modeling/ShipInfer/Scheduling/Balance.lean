import Mathlib.Algebra.BigOperators.Fin
import Mathlib.Algebra.Order.Ring.Rat
import Mathlib.Data.Fintype.Lattice
import Mathlib.Data.Prod.Lex
import Mathlib.Data.String.Basic
import ShipInfer.Lib.Greedy
import ShipInfer.Scheduling.Sharing

/-!
# How evenly a plan spreads the load

`plan_shards` gives each camera, the largest first, to the shard that has the least for its
share of the devices. What it makes is a run of that rule, so where all shards have the same
share, or every camera is small against an even spread, no shard carries more than 4/3 of
what some shard carries in any other assignment. It does not follow for shares that differ:
the rule looks at what a shard has, not at what it would have.
-/

namespace ShipInfer.Scheduling

open Greedy

/-! ## The order of the cameras -/

theorem pairLt_eq_false {A B : Type} [LinearOrder A] [BEq A] [LawfulBEq A] [DecidableLT A] [LinearOrder B] [DecidableLT B]
    (a b : A × B) :
    pairLt a b = false ↔ toLex b ≤ toLex a := by
  rw [← not_lt, Prod.Lex.toLex_lt_toLex, ← Bool.not_eq_true]
  apply not_congr
  unfold pairLt
  by_cases h : a.1 = b.1
  · simp [h]
  · simp [h]

/-- The key of the cameras' order. -/
def rank (p : String × ℚ) : ℚ ×ₗ String := toLex (-p.2, p.1)

theorem snd_le_of_rank_le {p q : String × ℚ} (h : rank p ≤ rank q) : q.2 ≤ p.2 := by
  rcases Prod.Lex.toLex_le_toLex.mp h with h | ⟨h, -⟩
  · exact (neg_lt_neg_iff.mp h).le
  · exact (neg_inj.mp h).ge

theorem byLoad_descending (load : Dict String ℚ) : ((byLoad load).map Prod.snd).Pairwise fun x y => y ≤ x := by
  rw [List.pairwise_map]
  have hrel : ∀ a b : String × ℚ, pairLt (-b.2, b.1) (-a.2, a.1) = false ↔ rank a ≤ rank b := fun a b => pairLt_eq_false _ _
  have : Std.Total fun a b : String × ℚ => pairLt (-b.2, b.1) (-a.2, a.1) = false := by
    constructor
    intro a b
    rw [hrel, hrel]
    exact le_total _ _
  have : IsTrans (String × ℚ) fun a b => pairLt (-b.2, b.1) (-a.2, a.1) = false := by
    constructor
    intro a b c hab hbc
    rw [hrel] at hab hbc ⊢
    exact hab.trans hbc
  exact (List.pairwise_insertionSort _ load.entries).imp fun {a b} h => snd_le_of_rank_le ((hrel a b).mp h)

/-! ## The shard that has the least -/

theorem foldl_least (ratio : Nat → ℚ) : ∀ (l : List Nat) (best : Nat),
    let least := l.foldl (fun best i => if pairLt (ratio i, i) (ratio best, best) then i else best) best
    ratio least ≤ ratio best ∧ ∀ i ∈ l, ratio least ≤ ratio i
  | [], best => by simp
  | i :: l, best => by
    have hstep : ratio (if pairLt (ratio i, i) (ratio best, best) then i else best) ≤ ratio best ∧
        ratio (if pairLt (ratio i, i) (ratio best, best) then i else best) ≤ ratio i := by
      unfold pairLt
      by_cases heq : ratio i = ratio best
      · simp only [heq, beq_self_eq_true, if_true]
        split <;> simp [heq]
      · simp only [beq_iff_eq, heq, if_false, decide_eq_true_eq]
        split
        next h => exact ⟨h.le, le_rfl⟩
        next h => exact ⟨le_rfl, not_lt.mp h⟩
    obtain ⟨hbest, hrest⟩ := foldl_least ratio l (if pairLt (ratio i, i) (ratio best, best) then i else best)
    refine ⟨hbest.trans hstep.1, fun j hj => ?_⟩
    rcases List.mem_cons.mp hj with rfl | hj
    · exact hbest.trans hstep.2
    · exact hrest j hj

theorem target_least (capacity weights : List ℚ) {j : Nat} (hj : j < weights.length) :
    weights.getD (target capacity weights) 0 / capacity.getD (target capacity weights) 0 ≤
      weights.getD j 0 / capacity.getD j 0 := by
  obtain ⟨hfirst, hrest⟩ := foldl_least (fun i => weights.getD i 0 / capacity.getD i 0) (List.range weights.length).tail 0
  match j with
  | 0 => exact hfirst
  | j + 1 =>
    apply hrest (j + 1)
    obtain ⟨n, hn⟩ := Nat.exists_eq_succ_of_ne_zero (Nat.ne_zero_of_lt hj)
    rw [hn, List.range_succ_eq_map, List.tail_cons]
    exact List.mem_map.mpr ⟨j, List.mem_range.mpr (by omega), rfl⟩

/-- Placing cameras is a run of the rule. -/
theorem place_run {n : Nat} (hn : 0 < n) (capacity : List ℚ) : ∀ (cameras : List (String × ℚ)) {b : Buckets ℚ}
    {l : List (ℚ × Fin n)}, b.weights.length = n → Run (fun i : Fin n => capacity.getD i 0) l →
      (∀ i : Fin n, b.weights.getD i 0 = load l i) →
      ∃ m, Run (fun i : Fin n => capacity.getD i 0) m ∧ m.map Prod.fst = l.map Prod.fst ++ cameras.map Prod.snd ∧
        ∀ i : Fin n, (cameras.foldl (place capacity) b).weights.getD i 0 = load m i
  | [], b, l, _, hrun, hload => ⟨l, hrun, by simp, hload⟩
  | camera :: cameras, b, l, hlen, hrun, hload => by
    have hlt : target capacity b.weights < b.weights.length := target_lt (by omega)
    let i : Fin n := ⟨target capacity b.weights, hlen ▸ hlt⟩
    have hnext : Run (fun i : Fin n => capacity.getD i 0) (l ++ [(camera.2, i)]) := by
      refine hrun.snoc fun j => ?_
      rw [← hload, ← hload]
      exact target_least capacity b.weights (by omega)
    obtain ⟨m, hm, hfst, hloads⟩ := place_run hn capacity cameras (b := place capacity b camera) (by simpa [place] using hlen)
      hnext fun j => by
        by_cases hj : i = j
        · subst hj
          rw [load_append_self, ← hload]
          simp [place, i, List.getD_eq_getElem?_getD, hlt]
        · have hne : target capacity b.weights ≠ j := fun h => hj (Fin.ext h)
          rw [load_append_ne l _ hj, ← hload]
          simp [place, List.getD_eq_getElem?_getD, hne]
    exact ⟨m, hm, by simpa using hfst, hloads⟩

/-- The first camera goes to the first shard. -/
theorem target_zeros (capacity : List ℚ) (n : Nat) : target capacity (List.replicate n 0) = 0 := by
  apply foldl_keeps (I := fun best => best = 0)
  · intro best i _ hbest
    rw [hbest]
    have hzero : ∀ j, (List.replicate n (0 : ℚ)).getD j 0 = 0 := by
      intro j
      by_cases hj : j < n <;> simp [List.getD_eq_getElem?_getD, hj]
    simp only [pairLt, hzero, zero_div, beq_self_eq_true, if_true]
    simp
  · rfl

/-- With loads that are not negative, what a shard has stays. -/
theorem le_place {capacity : List ℚ} {x : ℚ} {j : Nat} {cameras : List (String × ℚ)} {b : Buckets ℚ}
    (hcameras : ∀ p ∈ cameras, 0 ≤ p.2) (h : x ≤ b.weights.getD j 0) :
    x ≤ (cameras.foldl (place capacity) b).weights.getD j 0 := by
  apply foldl_keeps (I := fun c : Buckets ℚ => x ≤ c.weights.getD j 0) _ h
  intro b p hp hle
  have hnonneg := hcameras p hp
  refine hle.trans ?_
  simp only [place, List.getD_eq_getElem?_getD, List.getElem?_modify]
  by_cases heq : target capacity b.weights = j
  · cases b.weights[j]? <;> simp [heq, hnonneg]
  · simp [heq]

/-- The largest camera goes to the first shard. -/
theorem le_first {load : Dict String ℚ} (hload : ∀ x ∈ load.values, 0 ≤ x) (capacity : List ℚ) {n : Nat} (hn : 0 < n) {x : ℚ}
    (hx : x ∈ load.values) :
    x ≤ ((byLoad load).foldl (place capacity) { buckets := List.replicate n [], weights := List.replicate n 0 }).weights.getD 0 0 := by
  have hperm : (byLoad load).Perm load.entries := List.perm_insertionSort _ _
  have hdesc := byLoad_descending load
  have hmem : x ∈ (byLoad load).map Prod.snd := (hperm.map _).mem_iff.mpr hx
  have hnonneg : ∀ p ∈ byLoad load, 0 ≤ p.2 := fun p hp => hload p.2 (List.mem_map_of_mem (hperm.mem_iff.mp hp))
  match hlist : byLoad load with
  | [] => simp [hlist] at hmem
  | p :: rest =>
    rw [hlist] at hdesc hmem hnonneg
    have hle : x ≤ p.2 := by
      rcases List.mem_cons.mp hmem with rfl | hmem
      · exact le_rfl
      · exact (List.pairwise_cons.mp hdesc).1 x hmem
    rw [List.foldl_cons]
    refine le_place (fun q hq => hnonneg q (List.mem_cons_of_mem _ hq)) (hle.trans ?_)
    simp [place, target_zeros, List.getD_eq_getElem?_getD, hn]

/-! ## The shares of the devices -/

section
variable {G : Type} [DecidableEq G]

/-- The shares of the devices that the shards of a plan have. -/
def capacities (gpus : List G) (n : Nat) : List ℚ :=
  ((List.range n).map (window gpus n)).map (capacityOf (((List.range n).map (window gpus n)).foldl handOut .empty))

theorem length_capacities (gpus : List G) (n : Nat) : (capacities gpus n).length = n := by
  simp [capacities]

theorem capacityOf_eq (sharing : Counter G) (mine : List G) :
    (capacityOf sharing mine : ℚ) = (mine.map fun gpu => 1 / (((sharing.get? gpu).getD 0 : Nat) : ℚ)).sum := by
  rw [capacityOf, List.sum_eq_foldl, List.foldl_map]

/-- A device of a shard is shared by one at least. -/
theorem handed_out {assigned : List (List G)} {mine : List G} (hmine : mine ∈ assigned) {gpu : G} (hgpu : gpu ∈ mine) :
    0 < ((assigned.foldl handOut .empty).get? gpu).getD 0 := by
  have hflat : assigned.foldl handOut .empty = handOut .empty assigned.flatten := List.foldl_flatten.symm
  have hcount : 0 < assigned.flatten.count gpu := List.count_pos_iff.mpr (List.mem_flatten.mpr ⟨mine, hmine, hgpu⟩)
  rw [hflat, getD_handOut]
  omega

theorem capacityOf_pos {assigned : List (List G)} {mine : List G} (hmine : mine ∈ assigned) (hne : mine ≠ []) :
    (0 : ℚ) < capacityOf (assigned.foldl handOut .empty) mine := by
  rw [capacityOf_eq]
  have hpos : ∀ c ∈ mine.map fun gpu => 1 / ((((assigned.foldl handOut .empty).get? gpu).getD 0 : Nat) : ℚ), 0 < c := by
    intro c hc
    obtain ⟨gpu, hgpu, rfl⟩ := List.mem_map.mp hc
    have := handed_out hmine hgpu
    positivity
  exact List.sum_pos _ hpos (by simpa using hne)

theorem capacities_pos {gpus : List G} (hgpus : gpus ≠ []) {n : Nat} (hn : 0 < n) {c : ℚ} (hc : c ∈ capacities gpus n) : 0 < c := by
  obtain ⟨mine, hmine, rfl⟩ := List.mem_map.mp hc
  refine capacityOf_pos hmine ?_
  obtain ⟨i, hi, rfl⟩ := List.mem_map.mp hmine
  exact window_ne_nil hgpus hn (List.mem_range.mp hi)

/-! ## The balance of a plan -/

/-- The share of its devices that a shard of a plan has. -/
def ShardPlan.capacity (plan : ShardPlan ℚ G) (shard : Shard ℚ G) : ℚ := capacityOf plan.shardsPerGpu shard.gpus

/-- What shard `index` is offered when each camera is read by the shard that `reader` says. -/
def offered (load : Dict String ℚ) (reader : String → Nat) (index : Nat) : ℚ :=
  ((load.entries.filter fun p => decide (reader p.1 = index)).map Prod.snd).sum

/-- No shard carries more than 4/3 of what some shard carries in any other assignment. -/
def ShardPlan.Balanced (plan : ShardPlan ℚ G) (load : Dict String ℚ) : Prop :=
  ∀ reader : String → Nat, (∀ name ∈ load.keys, reader name < plan.shards.length) →
    ∀ shard ∈ plan.shards, ∃ other ∈ plan.shards,
      shard.offeredFps / plan.capacity shard ≤ 4 / 3 * (offered load reader other.index / plan.capacity other)

/-- All shards have the same share of the devices. -/
def Even (capacities : List ℚ) : Prop := ∀ c ∈ capacities, ∀ d ∈ capacities, c = d

/-- No camera is more than a third of what an even spread of the load gives any shard. -/
def Fine (load : Dict String ℚ) (capacities : List ℚ) : Prop :=
  ∀ p ∈ load.entries, ∀ c ∈ capacities, 3 * p.2 * capacities.sum ≤ c * load.values.sum

instance (capacities : List ℚ) : Decidable (Even capacities) :=
  inferInstanceAs (Decidable (∀ c ∈ capacities, ∀ d ∈ capacities, c = d))

instance (load : Dict String ℚ) (capacities : List ℚ) : Decidable (Fine load capacities) :=
  inferInstanceAs (Decidable (∀ p ∈ load.entries, ∀ c ∈ capacities, 3 * p.2 * capacities.sum ≤ c * load.values.sum))

theorem planShards_ok (cameras : Cameras ℚ) (shards : Int) (gpus : List G) (hshards : 1 ≤ shards) (hgpus : gpus ≠ [])
    (hsize : shards ≤ cameras.load.size) : ∃ plan, planShards cameras shards gpus = .ok plan := by
  have hone : ¬shards < 1 := by omega
  have hfew : ¬(cameras.load.size ≠ 0 ∧ (cameras.load.size : Int) < shards) := by omega
  simp only [planShards, if_neg hone, if_neg hgpus, if_neg hfew]
  exact ⟨_, rfl⟩

/-- What an accepted plan makes of the loads. -/
structure ShardPlan.Spread (plan : ShardPlan ℚ G) (load : Dict String ℚ) (gpus : List G) (n : Nat) : Prop where
  some : 0 < n
  devices : gpus ≠ []
  count : plan.shards.length = n
  each : ∀ i < n, ∃ shard ∈ plan.shards, shard.index = i
  capacity : ∀ shard ∈ plan.shards, plan.capacity shard = (capacities gpus n).getD shard.index 0
  run : ∃ l : List (ℚ × Fin n), Run (fun i : Fin n => (capacities gpus n).getD i 0) l ∧
    l.map Prod.fst = (byLoad load).map Prod.snd ∧ ∀ shard ∈ plan.shards, ∃ i : Fin n, shard.index = i ∧ shard.offeredFps = Greedy.load l i
  first : (∀ x ∈ load.values, 0 ≤ x) → ∃ shard ∈ plan.shards, shard.index = 0 ∧ ∀ x ∈ load.values, x ≤ shard.offeredFps

theorem planShards_spread {cameras : Cameras ℚ} {shards : Int} {gpus : List G} {plan : ShardPlan ℚ G}
    (h : planShards cameras shards gpus = .ok plan) : plan.Spread cameras.load gpus shards.toNat := by
  simp only [planShards] at h
  split at h
  · cases h
  split at h
  · cases h
  split at h
  · cases h
  next hshards hgpus _ =>
  have hpos : 0 < shards.toNat := by omega
  generalize shards.toNat = n at h hpos ⊢
  simp only [Except.ok.injEq] at h
  subst h
  obtain ⟨l, hrun, hfst, hload⟩ := place_run hpos (capacities gpus n) (byLoad cameras.load)
    (b := { buckets := List.replicate n [], weights := List.replicate n 0 }) (l := []) (by simp) .nil (by simp [Greedy.load, Greedy.own])
  refine ⟨hpos, hgpus, by simp, ?_, ?_, ⟨l, hrun, by simpa using hfst, ?_⟩, fun hnonneg => ?_⟩
  · intro i hi
    exact ⟨_, List.mem_map.mpr ⟨i, List.mem_range.mpr hi, rfl⟩, rfl⟩
  · intro shard hshard
    obtain ⟨i, hi, rfl⟩ := List.mem_map.mp hshard
    simp [ShardPlan.capacity, capacities, List.getD_eq_getElem?_getD, List.mem_range.mp hi]
  · intro shard hshard
    obtain ⟨i, hi, rfl⟩ := List.mem_map.mp hshard
    exact ⟨⟨i, List.mem_range.mp hi⟩, rfl, hload ⟨i, List.mem_range.mp hi⟩⟩
  · exact ⟨_, List.mem_map.mpr ⟨0, List.mem_range.mpr hpos, rfl⟩, rfl, fun x hx => le_first hnonneg (capacities gpus n) hpos hx⟩

/-! ## Against any other assignment -/

theorem sum_capacities (gpus : List G) (n : Nat) : ∑ i : Fin n, (capacities gpus n).getD i 0 = (capacities gpus n).sum := by
  have hlist : capacities gpus n = List.ofFn fun i : Fin n => (capacities gpus n).getD i 0 := by
    apply List.ext_getElem
    · simp [length_capacities]
    · intro i hi _
      simp [List.getD_eq_getElem?_getD, List.getElem?_eq_getElem hi]
  conv_rhs => rw [hlist]
  rw [List.sum_ofFn]

theorem mem_capacities (gpus : List G) {n : Nat} (i : Fin n) : (capacities gpus n).getD i 0 ∈ capacities gpus n := by
  have hi : (i : Nat) < (capacities gpus n).length := by
    rw [length_capacities]
    exact i.isLt
  rw [List.getD_eq_getElem?_getD, List.getElem?_eq_getElem hi]
  exact List.getElem_mem hi

/-- An assignment of the cameras as jobs on machines. -/
theorem exists_jobs {load : Dict String ℚ} {reader : String → Nat} {n : Nat} (hn : 0 < n)
    (h : ∀ name ∈ load.keys, reader name < n) :
    ∃ jobs : List (ℚ × Fin n), jobs.map Prod.fst = load.values ∧ ∀ i : Fin n, Greedy.load jobs i = offered load reader i := by
  let assign : String → Fin n := fun name => if hlt : reader name < n then ⟨reader name, hlt⟩ else ⟨0, hn⟩
  refine ⟨load.entries.map fun p => (p.2, assign p.1), by simp [Dict.values], fun i => ?_⟩
  rw [Greedy.load, Greedy.own, List.filter_map, List.map_map, offered]
  have hsame : (load.entries.filter ((fun p : ℚ × Fin n => decide (p.2 = i)) ∘ fun p => (p.2, assign p.1))) =
      load.entries.filter fun p => decide (reader p.1 = i) := by
    apply List.filter_congr
    intro p hp
    have hlt := h p.1 (Dict.mem_keys_of_mem hp)
    simp [assign, hlt, Fin.ext_iff]
  rw [hsame]
  rfl

/-- **The plan is within 4/3 of every assignment**, if the shards have equal shares or the cameras
are small. -/
theorem planShards_balanced {cameras : Cameras ℚ} {shards : Int} {gpus : List G} {plan : ShardPlan ℚ G}
    (hloads : ∀ x ∈ cameras.load.values, 0 ≤ x) (h : planShards cameras shards gpus = .ok plan)
    (hwhen : Even (capacities gpus shards.toNat) ∨ Fine cameras.load (capacities gpus shards.toNat)) :
    plan.Balanced cameras.load := by
  obtain ⟨hn, hgpus, hcount, heach, hcapacity, ⟨l, hrun, hfst, hshards⟩, -⟩ := planShards_spread h
  generalize shards.toNat = n at *
  intro reader hreader shard hshard
  rw [hcount] at hreader
  obtain ⟨jobs, hjobs, hoffered⟩ := exists_jobs hn hreader
  obtain ⟨i, hi, hload⟩ := hshards shard hshard
  have hpos : ∀ k : Fin n, 0 < (capacities gpus n).getD k 0 := fun k => capacities_pos hgpus hn (mem_capacities gpus k)
  have hperm : (l.map Prod.fst).Perm cameras.load.values := by
    rw [hfst]
    exact (List.perm_insertionSort _ _).map _
  have hnonneg : ∀ x ∈ l.map Prod.fst, 0 ≤ x := fun x hx => hloads x (hperm.mem_iff.mp hx)
  have hother : (jobs.map Prod.fst).Perm (l.map Prod.fst) := hjobs ▸ hperm.symm
  -- The shard that carries the most in the other assignment.
  have : Nonempty (Fin n) := ⟨i⟩
  obtain ⟨j, hj⟩ := Finite.exists_max fun k : Fin n => Greedy.load jobs k / (capacities gpus n).getD k 0
  obtain ⟨other, hmem, hindex⟩ := heach j j.isLt
  refine ⟨other, hmem, ?_⟩
  rw [hcapacity shard hshard, hcapacity other hmem, hload, hi, hindex, ← hoffered, div_le_iff₀ (hpos i)]
  have hmost : ∀ k, Greedy.load jobs k ≤ Greedy.load jobs j / (capacities gpus n).getD j 0 * (capacities gpus n).getD k 0 :=
    fun k => (div_le_iff₀ (hpos k)).mp (hj k)
  rcases hwhen with heven | hfine
  · have hall : ∀ k : Fin n, (capacities gpus n).getD k 0 = (capacities gpus n).getD i 0 :=
      fun k => heven _ (mem_capacities gpus k) _ (mem_capacities gpus i)
    have hdesc : (l.map Prod.fst).Pairwise fun x y => y ≤ x := hfst ▸ byLoad_descending cameras.load
    rw [mul_assoc]
    apply hrun.within_of_even (hpos i) hall hnonneg hdesc hother
    intro k
    rw [← hall k]
    exact hmost k
  · apply hrun.within_of_small hpos hnonneg _ hother hmost
    intro x hx k
    rw [sum_capacities, hperm.sum_eq]
    obtain ⟨p, hp, rfl⟩ := List.mem_map.mp (hperm.mem_iff.mp hx)
    exact hfine p hp _ (mem_capacities gpus k)

/-- A fleet of three cameras. -/
def three (a b c : ℚ) : Cameras ℚ := .loads ⟨[("a", a), ("b", b), ("c", c)], by simp⟩

theorem two_devices_balanced : ∃ plan, planShards (three 30 5 (25 / 2)) 2 [0, 1] = .ok plan ∧
    plan.Balanced (three 30 5 (25 / 2)).load := by
  obtain ⟨plan, hplan⟩ := planShards_ok (three 30 5 (25 / 2)) 2 [0, 1] (by decide) (by decide) (by decide)
  have heven : Even (capacities [0, 1] 2) := by decide +kernel
  exact ⟨plan, hplan, planShards_balanced (by decide +kernel) hplan (.inl heven)⟩

/-- Where the first shard has a small share, a camera that is most of the fleet puts it over. -/
theorem planShards_unbalanced {cameras : Cameras ℚ} {shards : Int} {gpus : List G} {plan : ShardPlan ℚ G}
    (hloads : ∀ x ∈ cameras.load.values, 0 ≤ x) (h : planShards cameras shards gpus = .ok plan) {x c : ℚ}
    (hx : x ∈ cameras.load.values) (hc : c ∈ capacities gpus shards.toNat)
    (hover : 4 / 3 * (cameras.load.values.sum / c) < x / (capacities gpus shards.toNat).getD 0 0) : ¬plan.Balanced cameras.load := by
  obtain ⟨hn, hgpus, hcount, -, hcapacity, -, hfirst⟩ := planShards_spread h
  generalize shards.toNat = n at *
  intro hbalanced
  obtain ⟨j, hj, rfl⟩ := List.getElem_of_mem hc
  have hjn : j < n := by rwa [length_capacities] at hj
  obtain ⟨shard, hshard, hindex, hmost⟩ := hfirst hloads
  -- All cameras on the shard with the large share.
  obtain ⟨other, hmem, hle⟩ := hbalanced (fun _ => j) (fun _ _ => hcount ▸ hjn) shard hshard
  have hpos : ∀ i : Fin n, 0 < (capacities gpus n).getD i 0 := fun i => capacities_pos hgpus hn (mem_capacities gpus i)
  have hbig : x / (capacities gpus n).getD 0 0 ≤ shard.offeredFps / (capacities gpus n).getD 0 0 :=
    div_le_div_of_nonneg_right (hmost x hx) (hpos ⟨0, hn⟩).le
  rw [hcapacity shard hshard, hcapacity other hmem, hindex] at hle
  have htotal : 0 ≤ cameras.load.values.sum := List.sum_nonneg hloads
  have hfar : offered cameras.load (fun _ => j) other.index / (capacities gpus n).getD other.index 0 ≤
      cameras.load.values.sum / (capacities gpus n)[j] := by
    by_cases hother : j = other.index
    · have hall : offered cameras.load (fun _ => j) other.index = cameras.load.values.sum := by simp [offered, hother, Dict.values]
      rw [hall, ← hother, List.getD_eq_getElem?_getD, List.getElem?_eq_getElem hj]
      exact le_rfl
    · have hnone : offered cameras.load (fun _ => j) other.index = 0 := by simp [offered, hother]
      rw [hnone, zero_div]
      exact div_nonneg htotal (capacities_pos hgpus hn (List.getElem_mem hj)).le
  linarith

/-- One camera of 30 and two of 1 on three shards of two devices: the first camera goes to a shard
that has half a device, and 60 a device is more than 4/3 of the 30 of a shard that has one. -/
theorem half_device_unbalanced : ∃ plan, planShards (three 30 1 1) 3 [0, 1] = .ok plan ∧
    (∀ x ∈ (three 30 1 1).load.values, 0 ≤ x) ∧ ¬plan.Balanced (three 30 1 1).load := by
  obtain ⟨plan, hplan⟩ := planShards_ok (three 30 1 1) 3 [0, 1] (by decide) (by decide) (by decide)
  have hnonneg : ∀ x ∈ (three 30 1 1).load.values, 0 ≤ x := by decide +kernel
  have hlarge : (30 : ℚ) ∈ (three 30 1 1).load.values := by decide +kernel
  have hwhole : 1 ∈ capacities [0, 1] 3 := by decide +kernel
  have hover : 4 / 3 * ((three 30 1 1).load.values.sum / 1) < 30 / (capacities [0, 1] 3).getD 0 0 := by decide +kernel
  exact ⟨plan, hplan, hnonneg, planShards_unbalanced hnonneg hplan hlarge hwhole hover⟩

end

end ShipInfer.Scheduling
