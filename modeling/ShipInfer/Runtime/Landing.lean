import Mathlib
import ShipInfer.Runtime.Readback

/-!
# What lands

A span is copied out only when its event has been waited for, so after its rows have landed, and
its staging buffer is written again only for the span after the next, which is asked for later.
-/

namespace ShipInfer.Runtime

/-! ## Spans -/

namespace TorchImageOps

theorem stageRows_pos (shape : List Nat) : 0 < stageRows shape := Nat.lt_of_lt_of_le Nat.one_pos (Nat.le_max_left _ _)

/-- The spans cover the rows. -/
theorem exists_span {shape : List Nat} {x : Nat} (h : x < shape.headD 1) :
    ∃ j < spans shape, spanLo shape j ≤ x ∧ x < spanHi shape j := by
  have hpos := stageRows_pos shape
  have hmod := Nat.mod_lt x hpos
  have hdiv := Nat.div_add_mod x (stageRows shape)
  rw [Nat.mul_comm] at hdiv
  refine ⟨x / stageRows shape, ?_, ?_, ?_⟩
  · rw [spans, Nat.lt_iff_add_one_le, Nat.le_div_iff_mul_le hpos, Nat.add_mul, Nat.one_mul]
    omega
  · rw [spanLo]
    omega
  · rw [spanHi]
    omega

theorem spanLo_add_lt {shape : List Nat} {j x : Nat} (h : x < spanHi shape j - spanLo shape j) :
    spanLo shape j + x < spanHi shape j := by omega

/-! ## Phases -/

/-- How many copies have been asked for. -/
def issuedAt (n : Nat) : Phase → Nat
  | .cpu => 0
  | .copy k => k
  | .record k => k + 1
  | .synchronize k _ | .drain k _ => min (k + 1) n

/-- How many events have been recorded. -/
def recordedAt (n : Nat) : Phase → Nat
  | .cpu => 0
  | .copy k | .record k => k
  | .synchronize k _ | .drain k _ => min (k + 1) n

/-- How many spans have been copied out. -/
def drainedAt : Phase → Nat
  | .cpu => 0
  | .copy k | .record k => k - 1
  | .synchronize _ chunk | .drain _ chunk => chunk

/-- The turn of a phase is one of the loop's, or the one after. -/
def Proper (n : Nat) : Phase → Prop
  | .cpu => False
  | .copy k | .record k => k < n
  | .synchronize k chunk | .drain k chunk => (chunk + 1 = k ∧ k < n) ∨ (k = n ∧ chunk + 1 = n)

theorem issuedAt_bounds {n : Nat} {phase : Phase} (h : Proper n phase) :
    recordedAt n phase ≤ issuedAt n phase ∧ issuedAt n phase ≤ recordedAt n phase + 1 ∧ issuedAt n phase ≤ n := by
  cases phase with
  | cpu => exact h.elim
  | copy k =>
    have h : k < n := h
    simp only [issuedAt, recordedAt]
    omega
  | record k =>
    have h : k < n := h
    simp only [issuedAt, recordedAt]
    omega
  | synchronize k chunk =>
    simp only [issuedAt, recordedAt]
    omega
  | drain k chunk =>
    simp only [issuedAt, recordedAt]
    omega

theorem pick_ne {pair : Nat × Nat} (h : pair.1 ≠ pair.2) {i j : Nat} (hij : i % 2 ≠ j % 2) : pick pair i ≠ pick pair j := by
  unfold pick
  split <;> split
  · omega
  · exact h
  · exact h.symm
  · omega

theorem pick_eq (pair : Nat × Nat) {i j : Nat} (hij : i % 2 = j % 2) : pick pair i = pick pair j := by
  unfold pick
  rw [hij]

theorem pick_mem (pair : Nat × Nat) (i : Nat) : pick pair i = pair.1 ∨ pick pair i = pair.2 := by
  unfold pick
  split
  · exact .inl rfl
  · exact .inr rfl

end TorchImageOps

open TorchImageOps

variable {ρ : Type} {s t : TorchImageOps ρ} {c : Call ρ} {base : Nat}

/-! ## The invariant -/

/-- An array holds what its tensor did. -/
structure Right (host : Nat → Nat → ρ) (r : HostArray × DeviceTensor ρ) : Prop where
  shape : r.1.shape = r.2.shape
  dtype : r.1.dtype = r.2.dtype
  rows : ∀ i < r.2.count, host r.1.block i = r.2.rows i

/-- A staged call, its tensor's computation the operation `base` of the stream: two operations
for each span follow it. The last two spans asked for lie in buffers of their own, and are there
once their copies are complete. -/
structure Staged (s : TorchImageOps ρ) (c : Call ρ) (base : Nat) : Prop where
  proper : Proper (spans c.tensor.shape) c.phase
  many : 2 ≤ spans c.tensor.shape
  pair : c.staged.1 ≠ c.staged.2
  events : c.events.1 ≠ c.events.2
  apart : ∀ k, pick c.staged k ≠ c.result
  unreturned : ∀ r ∈ s.returned, ∀ k, r.1.block ≠ pick c.staged k
  length : s.issued.length =
    base + 1 + issuedAt (spans c.tensor.shape) c.phase + recordedAt (spans c.tensor.shape) c.phase
  copies : ∀ j < issuedAt (spans c.tensor.shape) c.phase, s.issued[base + 1 + 2 * j]? =
    some (.copy (pick c.staged j) (spanLo c.tensor.shape j) (spanHi c.tensor.shape j))
  records : ∀ j < recordedAt (spans c.tensor.shape) c.phase, s.issued[base + 2 + 2 * j]? = some .record
  marks : ∀ j < recordedAt (spans c.tensor.shape) c.phase, recordedAt (spans c.tensor.shape) c.phase ≤ j + 2 →
    s.marks (pick c.events j) = base + 3 + 2 * j
  landed : ∀ j < issuedAt (spans c.tensor.shape) c.phase, issuedAt (spans c.tensor.shape) c.phase ≤ j + 2 →
    base + 1 + 2 * j < s.completed → ∀ x < spanHi c.tensor.shape j - spanLo c.tensor.shape j,
      s.host (pick c.staged j) x = c.tensor.rows (spanLo c.tensor.shape j + x)
  drained : ∀ j < drainedAt c.phase, ∀ x, spanLo c.tensor.shape j ≤ x → x < spanHi c.tensor.shape j →
    s.host c.result x = c.tensor.rows x
  waited : ∀ k chunk, c.phase = .drain k chunk → base + 3 + 2 * chunk ≤ s.completed

/-- A call that runs. -/
structure Busy (s : TorchImageOps ρ) (c : Call ρ) (base : Nat) : Prop where
  computed : s.issued[base]? = some (.compute c.tensor.rows)
  before : ∀ i, s.completed ≤ i → i < base → ∃ rows, s.issued[i]? = some (.compute rows)
  device : base < s.completed → s.device = c.tensor.rows
  result : ¬ s.Live c.result
  cpu : c.phase = .cpu → s.issued.length = base + 1
  staged : c.phase ≠ .cpu → Staged s c base

structure Sound (s : TorchImageOps ρ) : Prop where
  bounded : s.completed ≤ s.issued.length
  distinct : ∀ p ∈ s.staging, ∀ k k' b, p.buffers.get? k = some b → p.buffers.get? k' = some b → k = k'
  apart : ∀ p ∈ s.staging, ∀ k b, p.buffers.get? k = some b → ∀ r ∈ s.returned, r.1.block ≠ b
  cached : ∀ name pair, s.eventCache.get? name = some pair → pair.1 ≠ pair.2
  right : ∀ r ∈ s.returned, Right s.host r
  idle : s.running = none → ∀ i, s.completed ≤ i → i < s.issued.length → ∃ rows, s.issued[i]? = some (.compute rows)
  busy : ∀ c, s.running = some c → ∃ base, Busy s c base

/-! ## The device -/

/-- What the device is asked for next while a call runs. -/
theorem Busy.next (h : Busy s c base) {op : StreamOp ρ} (hop : s.issued[s.completed]? = some op) :
    (s.completed < base ∧ ∃ rows, op = .compute rows) ∨ (s.completed = base ∧ op = .compute c.tensor.rows) ∨
      c.phase ≠ .cpu ∧ ((∃ j < issuedAt (spans c.tensor.shape) c.phase, s.completed = base + 1 + 2 * j ∧
          op = .copy (pick c.staged j) (spanLo c.tensor.shape j) (spanHi c.tensor.shape j)) ∨
        ∃ j < recordedAt (spans c.tensor.shape) c.phase, s.completed = base + 2 + 2 * j ∧ op = .record) := by
  have hlt : s.completed < s.issued.length := (List.getElem?_eq_some_iff.mp hop).1
  rcases Nat.lt_trichotomy s.completed base with hb | hb | hb
  · obtain ⟨rows, hrows⟩ := h.before _ (Nat.le_refl _) hb
    rw [hrows] at hop
    cases hop
    exact .inl ⟨hb, rows, rfl⟩
  · rw [hb, h.computed] at hop
    cases hop
    exact .inr (.inl ⟨hb, rfl⟩)
  · have hphase : c.phase ≠ .cpu := by
      intro hcpu
      have := h.cpu hcpu
      omega
    have hs := h.staged hphase
    have hlength := hs.length
    have hbounds := issuedAt_bounds hs.proper
    refine .inr (.inr ⟨hphase, ?_⟩)
    by_cases hpar : (s.completed - base - 1) % 2 = 0
    · have hj : s.completed = base + 1 + 2 * ((s.completed - base - 1) / 2) := by omega
      have hji : (s.completed - base - 1) / 2 < issuedAt (spans c.tensor.shape) c.phase := by omega
      rw [hj, hs.copies _ hji] at hop
      cases hop
      exact .inl ⟨_, hji, hj, rfl⟩
    · have hj : s.completed = base + 2 + 2 * ((s.completed - base - 1) / 2) := by omega
      have hjr : (s.completed - base - 1) / 2 < recordedAt (spans c.tensor.shape) c.phase := by omega
      rw [hj, hs.records _ hjr] at hop
      cases hop
      exact .inr ⟨_, hjr, hj, rfl⟩

/-- What is written to blocks that were not returned leaves the arrays as they are. -/
theorem Right.write {r : HostArray × DeviceTensor ρ} (h : Right s.host r) {block lo hi : Nat} {source : Nat → ρ}
    (hne : r.1.block ≠ block) : Right (s.write block lo hi source).host r :=
  ⟨h.shape, h.dtype, fun i hi => (if_neg fun hw => hne hw.1).trans (h.rows i hi)⟩

/-- A staging buffer while its copy is next: half written, or written. -/
theorem Staged.write (hs : Staged s c base) {j : Nat} (hj : j < issuedAt (spans c.tensor.shape) c.phase)
    (hnext : s.completed = base + 1 + 2 * j) (source : Nat → ρ) (completed : Nat)
    (hcase : completed = s.completed ∨ completed = s.completed + 1 ∧
      ∀ x, source x = c.tensor.rows (spanLo c.tensor.shape j + x)) :
    Staged { s.write (pick c.staged j) 0 (spanHi c.tensor.shape j - spanLo c.tensor.shape j) source with completed }
      c base := by
  refine ⟨hs.proper, hs.many, hs.pair, hs.events, hs.apart, hs.unreturned, hs.length, hs.copies, hs.records, hs.marks,
    fun i hi hlast hdone x hx => ?_, fun i hi x hlo hhi => ?_, fun k chunk hphase => ?_⟩
  · by_cases hij : i = j
    · subst hij
      rcases hcase with hcase | ⟨-, hsource⟩
      · dsimp only at hdone
        omega
      · exact (if_pos ⟨rfl, Nat.zero_le _, hx⟩).trans (hsource x)
    · have hdone : base + 1 + 2 * i < completed := hdone
      have hother : pick c.staged i ≠ pick c.staged j := pick_ne hs.pair (by omega)
      exact (if_neg fun hw => hother hw.1).trans (hs.landed i hi hlast (by omega) x hx)
  · exact (if_neg fun hw => hs.apart j hw.1.symm).trans (hs.drained i hi x hlo hhi)
  · have hwaited := hs.waited k chunk hphase
    show base + 3 + 2 * chunk ≤ completed
    omega

/-- Nothing lands when the device completes what is no copy. -/
theorem Staged.onward (hs : Staged s c base) (device : Nat → ρ)
    (hno : ∀ j < issuedAt (spans c.tensor.shape) c.phase, s.completed ≠ base + 1 + 2 * j) :
    Staged { s with device, completed := s.completed + 1 } c base := by
  refine ⟨hs.proper, hs.many, hs.pair, hs.events, hs.apart, hs.unreturned, hs.length, hs.copies, hs.records, hs.marks,
    fun i hi hlast hdone => ?_, hs.drained, fun k chunk hphase => Nat.le_succ_of_le (hs.waited k chunk hphase)⟩
  have hne := hno i hi
  dsimp only at hdone
  exact hs.landed i hi hlast (by omega)

theorem Sound.partly (h : Sound s) {junk : Nat → ρ} (ht : s.partly junk = some t) : Sound t := by
  unfold TorchImageOps.partly at ht
  split at ht
  · rename_i block lo hi hop
    cases ht
    have hlt : s.completed < s.issued.length := (List.getElem?_eq_some_iff.mp hop).1
    cases hrun : s.running with
    | none =>
      obtain ⟨rows, hrows⟩ := h.idle hrun _ (Nat.le_refl _) hlt
      rw [hrows] at hop
      cases hop
    | some c =>
      obtain ⟨base, hb⟩ := h.busy c hrun
      rcases hb.next hop with ⟨-, rows, hno⟩ | ⟨-, hno⟩ | ⟨hphase, ⟨j, hj, hnext, hcopy⟩ | ⟨j, -, -, hno⟩⟩
      · cases hno
      · cases hno
      · cases hcopy
        have hs := hb.staged hphase
        refine ⟨h.bounded, h.distinct, h.apart, h.cached, fun r hr => (h.right r hr).write (hs.unreturned r hr j),
          h.idle, fun c' hc' => ?_⟩
        have hcc : c' = c := Option.some.inj (hc'.symm.trans hrun)
        subst hcc
        exact ⟨base, hb.computed, hb.before, hb.device, hb.result, hb.cpu,
          fun _ => hs.write hj hnext junk s.completed (.inl rfl)⟩
      · cases hno
  · cases ht

theorem Sound.complete (h : Sound s) (ht : s.complete = some t) : Sound t := by
  unfold TorchImageOps.complete at ht
  cases hop : s.issued[s.completed]? with
  | none =>
    rw [hop] at ht
    cases ht
  | some op =>
    rw [hop] at ht
    have hlt : s.completed < s.issued.length := (List.getElem?_eq_some_iff.mp hop).1
    cases hrun : s.running with
    | none =>
      obtain ⟨rows, hrows⟩ := h.idle hrun _ (Nat.le_refl _) hlt
      rw [hrows] at hop
      cases hop
      cases ht
      refine ⟨hlt, h.distinct, h.apart, h.cached, h.right, fun _ i hi => h.idle hrun i (Nat.le_of_succ_le hi), ?_⟩
      intro c hc
      rw [show ({ s with device := rows, completed := s.completed + 1 } : TorchImageOps ρ).running = none from hrun] at hc
      cases hc
    | some c =>
      obtain ⟨base, hb⟩ := h.busy c hrun
      have hbusy : ∀ t : TorchImageOps ρ, t.running = s.running → Busy t c base → ∀ c', t.running = some c' →
          ∃ base, Busy t c' base := by
        intro t hr hbt c' hc'
        have hcc : c' = c := Option.some.inj (hc'.symm.trans (hr.trans hrun))
        subst hcc
        exact ⟨base, hbt⟩
      have hnone : ∀ {P : Prop}, s.running = none → P := by
        intro P hn
        rw [hrun] at hn
        cases hn
      rcases hb.next hop with ⟨hlate, rows, rfl⟩ | ⟨heq, rfl⟩ | ⟨hphase, ⟨j, hj, hnext, rfl⟩ | ⟨j, hj, hnext, rfl⟩⟩
      · cases ht
        refine ⟨hlt, h.distinct, h.apart, h.cached, h.right, fun hn => hnone hn, hbusy _ rfl ?_⟩
        refine ⟨hb.computed, fun i hi => hb.before i (Nat.le_of_succ_le hi), fun hd => ?_, hb.result, hb.cpu,
          fun hphase => (hb.staged hphase).onward rows (by omega)⟩
        dsimp only at hd
        omega
      · cases ht
        refine ⟨hlt, h.distinct, h.apart, h.cached, h.right, fun hn => hnone hn, hbusy _ rfl ?_⟩
        exact ⟨hb.computed, fun i hi => hb.before i (Nat.le_of_succ_le hi), fun _ => rfl, hb.result, hb.cpu,
          fun hphase => (hb.staged hphase).onward c.tensor.rows (by omega)⟩
      · cases ht
        have hs := hb.staged hphase
        have hdevice := hb.device (by omega)
        have hright : ∀ r ∈ s.returned, Right (s.write (pick c.staged j) 0
            (spanHi c.tensor.shape j - spanLo c.tensor.shape j) fun x => s.device (spanLo c.tensor.shape j + x)).host r :=
          fun r hr => (h.right r hr).write (hs.unreturned r hr j)
        refine ⟨hlt, h.distinct, h.apart, h.cached, hright, fun hn => hnone hn, hbusy _ rfl ?_⟩
        exact ⟨hb.computed, fun i hi => hb.before i (Nat.le_of_succ_le hi), fun _ => hdevice, hb.result, hb.cpu,
          fun _ => hs.write hj hnext _ _ (.inr ⟨rfl, fun x => by rw [hdevice]⟩)⟩
      · cases ht
        refine ⟨hlt, h.distinct, h.apart, h.cached, h.right, fun hn => hnone hn, hbusy _ rfl ?_⟩
        exact ⟨hb.computed, fun i hi => hb.before i (Nat.le_of_succ_le hi), fun _ => hb.device (by omega), hb.result,
          hb.cpu, fun _ => (hb.staged hphase).onward s.device (by omega)⟩

/-! ## The running call -/

/-- A call that is done leaves one array more. -/
theorem Sound.finish {u : TorchImageOps ρ} (h : Sound s) (hstaging : u.staging = s.staging)
    (hcache : u.eventCache = s.eventCache) (hissued : u.issued = s.issued) (hreturned : u.returned = s.returned)
    (hcompleted : u.completed = s.issued.length) (hlive : ¬ s.Live c.result)
    (hframe : ∀ b, b ≠ c.result → ∀ x, u.host b x = s.host b x)
    (hrows : ∀ i < c.tensor.count, u.host c.result i = c.tensor.rows i) : Sound (u.finish c) := by
  have hold : ∀ r ∈ s.returned, r.1.block ≠ c.result := fun r hr heq => hlive (.inr ⟨r, hr, heq⟩)
  constructor
  · have hall : u.completed = u.issued.length := by rw [hcompleted, hissued]
    exact Nat.le_of_eq hall
  · intro p hp
    exact h.distinct p (hstaging ▸ hp)
  · intro p hp k b hb r hr
    have hp : p ∈ s.staging := hstaging ▸ hp
    rcases List.mem_append.mp hr with hr | hr
    · exact h.apart p hp k b hb r (hreturned ▸ hr)
    · rw [List.mem_singleton.mp hr]
      rintro rfl
      exact hlive (.inl ⟨p, k, hp, hb⟩)
  · intro name pair hn
    exact h.cached name pair (hcache ▸ hn)
  · intro r hr
    rcases List.mem_append.mp hr with hr | hr
    · have hr : r ∈ s.returned := hreturned ▸ hr
      have hright := h.right r hr
      exact ⟨hright.shape, hright.dtype, fun i hi => (hframe _ (hold r hr) i).trans (hright.rows i hi)⟩
    · rw [List.mem_singleton.mp hr]
      exact ⟨rfl, rfl, hrows⟩
  · intro _ i hi hlt
    have hi : u.completed ≤ i := hi
    have hlt : i < u.issued.length := hlt
    rw [hcompleted] at hi
    rw [hissued] at hlt
    omega
  · intro c' hc'
    cases hc'

/-- The rows a span is drained to are the tensor's, and those drained before stay. -/
theorem Staged.drain (hs : Staged s c base) {k chunk : Nat} (hphase : c.phase = .drain k chunk) :
    ∀ j < chunk + 1, ∀ x, spanLo c.tensor.shape j ≤ x → x < spanHi c.tensor.shape j →
      (s.write c.result (spanLo c.tensor.shape chunk) (spanHi c.tensor.shape chunk)
        (s.host (pick c.staged chunk))).host c.result x = c.tensor.rows x := by
  have hproper := hs.proper
  have hlanded := hs.landed
  have hdrained := hs.drained
  rw [hphase] at hproper hlanded hdrained
  have hmany := hs.many
  have hwaited := hs.waited k chunk hphase
  intro j hj x hlo hhi
  by_cases hin : spanLo c.tensor.shape chunk ≤ x ∧ x < spanHi c.tensor.shape chunk
  · refine (if_pos ⟨rfl, hin⟩).trans ?_
    have hissued : chunk < issuedAt (spans c.tensor.shape) (.drain k chunk) ∧
        issuedAt (spans c.tensor.shape) (.drain k chunk) ≤ chunk + 2 := by
      simp only [issuedAt]
      rcases hproper with h | h <;> omega
    have hrow := hlanded chunk hissued.1 hissued.2 (by omega) (x - spanLo c.tensor.shape chunk) (by omega)
    rw [hrow]
    congr 1
    omega
  · refine (if_neg fun hw => hin hw.2).trans ?_
    have hne : j ≠ chunk := by
      rintro rfl
      exact hin ⟨hlo, hhi⟩
    exact hdrained j (show j < chunk by omega) x hlo hhi

/-- After a turn the loop goes on, or its last span is waited for. -/
theorem nextTurn_counts {n k : Nat} (hk : k < n) (hn : 2 ≤ n) : Proper n (nextTurn n k) ∧
    issuedAt n (nextTurn n k) = k + 1 ∧ recordedAt n (nextTurn n k) = k + 1 ∧ drainedAt (nextTurn n k) = k ∧
      nextTurn n k ≠ .cpu ∧ ∀ k' chunk, nextTurn n k ≠ .drain k' chunk := by
  unfold nextTurn
  split
  · rename_i hlt
    exact ⟨hlt, rfl, rfl, rfl, by simp, by simp⟩
  · simp only [issuedAt, recordedAt, drainedAt]
    exact ⟨.inr ⟨rfl, by omega⟩, by omega, by omega, by omega, by simp, by simp⟩

/-- What the stream was asked before it still is. -/
theorem asked {l : List (StreamOp ρ)} {i : Nat} {op : StreamOp ρ} (h : l[i]? = some op) (next : StreamOp ρ) :
    (l ++ [next])[i]? = some op := by
  rw [List.getElem?_append_left (List.getElem?_eq_some_iff.mp h).1]
  exact h

/-- The next copy is asked for; it is the third of those before it whose buffer it writes. -/
theorem Staged.copy (hs : Staged s c base) {k : Nat} (hphase : c.phase = .copy k) (hbound : s.completed ≤ s.issued.length) :
    Staged { s with
      issued := s.issued ++ [StreamOp.copy (pick c.staged k) (spanLo c.tensor.shape k) (spanHi c.tensor.shape k)]
      running := some { c with phase := .record k } } { c with phase := .record k } base := by
  have hproper := hs.proper
  have hlength := hs.length
  have hcopies := hs.copies
  have hlanded := hs.landed
  have hrecords := hs.records
  have hmarks := hs.marks
  have hdrained := hs.drained
  rw [hphase] at hproper hlength hcopies hlanded hrecords hmarks hdrained
  have hlength : s.issued.length = base + 1 + 2 * k := by
    simp only [issuedAt, recordedAt] at hlength
    omega
  refine ⟨hproper, hs.many, hs.pair, hs.events, hs.apart, hs.unreturned, ?_, fun j hj => ?_,
    fun j hj => asked (hrecords j hj) _, hmarks, fun j hj hlast hdone => ?_, hdrained, fun k' chunk hd => by cases hd⟩
  · simp only [issuedAt, recordedAt, List.length_append, List.length_singleton]
    omega
  · by_cases hjk : j = k
    · rw [hjk, ← hlength]
      exact List.getElem?_concat_length
    · exact asked (hcopies j (show j < k by simp only [issuedAt] at hj; omega)) _
  · simp only [issuedAt] at hj hlast
    dsimp only at hdone
    exact hlanded j (show j < k by omega) (show k ≤ j + 2 by omega) hdone

/-- The event of a copy is recorded, and waits for it. -/
theorem Staged.record (hs : Staged s c base) {k : Nat} (hphase : c.phase = .record k) {next : Phase}
    (hnext : Proper (spans c.tensor.shape) next ∧ issuedAt (spans c.tensor.shape) next = k + 1 ∧
      recordedAt (spans c.tensor.shape) next = k + 1 ∧ drainedAt next = k - 1 ∧ next ≠ .cpu ∧
        ∀ k' chunk, next ≠ .drain k' chunk) :
    Staged { s with
      issued := s.issued ++ [StreamOp.record]
      marks := Function.update s.marks (pick c.events k) (s.issued.length + 1)
      running := some { c with phase := next } } { c with phase := next } base := by
  obtain ⟨hproper, hissued, hrecorded, hdrain, -, hnodrain⟩ := hnext
  have hlength := hs.length
  have hcopies := hs.copies
  have hlanded := hs.landed
  have hrecords := hs.records
  have hmarks := hs.marks
  have hdrained := hs.drained
  rw [hphase] at hlength hcopies hlanded hrecords hmarks hdrained
  have hlength : s.issued.length = base + 2 + 2 * k := by
    simp only [issuedAt, recordedAt] at hlength
    omega
  refine ⟨hproper, hs.many, hs.pair, hs.events, hs.apart, hs.unreturned, ?_, fun j hj => ?_, fun j hj => ?_,
    fun j hj hlast => ?_, fun j hj hlast hdone => ?_, fun j hj => ?_, fun k' chunk hd => (hnodrain k' chunk hd).elim⟩
  · dsimp only
    rw [hissued, hrecorded, List.length_append, List.length_singleton]
    omega
  · dsimp only at hj
    rw [hissued] at hj
    exact asked (hcopies j hj) _
  · dsimp only at hj
    rw [hrecorded] at hj
    by_cases hjk : j = k
    · rw [hjk, ← hlength]
      exact List.getElem?_concat_length
    · exact asked (hrecords j (show j < k by omega)) _
  · dsimp only at hj hlast
    rw [hrecorded] at hj hlast
    by_cases hjk : j = k
    · subst hjk
      refine (Function.update_self ..).trans ?_
      omega
    · refine (Function.update_of_ne (pick_ne hs.events (by omega)) ..).trans ?_
      exact hmarks j (show j < k by omega) (show k ≤ j + 2 by omega)
  · dsimp only at hj hlast
    rw [hissued] at hj hlast
    exact hlanded j hj hlast hdone
  · dsimp only at hj
    rw [hdrain] at hj
    exact hdrained j hj

/-- A span has been copied out, and the loop goes on. -/
theorem Staged.drained_next (hs : Staged s c base) {k chunk : Nat} (hphase : c.phase = .drain k chunk)
    (hk : k < spans c.tensor.shape) :
    Staged { s.write c.result (spanLo c.tensor.shape chunk) (spanHi c.tensor.shape chunk)
        (s.host (pick c.staged chunk)) with
      running := some { c with phase := nextTurn (spans c.tensor.shape) k } }
      { c with phase := nextTurn (spans c.tensor.shape) k } base := by
  obtain ⟨hproper, hissued, hrecorded, hdrain, -, hnodrain⟩ := nextTurn_counts hk hs.many
  have hold := hs.proper
  have hlength := hs.length
  have hcopies := hs.copies
  have hlanded := hs.landed
  have hrecords := hs.records
  have hmarks := hs.marks
  have hall := hs.drain hphase
  rw [hphase] at hold hlength hcopies hlanded hrecords hmarks
  have hchunk : chunk + 1 = k := by
    rcases hold with h | h
    · exact h.1
    · omega
  have hcount : issuedAt (spans c.tensor.shape) (.drain k chunk) = k + 1 := by
    simp only [issuedAt]
    omega
  have hcount' : recordedAt (spans c.tensor.shape) (.drain k chunk) = k + 1 := hcount
  rw [hcount] at hlength hcopies hlanded
  rw [hcount'] at hlength hrecords hmarks
  refine ⟨hproper, hs.many, hs.pair, hs.events, hs.apart, hs.unreturned, ?_, fun j hj => ?_, fun j hj => ?_,
    fun j hj hlast => ?_, fun j hj hlast hdone x hx => ?_, fun j hj x hlo hhi => ?_,
    fun k' chunk' hd => (hnodrain k' chunk' hd).elim⟩
  · dsimp only
    rw [hissued, hrecorded]
    exact hlength
  · dsimp only at hj
    rw [hissued] at hj
    exact hcopies j hj
  · dsimp only at hj
    rw [hrecorded] at hj
    exact hrecords j hj
  · dsimp only at hj hlast
    rw [hrecorded] at hj hlast
    exact hmarks j hj hlast
  · dsimp only at hj hlast
    rw [hissued] at hj hlast
    exact (if_neg fun hw => hs.apart j hw.1).trans (hlanded j hj hlast hdone x hx)
  · dsimp only at hj
    rw [hdrain, ← hchunk] at hj
    exact hall j hj x hlo hhi

theorem Sound.goOn (h : Sound s) (ht : s.goOn = some t) : Sound t := by
  unfold TorchImageOps.goOn at ht
  cases hrun : s.running with
  | none =>
    rw [hrun] at ht
    cases ht
  | some c =>
    obtain ⟨base, hb⟩ := h.busy c hrun
    rw [hrun] at ht
    dsimp only at ht
    have hbusy : ∀ (t : TorchImageOps ρ) (d : Call ρ), t.running = some d → Busy t d base → ∀ c', t.running = some c' →
        ∃ base, Busy t c' base := by
      intro t d hr hbt c' hc'
      have hcc : c' = d := Option.some.inj (hc'.symm.trans hr)
      subst hcc
      exact ⟨base, hbt⟩
    cases hphase : c.phase with
    | cpu =>
      rw [hphase] at ht
      dsimp only at ht
      split at ht
      · rename_i hdone
        cases ht
        have hlength := hb.cpu hphase
        have hdevice := hb.device (by omega)
        refine h.finish rfl rfl rfl rfl hdone hb.result (fun b hne x => if_neg fun hw => hne hw.1) fun i hi => ?_
        exact (if_pos ⟨rfl, Nat.zero_le _, hi⟩).trans (by rw [hdevice]; rfl)
      · cases ht
    | copy k =>
      rw [hphase] at ht
      dsimp only at ht
      cases ht
      have hs := hb.staged (by simp [hphase])
      refine ⟨?_, h.distinct, h.apart, h.cached, h.right, fun hn => (by cases hn), hbusy _ _ rfl ?_⟩
      · simp only [List.length_append]
        exact Nat.le_add_right_of_le h.bounded
      · refine ⟨asked hb.computed _, fun i hi hlt => ?_, hb.device, hb.result, fun hcpu => (by cases hcpu),
          fun _ => hs.copy hphase h.bounded⟩
        obtain ⟨rows, hrows⟩ := hb.before i hi hlt
        exact ⟨rows, asked hrows _⟩
    | record k =>
      rw [hphase] at ht
      dsimp only at ht
      cases ht
      have hs := hb.staged (by simp [hphase])
      have hk : k < spans c.tensor.shape := by
        have := hs.proper
        rw [hphase] at this
        exact this
      have hnext : Proper (spans c.tensor.shape)
          (if k = 0 then nextTurn (spans c.tensor.shape) k else .synchronize k (k - 1)) ∧
          issuedAt (spans c.tensor.shape)
            (if k = 0 then nextTurn (spans c.tensor.shape) k else .synchronize k (k - 1)) = k + 1 ∧
          recordedAt (spans c.tensor.shape)
            (if k = 0 then nextTurn (spans c.tensor.shape) k else .synchronize k (k - 1)) = k + 1 ∧
          drainedAt (if k = 0 then nextTurn (spans c.tensor.shape) k else .synchronize k (k - 1)) = k - 1 ∧
          (if k = 0 then nextTurn (spans c.tensor.shape) k else .synchronize k (k - 1)) ≠ .cpu ∧
          ∀ k' chunk, (if k = 0 then nextTurn (spans c.tensor.shape) k else .synchronize k (k - 1)) ≠ .drain k' chunk := by
        split
        · obtain ⟨hp, hi, hr, hd, hne, hnd⟩ := nextTurn_counts hk hs.many
          exact ⟨hp, hi, hr, by omega, hne, hnd⟩
        · have hmin : min (k + 1) (spans c.tensor.shape) = k + 1 := Nat.min_eq_left hk
          exact ⟨.inl ⟨by omega, hk⟩, hmin, hmin, rfl, by simp, by simp⟩
      refine ⟨?_, h.distinct, h.apart, h.cached, h.right, fun hn => (by cases hn), hbusy _ _ rfl ?_⟩
      · simp only [List.length_append]
        exact Nat.le_add_right_of_le h.bounded
      · refine ⟨asked hb.computed _, fun i hi hlt => ?_, hb.device, hb.result, fun hcpu => (hnext.2.2.2.2.1 hcpu).elim,
          fun _ => hs.record hphase hnext⟩
        obtain ⟨rows, hrows⟩ := hb.before i hi hlt
        exact ⟨rows, asked hrows _⟩
    | synchronize k chunk =>
      rw [hphase] at ht
      dsimp only at ht
      split at ht
      · rename_i hmark
        cases ht
        have hs := hb.staged (by simp [hphase])
        refine ⟨h.bounded, h.distinct, h.apart, h.cached, h.right, fun hn => (by cases hn), hbusy _ _ rfl ?_⟩
        refine ⟨hb.computed, hb.before, hb.device, hb.result, fun hcpu => (by cases hcpu), fun _ => ?_⟩
        have hproper := hs.proper
        have hmany := hs.many
        have hlength := hs.length
        have hcopies := hs.copies
        have hlanded := hs.landed
        have hrecords := hs.records
        have hmarks := hs.marks
        have hdrained := hs.drained
        rw [hphase] at hproper hlength hcopies hlanded hrecords hmarks hdrained
        refine ⟨hproper, hs.many, hs.pair, hs.events, hs.apart, hs.unreturned, hlength, hcopies, hrecords, hmarks, hlanded,
          hdrained, fun k' chunk' hd => ?_⟩
        cases hd
        have hlast := hmarks chunk (by
          simp only [recordedAt]
          rcases hproper with h | h <;> omega) (by
          simp only [recordedAt]
          rcases hproper with h | h <;> omega)
        show base + 3 + 2 * chunk ≤ s.completed
        omega
      · cases ht
    | drain k chunk =>
      rw [hphase] at ht
      dsimp only at ht
      have hs := hb.staged (by simp [hphase])
      have hframe : ∀ b, b ≠ c.result → ∀ x, (s.write c.result (spanLo c.tensor.shape chunk) (spanHi c.tensor.shape chunk)
          (s.host (pick c.staged chunk))).host b x = s.host b x := fun b hne x => if_neg fun hw => hne hw.1
      split at ht
      · rename_i hk
        cases ht
        refine ⟨h.bounded, h.distinct, h.apart, h.cached, fun r hr => ?_, fun hn => (by cases hn), hbusy _ _ rfl ?_⟩
        · exact (h.right r hr).write fun heq => hb.result (.inr ⟨r, hr, heq⟩)
        · exact ⟨hb.computed, hb.before, hb.device, hb.result,
            fun hcpu => ((nextTurn_counts hk hs.many).2.2.2.2.1 hcpu).elim, fun _ => hs.drained_next hphase hk⟩
      · rename_i hk
        cases ht
        have hproper := hs.proper
        have hlength := hs.length
        have hwaited := hs.waited k chunk hphase
        have hbound := h.bounded
        rw [hphase] at hproper hlength
        simp only [issuedAt, recordedAt] at hlength
        have hlast : chunk + 1 = spans c.tensor.shape ∧ k = spans c.tensor.shape := by
          rcases hproper with h | h
          · omega
          · exact ⟨h.2, h.1⟩
        refine h.finish rfl rfl rfl rfl (show s.completed = s.issued.length by omega) hb.result hframe fun i hi => ?_
        obtain ⟨j, hj, hlo, hhi⟩ := exists_span hi
        exact hs.drain hphase j (by omega) i hlo hhi

/-! ## A call begins -/

/-- A buffer of the pool. -/
def PinnedStagingPool.Holds (p : PinnedStagingPool) (b : Nat) : Prop := ∃ key, p.buffers.get? key = some b

/-- No buffer is kept under two keys. -/
def PinnedStagingPool.Distinct (p : PinnedStagingPool) : Prop :=
  ∀ k k' b, p.buffers.get? k = some b → p.buffers.get? k' = some b → k = k'

theorem PinnedStagingPool.evicted_get {p : PinnedStagingPool} {key : String × List Nat × String} {b : Nat}
    (h : p.evicted.get? key = some b) : p.buffers.get? key = some b := by
  unfold PinnedStagingPool.evicted at h
  split at h
  · exact h
  · rw [Dict.get?_erase] at h
    split at h
    · cases h
    · exact h

/-- What a request leaves: a buffer under its key, one the pool had or the one granted. -/
theorem PinnedStagingPool.get_spec {p p' : PinnedStagingPool} {key : String × List Nat × String} {grant : Grant} {b : Nat}
    (hd : p.Distinct) (hg : ∀ x, grant = .block x → ¬ p.Holds x) (h : p.get key grant = .ok (b, p')) :
    p'.Distinct ∧ p'.buffers.get? key = some b ∧ (∀ x, p'.Holds x → p.Holds x ∨ grant = .block x) ∧
      (p.buffers.get? key = some b ∨ grant = .block b) := by
  unfold PinnedStagingPool.get at h
  cases hk : p.buffers.get? key with
  | some x =>
    rw [hk] at h
    cases h
    exact ⟨hd, hk, fun x hx => .inl hx, .inl rfl⟩
  | none =>
    rw [hk] at h
    cases grant with
    | capturing => cases h
    | exhausted => cases h
    | block x =>
      cases h
      have hkept : ∀ k y, (if p.maxEntries ≤ p.buffers.size then p.evicted else p.buffers).get? k = some y →
          p.buffers.get? k = some y := by
        intro k y hy
        split at hy
        · exact p.evicted_get hy
        · exact hy
      have hget : ∀ k y, ((if p.maxEntries ≤ p.buffers.size then p.evicted else p.buffers).set key b).get? k = some y →
          (k = key ∧ y = b) ∨ (k ≠ key ∧ p.buffers.get? k = some y) := by
        intro k y hy
        rw [Dict.get?_set] at hy
        split at hy
        · rename_i hkk
          exact .inl ⟨hkk, (Option.some.inj hy).symm⟩
        · rename_i hkk
          exact .inr ⟨hkk, hkept k y hy⟩
      have hnew : ∀ k, p.buffers.get? k ≠ some b := fun k hk => hg b rfl ⟨k, hk⟩
      refine ⟨fun k k' y hy hy' => ?_, Dict.get?_set_self _ _ _, fun y hheld => ?_, .inr rfl⟩
      · rcases hget k y hy with ⟨rfl, rfl⟩ | ⟨-, hold⟩ <;> rcases hget k' y hy' with ⟨rfl, hyb⟩ | ⟨-, hold'⟩
        · rfl
        · exact (hnew k' hold').elim
        · rw [hyb] at hold
          exact (hnew k hold).elim
        · exact hd k k' y hold hold'
      · obtain ⟨k, hy⟩ := hheld
        rcases hget k y hy with ⟨-, rfl⟩ | ⟨-, hold⟩
        · exact .inr rfl
        · exact .inl ⟨k, hold⟩

/-- Two buffers that differ, or a refusal. -/
theorem stagePair_spec {p : PinnedStagingPool} (hd : p.Distinct) {a b : Grant} (ha : ∀ x, a = .block x → ¬ p.Holds x)
    (hb : ∀ x, b = .block x → ¬ p.Holds x ∧ a ≠ .block x) (t : DeviceTensor ρ) (name : String) :
    (stagePair p t name a b).2.Distinct ∧
      (∀ x, (stagePair p t name a b).2.Holds x → p.Holds x ∨ a = .block x ∨ b = .block x) ∧
      ∀ pair, (stagePair p t name a b).1 = .ok pair → pair.1 ≠ pair.2 ∧
        (p.Holds pair.1 ∨ a = .block pair.1) ∧ (p.Holds pair.2 ∨ a = .block pair.2 ∨ b = .block pair.2) := by
  unfold stagePair
  dsimp only
  split
  · exact ⟨hd, fun x hx => .inl hx, fun pair hp => (by cases hp)⟩
  · rename_i first p₁ hfirst
    obtain ⟨hd₁, hkey, hold₁, hsource⟩ := PinnedStagingPool.get_spec hd ha hfirst
    have hsource : p.Holds first ∨ a = .block first := hsource.imp_left fun h => ⟨_, h⟩
    split
    · exact ⟨hd₁, fun x hx => (hold₁ x hx).imp_right .inl, fun pair hp => (by cases hp)⟩
    · rename_i second p₂ hsecond
      have hb₁ : ∀ x, b = .block x → ¬ p₁.Holds x := fun x hx hold =>
        (hold₁ x hold).elim (hb x hx).1 (hb x hx).2
      obtain ⟨hd₂, -, hold₂, hsource₂⟩ := PinnedStagingPool.get_spec hd₁ hb₁ hsecond
      refine ⟨hd₂, fun x hx => ?_, fun pair hp => ?_⟩
      · rcases hold₂ x hx with hx | hx
        · exact (hold₁ x hx).imp_right .inl
        · exact .inr (.inr hx)
      · cases hp
        refine ⟨?_, hsource, ?_⟩
        · intro heq
          have heq : first = second := heq
          subst heq
          rcases hsource₂ with hhit | hgrant
          · have := hd₁ _ _ _ hkey hhit
            simp at this
          · exact hb₁ _ hgrant ⟨_, hkey⟩
        · rcases hsource₂ with hhit | hgrant
          · exact (hold₁ _ ⟨_, hhit⟩).imp_right .inl
          · exact .inr (.inr hgrant)

/-- The events of a name differ. -/
theorem stageEvents_spec (h : ∀ name pair, s.eventCache.get? name = some pair → pair.1 ≠ pair.2) (name : String) :
    (s.stageEvents name).1.1 ≠ (s.stageEvents name).1.2 ∧ ∃ cache made,
      (s.stageEvents name).2 = { s with eventCache := cache, eventsMade := made } ∧
        ∀ name pair, cache.get? name = some pair → pair.1 ≠ pair.2 := by
  unfold stageEvents
  cases hn : s.eventCache.get? name with
  | some pair => exact ⟨h name pair hn, s.eventCache, s.eventsMade, rfl, h⟩
  | none =>
    refine ⟨Nat.ne_of_lt (Nat.lt_succ_self _), _, _, rfl, fun n pair hp => ?_⟩
    rw [Dict.get?_set] at hp
    split at hp
    · cases hp
      exact Nat.ne_of_lt (Nat.lt_succ_self _)
    · split at hp
      · cases hp
      · exact h n pair hp

/-- The state a call begins in: its tensor is being computed, the pool may have changed. -/
theorem Sound.begin (h : Sound s) (hrun : s.running = none) {c : Call ρ} (staging : Option PinnedStagingPool)
    {cache : Dict String (Nat × Nat)} (made : Nat) (hd : ∀ p ∈ staging, p.Distinct)
    (hfree : ∀ p ∈ staging, ∀ b, p.Holds b → ∀ r ∈ s.returned, r.1.block ≠ b)
    (hcache : ∀ name pair, cache.get? name = some pair → pair.1 ≠ pair.2)
    (hresult : (∀ p ∈ staging, ¬ p.Holds c.result) ∧ ∀ r ∈ s.returned, r.1.block ≠ c.result)
    (hphase : c.phase = .cpu ∨ c.phase = .copy 0 ∧ 2 ≤ spans c.tensor.shape ∧ c.staged.1 ≠ c.staged.2 ∧
      c.events.1 ≠ c.events.2 ∧ (∀ k, pick c.staged k ≠ c.result) ∧
        ∀ r ∈ s.returned, ∀ k, r.1.block ≠ pick c.staged k) :
    Sound { s with
      issued := s.issued ++ [StreamOp.compute c.tensor.rows]
      staging
      eventCache := cache
      eventsMade := made
      running := some c } := by
  refine ⟨?_, hd, fun p hp k b hb => hfree p hp b ⟨k, hb⟩, hcache, h.right, fun hn => (by cases hn), fun c' hc' => ?_⟩
  · simp only [List.length_append]
    exact Nat.le_add_right_of_le h.bounded
  · have hcc : c' = c := (Option.some.inj hc').symm
    subst hcc
    have hbound := h.bounded
    refine ⟨s.issued.length, List.getElem?_concat_length, fun i hi hlt => ?_, fun hlt => ?_, ?_, fun _ => ?_, fun hne => ?_⟩
    · obtain ⟨rows, hrows⟩ := h.idle hrun i hi hlt
      exact ⟨rows, asked hrows _⟩
    · dsimp only at hlt
      omega
    · rintro (⟨p, key, hp, hb⟩ | ⟨r, hr, hb⟩)
      · exact hresult.1 p hp ⟨key, hb⟩
      · exact hresult.2 r hr hb
    · simp
    · obtain hcpu | ⟨hcopy, hmany, hpair, hevents, hapart, hunreturned⟩ := hphase
      · exact (hne hcpu).elim
      · constructor
        all_goals try rw [hcopy]
        all_goals try dsimp only
        · exact Nat.lt_of_lt_of_le Nat.zero_lt_two hmany
        · exact hmany
        · exact hpair
        · exact hevents
        · exact hapart
        · exact hunreturned
        · simp [issuedAt, recordedAt]
        · exact fun j hj => (Nat.not_lt_zero j hj).elim
        · exact fun j hj => (Nat.not_lt_zero j hj).elim
        · exact fun j hj => (Nat.not_lt_zero j hj).elim
        · exact fun j hj => (Nat.not_lt_zero j hj).elim
        · exact fun j hj => (Nat.not_lt_zero j hj).elim
        · exact fun k chunk hd => (by cases hd)

theorem Sound.toHost (h : Sound s) (hrun : s.running = none) {a b : Grant} {fresh : Nat} (ha : s.Allocates a b fresh)
    (t : DeviceTensor ρ) (name : String) : Sound (s.toHost t name a b fresh) := by
  have hreturned : ∀ x, ¬ s.Live x → ∀ r ∈ s.returned, r.1.block ≠ x := fun x hx r hr heq => hx (.inr ⟨r, hr, heq⟩)
  unfold TorchImageOps.toHost
  dsimp only
  cases hst : s.staging with
  | none =>
    refine h.begin hrun (c := { tensor := t, result := fresh }) none _ ?_ ?_ h.cached ?_ (.inl rfl)
    · exact fun p hp => (by cases hp)
    · exact fun p hp => (by cases hp)
    · exact ⟨fun p hp => (by cases hp), hreturned _ ha.result.1⟩
  | some p =>
    have hp : p ∈ s.staging := hst
    have hlive : ∀ x, ¬ s.Live x → ¬ p.Holds x := fun x hx ⟨key, hk⟩ => hx (.inl ⟨p, key, hst, hk⟩)
    have hone : ∀ q : PinnedStagingPool, ∀ P : PinnedStagingPool → Prop, P q → ∀ p ∈ some q, P p := by
      intro q P hq p hp
      cases hp
      exact hq
    have hcpu : Sound { s with
        issued := s.issued ++ [StreamOp.compute t.rows]
        running := some { tensor := t, result := fresh } } := by
      have hbegin := h.begin hrun (c := { tensor := t, result := fresh }) s.staging s.eventsMade
        h.distinct (fun q hq b ⟨k, hk⟩ => h.apart q hq k b hk) h.cached
        ⟨fun q hq hb => ha.result.1 (hb.elim fun key hk => .inl ⟨q, key, hq, hk⟩), hreturned _ ha.result.1⟩ (.inl rfl)
      exact hbegin
    rw [hst] at hcpu
    dsimp only
    split
    · exact hcpu
    split
    · rename_i hcount
      have hfresh := hreturned _ ha.result.1
      refine ⟨?_, ?_, ?_, h.cached, ?_, fun _ i hi hlt => ?_, fun c hc => (by cases hc)⟩
      · simp only [TorchImageOps.finish, List.length_append]
        exact Nat.le_add_right_of_le h.bounded
      · exact hone p _ (h.distinct p hp)
      · refine hone p _ fun k b hb r hr => ?_
        rcases List.mem_append.mp hr with hr | hr
        · exact h.apart p hp k b hb r hr
        · rw [List.mem_singleton.mp hr]
          rintro rfl
          exact hlive _ ha.result.1 ⟨k, hb⟩
      · intro r hr
        rcases List.mem_append.mp hr with hr | hr
        · exact h.right r hr
        · rw [List.mem_singleton.mp hr]
          refine ⟨rfl, rfl, fun i hi => ?_⟩
          dsimp only at hi
          omega
      · by_cases hold : i < s.issued.length
        · obtain ⟨rows, hrows⟩ := h.idle hrun i hi hold
          exact ⟨rows, asked hrows _⟩
        · have hlast : i = s.issued.length := by
            simp only [TorchImageOps.finish, List.length_append, List.length_singleton] at hlt
            omega
          rw [hlast]
          exact ⟨t.rows, List.getElem?_concat_length⟩
    split
    · exact hcpu
    · rename_i hshape hcount hspans
      obtain ⟨hd, hold, hpair⟩ := stagePair_spec (h.distinct p hp) (fun x hx => hlive x (ha.first x hx))
        (fun x hx => ⟨hlive x (ha.second x hx).1, (ha.second x hx).2⟩) t name
      have hblocks : ∀ x, p.Holds x ∨ a = .block x ∨ b = .block x → x ≠ fresh ∧ ∀ r ∈ s.returned, r.1.block ≠ x := by
        rintro x (⟨key, hk⟩ | hx | hx)
        · refine ⟨?_, fun r hr => h.apart p hp key x hk r hr⟩
          rintro rfl
          exact hlive _ ha.result.1 ⟨key, hk⟩
        · refine ⟨?_, hreturned _ (ha.first x hx)⟩
          rintro rfl
          exact ha.result.2.1 hx
        · refine ⟨?_, hreturned _ (ha.second x hx).1⟩
          rintro rfl
          exact ha.result.2.2 hx
      generalize stagePair p t name a b = answer at hd hold hpair
      obtain ⟨result, pool⟩ := answer
      have hfree : ∀ b, pool.Holds b → b ≠ fresh ∧ ∀ r ∈ s.returned, r.1.block ≠ b := fun b hb => hblocks b (hold b hb)
      have hresult : (∀ q ∈ some pool, ¬ q.Holds fresh) ∧ ∀ r ∈ s.returned, r.1.block ≠ fresh :=
        ⟨hone pool (fun q => ¬ q.Holds fresh) fun hb => (hfree fresh hb).1 rfl, hreturned _ ha.result.1⟩
      cases result with
      | error e =>
        cases e with
        | device =>
          have hbegin := h.begin hrun (c := { tensor := t, result := fresh }) (some pool) s.eventsMade
            (hone pool _ hd) (hone pool (fun q => ∀ b, q.Holds b → ∀ r ∈ s.returned, r.1.block ≠ b) fun b hb =>
              (hfree b hb).2) h.cached hresult (.inl rfl)
          exact hbegin
        | runtime =>
          have hbegin := h.begin hrun (c := { tensor := t, result := fresh }) none s.eventsMade
            (fun p hp => by cases hp) (fun p hp => by cases hp) h.cached
            ⟨fun p hp => (by cases hp), hresult.2⟩ (.inl rfl)
          exact hbegin
      | ok staged =>
        obtain ⟨hne, hfirst, hsecond⟩ := hpair staged rfl
        have hpick : ∀ k, pick staged k ≠ fresh ∧ ∀ r ∈ s.returned, r.1.block ≠ pick staged k := by
          intro k
          rcases pick_mem staged k with hk | hk
          · rw [hk]
            exact hblocks _ (hfirst.imp_right .inl)
          · rw [hk]
            exact hblocks _ hsecond
        have hmany : 2 ≤ spans t.shape := by
          have hfirst : 0 < t.shape.headD 1 := Nat.pos_of_ne_zero hcount
          obtain ⟨j, hj, -, -⟩ := exists_span hfirst
          omega
        dsimp only
        obtain ⟨hevents, cache, made, hs, hcache⟩ := stageEvents_spec (s := { s with
          issued := s.issued ++ [StreamOp.compute t.rows], staging := some pool }) h.cached name
        rw [hs]
        generalize (stageEvents { s with issued := s.issued ++ [StreamOp.compute t.rows], staging := some pool } name).1 =
          events at hevents
        exact h.begin hrun (c := { tensor := t, result := fresh, staged, events, phase := .copy 0 }) (some pool)
          _ (hone pool _ hd) (hone pool (fun q => ∀ b, q.Holds b → ∀ r ∈ s.returned, r.1.block ≠ b) fun b hb =>
            (hfree b hb).2) hcache hresult
          (.inr ⟨rfl, hmany, hne, hevents, fun k => (hpick k).1, fun r hr k => (hpick k).2 r hr⟩)

/-! ## Runs -/

theorem sound_init (h : (readback ρ).init s) : Sound s := by
  obtain ⟨hissued, hcompleted, hreturned, hrun, hcache, hdistinct⟩ := h
  refine ⟨?_, hdistinct, fun p hp k b hb r hr => ?_, fun name pair hn => ?_, fun r hr => ?_, fun _ i hi hlt => ?_,
    fun c hc => ?_⟩
  · rw [hcompleted]
    exact Nat.zero_le _
  · rw [hreturned] at hr
    cases hr
  · rw [hcache] at hn
    cases hn
  · rw [hreturned] at hr
    cases hr
  · rw [hissued] at hlt
    cases hlt
  · rw [hrun] at hc
    cases hc

theorem Sound.step (h : Sound s) {l : ReadbackStep ρ} (hst : (readback ρ).step s l t) : Sound t := by
  cases l with
  | call tensor name a b fresh =>
    obtain ⟨hrun, ha, rfl⟩ := hst
    exact h.toHost hrun ha tensor name
  | host => exact h.goOn hst
  | complete => exact h.complete hst
  | partly junk => exact h.partly hst

/-- The tensors of the calls so far: of those that returned, in order, and of the running one. -/
def ledger (s : TorchImageOps ρ) : List (DeviceTensor ρ) := s.returned.map Prod.snd ++ (s.running.map Call.tensor).toList

theorem ledger_toHost (hrun : s.running = none) (tensor : DeviceTensor ρ) (name : String) (a b : Grant) (fresh : Nat) :
    ledger (s.toHost tensor name a b fresh) = ledger s ++ [tensor] ∧
      s.returned <+: (s.toHost tensor name a b fresh).returned := by
  have hevents : ∀ (u : TorchImageOps ρ), (u.stageEvents name).2.returned = u.returned := by
    intro u
    unfold stageEvents
    split <;> rfl
  unfold TorchImageOps.toHost
  dsimp only
  split
  · simp [ledger, hrun]
  split
  · simp [ledger, hrun]
  split
  · simp [ledger, hrun, TorchImageOps.finish]
  split
  · simp [ledger, hrun]
  split
  · simp [ledger, hrun]
  · simp [ledger, hrun]
  · simp [ledger, hrun, hevents]

theorem ledger_goOn (ht : s.goOn = some t) : ledger t = ledger s ∧ s.returned <+: t.returned := by
  unfold TorchImageOps.goOn at ht
  cases hrun : s.running with
  | none =>
    rw [hrun] at ht
    cases ht
  | some c =>
    rw [hrun] at ht
    dsimp only at ht
    split at ht
    · split at ht
      · cases ht
        simp [ledger, hrun, TorchImageOps.finish, TorchImageOps.write]
      · cases ht
    · cases ht
      simp [ledger, hrun]
    · cases ht
      simp [ledger, hrun]
    · split at ht
      · cases ht
        simp [ledger, hrun]
      · cases ht
    · split at ht
      · cases ht
        simp [ledger, hrun, TorchImageOps.write]
      · cases ht
        simp [ledger, hrun, TorchImageOps.finish, TorchImageOps.write]

/-- The device changes no call. -/
theorem device_calls {l : ReadbackStep ρ} (hl : l = .complete ∨ ∃ junk, l = .partly junk) (hst : (readback ρ).step s l t) :
    t.returned = s.returned ∧ t.running = s.running ∧ t.issued = s.issued := by
  rcases hl with rfl | ⟨junk, rfl⟩
  · have ht : s.complete = some t := hst
    unfold TorchImageOps.complete at ht
    split at ht <;> cases ht <;> exact ⟨rfl, rfl, rfl⟩
  · have ht : s.partly junk = some t := hst
    unfold TorchImageOps.partly at ht
    split at ht <;> cases ht
    exact ⟨rfl, rfl, rfl⟩

/-- The tensor a call gives. -/
def ReadbackStep.given : ReadbackStep ρ → Option (DeviceTensor ρ)
  | .call tensor _ _ _ _ => some tensor
  | _ => none

theorem ledger_step {l : ReadbackStep ρ} (hst : (readback ρ).step s l t) :
    ledger t = ledger s ++ l.given.toList ∧ s.returned <+: t.returned := by
  cases l with
  | call tensor name a b fresh =>
    obtain ⟨hrun, -, rfl⟩ := hst
    exact ledger_toHost hrun tensor name a b fresh
  | host => simpa [ReadbackStep.given] using ledger_goOn hst
  | complete =>
    obtain ⟨hret, hrun, -⟩ := device_calls (.inl rfl) hst
    simp [ledger, hret, hrun, ReadbackStep.given]
  | partly junk =>
    obtain ⟨hret, hrun, -⟩ := device_calls (.inr ⟨junk, rfl⟩) hst
    simp [ledger, hret, hrun, ReadbackStep.given]

theorem ledger_run {ls : List (ReadbackStep ρ)} (hr : (readback ρ).Run s ls t) :
    ledger t = ledger s ++ ls.filterMap ReadbackStep.given ∧ s.returned <+: t.returned := by
  induction hr with
  | nil => simp
  | snoc _ hst ih =>
    rename_i l _
    obtain ⟨hledger, hstart⟩ := ledger_step hst
    refine ⟨?_, ih.2.trans hstart⟩
    rw [hledger, ih.1, List.filterMap_append, List.append_assoc]
    cases hg : l.given <;> simp [hg]

/-! ## Calls return -/

/-- How many steps a phase still takes, or more. -/
def leftIn (n : Nat) : Phase → Nat
  | .cpu => 1
  | .copy k => 4 * (n - k) + 2
  | .record k => 4 * (n - k) + 1
  | .synchronize k _ => if k < n then 4 * (n - k) else 2
  | .drain k _ => if k < n then 4 * (n - k) - 1 else 1

/-- How many steps of the call and of the device there are to come, or more. -/
def left (s : TorchImageOps ρ) : Nat :=
  2 * (s.running.map fun c => leftIn (spans c.tensor.shape) c.phase).getD 0 + (s.issued.length - s.completed)

theorem leftIn_nextTurn {n k : Nat} (hk : k < n) : leftIn n (nextTurn n k) + 1 < 4 * (n - k) := by
  unfold nextTurn
  split
  · simp only [leftIn]
    omega
  · simp only [leftIn, Nat.lt_irrefl, if_false]
    omega

theorem Sound.left_goOn (h : Sound s) (ht : s.goOn = some t) : left t < left s := by
  have hbound := h.bounded
  unfold TorchImageOps.goOn at ht
  cases hrun : s.running with
  | none =>
    rw [hrun] at ht
    cases ht
  | some c =>
    obtain ⟨base, hb⟩ := h.busy c hrun
    rw [hrun] at ht
    dsimp only at ht
    cases hphase : c.phase with
    | cpu =>
      rw [hphase] at ht
      dsimp only at ht
      split at ht
      · cases ht
        simp [left, hrun, hphase, leftIn, TorchImageOps.finish, TorchImageOps.write]
      · cases ht
    | copy k =>
      rw [hphase] at ht
      cases ht
      simp only [left, hrun, hphase, leftIn, Option.map_some, Option.getD_some, List.length_append, List.length_singleton]
      omega
    | record k =>
      rw [hphase] at ht
      cases ht
      have hproper := (hb.staged (by simp [hphase])).proper
      rw [hphase] at hproper
      have hk : k < spans c.tensor.shape := hproper
      have hnext := leftIn_nextTurn hk
      simp only [left, hrun, hphase, Option.map_some, Option.getD_some, List.length_append, List.length_singleton]
      split
      · rw [show leftIn (spans c.tensor.shape) (.record k) = 4 * (spans c.tensor.shape - k) + 1 from rfl]
        omega
      · simp only [leftIn, if_pos hk]
        omega
    | synchronize k chunk =>
      rw [hphase] at ht
      dsimp only at ht
      split at ht
      · cases ht
        simp only [left, hrun, hphase, leftIn, Option.map_some, Option.getD_some]
        split <;> omega
      · cases ht
    | drain k chunk =>
      rw [hphase] at ht
      dsimp only at ht
      split at ht
      · rename_i hk
        cases ht
        have hnext := leftIn_nextTurn hk
        simp only [left, hrun, hphase, Option.map_some, Option.getD_some, TorchImageOps.write]
        rw [show leftIn (spans c.tensor.shape) (.drain k chunk) = 4 * (spans c.tensor.shape - k) - 1 from if_pos hk]
        omega
      · rename_i hk
        cases ht
        simp [left, hrun, hphase, leftIn, TorchImageOps.finish, TorchImageOps.write, hk]

theorem left_complete (ht : s.complete = some t) : left t < left s := by
  have hlt : s.completed < s.issued.length := by
    by_contra hge
    unfold TorchImageOps.complete at ht
    rw [List.getElem?_eq_none (Nat.not_lt.mp hge)] at ht
    cases ht
  unfold TorchImageOps.complete at ht
  split at ht <;> cases ht <;> simp only [left, TorchImageOps.write] <;> omega

/-- A running call, or the device it waits for, can go on. -/
theorem Sound.goes_on (h : Sound s) (hrun : s.running.isSome) : (∃ t, s.complete = some t) ∨ ∃ t, s.goOn = some t := by
  obtain ⟨c, hc⟩ := Option.isSome_iff_exists.mp hrun
  by_cases hlt : s.completed < s.issued.length
  · left
    unfold TorchImageOps.complete
    rw [List.getElem?_eq_getElem hlt]
    cases s.issued[s.completed] with
    | compute rows => exact ⟨_, rfl⟩
    | copy block lo hi => exact ⟨_, rfl⟩
    | record => exact ⟨_, rfl⟩
  · right
    have hdone : s.completed = s.issued.length := Nat.le_antisymm h.bounded (Nat.not_lt.mp hlt)
    obtain ⟨base, hb⟩ := h.busy c hc
    unfold TorchImageOps.goOn
    rw [hc]
    dsimp only
    cases hphase : c.phase with
    | cpu => exact ⟨_, if_pos hdone⟩
    | copy k => exact ⟨_, rfl⟩
    | record k => exact ⟨_, rfl⟩
    | synchronize k chunk =>
      have hs := hb.staged (by simp [hphase])
      have hproper := hs.proper
      have hlength := hs.length
      have hmarks := hs.marks
      rw [hphase] at hproper hlength hmarks
      have hlast := hmarks chunk (by
        simp only [recordedAt]
        rcases hproper with h | h <;> omega) (by
        simp only [recordedAt]
        rcases hproper with h | h <;> omega)
      simp only [issuedAt, recordedAt] at hlength
      refine ⟨_, if_pos ?_⟩
      rcases hproper with h | h <;> omega
    | drain k chunk =>
      dsimp only
      split
      · exact ⟨_, rfl⟩
      · exact ⟨_, rfl⟩

/-- A thread that starts, with an empty pool. -/
def rested : TorchImageOps Nat where
  staging := some {}
  marks _ := 0
  host _ _ := 0
  device _ := 0

/-- Masks of three frames, a span for each. -/
def masks : DeviceTensor Nat := ⟨[3, 2097152], "uint8", id⟩

theorem rested_init : (readback Nat).init rested := by
  refine ⟨rfl, rfl, rfl, rfl, rfl, ?_⟩
  intro p hp k k' b hb
  cases hp
  cases hb

theorem rested_allocates : rested.Allocates (.block 0) (.block 1) 2 := by
  have hfree : ∀ b, ¬ rested.Live b := by
    rintro b (⟨p, key, hp, hb⟩ | ⟨r, hr, -⟩)
    · cases hp
      cases hb
    · cases hr
  exact ⟨fun x _ => hfree x, fun x hx => ⟨hfree x, by cases hx; decide⟩, hfree 2, by decide, by decide⟩

end ShipInfer.Runtime
