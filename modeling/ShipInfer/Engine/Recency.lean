import ShipInfer.Engine.Hits

/-!
# The least recently used entry goes first

The cache of `engine/cache/lru.py` over any sequence of operations: what its byte count and
its size table say, and which entries an insertion evicts.
-/

namespace ShipInfer.Engine.Cache

variable {κ : Type}

inductive Op (κ : Type)
  | get (key : κ)
  | put (key : κ) (outputs : Dict String Tensor)
  | clear

/-- A `get`, or a `put` that is not turned away, uses its key. -/
def Op.Uses (maxBytes : Int) (key : κ) : Op κ → Prop
  | .get k => k = key
  | .put k outputs => k = key ∧ ∃ payload, freezeOutputs outputs = .ok payload ∧ (payloadBytes payload : Int) ≤ maxBytes
  | .clear => False

/-- `key` has been used since `other` last was. -/
def UsedSince (maxBytes : Int) (ops : List (Op κ)) (key other : κ) : Prop :=
  ∃ before op after, ops = before ++ op :: after ∧ op.Uses maxBytes key ∧ ∀ o ∈ op :: after, ¬o.Uses maxBytes other

theorem UsedSince.snoc {maxBytes : Int} {ops : List (Op κ)} {op : Op κ} {key other : κ}
    (h : UsedSince maxBytes ops key other) (hop : ¬op.Uses maxBytes other) : UsedSince maxBytes (ops ++ [op]) key other := by
  obtain ⟨before, use, after, rfl, huse, hnone⟩ := h
  refine ⟨before, use, after ++ [op], by simp, huse, ?_⟩
  intro o ho
  rw [← List.cons_append] at ho
  rcases List.mem_append.mp ho with ho | ho
  · exact hnone o ho
  · rw [List.mem_singleton.mp ho]
    exact hop

theorem usedSince_last {maxBytes : Int} {ops : List (Op κ)} {op : Op κ} {key other : κ} (huse : op.Uses maxBytes key)
    (hop : ¬op.Uses maxBytes other) : UsedSince maxBytes (ops ++ [op]) key other :=
  ⟨ops, op, [], rfl, huse, fun o ho => by rwa [List.mem_singleton.mp ho]⟩

theorem Op.Uses.unique {maxBytes : Int} {op : Op κ} {key other : κ} (h : op.Uses maxBytes key)
    (h' : op.Uses maxBytes other) : key = other := by
  cases op with
  | get k => exact h.symm.trans h'
  | put k outputs => exact h.1.symm.trans h'.1
  | clear => exact h.elim

namespace LruResponseCache

variable [DecidableEq κ]

/-- An operation; one that raises leaves the cache as it was. -/
def apply (c : LruResponseCache κ) : Op κ → LruResponseCache κ
  | .get key => (c.get key).1
  | .put key outputs =>
    match c.put key outputs with
    | .ok c => c
    | .error _ => c
  | .clear => c.clear

def after (maxEntries maxBytes : Int) (ops : List (Op κ)) : LruResponseCache κ :=
  ops.foldl apply { maxEntries := maxEntries, maxBytes := maxBytes }

/-- The bytes of the payloads of some entries. -/
def bytesOf (l : List (κ × Dict String Tensor)) : Nat := (l.map fun p => payloadBytes p.2).sum

/-- Entries that are within both bounds. -/
def Fits (maxEntries maxBytes : Int) (l : List (κ × Dict String Tensor)) : Prop :=
  (l.length : Int) ≤ maxEntries ∧ (bytesOf l : Int) ≤ maxBytes

/-- The entries when a payload has come in and none has gone. -/
def entered (c : LruResponseCache κ) (key : κ) (payload : Dict String Tensor) : List (κ × Dict String Tensor) :=
  (c.entries.erase key).entries ++ [(key, payload)]

/-- The count and the table are of what is stored. -/
structure Accounted (c : LruResponseCache κ) : Prop where
  bytes : c.bytes = bytesOf c.entries.entries
  sizes : ∀ key, c.sizes.get? key = (c.entries.get? key).map payloadBytes

variable {c : LruResponseCache κ}

theorem entries_touch (entries : Dict κ (Dict String Tensor)) (key : κ) (payload : Dict String Tensor) :
    (touch entries key payload).entries = (entries.erase key).entries ++ [(key, payload)] :=
  Dict.set_entries_of_new fun hmem => (Dict.mem_keys_erase.mp hmem).2 rfl

theorem get?_touch (entries : Dict κ (Dict String Tensor)) (key : κ) (payload : Dict String Tensor) (k : κ) :
    (touch entries key payload).get? k = if k = key then some payload else entries.get? k := by
  rw [touch, Dict.get?_set, Dict.get?_erase]
  by_cases hk : k = key
  · rw [if_pos hk, if_pos hk]
  · rw [if_neg hk, if_neg hk, if_neg hk]

/-- Without the entry of a key. -/
theorem bytesOf_erase (entries : Dict κ (Dict String Tensor)) (key : κ) :
    bytesOf entries.entries = ((entries.get? key).map payloadBytes).getD 0 + bytesOf (entries.erase key).entries := by
  cases hget : entries.get? key with
  | none =>
    rw [Dict.erase_entries_of_new (Dict.get?_eq_none_iff.mp hget)]
    simp
  | some payload =>
    have hperm := (Dict.entries_perm hget).map fun p => payloadBytes p.2
    have hsum := hperm.sum_nat
    simpa [bytesOf] using hsum

theorem erase_first {d : Dict κ (Dict String Tensor)} {p : κ × Dict String Tensor} {rest : List (κ × Dict String Tensor)}
    (h : d.entries = p :: rest) : (d.erase p.1).entries = rest := by
  have hnodup := d.nodup
  rw [h, List.map_cons, List.nodup_cons] at hnodup
  rw [Dict.erase, Dict.entries_filter, h, List.filter_cons_of_neg (by simp)]
  apply List.filter_eq_self.mpr
  intro q hq
  apply decide_eq_true
  intro heq
  exact hnodup.1 (heq ▸ List.mem_map_of_mem hq)

/-! ## Eviction -/

/-- The first entries go, as few as it takes. -/
structure Evicts (maxEntries maxBytes : Int) (full left : List (κ × Dict String Tensor)) (count : Nat) : Prop where
  kept : left = full.drop count
  fewest : ∀ fewer < count, ¬Fits maxEntries maxBytes (full.drop fewer)
  within : left = [] ∨ Fits maxEntries maxBytes left

theorem evict_spec : ∀ {n : Nat} {c : LruResponseCache κ}, c.entries.size ≤ n → c.Accounted →
    (evict n c).Accounted ∧ (evict n c).maxEntries = c.maxEntries ∧ (evict n c).maxBytes = c.maxBytes ∧
      ∃ count, Evicts c.maxEntries c.maxBytes c.entries.entries (evict n c).entries.entries count := by
  intro n
  induction n with
  | zero =>
    intro c hn hc
    have hnil : c.entries.entries = [] := List.length_eq_zero_iff.mp (Nat.le_zero.mp hn)
    exact ⟨hc, rfl, rfl, 0, rfl, fun _ hlt => absurd hlt (Nat.not_lt_zero _), .inl hnil⟩
  | succ n ih =>
    intro c hn hc
    unfold evict
    cases hentries : c.entries.entries with
    | nil =>
      have hkeys : c.entries.keys = [] := by simp [Dict.keys, hentries]
      rw [hkeys]
      exact ⟨hc, rfl, rfl, 0, by rw [hentries]; rfl, fun _ hlt => absurd hlt (Nat.not_lt_zero _), .inl hentries⟩
    | cons p rest =>
      have hkeys : c.entries.keys = p.1 :: rest.map Prod.fst := by simp [Dict.keys, hentries]
      rw [hkeys]
      have hlength : c.entries.size = rest.length + 1 := by simp [Dict.size, hentries]
      have hfits : Fits c.maxEntries c.maxBytes (p :: rest) ↔ ¬(c.maxEntries < c.entries.size ∨ c.maxBytes < c.bytes) := by
        rw [Fits, ← hentries, ← hc.bytes, not_or, not_lt, not_lt]
        rfl
      by_cases hover : c.maxEntries < c.entries.size ∨ c.maxBytes < c.bytes
      · dsimp only
        rw [if_pos hover]
        have herase := erase_first hentries
        have hvictim : c.entries.get? p.1 = some p.2 := Dict.get?_eq_some_iff.mpr (by rw [hentries]; exact List.mem_cons_self)
        obtain ⟨haccounted, hmaxEntries, hmaxBytes, count, hkept, hfewest, hwithin⟩ := ih
          (c := { c with
            entries := c.entries.erase p.1
            bytes := c.bytes - ((c.sizes.get? p.1).getD 0 : Nat)
            sizes := c.sizes.erase p.1
            evictions := c.evictions + 1 })
          (by
            show (c.entries.erase p.1).entries.length ≤ n
            rw [herase]
            omega)
          { bytes := by
              show c.bytes - ((c.sizes.get? p.1).getD 0 : Nat) = bytesOf (c.entries.erase p.1).entries
              have hsum := bytesOf_erase c.entries p.1
              rw [hc.bytes, hc.sizes, hsum]
              push_cast
              omega
            sizes := fun key => by
              show (c.sizes.erase p.1).get? key = ((c.entries.erase p.1).get? key).map payloadBytes
              rw [Dict.get?_erase, Dict.get?_erase, hc.sizes]
              split
              · rfl
              · rfl }
        refine ⟨haccounted, hmaxEntries, hmaxBytes, count + 1, ?_, ?_, hwithin⟩
        · rw [hkept]
          show (c.entries.erase p.1).entries.drop count = _
          rw [herase]
          rfl
        · intro fewer hlt hfit
          cases fewer with
          | zero => exact hfits.mp hfit hover
          | succ fewer =>
            refine hfewest fewer (by omega) ?_
            show Fits c.maxEntries c.maxBytes ((c.entries.erase p.1).entries.drop fewer)
            rw [herase]
            exact hfit
      · dsimp only
        rw [if_neg hover]
        exact ⟨hc, rfl, rfl, 0, by rw [hentries]; rfl, fun _ hlt => absurd hlt (Nat.not_lt_zero _),
          .inr (by rw [hentries]; exact hfits.mpr hover)⟩

/-! ## What every operation keeps -/

variable {maxEntries maxBytes : Int} {ops : List (Op κ)}

/-- The entries are in the order in which they were last used. -/
def Ordered (maxBytes : Int) (ops : List (Op κ)) (l : List (κ × Dict String Tensor)) : Prop :=
  (l.map Prod.fst).Pairwise fun key later => UsedSince maxBytes ops later key

structure Sound (maxEntries maxBytes : Int) (ops : List (Op κ)) (c : LruResponseCache κ) : Prop where
  entriesBound : c.maxEntries = maxEntries
  bytesBound : c.maxBytes = maxBytes
  accounted : c.Accounted
  ordered : Ordered maxBytes ops c.entries.entries
  within : c.entries.entries = [] ∨ Fits maxEntries maxBytes c.entries.entries

omit [DecidableEq κ] in
theorem Ordered.snoc {l : List (κ × Dict String Tensor)} (h : Ordered maxBytes ops l) {op : Op κ}
    (hop : ∀ key ∈ l.map Prod.fst, ¬op.Uses maxBytes key) : Ordered maxBytes (ops ++ [op]) l :=
  h.imp_of_mem fun hkey _ huse => huse.snoc (hop _ hkey)

/-- The key that an operation uses comes last. -/
theorem Ordered.entered (h : Ordered maxBytes ops c.entries.entries) (op : Op κ) {key : κ}
    (huse : op.Uses maxBytes key) (payload : Dict String Tensor) :
    Ordered maxBytes (ops ++ [op]) (c.entered key payload) := by
  have hothers : ∀ other ∈ (c.entries.erase key).entries.map Prod.fst, ¬op.Uses maxBytes other := by
    intro other hother hused
    obtain rfl := huse.unique hused
    exact (Dict.mem_keys_erase.mp hother).2 rfl
  have herase : Ordered maxBytes ops (c.entries.erase key).entries :=
    h.sublist (List.filter_sublist.map Prod.fst)
  rw [Ordered, LruResponseCache.entered, List.map_append]
  refine List.pairwise_append.mpr ⟨herase.snoc hothers, List.pairwise_singleton _ _, ?_⟩
  intro other hother later hlater
  rw [List.map_singleton, List.mem_singleton] at hlater
  rw [hlater]
  exact usedSince_last huse (hothers other hother)

/-- A put that is not turned away. -/
theorem put_spec (hs : Sound maxEntries maxBytes ops c) {key : κ} {outputs payload : Dict String Tensor}
    (hpayload : freezeOutputs outputs = .ok payload) (hbytes : (payloadBytes payload : Int) ≤ maxBytes) :
    Sound maxEntries maxBytes (ops ++ [Op.put key outputs]) (c.apply (.put key outputs)) ∧
      ∃ count, Evicts maxEntries maxBytes (c.entered key payload) (c.apply (.put key outputs)).entries.entries count := by
  have huse : (Op.put key outputs).Uses maxBytes key := ⟨rfl, payload, hpayload, hbytes⟩
  obtain ⟨hmaxEntries, hmaxBytes, haccounted, hordered, -⟩ := hs
  have hlate : ¬c.maxBytes < payloadBytes payload := by
    rw [hmaxBytes]
    omega
  generalize hin : ({ c with
      entries := touch c.entries key payload
      sizes := c.sizes.set key (payloadBytes payload)
      bytes := (if c.entries.contains key then c.bytes - ((c.sizes.get? key).getD 0 : Nat) else c.bytes) +
        payloadBytes payload } : LruResponseCache κ) = grown
  have hentries : grown.entries.entries = c.entered key payload := by
    rw [← hin]
    exact entries_touch c.entries key payload
  have hput : c.apply (.put key outputs) = evict grown.entries.size grown := by
    have hok : c.put key outputs = .ok (evict grown.entries.size grown) := by
      rw [← hin, put, hpayload]
      show (if _ then _ else _) = _
      rw [if_neg hlate]
    rw [apply, hok]
  have hgrown : grown.Accounted := by
    constructor
    · have hsum := bytesOf_erase c.entries key
      have hadded : bytesOf (c.entered key payload) = bytesOf (c.entries.erase key).entries + payloadBytes payload := by
        simp [bytesOf, LruResponseCache.entered]
      have hbefore := haccounted.bytes
      rw [hentries, hadded, ← hin]
      show (if c.entries.contains key then c.bytes - ((c.sizes.get? key).getD 0 : Nat) else c.bytes) + (payloadBytes payload : Int) = _
      rw [haccounted.sizes]
      by_cases hmem : c.entries.contains key = true
      · rw [if_pos hmem]
        push_cast
        omega
      · have hnone : c.entries.get? key = none := Dict.get?_eq_none_iff.mpr fun hkey => hmem (Dict.contains_iff.mpr hkey)
        rw [hnone] at hsum
        rw [if_neg hmem]
        simp only [Option.map_none, Option.getD_none, Nat.zero_add] at hsum
        push_cast
        omega
    · intro k
      rw [← hin]
      show (c.sizes.set key (payloadBytes payload)).get? k = ((touch c.entries key payload).get? k).map payloadBytes
      rw [Dict.get?_set, get?_touch, haccounted.sizes]
      split
      · rfl
      · rfl
  have hbounds : grown.maxEntries = maxEntries ∧ grown.maxBytes = maxBytes := by
    rw [← hin]
    exact ⟨hmaxEntries, hmaxBytes⟩
  obtain ⟨haccounted', hmaxEntries', hmaxBytes', count, hevicts⟩ := evict_spec (Nat.le_refl grown.entries.size) hgrown
  rw [hbounds.1, hbounds.2, hentries] at hevicts
  rw [hput]
  refine ⟨⟨hmaxEntries'.trans hbounds.1, hmaxBytes'.trans hbounds.2, haccounted', ?_, hevicts.within⟩, count, hevicts⟩
  rw [hevicts.kept]
  exact (hordered.entered _ huse payload).sublist ((List.drop_sublist count _).map Prod.fst)

theorem get_spec (hs : Sound maxEntries maxBytes ops c) (key : κ) :
    Sound maxEntries maxBytes (ops ++ [Op.get key]) (c.apply (.get key)) ∧
      ∀ k, k ∈ (c.apply (.get key)).entries.keys ↔ k ∈ c.entries.keys := by
  obtain ⟨hentriesBound, hbytesBound, haccounted, hordered, hwithin⟩ := hs
  cases hget : c.entries.get? key with
  | none =>
    have happly : c.apply (.get key) = { c with misses := c.misses + 1 } := by
      rw [apply, get, hget]
    rw [happly]
    refine ⟨⟨hentriesBound, hbytesBound, ⟨haccounted.bytes, haccounted.sizes⟩, hordered.snoc ?_, hwithin⟩, fun _ => Iff.rfl⟩
    rintro k hk rfl
    exact Dict.get?_eq_none_iff.mp hget hk
  | some payload =>
    have happly : c.apply (.get key) = { c with entries := touch c.entries key payload, hits := c.hits + 1 } := by
      rw [apply, get, hget]
    have hentries : (c.apply (.get key)).entries.entries = c.entered key payload := by
      rw [happly]
      exact entries_touch c.entries key payload
    have hperm : (c.entered key payload).Perm c.entries.entries :=
      (List.perm_append_singleton _ _).trans (Dict.entries_perm hget).symm
    have hsize : bytesOf (c.entered key payload) = bytesOf c.entries.entries := (hperm.map _).sum_nat
    refine ⟨⟨by rw [happly]; exact hentriesBound, by rw [happly]; exact hbytesBound, ⟨?_, ?_⟩, ?_, ?_⟩, ?_⟩
    · rw [hentries, hsize, happly]
      exact haccounted.bytes
    · intro k
      rw [happly]
      show c.sizes.get? k = ((touch c.entries key payload).get? k).map payloadBytes
      rw [get?_touch, haccounted.sizes]
      split
      · rename_i hk
        rw [hk, hget]
      · rfl
    · rw [hentries]
      exact hordered.entered (.get key) rfl payload
    · right
      rw [hentries, Fits, hsize, hperm.length_eq]
      refine hwithin.resolve_left ?_
      intro hnil
      have hmem := Dict.get?_eq_some_iff.mp hget
      rw [hnil] at hmem
      cases hmem
    · intro k
      rw [Dict.keys, hentries]
      exact (hperm.map Prod.fst).mem_iff

/-- A put that raises or is turned away changes nothing. -/
theorem apply_put_unused {key : κ} {outputs : Dict String Tensor} (h : ¬(Op.put key outputs).Uses c.maxBytes key) :
    c.apply (.put key outputs) = c := by
  cases hfreeze : freezeOutputs outputs with
  | error e =>
    have hput : c.put key outputs = .error e := by
      rw [put, hfreeze]
      rfl
    rw [apply, hput]
  | ok payload =>
    have hlate : c.maxBytes < payloadBytes payload := by
      by_contra hle
      exact h ⟨rfl, payload, hfreeze, not_lt.mp hle⟩
    have hput : c.put key outputs = .ok c := by
      rw [put, hfreeze]
      show (if _ then _ else _) = _
      rw [if_pos hlate]
    rw [apply, hput]

theorem Sound.apply (hs : Sound maxEntries maxBytes ops c) (op : Op κ) : Sound maxEntries maxBytes (ops ++ [op]) (c.apply op) := by
  cases op with
  | get key => exact (get_spec hs key).1
  | put key outputs =>
    by_cases huse : (Op.put key outputs).Uses maxBytes key
    · obtain ⟨-, payload, hpayload, hbytes⟩ := huse
      exact (put_spec hs hpayload hbytes).1
    · rw [apply_put_unused (by rw [hs.bytesBound]; exact huse)]
      refine ⟨hs.entriesBound, hs.bytesBound, hs.accounted, hs.ordered.snoc ?_, hs.within⟩
      rintro k - hk
      exact huse (hk.1 ▸ hk)
  | clear =>
    exact ⟨hs.entriesBound, hs.bytesBound, ⟨rfl, fun _ => rfl⟩, .nil, .inl rfl⟩

theorem after_snoc (ops : List (Op κ)) (op : Op κ) : after maxEntries maxBytes (ops ++ [op]) = (after maxEntries maxBytes ops).apply op := by
  simp [after]

theorem sound_after (maxEntries maxBytes : Int) (ops : List (Op κ)) : Sound maxEntries maxBytes ops (after maxEntries maxBytes ops) := by
  induction ops using List.reverseRecOn with
  | nil => exact ⟨rfl, rfl, ⟨rfl, fun _ => rfl⟩, .nil, .inl rfl⟩
  | append_singleton ops op ih =>
    rw [after_snoc]
    exact ih.apply op

theorem mem_entered {key other : κ} {payload : Dict String Tensor} (h : other ∈ c.entries.keys ∨ other = key) :
    other ∈ (c.entered key payload).map Prod.fst := by
  rw [LruResponseCache.entered, List.map_append, List.mem_append]
  by_cases heq : other = key
  · right
    simp [heq]
  · left
    exact Dict.mem_keys_erase.mpr ⟨h.resolve_right heq, heq⟩

omit [DecidableEq κ] in
/-- What goes was used before what stays. -/
theorem Evicts.recent {full left : List (κ × Dict String Tensor)} {count : Nat}
    (h : Evicts maxEntries maxBytes full left count) (hordered : Ordered maxBytes ops full) {key other : κ}
    (hkey : key ∈ full.map Prod.fst) (hgone : key ∉ left.map Prod.fst) (hother : other ∈ left.map Prod.fst) :
    UsedSince maxBytes ops other key := by
  have hsplit : (full.take count).map Prod.fst ++ left.map Prod.fst = full.map Prod.fst := by
    rw [h.kept, ← List.map_append, List.take_append_drop]
  rw [Ordered, ← hsplit] at hordered
  rw [← hsplit] at hkey
  have hfirst := (List.mem_append.mp hkey).resolve_right hgone
  exact (List.pairwise_append.mp hordered).2.2 key hfirst other hother

/-- What holds of an operation, `op`, after others, `ops`. -/
structure Keeps (maxEntries maxBytes : Int) (ops : List (Op κ)) (op : Op κ) : Prop where
  bytes : (after maxEntries maxBytes (ops ++ [op])).bytes = bytesOf (after maxEntries maxBytes (ops ++ [op])).entries.entries
  sizes : ∀ key, key ∈ (after maxEntries maxBytes (ops ++ [op])).sizes.keys ↔
    key ∈ (after maxEntries maxBytes (ops ++ [op])).entries.keys
  entriesBound : 0 ≤ maxEntries → ((after maxEntries maxBytes (ops ++ [op])).entries.size : Int) ≤ maxEntries
  bytesBound : 0 ≤ maxBytes → (after maxEntries maxBytes (ops ++ [op])).bytes ≤ maxBytes
  /-- A bound below zero holds nothing. -/
  empty : maxEntries < 0 ∨ maxBytes < 0 → (after maxEntries maxBytes (ops ++ [op])).entries.entries = []
  recent : ∀ {key other : κ},
    (key ∈ (after maxEntries maxBytes ops).entries.keys ∨ ∃ outputs, op = .put key outputs ∧ op.Uses maxBytes key) →
      key ∉ (after maxEntries maxBytes (ops ++ [op])).entries.keys →
        other ∈ (after maxEntries maxBytes (ops ++ [op])).entries.keys → UsedSince maxBytes (ops ++ [op]) other key
  fewest : ∀ {key : κ} {outputs payload : Dict String Tensor}, op = .put key outputs →
    freezeOutputs outputs = .ok payload → (payloadBytes payload : Int) ≤ maxBytes →
      ∃ count, Evicts maxEntries maxBytes ((after maxEntries maxBytes ops).entered key payload)
        (after maxEntries maxBytes (ops ++ [op])).entries.entries count

/-- **The cache keeps the most recently used entries.** -/
theorem keeps_recent (maxEntries maxBytes : Int) (ops : List (Op κ)) (op : Op κ) : Keeps maxEntries maxBytes ops op where
  bytes := (sound_after maxEntries maxBytes (ops ++ [op])).accounted.bytes
  sizes key := by
    have hsizes := (sound_after maxEntries maxBytes (ops ++ [op])).accounted.sizes key
    rw [← Dict.contains_iff, ← Dict.contains_iff, Dict.contains, Dict.contains, hsizes, Option.isSome_map]
  entriesBound hpos := by
    rcases (sound_after maxEntries maxBytes (ops ++ [op])).within with hnil | hfits
    · rw [Dict.size, hnil]
      exact hpos
    · exact hfits.1
  bytesBound hpos := by
    rw [(sound_after maxEntries maxBytes (ops ++ [op])).accounted.bytes]
    rcases (sound_after maxEntries maxBytes (ops ++ [op])).within with hnil | hfits
    · rw [hnil]
      exact hpos
    · exact hfits.2
  empty hneg := by
    refine (sound_after maxEntries maxBytes (ops ++ [op])).within.resolve_right ?_
    rintro ⟨hlength, hbytes⟩
    omega
  recent {key other} hkey hgone hother := by
    have hs := sound_after maxEntries maxBytes ops
    rw [after_snoc] at hgone hother
    cases op with
    | get k =>
      rcases hkey with hkey | ⟨outputs, hput, -⟩
      · exact absurd (((get_spec hs k).2 key).mpr hkey) hgone
      · cases hput
    | put k outputs =>
      by_cases huse : (Op.put k outputs).Uses maxBytes k
      · obtain ⟨-, payload, hpayload, hbytes⟩ := huse
        obtain ⟨-, count, hevicts⟩ := put_spec hs hpayload hbytes
        have hordered := hs.ordered.entered (.put k outputs) ⟨rfl, payload, hpayload, hbytes⟩ payload
        refine hevicts.recent hordered (mem_entered ?_) hgone hother
        rcases hkey with hkey | ⟨outputs', hput, -⟩
        · exact .inl hkey
        · cases hput
          exact .inr rfl
      · rw [apply_put_unused (by rw [hs.bytesBound]; exact huse)] at hgone
        rcases hkey with hkey | ⟨outputs', hput, hused⟩
        · exact absurd hkey hgone
        · cases hput
          exact absurd hused huse
    | clear => cases hother
  fewest hput hpayload hbytes := by
    rw [hput, after_snoc]
    exact (put_spec (sound_after maxEntries maxBytes ops) hpayload hbytes).2

/-- No count is below a negative bound. -/
theorem negative_bound : ¬(((after (-1) 10 [.put "crop" .empty] : LruResponseCache String).entries.size : Int) ≤ -1) := by
  decide

end LruResponseCache

end ShipInfer.Engine.Cache
