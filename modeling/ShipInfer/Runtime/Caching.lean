import Mathlib.Algebra.BigOperators.Group.List.Basic
import Mathlib.Algebra.Order.Ring.Int
import ShipInfer.Lib.Dict
import ShipInfer.Lib.Machine

/-!
# The caching allocator

`CustomCachingAllocator` of `runtime/memory/custom/caching` with the buffers it
hands out, `Buffer` of `runtime/memory/base`. A cached block is handed out again
as the same buffer with its mark cleared, so a buffer's mark and owner belong to
whoever holds it now, and not to whoever freed it before.
-/

namespace ShipInfer.Runtime

/-- `align_up` -/
def alignUp (nbytes granularity : Int) : Int :=
  if granularity ≤ 1 then nbytes else -(-nbytes / granularity) * granularity

inductive Owner
  | cache
  | inner
  deriving DecidableEq

structure CachingAllocator (β : Type*) where
  granularity : Int := 256
  maxPerBucket : Int := 8
  /-- The cached buffers by size; the one freed last is the last of its bucket. -/
  free : Dict Int (List β) := .empty
  hits : Nat := 0
  misses : Nat := 0
  returned : Nat := 0
  cachedBytes : Int := 0

/-- A caching allocator over an inner one, the buffers of both, and the books of
the inner allocator and of the holders. -/
structure Memory (β η : Type*) where
  cache : CachingAllocator β := {}
  freed : β → Bool := fun _ => false
  owner : β → Owner := fun _ => .inner
  /-- What the inner allocator handed out, and what it got back. -/
  given : List β := []
  givenBack : List β := []
  /-- What each holder ever got, and what it got and has not freed since. -/
  handed : List (η × β) := []
  held : List (η × β) := []

/-- A call, with the buffer the inner allocator hands out if it is asked; without one
it is out of memory. -/
inductive MemoryCall (β η : Type*)
  | allocate (holder : η) (nbytes : Int) (answer : Option β)
  | free (holder : η) (buffer : β)
  | close
  deriving DecidableEq

variable {β η : Type*}

namespace CachingAllocator

/-- `CustomCachingAllocator.__init__` -/
def new (granularity maxBlocksPerBucket : Int) : CachingAllocator β :=
  { granularity := max 1 granularity, maxPerBucket := max 0 maxBlocksPerBucket }

def bucket (c : CachingAllocator β) (size : Int) : List β := (c.free.get? size).getD []

/-- The cached buffers, bucket by bucket. -/
def cached (c : CachingAllocator β) : List β := c.free.values.flatten

/-- The cached buffers when one leaves its bucket. -/
theorem cached_pop {c : CachingAllocator β} {size : Int} {b : β} (h : (c.bucket size).getLast? = some b) :
    c.cached.Perm (b :: (c.free.set size (c.bucket size).dropLast).values.flatten) := by
  have hwhole := Dict.flatten_perm c.free size
  have hrest := Dict.flatten_set_perm c.free size (c.bucket size).dropLast
  refine hwhole.trans ?_
  rw [show (c.free.get? size).getD [] = (c.bucket size).dropLast ++ [b] from (List.dropLast_append_getLast? b h).symm]
  refine (List.Perm.append_right _ (List.perm_append_singleton b _)).trans ?_
  exact (hrest.symm.cons b)

/-- The cached buffers when one joins its bucket. -/
theorem cached_push (c : CachingAllocator β) (size : Int) (b : β) :
    (c.free.set size (c.bucket size ++ [b])).values.flatten.Perm (b :: c.cached) := by
  have hwhole := Dict.flatten_perm c.free size
  refine (Dict.flatten_set_perm c.free size _).trans ?_
  refine (List.Perm.append_right _ (List.perm_append_singleton b _)).trans ?_
  exact hwhole.symm.cons b

/-- A bucket looked up is not changed by it. -/
theorem cached_touch (c : CachingAllocator β) (size : Int) :
    (c.free.set size (c.bucket size)).values.flatten.Perm c.cached :=
  (Dict.flatten_set_perm c.free size _).trans (Dict.flatten_perm c.free size).symm

theorem mem_bucket {c : CachingAllocator β} {size : Int} {b : β} (h : b ∈ c.bucket size) :
    ∃ bucket, (size, bucket) ∈ c.free.entries ∧ b ∈ bucket ∧ bucket = c.bucket size := by
  unfold CachingAllocator.bucket at h ⊢
  cases hget : c.free.get? size with
  | none => simp [hget] at h
  | some bucket => exact ⟨bucket, Dict.get?_eq_some_iff.mp hget, by simpa [hget] using h, rfl⟩

end CachingAllocator

variable [DecidableEq β] [DecidableEq η]

namespace Memory

open Function (update)

/-- `CustomCachingAllocator.allocate`, and who gets the buffer. -/
def allocate (m : Memory β η) (holder : η) (nbytes : Int) (answer : Option β) : Memory β η × Option β :=
  let size := alignUp nbytes m.cache.granularity
  match (m.cache.bucket size).getLast? with
  | some buffer =>
    -- `_revive`
    ({ m with
        cache := { m.cache with
          free := m.cache.free.set size (m.cache.bucket size).dropLast
          hits := m.cache.hits + 1
          cachedBytes := m.cache.cachedBytes - size }
        freed := update m.freed buffer false
        owner := update m.owner buffer .cache
        handed := (holder, buffer) :: m.handed
        held := (holder, buffer) :: m.held }, some buffer)
  | none =>
    let missed := { m.cache with misses := m.cache.misses + 1 }
    match answer with
    | none => ({ m with cache := missed }, none)
    | some buffer =>
      ({ m with
          cache := missed
          freed := update m.freed buffer false
          owner := update m.owner buffer .cache
          given := buffer :: m.given
          handed := (holder, buffer) :: m.handed
          held := (holder, buffer) :: m.held }, some buffer)

/-- `CustomCachingAllocator.deallocate` -/
def deallocate (nbytes : β → Int) (m : Memory β η) (buffer : β) : Memory β η :=
  let size := nbytes buffer
  if ((m.cache.bucket size).length : Int) < m.cache.maxPerBucket then
    { m with
      cache := { m.cache with
        free := m.cache.free.set size (m.cache.bucket size ++ [buffer])
        returned := m.cache.returned + 1
        cachedBytes := m.cache.cachedBytes + size } }
  else
    { m with
      cache := { m.cache with free := m.cache.free.set size (m.cache.bucket size) }
      owner := update m.owner buffer .inner
      givenBack := buffer :: m.givenBack }

/-- `Buffer.free` -/
def free (nbytes : β → Int) (m : Memory β η) (buffer : β) : Memory β η :=
  if m.freed buffer then m
  else
    let marked := { m with freed := update m.freed buffer true }
    match m.owner buffer with
    | .cache => marked.deallocate nbytes buffer
    | .inner => { marked with givenBack := buffer :: m.givenBack }

/-- `CustomCachingAllocator.close` -/
def close (m : Memory β η) : Memory β η :=
  { m with
    cache := { m.cache with free := .empty, cachedBytes := 0 }
    owner := fun b => if b ∈ m.cache.cached then .inner else m.owner b
    givenBack := m.cache.cached ++ m.givenBack }

/-- A call, and the buffer it hands out. -/
def step (nbytes : β → Int) (m : Memory β η) : MemoryCall β η → Memory β η × Option β
  | .allocate holder n answer => m.allocate holder n answer
  | .free holder buffer => ({ m.free nbytes buffer with held := m.held.erase (holder, buffer) }, none)
  | .close => (m.close, none)

/-! ## What is promised -/

/-- The blocks that are held. -/
def inUse (m : Memory β η) : List β := m.held.map Prod.snd

/-- No block has two holders; every block the inner allocator handed out is held,
cached once in the bucket of its size, or back once; the count is that of the cached. -/
structure OneHolder (nbytes : β → Int) (m : Memory β η) : Prop where
  apart : (m.inUse ++ m.cache.cached).Nodup
  accounted : m.given.Perm (m.givenBack ++ (m.inUse ++ m.cache.cached))
  sized : ∀ size bucket, (size, bucket) ∈ m.cache.free.entries → ∀ b ∈ bucket, nbytes b = size
  counted : m.cache.cachedBytes = (m.cache.cached.map nbytes).sum

/-- The inner allocator hands out no live block, and a holder frees what it got. -/
def Valid (m : Memory β η) : MemoryCall β η → Prop
  | .allocate _ _ answer => ∀ b ∈ answer, m.given.count b ≤ m.givenBack.count b
  | .free holder buffer => (holder, buffer) ∈ m.handed
  | .close => True

/-- A buffer is freed by its holder, or while it is marked freed. -/
def Held (m : Memory β η) : MemoryCall β η → Prop
  | .free holder buffer => (holder, buffer) ∈ m.held ∨ m.freed buffer = true
  | _ => True

instance (m : Memory β η) : ∀ c, Decidable (m.Valid c)
  | .allocate _ _ none => .isTrue (by simp [Valid])
  | .allocate _ _ (some b) => decidable_of_iff (m.given.count b ≤ m.givenBack.count b) (by simp [Valid])
  | .free .. => inferInstanceAs (Decidable (_ ∈ _))
  | .close => .isTrue trivial

instance (m : Memory β η) : ∀ c, Decidable (m.Held c)
  | .allocate .. => .isTrue trivial
  | .free .. => inferInstanceAs (Decidable (_ ∨ _))
  | .close => .isTrue trivial

/-! ## One step -/

/-- What is known of the marks besides: a held buffer is unmarked and the cache's, and
one its holders gave up is marked. -/
structure Marked (m : Memory β η) : Prop where
  held : ∀ b ∈ m.inUse, m.freed b = false ∧ m.owner b = .cache
  given : ∀ p ∈ m.handed, p.2 ∉ m.inUse → m.freed p.2 = true

section
variable {nbytes : β → Int} {m : Memory β η}

omit [DecidableEq β] [DecidableEq η] in
theorem OneHolder.nbytes_bucket (h : OneHolder nbytes m) {size : Int} {b : β} (hb : b ∈ m.cache.bucket size) :
    nbytes b = size := by
  obtain ⟨bucket, hmem, hin, -⟩ := CachingAllocator.mem_bucket hb
  exact h.sized size bucket hmem b hin

omit [DecidableEq β] [DecidableEq η] in
theorem OneHolder.sized_set (h : OneHolder nbytes m) {size : Int} {l : List β} (hl : ∀ b ∈ l, nbytes b = size) :
    ∀ s bucket, (s, bucket) ∈ (m.cache.free.set size l).entries → ∀ b ∈ bucket, nbytes b = s := by
  intro s bucket hmem
  rcases Dict.mem_set_entries.mp hmem with heq | ⟨hold, -⟩
  · cases heq
    exact hl
  · exact h.sized s bucket hold

omit [DecidableEq η] in
/-- What the inner allocator may hand out is neither held nor cached. -/
theorem OneHolder.fresh (h : OneHolder nbytes m) {b : β} (hb : m.given.count b ≤ m.givenBack.count b) :
    b ∉ m.inUse ++ m.cache.cached := by
  intro hmem
  have hcount := h.accounted.count_eq b
  rw [List.count_append] at hcount
  have hpos := List.count_pos_iff.mpr hmem
  omega

omit [DecidableEq η] in
theorem allocate_keeps (h : OneHolder nbytes m) (hmark : Marked m) {holder : η} {n : Int} {answer : Option β}
    (hvalid : m.Valid (.allocate holder n answer)) :
    OneHolder nbytes (m.allocate holder n answer).1 ∧ Marked (m.allocate holder n answer).1 := by
  -- a buffer that nobody has gets a holder
  have hmarked : ∀ b, b ∉ m.inUse → ∀ m' : Memory β η, m'.freed = Function.update m.freed b false →
      m'.owner = Function.update m.owner b .cache → m'.handed = (holder, b) :: m.handed →
        m'.held = (holder, b) :: m.held → Marked m' := by
    intro b hb m' hfreed howner hhanded hheld
    have huse : m'.inUse = b :: m.inUse := by simp [inUse, hheld]
    constructor
    · intro a ha
      rw [huse] at ha
      rw [hfreed, howner]
      by_cases hab : a = b
      · simp [hab]
      · have hold : a ∈ m.inUse := by simpa [hab] using ha
        simpa [Function.update, hab] using hmark.held a hold
    · intro p hp hnot
      rw [huse, List.mem_cons, not_or] at hnot
      rw [hhanded, List.mem_cons] at hp
      rcases hp with rfl | hp
      · exact absurd rfl hnot.1
      · rw [hfreed]
        simpa [Function.update, hnot.1] using hmark.given p hp hnot.2
  unfold allocate
  dsimp only
  cases hlast : (m.cache.bucket (alignUp n m.cache.granularity)).getLast? with
  | some b =>
    have hpop := CachingAllocator.cached_pop hlast
    have hin : b ∈ m.cache.bucket (alignUp n m.cache.granularity) := List.mem_of_getLast? hlast
    have hsize := h.nbytes_bucket hin
    have hwhole : (m.inUse ++ m.cache.cached).Perm
        (b :: (m.inUse ++ (m.cache.free.set (alignUp n m.cache.granularity)
          (m.cache.bucket (alignUp n m.cache.granularity)).dropLast).values.flatten)) :=
      (hpop.append_left _).trans List.perm_middle
    have hnodup := hwhole.nodup_iff.mp h.apart
    refine ⟨⟨hnodup, ?_, ?_, ?_⟩, ?_⟩
    · exact h.accounted.trans (hwhole.append_left _)
    · apply h.sized_set
      intro a ha
      exact h.nbytes_bucket (List.dropLast_subset _ ha)
    · have hsum := (hpop.map nbytes).sum_eq
      rw [List.map_cons, List.sum_cons, hsize] at hsum
      show m.cache.cachedBytes - _ = _
      rw [h.counted, hsum]
      exact add_sub_cancel_left _ _
    · refine hmarked b ?_ _ rfl rfl rfl rfl
      intro hb
      exact (List.nodup_cons.mp hnodup).1 (List.mem_append_left _ hb)
  | none =>
    cases answer with
    | none => exact ⟨⟨h.apart, h.accounted, h.sized, h.counted⟩, ⟨hmark.held, hmark.given⟩⟩
    | some b =>
      have hfresh := h.fresh (hvalid b rfl)
      refine ⟨⟨List.nodup_cons.mpr ⟨hfresh, h.apart⟩, ?_, h.sized, h.counted⟩, ?_⟩
      · exact (h.accounted.cons b).trans List.perm_middle.symm
      · exact hmarked b (fun hb => hfresh (List.mem_append_left _ hb)) _ rfl rfl rfl rfl

theorem inUse_erase {holder : η} {b : β} (h : (holder, b) ∈ m.held) :
    m.inUse.Perm (b :: (m.held.erase (holder, b)).map Prod.snd) :=
  (List.perm_cons_erase h).map Prod.snd

omit [DecidableEq η] in
theorem free_held (hmark : Marked m) {holder : η} {b : β} (h : (holder, b) ∈ m.held) :
    m.free nbytes b = ({ m with freed := Function.update m.freed b true } : Memory β η).deallocate nbytes b := by
  obtain ⟨hfreed, howner⟩ := hmark.held b (List.mem_map_of_mem h)
  unfold free
  simp [hfreed, howner]

theorem free_keeps (h : OneHolder nbytes m) (hmark : Marked m) {holder : η} {b : β} (hheld : (holder, b) ∈ m.held) :
    OneHolder nbytes (m.step nbytes (.free holder b)).1 ∧ Marked (m.step nbytes (.free holder b)).1 := by
  have huse := inUse_erase hheld
  have hwhole : (m.inUse ++ m.cache.cached).Perm (b :: ((m.held.erase (holder, b)).map Prod.snd ++ m.cache.cached)) :=
    huse.append_right _
  have hnodup := hwhole.nodup_iff.mp h.apart
  have hb : b ∉ (m.held.erase (holder, b)).map Prod.snd := fun hmem =>
    (List.nodup_cons.mp hnodup).1 (List.mem_append_left _ hmem)
  -- the marks, whatever becomes of the buffer
  have hmarked : ∀ m' : Memory β η, m'.freed = Function.update m.freed b true →
      (∀ a, a ≠ b → m'.owner a = m.owner a) → m'.handed = m.handed → m'.held = m.held.erase (holder, b) → Marked m' := by
    intro m' hfreed howner hhanded hheld'
    constructor
    · intro a ha
      rw [inUse, hheld'] at ha
      have hab : a ≠ b := by
        rintro rfl
        exact hb ha
      rw [hfreed, howner a hab]
      simpa [Function.update, hab] using hmark.held a (huse.mem_iff.mpr (List.mem_cons_of_mem _ ha))
    · intro p hp hnot
      rw [hhanded] at hp
      rw [inUse, hheld'] at hnot
      rw [hfreed]
      by_cases hpb : p.2 = b
      · simp [hpb]
      · have hold : p.2 ∉ m.inUse := by
          intro hmem
          rcases List.mem_cons.mp (huse.mem_iff.mp hmem) with heq | hin
          · exact hpb heq
          · exact hnot hin
        simpa [Function.update, hpb] using hmark.given p hp hold
  show OneHolder nbytes { m.free nbytes b with held := _ } ∧ Marked { m.free nbytes b with held := _ }
  rw [free_held hmark hheld]
  unfold deallocate
  dsimp only
  split
  · have hpush := CachingAllocator.cached_push m.cache (nbytes b) b
    have hmoved : (b :: ((m.held.erase (holder, b)).map Prod.snd ++ m.cache.cached)).Perm
        ((m.held.erase (holder, b)).map Prod.snd ++
          (m.cache.free.set (nbytes b) (m.cache.bucket (nbytes b) ++ [b])).values.flatten) :=
      List.perm_middle.symm.trans (hpush.symm.append_left _)
    refine ⟨⟨hmoved.nodup_iff.mp hnodup, ?_, ?_, ?_⟩, hmarked _ rfl (fun _ _ => rfl) rfl rfl⟩
    · exact h.accounted.trans ((hwhole.trans hmoved).append_left _)
    · apply h.sized_set
      intro a ha
      rcases List.mem_append.mp ha with ha | ha
      · exact h.nbytes_bucket ha
      · rw [List.mem_singleton.mp ha]
    · have hsum := (hpush.map nbytes).sum_eq
      rw [List.map_cons, List.sum_cons] at hsum
      show m.cache.cachedBytes + nbytes b = _
      rw [h.counted, add_comm]
      exact hsum.symm
  · have htouch := CachingAllocator.cached_touch m.cache (nbytes b)
    have hrest : ((m.held.erase (holder, b)).map Prod.snd ++ m.cache.cached).Perm
        ((m.held.erase (holder, b)).map Prod.snd ++
          (m.cache.free.set (nbytes b) (m.cache.bucket (nbytes b))).values.flatten) := htouch.symm.append_left _
    refine ⟨⟨hrest.nodup_iff.mp (List.nodup_cons.mp hnodup).2, ?_, ?_, ?_⟩, hmarked _ rfl ?_ rfl rfl⟩
    · refine h.accounted.trans ((hwhole.append_left _).trans ?_)
      exact List.perm_middle.trans ((hrest.append_left _).cons b)
    · apply h.sized_set
      intro a ha
      exact h.nbytes_bucket ha
    · show m.cache.cachedBytes = _
      rw [h.counted]
      exact (htouch.map nbytes).sum_eq.symm
    · intro a hab
      exact Function.update_of_ne hab _ _

/-- A free of a block that another holds takes the block from that holder. -/
theorem free_breaks (h : OneHolder nbytes m) (hmark : Marked m) {holder : η} {b : β} (hgot : (holder, b) ∈ m.handed)
    (hnot : (holder, b) ∉ m.held) (hfreed : m.freed b ≠ true) :
    ¬OneHolder nbytes (m.step nbytes (.free holder b)).1 := by
  intro hnext
  have huse : b ∈ m.inUse := by
    by_contra hmem
    exact hfreed (hmark.given _ hgot hmem)
  obtain ⟨hunmarked, howner⟩ := hmark.held b huse
  have hbefore := h.accounted.count_eq b
  have hafter := hnext.accounted.count_eq b
  have hstep : (m.step nbytes (.free holder b)).1 =
      { ({ m with freed := Function.update m.freed b true } : Memory β η).deallocate nbytes b with held := m.held } := by
    simp only [step, free, hunmarked, howner, List.erase_of_not_mem hnot]
    rfl
  rw [hstep] at hafter
  unfold deallocate at hafter
  dsimp only at hafter
  split at hafter
  · have hpush := (CachingAllocator.cached_push m.cache (nbytes b) b).count_eq b
    rw [List.count_cons_self] at hpush
    simp only [List.count_append, CachingAllocator.cached, inUse] at hbefore hafter hpush
    omega
  · have htouch := (CachingAllocator.cached_touch m.cache (nbytes b)).count_eq b
    simp only [List.count_append, List.count_cons_self, CachingAllocator.cached, inUse] at hbefore hafter htouch
    omega

omit [DecidableEq η] in
theorem close_keeps (h : OneHolder nbytes m) (hmark : Marked m) : OneHolder nbytes m.close ∧ Marked m.close := by
  have hnone : m.close.cache.cached = [] := rfl
  have hin : m.close.inUse = m.inUse := rfl
  refine ⟨⟨?_, ?_, ?_, ?_⟩, ⟨?_, hmark.given⟩⟩
  · rw [hnone, hin, List.append_nil]
    exact (List.nodup_append.mp h.apart).1
  · rw [hnone, hin, List.append_nil]
    refine h.accounted.trans ?_
    show (m.givenBack ++ (m.inUse ++ m.cache.cached)).Perm ((m.cache.cached ++ m.givenBack) ++ m.inUse)
    refine (List.perm_append_comm.append_left _).trans ?_
    rw [← List.append_assoc]
    exact List.perm_append_comm.append_right _
  · intro s bucket hmem
    exact (List.not_mem_nil hmem).elim
  · rfl
  · intro a ha
    obtain ⟨hfreed, howner⟩ := hmark.held a ha
    refine ⟨hfreed, ?_⟩
    have hnot : a ∉ m.cache.cached := fun hc => (List.nodup_append.mp h.apart).2.2 a ha a hc rfl
    show (if a ∈ m.cache.cached then Owner.inner else m.owner a) = .cache
    rw [if_neg hnot, howner]

end

/-! ## Runs -/

/-- A new allocator, before its first call. -/
def new (granularity maxBlocksPerBucket : Int) : Memory β η := { cache := .new granularity maxBlocksPerBucket }

omit [DecidableEq β] [DecidableEq η] in
theorem oneHolder_new (nbytes : β → Int) (granularity maxBlocksPerBucket : Int) :
    OneHolder nbytes (new granularity maxBlocksPerBucket : Memory β η) ∧
      Marked (new granularity maxBlocksPerBucket : Memory β η) := by
  refine ⟨⟨List.nodup_nil, List.Perm.refl _, ?_, rfl⟩, ⟨?_, ?_⟩⟩
  · intro s bucket hmem
    exact (List.not_mem_nil hmem).elim
  · intro b hb
    exact (List.not_mem_nil hb).elim
  · intro p hp
    exact (List.not_mem_nil hp).elim

/-- **No block has two holders just along calls that free a held block or a marked one.** -/
theorem oneHolder_iff_held (nbytes : β → Int) (granularity maxBlocksPerBucket : Int) (calls : List (MemoryCall β η))
    (hvalid : Machine.Along (step nbytes) Valid (new granularity maxBlocksPerBucket) calls) :
    (∀ before, before <+: calls →
        OneHolder nbytes (Machine.exec (step nbytes) (new granularity maxBlocksPerBucket) before).1) ↔
      Machine.Along (step nbytes) Held (new granularity maxBlocksPerBucket) calls := by
  refine Machine.along_iff_while (Q := fun m => OneHolder nbytes m ∧ Marked m) (fun m h => h.1) ?_ calls
    (oneHolder_new nbytes granularity maxBlocksPerBucket) hvalid
  rintro m c ⟨h, hmark⟩ hv
  cases c with
  | allocate holder n answer => exact ⟨fun _ => trivial, fun _ => allocate_keeps h hmark hv⟩
  | close => exact ⟨fun _ => trivial, fun _ => close_keeps h hmark⟩
  | free holder b =>
    constructor
    · intro hnext
      by_contra hnot
      simp only [Held, not_or] at hnot
      exact free_breaks h hmark hv hnot.1 hnot.2 hnext
    · intro hheld
      by_cases hmem : (holder, b) ∈ m.held
      · exact free_keeps h hmark hmem
      · have hfreed : m.freed b = true := hheld.resolve_left hmem
        have hsame : (m.step nbytes (.free holder b)).1 = m := by
          simp [step, free, hfreed, List.erase_of_not_mem hmem]
        rw [hsame]
        exact ⟨h, hmark⟩

/-- The first holder frees its block a second time, the block being the second's by then. -/
def staleCalls : List (MemoryCall Nat String) :=
  [.allocate "reid" 256 (some 0), .free "reid" 0, .allocate "segment" 200 none, .free "reid" 0,
    .allocate "detect" 100 none]

theorem stale_free_shares : Machine.Along (step fun _ => 256) Valid (new 256 8) staleCalls ∧
    ¬∀ before, before <+: staleCalls → OneHolder (fun _ => 256) (Machine.exec (step fun _ => 256) (new 256 8) before).1 := by
  refine ⟨by decide +kernel, fun h => ?_⟩
  have hlast := (h staleCalls (List.prefix_refl _)).apart
  exact absurd hlast (by decide +kernel)

/-- A block freed twice before anybody else gets it, and an allocator closed over it. -/
def quietCalls : List (MemoryCall Nat String) :=
  [.allocate "reid" 256 (some 0), .free "reid" 0, .free "reid" 0, .allocate "segment" 200 none, .close,
    .free "segment" 0]

theorem quiet_one_holder :
    (∀ before, before <+: quietCalls →
        OneHolder (fun _ => 256) (Machine.exec (step fun _ => 256) (new 256 8) before).1) ↔
      Machine.Along (step fun _ => 256) Held (new 256 8) quietCalls :=
  oneHolder_iff_held (fun _ => 256) 256 8 quietCalls (by decide +kernel)

end Memory

end ShipInfer.Runtime
