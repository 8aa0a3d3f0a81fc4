import ShipInfer.Detect.Decode

/-!
# Where the two planes keep the same detections

The Python plane ranks what it keeps and clamps it to the frame; the C++ plane
takes the first rows it meets as they are, and knows no count. They agree on an
output whose first rows already are the ranking, lie inside the frame, and are
rows the Python plane reads.
-/

namespace ShipInfer.Detect

section
variable {σ : Type} {raw : List (RawRow σ)}

theorem map_row_numbered (raw : List (RawRow σ)) : (numbered raw).map Row.row = List.range raw.length := by
  simp [numbered, Function.comp_def, List.zipIdx_map_snd, List.range_eq_range']

theorem numbered_ordered (raw : List (RawRow σ)) : (numbered raw).Pairwise fun a b => a.row < b.row := by
  have hlt : ((numbered raw).map Row.row).Pairwise (· < ·) := map_row_numbered raw ▸ List.pairwise_lt_range
  exact List.pairwise_map.mp hlt

theorem eq_of_row {a b : Row σ} (ha : a ∈ numbered raw) (hb : b ∈ numbered raw) (h : a.row = b.row) : a = b := by
  simp only [numbered, List.mem_map, Prod.exists] at ha hb
  obtain ⟨x, i, hx, rfl⟩ := ha
  obtain ⟨y, j, hy, rfl⟩ := hb
  obtain rfl : i = j := h
  have hxi := List.mem_zipIdx_iff_getElem?.mp hx
  have hyi := List.mem_zipIdx_iff_getElem?.mp hy
  simp only at hxi hyi
  rw [hxi] at hyi
  simp [Option.some.inj hyi]

/-- Detections of two lists of rows are the same when the rows and the boxes are. -/
theorem map_detection_eq_iff (f g : Box → Box) : ∀ {as bs : List (Row σ)}, (∀ a ∈ as, a ∈ numbered raw) →
    (∀ b ∈ bs, b ∈ numbered raw) →
    (as.map (fun r => r.detection (f r.box)) = bs.map (fun r => r.detection (g r.box)) ↔
      as = bs ∧ ∀ r ∈ bs, f r.box = g r.box)
  | [], [], _, _ => by simp
  | [], _ :: _, _, _ => by simp
  | _ :: _, [], _, _ => by simp
  | a :: as, b :: bs, ha, hb => by
    have ih := map_detection_eq_iff f g (fun x hx => ha x (List.mem_cons_of_mem a hx))
      (fun x hx => hb x (List.mem_cons_of_mem b hx))
    constructor
    · intro h
      obtain ⟨hhead, htail⟩ := List.cons.inj h
      obtain rfl : a = b := eq_of_row (ha a List.mem_cons_self) (hb b List.mem_cons_self) (congrArg Detection.row hhead)
      obtain ⟨rfl, hboxes⟩ := ih.mp htail
      refine ⟨rfl, fun r hr => ?_⟩
      rcases List.mem_cons.mp hr with rfl | hr
      · exact congrArg Detection.box hhead
      · exact hboxes r hr
    · rintro ⟨heq, hboxes⟩
      obtain ⟨rfl, rfl⟩ := List.cons.inj heq
      have htail := ih.mpr ⟨rfl, fun r hr => hboxes r (List.mem_cons_of_mem a hr)⟩
      simp only [List.map_cons, htail, hboxes a List.mem_cons_self]

theorem take_eq_filter_row (k : Nat) : ∀ {rows : List (Row σ)} {s n : Nat}, rows.map Row.row = List.range' s n →
    rows.take (k - s) = rows.filter fun r => r.row < k
  | [], _, _, _ => by simp
  | r :: rows, s, 0, h => by simp at h
  | r :: rows, s, n + 1, h => by
    rw [List.map_cons, List.range'_succ] at h
    obtain ⟨hrow, hrest⟩ := List.cons.inj h
    have ih := take_eq_filter_row k hrest
    by_cases hk : s < k
    · obtain ⟨m, hm⟩ : ∃ m, k - s = m + 1 := ⟨k - s - 1, by omega⟩
      have hm' : k - (s + 1) = m := by omega
      rw [hm'] at ih
      simp [hm, hrow, hk, ih]
    · have hs : k - s = 0 := by omega
      have hs' : k - (s + 1) = 0 := by omega
      rw [hs', List.take_zero] at ih
      simp [hs, hrow, hk, ← ih]

end

theorem take_filter_of_forall {α : Type*} {p : α → Bool} : ∀ {l : List α} {n : Nat}, (∀ a ∈ l.take n, p a) →
    (l.filter p).take n = l.take n
  | _, 0, _ => by simp
  | [], _ + 1, _ => by simp
  | a :: l, n + 1, h => by
    rw [List.take_succ_cons] at h ⊢
    have ha : p a := h a List.mem_cons_self
    simp [ha, take_filter_of_forall fun b hb => h b (List.mem_cons_of_mem a hb)]

/-- How many rows the Python plane reads. -/
def rowsRead (count : Option Int) (n : Nat) : Nat :=
  match count with
  | none => n
  | some c => (max 0 (min c n)).toNat

/-- Inside the frame, edges included. -/
def Box.Inside (geometry : Letterbox) (b : Box) : Prop :=
  (0 ≤ b.x1 ∧ b.x1 ≤ geometry.width) ∧ (0 ≤ b.y1 ∧ b.y1 ≤ geometry.height) ∧
    (0 ≤ b.x2 ∧ b.x2 ≤ geometry.width) ∧ 0 ≤ b.y2 ∧ b.y2 ≤ geometry.height

variable {σ : Type} [LinearOrder σ] (params : DecodeParams σ) (geometry : Letterbox) (count : Option Int)
  (raw : List (RawRow σ))

/-- The rows of a passing score among those the Python plane reads. -/
def passing : List (Row σ) :=
  (numbered raw).filter fun r => AtLeast params.scoreThreshold r ∧ r.row < rowsRead count raw.length

/-- The first rows not below the threshold, as many as the cap. -/
def firstRows : List (Row σ) :=
  ((numbered raw).filter fun r => ¬Below params.scoreThreshold r).take params.maxDetections

/-- The outputs the planes agree on. -/
structure Ranked : Prop where
  /-- No row of the first is NaN or past the count. -/
  read : ∀ r ∈ firstRows params raw, AtLeast params.scoreThreshold r ∧ r.row < rowsRead count raw.length
  /-- Each of the first has a greater score than all passing rows after it. -/
  leads : Leads (fun r : Row σ => r.score) params.maxDetections (passing params count raw)
  inside : ∀ r ∈ firstRows params raw, (toFrame geometry r.box).Inside geometry

variable {params geometry count raw}

theorem filter_truncate :
    ((truncate count (numbered raw)).filter fun r => AtLeast params.scoreThreshold r) = passing params count raw := by
  have htake : truncate count (numbered raw) = (numbered raw).filter fun r => r.row < rowsRead count raw.length := by
    have hlen : (numbered raw).length = raw.length := by simp [numbered]
    have hrow : (numbered raw).map Row.row = List.range' 0 raw.length :=
      (map_row_numbered raw).trans List.range_eq_range'
    have hall := take_eq_filter_row (rowsRead count raw.length) hrow
    rw [Nat.sub_zero] at hall
    rw [← hall]
    cases count with
    | none => simp [truncate, rowsRead, ← hlen]
    | some c => simp only [truncate, rowsRead, hlen]
  rw [htake, List.filter_filter, passing]
  congr 1
  funext r
  simp

theorem passing_eq_filter : passing params count raw =
    ((numbered raw).filter fun r => ¬Below params.scoreThreshold r).filter fun r =>
      AtLeast params.scoreThreshold r ∧ r.row < rowsRead count raw.length := by
  rw [List.filter_filter, passing]
  congr 1
  funext r
  simp only [AtLeast, Below]
  grind

theorem passing_ordered : (passing params count raw).Pairwise fun a b => a.row < b.row := (numbered_ordered raw).filter _

/-- What the cap and the sorts make of the passing rows. -/
theorem descending_keep (params : DecodeParams σ) (rows : List (Row σ)) (h : rows.Pairwise fun a b => a.row < b.row) :
    descending (fun r => r.score) (keep params rows) =
      (descending (fun r => r.score) (rows.filter fun r => AtLeast params.scoreThreshold r)).take params.maxDetections := by
  have hkept : (rows.filter fun r => AtLeast params.scoreThreshold r).Pairwise fun a b => a.row < b.row := h.filter _
  unfold keep
  dsimp only
  split
  · exact descending_ascending_take hkept _
  · rename_i hcap
    rw [List.take_of_length_le]
    rw [(descending_perm _ _).length_eq]
    exact not_lt.mp hcap

/-- The Python plane's detections: the passing rows ranked, up to the cap. -/
theorem found_eq : (decodeDetections params geometry count raw).found =
    ((descending (fun r => r.score) (passing params count raw)).take params.maxDetections).map fun r =>
      r.detection (clamp geometry (unletterbox geometry r.box)) := by
  have hordered : (truncate count (numbered raw)).Pairwise fun a b => a.row < b.row := by
    cases count with
    | none => exact numbered_ordered raw
    | some c => exact (numbered_ordered raw).sublist (List.take_sublist _ _)
  have hkeep := descending_keep params _ hordered
  rw [filter_truncate] at hkeep
  rw [← hkeep, decodeDetections]
  split
  · rename_i hlen
    have hnil : truncate count (numbered raw) = [] := List.length_eq_zero_iff.mp hlen
    simp [hnil, keep, descending, ascending]
  · dsimp only
    split
    · rename_i hlen
      simp [List.length_eq_zero_iff.mp hlen, descending, ascending]
    · rfl

theorem decodeLoop_eq (config : DetectConfig σ) (geometry : Letterbox) :
    ∀ (rows : List (Row σ)) (detections : List (Detection σ)), decodeLoop config geometry rows detections =
      detections ++ ((rows.filter fun r => ¬Below config.scoreThreshold r).take
        (config.maxObjects - detections.length)).map fun r => r.detection (toFrame geometry r.box)
  | [], detections => by simp [decodeLoop]
  | r :: rows, detections => by
    rw [decodeLoop]
    split
    · rename_i hroom
      split
      · rename_i hbelow
        simp [decodeLoop_eq config geometry rows detections, hbelow]
      · rename_i hkept
        obtain ⟨m, hm⟩ : ∃ m, config.maxObjects - detections.length = m + 1 :=
          ⟨config.maxObjects - detections.length - 1, by omega⟩
        have hm' : config.maxObjects - (detections.length + 1) = m := by omega
        simp [decodeLoop_eq config geometry rows, hkept, hm, hm']
    · rename_i hfull
      have hzero : config.maxObjects - detections.length = 0 := by omega
      simp [hzero]

/-- The C++ plane's detections: the first rows it does not skip. -/
theorem detectStage_eq : detectStage (detectConfig params) geometry raw =
    (firstRows params raw).map fun r => r.detection (toFrame geometry r.box) := by
  simp [detectStage, decodeLoop_eq, firstRows, detectConfig]

theorem unletterbox_eq (b : Box) : unletterbox geometry b = toFrame geometry b := by
  have hscale : geometry.scale ≠ 0 := geometry.scale_pos.ne'
  simp [unletterbox, toFrame, hscale, div_eq_mul_inv]

theorem clip_eq_iff (bound : Nat) (x : ℚ) : clip bound x = x ↔ 0 ≤ x ∧ x ≤ bound := by
  have hbound : (0 : ℚ) ≤ bound := Nat.cast_nonneg _
  unfold clip
  constructor
  · intro h
    rw [← h]
    exact ⟨le_min (le_max_right _ _) hbound, min_le_right _ _⟩
  · rintro ⟨hlow, hhigh⟩
    rw [max_eq_left hlow, min_eq_left hhigh]

theorem clamp_eq_iff (b : Box) : clamp geometry b = b ↔ b.Inside geometry := by
  simp only [clamp, Box.map, Box.Inside, ← clip_eq_iff]
  constructor
  · intro h
    exact ⟨congrArg Box.x1 h, congrArg Box.y1 h, congrArg Box.x2 h, congrArg Box.y2 h⟩
  · rintro ⟨h1, h2, h3, h4⟩
    rw [h1, h2, h3, h4]

/-- The two choices of rows agree when the first are read and lead. -/
theorem take_passing_eq_iff :
    (descending (fun r => r.score) (passing params count raw)).take params.maxDetections = firstRows params raw ↔
      (∀ r ∈ firstRows params raw, AtLeast params.scoreThreshold r ∧ r.row < rowsRead count raw.length) ∧
        Leads (fun r : Row σ => r.score) params.maxDetections (passing params count raw) := by
  have htake (hread : ∀ r ∈ firstRows params raw, AtLeast params.scoreThreshold r ∧ r.row < rowsRead count raw.length) :
      (passing params count raw).take params.maxDetections = firstRows params raw := by
    rw [passing_eq_filter]
    exact take_filter_of_forall fun r hr => decide_eq_true (hread r hr)
  constructor
  · intro h
    have hread : ∀ r ∈ firstRows params raw, AtLeast params.scoreThreshold r ∧ r.row < rowsRead count raw.length := by
      intro r hr
      have hmem : r ∈ passing params count raw := mem_descending.mp (List.mem_of_mem_take (h ▸ hr))
      simpa using (List.mem_filter.mp hmem).2
    exact ⟨hread, (take_descending_eq_iff _ passing_ordered).mp (h.trans (htake hread).symm)⟩
  · rintro ⟨hread, hleads⟩
    rw [(take_descending_eq_iff _ passing_ordered).mpr hleads, htake hread]

/-- The planes keep the same rows, in the same order and with the same boxes,
on the outputs that come ranked and on no others. -/
theorem decode_agrees_iff (params : DecodeParams σ) (geometry : Letterbox) (count : Option Int) (raw : List (RawRow σ)) :
    (decodeDetections params geometry count raw).found = detectStage (detectConfig params) geometry raw ↔
      Ranked params geometry count raw := by
  have hleft : ∀ r ∈ (descending (fun r => r.score) (passing params count raw)).take params.maxDetections,
      r ∈ numbered raw := fun r hr => List.mem_of_mem_filter (mem_descending.mp (List.mem_of_mem_take hr))
  have hright : ∀ r ∈ firstRows params raw, r ∈ numbered raw :=
    fun r hr => List.mem_of_mem_filter (List.mem_of_mem_take hr)
  rw [found_eq, detectStage_eq,
    map_detection_eq_iff (fun b => clamp geometry (unletterbox geometry b)) (toFrame geometry) hleft hright, take_passing_eq_iff]
  simp only [unletterbox_eq, clamp_eq_iff]
  constructor
  · rintro ⟨⟨hread, hleads⟩, hinside⟩
    exact ⟨hread, hleads, hinside⟩
  · rintro ⟨hread, hleads, hinside⟩
    exact ⟨⟨hread, hleads⟩, hinside⟩

/-- A faint ship in the first row and a clear one in the second. -/
def faintFirst : List (RawRow ℚ) :=
  [{ box := ⟨0, 0, 10, 10⟩, score := ↑(3 / 10 : ℚ), cls := 8 }, { box := ⟨20, 20, 40, 40⟩, score := ↑(9 / 10 : ℚ), cls := 8 }]

def hd : Letterbox := { scale := 1 / 2, padX := 0, padY := 0, height := 720, width := 1280, scale_pos := by decide +kernel }

/-- Row 0 is the clear ship on one plane and the faint one on the other. -/
theorem faintFirst_disagrees :
    let params : DecodeParams ℚ := { scoreThreshold := 1 / 4 }
    (decodeDetections params hd none faintFirst).found.map Detection.row = [1, 0] ∧
      (detectStage (detectConfig params) hd faintFirst).map Detection.row = [0, 1] ∧
      (decodeDetections params hd none faintFirst).found ≠ detectStage (detectConfig params) hd faintFirst := by
  decide +kernel

end ShipInfer.Detect
