import ShipInfer.Lib.Fold
import ShipInfer.Topology.Plan

/-!
# What an accepted plan holds

The words and the texts of an accepted plan are such as a line can say, its numbers are in
their ranges, and what may be named once is named once.
-/

namespace ShipInfer.Plan

open Lib

/-! ## What a line says -/

/-- A text that can be the rest of a line. -/
structure Phrase (cs : Text) : Prop where
  ne_nil : cs ≠ []
  trimmed : Trimmed cs
  unbroken : ∀ c ∈ cs, isBreak c = false
  unmarked : '#' ∉ cs

/-- A text that its words give back. -/
structure Spoken (cs : Text) : Prop where
  ne_nil : cs ≠ []
  tidy : Tidy cs
  unmarked : '#' ∉ cs

theorem spoken_unwords {ws : List Text} (hne : ws ≠ []) (h : ∀ w ∈ ws, Word w) : Spoken (unwords ws) :=
  ⟨(tidy_unwords h).2 hne, (tidy_unwords h).1, not_mem_intercalate (by decide) fun w hw => (h w hw).unmarked⟩

/-- The words of a line, and what follows the first two. -/
theorem words_said {raw verb : Text} {args : List Text} (hraw : ∀ c ∈ raw, isBreak c = false)
    (h : words (uncomment raw) = verb :: args) :
    (∀ w ∈ args, Word w) ∧ (2 ≤ args.length → Phrase (rest (uncomment raw))) := by
  have htrimmed := uncomment_trimmed raw
  have hall := word_of_mem_words htrimmed.1 (not_mem_uncomment raw)
  rw [h] at hall
  refine ⟨fun w hw => hall w (List.mem_cons_of_mem _ hw), fun htwo => ?_⟩
  have hsuffix : rest (uncomment raw) <:+ uncomment raw := (afterWord_suffix _).trans (afterWord_suffix _)
  refine ⟨?_, htrimmed.afterWord.afterWord, fun c hc => ?_, fun hc => not_mem_uncomment raw (hsuffix.mem hc)⟩
  · -- The words of the rest of the line are the arguments but the first.
    intro hnil
    have hline : uncomment raw ≠ [] := by
      intro hempty
      rw [hempty] at h
      cases h
    obtain ⟨w, hwords, -⟩ := words_afterWord hline htrimmed.1
    rw [h] at hwords
    have hargs := (List.cons.inj hwords).2
    have hafter : afterWord (uncomment raw) ≠ [] := by
      intro hempty
      rw [hempty] at hargs
      rw [hargs] at htwo
      simp at htwo
    obtain ⟨v, hwords', -⟩ := words_afterWord hafter htrimmed.afterWord.1
    have hnil' : afterWord (afterWord (uncomment raw)) = [] := hnil
    rw [hargs, hwords', hnil'] at htwo
    simp at htwo
  · exact hraw c ((uncommented_within raw).mem (hsuffix.mem hc))

/-! ## Nodes -/

def Counts (least value : Int) : Prop := least ≤ value ∧ value ≤ intMax

def Extent (extent : Int × Int) : Prop := Counts 1 extent.1 ∧ Counts 1 extent.2

def Int32 (value : Int) : Prop := -intMax - 1 ≤ value ∧ value ≤ intMax

theorem Counts.int32 {least value : Int} (h : Counts least value) (hleast : 0 ≤ least) : Int32 value := by
  obtain ⟨hlow, hhigh⟩ := h
  refine ⟨?_, hhigh⟩
  unfold intMax
  omega

theorem int_ok {text : Text} {value : Int} (h : int text = .ok value) : Int32 value := by
  unfold int at h
  split at h
  · cases h
  split at h
  · cases h
  split at h
  next hbound =>
    cases h
    exact hbound
  · cases h

/-- The labels of a selection: `-` alone is the one that selects nothing. -/
structure Labels (labels : List Text) : Prop where
  each : ∀ label ∈ labels, label ≠ [] ∧ Tidy label ∧ ',' ∉ label ∧ '#' ∉ label
  stated : labels ≠ [['-']]

structure PlanNode.Sound (node : PlanNode) : Prop where
  slot : Word node.slot
  kind : Word node.kind
  impl : Word node.impl
  model : ∀ w ∈ node.model, Word w
  classes : ∀ labels ∈ node.classes, Labels labels
  crop : ∀ extent ∈ node.crop, Extent extent
  letterbox : ∀ extent ∈ node.letterbox, Extent extent
  maxDetections : ∀ n ∈ node.maxDetections, Counts 1 n
  instances : ∀ n ∈ node.instances, Counts 1 n
  queueDelayUs : ∀ n ∈ node.queueDelayUs, Counts 0 n
  artefact : ∀ w ∈ node.artefact, Word w
  foldMask : ∀ x ∈ node.foldMask, 0 < x.value ∧ x.value < 1
  foldDetections : ∀ w ∈ node.foldDetections, Word w
  foldPrototypes : ∀ w ∈ node.foldPrototypes, Word w
  when : ∀ text ∈ node.when, Spoken text
  per : ∀ w ∈ node.per, Word w
  scope : ∀ w ∈ node.scope, Word w
  syncWindowMs : ∀ x ∈ node.syncWindowMs, 0 < x.value
  maxInstants : ∀ n ∈ node.maxInstants, Counts 1 n
  group : ∀ w ∈ node.group, Word w
  cameras : (∀ w ∈ node.cameras, Word w) ∧ node.cameras.Nodup
  minHits : ∀ n ∈ node.minHits, Counts 1 n
  minHeightFraction : ∀ x ∈ node.minHeightFraction, 0 ≤ x.value ∧ x.value < 1
  regressionReset : ∀ n ∈ node.regressionReset, Counts 0 n
  trackerOptions : ∀ option ∈ node.trackerOptions, Word option.1 ∧ Word option.2
  optionsSorted : node.trackerOptions.Pairwise fun a b => toLex a ≤ toLex b
  optionsOnce : (node.trackerOptions.map Prod.fst).Nodup
  algorithm : node.algorithm ≠ [] → Word node.algorithm

/-- An attribute keeps a node sound and leaves its slot. -/
def Keeps (attr : Attribute) : Prop :=
  ∀ (node : PlanNode) (args : List Text) (node' : PlanNode), (∀ w ∈ args, Word w) → attr node args = .ok node' →
    node.Sound → node'.Sound ∧ node'.slot = node.slot

theorem want1_ok {args : List Text} {form : String} {a : Text} (h : want1 args form = .ok a) : args = [a] := by
  unfold want1 at h
  split at h
  · cases h
    rfl
  · cases h

theorem want2_ok {args : List Text} {form : String} {a : Text × Text} (h : want2 args form = .ok a) : args = [a.1, a.2] := by
  unfold want2 at h
  split at h
  · cases h
    rfl
  · cases h

theorem want3_ok {args : List Text} {form : String} {a : Text × Text × Text} (h : want3 args form = .ok a) :
    args = [a.1, a.2.1, a.2.2] := by
  unfold want3 at h
  split at h
  · cases h
    rfl
  · cases h

section
variable {key form : String}

theorem wordAttr_keeps {set : PlanNode → Text → PlanNode}
    (hset : ∀ {node w}, PlanNode.Sound node → Word w → (set node w).Sound ∧ (set node w).slot = node.slot) :
    Keeps (wordAttr key set) := by
  intro node args node' hargs h hsound
  obtain ⟨w, hw, h⟩ := bind_ok.mp h
  cases h
  rw [want1_ok hw] at hargs
  exact hset hsound (hargs w List.mem_cons_self)

theorem countAttr_keeps {least : Int} {set : PlanNode → Int → PlanNode}
    (hset : ∀ {node n}, PlanNode.Sound node → Counts least n → (set node n).Sound ∧ (set node n).slot = node.slot) :
    Keeps (countAttr key form least set) := by
  intro node args node' _ h hsound
  obtain ⟨text, -, h⟩ := bind_ok.mp h
  obtain ⟨value, hvalue, h⟩ := bind_ok.mp h
  split at h
  · cases h
  next hleast =>
  cases h
  exact hset hsound ⟨not_lt.mp hleast, (int_ok hvalue).2⟩

theorem extentAttr_keeps {set : PlanNode → Int × Int → PlanNode}
    (hset : ∀ {node e}, PlanNode.Sound node → Extent e → (set node e).Sound ∧ (set node e).slot = node.slot) :
    Keeps (extentAttr key set) := by
  intro node args node' _ h hsound
  obtain ⟨extent, -, h⟩ := bind_ok.mp h
  obtain ⟨height, hheight, h⟩ := bind_ok.mp h
  obtain ⟨width, hwidth, h⟩ := bind_ok.mp h
  split at h
  · cases h
  next hpositive =>
  cases h
  exact hset hsound ⟨⟨by omega, (int_ok hheight).2⟩, by omega, (int_ok hwidth).2⟩

theorem finiteAttr_keeps {set : PlanNode → Double → PlanNode}
    (hset : ∀ {node x}, PlanNode.Sound node → (set node x).Sound ∧ (set node x).slot = node.slot) : Keeps (finiteAttr form set) := by
  intro node args node' _ h hsound
  obtain ⟨text, -, h⟩ := bind_ok.mp h
  split at h
  · cases h
    exact hset hsound
  · cases h

theorem rangeAttr_keeps {admits : Double → Bool} {set : PlanNode → Double → PlanNode}
    (hset : ∀ {node x}, PlanNode.Sound node → admits x = true → (set node x).Sound ∧ (set node x).slot = node.slot) :
    Keeps (rangeAttr key form admits set) := by
  intro node args node' _ h hsound
  obtain ⟨text, -, h⟩ := bind_ok.mp h
  split at h
  · cases h
  · cases h
  split at h
  next hadmits =>
    cases h
    exact hset hsound hadmits
  · cases h

end

theorem sortedPairs_perm {κ ν : Type*} [LinearOrder κ] [LinearOrder ν] (l : List (κ × ν)) : (sortedPairs l).Perm l :=
  List.mergeSort_perm l _

theorem sortedPairs_sorted {κ ν : Type*} [LinearOrder κ] [LinearOrder ν] (l : List (κ × ν)) :
    (sortedPairs l).Pairwise fun a b => toLex a ≤ toLex b := by
  have htrans : ∀ a b c : κ × ν, decide (toLex a ≤ toLex b) = true → decide (toLex b ≤ toLex c) = true →
      decide (toLex a ≤ toLex c) = true := by
    intro a b c hab hbc
    simp only [decide_eq_true_eq] at hab hbc ⊢
    exact hab.trans hbc
  have htotal : ∀ a b : κ × ν, (decide (toLex a ≤ toLex b) || decide (toLex b ≤ toLex a)) = true := by
    intro a b
    simp only [Bool.or_eq_true, decide_eq_true_eq]
    exact le_total _ _
  exact (List.pairwise_mergeSort htrans htotal l).imp fun h => of_decide_eq_true h

namespace Attr

theorem classes_keeps : Keeps classes := by
  intro node args node' hargs h hsound
  unfold classes at h
  split at h
  · cases h
  next hne =>
  dsimp only at h
  have hspoken := spoken_unwords hne hargs
  split at h
  · cases h
    refine ⟨{ hsound with classes := ?_ }, rfl⟩
    intro labels hlabels
    cases hlabels
    exact ⟨by simp, by simp⟩
  next hdash =>
  split at h
  · cases h
  next hempty =>
  cases h
  refine ⟨{ hsound with classes := ?_ }, rfl⟩
  intro labels hlabels
  cases hlabels
  refine ⟨fun label hlabel => ?_, fun hone => ?_⟩
  · obtain ⟨piece, hpiece, rfl⟩ := List.mem_map.mp hlabel
    obtain ⟨hinside, hcomma⟩ := infix_of_mem_splitOn hpiece
    refine ⟨fun hnil => hempty (hnil ▸ hlabel), hspoken.tidy.strip hinside, ?_, ?_⟩
    · exact fun hc => hcomma ((stripped_within piece).mem hc)
    · exact fun hc => hspoken.unmarked (hinside.mem ((stripped_within piece).mem hc))
  · -- A single label is the whole text.
    have hjoined : [','].intercalate ((unwords args).splitOn ',') = unwords args := List.intercalate_splitOn ','
    obtain ⟨piece, hpieces, hpiece⟩ := List.map_eq_singleton_iff.mp hone
    rw [hpieces] at hjoined
    have hwhole : piece = unwords args := by simpa [List.intercalate] using hjoined
    rw [hwhole, strip_of_trimmed hspoken.tidy.trimmed] at hpiece
    exact hdash hpiece

theorem when_keeps : Keeps when := by
  intro node args node' hargs h hsound
  unfold when at h
  split at h
  · cases h
  next hne =>
  cases h
  refine ⟨{ hsound with when := ?_ }, rfl⟩
  intro text htext
  cases htext
  exact spoken_unwords hne hargs

theorem camera_keeps : Keeps camera := by
  intro node args node' hargs h hsound
  obtain ⟨id, hid, h⟩ := bind_ok.mp h
  split at h
  · cases h
  next hnew =>
  cases h
  rw [want1_ok hid] at hargs
  have hword := hargs id List.mem_cons_self
  refine ⟨{ hsound with cameras := ⟨?_, ?_⟩ }, rfl⟩
  · intro w hw
    rcases List.mem_append.mp hw with hw | hw
    · exact hsound.cameras.1 w hw
    · exact List.mem_singleton.mp hw ▸ hword
  · exact List.nodup_append.mpr ⟨hsound.cameras.2, List.nodup_singleton id, by
      rintro a ha b hb rfl
      exact hnew (List.mem_singleton.mp hb ▸ ha)⟩

theorem trackerOption_keeps : Keeps trackerOption := by
  intro node args node' hargs h hsound
  obtain ⟨option, hoption, h⟩ := bind_ok.mp h
  split at h
  · cases h
  next hnew =>
  cases h
  rw [want2_ok hoption] at hargs
  have hwords : Word option.1 ∧ Word option.2 := ⟨hargs _ (by simp), hargs _ (by simp)⟩
  have hperm := sortedPairs_perm (node.trackerOptions ++ [option])
  refine ⟨{ hsound with
    trackerOptions := fun o ho => ?_
    optionsSorted := sortedPairs_sorted _
    optionsOnce := ?_ }, rfl⟩
  · rcases List.mem_append.mp (hperm.mem_iff.mp ho) with ho | ho
    · exact hsound.trackerOptions o ho
    · exact List.mem_singleton.mp ho ▸ hwords
  · rw [(hperm.map Prod.fst).nodup_iff, List.map_append]
    exact List.nodup_append.mpr ⟨hsound.optionsOnce, List.nodup_singleton option.1, by
      rintro a ha b hb rfl
      exact hnew (List.mem_singleton.mp hb ▸ ha)⟩

end Attr

theorem forall_some {α : Type*} {p : α → Prop} {a : α} (h : p a) : ∀ b ∈ some a, p b := by
  rintro b ⟨⟩
  exact h

theorem attributes_keep : ∀ entry ∈ attributes, Keeps entry.2 := by
  intro entry hentry
  simp only [attributes, List.mem_cons, List.not_mem_nil, or_false] at hentry
  rcases hentry with rfl | rfl | rfl | rfl | rfl | rfl | rfl | rfl | rfl | rfl | rfl | rfl | rfl | rfl | rfl | rfl | rfl | rfl |
    rfl | rfl | rfl | rfl | rfl | rfl | rfl
  · exact wordAttr_keeps fun h hw => ⟨{ h with model := forall_some hw }, rfl⟩
  · exact Attr.classes_keeps
  · dsimp only
    exact extentAttr_keeps fun h he => ⟨{ h with crop := forall_some he }, rfl⟩
  · dsimp only
    exact extentAttr_keeps fun h he => ⟨{ h with letterbox := forall_some he }, rfl⟩
  · exact finiteAttr_keeps fun h => ⟨{ h with }, rfl⟩
  · exact countAttr_keeps fun h hn => ⟨{ h with maxDetections := forall_some hn }, rfl⟩
  · exact wordAttr_keeps fun h hw => ⟨{ h with foldDetections := forall_some hw }, rfl⟩
  · exact wordAttr_keeps fun h hw => ⟨{ h with foldPrototypes := forall_some hw }, rfl⟩
  · exact finiteAttr_keeps fun h => ⟨{ h with }, rfl⟩
  · exact rangeAttr_keeps fun h hx => ⟨{ h with foldMask := forall_some (of_decide_eq_true hx) }, rfl⟩
  · exact countAttr_keeps fun h hn => ⟨{ h with instances := forall_some hn }, rfl⟩
  · exact countAttr_keeps fun h hn => ⟨{ h with queueDelayUs := forall_some hn }, rfl⟩
  · exact wordAttr_keeps fun h hw => ⟨{ h with artefact := forall_some hw }, rfl⟩
  · exact Attr.when_keeps
  · exact wordAttr_keeps fun h hw => ⟨{ h with per := forall_some hw }, rfl⟩
  · exact wordAttr_keeps fun h hw => ⟨{ h with scope := forall_some hw }, rfl⟩
  · exact rangeAttr_keeps fun h hx => ⟨{ h with syncWindowMs := forall_some (of_decide_eq_true hx) }, rfl⟩
  · exact countAttr_keeps fun h hn => ⟨{ h with maxInstants := forall_some hn }, rfl⟩
  · exact wordAttr_keeps fun h hw => ⟨{ h with group := forall_some hw }, rfl⟩
  · exact Attr.camera_keeps
  · exact countAttr_keeps fun h hn => ⟨{ h with minHits := forall_some hn }, rfl⟩
  · exact rangeAttr_keeps fun h hx => ⟨{ h with minHeightFraction := forall_some (of_decide_eq_true hx) }, rfl⟩
  · exact wordAttr_keeps fun h hw => ⟨{ h with algorithm := fun _ => hw }, rfl⟩
  · exact countAttr_keeps fun h hn => ⟨{ h with regressionReset := forall_some hn }, rfl⟩
  · exact Attr.trackerOption_keeps

/-! ## Lines -/

structure Draft.Sound (draft : Draft) : Prop where
  name : ∀ name ∈ draft.name, Phrase name
  version : draft.name ≠ none → draft.version = planVersion
  labels : ∀ p ∈ draft.labels.entries, Int32 p.1 ∧ Phrase p.2
  settings : ∀ p ∈ draft.settings.entries, ∃ bound ∈ settingBounds, bound.1.toList = p.1 ∧ Counts bound.2 p.2
  policy : draft.policy ≠ [] → Word draft.policy
  policyOptions : ∀ p ∈ draft.policyOptions.entries, draft.policy ≠ [] ∧ Word p.1 ∧ Word p.2
  nodes : ∀ node ∈ draft.nodes, node.Sound
  slots : (draft.nodes.map PlanNode.slot).Nodup
  edges : ∀ e ∈ draft.edges, Word e.1 ∧ Word e.2.1 ∧ Word e.2.2
  fields : ∀ p ∈ draft.fields.entries, Word p.1 ∧ p.2 ≠ [] ∧ ∀ w ∈ p.2, Word w

theorem sound_empty : Draft.Sound {} := by
  constructor <;> simp [Dict.empty]

theorem sound_declared {slot kind impl : Text} (hslot : Word slot) (hkind : Word kind) (himpl : Word impl) :
    PlanNode.Sound { slot, kind, impl } := by
  constructor <;> first | assumption | simp

/-- What all entries have and the new one has, all have. -/
theorem forall_set {κ ν : Type*} [DecidableEq κ] {d : Dict κ ν} {k : κ} {v : ν} {p : κ × ν → Prop} (hd : ∀ e ∈ d.entries, p e)
    (hnew : p (k, v)) : ∀ e ∈ (d.set k v).entries, p e := by
  intro e he
  rcases Dict.mem_set_entries.mp he with rfl | ⟨he, -⟩
  · exact hnew
  · exact hd e he

theorem forall_append_singleton {α : Type*} {l : List α} {a : α} {p : α → Prop} (hl : ∀ b ∈ l, p b) (ha : p a) :
    ∀ b ∈ l ++ [a], p b := by
  intro b hb
  rcases List.mem_append.mp hb with hb | hb
  · exact hl b hb
  · exact List.mem_singleton.mp hb ▸ ha

section
variable {draft draft' : Draft} {args : List Text}

theorem header_sound {line : Text} (hline : 2 ≤ args.length → Phrase (rest line)) (h : header draft line args = .ok draft')
    (hs : draft.Sound) : draft'.Sound := by
  unfold header at h
  split at h
  · obtain ⟨version, -, h⟩ := bind_ok.mp h
    split at h
    · cases h
    next hversion =>
    cases h
    exact { hs with name := forall_some (hline (by simp)), version := fun _ => not_not.mp hversion }
  · cases h

theorem readSetting_sound (h : readSetting draft args = .ok draft') (hs : draft.Sound) : draft'.Sound := by
  obtain ⟨⟨key, text⟩, -, h⟩ := bind_ok.mp h
  dsimp only at h
  split at h
  · cases h
  next bound minimum hfind =>
  split at h
  · cases h
  obtain ⟨value, hvalue, h⟩ := bind_ok.mp h
  split at h
  · cases h
  next hminimum =>
  cases h
  have hkey : bound.toList = key := by simpa using List.find?_some hfind
  exact { hs with
    settings := forall_set hs.settings ⟨(bound, minimum), List.mem_of_find?_eq_some hfind, hkey, not_lt.mp hminimum, (int_ok hvalue).2⟩ }

theorem readPolicy_sound (hargs : ∀ w ∈ args, Word w) (h : readPolicy draft args = .ok draft') (hs : draft.Sound) :
    draft'.Sound := by
  obtain ⟨name, hname, h⟩ := bind_ok.mp h
  split at h
  · cases h
  next hfirst =>
  cases h
  rw [want1_ok hname] at hargs
  have hword := hargs name List.mem_cons_self
  exact { hs with
    policy := fun _ => hword
    policyOptions := fun p hp => ⟨hword.ne_nil, (hs.policyOptions p hp).2⟩ }

theorem readPolicyOption_sound (hargs : ∀ w ∈ args, Word w) (h : readPolicyOption draft args = .ok draft') (hs : draft.Sound) :
    draft'.Sound := by
  obtain ⟨⟨key, value⟩, hoption, h⟩ := bind_ok.mp h
  dsimp only at h
  split at h
  · cases h
  next hpolicy =>
  split at h
  · cases h
  cases h
  rw [want2_ok hoption] at hargs
  exact { hs with
    policyOptions := forall_set hs.policyOptions ⟨hpolicy, hargs _ (by simp), hargs _ (by simp)⟩ }

theorem readLabel_sound {line : Text} (hline : 2 ≤ args.length → Phrase (rest line)) (h : readLabel draft line args = .ok draft')
    (hs : draft.Sound) : draft'.Sound := by
  unfold readLabel at h
  split at h
  · obtain ⟨index, hindex, h⟩ := bind_ok.mp h
    split at h
    · cases h
    cases h
    exact { hs with labels := forall_set hs.labels ⟨int_ok hindex, hline (by simp)⟩ }
  · cases h

theorem readNode_sound (hargs : ∀ w ∈ args, Word w) (h : readNode draft args = .ok draft') (hs : draft.Sound) : draft'.Sound := by
  obtain ⟨⟨slot, kind, impl⟩, hnode, h⟩ := bind_ok.mp h
  dsimp only at h
  split at h
  · cases h
  next hnew =>
  cases h
  rw [want3_ok hnode] at hargs
  have hdeclared : PlanNode.Sound { slot, kind, impl } :=
    sound_declared (hargs _ (by simp)) (hargs _ (by simp)) (hargs _ (by simp))
  refine { hs with nodes := forall_append_singleton hs.nodes hdeclared, slots := ?_ }
  rw [List.map_append]
  exact List.nodup_append.mpr ⟨hs.slots, List.nodup_singleton slot, by
    rintro a ha b hb rfl
    have heq : a = slot := List.mem_singleton.mp hb
    exact hnew (heq ▸ ha)⟩

theorem readEdge_sound (hargs : ∀ w ∈ args, Word w) (h : readEdge draft args = .ok draft') (hs : draft.Sound) : draft'.Sound := by
  obtain ⟨edge, hedge, h⟩ := bind_ok.mp h
  cases h
  rw [want3_ok hedge] at hargs
  exact { hs with
    edges := forall_append_singleton hs.edges ⟨hargs _ (by simp), hargs _ (by simp), hargs _ (by simp)⟩ }

theorem readField_sound (hargs : ∀ w ∈ args, Word w) (h : readField draft args = .ok draft') (hs : draft.Sound) : draft'.Sound := by
  unfold readField at h
  split at h
  · split at h
    · cases h
    cases h
    exact { hs with
      fields := forall_set hs.fields
        ⟨hargs _ List.mem_cons_self, List.cons_ne_nil _ _, fun w hw => hargs w (List.mem_cons_of_mem _ hw)⟩ }
  · cases h

theorem readAttribute_sound {verb : Text} (hargs : ∀ w ∈ args, Word w) (h : readAttribute draft verb args = .ok draft')
    (hs : draft.Sound) : draft'.Sound := by
  unfold readAttribute at h
  split at h
  · cases h
  next attr hattr =>
  split at h
  · cases h
  next node hlast =>
  obtain ⟨node', hnode', h⟩ := bind_ok.mp h
  cases h
  obtain ⟨entry, hfind, rfl⟩ := Option.map_eq_some_iff.mp hattr
  have hsplit : draft.nodes = draft.nodes.dropLast ++ [node] := (List.dropLast_append_getLast? node hlast).symm
  obtain ⟨hsound, hslot⟩ := attributes_keep entry (List.mem_of_find?_eq_some hfind) node args node' hargs hnode'
    (hs.nodes node (List.mem_of_getLast? hlast))
  refine { hs with
    nodes := forall_append_singleton (fun n hn => hs.nodes n (List.mem_of_mem_dropLast hn)) hsound
    slots := ?_ }
  have hslots := hs.slots
  rw [hsplit, List.map_append, List.map_singleton] at hslots
  rw [List.map_append, List.map_singleton, hslot]
  exact hslots

theorem readLine_sound {raw : Text} (hraw : ∀ c ∈ raw, isBreak c = false) (h : readLine draft raw = .ok draft') (hs : draft.Sound) :
    draft'.Sound := by
  unfold readLine at h
  dsimp only at h
  split at h
  · cases h
    exact hs
  next verb args hwords =>
  obtain ⟨hargs, hline⟩ := words_said hraw hwords
  unfold readVerb at h
  by_cases hplan : verb = "plan".toList
  · rw [if_pos hplan] at h
    by_cases hname : draft.name ≠ none
    · rw [if_pos hname] at h
      cases h
    · rw [if_neg hname] at h
      exact header_sound hline h hs
  rw [if_neg hplan] at h
  by_cases hname : draft.name = none
  · rw [if_pos hname] at h
    cases h
  rw [if_neg hname] at h
  by_cases hsetting : verb = "setting".toList
  · rw [if_pos hsetting] at h
    exact readSetting_sound h hs
  rw [if_neg hsetting] at h
  by_cases hpolicy : verb = "policy".toList
  · rw [if_pos hpolicy] at h
    exact readPolicy_sound hargs h hs
  rw [if_neg hpolicy] at h
  by_cases hoption : verb = "policy_option".toList
  · rw [if_pos hoption] at h
    exact readPolicyOption_sound hargs h hs
  rw [if_neg hoption] at h
  by_cases hlabel : verb = "label".toList
  · rw [if_pos hlabel] at h
    exact readLabel_sound hline h hs
  rw [if_neg hlabel] at h
  by_cases hnode : verb = "node".toList
  · rw [if_pos hnode] at h
    exact readNode_sound hargs h hs
  rw [if_neg hnode] at h
  by_cases hedge : verb = "edge".toList
  · rw [if_pos hedge] at h
    exact readEdge_sound hargs h hs
  rw [if_neg hedge] at h
  by_cases hfield : verb = "field".toList
  · rw [if_pos hfield] at h
    exact readField_sound hargs h hs
  rw [if_neg hfield] at h
  exact readAttribute_sound hargs h hs

end

theorem readLines_ok {source : String} {number : Nat} {draft draft' : Draft} {raws : List Text} :
    readLines source number draft raws = .ok draft' ↔ raws.foldlM readLine draft = .ok draft' := by
  induction raws generalizing number draft with
  | nil => simp [readLines, pure, Except.pure]
  | cons raw raws ih =>
    rw [readLines, List.foldlM_cons]
    cases hline : readLine draft raw with
    | error fault => simp [bind, Except.bind]
    | ok next => exact ih

theorem parsePlan_ok {text : Text} {source : String} {plan : ResolvedPlan} :
    parsePlan text source = .ok plan ↔
      ∃ draft, (splitLines text).foldlM readLine {} = .ok draft ∧ resolve draft = .ok plan := by
  unfold parsePlan
  constructor
  · intro h
    split at h
    · cases h
    next draft hdraft =>
    split at h
    · cases h
    next hplan =>
    cases h
    exact ⟨draft, readLines_ok.mp hdraft, hplan⟩
  · rintro ⟨draft, hdraft, hplan⟩
    rw [readLines_ok.mpr hdraft]
    simp only [hplan]

/-- Whatever was read of any lines is sound. -/
theorem read_sound {text : Text} {draft : Draft} (h : (splitLines text).foldlM readLine {} = .ok draft) : draft.Sound :=
  foldlM_keeps (fun _ raw _ hraw => readLine_sound (isBreak_of_mem_splitLines raw hraw)) h sound_empty

/-! ## The plan -/

theorem PlanSettings.items_eq {values : Dict Text Int} {settings : PlanSettings} (h : readSettings values = .ok (some settings)) :
    settings.items = settingKeys.map (fun key => (key, (values.get? key).getD 0)) ∧ ∀ key ∈ settingKeys, key ∈ values.keys := by
  unfold readSettings at h
  split at h
  · cases h
  dsimp only at h
  split at h
  · cases h
  next hall =>
  cases h
  refine ⟨rfl, fun key hkey => ?_⟩
  by_contra habsent
  have hnil := not_not.mp hall
  have hmem : key ∈ settingKeys.filter fun key => decide (key ∉ values.keys) :=
    List.mem_filter.mpr ⟨hkey, decide_eq_true habsent⟩
  rw [hnil] at hmem
  cases hmem

structure ResolvedPlan.Sound (plan : ResolvedPlan) : Prop where
  name : plan.name ≠ [] → Phrase plan.name
  stated : plan.name ≠ ['-']
  version : plan.version = planVersion
  labels : ∀ p ∈ plan.labels.entries, Int32 p.1 ∧ Phrase p.2
  settings : ∀ settings ∈ plan.settings, ∀ item ∈ settings.items,
    ∃ bound ∈ settingBounds, bound.1.toList = item.1 ∧ Counts bound.2 item.2
  policy : plan.policy ≠ [] → Word plan.policy
  policyOptions : ∀ p ∈ plan.policyOptions.entries, plan.policy ≠ [] ∧ Word p.1 ∧ Word p.2
  nodes : ∀ node ∈ plan.nodes, node.Sound
  slots : (plan.nodes.map PlanNode.slot).Nodup
  edges : ∀ e ∈ plan.edges, Word e.1 ∧ Word e.2.1 ∧ Word e.2.2
  fields : ∀ p ∈ plan.fields.entries, Word p.1 ∧ p.2 ≠ [] ∧ ∀ w ∈ p.2, Word w
  declared : ∀ p ∈ plan.fields.entries, ∀ slot ∈ p.2, slot ∈ plan.nodes.map PlanNode.slot

theorem undeclared_none {draft : Draft} : undeclared draft = none ↔
    ∀ p ∈ draft.fields.entries, ∀ slot ∈ p.2, slot ∈ draft.nodes.map PlanNode.slot := by
  unfold undeclared
  rw [List.find?_eq_none]
  simp only [List.mem_flatMap, List.mem_map, decide_eq_true_eq, not_not]
  constructor
  · intro h p hp slot hslot
    exact h (p.1, slot) ⟨p, hp, slot, hslot, rfl⟩
  · rintro h named ⟨p, hp, slot, hslot, rfl⟩
    exact h p hp slot hslot

theorem resolve_sound {draft : Draft} {plan : ResolvedPlan} (hs : draft.Sound) (h : resolve draft = .ok plan) : plan.Sound := by
  unfold resolve at h
  split at h
  · cases h
  next name hname =>
  split at h
  · cases h
  next hdeclared =>
  obtain ⟨settings, hsettings, h⟩ := bind_ok.mp h
  cases h
  have hphrase : Phrase name := hs.name name hname
  refine { labels := hs.labels, policy := hs.policy, policyOptions := hs.policyOptions, nodes := hs.nodes, slots := hs.slots,
           edges := hs.edges, fields := hs.fields, declared := undeclared_none.mp hdeclared,
           version := hs.version (by simp [hname]), name := ?_, stated := ?_, settings := ?_ }
  · intro hne
    dsimp only at hne ⊢
    split at hne
    · exact absurd rfl hne
    next hdash =>
      rw [if_neg hdash]
      exact hphrase
  · dsimp only
    split
    · simp
    next hdash => exact hdash
  · intro s hstated item hitem
    cases hstated
    obtain ⟨hitems, hkeys⟩ := PlanSettings.items_eq hsettings
    rw [hitems] at hitem
    obtain ⟨key, hkey, rfl⟩ := List.mem_map.mp hitem
    obtain ⟨value, hvalue⟩ := Dict.exists_of_mem_keys (hkeys key hkey)
    rw [Dict.get?_eq_some_iff.mpr hvalue]
    exact hs.settings _ hvalue

/-- **What is accepted is sound.** -/
theorem parsePlan_sound {text : Text} {source : String} {plan : ResolvedPlan} (h : parsePlan text source = .ok plan) :
    plan.Sound := by
  obtain ⟨draft, hdraft, hplan⟩ := parsePlan_ok.mp h
  exact resolve_sound (read_sound hdraft) hplan

end ShipInfer.Plan
