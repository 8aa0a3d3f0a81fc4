import Mathlib.Data.Nat.Digits.Defs
import ShipInfer.Topology.Accepted

/-!
# An accepted plan is read back from its text

Every line of a plan's text is read as what it was written for, in whatever order and with
whatever spellings the plan was stated, so a plan that was accepted once comes back as it is.
-/

namespace ShipInfer.Plan

open Lib

/-! ## Words -/

theorem word_of_numeric {cs : Text} (hne : cs ≠ []) (h : Numeric cs) : Word cs := by
  have hplain : ∀ c ∈ cs, isSpace c = false ∧ c ≠ '#' := by
    intro c hc
    rcases h c hc with hdigit | hmem
    · have hrange : 48 ≤ c.toNat ∧ c.toNat ≤ 57 := by
        simp only [Char.isDigit, Bool.and_eq_true, decide_eq_true_eq, UInt32.le_iff_toNat_le, ge_iff_le] at hdigit
        exact hdigit
      constructor
      · simp only [isSpace, Bool.or_eq_false_iff, Bool.and_eq_false_iff, decide_eq_false_iff_not, beq_eq_false_iff_ne]
        omega
      · rintro rfl
        exact absurd hdigit (by decide)
    · simp only [List.mem_cons, List.not_mem_nil, or_false] at hmem
      rcases hmem with rfl | rfl | rfl | rfl <;> decide
  exact ⟨hne, fun c hc => (hplain c hc).1, fun hc => (hplain _ hc).2 rfl⟩

theorem word_intText (v : Int) : Word (intText v) := by
  refine word_of_numeric ?_ (numeric_intText v)
  rw [intText_eq]
  intro hnil
  exact Nat.toDigits_ne_nil (List.append_eq_nil_iff.mp hnil).2

theorem word_repr (x : Double) : Word x.repr := word_of_numeric x.repr_ne_nil x.numeric_repr

theorem int_intText {v : Int} (h : Int32 v) : int (intText v) = .ok v := by
  obtain ⟨hlow, hhigh⟩ := h
  have hdigits : (Nat.toDigits 10 v.natAbs).length ≤ 10 := by
    apply Nat.toDigits_length 10 v.natAbs 10 (by decide)
    unfold intMax at hlow hhigh
    omega
  have hsign : (readSign (intText v)).2 = Nat.toDigits 10 v.natAbs := by
    rw [intText_eq, readSign_digits fun c hc => digits_toDigits _ c (List.mem_of_head? hc)]
  have hfew : ¬4300 < (readSign (intText v)).2.length := by
    rw [hsign]
    omega
  unfold int
  simp only [readInteger_intText, if_neg hfew, if_pos (And.intro hlow hhigh)]

/-! ## Lines -/

theorem Spoken.phrase {cs : Text} (h : Spoken cs) : Phrase cs := by
  refine ⟨h.ne_nil, h.tidy.trimmed, fun c hc => ?_, h.unmarked⟩
  cases hspace : isSpace c with
  | false => exact isBreak_of_isSpace hspace
  | true =>
    rw [h.tidy.blank c hc hspace]
    decide

theorem phrase_glue {w text : Text} (hw : Word w) (h : Phrase text) : Phrase (w ++ ' ' :: text) := by
  refine ⟨by simp, ⟨?_, ?_⟩, ?_, ?_⟩
  · intro c hc
    cases w with
    | nil => exact absurd rfl hw.ne_nil
    | cons d w =>
      obtain rfl : d = c := by simpa using hc
      exact hw.unspaced d List.mem_cons_self
  · intro c hc
    apply h.trimmed.2 c
    rw [List.getLast?_append_of_ne_nil _ (List.cons_ne_nil _ _), List.getLast?_cons_of_ne_nil h.ne_nil] at hc
    exact hc
  · intro c hc
    rcases List.mem_append.mp hc with hc | hc
    · exact isBreak_of_isSpace (hw.unspaced c hc)
    · rcases List.mem_cons.mp hc with rfl | hc
      · decide
      · exact h.unbroken c hc
  · simp [hw.unmarked, h.unmarked]

theorem line_eq {verb : String} {args : List Text} (h : args ≠ []) :
    line verb args = verb.toList ++ ' ' :: unwords args := unwords_cons _ h

/-- A line of a verb and a text is read as the verb and the words of the text. -/
theorem readLine_line {draft : Draft} {verb : String} {args : List Text} (hverb : Word verb.toList) (hargs : args ≠ [])
    (h : Phrase (unwords args)) :
    readLine draft (line verb args) = readVerb draft (line verb args) verb.toList (words (unwords args)) := by
  have hline := phrase_glue hverb h
  rw [← line_eq hargs] at hline
  have hwords : words (line verb args) = verb.toList :: words (unwords args) := by rw [line_eq hargs, words_cons hverb]
  unfold readLine
  simp only [uncomment_of_trimmed hline.trimmed hline.unmarked, hwords]

theorem readLine_words {draft : Draft} {verb : String} {args : List Text} (hverb : Word verb.toList) (hargs : args ≠ [])
    (h : ∀ w ∈ args, Word w) : readLine draft (line verb args) = readVerb draft (line verb args) verb.toList args := by
  rw [readLine_line hverb hargs (spoken_unwords hargs h).phrase, words_unwords h]

/-- The rest of a line whose last part is a phrase. -/
theorem rest_line {verb : String} {first text : Text} (hverb : Word verb.toList) (hfirst : Word first) (h : Phrase text) :
    rest (line verb [first, text]) = text := by
  have hhead : ∀ c ∈ (first ++ ' ' :: text).head?, isSpace c = false := (phrase_glue hfirst h).trimmed.1
  rw [line_eq (by simp), unwords_cons _ (by simp), unwords_singleton, rest, afterWord_cons hverb hhead,
    afterWord_cons hfirst h.trimmed.1]

/-- Lines of a text that make `draft'` of `draft`. -/
structure Draft.Reads (draft : Draft) (lines : List Text) (draft' : Draft) : Prop where
  unbroken : ∀ raw ∈ lines, ∀ c ∈ raw, isBreak c = false
  read : lines.foldlM readLine draft = .ok draft'

theorem Draft.Reads.nil (draft : Draft) : draft.Reads [] draft := ⟨by simp, rfl⟩

theorem Draft.Reads.append {as bs : List Text} {d₁ d₂ d₃ : Draft} (ha : d₁.Reads as d₂) (hb : d₂.Reads bs d₃) :
    d₁.Reads (as ++ bs) d₃ := by
  refine ⟨fun raw hraw => (List.mem_append.mp hraw).elim (ha.unbroken raw) (hb.unbroken raw), ?_⟩
  rw [List.foldlM_append, ha.read]
  exact hb.read

theorem Draft.Reads.one {draft draft' : Draft} {raw : Text} (hraw : ∀ c ∈ raw, isBreak c = false)
    (h : readLine draft raw = .ok draft') : draft.Reads [raw] draft' := by
  refine ⟨by simpa using hraw, ?_⟩
  rw [List.foldlM_cons, h]
  rfl

theorem Draft.Reads.line {draft draft' : Draft} {verb : String} {args : List Text} (hverb : Word verb.toList) (hargs : args ≠ [])
    (hsaid : Phrase (unwords args)) (h : readLine draft (line verb args) = .ok draft') :
    draft.Reads [Plan.line verb args] draft' := by
  apply Draft.Reads.one _ h
  rw [line_eq hargs]
  exact (phrase_glue hverb hsaid).unbroken

/-! ## Attributes -/

/-- The verbs that are no attributes. -/
def verbs : List String := ["plan", "setting", "policy", "policy_option", "label", "node", "edge", "field"]

theorem word_of_verb {verb : String} (h : verb ∈ verbs) : Word verb.toList := by
  have hall : ∀ verb ∈ verbs, Word verb.toList := by decide +kernel
  exact hall verb h

theorem word_of_attribute {verb : Text} {attr : Attribute} (h : attributeOf verb = some attr) :
    Word verb ∧ ∀ other ∈ verbs, verb ≠ other.toList := by
  obtain ⟨entry, hfind, -⟩ := Option.map_eq_some_iff.mp h
  have hkey : entry.1.toList = verb := by simpa using List.find?_some hfind
  have hall : ∀ key ∈ attributes.map Prod.fst, Word key.toList ∧ ∀ other ∈ verbs, key.toList ≠ other.toList := by
    decide +kernel
  exact hkey ▸ hall entry.1 (List.mem_map_of_mem (List.mem_of_find?_eq_some hfind))

theorem readVerb_attribute {draft : Draft} {said verb : Text} {attr : Attribute} {args : List Text} {ns : List PlanNode}
    {m m' : PlanNode} (hverb : attributeOf verb = some attr) (hname : draft.name ≠ none) (hnodes : draft.nodes = ns ++ [m])
    (h : attr m args = .ok m') : readVerb draft said verb args = .ok { draft with nodes := ns ++ [m'] } := by
  have hplain : ∀ other ∈ verbs, ¬verb = other.toList := (word_of_attribute hverb).2
  unfold readVerb
  rw [if_neg (hplain "plan" (by decide)), if_neg hname, if_neg (hplain "setting" (by decide)),
    if_neg (hplain "policy" (by decide)), if_neg (hplain "policy_option" (by decide)), if_neg (hplain "label" (by decide)),
    if_neg (hplain "node" (by decide)), if_neg (hplain "edge" (by decide)), if_neg (hplain "field" (by decide))]
  have hlast : draft.nodes.getLast? = some m := by rw [hnodes, List.getLast?_concat]
  have hinit : draft.nodes.dropLast = ns := by rw [hnodes, List.dropLast_concat]
  simp only [readAttribute, hverb, hlast, h, hinit]
  rfl

/-- Lines that make `m'` of the last node `m`. -/
def Restores (lines : List Text) (m m' : PlanNode) : Prop :=
  ∀ (draft : Draft) (ns : List PlanNode), draft.name ≠ none → draft.nodes = ns ++ [m] →
    draft.Reads lines { draft with nodes := ns ++ [m'] }

theorem Restores.nil (m : PlanNode) : Restores [] m m := by
  intro draft ns _ hnodes
  rw [← hnodes]
  exact .nil draft

theorem Restores.append {as bs : List Text} {m₁ m₂ m₃ : PlanNode} (ha : Restores as m₁ m₂) (hb : Restores bs m₂ m₃) :
    Restores (as ++ bs) m₁ m₃ := by
  intro draft ns hname hnodes
  exact (ha draft ns hname hnodes).append (hb _ ns hname rfl)

theorem restores_line {verb : String} {attr : Attribute} {args : List Text} {m m' : PlanNode} (hverb : attributeOf verb.toList = some attr)
    (hargs : args ≠ []) (hsaid : Phrase (unwords args)) (h : attr m (words (unwords args)) = .ok m') :
    Restores [line verb args] m m' := by
  intro draft ns hname hnodes
  have hword := (word_of_attribute hverb).1
  apply Draft.Reads.line hword hargs hsaid
  rw [readLine_line hword hargs hsaid, readVerb_attribute hverb hname hnodes h]

theorem restores_words {verb : String} {attr : Attribute} {args : List Text} {m m' : PlanNode} (hverb : attributeOf verb.toList = some attr)
    (hargs : args ≠ []) (hwords : ∀ w ∈ args, Word w) (h : attr m args = .ok m') : Restores [line verb args] m m' := by
  refine restores_line hverb hargs (spoken_unwords hargs hwords).phrase ?_
  rw [words_unwords hwords]
  exact h

/-- An attribute that may be left out. -/
theorem restores_option {α : Type*} {toLine : α → Text} {value : Option α} {m : PlanNode} (put : Option α → PlanNode)
    (hnone : put none = m) (h : ∀ a ∈ value, Restores [toLine a] m (put (some a))) :
    Restores (value.toList.map toLine) m (put value) := by
  cases value with
  | none =>
    rw [hnone]
    exact .nil m
  | some a => exact h a rfl

section
variable {form : String} (key : String) (m : PlanNode)

theorem restores_word {set : PlanNode → Text → PlanNode} {value : Option Text} (put : Option Text → PlanNode)
    (hverb : attributeOf key.toList = some (wordAttr key set)) (hvalue : ∀ w ∈ value, Word w) (hnone : put none = m)
    (hset : ∀ w, set m w = put (some w)) : Restores (wordLine key value) m (put value) := by
  have hfilter : value.filter (fun text => decide (text ≠ [])) = value := by
    cases value with
    | none => rfl
    | some w => simp [Option.filter, (hvalue w rfl).ne_nil]
  rw [wordLine, hfilter]
  apply restores_option put hnone
  intro w hw
  apply restores_words hverb (by simp) (by simpa using hvalue w hw)
  simp only [wordAttr, want1, ← hset]
  rfl

theorem restores_count {least : Int} {set : PlanNode → Int → PlanNode} {value : Option Int}
    (put : Option Int → PlanNode) (hverb : attributeOf key.toList = some (countAttr key form least set)) (hleast : 0 ≤ least)
    (hvalue : ∀ n ∈ value, Counts least n) (hnone : put none = m) (hset : ∀ n, set m n = put (some n)) :
    Restores (countLine key value) m (put value) := by
  apply restores_option put hnone
  intro n hn
  apply restores_words hverb (by simp) (by simpa using word_intText n)
  have hcounts := hvalue n hn
  simp only [countAttr, want1, bind, Except.bind, int_intText (hcounts.int32 hleast), if_neg (not_lt.mpr hcounts.1), hset]

theorem restores_extent {set : PlanNode → Int × Int → PlanNode} {value : Option (Int × Int)}
    (put : Option (Int × Int) → PlanNode) (hverb : attributeOf key.toList = some (extentAttr key set)) (hvalue : ∀ e ∈ value, Extent e)
    (hnone : put none = m) (hset : ∀ e, set m e = put (some e)) : Restores (extentLine key value) m (put value) := by
  apply restores_option put hnone
  intro e he
  apply restores_words hverb (by simp) (by simpa using ⟨word_intText e.1, word_intText e.2⟩)
  obtain ⟨hheight, hwidth⟩ := hvalue e he
  have hpositive : ¬(e.1 ≤ 0 ∨ e.2 ≤ 0) := by
    have := hheight.1
    have := hwidth.1
    omega
  simp only [extentAttr, want2, bind, Except.bind, int_intText (hheight.int32 (by decide)), int_intText (hwidth.int32 (by decide)),
    if_neg hpositive, hset]

theorem restores_finite {set : PlanNode → Double → PlanNode} {value : Option Double} (put : Option Double → PlanNode)
    (hverb : attributeOf key.toList = some (finiteAttr form set)) (hnone : put none = m) (hset : ∀ x, set m x = put (some x)) :
    Restores (numberLine key value) m (put value) := by
  apply restores_option put hnone
  intro x hx
  apply restores_words hverb (by simp) (by simpa using word_repr x)
  simp only [finiteAttr, want1, bind, Except.bind, Double.readDouble_repr, hset]

theorem restores_range {admits : Double → Bool} {set : PlanNode → Double → PlanNode} {value : Option Double}
    (put : Option Double → PlanNode) (hverb : attributeOf key.toList = some (rangeAttr key form admits set))
    (hvalue : ∀ x ∈ value, admits x = true) (hnone : put none = m) (hset : ∀ x, set m x = put (some x)) :
    Restores (numberLine key value) m (put value) := by
  apply restores_option put hnone
  intro x hx
  apply restores_words hverb (by simp) (by simpa using word_repr x)
  simp only [rangeAttr, want1, bind, Except.bind, Double.readDouble_repr, if_pos (hvalue x hx), hset]

end

section
variable {m : PlanNode}

theorem restores_when {value : Option Text} (hvalue : ∀ text ∈ value, Spoken text) (hnone : m.when = none) :
    Restores (wordLine "when" value) m { m with when := value } := by
  have hfilter : value.filter (fun text => decide (text ≠ [])) = value := by
    cases value with
    | none => rfl
    | some text => simp [Option.filter, (hvalue text rfl).ne_nil]
  rw [wordLine, hfilter]
  apply restores_option fun value => { m with when := value }
  · rw [← hnone]
  intro text htext
  have hspoken := hvalue text htext
  have hback := hspoken.tidy.unwords_words
  have hwords : words text ≠ [] := by
    intro hnil
    rw [hnil] at hback
    exact hspoken.ne_nil hback.symm
  apply restores_line rfl (by simp) (by simpa using hspoken.phrase)
  simp only [unwords_singleton, Attr.when, if_neg hwords, hback]

theorem joined_spoken {labels : List Text} (h : Labels labels) (hne : labels ≠ []) :
    Spoken ([','].intercalate labels) ∧ [','].intercalate labels ≠ ['-'] ∧
      (([','].intercalate labels).splitOn ',').map strip = labels := by
  have hsplit : ([','].intercalate labels).splitOn ',' = labels :=
    List.splitOn_intercalate ',' (fun label hlabel => (h.each label hlabel).2.2.1) hne
  refine ⟨⟨?_, tidy_intercalate (by decide) fun label hlabel => (h.each label hlabel).2.1,
    not_mem_intercalate (by decide) fun label hlabel => (h.each label hlabel).2.2.2⟩, ?_, ?_⟩
  · intro hnil
    rw [hnil] at hsplit
    have hone : [[]] = labels := hsplit
    exact (h.each [] (hone ▸ List.mem_cons_self)).1 rfl
  · intro hdash
    rw [hdash] at hsplit
    have hone : [['-']] = labels := hsplit
    exact h.stated hone.symm
  · rw [hsplit]
    conv_rhs => rw [← List.map_id labels]
    apply List.map_congr_left
    exact fun label hlabel => strip_of_trimmed (h.each label hlabel).2.1.trimmed

theorem restores_classes {value : Option (List Text)} (hvalue : ∀ labels ∈ value, Labels labels) (hnone : m.classes = none) :
    Restores (classesLine value) m { m with classes := value } := by
  apply restores_option fun value => { m with classes := value }
  · rw [← hnone]
  intro labels hlabels
  have hnames : attributeOf "classes".toList = some Attr.classes := rfl
  by_cases hne : labels = []
  · rw [hne]
    apply restores_words hnames (by simp) (by decide +kernel)
    rfl
  obtain ⟨hspoken, hdash, hback⟩ := joined_spoken (hvalue labels hlabels) hne
  have hjoined := hspoken.tidy.unwords_words
  have hwords : words ([','].intercalate labels) ≠ [] := by
    intro hnil
    rw [hnil] at hjoined
    exact hspoken.ne_nil hjoined.symm
  have hempty : [] ∉ labels := fun hmem => ((hvalue labels hlabels).each [] hmem).1 rfl
  dsimp only
  rw [if_neg hspoken.ne_nil]
  apply restores_line hnames (by simp) (by simpa using hspoken.phrase)
  simp only [unwords_singleton, Attr.classes, if_neg hwords, hjoined, if_neg hdash, hback, if_neg hempty]

theorem restores_cameras {cameras : List Text} : ∀ {m : PlanNode}, (∀ w ∈ cameras, Word w) → (m.cameras ++ cameras).Nodup →
    Restores (cameras.map fun camera => line "camera" [camera]) m { m with cameras := m.cameras ++ cameras } := by
  induction cameras with
  | nil =>
    intro m _ _
    rw [List.append_nil]
    exact .nil m
  | cons camera cameras ih =>
    intro m hwords hnd
    have hnew : camera ∉ m.cameras := fun hmem => (List.nodup_append.mp hnd).2.2 camera hmem camera List.mem_cons_self rfl
    have hrest := ih (m := { m with cameras := m.cameras ++ [camera] }) (fun w hw => hwords w (List.mem_cons_of_mem _ hw))
      (by simpa using hnd)
    have hone : Restores [line "camera" [camera]] m { m with cameras := m.cameras ++ [camera] } := by
      apply restores_words rfl (by simp) (by simpa using hwords camera List.mem_cons_self)
      simp only [Attr.camera, want1, bind, Except.bind, if_neg hnew]
    simpa using hone.append hrest

theorem sortedPairs_of_sorted {l : List (Text × Text)} (h : l.Pairwise fun a b => toLex a ≤ toLex b) : sortedPairs l = l :=
  List.mergeSort_of_pairwise (h.imp fun hle => decide_eq_true hle)

theorem restores_options {options : List (Text × Text)} : ∀ {m : PlanNode}, (∀ o ∈ options, Word o.1 ∧ Word o.2) →
    (m.trackerOptions ++ options).Pairwise (fun a b => toLex a ≤ toLex b) → ((m.trackerOptions ++ options).map Prod.fst).Nodup →
    Restores (options.map fun option => line "tracker_option" [option.1, option.2]) m
      { m with trackerOptions := m.trackerOptions ++ options } := by
  induction options with
  | nil =>
    intro m _ _ _
    rw [List.append_nil]
    exact .nil m
  | cons option options ih =>
    intro m hwords hsorted hnd
    have hsplit : m.trackerOptions ++ option :: options = m.trackerOptions ++ [option] ++ options := by simp
    have hnew : option.1 ∉ m.trackerOptions.map Prod.fst := by
      intro hmem
      rw [List.map_append] at hnd
      exact (List.nodup_append.mp hnd).2.2 option.1 hmem option.1 (by simp) rfl
    rw [hsplit] at hsorted hnd ⊢
    have hrest := ih (m := { m with trackerOptions := m.trackerOptions ++ [option] })
      (fun o ho => hwords o (List.mem_cons_of_mem _ ho)) hsorted hnd
    have hone : Restores [line "tracker_option" [option.1, option.2]] m
        { m with trackerOptions := m.trackerOptions ++ [option] } := by
      obtain ⟨hkey, hvalue⟩ := hwords option List.mem_cons_self
      apply restores_words rfl (by simp) (by simpa using ⟨hkey, hvalue⟩)
      have hkept := sortedPairs_of_sorted (List.pairwise_append.mp hsorted).1
      simp only [Attr.trackerOption, want2, bind, Except.bind, if_neg hnew, hkept]
    simpa using hone.append hrest

end

/-! ## Nodes -/

/-- The lines of a node after its first two. -/
def attributeLines (node : PlanNode) : List Text :=
  wordLine "model" node.model ++ classesLine node.classes ++
    extentLine "crop" node.crop ++ extentLine "letterbox" node.letterbox ++ numberLine "score" node.scoreThreshold ++
    countLine "max_detections" node.maxDetections ++ countLine "instances" node.instances ++
    countLine "queue_delay_us" node.queueDelayUs ++ wordLine "artefact" node.artefact ++
    wordLine "fold_detections" node.foldDetections ++ wordLine "fold_prototypes" node.foldPrototypes ++
    numberLine "fold_score" node.foldScore ++ numberLine "fold_mask" node.foldMask ++ wordLine "when" node.when ++
    wordLine "per" node.per ++ wordLine "scope" node.scope ++ wordLine "group" node.group ++
    (node.cameras.map fun camera => line "camera" [camera]) ++ countLine "min_hits" node.minHits ++
    numberLine "min_height_fraction" node.minHeightFraction ++ numberLine "sync_window_ms" node.syncWindowMs ++
    countLine "max_instants" node.maxInstants ++ wordLine "algorithm" (some node.algorithm) ++
    countLine "regression_reset" node.regressionReset ++
    node.trackerOptions.map fun option => line "tracker_option" [option.1, option.2]

theorem nodeLines_eq (node : PlanNode) :
    nodeLines node = [[]] ++ ([line "node" [node.slot, node.kind, node.impl]] ++ attributeLines node) := by
  unfold nodeLines attributeLines
  simp only [List.cons_append, List.nil_append]

/-- A node as far as its first `k` attributes are read. -/
def PlanNode.upTo (node : PlanNode) (k : Nat) : PlanNode where
  slot := node.slot
  kind := node.kind
  impl := node.impl
  model := if 1 ≤ k then node.model else none
  classes := if 2 ≤ k then node.classes else none
  crop := if 3 ≤ k then node.crop else none
  letterbox := if 4 ≤ k then node.letterbox else none
  scoreThreshold := if 5 ≤ k then node.scoreThreshold else none
  maxDetections := if 6 ≤ k then node.maxDetections else none
  instances := if 7 ≤ k then node.instances else none
  queueDelayUs := if 8 ≤ k then node.queueDelayUs else none
  artefact := if 9 ≤ k then node.artefact else none
  foldDetections := if 10 ≤ k then node.foldDetections else none
  foldPrototypes := if 11 ≤ k then node.foldPrototypes else none
  foldScore := if 12 ≤ k then node.foldScore else none
  foldMask := if 13 ≤ k then node.foldMask else none
  when := if 14 ≤ k then node.when else none
  per := if 15 ≤ k then node.per else none
  scope := if 16 ≤ k then node.scope else none
  group := if 17 ≤ k then node.group else none
  cameras := if 18 ≤ k then node.cameras else []
  minHits := if 19 ≤ k then node.minHits else none
  minHeightFraction := if 20 ≤ k then node.minHeightFraction else none
  syncWindowMs := if 21 ≤ k then node.syncWindowMs else none
  maxInstants := if 22 ≤ k then node.maxInstants else none
  algorithm := if 23 ≤ k then node.algorithm else []
  regressionReset := if 24 ≤ k then node.regressionReset else none
  trackerOptions := if 25 ≤ k then node.trackerOptions else []

theorem restores_algorithm {m : PlanNode} {algorithm : Text} (h : algorithm ≠ [] → Word algorithm) (hnone : m.algorithm = []) :
    Restores (wordLine "algorithm" (some algorithm)) m { m with algorithm := algorithm } := by
  by_cases hne : algorithm = []
  · rw [hne, ← hnone]
    have hline : wordLine "algorithm" (some m.algorithm) = [] := by simp [wordLine, Option.filter, hnone]
    rw [hline]
    exact .nil m
  have hline : wordLine "algorithm" (some algorithm) = [line "algorithm" [algorithm]] := by simp [wordLine, Option.filter, hne]
  rw [hline]
  apply restores_words rfl (by simp) (by simpa using h hne)
  rfl

theorem restores_node {node : PlanNode} (h : node.Sound) : Restores (attributeLines node) (node.upTo 0) node := by
  have cropFound : attributeOf "crop".toList = some (extentAttr "crop" fun m e => { m with crop := some e }) := rfl
  have letterboxFound : attributeOf "letterbox".toList = some (extentAttr "letterbox" fun m e => { m with letterbox := some e }) := rfl
  have hmodel : Restores _ (node.upTo 0) (node.upTo 1) :=
    restores_word "model" _ (fun v => { node.upTo 0 with model := v }) rfl h.model rfl fun _ => rfl
  have hclasses : Restores _ (node.upTo 1) (node.upTo 2) :=
    restores_classes h.classes rfl
  have hcrop : Restores _ (node.upTo 2) (node.upTo 3) :=
    restores_extent "crop" _ (fun v => { node.upTo 2 with crop := v }) cropFound h.crop rfl fun _ => rfl
  have hletterbox : Restores _ (node.upTo 3) (node.upTo 4) :=
    restores_extent "letterbox" _ (fun v => { node.upTo 3 with letterbox := v }) letterboxFound h.letterbox rfl fun _ => rfl
  have hscore : Restores _ (node.upTo 4) (node.upTo 5) :=
    restores_finite "score" _ (fun v => { node.upTo 4 with scoreThreshold := v }) rfl rfl fun _ => rfl
  have hmaxDetections : Restores _ (node.upTo 5) (node.upTo 6) :=
    restores_count "max_detections" _ (fun v => { node.upTo 5 with maxDetections := v }) rfl (by decide) h.maxDetections rfl fun _ => rfl
  have hinstances : Restores _ (node.upTo 6) (node.upTo 7) :=
    restores_count "instances" _ (fun v => { node.upTo 6 with instances := v }) rfl (by decide) h.instances rfl fun _ => rfl
  have hqueueDelay : Restores _ (node.upTo 7) (node.upTo 8) :=
    restores_count "queue_delay_us" _ (fun v => { node.upTo 7 with queueDelayUs := v }) rfl (by decide) h.queueDelayUs rfl fun _ => rfl
  have hartefact : Restores _ (node.upTo 8) (node.upTo 9) :=
    restores_word "artefact" _ (fun v => { node.upTo 8 with artefact := v }) rfl h.artefact rfl fun _ => rfl
  have hfoldDetections : Restores _ (node.upTo 9) (node.upTo 10) :=
    restores_word "fold_detections" _ (fun v => { node.upTo 9 with foldDetections := v }) rfl h.foldDetections rfl fun _ => rfl
  have hfoldPrototypes : Restores _ (node.upTo 10) (node.upTo 11) :=
    restores_word "fold_prototypes" _ (fun v => { node.upTo 10 with foldPrototypes := v }) rfl h.foldPrototypes rfl fun _ => rfl
  have hfoldScore : Restores _ (node.upTo 11) (node.upTo 12) :=
    restores_finite "fold_score" _ (fun v => { node.upTo 11 with foldScore := v }) rfl rfl fun _ => rfl
  have hfoldMask : Restores _ (node.upTo 12) (node.upTo 13) :=
    restores_range "fold_mask" _ (fun v => { node.upTo 12 with foldMask := v }) rfl
      (fun x hx => decide_eq_true (h.foldMask x hx)) rfl fun _ => rfl
  have hwhen : Restores _ (node.upTo 13) (node.upTo 14) :=
    restores_when h.when rfl
  have hper : Restores _ (node.upTo 14) (node.upTo 15) :=
    restores_word "per" _ (fun v => { node.upTo 14 with per := v }) rfl h.per rfl fun _ => rfl
  have hscope : Restores _ (node.upTo 15) (node.upTo 16) :=
    restores_word "scope" _ (fun v => { node.upTo 15 with scope := v }) rfl h.scope rfl fun _ => rfl
  have hgroup : Restores _ (node.upTo 16) (node.upTo 17) :=
    restores_word "group" _ (fun v => { node.upTo 16 with group := v }) rfl h.group rfl fun _ => rfl
  have hcameras : Restores _ (node.upTo 17) (node.upTo 18) :=
    restores_cameras h.cameras.1 h.cameras.2
  have hminHits : Restores _ (node.upTo 18) (node.upTo 19) :=
    restores_count "min_hits" _ (fun v => { node.upTo 18 with minHits := v }) rfl (by decide) h.minHits rfl fun _ => rfl
  have hminHeight : Restores _ (node.upTo 19) (node.upTo 20) :=
    restores_range "min_height_fraction" _ (fun v => { node.upTo 19 with minHeightFraction := v }) rfl
      (fun x hx => decide_eq_true (h.minHeightFraction x hx)) rfl fun _ => rfl
  have hsyncWindow : Restores _ (node.upTo 20) (node.upTo 21) :=
    restores_range "sync_window_ms" _ (fun v => { node.upTo 20 with syncWindowMs := v }) rfl
      (fun x hx => decide_eq_true (h.syncWindowMs x hx)) rfl fun _ => rfl
  have hmaxInstants : Restores _ (node.upTo 21) (node.upTo 22) :=
    restores_count "max_instants" _ (fun v => { node.upTo 21 with maxInstants := v }) rfl (by decide) h.maxInstants rfl fun _ => rfl
  have halgorithm : Restores _ (node.upTo 22) (node.upTo 23) :=
    restores_algorithm h.algorithm rfl
  have hregressionReset : Restores _ (node.upTo 23) (node.upTo 24) :=
    restores_count "regression_reset" _ (fun v => { node.upTo 23 with regressionReset := v }) rfl (by decide) h.regressionReset rfl fun _ => rfl
  have htrackerOptions : Restores _ (node.upTo 24) (node.upTo 25) :=
    restores_options h.trackerOptions h.optionsSorted h.optionsOnce
  exact (((((((((((((((((((((((hmodel.append hclasses).append hcrop).append hletterbox).append hscore).append
    hmaxDetections).append hinstances).append hqueueDelay).append hartefact).append hfoldDetections).append
    hfoldPrototypes).append hfoldScore).append hfoldMask).append hwhen).append hper).append hscope).append
    hgroup).append hcameras).append hminHits).append hminHeight).append hsyncWindow).append hmaxInstants).append
    halgorithm).append hregressionReset).append htrackerOptions

/-! ## Sections -/

section
variable {draft : Draft}

/-- A section of lines that state one entry each. -/
theorem reads_dict {κ ν : Type*} [DecidableEq κ] (toLine : κ × ν → Text) (put : Dict κ ν → Draft) : ∀ {l : List (κ × ν)}
    {d : Dict κ ν}, (∀ p ∈ l, ∀ d : Dict κ ν, p.1 ∉ d.keys → (put d).Reads [toLine p] (put (d.set p.1 p.2))) →
      (d.keys ++ l.map Prod.fst).Nodup → (put d).Reads (l.map toLine) (put (d.update l))
  | [], d, _, _ => .nil (put d)
  | p :: l, d, hread, hnd => by
    have hnew : p.1 ∉ d.keys := fun hmem => (List.nodup_append.mp hnd).2.2 p.1 hmem p.1 List.mem_cons_self rfl
    have hkeys : (d.set p.1 p.2).keys = d.keys ++ [p.1] := by rw [Dict.keys_set, if_neg hnew]
    have hrest := reads_dict toLine put (d := d.set p.1 p.2) (fun q hq => hread q (List.mem_cons_of_mem _ hq)) (by simpa [hkeys] using hnd)
    exact (hread p List.mem_cons_self d hnew).append hrest

theorem reads_setting (hname : draft.name ≠ none) {item : Text × Int}
    (hbound : ∃ bound ∈ settingBounds, bound.1.toList = item.1 ∧ Counts bound.2 item.2) (hnew : item.1 ∉ draft.settings.keys) :
    draft.Reads [line "setting" [item.1, intText item.2]] { draft with settings := draft.settings.set item.1 item.2 } := by
  obtain ⟨bound, hmem, hkey, hcounts⟩ := hbound
  have hfacts : ∀ bound ∈ settingBounds, Word bound.1.toList ∧ 0 ≤ bound.2 ∧
      (settingBounds.find? fun other => decide (other.1.toList = bound.1.toList)) = some bound := by decide +kernel
  obtain ⟨hword, hleast, hfind⟩ := hfacts bound hmem
  rw [hkey] at hword hfind
  have hwords : ∀ w ∈ [item.1, intText item.2], Word w := by simpa using ⟨hword, word_intText item.2⟩
  apply Draft.Reads.line (word_of_verb (by decide)) (by simp) (spoken_unwords (by simp) hwords).phrase
  rw [readLine_words (word_of_verb (by decide)) (by simp) hwords, readVerb, if_neg (by decide), if_neg hname, if_pos rfl]
  simp only [readSetting, want2, bind, Except.bind, hfind, if_neg hnew, int_intText (hcounts.int32 hleast),
    if_neg (not_lt.mpr hcounts.1)]

theorem reads_policy (hname : draft.name ≠ none) {policy : Text} (hword : Word policy) (hfirst : draft.policy = []) :
    draft.Reads [line "policy" [policy]] { draft with policy := policy } := by
  have hwords : ∀ w ∈ [policy], Word w := by simpa using hword
  apply Draft.Reads.line (word_of_verb (by decide)) (by simp) (spoken_unwords (by simp) hwords).phrase
  rw [readLine_words (word_of_verb (by decide)) (by simp) hwords, readVerb, if_neg (by decide), if_neg hname, if_neg (by decide), if_pos rfl]
  simp only [readPolicy, want1, bind, Except.bind, if_neg (not_not.mpr hfirst)]

theorem reads_policyOption (hname : draft.name ≠ none) {option : Text × Text} (hwords : Word option.1 ∧ Word option.2)
    (hpolicy : draft.policy ≠ []) (hnew : option.1 ∉ draft.policyOptions.keys) :
    draft.Reads [line "policy_option" [option.1, option.2]]
      { draft with policyOptions := draft.policyOptions.set option.1 option.2 } := by
  have hwords : ∀ w ∈ [option.1, option.2], Word w := by simpa using hwords
  apply Draft.Reads.line (word_of_verb (by decide)) (by simp) (spoken_unwords (by simp) hwords).phrase
  rw [readLine_words (word_of_verb (by decide)) (by simp) hwords, readVerb, if_neg (by decide), if_neg hname, if_neg (by decide),
    if_neg (by decide), if_pos rfl]
  simp only [readPolicyOption, want2, bind, Except.bind, if_neg hpolicy, if_neg hnew]

theorem reads_label (hname : draft.name ≠ none) {label : Int × Text} (hsound : Int32 label.1 ∧ Phrase label.2)
    (hnew : label.1 ∉ draft.labels.keys) :
    draft.Reads [line "label" [intText label.1, label.2]] { draft with labels := draft.labels.set label.1 label.2 } := by
  obtain ⟨hindex, hphrase⟩ := hsound
  have hword := word_intText label.1
  have hunwords : unwords [intText label.1, label.2] = intText label.1 ++ ' ' :: label.2 := by
    rw [unwords_cons _ (by simp), unwords_singleton]
  have hsaid : Phrase (unwords [intText label.1, label.2]) := hunwords ▸ phrase_glue hword hphrase
  obtain ⟨w, hwords, -⟩ := words_afterWord hphrase.ne_nil hphrase.trimmed.1
  apply Draft.Reads.line (word_of_verb (by decide)) (by simp) hsaid
  rw [readLine_line (word_of_verb (by decide)) (by simp) hsaid, hunwords, words_cons hword, hwords, readVerb, if_neg (by decide), if_neg hname,
    if_neg (by decide), if_neg (by decide), if_neg (by decide), if_pos rfl]
  simp only [readLabel, bind, Except.bind, int_intText hindex, if_neg hnew, @rest_line "label" _ _ (word_of_verb (by decide)) hword hphrase]

theorem reads_header (hname : draft.name = none) {name : Text} (hphrase : Phrase name) :
    draft.Reads [line "plan" [intText planVersion, name]] { draft with name := some name, version := planVersion } := by
  have hword := word_intText planVersion
  have hunwords : unwords [intText planVersion, name] = intText planVersion ++ ' ' :: name := by
    rw [unwords_cons _ (by simp), unwords_singleton]
  have hsaid : Phrase (unwords [intText planVersion, name]) := hunwords ▸ phrase_glue hword hphrase
  obtain ⟨w, hwords, -⟩ := words_afterWord hphrase.ne_nil hphrase.trimmed.1
  apply Draft.Reads.line (word_of_verb (by decide)) (by simp) hsaid
  rw [readLine_line (word_of_verb (by decide)) (by simp) hsaid, hunwords, words_cons hword, hwords, readVerb, if_pos rfl,
    if_neg (not_not.mpr hname)]
  have hversion : Int32 planVersion := ⟨by decide, by decide⟩
  simp only [header, bind, Except.bind, int_intText hversion, ne_eq, not_true, if_false,
    @rest_line "plan" _ _ (word_of_verb (by decide)) hword hphrase]

theorem reads_edge (hname : draft.name ≠ none) {edge : Text × Text × Text} (hwords : Word edge.1 ∧ Word edge.2.1 ∧ Word edge.2.2) :
    draft.Reads [line "edge" [edge.1, edge.2.1, edge.2.2]] { draft with edges := draft.edges ++ [edge] } := by
  have hwords : ∀ w ∈ [edge.1, edge.2.1, edge.2.2], Word w := by simpa using hwords
  apply Draft.Reads.line (word_of_verb (by decide)) (by simp) (spoken_unwords (by simp) hwords).phrase
  rw [readLine_words (word_of_verb (by decide)) (by simp) hwords, readVerb, if_neg (by decide), if_neg hname, if_neg (by decide),
    if_neg (by decide), if_neg (by decide), if_neg (by decide), if_neg (by decide), if_pos rfl]
  rfl

theorem reads_field (hname : draft.name ≠ none) {field : Text × List Text}
    (hsound : Word field.1 ∧ field.2 ≠ [] ∧ ∀ w ∈ field.2, Word w) (hnew : field.1 ∉ draft.fields.keys) :
    draft.Reads [line "field" [field.1, unwords field.2]] { draft with fields := draft.fields.set field.1 field.2 } := by
  obtain ⟨hword, hne, hslots⟩ := hsound
  have hwords : ∀ w ∈ field.1 :: field.2, Word w := List.forall_mem_cons.mpr ⟨hword, hslots⟩
  have hline : line "field" [field.1, unwords field.2] = line "field" (field.1 :: field.2) := by
    rw [line_eq (by simp), line_eq (by simp), unwords_cons _ (by simp), unwords_singleton, unwords_cons _ hne]
  rw [hline]
  apply Draft.Reads.line (word_of_verb (by decide)) (by simp) (spoken_unwords (by simp) hwords).phrase
  rw [readLine_words (word_of_verb (by decide)) (by simp) hwords, readVerb, if_neg (by decide), if_neg hname, if_neg (by decide),
    if_neg (by decide), if_neg (by decide), if_neg (by decide), if_neg (by decide), if_neg (by decide), if_pos rfl]
  cases hslot : field.2 with
  | nil => exact absurd hslot hne
  | cons slot slots => simp only [readField, if_neg hnew]

theorem reads_blank : draft.Reads [[]] draft := .one (by simp) rfl

theorem reads_node (hname : draft.name ≠ none) {node : PlanNode} (h : node.Sound) (hnew : node.slot ∉ draft.nodes.map PlanNode.slot) :
    draft.Reads (nodeLines node) { draft with nodes := draft.nodes ++ [node] } := by
  have hwords : ∀ w ∈ [node.slot, node.kind, node.impl], Word w := by simpa using ⟨h.slot, h.kind, h.impl⟩
  have hfirst : ({ slot := node.slot, kind := node.kind, impl := node.impl } : PlanNode) = node.upTo 0 := rfl
  have hdeclared : draft.Reads [line "node" [node.slot, node.kind, node.impl]]
      { draft with nodes := draft.nodes ++ [node.upTo 0] } := by
    apply Draft.Reads.line (word_of_verb (by decide)) (by simp) (spoken_unwords (by simp) hwords).phrase
    rw [readLine_words (word_of_verb (by decide)) (by simp) hwords, readVerb, if_neg (by decide), if_neg hname, if_neg (by decide),
      if_neg (by decide), if_neg (by decide), if_neg (by decide), if_pos rfl]
    simp only [readNode, want3, bind, Except.bind, if_neg hnew, hfirst]
  have hrestored := restores_node h { draft with nodes := draft.nodes ++ [node.upTo 0] } draft.nodes hname rfl
  rw [nodeLines_eq]
  exact reads_blank.append (hdeclared.append hrestored)

theorem reads_nodes : ∀ {nodes : List PlanNode} {draft : Draft}, draft.name ≠ none → (∀ node ∈ nodes, node.Sound) →
    ((draft.nodes ++ nodes).map PlanNode.slot).Nodup → draft.Reads (nodes.flatMap nodeLines) { draft with nodes := draft.nodes ++ nodes }
  | [], draft, _, _, _ => by
    rw [List.append_nil]
    exact .nil draft
  | node :: nodes, draft, hname, hsound, hnd => by
    have hnew : node.slot ∉ draft.nodes.map PlanNode.slot := by
      intro hmem
      rw [List.map_append] at hnd
      exact (List.nodup_append.mp hnd).2.2 node.slot hmem node.slot (by simp) rfl
    have hsplit : draft.nodes ++ node :: nodes = draft.nodes ++ [node] ++ nodes := by simp
    rw [hsplit] at hnd ⊢
    have hone := reads_node hname (hsound node List.mem_cons_self) hnew
    have hrest := @reads_nodes nodes { draft with nodes := draft.nodes ++ [node] } hname
      (fun n hn => hsound n (List.mem_cons_of_mem _ hn)) hnd
    exact hone.append hrest

theorem reads_edges : ∀ {edges : List (Text × Text × Text)} {draft : Draft}, draft.name ≠ none →
    (∀ e ∈ edges, Word e.1 ∧ Word e.2.1 ∧ Word e.2.2) →
    draft.Reads (edges.map fun edge => line "edge" [edge.1, edge.2.1, edge.2.2]) { draft with edges := draft.edges ++ edges }
  | [], draft, _, _ => by
    rw [List.append_nil]
    exact .nil draft
  | edge :: edges, draft, hname, hwords => by
    have hsplit : draft.edges ++ edge :: edges = draft.edges ++ [edge] ++ edges := by simp
    rw [hsplit]
    have hone := reads_edge hname (hwords edge List.mem_cons_self)
    have hrest := @reads_edges edges { draft with edges := draft.edges ++ [edge] } hname
      fun e he => hwords e (List.mem_cons_of_mem _ he)
    exact hone.append hrest

end

/-! ## The plan -/

theorem nodup_sortedPairs {κ ν : Type*} [LinearOrder κ] [LinearOrder ν] (d : Dict κ ν) :
    ((Dict.empty : Dict κ ν).keys ++ (sortedPairs d.entries).map Prod.fst).Nodup := by
  have hperm := (sortedPairs_perm d.entries).map Prod.fst
  rw [show (Dict.empty : Dict κ ν).keys = [] from rfl, List.nil_append, hperm.nodup_iff]
  exact d.keys_nodup

/-- What a plan's text is read as. -/
def written (plan : ResolvedPlan) : Draft where
  name := some (if plan.name = [] then ['-'] else plan.name)
  version := planVersion
  settings := Dict.empty.update (plan.settings.toList.flatMap PlanSettings.items)
  policy := plan.policy
  policyOptions := Dict.empty.update (sortedPairs plan.policyOptions.entries)
  labels := Dict.empty.update (sortedPairs plan.labels.entries)
  nodes := plan.nodes
  edges := plan.edges
  fields := Dict.empty.update (sortedPairs plan.fields.entries)

theorem items_keys (settings : PlanSettings) : settings.items.map Prod.fst = settingKeys := rfl

theorem reads_settings {draft : Draft} (hname : draft.name ≠ none) {settings : Option PlanSettings}
    (h : ∀ s ∈ settings, ∀ item ∈ s.items, ∃ bound ∈ settingBounds, bound.1.toList = item.1 ∧ Counts bound.2 item.2)
    (hnone : draft.settings.keys = []) :
    draft.Reads (settings.toList.flatMap fun s => s.items.map fun item => line "setting" [item.1, intText item.2])
      { draft with settings := draft.settings.update (settings.toList.flatMap PlanSettings.items) } := by
  cases settings with
  | none => exact .nil draft
  | some settings =>
    have hnd : (draft.settings.keys ++ settings.items.map Prod.fst).Nodup := by
      rw [hnone, items_keys]
      decide
    have hread := reads_dict (fun item => line "setting" [item.1, intText item.2]) (fun d => { draft with settings := d })
      (fun item hitem d hnew => @reads_setting { draft with settings := d } hname item (h settings rfl item hitem) hnew) hnd
    simpa using hread

theorem reads_policies {draft : Draft} (hname : draft.name ≠ none) {policy : Text} {options : Dict Text Text}
    (hpolicy : policy ≠ [] → Word policy) (hoptions : ∀ p ∈ options.entries, policy ≠ [] ∧ Word p.1 ∧ Word p.2)
    (hfirst : draft.policy = []) (hnone : draft.policyOptions.keys = []) :
    draft.Reads
      (if policy = [] then []
        else line "policy" [policy] :: (sortedPairs options.entries).map fun option => line "policy_option" [option.1, option.2])
      { draft with policy := policy, policyOptions := draft.policyOptions.update (sortedPairs options.entries) } := by
  by_cases hempty : policy = []
  · have hentries : options.entries = [] := List.eq_nil_iff_forall_not_mem.mpr fun p hp => (hoptions p hp).1 hempty
    have hsorted : sortedPairs ([] : List (Text × Text)) = [] := List.mergeSort_nil
    rw [if_pos hempty, hempty, hentries, hsorted, ← hfirst]
    exact .nil draft
  · rw [if_neg hempty]
    have hone := reads_policy hname (hpolicy hempty) hfirst
    have hread := reads_dict (fun option => line "policy_option" [option.1, option.2])
      (fun d => { draft with policy := policy, policyOptions := d }) (l := sortedPairs options.entries)
      (fun option hoption d hnew => @reads_policyOption { draft with policy := policy, policyOptions := d } hname option
        (hoptions option ((sortedPairs_perm _).mem_iff.mp hoption)).2 hempty hnew)
      (by rw [hnone]; exact nodup_sortedPairs options)
    exact hone.append hread

/-- The text of a sound plan, line by line. -/
theorem reads_plan {plan : ResolvedPlan} (h : plan.Sound) : Draft.Reads {} (planLines plan) (written plan) := by
  have hphrase : Phrase (if plan.name = [] then ['-'] else plan.name) := by
    split
    · exact (@spoken_unwords [['-']] (by simp) (by decide +kernel)).phrase
    next hne => exact h.name hne
  have hunbroken : "# A RESOLVED chain, written by `shipinfer plan` -- do not hand-edit.".toList.all (fun c => !isBreak c) = true := by
    decide +kernel
  have hcomment : Draft.Reads {} ["# A RESOLVED chain, written by `shipinfer plan` -- do not hand-edit.".toList] {} :=
    .one (by simpa only [List.all_eq_true, Bool.not_eq_true'] using hunbroken) rfl
  -- One state after each section of the text.
  let d₁ : Draft := { name := (written plan).name, version := planVersion }
  let d₂ : Draft := { d₁ with settings := (written plan).settings }
  let d₃ : Draft := { d₂ with policy := plan.policy, policyOptions := (written plan).policyOptions }
  let d₄ : Draft := { d₃ with labels := (written plan).labels }
  let d₅ : Draft := { d₄ with nodes := plan.nodes }
  let d₆ : Draft := { d₅ with edges := plan.edges }
  have hname : d₁.name ≠ none := Option.some_ne_none _
  have hheader : Draft.Reads {} [line "plan" [intText planVersion, if plan.name = [] then ['-'] else plan.name]] d₁ :=
    reads_header rfl hphrase
  have hsettings : d₁.Reads _ d₂ := @reads_settings d₁ hname plan.settings h.settings rfl
  have hpolicies : d₂.Reads _ d₃ :=
    @reads_policies d₂ hname plan.policy plan.policyOptions h.policy h.policyOptions rfl rfl
  have hlabels : d₃.Reads ((sortedPairs plan.labels.entries).map fun label => line "label" [intText label.1, label.2]) d₄ :=
    reads_dict _ (fun d => { d₃ with labels := d })
      (fun label hlabel d hnew => @reads_label { d₃ with labels := d } hname label
        (h.labels label ((sortedPairs_perm _).mem_iff.mp hlabel)) hnew) (nodup_sortedPairs plan.labels)
  have hnodes : d₄.Reads (plan.nodes.flatMap nodeLines) d₅ :=
    @reads_nodes plan.nodes d₄ hname h.nodes h.slots
  have hedges : d₅.Reads _ d₆ := @reads_edges plan.edges d₅ hname h.edges
  have hfields : d₆.Reads ((sortedPairs plan.fields.entries).map fun entry => line "field" [entry.1, unwords entry.2])
      (written plan) :=
    reads_dict _ (fun d => { d₆ with fields := d })
      (fun field hfield d hnew => @reads_field { d₆ with fields := d } hname field
        (h.fields field ((sortedPairs_perm _).mem_iff.mp hfield)) hnew) (nodup_sortedPairs plan.fields)
  have hall := ((((((hcomment.append hheader).append hsettings).append hpolicies).append hlabels).append hnodes).append
    reads_blank).append hedges |>.append hfields
  unfold planLines
  rw [h.version]
  exact hall

theorem splitLines_planText {plan : ResolvedPlan} (h : plan.Sound) : splitLines (planText plan) = planLines plan := by
  have hne : planLines plan ≠ [] := by simp [planLines]
  rw [planText, unlines_eq hne, splitLines_lines (reads_plan h).unbroken]

theorem readSettings_written (settings : Option PlanSettings) :
    readSettings (Dict.empty.update (settings.toList.flatMap PlanSettings.items)) = .ok settings := by
  cases settings with
  | none => rfl
  | some settings =>
    cases settings
    rfl

/-! ## Equal plans -/

/-- Equality of plans, where the order of a mapping does not count. -/
structure ResolvedPlan.Same (p q : ResolvedPlan) : Prop where
  name : p.name = q.name
  nodes : p.nodes = q.nodes
  edges : p.edges = q.edges
  labels : ∀ index, p.labels.get? index = q.labels.get? index
  fields : ∀ name, p.fields.get? name = q.fields.get? name
  settings : p.settings = q.settings
  policy : p.policy = q.policy
  policyOptions : ∀ key, p.policyOptions.get? key = q.policyOptions.get? key
  version : p.version = q.version

section
variable {κ ν : Type*} [LinearOrder κ] [LinearOrder ν] [DecidableEq κ]

theorem update_sorted_entries (d : Dict κ ν) : (Dict.empty.update (sortedPairs d.entries)).entries = sortedPairs d.entries :=
  Dict.update_entries_of_new (nodup_sortedPairs d)

theorem get?_update_sorted (d : Dict κ ν) (k : κ) : (Dict.empty.update (sortedPairs d.entries)).get? k = d.get? k := by
  apply Option.ext
  intro v
  rw [Dict.get?_eq_some_iff, Dict.get?_eq_some_iff, update_sorted_entries, (sortedPairs_perm _).mem_iff]

theorem sortedPairs_eq {d e : Dict κ ν} (h : ∀ k, d.get? k = e.get? k) : sortedPairs d.entries = sortedPairs e.entries := by
  have hperm : d.entries.Perm e.entries := by
    rw [List.perm_ext_iff_of_nodup d.keys_nodup.of_map e.keys_nodup.of_map]
    rintro ⟨k, v⟩
    rw [← Dict.get?_eq_some_iff, ← Dict.get?_eq_some_iff, h]
  refine List.Perm.eq_of_pairwise ?_ (sortedPairs_sorted _) (sortedPairs_sorted _)
    ((sortedPairs_perm _).trans (hperm.trans (sortedPairs_perm _).symm))
  exact fun a b _ _ hab hba => toLex.injective (le_antisymm hab hba)

end

/-- Equal plans have one text. -/
theorem ResolvedPlan.Same.planText {p q : ResolvedPlan} (h : p.Same q) : planText p = planText q := by
  simp only [Plan.planText, planLines, h.name, h.nodes, h.edges, h.settings, h.policy, h.version, sortedPairs_eq h.labels,
    sortedPairs_eq h.fields, sortedPairs_eq h.policyOptions]

/-- A plan whose mappings are in the order of its text. -/
def ResolvedPlan.sorted (plan : ResolvedPlan) : ResolvedPlan :=
  { plan with
    labels := (written plan).labels
    fields := (written plan).fields
    policyOptions := (written plan).policyOptions }

theorem sorted_same (plan : ResolvedPlan) : plan.sorted.Same plan :=
  ⟨rfl, rfl, rfl, get?_update_sorted _, get?_update_sorted _, rfl, rfl, get?_update_sorted _, rfl⟩

theorem resolve_written {plan : ResolvedPlan} (h : plan.Sound) : resolve (written plan) = .ok plan.sorted := by
  have hsome : (written plan).name = some (if plan.name = [] then ['-'] else plan.name) := rfl
  have hname : (if (if plan.name = [] then ['-'] else plan.name) = ['-'] then [] else if plan.name = [] then ['-'] else plan.name) =
      plan.name := by
    by_cases hnil : plan.name = []
    · simp [hnil]
    · simp [hnil, h.stated]
  have hdeclared : undeclared (written plan) = none := by
    rw [undeclared_none]
    intro p hp
    have hsorted : p ∈ (Dict.empty.update (sortedPairs plan.fields.entries)).entries := hp
    rw [update_sorted_entries, (sortedPairs_perm _).mem_iff] at hsorted
    exact h.declared p hsorted
  have hsettings : readSettings (written plan).settings = .ok plan.settings := readSettings_written plan.settings
  unfold resolve
  simp only [hsome, hdeclared, hsettings, bind, Except.bind, hname]
  rw [show (written plan).version = plan.version from h.version.symm]
  rfl

/-- **An accepted plan's text is accepted, and is an equal plan**, whose text it is. -/
theorem parsePlan_planText {text : Text} {source : String} {plan : ResolvedPlan} (h : parsePlan text source = .ok plan) :
    ∃ plan', parsePlan (planText plan) source = .ok plan' ∧ plan'.Same plan ∧ planText plan' = planText plan := by
  have hs := parsePlan_sound h
  have hread := (reads_plan hs).read
  rw [← splitLines_planText hs] at hread
  exact ⟨plan.sorted, parsePlan_ok.mpr ⟨written plan, hread, resolve_written hs⟩, sorted_same plan, (sorted_same plan).planText⟩

/-- A plan in spellings and an order that are not those of a plan's text. -/
def looseText : Text :=
  "  plan +3  ship  person\tcpu  # by hand\r\n node a detect  yolo\nclasses cargo ship , -,x\nmin_hits 007\nlabel -1 b\nfield f a".toList

theorem loose_text_reads_back : ∃ plan plan', parsePlan looseText "loose" = .ok plan ∧
    parsePlan (planText plan) "loose" = .ok plan' ∧ plan'.Same plan ∧ planText plan' = planText plan := by
  have hok : (parsePlan looseText "loose").isOk = true := by decide +kernel
  cases hplan : parsePlan looseText "loose" with
  | error e =>
    rw [hplan] at hok
    cases hok
  | ok plan =>
    obtain ⟨plan', hback⟩ := parsePlan_planText hplan
    exact ⟨plan, plan', rfl, hback⟩

end ShipInfer.Plan
