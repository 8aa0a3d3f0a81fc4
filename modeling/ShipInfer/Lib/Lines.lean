import Mathlib.Data.List.Chain
import ShipInfer.Lib.Texts

/-!
# Lines, comments and words

The lines of a text, a line without its comment and the words of a line, as `str.splitlines`,
`str.split` and `str.strip` take them, and what is read back of lines that were put together
from words.
-/

namespace ShipInfer

/-- What ends a line. -/
def isBreak (c : Char) : Bool :=
  let n := c.toNat
  (10 ≤ n && n ≤ 13) || (28 ≤ n && n ≤ 30) || n == 0x85 || n == 0x2028 || n == 0x2029

/-- `str.splitlines` -/
def splitLines : List Char → List (List Char)
  | [] => []
  | '\r' :: '\n' :: cs => [] :: splitLines cs
  | c :: cs =>
    if isBreak c then [] :: splitLines cs
    else
      match splitLines cs with
      | [] => [[c]]
      | line :: lines => (c :: line) :: lines

/-- A line up to the `#` that begins a comment, stripped. -/
def uncomment (cs : List Char) : List Char := strip (cs.takeWhile fun c => decide (c ≠ '#'))

/-- `str.split` -/
def words (cs : List Char) : List (List Char) := (cs.splitOnP isSpace).filter fun w => decide (w ≠ [])

def unwords (ws : List (List Char)) : List Char := [' '].intercalate ws

/-- What follows the first word. -/
def afterWord (cs : List Char) : List Char := (cs.dropWhile fun c => !isSpace c).dropWhile isSpace

theorem isSpace_of_isBreak {c : Char} (h : isBreak c = true) : isSpace c = true := by
  simp only [isBreak, isSpace, Bool.or_eq_true, Bool.and_eq_true, decide_eq_true_eq, beq_iff_eq] at h ⊢
  omega

theorem isBreak_of_isSpace {c : Char} (h : isSpace c = false) : isBreak c = false := by
  cases hc : isBreak c with
  | false => rfl
  | true => rw [isSpace_of_isBreak hc] at h; cases h

/-! ## Lines -/

theorem splitLines_cons {c : Char} {cs : List Char} (hc : isBreak c = false) :
    splitLines (c :: cs) =
      match splitLines cs with
      | [] => [[c]]
      | line :: lines => (c :: line) :: lines := by
  have hne : c ≠ '\r' := by
    rintro rfl
    exact absurd hc (by decide)
  rw [splitLines, if_neg (by simp [hc])]
  intro _ heq
  exact absurd heq hne

theorem splitLines_line {line rest : List Char} (h : ∀ c ∈ line, isBreak c = false) :
    splitLines (line ++ '\n' :: rest) = line :: splitLines rest := by
  induction line with
  | nil => rfl
  | cons c line ih =>
    have hline := ih fun d hd => h d (List.mem_cons_of_mem _ hd)
    rw [List.cons_append, splitLines_cons (h c List.mem_cons_self), hline]

theorem splitLines_lines {lines : List (List Char)} (h : ∀ line ∈ lines, ∀ c ∈ line, isBreak c = false) :
    splitLines (lines.flatMap fun line => line ++ ['\n']) = lines := by
  induction lines with
  | nil => rfl
  | cons line lines ih =>
    rw [List.flatMap_cons, List.append_assoc, List.singleton_append, splitLines_line (h line List.mem_cons_self),
      ih fun l hl => h l (List.mem_cons_of_mem _ hl)]

theorem unlines_eq : ∀ {lines : List (List Char)}, lines ≠ [] →
    ['\n'].intercalate lines ++ ['\n'] = lines.flatMap fun line => line ++ ['\n']
  | [], h => absurd rfl h
  | [line], _ => by simp [List.intercalate]
  | line :: next :: lines, _ => by
    have hrest := unlines_eq (List.cons_ne_nil next lines)
    rw [List.intercalate_cons_cons, List.flatMap_cons, ← hrest]
    simp

/-- What ends a line is not in it. -/
theorem isBreak_of_mem_splitLines {cs : List Char} : ∀ line ∈ splitLines cs, ∀ c ∈ line, isBreak c = false := by
  induction cs using splitLines.induct with
  | case1 => simp [splitLines]
  | case2 cs ih =>
    intro line h c hc
    rcases List.mem_cons.mp h with rfl | h
    · cases hc
    · exact ih line h c hc
  | case3 d cs hne hbreak ih =>
    intro line h c hc
    rw [splitLines, if_pos hbreak] at h
    · rcases List.mem_cons.mp h with rfl | h
      · cases hc
      · exact ih line h c hc
    · exact hne
  | case4 d cs _ hbreak heq _ =>
    intro line h c hc
    rw [splitLines_cons (by simpa using hbreak), heq] at h
    rw [List.mem_singleton.mp h] at hc
    rw [List.mem_singleton.mp hc]
    simpa using hbreak
  | case5 d cs _ hbreak first lines heq ih =>
    intro line h c hc
    rw [heq] at ih
    rw [splitLines_cons (by simpa using hbreak), heq] at h
    rcases List.mem_cons.mp h with rfl | h
    · rcases List.mem_cons.mp hc with rfl | hc
      · simpa using hbreak
      · exact ih first List.mem_cons_self c hc
    · exact ih line (List.mem_cons_of_mem _ h) c hc

/-! ## Ends -/

theorem head_dropWhile (p : Char → Bool) (cs : List Char) : ∀ c ∈ (cs.dropWhile p).head?, p c = false := by
  intro c hc
  have := List.head?_dropWhile_not p cs
  rw [Option.mem_def.mp hc] at this
  exact this

/-- No white space at either end. -/
def Trimmed (cs : List Char) : Prop := (∀ c ∈ cs.head?, isSpace c = false) ∧ ∀ c ∈ cs.getLast?, isSpace c = false

theorem strip_of_trimmed {cs : List Char} (h : Trimmed cs) : strip cs = cs := trim_of_ends h.1 h.2

theorem trimmed_strip (cs : List Char) : Trimmed (strip cs) := by
  constructor
  · intro c hc
    have hmem : c ∈ (cs.dropWhile isSpace).head? := by
      obtain ⟨rest, hrest⟩ := List.rdropWhile_prefix isSpace (cs.dropWhile isSpace)
      rw [← hrest]
      exact List.mem_head?_append_of_mem_head? hc
    exact head_dropWhile isSpace cs c hmem
  · intro c hc
    by_contra hspace
    have hne : strip cs ≠ [] := by
      intro hnil
      rw [hnil] at hc
      cases hc
    have hlast := List.rdropWhile_last_not isSpace (cs.dropWhile isSpace) hne
    rw [List.getLast?_eq_some_getLast hne] at hc
    obtain rfl := Option.some.inj hc
    exact hlast (Bool.not_eq_false _ ▸ hspace)

theorem stripped_within (cs : List Char) : strip cs <:+: cs :=
  (List.rdropWhile_prefix isSpace _).isInfix.trans (List.dropWhile_suffix isSpace).isInfix

theorem uncomment_trimmed (cs : List Char) : Trimmed (uncomment cs) := trimmed_strip _

theorem uncommented_within (cs : List Char) : uncomment cs <:+: cs :=
  (stripped_within _).trans (List.takeWhile_prefix _).isInfix

theorem not_mem_uncomment (cs : List Char) : '#' ∉ uncomment cs := by
  intro h
  have := List.mem_takeWhile_imp ((stripped_within _).mem h)
  simp at this

theorem uncomment_of_trimmed {cs : List Char} (h : Trimmed cs) (hmark : '#' ∉ cs) : uncomment cs = cs := by
  have htake : (cs.takeWhile fun c => decide (c ≠ '#')) = cs := by
    apply List.takeWhile_eq_self_iff.mpr
    intro c hc
    apply decide_eq_true
    rintro rfl
    exact hmark hc
  rw [uncomment, htake, strip_of_trimmed h]

/-! ## Words -/

/-- What `words` finds in a line without a comment. -/
structure Word (w : List Char) : Prop where
  ne_nil : w ≠ []
  unspaced : ∀ c ∈ w, isSpace c = false
  unmarked : '#' ∉ w

instance (w : List Char) : Decidable (Word w) :=
  decidable_of_iff (w ≠ [] ∧ w.all (fun c => !isSpace c) = true ∧ '#' ∉ w)
    ⟨fun h => ⟨h.1, by simpa using h.2.1, h.2.2⟩, fun h => ⟨h.ne_nil, by simpa using h.unspaced, h.unmarked⟩⟩

theorem Word.trimmed {w : List Char} (h : Word w) : Trimmed w :=
  ⟨fun c hc => h.unspaced c (List.mem_of_head? hc), fun c hc => h.unspaced c (List.mem_of_getLast? hc)⟩

@[simp] theorem words_nil : words [] = [] := rfl

theorem words_space {c : Char} {cs : List Char} (hc : isSpace c = true) : words (c :: cs) = words cs := by
  simp [words, List.splitOnP_cons_eq_if_modifyHead, hc]

theorem words_dropWhile (cs : List Char) : words (cs.dropWhile isSpace) = words cs := by
  induction cs with
  | nil => rfl
  | cons c cs ih =>
    cases hc : isSpace c with
    | true => rw [List.dropWhile_cons_of_pos hc, ih, words_space hc]
    | false => rw [List.dropWhile_cons_of_neg (by simp [hc])]

theorem words_unspaced {w : List Char} (hne : w ≠ []) (h : ∀ c ∈ w, isSpace c = false) : words w = [w] := by
  simp [words, List.splitOnP_eq_singleton h, hne]

theorem words_append {w cs : List Char} {c : Char} (hne : w ≠ []) (h : ∀ d ∈ w, isSpace d = false)
    (hc : isSpace c = true) : words (w ++ c :: cs) = w :: words cs := by
  simp [words, List.splitOnP_append_cons_of_forall_mem h c hc, hne]

/-- The first word of a line and what follows it. -/
theorem exists_word {cs : List Char} (hne : cs ≠ []) (h : ∀ c ∈ cs.head?, isSpace c = false) :
    ∃ w rest, cs = w ++ rest ∧ w ≠ [] ∧ (∀ c ∈ w, isSpace c = false) ∧ (∀ c ∈ rest.head?, isSpace c = true) ∧
      afterWord cs = rest.dropWhile isSpace := by
  refine ⟨cs.takeWhile fun c => !isSpace c, cs.dropWhile fun c => !isSpace c, List.takeWhile_append_dropWhile.symm, ?_,
    ?_, ?_, rfl⟩
  · cases cs with
    | nil => exact absurd rfl hne
    | cons c cs => simp [h c rfl]
  · intro c hc
    simpa using List.mem_takeWhile_imp hc
  · intro c hc
    simpa using head_dropWhile (fun c => !isSpace c) cs c hc

theorem words_eq_cons {cs w rest : List Char} (hcs : cs = w ++ rest) (hne : w ≠ []) (hw : ∀ c ∈ w, isSpace c = false)
    (hrest : ∀ c ∈ rest.head?, isSpace c = true) : words cs = w :: words rest := by
  cases rest with
  | nil => rw [hcs, List.append_nil, words_unspaced hne hw, words_nil]
  | cons c rest => rw [hcs, words_append hne hw (hrest c rfl), words_space (hrest c rfl)]

theorem length_afterWord {cs : List Char} (hne : cs ≠ []) (h : ∀ c ∈ cs.head?, isSpace c = false) :
    (afterWord cs).length < cs.length := by
  obtain ⟨w, rest, hcs, hw, -, -, hafter⟩ := exists_word hne h
  have hle := (List.dropWhile_suffix isSpace (l := rest)).length_le
  have hpos := List.length_pos_of_ne_nil hw
  rw [hafter, hcs, List.length_append]
  omega

theorem afterWord_suffix (cs : List Char) : afterWord cs <:+ cs :=
  (List.dropWhile_suffix _).trans (List.dropWhile_suffix _)

theorem Trimmed.afterWord {cs : List Char} (h : Trimmed cs) : Trimmed (afterWord cs) := by
  refine ⟨head_dropWhile isSpace _, ?_⟩
  intro c hc
  obtain ⟨front, hfront⟩ := afterWord_suffix cs
  apply h.2 c
  rw [← hfront]
  exact List.mem_getLast?_append_of_mem_getLast? hc

/-- The words are the first one and those of what follows it. -/
theorem words_afterWord {cs : List Char} (hne : cs ≠ []) (h : ∀ c ∈ cs.head?, isSpace c = false) :
    ∃ w, words cs = w :: words (afterWord cs) ∧ w ≠ [] ∧ (∀ c ∈ w, isSpace c = false) ∧ ∀ c ∈ w, c ∈ cs := by
  obtain ⟨w, rest, hcs, hw, hspace, hrest, hafter⟩ := exists_word hne h
  refine ⟨w, ?_, hw, hspace, ?_⟩
  · rw [words_eq_cons hcs hw hspace hrest, hafter, words_dropWhile]
  · intro c hc
    rw [hcs]
    exact List.mem_append_left _ hc

theorem word_of_mem_words : ∀ {cs : List Char}, (∀ c ∈ cs.head?, isSpace c = false) → '#' ∉ cs → ∀ w ∈ words cs, Word w
  | [], _, _ => by simp
  | c :: cs, h, hmark => by
    intro w hw
    obtain ⟨first, hwords, hne, hspace, hmem⟩ := words_afterWord (List.cons_ne_nil c cs) h
    rw [hwords] at hw
    rcases List.mem_cons.mp hw with rfl | hw
    · exact ⟨hne, hspace, fun hc => hmark (hmem _ hc)⟩
    · have hlt := length_afterWord (List.cons_ne_nil c cs) h
      exact word_of_mem_words (head_dropWhile isSpace _) (fun hc => hmark ((afterWord_suffix _).mem hc)) w hw
  termination_by cs => cs.length
  decreasing_by exact hlt

/-! ### Lines that were put together -/

theorem words_cons {w rest : List Char} (hw : Word w) : words (w ++ ' ' :: rest) = w :: words rest :=
  words_append hw.ne_nil hw.unspaced (by decide)

theorem afterWord_cons {w rest : List Char} (hw : Word w) (h : ∀ c ∈ rest.head?, isSpace c = false) :
    afterWord (w ++ ' ' :: rest) = rest := by
  have hall : ∀ c ∈ w, (fun c => !isSpace c) c = true := by
    intro c hc
    simp [hw.unspaced c hc]
  rw [afterWord, List.dropWhile_append_of_pos hall, List.dropWhile_cons_of_neg (by decide),
    List.dropWhile_cons_of_pos (by decide)]
  cases rest with
  | nil => rfl
  | cons c rest => rw [List.dropWhile_cons_of_neg (by simp [h c rfl])]

theorem not_mem_intercalate {sep c : Char} (hsep : c ≠ sep) {texts : List (List Char)} (h : ∀ cs ∈ texts, c ∉ cs) :
    c ∉ [sep].intercalate texts := by
  induction texts with
  | nil => simp
  | cons cs texts ih =>
    have hcs := h cs List.mem_cons_self
    have hrest := ih fun ds hds => h ds (List.mem_cons_of_mem _ hds)
    cases texts with
    | nil => simpa [List.intercalate] using hcs
    | cons ds texts =>
      rw [List.intercalate_cons_cons]
      simp [hcs, hsep, hrest]

@[simp] theorem unwords_singleton (w : List Char) : unwords [w] = w := by simp [unwords]

theorem unwords_cons (w : List Char) {ws : List (List Char)} (h : ws ≠ []) : unwords (w :: ws) = w ++ ' ' :: unwords ws := by
  cases ws with
  | nil => exact absurd rfl h
  | cons v ws => simp [unwords, List.intercalate]

/-- White space is single blanks, between other characters. -/
structure Tidy (cs : List Char) : Prop where
  blank : ∀ c ∈ cs, isSpace c = true → c = ' '
  single : cs.IsChain fun a b => a = ' ' → b ≠ ' '
  first : cs.head? ≠ some ' '
  last : cs.getLast? ≠ some ' '

theorem Tidy.nil : Tidy [] := ⟨by simp, .nil, by simp, by simp⟩

theorem Tidy.trimmed {cs : List Char} (h : Tidy cs) : Trimmed cs := by
  constructor
  · intro c hc
    by_contra hspace
    have := h.blank c (List.mem_of_head? hc) (by simpa using hspace)
    exact h.first (this ▸ hc)
  · intro c hc
    by_contra hspace
    have := h.blank c (List.mem_of_getLast? hc) (by simpa using hspace)
    exact h.last (this ▸ hc)

theorem Word.tidy {w : List Char} (h : Word w) : Tidy w := by
  have hne : ∀ c ∈ w, c ≠ ' ' := by
    rintro c hc rfl
    exact absurd (h.unspaced _ hc) (by decide)
  refine ⟨fun c hc hspace => ?_, ?_, fun hc => ?_, fun hc => ?_⟩
  · rw [h.unspaced c hc] at hspace
    cases hspace
  · exact (List.pairwise_of_forall_mem_list fun a ha b _ heq => absurd heq (hne a ha)).isChain
  · exact hne _ (List.mem_of_head? hc) rfl
  · exact hne _ (List.mem_of_getLast? hc) rfl

theorem Tidy.glue {as bs : List Char} {c : Char} (ha : Tidy as) (hb : Tidy bs) (hc : isSpace c = true → c = ' ')
    (hanil : c = ' ' → as ≠ []) (hbnil : c = ' ' → bs ≠ []) : Tidy (as ++ c :: bs) := by
  refine ⟨?_, ?_, ?_, ?_⟩
  · intro d hd
    rcases List.mem_append.mp hd with hd | hd
    · exact ha.blank d hd
    · rcases List.mem_cons.mp hd with rfl | hd
      · exact hc
      · exact hb.blank d hd
  · apply List.IsChain.append ha.single
    · apply List.IsChain.cons hb.single
      rintro y hy - rfl
      exact hb.first hy
    · rintro x hx y - rfl
      exact absurd hx ha.last
  · cases as with
    | nil =>
      intro h
      exact hanil (by simpa using h) rfl
    | cons a as => exact ha.first
  · cases bs with
    | nil =>
      intro h
      exact hbnil (by simpa using h) rfl
    | cons b bs =>
      intro h
      apply hb.last
      simpa using h

theorem tidy_unwords {ws : List (List Char)} (h : ∀ w ∈ ws, Word w) : Tidy (unwords ws) ∧ (ws ≠ [] → unwords ws ≠ []) := by
  induction ws with
  | nil => exact ⟨.nil, fun hne => absurd rfl hne⟩
  | cons w ws ih =>
    have hw := h w List.mem_cons_self
    obtain ⟨htidy, hne⟩ := ih fun v hv => h v (List.mem_cons_of_mem _ hv)
    by_cases hws : ws = []
    · rw [hws, unwords_singleton]
      exact ⟨hw.tidy, fun _ => hw.ne_nil⟩
    · rw [unwords_cons w hws]
      exact ⟨hw.tidy.glue htidy (fun _ => rfl) (fun _ => hw.ne_nil) (fun _ => hne hws), by simp⟩

/-- The words of a tidy text give it back. -/
theorem Tidy.unwords_words : ∀ {cs : List Char}, Tidy cs → unwords (words cs) = cs
  | [], _ => rfl
  | c :: cs, h => by
    obtain ⟨w, rest, hcs, hw, hspace, hrest, -⟩ := exists_word (List.cons_ne_nil c cs) h.trimmed.1
    cases rest with
    | nil =>
      rw [List.append_nil] at hcs
      rw [hcs, words_unspaced hw hspace, unwords_singleton]
    | cons d tl =>
      have hsuffix : tl <:+ c :: cs := ⟨w ++ [d], by rw [hcs, List.append_assoc, List.singleton_append]⟩
      obtain rfl : d = ' ' := h.blank d (by rw [hcs]; simp) (hrest d rfl)
      have hchain : (' ' :: tl).IsChain fun a b => a = ' ' → b ≠ ' ' := (hcs ▸ h.single).right_of_append
      have htl : tl ≠ [] := by
        rintro rfl
        apply h.last
        rw [hcs]
        simp
      have htidy : Tidy tl := by
        refine ⟨fun e he => h.blank e (hsuffix.mem he), h.single.suffix hsuffix, ?_, ?_⟩
        · exact fun hfirst => (List.isChain_cons.mp hchain).1 ' ' hfirst rfl rfl
        · intro hlast
          apply h.last
          obtain ⟨front, hfront⟩ := hsuffix
          rw [← hfront]
          exact List.mem_getLast?_append_of_mem_getLast? hlast
      have hlength : tl.length < (c :: cs).length := by
        rw [hcs, List.length_append, List.length_cons]
        omega
      obtain ⟨v, hv, -⟩ := words_afterWord htl htidy.trimmed.1
      have hne : words tl ≠ [] := by
        rw [hv]
        exact List.cons_ne_nil _ _
      rw [hcs, words_append hw hspace (by decide), unwords_cons w hne, Tidy.unwords_words htidy]
  termination_by cs => cs.length
  decreasing_by exact hlength

theorem words_unwords {ws : List (List Char)} (h : ∀ w ∈ ws, Word w) : words (unwords ws) = ws := by
  induction ws with
  | nil => rfl
  | cons w ws ih =>
    have hw := h w List.mem_cons_self
    have hrest := ih fun v hv => h v (List.mem_cons_of_mem _ hv)
    by_cases hws : ws = []
    · rw [hws, unwords_singleton, words_unspaced hw.ne_nil hw.unspaced]
    · rw [unwords_cons w hws, words_cons hw, hrest]

/-! ### Lists with a separator -/

theorem of_mem_splitOnP {p : Char → Bool} (cs : List Char) :
    ∃ first pieces, cs.splitOnP p = first :: pieces ∧ first <+: cs ∧ (∀ c ∈ first, p c = false) ∧
      ∀ piece ∈ pieces, piece <:+: cs ∧ ∀ c ∈ piece, p c = false := by
  induction cs with
  | nil => exact ⟨[], [], rfl, List.prefix_rfl, by simp, by simp⟩
  | cons c cs ih =>
    obtain ⟨first, pieces, heq, hhead, hfirst, hpieces⟩ := ih
    have hmore : ∀ piece ∈ pieces, piece <:+: c :: cs ∧ ∀ c ∈ piece, p c = false := fun piece hp =>
      ⟨(hpieces piece hp).1.trans (List.suffix_cons c cs).isInfix, (hpieces piece hp).2⟩
    rw [List.splitOnP_cons_eq_if_modifyHead, heq]
    cases hc : p c with
    | true =>
      refine ⟨[], first :: pieces, rfl, List.nil_prefix, by simp, ?_⟩
      intro piece hp
      rcases List.mem_cons.mp hp with rfl | hp
      · exact ⟨hhead.isInfix.trans (List.suffix_cons c cs).isInfix, hfirst⟩
      · exact hmore piece hp
    | false =>
      refine ⟨c :: first, pieces, rfl, List.cons_prefix_cons.mpr ⟨rfl, hhead⟩, ?_, hmore⟩
      intro d hd
      rcases List.mem_cons.mp hd with rfl | hd
      · exact hc
      · exact hfirst d hd

theorem infix_of_mem_splitOn {cs piece : List Char} {sep : Char} (h : piece ∈ cs.splitOn sep) : piece <:+: cs ∧ sep ∉ piece := by
  rw [List.splitOn_eq_splitOnP] at h
  obtain ⟨first, pieces, heq, hhead, hfirst, hpieces⟩ := of_mem_splitOnP (p := (· == sep)) cs
  rw [heq] at h
  have hnot : ∀ {as : List Char}, (∀ c ∈ as, (c == sep) = false) → sep ∉ as := fun has hmem => by simpa using has sep hmem
  rcases List.mem_cons.mp h with rfl | h
  · exact ⟨hhead.isInfix, hnot hfirst⟩
  · exact ⟨(hpieces piece h).1, hnot (hpieces piece h).2⟩

theorem Tidy.strip {cs piece : List Char} (h : Tidy cs) (hpiece : piece <:+: cs) : Tidy (strip piece) := by
  have hwithin := (stripped_within piece).trans hpiece
  obtain ⟨hfirst, hlast⟩ := trimmed_strip piece
  refine ⟨fun c hc => h.blank c (hwithin.mem hc), h.single.infix hwithin, fun hc => ?_, fun hc => ?_⟩
  · exact absurd (hfirst _ hc) (by decide)
  · exact absurd (hlast _ hc) (by decide)

theorem tidy_intercalate {sep : Char} (hsep : isSpace sep = false) {texts : List (List Char)} (h : ∀ cs ∈ texts, Tidy cs) :
    Tidy ([sep].intercalate texts) := by
  have hne : sep ≠ ' ' := by
    rintro rfl
    exact absurd hsep (by decide)
  induction texts with
  | nil => exact .nil
  | cons cs texts ih =>
    have hcs := h cs List.mem_cons_self
    have hrest := ih fun ds hds => h ds (List.mem_cons_of_mem _ hds)
    cases texts with
    | nil => simpa [List.intercalate] using hcs
    | cons ds texts =>
      have : [sep].intercalate (cs :: ds :: texts) = cs ++ sep :: [sep].intercalate (ds :: texts) := by
        simp [List.intercalate]
      rw [this]
      exact hcs.glue hrest (fun hspace => by rw [hsep] at hspace; cases hspace) (fun he => absurd he hne)
        fun he => absurd he hne

end ShipInfer
