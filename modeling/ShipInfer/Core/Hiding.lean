import Mathlib
import ShipInfer.Core.Redact
import ShipInfer.Core.Veil

/-!
# Redaction hides the password

What both planes print of a URI, and that both veil a text.
-/

namespace ShipInfer.Redact

open Letters Pattern

theorem isSpace_of_isAlpha {c : Char} (h : c.isAlpha = true) : isSpace c = false := by
  simp only [Char.isAlpha, Char.isUpper, Char.isLower, Bool.or_eq_true, Bool.and_eq_true, decide_eq_true_eq,
    UInt32.le_iff_toNat_le] at h
  have hrange : (65 ≤ c.toNat ∧ c.toNat ≤ 90) ∨ (97 ≤ c.toNat ∧ c.toNat ≤ 122) := h
  simp [isSpace]
  omega

theorem schemeClass_plain {c : Char} (h : schemeClass c = true) :
    isSpace c = false ∧ c ≠ ':' ∧ c ≠ '/' ∧ c ≠ '@' := by
  refine ⟨?_, ?_, ?_, ?_⟩
  · simp only [schemeClass, Bool.or_eq_true, beq_iff_eq] at h
    rcases h with (((h | h) | rfl) | rfl) | rfl
    · exact isSpace_of_isAlpha h
    · exact isSpace_of_isDigit h
    · decide
    · decide
    · decide
  all_goals
    intro he
    subst he
    revert h
    decide

theorem Cpp.isSchemeChar_plain {c : UInt8} (h : isSchemeChar c = true) :
    isSpace c = false ∧ c ≠ ':'.toUInt8 ∧ c ≠ '/'.toUInt8 ∧ c ≠ '@'.toUInt8 := by
  refine ⟨?_, ?_, ?_, ?_⟩
  · cases hs : isSpace c with
    | false => rfl
    | true =>
      exfalso
      simp only [isSpace, Bool.or_eq_true, beq_iff_eq] at hs
      rcases hs with ((((rfl | rfl) | rfl) | rfl) | rfl) | rfl <;> revert h <;> decide
  all_goals
    intro he
    subst he
    revert h
    decide

instance : Letters Char where
  colon := ':'
  slash := '/'
  atSign := '@'
  star := '*'
  space := isSpace
  alpha := Char.isAlpha
  schemeChar := schemeClass
  colon_ne_slash := by decide
  colon_ne_atSign := by decide
  slash_ne_atSign := by decide
  space_colon := by decide
  space_slash := by decide
  space_atSign := by decide
  schemeChar_of_alpha h := by simp [schemeClass, h]
  schemeChar_plain := schemeClass_plain
  alpha_star := by decide

instance : Letters UInt8 where
  colon := ':'.toUInt8
  slash := '/'.toUInt8
  atSign := '@'.toUInt8
  star := '*'.toUInt8
  space := Cpp.isSpace
  alpha := Cpp.isAlpha
  schemeChar := Cpp.isSchemeChar
  colon_ne_slash := by decide
  colon_ne_atSign := by decide
  slash_ne_atSign := by decide
  space_colon := by decide
  space_slash := by decide
  space_atSign := by decide
  schemeChar_of_alpha h := by simp [Cpp.isSchemeChar, h]
  schemeChar_plain := Cpp.isSchemeChar_plain
  alpha_star := by decide

section
variable {α : Type} [DecidableEq α] [Letters α] {l : Login α} {host : List α}

/-- Behind the scheme of a URI the last `@` is that before the last host. -/
theorem uri_split (l : Login α) (pw : Password α) (host : List α) : ∃ word,
    l.user ++ colon :: (pw.text ++ atSign :: host) = (l.user ++ colon :: word) ++ atSign :: lastHost host ∧
      atSign ∉ lastHost host := by
  cases hi : rfind atSign host with
  | none =>
    refine ⟨pw.text, by simp [lastHost, rpartition, hi], ?_⟩
    simpa [lastHost, rpartition, hi] using rfind_eq_none.mp hi
  | some i =>
    obtain ⟨a, b, rfl, hb, rfl⟩ := rfind_eq_some.mp hi
    have hlast : lastHost (a ++ atSign :: b) = b := by simp [lastHost, rpartition_last hb]
    rw [hlast]
    exact ⟨pw.text ++ atSign :: a, by simp, hb⟩

end

theorem redact_uri (l : Login Char) (pw : Password Char) (host : List Char) :
    redact (some (l.uri pw host)) = covered unparseable l host := by
  obtain ⟨word, hword, hlast⟩ := uri_split l pw host
  have huri : l.uri pw host = l.scheme ++ (':' :: ['/', '/'] ++ (l.user ++ ':' :: word ++ '@' :: lastHost host)) := by
    refine Eq.trans ?_ (congrArg (fun t => l.scheme ++ (':' :: ['/', '/'] ++ t)) hword)
    show l.scheme ++ ([':', '/', '/'] ++ (l.user ++ [':'])) ++ (pw.text ++ '@' :: host) =
      l.scheme ++ (':' :: ['/', '/'] ++ (l.user ++ ':' :: (pw.text ++ '@' :: host)))
    simp
  have hscheme : partition [':', '/', '/'] (l.uri pw host) =
      some (l.scheme, l.user ++ ':' :: word ++ '@' :: lastHost host) := by
    rw [huri]
    exact partition_first _ l.scheme_ok.colon_notMem
  have hhost : rpartition '@' (l.user ++ ':' :: word ++ '@' :: lastHost host) =
      some (l.user ++ ':' :: word, lastHost host) := rpartition_last hlast
  have huser : partition [':'] (l.user ++ ':' :: word) = some (l.user, word) :=
    partition_first word fun hm => (l.user_ok _ hm).2 rfl
  have hne : l.uri pw host ≠ [] := by simp [huri]
  unfold redact
  split
  · simp_all
  · rename_i heq
    exact absurd (Option.some.inj heq) hne
  · rename_i uri _ heq
    obtain rfl := Option.some.inj heq
    simp only [hscheme, hhost, huser, covered]
    split
    · rfl
    · simp only [Login.shown, Login.opening, mark, stars, placeholder, List.append_assoc, List.cons_append,
        List.nil_append]
      rfl

theorem Cpp.redact_uri (l : Login UInt8) (pw : Password UInt8) (host : List UInt8) :
    redactUri (l.uri pw host) = covered (lit unparseable) l host := by
  obtain ⟨word, hword, hlast⟩ := uri_split l pw host
  have huri : l.uri pw host =
      l.scheme ++ (lit [':', '/', '/'] ++ (l.user ++ ':'.toUInt8 :: word ++ '@'.toUInt8 :: lastHost host)) := by
    refine Eq.trans ?_ (congrArg (fun t => l.scheme ++ (lit [':', '/', '/'] ++ t)) hword)
    show l.scheme ++ (lit [':', '/', '/'] ++ (l.user ++ lit [':'])) ++ (pw.text ++ '@'.toUInt8 :: host) =
      l.scheme ++ (lit [':', '/', '/'] ++ (l.user ++ ':'.toUInt8 :: (pw.text ++ '@'.toUInt8 :: host)))
    simp [lit]
  have hscheme : find (lit [':', '/', '/']) (l.uri pw host) = some l.scheme.length := by
    rw [huri]
    exact find_first _ l.scheme_ok.colon_notMem
  have hdrop : (l.uri pw host).drop (l.scheme.length + 3) = l.user ++ ':'.toUInt8 :: word ++ '@'.toUInt8 :: lastHost host := by
    rw [huri, ← List.append_assoc, List.drop_left' (by simp [lit])]
  have htake : (l.uri pw host).take l.scheme.length = l.scheme := by rw [huri, List.take_left]
  have hhost : rfind '@'.toUInt8 (l.user ++ ':'.toUInt8 :: word ++ '@'.toUInt8 :: lastHost host) =
      some (l.user ++ ':'.toUInt8 :: word).length := rfind_eq_some.mpr ⟨_, _, rfl, hlast, rfl⟩
  have hhead : (l.user ++ ':'.toUInt8 :: word ++ '@'.toUInt8 :: lastHost host).take (l.user ++ ':'.toUInt8 :: word).length =
      l.user ++ ':'.toUInt8 :: word := List.take_left
  have htail : (l.user ++ ':'.toUInt8 :: word ++ '@'.toUInt8 :: lastHost host).drop
      ((l.user ++ ':'.toUInt8 :: word).length + 1) = lastHost host := by
    rw [List.append_cons (l.user ++ ':'.toUInt8 :: word), List.drop_left' (by simp; omega)]
  have huser : find (lit [':']) (l.user ++ ':'.toUInt8 :: word) = some l.user.length :=
    find_first word fun hm => (l.user_ok _ hm).2 rfl
  have hne : l.uri pw host ≠ [] := by simp [huri, lit]
  have hcut : (l.user ++ ':'.toUInt8 :: word).take l.user.length = l.user := List.take_left
  simp only [redactUri, if_neg hne, hscheme, hdrop, hhost, hhead, htail, huser, htake, hcut, covered]
  split
  · rfl
  · simp only [Login.shown, Login.opening, mark, stars, placeholder, List.append_assoc, List.cons_append,
      List.nil_append]
    rfl

theorem userClass_eq : userClass = (userChar : Char → Bool) := by
  funext c
  simp only [userClass, userChar, Bool.not_or]
  rfl

/-- The password's group ends at the last `@` of its word. -/
theorem run_password (s : List Char) : (runGroups (embedded.drop 3) s).map Prod.snd = closeAt s := by
  have hk : runGroup (runGroups [[Piece.one (· == '@')]]) [] = behind '@' fun r => (([] : List Char), [['@']], r) := by
    funext r
    cases r with
    | nil => rfl
    | cons d r =>
      rw [runGroup_nil, runGroups_cons]
      by_cases hd : d = '@'
      · rw [runGroup_one _ _ _ _ _ (by simp [hd])]
        simp [behind, hd, runGroup_nil, runGroups]
      · rw [runGroup_one_refused _ _ _ _ _ (by simp [hd])]
        simp [behind, hd]
  have hdrop : embedded.drop 3 =
      [[.one fun c => !isSpace c, .many fun c => !isSpace c], [.one (· == '@')]] := rfl
  rw [hdrop, runGroups_cons]
  cases s with
  | nil => rfl
  | cons c s =>
    by_cases hc : isSpace c = true
    · have hspace : Letters.space c = true := hc
      rw [runGroup_one_refused _ _ _ _ _ (by simp [hc])]
      simp [closeAt, hspace]
    · have hspace : Letters.space c = false := by
        cases h : Letters.space c with
        | false => rfl
        | true => exact absurd h hc
      rw [runGroup_one _ _ _ _ _ (by simp [hc]), runGroup_many, hk, greedy_last (by decide)]
      simp only [closeAt, hspace, Option.map_map]
      rfl

/-- The user's group is all user characters up to the colon. -/
theorem run_user (s : List Char) : runGroups (embedded.drop 1) s =
    if s.takeWhile userChar ≠ [] ∧ (s.dropWhile userChar).head? = some ':' then
      (runGroups (embedded.drop 3) (s.dropWhile userChar).tail).map fun m => (s.takeWhile userChar :: [':'] :: m.1, m.2)
    else none := by
  have hdrop : embedded.drop 1 =
      [.one userClass, .many userClass] :: [.one (· == ':')] :: embedded.drop 3 := rfl
  have hcolon : ∀ r, runGroups ([.one (· == ':')] :: embedded.drop 3) r =
      if r.head? = some ':' then (runGroups (embedded.drop 3) r.tail).map fun m => ([':'] :: m.1, m.2) else none := by
    intro r
    rw [runGroups_cons]
    cases r with
    | nil => rfl
    | cons d r =>
      by_cases hd : d = ':'
      · rw [runGroup_one _ _ _ _ _ (by simp [hd]), runGroup_nil]
        simp [hd, Function.comp_def]
      · rw [runGroup_one_refused _ _ _ _ _ (by simp [hd])]
        simp [hd]
  rw [hdrop, runGroups_cons, userClass_eq]
  cases s with
  | nil => rfl
  | cons c s =>
    by_cases hc : userChar c = true
    · have hrefused : ∀ d r, userChar d = true →
          runGroup (runGroups ([.one (· == ':')] :: embedded.drop 3)) [] (d :: r) = none := by
        intro d r hd
        have hne : d ≠ ':' := (userChar_iff.mp hd).2.1
        rw [runGroup_nil, hcolon]
        simp [hne]
      rw [runGroup_one _ _ _ _ _ hc, runGroup_many, greedy_of_refused hrefused, runGroup_nil, hcolon,
        List.takeWhile_cons_of_pos hc, List.dropWhile_cons_of_pos hc]
      by_cases hr : (s.dropWhile userChar).head? = some ':'
      · simp [hr, Function.comp_def]
      · simp [hr]
    · rw [runGroup_one_refused _ _ _ _ _ hc, List.takeWhile_cons_of_neg hc]
      simp

/-- The scheme's group is all scheme characters up to the mark. -/
theorem run_scheme (s : List Char) : runGroups embedded s =
    if s.head?.any Char.isAlpha = true ∧ [':', '/', '/'] <+: s.dropWhile schemeClass then
      (runGroups (embedded.drop 1) ((s.dropWhile schemeClass).drop 3)).map fun m =>
        ((s.takeWhile schemeClass ++ [':', '/', '/']) :: m.1, m.2)
    else none := by
  have hdrop : embedded =
      [.one Char.isAlpha, .many schemeClass, .one (· == ':'), .one (· == '/'), .one (· == '/')] :: embedded.drop 1 := rfl
  have hmark : ∀ (k : List Char → Option (List (List Char) × List Char)) r,
      runGroup k [.one (· == ':'), .one (· == '/'), .one (· == '/')] r =
        if [':', '/', '/'] <+: r then (k (r.drop 3)).map fun m => ([':', '/', '/'], m) else none := by
    intro k r
    by_cases hp : [':', '/', '/'] <+: r
    · obtain ⟨t, rfl⟩ := hp
      rw [if_pos (List.prefix_append _ _)]
      simp only [List.cons_append, List.nil_append]
      rw [runGroup_one _ _ _ _ _ rfl, runGroup_one _ _ _ _ _ rfl, runGroup_one _ _ _ _ _ rfl, runGroup_nil]
      simp [Function.comp_def]
    · rw [if_neg hp]
      cases r with
      | nil => rfl
      | cons a r =>
        by_cases ha : a = ':'
        · subst ha
          rw [runGroup_one _ _ _ _ _ rfl]
          cases r with
          | nil => rfl
          | cons b r =>
            by_cases hb : b = '/'
            · subst hb
              rw [runGroup_one _ _ _ _ _ rfl]
              cases r with
              | nil => rfl
              | cons c r =>
                have hc : ¬ (c == '/') = true := by
                  intro he
                  apply hp
                  rw [beq_iff_eq.mp he]
                  exact ⟨r, rfl⟩
                rw [runGroup_one_refused _ (· == '/') _ _ _ hc]
                rfl
            · rw [runGroup_one_refused _ _ _ _ _ (by simp [hb])]
              rfl
        · rw [runGroup_one_refused _ _ _ _ _ (by simp [ha])]
  rw [hdrop, runGroups_cons]
  cases s with
  | nil => rfl
  | cons c s =>
    by_cases hc : c.isAlpha = true
    · have hscheme : schemeClass c = true := by simp [schemeClass, hc]
      have hrefused : ∀ d r, schemeClass d = true →
          runGroup (runGroups (embedded.drop 1)) [.one (· == ':'), .one (· == '/'), .one (· == '/')] (d :: r) = none := by
        intro d r hd
        exact runGroup_one_refused _ _ _ _ _ (by simp [(schemeClass_plain hd).2.1])
      rw [runGroup_one _ _ _ _ _ hc, runGroup_many, greedy_of_refused hrefused, hmark,
        List.takeWhile_cons_of_pos hscheme, List.dropWhile_cons_of_pos hscheme]
      by_cases hr : [':', '/', '/'] <+: s.dropWhile schemeClass
      · simp only [hr, if_true, List.head?_cons, Option.any_some, hc, Option.map_map, and_self]
        rfl
      · simp [hr]
    · rw [runGroup_one_refused _ _ _ _ _ hc]
      simp [hc]

theorem run_embedded (s : List Char) :
    (runGroups embedded s).map (fun m => (replacement m.1, m.2)) = hide s := by
  have hopen : openAt s =
      if (s.head?.any Char.isAlpha = true ∧ [':', '/', '/'] <+: s.dropWhile schemeClass) ∧
          ((s.dropWhile schemeClass).drop 3).takeWhile userChar ≠ [] ∧
          (((s.dropWhile schemeClass).drop 3).dropWhile userChar).head? = some ':' then
        some (s.takeWhile schemeClass ++ ([':', '/', '/'] ++
            (((s.dropWhile schemeClass).drop 3).takeWhile userChar ++ [':'])),
          (((s.dropWhile schemeClass).drop 3).dropWhile userChar).tail)
      else none := rfl
  rw [run_scheme, hide, hopen]
  by_cases hs : s.head?.any Char.isAlpha = true ∧ [':', '/', '/'] <+: s.dropWhile schemeClass
  · rw [if_pos hs, run_user]
    by_cases hu : ((s.dropWhile schemeClass).drop 3).takeWhile userChar ≠ [] ∧
        (((s.dropWhile schemeClass).drop 3).dropWhile userChar).head? = some ':'
    · rw [if_pos hu, if_pos ⟨hs, hu⟩, Option.bind_some, ← run_password, Option.map_map, Option.map_map, Option.map_map]
      congr 1
      funext m
      simp only [Function.comp_apply, replacement, List.getD_cons_zero, List.getD_cons_succ, Prod.mk.injEq, and_true,
        List.append_assoc]
      rfl
    · rw [if_neg hu, if_neg fun h => hu h.2]
      rfl
  · rw [if_neg hs, if_neg fun h => hs h.1]
    rfl

theorem redact_in (text : List Char) : redactIn text = veil text := congrArg (sub · text) (funext run_embedded)

namespace Cpp

section
variable {text d x t : List UInt8} {turns : Nat}

theorem slice_append (h : text = (d ++ x) ++ t) : slice text d.length (d ++ x).length = x := by
  rw [slice, h, List.take_left, List.drop_left]

theorem stopOf_append (p : UInt8 → Bool) (h : text = d ++ t) :
    stopOf p text d.length = (d ++ t.takeWhile p).length := by
  rw [stopOf, h, List.drop_left, List.length_append]

/-- The letters before a place do not reach over it. -/
def Cut (d s : List UInt8) : Prop :=
  (∀ c ∈ d.getLast?, isSchemeChar c = false) ∨ ∀ c ∈ s.head?, isSchemeChar c = false ∧ c ≠ ':'.toUInt8

theorem run_of_cut {a r : List UInt8} (h : Cut d (a ++ (mark ++ r))) :
    (d ++ a).reverse.takeWhile isSchemeChar = a.reverse.takeWhile isSchemeChar := by
  rw [List.reverse_append]
  rcases h with h | h
  · have hd : d.reverse.takeWhile isSchemeChar = [] := by
      cases hr : d.reverse with
      | nil => rfl
      | cons c t => simp [h c (by simp [← List.head?_reverse, hr])]
    rw [List.takeWhile_append]
    split
    · rename_i hlen
      rw [hd, List.append_nil]
      exact ((List.takeWhile_prefix _).eq_of_length hlen).symm
    · rfl
  · cases a with
    | nil => exact absurd rfl (h ':'.toUInt8 rfl).2
    | cons c a => exact takeWhile_append_of_stop ⟨c, by simp, (h c (by simp)).1⟩

/-- The scheme that a mark ends begins before it where some letters before it are a scheme. -/
theorem schemeOf_eq_iff {a r : List UInt8} (htext : text = d ++ (a ++ (mark ++ r))) (h : Cut d (a ++ (mark ++ r))) :
    schemeOf text (d ++ a).length = (d ++ a).length ↔ ∀ g, g <:+ a → ¬ IsScheme g := by
  have htake : text.take (d ++ a).length = d ++ a := by rw [htext, ← List.append_assoc, List.take_left]
  have hrun : ((text.take (d ++ a).length).reverse.takeWhile isSchemeChar).length = (a.rtakeWhile isSchemeChar).length := by
    rw [htake, run_of_cut h, List.rtakeWhile, List.length_reverse]
  have hsplit : d ++ a = (d ++ a.rdropWhile isSchemeChar) ++ a.rtakeWhile isSchemeChar := by
    rw [List.append_assoc]
    congr 1
    simp only [List.rdropWhile, List.rtakeWhile, ← List.reverse_append, List.takeWhile_append_dropWhile,
      List.reverse_reverse]
  have hlen : (d ++ a).length = (d ++ a.rdropWhile isSchemeChar).length + (a.rtakeWhile isSchemeChar).length := by
    rw [← List.length_append, ← hsplit]
  have hback : (d ++ a).length - (a.rtakeWhile isSchemeChar).length = (d ++ a.rdropWhile isSchemeChar).length := by omega
  have hslice : slice text (d ++ a.rdropWhile isSchemeChar).length (d ++ a).length = a.rtakeWhile isSchemeChar := by
    rw [slice, htake]
    refine (congrArg (List.drop _) hsplit).trans ?_
    rw [List.drop_left]
  have hword : schemeOf text (d ++ a).length = (d ++ a).length ↔ ∀ c ∈ a.rtakeWhile isSchemeChar, isAlpha c = false := by
    rw [schemeOf, hrun, hback, hslice, hlen, Nat.add_left_cancel_iff]
    constructor
    · intro hall c hc
      have heq := (List.takeWhile_prefix fun c => !isAlpha c).eq_of_length hall
      rw [← heq] at hc
      simpa using List.mem_takeWhile_imp hc
    · intro hall
      rw [List.takeWhile_eq_self_iff.mpr]
      intro c hc
      simp [hall c hc]
  rw [hword]
  constructor
  · intro hno g hg hscheme
    cases g with
    | nil => exact hscheme.ne_nil rfl
    | cons c g =>
      obtain ⟨f, rfl⟩ := hg
      have hmem : c ∈ (f ++ c :: g).rtakeWhile isSchemeChar := by
        rw [List.rtakeWhile, List.mem_reverse, List.reverse_append,
          List.takeWhile_append_of_pos (p := isSchemeChar) fun e he => hscheme.schemeChar e (List.mem_reverse.mp he)]
        simp
      have halpha := hno c hmem
      rw [show isAlpha c = true from hscheme.1] at halpha
      cases halpha
  · intro hno c hc
    cases halpha : isAlpha c with
    | false => rfl
    | true =>
      obtain ⟨f, g, hfg⟩ := List.append_of_mem hc
      have hall : ∀ e ∈ a.rtakeWhile isSchemeChar, isSchemeChar e = true := fun e he =>
        List.mem_takeWhile_imp (List.mem_reverse.mp he)
      refine absurd ⟨halpha, fun e he => hall e (by simp [hfg, he])⟩ (hno (c :: g) ?_)
      refine List.IsSuffix.trans ⟨f, hfg.symm⟩ ⟨a.rdropWhile isSchemeChar, ?_⟩
      simp only [List.rdropWhile, List.rtakeWhile, ← List.reverse_append, List.takeWhile_append_dropWhile,
        List.reverse_reverse]

end

section
variable {text : List UInt8} {turns cursor mark colon stop i : Nat}

theorem scan_none (hlt : cursor < text.length) (hmark : findFrom (lit [':', '/', '/']) text cursor = none) :
    scan text (turns + 1) cursor = text.drop cursor := by
  rw [scan, if_pos hlt, hmark]

theorem scan_no_scheme (hlt : cursor < text.length)
    (hmark : findFrom (lit [':', '/', '/']) text cursor = some mark) (hscheme : schemeOf text mark = mark) :
    scan text (turns + 1) cursor = slice text cursor (mark + 3) ++ scan text turns (mark + 3) := by
  rw [scan, if_pos hlt, hmark]
  simp only [hscheme, if_true]

theorem scan_no_user (hlt : cursor < text.length)
    (hmark : findFrom (lit [':', '/', '/']) text cursor = some mark) (hscheme : schemeOf text mark ≠ mark)
    (hcolon : stopOf isUserChar text (mark + 3) = colon) (hno : colon = mark + 3 ∨ text[colon]? ≠ some ':'.toUInt8) :
    scan text (turns + 1) cursor = slice text cursor colon ++ scan text turns colon := by
  rw [scan, if_pos hlt, hmark]
  simp only [hscheme, if_false, hcolon, if_pos hno]

variable (hlt : cursor < text.length) (hmark : findFrom (lit [':', '/', '/']) text cursor = some mark)
  (hscheme : schemeOf text mark ≠ mark) (hcolon : stopOf isUserChar text (mark + 3) = colon)
  (hyes : ¬ (colon = mark + 3 ∨ text[colon]? ≠ some ':'.toUInt8))
  (hstop : stopOf (fun c => !isSpace c) text (colon + 1) = stop)
include hlt hmark hscheme hcolon hyes hstop

theorem scan_no_password (hno : ∀ i ∈ rfind '@'.toUInt8 (text.take stop), i < colon + 2) :
    scan text (turns + 1) cursor = slice text cursor stop ++ scan text turns stop := by
  rw [scan, if_pos hlt, hmark]
  simp only [hscheme, if_false, hcolon, if_neg hyes, hstop]
  cases hi : rfind '@'.toUInt8 (text.take stop) with
  | none => rfl
  | some i => simp only [if_pos (hno i (by simp [hi]))]

theorem scan_login (hat : rfind '@'.toUInt8 (text.take stop) = some i) (hi : ¬ i < colon + 2) :
    scan text (turns + 1) cursor =
      slice text cursor (colon + 1) ++ lit placeholder ++ lit ['@'] ++ scan text turns (i + 1) := by
  rw [scan, if_pos hlt, hmark]
  simp only [hscheme, if_false, hcolon, if_neg hyes, hstop, hat, if_neg hi]

end

/-- What the search finds is the first mark. -/
theorem find_mark {s : List UInt8} {i : Nat} (h : find (lit [':', '/', '/']) s = some i) :
    ∃ a r, s = a ++ (mark ++ r) ∧ a.length = i ∧ FirstMark a r := by
  obtain ⟨⟨r, hr, hle⟩, hfirst⟩ := find_eq_some (by decide) h
  have hs : s = s.take i ++ (mark ++ r) := hr
  refine ⟨s.take i, r, hs, List.length_take_of_le hle, ?_⟩
  intro f g hfg hg
  apply hfirst f (g ++ (mark ++ r))
  · rw [← List.append_assoc, ← hfg, ← hs]
  · have hlen := congrArg List.length hfg
    rw [List.length_take_of_le hle, List.length_append] at hlen
    have hpos := List.length_pos_iff.mpr hg
    omega

/-- The last `@` of a word ends its password, where it has one. -/
theorem rfind_of_closeAt {q r rest : List UInt8} (h : closeAt r = some rest) : ∃ pw, r = pw ++ atSign :: rest ∧
    rfind '@'.toUInt8 (q ++ r.takeWhile fun c => !isSpace c) = some (q ++ pw).length ∧ pw ≠ [] := by
  obtain ⟨⟨pw, ⟨hne, hpw⟩, rfl⟩, hlast⟩ := closeAt_eq_some.mp h
  refine ⟨pw, rfl, rfind_eq_some.mpr ⟨q ++ pw, rest.takeWhile fun c => !isSpace c, ?_, hlast, rfl⟩, hne⟩
  have hpw' : ∀ c ∈ pw, (!isSpace c) = true := fun c hc => congrArg not (hpw c hc)
  rw [List.takeWhile_append_of_pos hpw', List.append_assoc]
  rfl

theorem rfind_of_no_password {q r : List UInt8} {i : Nat} (h : closeAt r = none)
    (hi : rfind '@'.toUInt8 (q ++ r.takeWhile fun c => !isSpace c) = some i) : i < q.length + 1 := by
  by_contra hlt
  obtain ⟨a, b, hab, -, rfl⟩ := rfind_eq_some.mp hi
  rcases List.append_eq_append_iff.mp hab with ⟨t, ht, ht'⟩ | ⟨t, ht, ht'⟩
  · have hsecret : Secret t := by
      refine ⟨?_, ?_⟩
      · intro hnil
        rw [ht, hnil, List.append_nil] at hlt
        omega
      · intro c hc
        have hmem : c ∈ r.takeWhile fun c => !isSpace c := by simp [ht', hc]
        have hfree : isSpace c = false := by simpa using List.mem_takeWhile_imp (p := fun c => !isSpace c) hmem
        exact hfree
    obtain ⟨rest, hrest⟩ := closeAt_secret hsecret (b ++ r.dropWhile fun c => !isSpace c)
    have hr : r = t ++ atSign :: (b ++ r.dropWhile fun c => !isSpace c) := by
      refine (List.takeWhile_append_dropWhile (p := fun c => !isSpace c) (l := r)).symm.trans ?_
      rw [ht', List.append_assoc]
      rfl
    rw [hr, hrest] at h
    cases h
  · rw [ht, List.length_append] at hlt
    omega

theorem isUserChar_eq : isUserChar = (userChar : UInt8 → Bool) := rfl

theorem isSchemeChar_slash : isSchemeChar '/'.toUInt8 = false := by decide

/-- The turn that finds a user's name. -/
theorem scan_word {text d a u r : List UInt8} {turns : Nat} (hlt : d.length < text.length)
    (hmark : findFrom (lit [':', '/', '/']) text d.length = some (d ++ a).length)
    (hscheme : schemeOf text (d ++ a).length ≠ (d ++ a).length)
    (hcolon : stopOf isUserChar text ((d ++ a).length + 3) = (d ++ (a ++ (mark ++ u))).length)
    (hgo : ¬ ((d ++ (a ++ (mark ++ u))).length = (d ++ a).length + 3 ∨
      text[(d ++ (a ++ (mark ++ u))).length]? ≠ some ':'.toUInt8))
    (htext : text = (d ++ (a ++ (mark ++ u))) ++ colon :: r) (hfirst : FirstMark a (u ++ colon :: r))
    (hsome : ∃ g, g <:+ a ∧ IsScheme g) (hne : u ≠ []) (hu : ∀ c ∈ u, userChar c = true)
    (ih : ∀ {d s}, text = d ++ s → Cut d s → s.length ≤ r.length → scan text turns d.length = veil s) :
    scan text (turns + 1) d.length = veil (a ++ (mark ++ (u ++ colon :: r))) := by
  have hq : text = (d ++ (a ++ (mark ++ (u ++ [colon])))) ++ r := by rw [htext]; simp
  have hqlen : (d ++ (a ++ (mark ++ u))).length + 1 = (d ++ (a ++ (mark ++ (u ++ [colon])))).length := by
    simp
    omega
  have hrun := List.takeWhile_append_dropWhile (p := fun c => !isSpace c) (l := r)
  have hstop : stopOf (fun c => !isSpace c) text ((d ++ (a ++ (mark ++ u))).length + 1) =
      (d ++ (a ++ (mark ++ (u ++ [colon]))) ++ r.takeWhile fun c => !isSpace c).length := by
    rw [hqlen, stopOf_append _ hq]
  have htake : text.take (d ++ (a ++ (mark ++ (u ++ [colon]))) ++ r.takeWhile fun c => !isSpace c).length =
      d ++ (a ++ (mark ++ (u ++ [colon]))) ++ r.takeWhile fun c => !isSpace c := by
    have hsplit : text = (d ++ (a ++ (mark ++ (u ++ [colon]))) ++ r.takeWhile fun c => !isSpace c) ++
        r.dropWhile fun c => !isSpace c := by rw [List.append_assoc, hrun, hq]
    rw [hsplit, List.take_left]
  cases hclose : closeAt r with
  | none =>
    have hno : ∀ i ∈ rfind '@'.toUInt8 (text.take
        (d ++ (a ++ (mark ++ (u ++ [colon]))) ++ r.takeWhile fun c => !isSpace c).length),
        i < (d ++ (a ++ (mark ++ u))).length + 2 := by
      intro i hi
      rw [htake] at hi
      have hlt := rfind_of_no_password hclose hi
      omega
    have hfree : ∀ c ∈ r.takeWhile fun c => !isSpace c, space c = false := by
      intro c hc
      have hc' : isSpace c = false := by simpa using List.mem_takeWhile_imp (p := fun c => !isSpace c) hc
      exact hc'
    have hcut : Cut (d ++ (a ++ (mark ++ (u ++ [colon]))) ++ r.takeWhile fun c => !isSpace c)
        (r.dropWhile fun c => !isSpace c) := by
      right
      intro c hc
      have hspace : isSpace c = true := by simpa using of_mem_head?_dropWhile (p := fun c => !isSpace c) hc
      refine ⟨?_, ?_⟩
      · cases hsc : isSchemeChar c with
        | false => rfl
        | true =>
          rw [(isSchemeChar_plain hsc).1] at hspace
          cases hspace
      · intro he
        rw [he] at hspace
        revert hspace
        decide
    have hshown : veil (a ++ (mark ++ (u ++ colon :: ((r.takeWhile fun c => !isSpace c) ++
        r.dropWhile fun c => !isSpace c)))) = a ++ (mark ++ (u ++ colon :: ((r.takeWhile fun c => !isSpace c) ++
        veil (r.dropWhile fun c => !isSpace c)))) :=
      veil_no_password (by rw [hrun]; exact hfirst) hu hfree (by rw [hrun]; exact hclose)
    rw [hrun] at hshown
    rw [scan_no_password hlt hmark hscheme hcolon hgo hstop hno, ih (by rw [List.append_assoc, hrun, hq]) hcut
      (List.dropWhile_suffix _).length_le, hshown, List.append_assoc d, slice_append (t := r.dropWhile fun c => !isSpace c)
      (by rw [← List.append_assoc d, List.append_assoc, hrun, hq])]
    simp
  | some rest =>
    obtain ⟨pw, rfl, hat, hpw⟩ := rfind_of_closeAt (q := d ++ (a ++ (mark ++ (u ++ [colon])))) hclose
    have hi : ¬ (d ++ (a ++ (mark ++ (u ++ [colon]))) ++ pw).length < (d ++ (a ++ (mark ++ u))).length + 2 := by
      have hpos := List.length_pos_iff.mpr hpw
      rw [List.length_append, ← hqlen]
      omega
    have hnext : (d ++ (a ++ (mark ++ (u ++ [colon]))) ++ pw).length + 1 =
        (d ++ (a ++ (mark ++ (u ++ [colon]))) ++ pw ++ [atSign]).length := by
      generalize d ++ (a ++ (mark ++ (u ++ [colon]))) ++ pw = z
      simp
    have hcut : Cut (d ++ (a ++ (mark ++ (u ++ [colon]))) ++ pw ++ [atSign]) rest := by
      left
      intro c hc
      rw [List.getLast?_concat] at hc
      rw [← Option.some.inj hc]
      decide
    rw [scan_login hlt hmark hscheme hcolon hgo hstop (by rw [htake]; exact hat) hi, hnext,
      ih (by rw [hq]; simp) hcut (by simp; omega), hqlen, slice_append hq, veil_login hfirst hsome hne hu hclose]
    have hmask : lit placeholder ++ lit ['@'] = stars ++ [atSign] := rfl
    rw [List.append_assoc _ (lit placeholder), hmask]
    simp

/-- The turns from a cursor that no scheme reaches over append what the veil shows of the rest. -/
theorem scan_eq {text : List UInt8} : ∀ {turns : Nat} {d s : List UInt8}, text = d ++ s → Cut d s → s.length ≤ turns →
    scan text turns d.length = veil s := by
  intro turns
  induction turns with
  | zero =>
    intro d s _ _ hle
    obtain rfl := List.length_eq_zero_iff.mp (Nat.le_zero.mp hle)
    rfl
  | succ turns ih =>
    intro d s htext hcut hle
    by_cases hlt : d.length < text.length
    · have hdrop : text.drop d.length = s := by rw [htext, List.drop_left]
      cases hfind : find (lit [':', '/', '/']) s with
      | none =>
        rw [scan_none hlt (by rw [findFrom, hdrop, hfind]; rfl), hdrop]
        exact (veil_no_mark (find_eq_none (by decide) hfind)).symm
      | some m =>
        obtain ⟨a, r, rfl, rfl, hfirst⟩ := find_mark hfind
        have hmark : findFrom (lit [':', '/', '/']) text d.length = some (d ++ a).length := by
          rw [findFrom, hdrop, hfind]
          simp
        have hp : text = (d ++ (a ++ mark)) ++ r := by rw [htext]; simp
        have hthree : (d ++ a).length + 3 = (d ++ (a ++ mark)).length := by simp [mark]; omega
        have hpcut : ∀ c ∈ (d ++ (a ++ mark)).getLast?, isSchemeChar c = false := by
          intro c hc
          have hslash : '/'.toUInt8 = c := by
            simpa [mark, List.getLast?_append, slash] using hc
          rw [← hslash]
          decide
        simp only [List.length_append] at hle
        have hmarklen : (mark : List UInt8).length = 3 := rfl
        by_cases hscheme : schemeOf text (d ++ a).length = (d ++ a).length
        · rw [scan_no_scheme hlt hmark hscheme, hthree, slice_append hp, ih hp (Or.inl hpcut) (by omega),
            veil_no_scheme hfirst ((schemeOf_eq_iff htext hcut).mp hscheme), List.append_assoc]
        · have hcolon : stopOf isUserChar text ((d ++ a).length + 3) =
              (d ++ (a ++ mark) ++ r.takeWhile userChar).length := by
            rw [hthree, stopOf_append _ hp, isUserChar_eq]
          have hr := List.takeWhile_append_dropWhile (p := userChar) (l := r)
          have hu : ∀ c ∈ r.takeWhile userChar, userChar c = true := fun c hc => List.mem_takeWhile_imp hc
          have hhead : ∀ c ∈ (r.dropWhile userChar).head?, userChar c = false := fun c hc => of_mem_head?_dropWhile hc
          generalize r.takeWhile userChar = u at hcolon hr hu
          generalize r.dropWhile userChar = r2 at hr hhead
          subst hr
          have hp2 : text = (d ++ (a ++ (mark ++ u))) ++ r2 := by rw [hp]; simp
          have hassoc : d ++ (a ++ mark) ++ u = d ++ (a ++ (mark ++ u)) := by simp
          have hulen : (d ++ (a ++ (mark ++ u))).length = (d ++ (a ++ mark)).length + u.length := by rw [← hassoc, List.length_append]
          have hget : text[(d ++ (a ++ (mark ++ u))).length]? = r2.head? := by
            rw [hp2, List.getElem?_append_right le_rfl, Nat.sub_self, List.head?_eq_getElem?]
          rw [hassoc] at hcolon
          simp only [List.length_append] at hle
          by_cases hyes : u ≠ [] ∧ r2.head? = some ':'.toUInt8
          · obtain ⟨hne, hcolon'⟩ := hyes
            have hgo : ¬ ((d ++ (a ++ (mark ++ u))).length = (d ++ a).length + 3 ∨
                text[(d ++ (a ++ (mark ++ u))).length]? ≠ some ':'.toUInt8) := by
              have hpos := List.length_pos_iff.mpr hne
              rw [hget, hcolon', hthree, hulen]
              simp
              omega
            obtain ⟨r3, rfl⟩ : ∃ r3, r2 = colon :: r3 := by
              cases r2 with
              | nil => cases hcolon'
              | cons c r3 => exact ⟨r3, by rw [Option.some.inj hcolon']; rfl⟩
            rw [List.length_cons] at hle
            have hsome : ∃ g, g <:+ a ∧ IsScheme g := by
              by_contra hno
              exact hscheme ((schemeOf_eq_iff htext hcut).mpr fun g hg hok => hno ⟨g, hg, hok⟩)
            refine scan_word hlt hmark hscheme hcolon hgo hp2 hfirst hsome hne hu ?_
            intro d s hd hs hl
            exact ih hd hs (by omega)
          · have hno : u = [] ∨ r2.head? ≠ some ':'.toUInt8 := by
              by_cases hu0 : u = []
              · exact Or.inl hu0
              · exact Or.inr fun h => hyes ⟨hu0, h⟩
            have hstop : (d ++ (a ++ (mark ++ u))).length = (d ++ a).length + 3 ∨
                text[(d ++ (a ++ (mark ++ u))).length]? ≠ some ':'.toUInt8 := by
              rw [hget, hthree, hulen]
              exact hno.imp (fun h => by simp [h]) id
            have hcut2 : Cut (d ++ (a ++ (mark ++ u))) r2 := by
              rcases hno with hnil | hne
              · exact Or.inl (by simpa [hnil] using hpcut)
              · right
                intro c hc
                refine ⟨?_, fun he => hne (he ▸ hc)⟩
                cases hsc : isSchemeChar c with
                | false => rfl
                | true =>
                  have huser := hhead c hc
                  rw [userChar_of_schemeChar hsc] at huser
                  cases huser
            rw [scan_no_user hlt hmark hscheme hcolon hstop, slice_append hp2, ih hp2 hcut2 (by omega),
              veil_no_user hfirst hu hhead hno]
            simp
    · have hs : s = [] := by
        rw [htext, List.length_append] at hlt
        exact List.length_eq_zero_iff.mp (by omega)
      rw [scan, if_neg hlt, hs]
      rfl

theorem redact_in (text : List UInt8) : redactIn text = veil text :=
  scan_eq (d := []) rfl (Or.inl (by simp)) le_rfl

end Cpp

theorem unparseable_head : ∀ c ∈ unparseable.head?, alpha c = false := by
  intro c hc
  have hhead : unparseable.head? = some '<' := by decide +kernel
  rw [hhead, Option.mem_some_iff] at hc
  rw [← hc]
  rfl

theorem Cpp.unparseable_head : ∀ c ∈ (Cpp.lit unparseable).head?, alpha c = false := by
  intro c hc
  have hhead : (Cpp.lit unparseable).head? = some '<'.toUInt8 := by decide +kernel
  rw [hhead, Option.mem_some_iff] at hc
  rw [← hc]
  rfl

/-- A user's name hides its password in a text just where it is not empty and holds no `/` and
no `@`, on both planes. -/
theorem password_hidden (l : Login Char) (pre host post : List Char) (lb : Login UInt8)
    (preb hostb postb : List UInt8) :
    (Hides (fun uri => redact (some uri)) redactIn l pre host post ↔ l.user ≠ [] ∧ '/' ∉ l.user ∧ '@' ∉ l.user) ∧
    (Hides Cpp.redactUri Cpp.redactIn lb preb hostb postb ↔
      lb.user ≠ [] ∧ '/'.toUInt8 ∉ lb.user ∧ '@'.toUInt8 ∉ lb.user) := by
  constructor
  · exact hides_iff unparseable unparseable_head (fun pw => redact_uri l pw host) redact_in
  · exact hides_iff (Cpp.lit unparseable) Cpp.unparseable_head (fun pw => Cpp.redact_uri lb pw hostb) Cpp.redact_in

/-- The password of `rtsp://:a@h` is in the text shown. -/
theorem nameless_password_shown :
    ¬ (∀ (l : Login Char) (pre host post : List Char), Hides (fun uri => redact (some uri)) redactIn l pre host post) ∧
    ¬ ∀ (l : Login UInt8) (pre host post : List UInt8), Hides Cpp.redactUri Cpp.redactIn l pre host post := by
  constructor
  · intro h
    have hrun := (h (.nameless ['r', 't', 's', 'p'] ⟨rfl, List.all_eq_true.mp rfl⟩) [] ['h'] []
      (.single 'a' rfl (by decide)) (.single 'b' rfl (by decide))).2.1
    revert hrun
    decide +kernel
  · intro h
    have hrun := (h (.nameless (Cpp.lit ['r', 't', 's', 'p']) ⟨rfl, List.all_eq_true.mp rfl⟩) [] (Cpp.lit ['h']) []
      (.single 'a'.toUInt8 rfl (by decide)) (.single 'b'.toUInt8 rfl (by decide))).2.1
    revert hrun
    decide +kernel

end ShipInfer.Redact
