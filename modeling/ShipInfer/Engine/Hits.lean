import Mathlib.Data.String.Basic
import ShipInfer.Engine.Cache
import ShipInfer.Lib.Numerals

/-!
# When a cache hit is right

The digest's text of an input tells the input's name, but for a name that goes on as the
element type of another input begins, or as its whole text does. Where no two declared names
do, the bytes fed to the digest tell the inputs, and a hit has the outputs of its own request.
-/

namespace ShipInfer.Engine.Cache

/-! ## Headings -/

/-- No upper case letter and no closing bracket. -/
def Plain (c : Char) : Prop := c.isUpper = false ∧ c ≠ ')'

theorem plain_of_digit {n : Nat} {c : Char} (h : c ∈ (toString n).toList) : Plain c ∧ c ≠ ',' := by
  obtain ⟨d, hd, rfl⟩ := mem_natText h
  have hall : ∀ d < 16,
      (Nat.digitChar d).isUpper = false ∧ Nat.digitChar d ≠ ')' ∧ Nat.digitChar d ≠ ',' := by
    decide
  obtain ⟨hupper, hbracket, hcomma⟩ := hall d hd
  exact ⟨⟨hupper, hbracket⟩, hcomma⟩

theorem plain_dimsText : ∀ (dims : List Nat), ∀ c ∈ dimsText dims, Plain c := by
  intro dims
  induction dims with
  | nil => intro c hc; cases hc
  | cons d dims ih =>
    intro c hc
    cases dims with
    | nil => exact (plain_of_digit hc).1
    | cons e dims =>
      rcases List.mem_append.mp hc with hc | hc
      · exact (plain_of_digit hc).1
      · rcases List.mem_cons.mp hc with rfl | hc
        · exact ⟨by decide, by decide⟩
        · rcases List.mem_cons.mp hc with rfl | hc
          · exact ⟨by decide, by decide⟩
          · exact ih c hc

/-- `repr` of a shape between its brackets. -/
def shapeBody (shape : List Nat) : List Char := dimsText shape ++ if shape.length = 1 then [','] else []

theorem toList_shapeText (shape : List Nat) : (shapeText shape).toList = '(' :: (shapeBody shape ++ [')']) := by
  unfold shapeText shapeBody
  split <;> simp

theorem plain_shapeBody (shape : List Nat) : ∀ c ∈ shapeBody shape, Plain c := by
  intro c hc
  rcases List.mem_append.mp hc with hc | hc
  · exact plain_dimsText shape c hc
  · split at hc
    · rw [List.mem_singleton.mp hc]
      exact ⟨by decide, by decide⟩
    · cases hc

theorem comma_not_mem (n : Nat) : ',' ∉ (toString n).toList := fun h => (plain_of_digit h).2 rfl

/-- Dimensions, with more of them or at their end. -/
theorem dimsText_inj : ∀ {dims dims' : List Nat}, dims ≠ [] → dims' ≠ [] → dimsText dims = dimsText dims' →
    dims = dims' := by
  intro dims
  induction dims with
  | nil => intro dims' hne; exact absurd rfl hne
  | cons d dims ih =>
    intro dims' _ hne' h
    obtain ⟨d', dims', rfl⟩ := List.exists_cons_of_ne_nil hne'
    cases dims with
    | nil =>
      cases dims' with
      | nil => rw [natText_inj h]
      | cons e' dims' =>
        have hcomma : ',' ∈ (toString d).toList := by
          have h' : (toString d).toList = _ := h
          rw [h', dimsText]
          simp
        exact absurd hcomma (comma_not_mem d)
    | cons e dims =>
      cases dims' with
      | nil =>
        have hcomma : ',' ∈ (toString d').toList := by
          have h' : _ = (toString d').toList := h
          rw [← h', dimsText]
          simp
        exact absurd hcomma (comma_not_mem d')
      | cons e' dims' =>
        obtain ⟨hd, hrest⟩ := split_at_first (comma_not_mem d) (comma_not_mem d') h
        rw [natText_inj hd, ih (by simp) (by simp) (List.cons.inj hrest).2]

def afterComma : List Nat → List Char
  | [] => []
  | dims => ' ' :: dimsText dims

theorem shapeBody_cons (d : Nat) (dims : List Nat) :
    shapeBody (d :: dims) = (toString d).toList ++ ',' :: afterComma dims := by
  cases dims with
  | nil => rfl
  | cons e dims => simp [shapeBody, dimsText, afterComma]

theorem shapeBody_inj {shape shape' : List Nat} (h : shapeBody shape = shapeBody shape') : shape = shape' := by
  cases shape with
  | nil =>
    cases shape' with
    | nil => rfl
    | cons d' dims' =>
      rw [shapeBody_cons] at h
      simp [shapeBody, dimsText] at h
  | cons d dims =>
    cases shape' with
    | nil =>
      rw [shapeBody_cons] at h
      simp [shapeBody, dimsText] at h
    | cons d' dims' =>
      rw [shapeBody_cons, shapeBody_cons] at h
      obtain ⟨hd, hrest⟩ := split_at_first (comma_not_mem d) (comma_not_mem d') h
      have hdims : dims = dims' := by
        cases dims with
        | nil =>
          cases dims' with
          | nil => rfl
          | cons e' dims' => cases hrest
        | cons e dims =>
          cases dims' with
          | nil => cases hrest
          | cons e' dims' => exact dimsText_inj (by simp) (by simp) (List.cons.inj hrest).2
      rw [natText_inj hd, hdims]

/-- No text of a shape begins another. -/
theorem shapeText_inj {shape shape' : List Nat} {u : List Char}
    (h : (shapeText shape).toList ++ u = (shapeText shape').toList) : shape = shape' ∧ u = [] := by
  have hbracket (s : List Nat) : ')' ∉ shapeBody s := fun hmem => (plain_shapeBody s _ hmem).2 rfl
  rw [toList_shapeText, toList_shapeText, List.cons_append, List.append_assoc] at h
  obtain ⟨hbody, hu⟩ := split_at_first (hbracket shape) (hbracket shape') (List.cons.inj h).2
  exact ⟨shapeBody_inj hbody, hu⟩

theorem shapeText_plain {shape : List Nat} {c : Char} (h : c ∈ (shapeText shape).toList) : c.isUpper = false := by
  rw [toList_shapeText] at h
  rcases List.mem_cons.mp h with rfl | h
  · decide
  · rcases List.mem_append.mp h with h | h
    · exact (plain_shapeBody shape c h).1
    · rw [List.mem_singleton.mp h]
      decide

theorem dtypeValue_head (d : DataType) : ∃ c cs, (dtypeValue d).toList = c :: cs ∧ c.isUpper = true := by
  cases d <;> exact ⟨_, _, rfl, by decide⟩

theorem dtypeValue_bracket (d : DataType) : '(' ∉ (dtypeValue d).toList := by
  cases d <;> decide +kernel

/-- One element type ends as another one is called only where they are the two of a byte. -/
theorem dtypeValue_suffix {d e : DataType} {w : List Char} (h : (dtypeValue d).toList = w ++ (dtypeValue e).toList) :
    w = [] ∧ d = e ∨ w = ['U'] ∧ d = .uint8 ∧ e = .int8 := by
  have hw : w = (dtypeValue d).toList.take ((dtypeValue d).toList.length - (dtypeValue e).toList.length) := by
    rw [h]
    simp
  subst hw
  revert h
  cases d <;> cases e <;> decide +kernel

/-- What follows a name, when another name goes on by `w` and its element type begins in it. -/
theorem after_name {d e : DataType} {shape : List Nat} {w x y : List Char}
    (h : (dtypeValue d).toList ++ (shapeText shape).toList ++ x = w ++ ((dtypeValue e).toList ++ '(' :: y)) :
    (dtypeValue d).toList ++ (shapeText shape).toList <+: w ∨
      (dtypeValue d).toList = w ++ (dtypeValue e).toList ∧ (shapeText shape).toList ++ x = '(' :: y := by
  obtain ⟨c, cs, hc, hupper⟩ := dtypeValue_head e
  rcases List.append_eq_append_iff.mp h with ⟨v, hw, -⟩ | ⟨v, hsplit, hv⟩
  · exact .inl ⟨v, hw.symm⟩
  · cases v with
    | nil => exact .inl ⟨[], by rw [List.append_nil, ← List.append_nil w]; exact hsplit⟩
    | cons c' v =>
      -- the first letter of `e` lies in the heading, and so in the element type there
      have hc' : c' = c := by
        rw [hc] at hv
        exact (List.cons.inj hv).1.symm
      rcases List.append_eq_append_iff.mp hsplit with ⟨z, hz, hshape⟩ | ⟨z, hz, hshape⟩
      · have hmem : c' ∈ (shapeText shape).toList := by
          rw [hshape]
          simp
        have hplain := shapeText_plain hmem
        rw [hc', hupper] at hplain
        cases hplain
      · refine .inr ?_
        have hrest : z ++ (shapeText shape).toList ++ x = (dtypeValue e).toList ++ '(' :: y := by
          rw [← hshape]
          exact hv.symm
        rw [toList_shapeText, List.append_assoc, List.cons_append] at hrest
        have hbracket : '(' ∉ z := by
          intro hmem
          apply dtypeValue_bracket d
          rw [hz]
          exact List.mem_append_right w hmem
        obtain ⟨hze, hy⟩ := split_at_first hbracket (dtypeValue_bracket e) hrest
        refine ⟨by rw [hz, hze], ?_⟩
        rw [toList_shapeText, List.cons_append, hy]

theorem toList_heading (name : String) (d : DataType) (shape : List Nat) :
    (heading name d shape).toList = name.toList ++ ((dtypeValue d).toList ++ (shapeText shape).toList) := by
  simp [heading]

/-- The shorter name, when the headings begin alike. -/
theorem heading_clash_of_le {n n' : String} {d d' : DataType} {shape shape' : List Nat} {x y : List Char}
    (hle : n.length ≤ n'.length) (h : (heading n d shape).toList ++ x = (heading n' d' shape').toList ++ y) :
    (heading n d shape).toList <+: n'.toList ∨ (n = n' ∧ d = d' ∨ n' = n ++ "U" ∧ d = .uint8 ∧ d' = .int8) ∧
      (shapeText shape).toList ++ x = (shapeText shape').toList ++ y := by
  simp only [toList_heading, List.append_assoc] at h
  obtain ⟨w, hw, hrest⟩ : ∃ w, n'.toList = n.toList ++ w ∧
      (dtypeValue d).toList ++ ((shapeText shape).toList ++ x) =
        w ++ ((dtypeValue d').toList ++ ((shapeText shape').toList ++ y)) := by
    rcases List.append_eq_append_iff.mp h with ⟨w, hw, hrest⟩ | ⟨w, hw, hrest⟩
    · exact ⟨w, hw, hrest⟩
    · have hnil : w = [] := by
        have hlen := congrArg List.length hw
        rw [List.length_append, String.length_toList, String.length_toList] at hlen
        exact List.length_eq_zero_iff.mp (by omega)
      subst hnil
      exact ⟨[], by rw [hw, List.append_nil, List.append_nil], hrest.symm⟩
  have hshape' : (shapeText shape').toList ++ y = '(' :: (shapeBody shape' ++ [')'] ++ y) := by
    rw [toList_shapeText, List.cons_append]
  rw [hshape', ← List.append_assoc] at hrest
  rcases after_name hrest with ⟨z, hz⟩ | ⟨hsuffix, hshapes⟩
  · refine .inl ⟨z, ?_⟩
    rw [hw, ← hz, toList_heading, List.append_assoc]
  · refine .inr ⟨?_, hshapes.trans hshape'.symm⟩
    rcases dtypeValue_suffix hsuffix with ⟨rfl, hd⟩ | ⟨rfl, hd, hd'⟩
    · refine .inl ⟨?_, hd⟩
      rw [← String.toList_inj, hw, List.append_nil]
    · refine .inr ⟨?_, hd, hd'⟩
      rw [← String.toList_inj, hw, String.toList_append]
      rfl

/-! ## Names in order -/

theorem append_lt_append {u : Char} {x : List Char} : ∀ {n a : List Char}, n < a → a < n ++ [u] →
    a ++ x < n ++ [u] := by
  intro n
  induction n with
  | nil =>
    intro a hlt hgt
    cases a with
    | nil => exact absurd hlt (List.lt_irrefl [])
    | cons c a =>
      rcases List.cons_lt_cons_iff.mp hgt with hc | ⟨-, hnil⟩
      · exact List.cons_lt_cons_iff.mpr (.inl hc)
      · exact absurd hnil (List.not_lt_nil a)
  | cons d n ih =>
    intro a hlt hgt
    cases a with
    | nil => exact absurd hlt (List.not_lt_nil _)
    | cons c a =>
      rcases List.cons_lt_cons_iff.mp hlt with hdc | ⟨rfl, hrest⟩
      · rcases List.cons_lt_cons_iff.mp hgt with hcd | ⟨rfl, -⟩
        · exact absurd (hdc.trans hcd) (lt_irrefl d)
        · exact absurd hdc (lt_irrefl c)
      · rcases List.cons_lt_cons_iff.mp hgt with hcd | ⟨-, hrest'⟩
        · exact absurd hcd (lt_irrefl d)
        · exact List.cons_lt_cons_iff.mpr (.inr ⟨rfl, ih hrest hrest'⟩)

/-- A name that goes on from one between `n` and `nU` is still below `nU`. -/
theorem goes_on_lt {n a b : String} {x : List Char} (hlt : n < a) (hgt : a < n ++ "U") (hb : b.toList = a.toList ++ x) :
    b < n ++ "U" := by
  have hU : "U".toList = ['U'] := rfl
  rw [String.lt_iff_toList_lt] at hlt hgt ⊢
  rw [String.toList_append, hU] at hgt ⊢
  rw [hb]
  exact append_lt_append hlt hgt

/-- A name that goes on from another comes after it. -/
theorem lt_of_goes_on {a b : String} {c : Char} {x : List Char} (hb : b.toList = a.toList ++ c :: x) : a < b := by
  rw [String.lt_iff_toList_lt, hb]
  have h : a.toList ++ [] < a.toList ++ c :: x := List.append_left_lt (List.nil_lt_cons c x)
  simpa using h

theorem lt_append_U (n : String) : n < n ++ "U" := lt_of_goes_on (c := 'U') (x := []) (String.toList_append)

/-! ## One entry after another -/

/-- Names whose headings may be one text: the same, or with a `U` between. -/
def Alike (n : String) (d : DataType) (n' : String) (d' : DataType) : Prop :=
  n = n' ∧ d = d' ∨ n' = n ++ "U" ∧ d = .uint8 ∧ d' = .int8 ∨ n = n' ++ "U" ∧ d' = .uint8 ∧ d = .int8

/-- Two headings, one of which begins the other. -/
theorem heading_clash {n n' : String} {d d' : DataType} {shape shape' : List Nat} {u : String}
    (h : heading n d shape ++ u = heading n' d' shape') :
    (heading n d shape).toList <+: n'.toList ∨ (heading n' d' shape').toList <+: n.toList ∨
      Alike n d n' d' ∧ shape = shape' ∧ u = "" := by
  have hlist : (heading n d shape).toList ++ u.toList = (heading n' d' shape').toList ++ [] := by
    rw [← h, String.toList_append, List.append_nil]
  rcases Nat.le_total n.length n'.length with hle | hle
  · rcases heading_clash_of_le hle hlist with hnest | ⟨hnames, hshapes⟩
    · exact .inl hnest
    · obtain ⟨hshape, hu⟩ := shapeText_inj (hshapes.trans (List.append_nil _))
      refine .inr (.inr ⟨?_, hshape, String.toList_inj.mp hu⟩)
      rcases hnames with hsame | htwin
      · exact .inl hsame
      · exact .inr (.inl htwin)
  · rcases heading_clash_of_le hle hlist.symm with hnest | ⟨hnames, hshapes⟩
    · exact .inr (.inl hnest)
    · obtain ⟨hshape, hu⟩ := shapeText_inj (hshapes.symm.trans (List.append_nil _))
      refine .inr (.inr ⟨?_, hshape, String.toList_inj.mp hu⟩)
      rcases hnames with ⟨hn, hd⟩ | ⟨hn, hd, hd'⟩
      · exact .inl ⟨hn.symm, hd.symm⟩
      · exact .inr (.inr ⟨hn, hd, hd'⟩)

theorem entry_clash {n n' : String} {d d' : DataType} {shape shape' : List Nat} {x y : List UInt8}
    (h : encode (heading n d shape) ++ x = encode (heading n' d' shape') ++ y) :
    (heading n d shape).toList <+: n'.toList ∨ (heading n' d' shape').toList <+: n.toList ∨
      Alike n d n' d' ∧ shape = shape' ∧ x = y := by
  rcases List.append_eq_append_iff.mp h with ⟨z, hz, hx⟩ | ⟨z, hz, hy⟩
  · obtain ⟨u, hu, rfl⟩ := exists_of_encode_append hz.symm
    rcases heading_clash hu.symm with hnest | hnest | ⟨halike, hshape, rfl⟩
    · exact .inl hnest
    · exact .inr (.inl hnest)
    · exact .inr (.inr ⟨halike, hshape, hx⟩)
  · obtain ⟨u, hu, rfl⟩ := exists_of_encode_append hz.symm
    rcases heading_clash hu.symm with hnest | hnest | ⟨halike, hshape, rfl⟩
    · exact .inr (.inl hnest)
    · exact .inl hnest
    · refine .inr (.inr ⟨?_, hshape.symm, hy.symm⟩)
      rcases halike with ⟨hn, hd⟩ | htwin | htwin
      · exact .inl ⟨hn.symm, hd.symm⟩
      · exact .inr (.inr htwin)
      · exact .inr (.inl htwin)

/-- A host tensor as the specs declare it. -/
def Declared (specs : List TensorSpec) (p : String × Tensor) : Prop :=
  p.2.handle = none ∧ ∃ s ∈ specs, s.name = p.1 ∧ p.2.dtype = s.dtype ∧ s.matches p.2.shape.tail = true

/-- What an input adds to the digest. -/
def entryText (p : String × Tensor) : List UInt8 := encode (heading p.1 p.2.dtype p.2.shape) ++ p.2.data

abbrev Ascending (ps : List (String × Tensor)) : Prop := ps.Pairwise fun p q => p.1 < q.1

theorem entryText_ne_nil (p : String × Tensor) : entryText p ≠ [] := by
  intro h
  have hempty : encode (heading p.1 p.2.dtype p.2.shape) = encode "" := List.append_eq_nil_iff.mp h |>.1
  have hlist := congrArg String.toList (encode_inj hempty)
  rw [toList_heading, toList_shapeText] at hlist
  simp at hlist

section
variable {specs : List TensorSpec} {p q : String × Tensor} {ps qs : List (String × Tensor)}

/-- The name of `q` begins with the digest's text of `p`. -/
def Within (p q : String × Tensor) : Prop := (heading p.1 p.2.dtype p.2.shape).toList <+: q.1.toList

theorem Within.goes_on (h : Within p q) : ∃ c x, q.1.toList = p.1.toList ++ c :: x := by
  obtain ⟨z, hz⟩ := h
  obtain ⟨c, cs, hc, -⟩ := dtypeValue_head p.2.dtype
  rw [toList_heading, hc] at hz
  exact ⟨c, _, by rw [← hz, List.append_assoc]; rfl⟩

theorem Within.lt (h : Within p q) : p.1 < q.1 := by
  obtain ⟨c, x, hx⟩ := h.goes_on
  exact lt_of_goes_on hx

theorem entryText_clash {x y : List UInt8} (h : entryText p ++ x = entryText q ++ y) : Within p q ∨ Within q p ∨
    Alike p.1 p.2.dtype q.1 q.2.dtype ∧ p.2.shape = q.2.shape ∧ p.2.data ++ x = q.2.data ++ y := by
  rw [entryText, entryText, List.append_assoc, List.append_assoc] at h
  exact entry_clash h

/-- Bytes of one count each. -/
theorem data_eq {t u : Tensor} (hsize : t.dtype.itemsize = u.dtype.itemsize) (hshape : t.shape = u.shape)
    {x y : List UInt8} (h : t.data ++ x = u.data ++ y) : t.data = u.data ∧ x = y := by
  apply List.append_inj h
  rw [t.sized, u.sized, hsize, hshape]

theorem Tensor_ext {t u : Tensor} (hdtype : t.dtype = u.dtype) (hshape : t.shape = u.shape) (hdata : t.data = u.data)
    (hhandle : t.handle = u.handle) : t = u := by
  cases t
  cases u
  simp_all

theorem Ascending.lt_of_mem (h : Ascending (p :: ps)) {n : String} (hn : n ∈ ps.map Prod.fst) : p.1 < n := by
  obtain ⟨q, hq, rfl⟩ := List.mem_map.mp hn
  exact (List.pairwise_cons.mp h).1 q hq

theorem Ascending.le_of_mem (h : Ascending (p :: ps)) {n : String} (hn : n ∈ (p :: ps).map Prod.fst) : p.1 ≤ n := by
  rcases List.mem_cons.mp hn with rfl | hn
  · exact le_refl _
  · exact le_of_lt (h.lt_of_mem hn)

/-- Required inputs have been met already or are in both. -/
def Complete (specs : List TensorSpec) (met : List String) (ps qs : List (String × Tensor)) : Prop :=
  (∀ n ∈ met, ∀ p ∈ ps, n < p.1) ∧ (∀ n ∈ met, ∀ q ∈ qs, n < q.1) ∧
    ∀ r ∈ specs, r.optional = false → r.name ∈ met ∨ r.name ∈ ps.map Prod.fst ∧ r.name ∈ qs.map Prod.fst

/-- The inputs on which two maps part for the first time. -/
theorem Complete.skips {met : List String} (h : Complete specs met (p :: ps) (q :: qs)) (hqs : Ascending (q :: qs))
    (hlt : p.1 < q.1) {s t : TensorSpec} (hs : s ∈ specs) (hsname : s.name = p.1) (htname : t.name = q.1) :
    Skips specs s t := by
  obtain ⟨hmetp, -, hboth⟩ := h
  constructor
  · by_contra hrequired
    rcases hboth s hs (by simpa using hrequired) with hmet | ⟨-, hin⟩
    · exact lt_irrefl _ (hsname ▸ hmetp _ hmet p List.mem_cons_self)
    · rw [hsname] at hin
      exact absurd (hqs.le_of_mem hin) (not_le.mpr hlt)
  · intro r hr hsr hrt
    by_contra hrequired
    rcases hboth r hr (by simpa using hrequired) with hmet | ⟨-, hin⟩
    · have hrp := hmetp _ hmet p List.mem_cons_self
      rw [hsname] at hsr
      exact lt_irrefl _ (hsr.trans hrp)
    · rw [htname] at hrt
      exact absurd (hqs.le_of_mem hin) (not_le.mpr hrt)

theorem Complete.not_within (hnested : ¬Nested specs) {met : List String} (h : Complete specs met (p :: ps) (q :: qs))
    (hqs : Ascending (q :: qs)) (hp : Declared specs p) (hq : Declared specs q) : ¬Within p q := by
  intro hwithin
  obtain ⟨-, s, hs, hsname, hsdtype, hsmatches⟩ := hp
  obtain ⟨-, t, ht, htname, -, -⟩ := hq
  refine hnested ⟨s, hs, t, ht, .inl (h.skips hqs hwithin.lt hs hsname htname), p.2.shape, hsmatches, ?_⟩
  rw [hsname, ← hsdtype, htname]
  exact hwithin

/-- An input that is alike but for a `U` would have an optional twin. -/
theorem no_twin (hunique : (specs.map TensorSpec.name).Nodup) (htwins : ¬Twins specs) (hnested : ¬Nested specs)
    {met : List String} (hcomplete : Complete specs met (p :: ps) (q :: qs)) (hps : Ascending (p :: ps))
    (hqs : Ascending (q :: qs)) (hp : ∀ x ∈ p :: ps, Declared specs x) (hq : ∀ x ∈ q :: qs, Declared specs x)
    (hname : q.1 = p.1 ++ "U") (hpd : p.2.dtype = .uint8) (hqd : q.2.dtype = .int8) (hshape : p.2.shape = q.2.shape)
    (hrest : ps.flatMap entryText = qs.flatMap entryText) : False := by
  obtain ⟨-, s, hs, hsname, hsdtype, hsmatches⟩ := hp p List.mem_cons_self
  obtain ⟨-, t, ht, htname, htdtype, htmatches⟩ := hq q List.mem_cons_self
  have hlt : p.1 < q.1 := by
    rw [hname]
    exact lt_append_U p.1
  have hskips : Skips specs s t := hcomplete.skips hqs hlt hs hsname htname
  by_cases htoptional : t.optional = true
  · refine htwins ⟨s, hs, t, ht, hskips, htoptional, ?_, ?_, ?_, p.2.shape.tail, hsmatches, ?_⟩
    · rw [← hsdtype, hpd]
    · rw [← htdtype, hqd]
    · rw [htname, hsname, hname]
    · rw [hshape]
      exact htmatches
  · -- a required twin comes later in the first list, and nothing in the second is like what comes before
    have hlater : q.1 ∈ ps.map Prod.fst := by
      rcases hcomplete.2.2 t ht (by simpa using htoptional) with hmet | ⟨hin, -⟩
      · exact absurd (hcomplete.2.1 _ hmet q List.mem_cons_self) (by simp [htname])
      · rw [htname] at hin
        rcases List.mem_cons.mp hin with heq | hin
        · exact absurd hlt (by simp [heq])
        · exact hin
    cases ps with
    | nil => simp at hlater
    | cons p' ps =>
      cases qs with
      | nil => simp [entryText_ne_nil] at hrest
      | cons q' qs =>
        have hpp' : p.1 < p'.1 := hps.lt_of_mem (by simp)
        have hqq' : q.1 < q'.1 := hqs.lt_of_mem (by simp)
        have hle : p'.1 ≤ q.1 := Ascending.le_of_mem (List.pairwise_cons.mp hps).2 hlater
        obtain ⟨-, s', hs', hs'name, hs'dtype, hs'matches⟩ := hp p' (by simp)
        obtain ⟨-, t', ht', ht'name, -, -⟩ := hq q' (by simp)
        have hspec (heq : p'.1 = q.1) : s' = t := by
          apply List.inj_on_of_nodup_map hunique hs' ht
          rw [hs'name, htname, heq]
        -- what goes on from a name before the twin stays before it
        have hbelow {x : List Char} (hx : q'.1.toList = p'.1.toList ++ x) : p'.1 = q.1 := by
          by_contra hne
          have hbefore : p'.1 < p.1 ++ "U" := by
            rw [← hname]
            exact lt_of_le_of_ne hle hne
          have hq'q := goes_on_lt hpp' hbefore hx
          rw [← hname] at hq'q
          exact lt_irrefl _ (hqq'.trans hq'q)
        rw [List.flatMap_cons, List.flatMap_cons] at hrest
        rcases entryText_clash hrest with hwithin | hwithin | ⟨⟨hsame, -⟩ | ⟨htwin, hd, -⟩ | ⟨htwin, -, -⟩, -, -⟩
        · obtain ⟨c, x, hx⟩ := hwithin.goes_on
          refine hnested ⟨s', hs', t', ht', .inr ⟨s, hs, ?_, ?_⟩, p'.2.shape, hs'matches, ?_⟩
          · rw [hspec (hbelow hx)]
            exact hskips
          · rw [hspec (hbelow hx), htname, hname, hsname]
          · rw [hs'name, ← hs'dtype, ht'name]
            exact hwithin
        · exact lt_irrefl _ (hqq'.trans (hwithin.lt.trans_le hle))
        · exact lt_irrefl _ (hle.trans_lt (hqq'.trans_le hsame.symm.le))
        · have heq := hbelow (htwin ▸ String.toList_append)
          rw [hd, hspec heq, ← htdtype, hqd] at hs'dtype
          cases hs'dtype
        · have hqp : q'.1 < p'.1 := by
            rw [htwin]
            exact lt_append_U q'.1
          exact lt_irrefl _ (hqq'.trans (hqp.trans_le hle))

theorem Complete.symm {met : List String} (h : Complete specs met ps qs) : Complete specs met qs ps :=
  ⟨h.2.1, h.1, fun r hr hrequired => (h.2.2 r hr hrequired).imp_right And.symm⟩

/-- The inputs of a map in order are known from what they add to the digest. -/
theorem entries_inj (hunique : (specs.map TensorSpec.name).Nodup) (htwins : ¬Twins specs) (hnested : ¬Nested specs) :
    ∀ {ps qs : List (String × Tensor)} {met : List String}, Complete specs met ps qs → Ascending ps → Ascending qs →
      (∀ x ∈ ps, Declared specs x) → (∀ x ∈ qs, Declared specs x) →
        ps.flatMap entryText = qs.flatMap entryText → ps = qs := by
  intro ps
  induction ps with
  | nil =>
    intro qs _ _ _ _ _ _ h
    cases qs with
    | nil => rfl
    | cons q qs => simp [entryText_ne_nil] at h
  | cons p ps ih =>
    intro qs met hcomplete hps hqs hp hq h
    cases qs with
    | nil => simp [entryText_ne_nil] at h
    | cons q qs =>
      have hp' := hp p List.mem_cons_self
      have hq' := hq q List.mem_cons_self
      rw [List.flatMap_cons, List.flatMap_cons] at h
      obtain ⟨halike, hshape, hdata⟩ := ((entryText_clash h).resolve_left
        (hcomplete.not_within hnested hqs hp' hq')).resolve_left (hcomplete.symm.not_within hnested hps hq' hp')
      have hsize : p.2.dtype.itemsize = q.2.dtype.itemsize := by
        rcases halike with ⟨-, hd⟩ | ⟨-, hd, hd'⟩ | ⟨-, hd, hd'⟩
        · rw [hd]
        · rw [hd, hd']
          rfl
        · rw [hd, hd']
          rfl
      obtain ⟨hbytes, hrest⟩ := data_eq hsize hshape hdata
      rcases halike with ⟨hname, hd⟩ | ⟨htwin, hd, hd'⟩ | ⟨htwin, hd, hd'⟩
      · have hpq : p = q := by
          apply Prod.ext hname
          exact Tensor_ext hd hshape hbytes (hp'.1.trans hq'.1.symm)
        subst hpq
        have hcomplete' : Complete specs (p.1 :: met) ps qs := by
          refine ⟨?_, ?_, ?_⟩
          · intro n hn x hx
            rcases List.mem_cons.mp hn with rfl | hn
            · exact (List.pairwise_cons.mp hps).1 x hx
            · exact hcomplete.1 n hn x (List.mem_cons_of_mem _ hx)
          · intro n hn x hx
            rcases List.mem_cons.mp hn with rfl | hn
            · exact (List.pairwise_cons.mp hqs).1 x hx
            · exact hcomplete.2.1 n hn x (List.mem_cons_of_mem _ hx)
          · intro r hr hrequired
            rcases hcomplete.2.2 r hr hrequired with hmet | ⟨hrp, hrq⟩
            · exact .inl (List.mem_cons_of_mem _ hmet)
            · by_cases hn : r.name = p.1
              · exact .inl (hn ▸ List.mem_cons_self)
              · exact .inr ⟨(List.mem_cons.mp hrp).resolve_left hn, (List.mem_cons.mp hrq).resolve_left hn⟩
        rw [ih hcomplete' (List.pairwise_cons.mp hps).2 (List.pairwise_cons.mp hqs).2
          (fun x hx => hp x (List.mem_cons_of_mem _ hx)) (fun x hx => hq x (List.mem_cons_of_mem _ hx)) hrest]
      · exact (no_twin hunique htwins hnested hcomplete hps hqs hp hq htwin hd hd' hshape hrest).elim
      · exact (no_twin hunique htwins hnested hcomplete.symm hqs hps hq hp htwin hd hd' hshape.symm hrest.symm).elim

end

/-! ## Keys -/

theorem perm_sortedInputs (inputs : Dict String Tensor) : (sortedInputs inputs).Perm inputs.entries :=
  List.mergeSort_perm _ _

theorem ascending_sortedInputs (inputs : Dict String Tensor) : Ascending (sortedInputs inputs) := by
  have hsorted : (sortedInputs inputs).Pairwise fun p q => decide (p.1 ≤ q.1) = true := by
    apply List.pairwise_mergeSort
    · intro a b c hab hbc
      exact decide_eq_true ((of_decide_eq_true hab).trans (of_decide_eq_true hbc))
    · intro a b
      rcases le_total a.1 b.1 with h | h
      · simp [h]
      · simp [h]
  have hnodup : ((sortedInputs inputs).map Prod.fst).Nodup := by
    rw [((perm_sortedInputs inputs).map Prod.fst).nodup_iff]
    exact inputs.nodup
  refine (hsorted.and (List.pairwise_map.mp hnodup)).imp ?_
  rintro p q ⟨hle, hne⟩
  exact lt_of_le_of_ne (of_decide_eq_true hle) hne

/-- The inputs a map of the model may be asked for, in order. -/
theorem get?_eq_of_sorted {a b : Dict String Tensor} (h : sortedInputs a = sortedInputs b) : a.get? = b.get? := by
  have hperm : a.entries.Perm b.entries := by
    refine (perm_sortedInputs a).symm.trans ?_
    rw [h]
    exact perm_sortedInputs b
  funext n
  apply Option.ext
  intro t
  rw [Dict.get?_eq_some_iff, Dict.get?_eq_some_iff, hperm.mem_iff]

/-- The bytes of the inputs, when each is on the host. -/
theorem mapM_entryBytes : ∀ {ps : List (String × Tensor)}, (∀ p ∈ ps, p.2.handle = none) →
    ps.mapM entryBytes = .ok (ps.map entryText) := by
  intro ps
  induction ps with
  | nil => intro _; rfl
  | cons p ps ih =>
    intro h
    obtain ⟨hp, hps⟩ := List.forall_mem_cons.mp h
    rw [List.mapM_cons, ih hps]
    simp [entryBytes, Tensor.numpy, hp, entryText]
    rfl

theorem host_of_mapM_entryBytes : ∀ {ps : List (String × Tensor)} {parts : List (List UInt8)},
    ps.mapM entryBytes = .ok parts → ∀ p ∈ ps, p.2.handle = none := by
  intro ps
  induction ps with
  | nil => intro parts _ p hp; cases hp
  | cons p ps ih =>
    intro parts h q hq
    rw [List.mapM_cons] at h
    obtain ⟨part, hpart, h⟩ := bind_ok.mp h
    obtain ⟨rest, hrest, h⟩ := bind_ok.mp h
    rcases List.mem_cons.mp hq with rfl | hq
    · unfold entryBytes Tensor.numpy at hpart
      cases hhandle : q.2.handle with
      | none => rfl
      | some device => simp [hhandle] at hpart
    · exact ih hrest q hq

theorem entryBytes_overflow (p : String × Tensor) : entryBytes p ≠ .error .overflow := by
  intro h
  unfold entryBytes at h
  split at h <;> cases h

theorem mapM_entryBytes_overflow {ps : List (String × Tensor)} : ps.mapM entryBytes ≠ .error .overflow := by
  induction ps with
  | nil => intro h; cases h
  | cons p ps ih =>
    intro h
    rw [List.mapM_cons] at h
    cases hp : entryBytes p with
    | error e =>
      rw [hp] at h
      cases h
      exact entryBytes_overflow p hp
    | ok part =>
      cases hps : ps.mapM entryBytes with
      | error e =>
        rw [hp, hps] at h
        cases h
        exact ih hps
      | ok parts =>
        rw [hp, hps] at h
        cases h

section
variable {κ : Type} {digest : List UInt8 → κ} {m : CachedModel} {a b : Dict String Tensor} {key : κ}

theorem versionBytes_ok (h : m.VersionFits) : versionBytes m.version = .ok (leBytes 4 m.version.toNat) := if_pos h

/-- A key has been computed just of host tensors, and from their texts in order. -/
theorem keyFor_some (h : keyFor digest m.name m.version a = .ok (some key)) :
    (∀ p ∈ a.entries, p.2.handle = none) ∧
      digest (encode m.name ++ leBytes 4 m.version.toNat ++ (sortedInputs a).flatMap entryText) = key := by
  cases hstream : keyStream m.name m.version a with
  | error e => cases e <;> simp [keyFor, hstream] at h
  | ok stream =>
    rw [keyFor, hstream] at h
    obtain ⟨version, hversion, hrest⟩ := bind_ok.mp hstream
    obtain ⟨parts, hparts, hbytes⟩ := bind_ok.mp hrest
    have hhost := host_of_mapM_entryBytes hparts
    rw [mapM_entryBytes hhost] at hparts
    unfold versionBytes at hversion
    split at hversion
    · cases hversion
      cases hparts
      cases hbytes
      refine ⟨fun p hp => hhost p ((perm_sortedInputs a).mem_iff.mpr hp), ?_⟩
      rw [List.flatMap_def]
      exact Option.some.inj (Except.ok.inj h)
    · cases hversion

/-- Only a version that does not fit makes it fail. -/
theorem keyFor_ok (h : m.VersionFits) : ∃ key, keyFor digest m.name m.version a = .ok key := by
  unfold keyFor keyStream
  rw [versionBytes_ok h]
  cases hparts : (sortedInputs a).mapM entryBytes with
  | ok parts => exact ⟨some _, rfl⟩
  | error e =>
    cases e with
    | notHostVisible => exact ⟨none, rfl⟩
    | overflow =>
      exact absurd hparts mapM_entryBytes_overflow

theorem keyFor_overflow (h : ¬m.VersionFits) : keyFor digest m.name m.version a = .error .overflow := by
  have hversion : versionBytes m.version = .error .overflow := if_neg h
  unfold keyFor keyStream
  rw [hversion]
  rfl

/-- What has been admitted. -/
def Valid (m : CachedModel) (inputs : Dict String Tensor) : Prop := validateAgainst inputs m.inputSpecs .input = .ok ()

theorem Valid.declared (h : Valid m a) : ∀ p ∈ a.entries,
    ∃ s ∈ m.inputSpecs, s.name = p.1 ∧ p.2.dtype = s.dtype ∧ s.matches p.2.shape.tail = true := by
  intro p hp
  have hd := (validateAgainst_ok_iff.mp h).2 p hp
  unfold checkDeclared at hd
  cases hs : (specsByName m.inputSpecs).get? p.1 with
  | none =>
    rw [hs] at hd
    cases hd
  | some s =>
    obtain ⟨hmem, hname⟩ := entries_specsByName m.inputSpecs _ (Dict.get?_eq_some_iff.mp hs)
    simp only [hs] at hd
    refine ⟨s, hmem, hname, ?_⟩
    split at hd
    · cases hd
    · rename_i hdtype
      split at hd
      · cases hd
      · rename_i hmatches
        exact ⟨by simpa using hdtype, by simpa using hmatches⟩

theorem Valid.present (h : Valid m a) : ∀ r ∈ m.inputSpecs, r.optional = false → r.name ∈ a.keys := by
  intro r hr hrequired
  have hdeclared : r.name ∈ (specsByName m.inputSpecs).keys := mem_keys_specsByName (.inl hr)
  obtain ⟨found, hfound⟩ := Dict.exists_of_mem_keys hdeclared
  obtain ⟨hmem, hname⟩ := entries_specsByName m.inputSpecs _ hfound
  have hfr : found = r := List.inj_on_of_nodup_map m.unique hmem hr hname
  have hp := (validateAgainst_ok_iff.mp h).1 found (List.mem_map.mpr ⟨_, hfound, rfl⟩)
  rw [hfr] at hp
  unfold checkPresent at hp
  by_contra hmissing
  have hcontains : a.contains r.name = false := by
    rw [← Bool.not_eq_true, Dict.contains_iff]
    exact hmissing
  simp [hcontains, hrequired] at hp

/-- **A key tells its inputs.** -/
theorem key_inj (hdigest : Function.Injective digest) (htwins : ¬Twins m.inputSpecs) (hnested : ¬Nested m.inputSpecs)
    (ha : Valid m a) (hb : Valid m b) (hka : keyFor digest m.name m.version a = .ok (some key))
    (hkb : keyFor digest m.name m.version b = .ok (some key)) : a.get? = b.get? := by
  obtain ⟨hhosta, hdiga⟩ := keyFor_some hka
  obtain ⟨hhostb, hdigb⟩ := keyFor_some hkb
  have hbytes := List.append_cancel_left (hdigest (hdiga.trans hdigb.symm))
  have hkeys (d : Dict String Tensor) (n : String) : n ∈ (sortedInputs d).map Prod.fst ↔ n ∈ d.keys :=
    ((perm_sortedInputs d).map Prod.fst).mem_iff
  have hcomplete : Complete m.inputSpecs [] (sortedInputs a) (sortedInputs b) := by
    refine ⟨by simp, by simp, fun r hr hrequired => .inr ?_⟩
    rw [hkeys, hkeys]
    exact ⟨ha.present r hr hrequired, hb.present r hr hrequired⟩
  apply get?_eq_of_sorted
  refine entries_inj m.unique htwins hnested hcomplete (ascending_sortedInputs a) (ascending_sortedInputs b) ?_ ?_
    hbytes
  · intro p hp
    have hp' := (perm_sortedInputs a).mem_iff.mp hp
    exact ⟨hhosta p hp', ha.declared p hp'⟩
  · intro p hp
    have hp' := (perm_sortedInputs b).mem_iff.mp hp
    exact ⟨hhostb p hp', hb.declared p hp'⟩

end

/-! ## The cache holds what has been put -/

theorem mapEntriesM_sealedCopy : ∀ {l : List (String × Tensor)}
    {r : { r : List (String × Tensor) // r.map Prod.fst = l.map Prod.fst }},
    Dict.mapEntriesM sealedCopy l = .ok r → r.1 = l := by
  intro l
  induction l with
  | nil =>
    intro r hr
    cases hr
    rfl
  | cons p l ih =>
    intro r hr
    unfold Dict.mapEntriesM at hr
    split at hr
    · cases hr
    · cases hr
    · rename_i w rest hw hrest
      cases hr
      unfold sealedCopy at hw
      split at hw
      · cases hw
      · cases hw
        exact congrArg (List.cons p) (ih hrest)

theorem freezeOutputs_ok {outputs payload : Dict String Tensor} (h : freezeOutputs outputs = .ok payload) :
    payload = outputs := by
  unfold freezeOutputs Dict.mapValuesM at h
  split at h
  · cases h
  · rename_i r hr
    cases h
    exact Dict.ext (mapEntriesM_sealedCopy hr)

namespace LruResponseCache

variable {κ : Type} [DecidableEq κ] {c c' : LruResponseCache κ} {key : κ} {payload : Dict String Tensor}

theorem mem_touch {entries : Dict κ (Dict String Tensor)} {p : κ × Dict String Tensor}
    (h : p ∈ (touch entries key payload).entries) : p = (key, payload) ∨ p ∈ entries.entries := by
  rcases Dict.mem_set_entries.mp h with h | ⟨h, -⟩
  · exact .inl h
  · exact .inr (Dict.mem_erase_entries.mp h).1

theorem mem_evict {p : κ × Dict String Tensor} : ∀ {n : Nat} {c : LruResponseCache κ},
    p ∈ (evict n c).entries.entries → p ∈ c.entries.entries := by
  intro n
  induction n with
  | zero => intro c h; exact h
  | succ n ih =>
    intro c h
    unfold evict at h
    split at h
    · exact h
    · split at h
      · exact (Dict.mem_erase_entries.mp (ih h)).1
      · exact h

theorem get_entries (h : c.get key = (c', some payload)) : (key, payload) ∈ c.entries.entries := by
  unfold get at h
  split at h
  · cases h
  · rename_i entry hentry
    cases h
    exact Dict.get?_eq_some_iff.mp hentry

theorem mem_get {p : κ × Dict String Tensor} (h : p ∈ (c.get key).1.entries.entries) : p ∈ c.entries.entries := by
  unfold get at h
  split at h
  · exact h
  · rename_i entry hentry
    rcases mem_touch h with rfl | h
    · exact Dict.get?_eq_some_iff.mp hentry
    · exact h

theorem mem_put {outputs : Dict String Tensor} (h : c.put key outputs = .ok c') {p : κ × Dict String Tensor}
    (hp : p ∈ c'.entries.entries) : p = (key, outputs) ∨ p ∈ c.entries.entries := by
  obtain ⟨payload, hpayload, hrest⟩ := bind_ok.mp h
  obtain rfl := freezeOutputs_ok hpayload
  dsimp only at hrest
  split at hrest
  · cases hrest
    exact .inr hp
  · cases hrest
    exact mem_touch (mem_evict hp)

end LruResponseCache

namespace Serving

variable {κ : Type} [DecidableEq κ] {digest : List UInt8 → κ} {m : CachedModel} {execute : Outputs} {s : Serving κ}

/-- Whatever is stored, or will be, is so under the key of inputs with those outputs. -/
structure Sound (digest : List UInt8 → κ) (m : CachedModel) (execute : Outputs) (s : Serving κ) : Prop where
  entries : ∀ p ∈ s.cache.entries.entries, ∃ inputs, Valid m inputs ∧
    keyFor digest m.name m.version inputs = .ok (some p.1) ∧ p.2 = execute inputs.get?
  flights : ∀ flight ∈ s.flights, ∀ key, flight.key = some key → Valid m flight.inputs ∧
    keyFor digest m.name m.version flight.inputs = .ok (some key)

theorem admitRequest_ok {request : InferenceRequest} {now : Int} {admitted : Batching.Admitted}
    (h : m.model.admitRequest request now = .ok admitted) :
    Valid m request.inputs ∧ admitted.item.request.inputs = request.inputs := by
  have hinputs : (Batching.Model.received request now).inputs = request.inputs := by
    unfold Batching.Model.received
    split <;> rfl
  unfold Batching.Model.admitRequest at h
  split at h
  · cases h
  · split at h
    · cases h
    · rename_i hvalid
      cases h
      exact ⟨hvalid, hinputs⟩

omit [DecidableEq κ] in
theorem Sound.fly (h : s.Sound digest m execute) {inputs : Dict String Tensor} {key : Option κ}
    (hkey : ∀ k, key = some k → Valid m inputs ∧ keyFor digest m.name m.version inputs = .ok (some k)) :
    (s.fly inputs key).Sound digest m execute where
  entries := h.entries
  flights := by
    intro flight hflight k hk
    rcases List.mem_append.mp hflight with hflight | hflight
    · exact h.flights flight hflight k hk
    · obtain rfl := List.mem_singleton.mp hflight
      exact hkey k hk

theorem Sound.looked (h : s.Sound digest m execute) (key : κ) :
    ({ s with cache := (s.cache.get key).1 } : Serving κ).Sound digest m execute where
  entries := fun p hp => h.entries p (LruResponseCache.mem_get hp)
  flights := h.flights

theorem Sound.infer (h : s.Sound digest m execute) (request : InferenceRequest) (now : Int) :
    (s.infer digest m request now).1.Sound digest m execute := by
  unfold Serving.infer
  split
  · exact h
  · rename_i admitted hadmitted
    obtain ⟨hvalid, hinputs⟩ := admitRequest_ok hadmitted
    split
    · exact h
    · exact h.fly fun k hk => by cases hk
    · rename_i key hkey
      dsimp only
      split
      · exact h.looked key
      · refine (h.looked key).fly ?_
        intro k hk
        obtain rfl := Option.some.inj hk
        rw [hinputs] at hkey ⊢
        exact ⟨hvalid, hkey⟩

theorem Sound.store (h : s.Sound digest m execute) {inputs : Dict String Tensor} {key : κ} (hvalid : Valid m inputs)
    (hkey : keyFor digest m.name m.version inputs = .ok (some key)) :
    (s.store key (execute inputs.get?)).Sound digest m execute := by
  unfold Serving.store
  split
  · rename_i c hc
    refine ⟨?_, h.flights⟩
    intro p hp
    rcases LruResponseCache.mem_put hc hp with rfl | hp
    · exact ⟨inputs, hvalid, hkey, rfl⟩
    · exact h.entries p hp
  · exact h

theorem Sound.finish (h : s.Sound digest m execute) (i : Nat) (executed : Bool) :
    (s.finish execute i executed).Sound digest m execute := by
  unfold Serving.finish
  split
  · exact h
  · rename_i flight hflight
    split
    · exact h
    · have hdone : Sound digest m execute { s with flights := s.flights.set i { flight with done := true } } := by
        refine ⟨h.entries, ?_⟩
        intro fl hfl k hk
        rcases List.mem_or_eq_of_mem_set hfl with hfl | rfl
        · exact h.flights fl hfl k hk
        · exact h.flights flight (List.mem_of_getElem? hflight) k hk
      dsimp only
      split
      · rename_i key hkey
        split
        · obtain ⟨hvalid, hk⟩ := h.flights flight (List.mem_of_getElem? hflight) key hkey
          exact hdone.store hvalid hk
        · exact hdone
      · exact hdone

theorem Sound.run (digest : List UInt8 → κ) (m : CachedModel) (execute : Outputs) (maxEntries maxBytes : Int)
    (events : List Event) : (run digest m execute maxEntries maxBytes events).Sound digest m execute := by
  have hstep : ∀ (s : Serving κ) (e : Event), s.Sound digest m execute →
      (step digest m execute s e).1.Sound digest m execute := by
    intro s e h
    cases e with
    | infer request now => exact h.infer request now
    | finish i executed => exact h.finish i executed
    | clear => exact ⟨by simp [step, LruResponseCache.clear], h.flights⟩
  apply Machine.exec_induction (I := fun _ s => Sound digest m execute s)
  · exact ⟨by simp, by simp⟩
  · intro _ s e h
    exact hstep s e h

end Serving

/-- A hit has the outputs of inputs of the same key. -/
theorem right_of {m : CachedModel} (hfits : m.VersionFits) (htwins : ¬Twins m.inputSpecs)
    (hnested : ¬Nested m.inputSpecs) : Right m := by
  intro κ _ digest hdigest execute maxEntries maxBytes events request now
  have hsound := Serving.Sound.run digest m execute maxEntries maxBytes events
  generalize Serving.run digest m execute maxEntries maxBytes events = s at hsound
  unfold Serving.infer
  dsimp only
  cases hadmitted : m.model.admitRequest request now with
  | error e => exact ⟨by simp, by simp⟩
  | ok admitted =>
    obtain ⟨hvalid, hinputs⟩ := Serving.admitRequest_ok hadmitted
    obtain ⟨key, hkey⟩ : ∃ key, keyFor digest m.name m.version request.inputs = .ok key := keyFor_ok hfits
    cases key with
    | none =>
      simp only [hinputs, hkey]
      exact ⟨by simp, by simp⟩
    | some key =>
      cases hget : s.cache.get key with
      | mk cache found =>
        cases found with
        | none =>
          simp only [hinputs, hkey, hget]
          exact ⟨by simp, by simp⟩
        | some cached =>
          simp only [hinputs, hkey, hget]
          refine ⟨by simp, ?_⟩
          intro response hresponse
          obtain ⟨inputs, hvalid', hkey', houtputs⟩ := hsound.entries _ (LruResponseCache.get_entries hget)
          have hsame := key_inj hdigest htwins hnested hvalid' hvalid hkey' hkey
          cases hresponse
          rw [← hsame]
          exact houtputs

/-! ## Two requests of one key -/

/-- Zeros of a shape. -/
def zeros (dtype : DataType) (shape : List Nat) : Tensor where
  dtype := dtype
  shape := shape
  data := List.replicate (elementCount shape * dtype.itemsize) 0
  sized := List.length_replicate

/-- A shape that a spec takes. -/
def leastShape (spec : TensorSpec) : List Nat := spec.shape.map fun d => if d = dynamic then 0 else d.toNat

theorem matches_leastShape (spec : TensorSpec) : spec.matches (leastShape spec) = true := by
  have hall : ∀ dims : List Int, (∀ d ∈ dims, 0 ≤ d ∨ d = dynamic) →
      ((dims.zip (dims.map fun d => if d = dynamic then 0 else d.toNat)).all
        fun p => decide (p.1 = dynamic) || decide (p.1 = p.2)) = true := by
    intro dims
    induction dims with
    | nil => intro _; rfl
    | cons d dims ih =>
      intro h
      obtain ⟨hd, hdims⟩ := List.forall_mem_cons.mp h
      rw [List.map_cons, List.zip_cons_cons, List.all_cons, ih hdims]
      by_cases hdyn : d = dynamic
      · simp [hdyn]
      · have hpos : 0 ≤ d := hd.resolve_right hdyn
        simp [hdyn, hpos]
  unfold TensorSpec.matches leastShape
  rw [hall spec.shape spec.extents]
  simp

/-- Zeros for each required input. -/
def required (m : CachedModel) : Dict String Tensor where
  entries := (m.inputSpecs.filter fun r => !r.optional).map fun r => (r.name, zeros r.dtype (1 :: leastShape r))
  nodup := by
    rw [List.map_map]
    exact (List.Sublist.map TensorSpec.name List.filter_sublist).nodup m.unique

section
variable {m : CachedModel} {s t : TensorSpec}

theorem mem_required {p : String × Tensor} (h : p ∈ (required m).entries) :
    ∃ r ∈ m.inputSpecs, r.optional = false ∧ p = (r.name, zeros r.dtype (1 :: leastShape r)) := by
  obtain ⟨r, hr, rfl⟩ := List.mem_map.mp h
  obtain ⟨hmem, hrequired⟩ := List.mem_filter.mp hr
  exact ⟨r, hmem, by simpa using hrequired, rfl⟩

theorem required_name {n : String} (h : n ∈ (required m).keys) :
    ∃ r ∈ m.inputSpecs, r.optional = false ∧ r.name = n := by
  obtain ⟨x, hx⟩ := Dict.exists_of_mem_keys h
  obtain ⟨r, hr, hrequired, hp⟩ := mem_required hx
  exact ⟨r, hr, hrequired, (congrArg Prod.fst hp).symm⟩

theorem mem_keys_required {r : TensorSpec} (hr : r ∈ m.inputSpecs) (hrequired : r.optional = false) :
    r.name ∈ (required m).keys := by
  apply Dict.mem_keys_of_mem (v := zeros r.dtype (1 :: leastShape r))
  apply List.mem_map.mpr
  exact ⟨r, List.mem_filter.mpr ⟨hr, by simp [hrequired]⟩, rfl⟩

theorem optional_not_mem (hs : s ∈ m.inputSpecs) (hoptional : s.optional = true) : s.name ∉ (required m).keys := by
  intro h
  obtain ⟨r, hr, hrequired, hname⟩ := required_name h
  rw [List.inj_on_of_nodup_map m.unique hr hs hname, hoptional] at hrequired
  cases hrequired

theorem valid_required (m : CachedModel) : Valid m (required m) := by
  apply validateAgainst_of
  · intro r hr
    cases hoptional : r.optional with
    | true => exact .inl rfl
    | false => exact .inr (mem_keys_required hr hoptional)
  · intro n hn
    obtain ⟨r, hr, -, hname⟩ := required_name hn
    exact ⟨r, hr, hname⟩
  · intro r hr p hp hname
    obtain ⟨r', hr', -, rfl⟩ := mem_required hp
    rw [List.inj_on_of_nodup_map m.unique hr hr' hname.symm]
    exact ⟨rfl, matches_leastShape r'⟩

/-- One more input. -/
theorem valid_set (hs : s ∈ m.inputSpecs) {x : Tensor} (hdtype : x.dtype = s.dtype)
    (hmatches : s.matches x.shape.tail = true) : Valid m ((required m).set s.name x) := by
  apply validateAgainst_of
  · intro r hr
    cases hoptional : r.optional with
    | true => exact .inl rfl
    | false => exact .inr (Dict.mem_keys_set.mpr (.inr (mem_keys_required hr hoptional)))
  · intro n hn
    rcases Dict.mem_keys_set.mp hn with rfl | hn
    · exact ⟨s, hs, rfl⟩
    · obtain ⟨r, hr, -, hname⟩ := required_name hn
      exact ⟨r, hr, hname⟩
  · intro r hr p hp hname
    rcases Dict.mem_set_entries.mp hp with rfl | ⟨hp, -⟩
    · rw [List.inj_on_of_nodup_map m.unique hr hs hname.symm]
      exact ⟨hdtype, hmatches⟩
    · obtain ⟨r', hr', -, rfl⟩ := mem_required hp
      rw [List.inj_on_of_nodup_map m.unique hr hr' hname.symm]
      exact ⟨rfl, matches_leastShape r'⟩

/-- The one more input stands between what is below it and what is above. -/
theorem sortedInputs_set {d : Dict String Tensor} {n : String} (hn : n ∉ d.keys) (x : Tensor) :
    sortedInputs (d.set n x) = (sortedInputs d).filter (fun p => decide (p.1 < n)) ++
      (n, x) :: (sortedInputs d).filter fun p => !decide (p.1 < n) := by
  have hne : ∀ p ∈ sortedInputs d, p.1 ≠ n := by
    rintro p hp rfl
    exact hn (List.mem_map_of_mem ((perm_sortedInputs d).mem_iff.mp hp))
  have hasc := ascending_sortedInputs d
  refine List.Perm.eq_of_pairwise ?_ (ascending_sortedInputs _) ?_ ?_
  · intro p q _ _ hpq hqp
    exact absurd (hpq.trans hqp) (lt_irrefl _)
  · refine List.pairwise_append.mpr ⟨hasc.filter _, List.pairwise_cons.mpr ⟨?_, hasc.filter _⟩, ?_⟩
    · intro q hq
      obtain ⟨hmem, hge⟩ := List.mem_filter.mp hq
      have hle : n ≤ q.1 := by simpa only [Bool.not_eq_true', decide_eq_false_iff_not, not_lt] using hge
      exact lt_of_le_of_ne hle (hne q hmem).symm
    · intro p hp q hq
      have hpn : p.1 < n := by simpa using (List.mem_filter.mp hp).2
      rcases List.mem_cons.mp hq with rfl | hq
      · exact hpn
      · have hge := (List.mem_filter.mp hq).2
        have hle : n ≤ q.1 := by simpa only [Bool.not_eq_true', decide_eq_false_iff_not, not_lt] using hge
        exact hpn.trans_le hle
  · refine (perm_sortedInputs _).trans ?_
    rw [Dict.set_entries_of_new hn]
    refine (List.perm_append_singleton _ _).trans ?_
    refine List.Perm.trans ?_ List.perm_middle.symm
    refine List.Perm.cons _ ((perm_sortedInputs d).symm.trans ?_)
    exact (List.filter_append_perm _ _).symm

/-- Zeros of a twin are fed to the digest as zeros of the other are. -/
theorem entryText_twin {n : String} (shape : List Nat) :
    entryText (n ++ "U", zeros .int8 shape) = entryText (n, zeros .uint8 shape) := by
  have hheading : heading (n ++ "U") .int8 shape = heading n .uint8 shape := by
    rw [← String.toList_inj, toList_heading, toList_heading, String.toList_append]
    simp only [List.append_assoc]
    rfl
  simp only [entryText, zeros, hheading]
  rfl

theorem texts_twin (hs : s ∈ m.inputSpecs) (hsoptional : s.optional = true) (ht : t ∈ m.inputSpecs)
    (htoptional : t.optional = true) (hname : t.name = s.name ++ "U")
    (hbetween : ∀ r ∈ m.inputSpecs, s.name < r.name → r.name < t.name → r.optional = true) (shape : List Nat) :
    (sortedInputs ((required m).set s.name (zeros .uint8 shape))).flatMap entryText =
      (sortedInputs ((required m).set t.name (zeros .int8 shape))).flatMap entryText := by
  have hsame : ∀ p ∈ sortedInputs (required m), p.1 < s.name ↔ p.1 < t.name := by
    intro p hp
    have hlt : s.name < t.name := by
      rw [hname]
      exact lt_append_U s.name
    obtain ⟨r, hr, hrequired, rfl⟩ := mem_required ((perm_sortedInputs _).mem_iff.mp hp)
    refine ⟨fun h => h.trans hlt, fun h => ?_⟩
    by_contra hge
    rcases (not_lt.mp hge).lt_or_eq with hbelow | heq
    · have hoptional := hbetween r hr hbelow h
      rw [hrequired] at hoptional
      cases hoptional
    · apply optional_not_mem hs hsoptional
      rw [heq]
      exact mem_keys_required hr hrequired
  rw [sortedInputs_set (optional_not_mem hs hsoptional), sortedInputs_set (optional_not_mem ht htoptional)]
  rw [List.flatMap_append, List.flatMap_append, List.flatMap_cons, List.flatMap_cons, hname, entryText_twin, ← hname]
  have hbelow : (sortedInputs (required m)).filter (fun p => decide (p.1 < s.name)) =
      (sortedInputs (required m)).filter fun p => decide (p.1 < t.name) := by
    apply List.filter_congr
    intro p hp
    rw [decide_eq_decide]
    exact hsame p hp
  have habove : (sortedInputs (required m)).filter (fun p => !decide (p.1 < s.name)) =
      (sortedInputs (required m)).filter fun p => !decide (p.1 < t.name) := by
    apply List.filter_congr
    intro p hp
    rw [decide_eq_decide.mpr (hsame p hp)]
  rw [hbelow, habove]

end

theorem keyFor_host {κ : Type} (digest : List UInt8 → κ) {m : CachedModel} (hfits : m.VersionFits)
    {a : Dict String Tensor} (hhost : ∀ p ∈ a.entries, p.2.handle = none) : keyFor digest m.name m.version a =
      .ok (some (digest (encode m.name ++ leBytes 4 m.version.toNat ++ (sortedInputs a).flatMap entryText))) := by
  have hsorted : ∀ p ∈ sortedInputs a, p.2.handle = none := fun p hp => hhost p ((perm_sortedInputs a).mem_iff.mp hp)
  unfold keyFor keyStream
  rw [versionBytes_ok hfits, mapM_entryBytes hsorted, List.flatMap_def]
  rfl

theorem host_required (m : CachedModel) : ∀ p ∈ (required m).entries, p.2.handle = none := by
  intro p hp
  obtain ⟨r, -, -, rfl⟩ := mem_required hp
  rfl

theorem host_set (m : CachedModel) (n : String) (dtype : DataType) (shape : List Nat) :
    ∀ p ∈ ((required m).set n (zeros dtype shape)).entries, p.2.handle = none := by
  intro p hp
  rcases Dict.mem_set_entries.mp hp with rfl | ⟨hp, -⟩
  · rfl
  · exact host_required m p hp

def requestOf (m : CachedModel) (inputs : Dict String Tensor) : InferenceRequest :=
  { modelName := m.name, inputs := inputs, requestId := 0 }

namespace Serving

variable {κ : Type} [DecidableEq κ] {digest : List UInt8 → κ} {m : CachedModel} {s : Serving κ}
  {request : InferenceRequest} {now : Int} {key : κ}

theorem admitRequest_valid (now : Int) (h : Valid m request.inputs) :
    ∃ admitted, m.model.admitRequest request now = .ok admitted ∧ admitted.item.request.inputs = request.inputs := by
  have hvalid : validateAgainst request.inputs m.model.inputSpecs .input = .ok () := h
  have hok : ∃ admitted, m.model.admitRequest request now = .ok admitted := by
    unfold Batching.Model.admitRequest
    rw [hvalid]
    exact ⟨_, rfl⟩
  obtain ⟨admitted, hadmitted⟩ := hok
  exact ⟨admitted, hadmitted, (admitRequest_ok hadmitted).2⟩

theorem admit_raised (hvalid : Valid m request.inputs) {e : KeyError}
    (hkey : keyFor digest m.name m.version request.inputs = .error e) :
    (s.infer digest m request now).2 = .raised e := by
  obtain ⟨admitted, hadmitted, hinputs⟩ := admitRequest_valid now hvalid
  simp only [infer, hadmitted, hinputs, hkey]

theorem admit_missed (hvalid : Valid m request.inputs)
    (hkey : keyFor digest m.name m.version request.inputs = .ok (some key)) (hget : s.cache.entries.get? key = none) :
    (s.infer digest m request now).1 =
      fly { s with cache := { s.cache with misses := s.cache.misses + 1 } } request.inputs (some key) := by
  obtain ⟨admitted, hadmitted, hinputs⟩ := admitRequest_valid now hvalid
  have hlookup : s.cache.get key = ({ s.cache with misses := s.cache.misses + 1 }, none) := by
    unfold LruResponseCache.get
    rw [hget]
  simp only [infer, hadmitted, hinputs, hkey, hlookup]

theorem admit_hit (hvalid : Valid m request.inputs)
    (hkey : keyFor digest m.name m.version request.inputs = .ok (some key)) {cached : Dict String Tensor}
    (hget : s.cache.entries.get? key = some cached) :
    ∃ response, (s.infer digest m request now).2 = .hit response ∧ response.outputs = cached := by
  obtain ⟨admitted, hadmitted, hinputs⟩ := admitRequest_valid now hvalid
  have hlookup : (s.cache.get key).2 = some cached := by
    unfold LruResponseCache.get
    rw [hget]
  simp only [infer, hadmitted, hinputs, hkey, hlookup]
  exact ⟨_, rfl, rfl⟩

end Serving

theorem versionFits_of_right {m : CachedModel} (h : Right m) : m.VersionFits := by
  by_contra hfits
  obtain ⟨hraised, -⟩ := h (List UInt8) id (fun _ _ heq => heq) (fun _ => .empty) 1 0 [] (requestOf m (required m)) 0
  apply hraised .overflow
  exact Serving.admit_raised (valid_required m) (keyFor_overflow hfits)

/-- An execution that tells whether an input is given. -/
def tells (n : String) : Outputs := fun look =>
  if (look n).isSome then .empty else Dict.empty.set n (zeros .uint8 [0])

theorem put_first {κ : Type} [DecidableEq κ] (misses : Nat) (key : κ) :
    ∃ c, LruResponseCache.put { maxEntries := 1, maxBytes := 0, misses := misses } key .empty = .ok c ∧
      c.entries.get? key = some .empty :=
  ⟨_, rfl, Dict.get?_eq_some_iff.mpr List.mem_cons_self⟩

/-- The outputs of a request are put, and answer a second one of its key. -/
theorem hit_of_same_key {m : CachedModel} {a b : Dict String Tensor} (ha : Valid m a) (hb : Valid m b)
    {key : List UInt8} (hka : keyFor id m.name m.version a = .ok (some key))
    (hkb : keyFor id m.name m.version b = .ok (some key))
    {execute : Outputs} (hempty : execute a.get? = .empty) (h : Right m) : execute b.get? = .empty := by
  obtain ⟨-, hright⟩ := h (List UInt8) id (fun _ _ heq => heq) execute 1 0 [.infer (requestOf m a) 0, .finish 0 true]
    (requestOf m b) 0
  have hrun : (Serving.run id m execute 1 0 [.infer (requestOf m a) 0, .finish 0 true]).cache.entries.get? key =
      some .empty := by
    simp only [Serving.run, Machine.exec, Serving.step]
    rw [Serving.admit_missed ha hka (by rfl)]
    obtain ⟨c, hput, hget⟩ := put_first 1 key
    simp only [Serving.finish, Serving.fly, List.nil_append, List.getElem?_cons_zero, Serving.store, requestOf, hempty]
    rw [hput]
    exact hget
  have hhit : ∃ response, ((Serving.run id m execute 1 0 [.infer (requestOf m a) 0, .finish 0 true]).infer id m
      (requestOf m b) 0).2 = .hit response ∧ response.outputs = .empty := Serving.admit_hit hb hkb hrun
  obtain ⟨response, hresponse, houtputs⟩ := hhit
  exact (hright response hresponse).symm.trans houtputs

theorem not_twins_of_right {m : CachedModel} (h : Right m) : ¬Twins m.inputSpecs := by
  rintro ⟨s, hs, t, ht, ⟨hsoptional, hbetween⟩, htoptional, hsdtype, htdtype, hname, shape, hsmatches, htmatches⟩
  have hfits := versionFits_of_right h
  have hvalid_s : Valid m ((required m).set s.name (zeros .uint8 (1 :: shape))) := valid_set hs hsdtype.symm hsmatches
  have hvalid_t : Valid m ((required m).set t.name (zeros .int8 (1 :: shape))) := valid_set ht htdtype.symm htmatches
  have hkey_s := keyFor_host id hfits (host_set m s.name .uint8 (1 :: shape))
  have hkey_t := keyFor_host id hfits (host_set m t.name .int8 (1 :: shape))
  rw [texts_twin hs hsoptional ht htoptional hname hbetween] at hkey_s
  have hne : s.name ≠ t.name := by
    rw [hname]
    exact (lt_append_U s.name).ne
  have hempty : tells s.name ((required m).set s.name (zeros .uint8 (1 :: shape))).get? = .empty := by simp [tells]
  have hsame := hit_of_same_key hvalid_s hvalid_t hkey_s hkey_t hempty h
  have hmissing : ((required m).set t.name (zeros .int8 (1 :: shape))).get? s.name = none := by
    rw [Dict.get?_set_ne hne, Dict.get?_eq_none_iff]
    exact optional_not_mem hs hsoptional
  have hentries := congrArg Dict.entries hsame
  simp [tells, hmissing, Dict.set_entries_of_new] at hentries

/-- **Where the cache is right.** Where the version fits and no two inputs' names run into
each other, and nowhere where it does not or there are twins. -/
theorem cache_right (m : CachedModel) :
    (m.VersionFits ∧ ¬Twins m.inputSpecs ∧ ¬Nested m.inputSpecs → Right m) ∧
      (Right m → m.VersionFits ∧ ¬Twins m.inputSpecs) := by
  constructor
  · rintro ⟨hfits, htwins, hnested⟩
    exact right_of hfits htwins hnested
  · intro h
    exact ⟨versionFits_of_right h, not_twins_of_right h⟩

def imageSpec : TensorSpec where
  name := "image"
  dtype := .fp32
  shape := [3]
  named := by decide
  extents := by decide

def maskSpec : TensorSpec where
  name := "mask"
  dtype := .uint8
  shape := [dynamic]
  optional := true
  named := by decide
  extents := by decide

def maskUSpec : TensorSpec where
  name := "maskU"
  dtype := .int8
  shape := [dynamic]
  optional := true
  named := by decide
  extents := by decide

def detector (version : Int) : CachedModel where
  name := "detector"
  version := version
  inputSpecs := [imageSpec, maskSpec]
  outputSpecs := []
  maxBatchSize := 8
  unique := by decide +kernel

def maskedDetector : CachedModel where
  name := "detector"
  version := 1
  inputSpecs := [imageSpec, maskSpec, maskUSpec]
  outputSpecs := []
  maxBatchSize := 8
  unique := by decide +kernel

theorem detector_right : Right (detector 1) := by
  apply (cache_right (detector 1)).1
  refine ⟨⟨by decide, by decide⟩, ?_, ?_⟩
  · rintro ⟨s, hs, t, ht, -, -, -, hdtype, -⟩
    rcases List.mem_cons.mp ht with rfl | ht
    · cases hdtype
    · obtain rfl := List.mem_singleton.mp ht
      cases hdtype
  · rintro ⟨s, hs, t, ht, -, shape, -, z, hz⟩
    have hlength := congrArg List.length hz
    rw [toList_heading, toList_shapeText] at hlength
    have hs' : 5 ≤ s.name.toList.length + (dtypeValue s.dtype).toList.length := by
      rcases List.mem_cons.mp hs with rfl | hs
      · decide +kernel
      · obtain rfl := List.mem_singleton.mp hs
        decide +kernel
    have ht' : t.name.toList.length ≤ 5 := by
      rcases List.mem_cons.mp ht with rfl | ht
      · decide +kernel
      · obtain rfl := List.mem_singleton.mp ht
        decide +kernel
    simp only [List.length_append, List.length_cons] at hlength
    omega

/-- A tensor given for `mask` is taken for one given for `maskU`; and a version made of a
date has no key. -/
theorem maskU_hits_mask : ¬Right maskedDetector ∧ ¬Right (detector 20260101120000) := by
  constructor
  · intro h
    apply not_twins_of_right h
    refine ⟨maskSpec, ?_, maskUSpec, ?_, ⟨rfl, ?_⟩, rfl, rfl, rfl, by decide +kernel, [4], by decide, by decide⟩
    · exact List.mem_cons_of_mem _ List.mem_cons_self
    · exact List.mem_cons_of_mem _ (List.mem_cons_of_mem _ List.mem_cons_self)
    · decide +kernel
  · intro h
    exact absurd (versionFits_of_right h).2 (by decide)

end ShipInfer.Engine.Cache
