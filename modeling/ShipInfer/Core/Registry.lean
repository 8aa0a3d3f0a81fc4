import Mathlib.Data.List.Sort
import ShipInfer.Lib.Dict
import ShipInfer.Lib.Machine

/-!
# The plugin registry

`Registry` of `core/registry` and the checks `ElementRegistry` puts before it. A
registration writes its entry and then its aliases, one by one, until one of
them is another entry's: what was written by then stays.
-/

namespace ShipInfer

structure PluginClass where
  name : String
  /-- The class and what it subclasses. -/
  bases : List String
  /-- `Element.kind`, when it declares one. -/
  kind : Option String := none
  deriving DecidableEq

inductive Implementation
  | cls (c : PluginClass)
  /-- `"module:ClassName"`, imported on first use. -/
  | target (path : String)
  deriving DecidableEq

structure RegistryEntry where
  name : String
  aliases : List String
  impl : Implementation
  deriving DecidableEq

inductive RegistryError
  /-- `<cls> declares kind <declared> and cannot be registered as a <kind> element (as <name>)` -/
  | wrongKind (cls : String) (declared : Option String) (kind name : String)
  /-- `<cls> cannot be registered as a <kind>: it does not subclass <base>` -/
  | notSubclass (cls kind base : String)
  /-- `<kind> <name> is already registered (<existing>); pick another name` -/
  | taken (kind name : String) (existing : RegistryEntry)
  /-- `<kind> alias <name> already points at <holder>` -/
  | aliasTaken (kind name holder : String)
  /-- `unknown <kind> <name>; available: <names>` -/
  | unknown (kind name : String) (available : List String)
  deriving DecidableEq

structure Registry where
  kind : String
  base : Option String := none
  /-- The kind every class must declare, in an `ElementRegistry`. -/
  elementKind : Option String := none
  entries : Dict String RegistryEntry := .empty
  byAlias : Dict String String := .empty
  deriving DecidableEq

/-- A call of `register`, applied to a class, or of `register_lazy`. -/
inductive Registration
  | register (name : String) (aliases : List String) (cls : PluginClass)
  | registerLazy (name target : String) (aliases : List String)
  deriving DecidableEq

namespace Registration

def entry : Registration → RegistryEntry
  | register name aliases cls => ⟨name, aliases, .cls cls⟩
  | registerLazy name target aliases => ⟨name, aliases, .target target⟩

def name (c : Registration) : String := c.entry.name

def aliases (c : Registration) : List String := c.entry.aliases

end Registration

namespace Registry

/-! ## Lookup -/

def canonical (r : Registry) (name : String) : String := (r.byAlias.get? name).getD name

/-- `sorted(self._entries)` -/
def names (r : Registry) : List String := r.entries.keys.mergeSort (fun a b => decide (a ≤ b))

def entry (r : Registry) (name : String) : Except RegistryError RegistryEntry :=
  match r.entries.get? (r.canonical name) with
  | some e => .ok e
  | none => .error (.unknown r.kind name r.names)

/-! ## Registration -/

/-- What is asked of a class before anything is recorded; a lazy target is asked nothing. -/
def refusal (r : Registry) : Registration → Option RegistryError
  | .register name _ cls =>
    match r.elementKind with
    | some kind =>
      if cls.kind ≠ some kind then some (.wrongKind cls.name cls.kind kind name)
      else subclassRefusal cls
    | none => subclassRefusal cls
  | .registerLazy .. => none
where
  subclassRefusal (cls : PluginClass) : Option RegistryError :=
    match r.base with
    | some base => if base ∉ cls.bases then some (.notSubclass cls.name r.kind base) else none
    | none => none

/-- The alias loop of `_add`. -/
def addAliases (kind name : String) : List String → Dict String String → Dict String String × Option RegistryError
  | [], byAlias => (byAlias, none)
  | a :: as, byAlias =>
    match byAlias.get? a with
    | some holder =>
      if holder ≠ name then (byAlias, some (.aliasTaken kind a holder))
      else addAliases kind name as (byAlias.set a name)
    | none => addAliases kind name as (byAlias.set a name)

/-- `_add`: the entry in the map before its aliases are checked. -/
def add (r : Registry) (e : RegistryEntry) : Registry × Except RegistryError RegistryEntry :=
  match r.entries.get? e.name with
  | some existing => (r, .error (.taken r.kind e.name existing))
  | none =>
    let written := addAliases r.kind e.name e.aliases r.byAlias
    ({ r with entries := r.entries.set e.name e, byAlias := written.1 },
      match written.2 with
      | some err => .error err
      | none => .ok e)

/-- A call, and the entry it registered. -/
def step (r : Registry) (c : Registration) : Registry × Except RegistryError RegistryEntry :=
  match r.refusal c with
  | some err => (r, .error err)
  | none => r.add c.entry

/-! ## What a registration writes -/

theorem addAliases_free (kind name : String) : ∀ {as : List String} {byAlias : Dict String String},
    (∀ a ∈ as, byAlias.get? a = none ∨ byAlias.get? a = some name) →
      (addAliases kind name as byAlias).2 = none ∧
        ∀ x, (addAliases kind name as byAlias).1.get? x = if x ∈ as then some name else byAlias.get? x
  | [], byAlias, _ => by simp [addAliases]
  | a :: as, byAlias, h => by
    have hstep : addAliases kind name (a :: as) byAlias = addAliases kind name as (byAlias.set a name) := by
      rcases h a List.mem_cons_self with ha | ha <;> simp [addAliases, ha]
    have hset : ∀ b ∈ as, (byAlias.set a name).get? b = none ∨ (byAlias.set a name).get? b = some name := by
      intro b hb
      rw [Dict.get?_set]
      by_cases hab : b = a
      · simp [hab]
      · simpa [hab] using h b (List.mem_cons_of_mem _ hb)
    obtain ⟨hok, hget⟩ := addAliases_free kind name hset
    rw [hstep]
    refine ⟨hok, fun x => ?_⟩
    rw [hget, Dict.get?_set]
    by_cases hx : x ∈ as
    · simp [hx]
    · by_cases hxa : x = a <;> simp [hx, hxa]

theorem addAliases_clash (kind : String) {name a holder : String} (hne : holder ≠ name) :
    ∀ {as : List String} {byAlias : Dict String String}, a ∈ as → byAlias.get? a = some holder →
      (addAliases kind name as byAlias).2 ≠ none
  | b :: as, byAlias, hmem, ha => by
    unfold addAliases
    by_cases hab : a = b
    · subst hab
      simp [ha, hne]
    · have hrest : a ∈ as := by simpa [hab] using hmem
      have hset : (byAlias.set b name).get? a = some holder := by rw [Dict.get?_set_ne hab, ha]
      have hlater := addAliases_clash kind hne hrest hset
      cases byAlias.get? b with
      | none => exact hlater
      | some other =>
        by_cases ho : other = name
        · simpa [ho] using hlater
        · simp [ho]

/-- The alias loop never takes an alias away, and points it nowhere else. -/
theorem addAliases_keeps (kind name : String) : ∀ (as : List String) {byAlias : Dict String String} {x holder : String},
    byAlias.get? x = some holder → (addAliases kind name as byAlias).1.get? x = some holder
  | [], _, _, _, h => h
  | a :: as, byAlias, x, holder, h => by
    unfold addAliases
    cases ha : byAlias.get? a with
    | none =>
      have hxa : x ≠ a := by
        intro e
        rw [← e, h] at ha
        cases ha
      exact addAliases_keeps kind name as (by rw [Dict.get?_set_ne hxa, h])
    | some other =>
      by_cases ho : other = name
      · simp only [ho, ne_eq, not_true, if_false]
        refine addAliases_keeps kind name as ?_
        rw [Dict.get?_set]
        by_cases hxa : x = a
        · subst hxa
          rw [h] at ha
          simp [← ho, Option.some.inj ha]
        · simp [hxa, h]
      · simpa [ho] using h

/-- What the alias loop points somewhere it points at its entry. -/
theorem addAliases_new (kind name : String) : ∀ {as : List String} {byAlias : Dict String String} {x holder : String},
    (addAliases kind name as byAlias).1.get? x = some holder → byAlias.get? x = some holder ∨ holder = name
  | [], _, _, _, h => .inl h
  | a :: as, byAlias, x, holder, h => by
    have hset : ∀ {y}, (byAlias.set a name).get? x = some y → byAlias.get? x = some y ∨ y = name := by
      intro y hy
      rw [Dict.get?_set] at hy
      by_cases hxa : x = a
      · simp only [hxa, if_true] at hy
        exact .inr (Option.some.inj hy).symm
      · exact .inl (by simpa [hxa] using hy)
    unfold addAliases at h
    cases ha : byAlias.get? a with
    | none =>
      simp only [ha] at h
      exact (addAliases_new kind name h).elim hset .inr
    | some other =>
      by_cases ho : other = name
      · simp only [ha, ho, ne_eq, not_true, if_false] at h
        exact (addAliases_new kind name h).elim hset .inr
      · simp only [ha, ne_eq, ho, not_false_eq_true, if_true] at h
        exact .inl h

/-! ## What holds of every registry -/

/-- The registry after calls that answered `os`. -/
structure Sound (os : List (Except RegistryError RegistryEntry)) (r : Registry) : Prop where
  named : ∀ k e, r.entries.get? k = some e → e.name = k
  held : ∀ a k, r.byAlias.get? a = some k → k ∈ r.entries.keys
  kept : ∀ e, .ok e ∈ os → r.entries.get? e.name = some e ∧ ∀ a ∈ e.aliases, r.byAlias.get? a = some e.name

/-- A call that gets to writing. -/
def Writes (r : Registry) (c : Registration) : Prop := r.refusal c = none ∧ c.name ∉ r.entries.keys

theorem step_writes {r : Registry} {c : Registration} (h : r.Writes c) :
    r.step c = ({ r with entries := r.entries.set c.name c.entry,
                         byAlias := (addAliases r.kind c.name c.aliases r.byAlias).1 },
      match (addAliases r.kind c.name c.aliases r.byAlias).2 with
      | some err => .error err
      | none => .ok c.entry) := by
  unfold step
  rw [h.1]
  show r.add c.entry = _
  unfold add
  rw [show r.entries.get? c.entry.name = none from Dict.get?_eq_none_iff.mpr h.2]
  rfl

/-- Any other call is refused and writes nothing. -/
theorem step_quiet {r : Registry} {c : Registration} (h : ¬r.Writes c) : ∃ err, r.step c = (r, .error err) := by
  unfold step
  cases hr : r.refusal c with
  | some err => exact ⟨err, rfl⟩
  | none =>
    have hk : c.name ∈ r.entries.keys := by
      by_contra hk
      exact h ⟨hr, hk⟩
    obtain ⟨e, he⟩ := Option.ne_none_iff_exists'.mp (mt Dict.get?_eq_none_iff.mp (not_not.mpr hk))
    refine ⟨.taken r.kind c.name e, ?_⟩
    show r.add c.entry = _
    unfold add
    rw [show r.entries.get? c.entry.name = some e from he]
    rfl

/-- An alias in the registry another entry than `c` holds. -/
theorem Sound.holder_ne {os : List (Except RegistryError RegistryEntry)} {r : Registry} {c : Registration} {a k : String}
    (h : Sound os r) (hw : r.Writes c) (ha : r.byAlias.get? a = some k) : k ≠ c.name := by
  intro e
  exact hw.2 (e ▸ h.held a k ha)

theorem step_accepts {r : Registry} {c : Registration} (hw : r.Writes c) (hfree : ∀ a ∈ c.aliases, a ∉ r.byAlias.keys) :
    (r.step c).2 = .ok c.entry ∧
      ∀ x, (r.step c).1.byAlias.get? x = if x ∈ c.aliases then some c.name else r.byAlias.get? x := by
  obtain ⟨hok, hget⟩ := addAliases_free r.kind c.name fun a ha =>
    .inl (Dict.get?_eq_none_iff.mpr (hfree a ha))
  rw [step_writes hw, hok]
  exact ⟨rfl, hget⟩

theorem Sound.clash {os : List (Except RegistryError RegistryEntry)} {r : Registry} {c : Registration} {a : String}
    (h : Sound os r) (hw : r.Writes c) (ha : a ∈ c.aliases) (hheld : a ∈ r.byAlias.keys) :
    ∃ err, (r.step c).2 = .error err := by
  obtain ⟨holder, hholder⟩ := Option.ne_none_iff_exists'.mp (mt Dict.get?_eq_none_iff.mp (not_not.mpr hheld))
  have hclash := addAliases_clash r.kind (h.holder_ne hw hholder) ha hholder
  rw [step_writes hw]
  cases hw2 : (addAliases r.kind c.name c.aliases r.byAlias).2 with
  | none => exact absurd hw2 hclash
  | some err => exact ⟨err, rfl⟩

theorem Sound.step {os : List (Except RegistryError RegistryEntry)} {r : Registry} (c : Registration) (h : Sound os r) :
    Sound (os ++ [(r.step c).2]) (r.step c).1 := by
  by_cases hw : r.Writes c
  · have hold : ∀ e, .ok e ∈ os →
        (r.entries.set c.name c.entry).get? e.name = some e ∧
          ∀ a ∈ e.aliases, (addAliases r.kind c.name c.aliases r.byAlias).1.get? a = some e.name := by
      intro e he
      obtain ⟨hent, hal⟩ := h.kept e he
      have hne : e.name ≠ c.name := by
        intro heq
        exact hw.2 (heq ▸ Dict.mem_keys_of_mem (Dict.get?_eq_some_iff.mp hent))
      exact ⟨by rw [Dict.get?_set_ne hne, hent], fun a ha => addAliases_keeps _ _ _ (hal a ha)⟩
    have hlast : ∀ e, (r.step c).2 = .ok e →
        (r.entries.set c.name c.entry).get? e.name = some e ∧
          ∀ a ∈ e.aliases, (addAliases r.kind c.name c.aliases r.byAlias).1.get? a = some e.name := by
      intro e he
      by_cases hfree : ∀ a ∈ c.aliases, a ∉ r.byAlias.keys
      · obtain ⟨hok, hget⟩ := step_accepts hw hfree
        rw [hok] at he
        cases he
        rw [step_writes hw] at hget
        exact ⟨Dict.get?_set_self _ _ _, fun a ha => (hget a).trans (if_pos ha)⟩
      · simp only [not_forall, not_not] at hfree
        obtain ⟨a, ha, hheld⟩ := hfree
        obtain ⟨err, herr⟩ := h.clash hw ha hheld
        rw [herr] at he
        cases he
    rw [step_writes hw] at hlast ⊢
    constructor
    · intro k e hk
      rw [Dict.get?_set] at hk
      by_cases hkc : k = c.name
      · simp only [hkc, if_true] at hk
        rw [← Option.some.inj hk, hkc]
        rfl
      · exact h.named k e (by simpa [hkc] using hk)
    · intro a k ha
      rw [Dict.mem_keys_set]
      rcases addAliases_new _ _ ha with hold | rfl
      · exact .inr (h.held a k hold)
      · exact .inl rfl
    · intro e he
      rcases List.mem_append.mp he with he | he
      · exact hold e he
      · exact hlast e (List.mem_singleton.mp he).symm
  · obtain ⟨err, hs⟩ := step_quiet hw
    rw [hs]
    refine ⟨h.named, h.held, fun e he => h.kept e ?_⟩
    simpa using he

theorem sound_exec {r : Registry} (he : r.entries = .empty) (ha : r.byAlias = .empty) (cs : List Registration) :
    Sound (Machine.exec Registry.step r cs).2 (Machine.exec Registry.step r cs).1 := by
  refine Machine.exec_induction ?_ (fun os r c h => h.step c) cs
  constructor
  · simp [he]
  · simp [ha]
  · simp

/-! ## Names that resolve -/

/-- The entry's name and every alias of it lead to it. -/
def Resolves (r : Registry) (e : RegistryEntry) : Prop :=
  r.entry e.name = .ok e ∧ ∀ a ∈ e.aliases, r.entry a = .ok e

/-- Every lookup answers alike. -/
def SameLookups (r t : Registry) : Prop :=
  (∀ x, r.canonical x = t.canonical x) ∧ (∀ x, r.entry x = t.entry x) ∧ r.names = t.names

/-- After the calls every accepted entry is found under its name and its aliases,
and no refused call changed a lookup. -/
def Atomic (r : Registry) (cs : List Registration) : Prop :=
  (∀ e, .ok e ∈ (Machine.exec step r cs).2 → Resolves (Machine.exec step r cs).1 e) ∧
    ∀ before c after err, cs = before ++ c :: after →
      ((Machine.exec step r before).1.step c).2 = .error err →
        SameLookups (Machine.exec step r before).1 ((Machine.exec step r before).1.step c).1

/-- A call that is refused before it writes, or brings a name and aliases that are
no alias yet and, its own name apart, no aliases that are names. -/
def Clear (r : Registry) (c : Registration) : Prop :=
  r.refusal c ≠ none ∨ c.name ∈ r.entries.keys ∨
    c.name ∉ r.byAlias.keys ∧ ∀ a ∈ c.aliases, a ∉ r.byAlias.keys ∧ (a = c.name ∨ a ∉ r.entries.keys)

instance (r : Registry) (c : Registration) : Decidable (Clear r c) :=
  inferInstanceAs (Decidable (_ ∨ _ ∨ _ ∧ _))

theorem canonical_eq_self {r : Registry} {x : String} (h : x ∉ r.byAlias.keys) : r.canonical x = x := by
  simp [canonical, Dict.get?_eq_none_iff.mpr h]

theorem canonical_of_alias {r : Registry} {x k : String} (h : r.byAlias.get? x = some k) : r.canonical x = k := by
  simp [canonical, h]

theorem entry_eq_ok_iff {r : Registry} {x : String} {e : RegistryEntry} :
    r.entry x = .ok e ↔ r.entries.get? (r.canonical x) = some e := by
  unfold entry
  cases r.entries.get? (r.canonical x) <;> simp

/-- An accepted entry resolves when nobody took its name as an alias. -/
theorem Sound.resolves_iff {os : List (Except RegistryError RegistryEntry)} {r : Registry} {e : RegistryEntry}
    (h : Sound os r) (he : .ok e ∈ os) : r.Resolves e ↔ r.canonical e.name = e.name := by
  obtain ⟨hent, hal⟩ := h.kept e he
  unfold Resolves
  rw [entry_eq_ok_iff]
  constructor
  · intro hres
    exact (h.named _ e hres.1).symm
  · intro hc
    rw [hc]
    refine ⟨hent, fun a ha => ?_⟩
    rw [entry_eq_ok_iff, canonical_of_alias (hal a ha), hent]

/-- Once a name is an alias of another entry it stays one. -/
theorem canonical_step {r : Registry} (c : Registration) {x : String} (h : (r.step c).1.canonical x = x) :
    r.canonical x = x := by
  by_cases hw : r.Writes c
  · rw [step_writes hw] at h
    cases hx : r.byAlias.get? x with
    | none => simp [canonical, hx]
    | some k =>
      have hkeep := addAliases_keeps r.kind c.name c.aliases hx
      rw [canonical_of_alias (r := { r with entries := _, byAlias := (addAliases r.kind c.name c.aliases r.byAlias).1 })
        hkeep] at h
      rw [canonical_of_alias hx, h]
  · obtain ⟨err, hs⟩ := step_quiet hw
    rw [hs] at h
    exact h

/-- A clear call that writes is accepted. -/
theorem Clear.accepts {r : Registry} {c : Registration} (hw : r.Writes c) (h : Clear r c) :
    c.name ∉ r.byAlias.keys ∧ (∀ a ∈ c.aliases, a ∉ r.byAlias.keys ∧ (a = c.name ∨ a ∉ r.entries.keys)) ∧
      (r.step c).2 = .ok c.entry := by
  rcases h with h | h | ⟨hname, hal⟩
  · exact absurd hw.1 h
  · exact absurd h hw.2
  · exact ⟨hname, hal, (step_accepts hw fun a ha => (hal a ha).1).1⟩

/-- Along clear calls every entry in the map was accepted. -/
theorem accepted_of_clear {r : Registry} {cs : List Registration} (hr : r.entries = .empty)
    (h : Machine.Along step Clear r cs) :
    ∀ k ∈ (Machine.exec step r cs).1.entries.keys, ∃ e, .ok e ∈ (Machine.exec step r cs).2 ∧ e.name = k := by
  refine Machine.Along.induction (I := fun os t => ∀ k ∈ t.entries.keys, ∃ e, .ok e ∈ os ∧ e.name = k) ?_ cs h ?_
  · intro os t c hI hc k hk
    by_cases hw : t.Writes c
    · obtain ⟨-, -, hok⟩ := hc.accepts hw
      rw [hok]
      rw [step_writes hw, Dict.mem_keys_set] at hk
      rcases hk with rfl | hk
      · exact ⟨c.entry, by simp, rfl⟩
      · obtain ⟨e, he, hname⟩ := hI k hk
        exact ⟨e, List.mem_append_left _ he, hname⟩
    · obtain ⟨err, hs⟩ := step_quiet hw
      rw [hs] at hk ⊢
      obtain ⟨e, he, hname⟩ := hI k hk
      exact ⟨e, List.mem_append_left _ he, hname⟩
  · simp [hr]

theorem not_sameLookups_of_writes {r : Registry} {c : Registration} (hw : r.Writes c) :
    ¬SameLookups r (r.step c).1 := by
  intro h
  have hmem : c.name ∈ (r.step c).1.names := by
    rw [step_writes hw, names, List.mem_mergeSort, Dict.mem_keys_set]
    exact .inl rfl
  rw [← h.2.2, names, List.mem_mergeSort] at hmem
  exact hw.2 hmem

/-! ## The calls that keep the registry sound -/

/-- What one more call does to the entries that resolve, after clear calls. -/
theorem Sound.resolve_step {os : List (Except RegistryError RegistryEntry)} {r : Registry} {c : Registration}
    (h : Sound os r) (hacc : ∀ k ∈ r.entries.keys, ∃ e, .ok e ∈ os ∧ e.name = k)
    (hres : ∀ e, .ok e ∈ os → Resolves r e) (hw : r.Writes c) :
    ((∀ e, .ok e ∈ os ++ [(r.step c).2] → Resolves (r.step c).1 e) ∧
      ∀ err, (r.step c).2 ≠ .error err) ↔ Clear r c := by
  have hnext := h.step c
  constructor
  · rintro ⟨hall, hok⟩
    have hfree : ∀ a ∈ c.aliases, a ∉ r.byAlias.keys := by
      intro a ha hheld
      obtain ⟨err, herr⟩ := h.clash hw ha hheld
      exact hok err herr
    obtain ⟨haccept, hget⟩ := step_accepts hw hfree
    refine .inr (.inr ⟨fun hname => ?_, fun a ha => ⟨hfree a ha, ?_⟩⟩)
    · -- its name leads to another entry
      have hmem : .ok c.entry ∈ os ++ [(r.step c).2] := by simp [haccept]
      have hself : (r.step c).1.canonical c.name = c.name := (hnext.resolves_iff hmem).mp (hall _ hmem)
      obtain ⟨k, hk⟩ := Option.ne_none_iff_exists'.mp (mt Dict.get?_eq_none_iff.mp (not_not.mpr hname))
      have hcanon := canonical_step c hself
      rw [canonical_of_alias hk] at hcanon
      exact h.holder_ne hw hk hcanon
    · -- its alias hides an entry's name
      by_contra hne
      simp only [not_or, not_not] at hne
      obtain ⟨e, he, rfl⟩ := hacc a hne.2
      have hmem : .ok e ∈ os ++ [(r.step c).2] := List.mem_append_left _ he
      have hself := (hnext.resolves_iff hmem).mp (hall e hmem)
      have htaken : (r.step c).1.byAlias.get? e.name = some c.name := by rw [hget, if_pos ha]
      rw [canonical_of_alias htaken] at hself
      exact hne.1 hself.symm
  · intro hc
    obtain ⟨hname, hal, haccept⟩ := hc.accepts hw
    obtain ⟨-, hget⟩ := step_accepts hw fun a ha => (hal a ha).1
    refine ⟨fun e hmem => ?_, fun err herr => by rw [haccept] at herr; cases herr⟩
    rw [hnext.resolves_iff hmem]
    rw [canonical, hget]
    by_cases ha : e.name ∈ c.aliases
    · rw [if_pos ha]
      rcases List.mem_append.mp hmem with he | he
      · have hkey : e.name ∈ r.entries.keys := Dict.mem_keys_of_mem (Dict.get?_eq_some_iff.mp (h.kept e he).1)
        rcases (hal _ ha).2 with heq | hnew
        · exact heq.symm
        · exact absurd hkey hnew
      · rw [haccept, List.mem_singleton] at he
        cases he
        rfl
    · rw [if_neg ha]
      rcases List.mem_append.mp hmem with he | he
      · exact (h.resolves_iff he).mp (hres e he)
      · rw [haccept, List.mem_singleton] at he
        cases he
        exact canonical_eq_self hname

theorem atomic_snoc {r : Registry} {cs : List Registration} {c : Registration} :
    Atomic r (cs ++ [c]) ↔
      (∀ e, .ok e ∈ (Machine.exec step r (cs ++ [c])).2 → Resolves (Machine.exec step r (cs ++ [c])).1 e) ∧
        (∀ before d after err, cs = before ++ d :: after → ((Machine.exec step r before).1.step d).2 = .error err →
          SameLookups (Machine.exec step r before).1 ((Machine.exec step r before).1.step d).1) ∧
        ∀ err, ((Machine.exec step r cs).1.step c).2 = .error err →
          SameLookups (Machine.exec step r cs).1 ((Machine.exec step r cs).1.step c).1 := by
  refine and_congr_right fun _ => ⟨fun h => ⟨?_, ?_⟩, fun ⟨hbefore, hlast⟩ => ?_⟩
  · intro before d after err hcs
    exact h before d (after ++ [c]) err (by simp [hcs])
  · intro err
    exact h cs c [] err rfl
  · intro before d after err hcs
    rcases List.eq_nil_or_concat after with rfl | ⟨after, x, rfl⟩
    · obtain ⟨rfl, hd⟩ := List.append_inj' hcs rfl
      cases hd
      exact hlast err
    · rw [List.concat_eq_append, ← List.cons_append, ← List.append_assoc] at hcs
      exact hbefore before d after err (List.append_inj' hcs rfl).1

/-- **Registration is unambiguous and atomic just along clear calls.** -/
theorem atomic_iff_clear {r : Registry} (he : r.entries = .empty) (ha : r.byAlias = .empty) (cs : List Registration) :
    Atomic r cs ↔ Machine.Along step Clear r cs := by
  induction cs using List.reverseRecOn with
  | nil => simp [Atomic, Machine.exec, Machine.Along]
  | append_singleton cs c ih =>
    have hsound := sound_exec he ha cs
    have hnext := hsound.step c
    rw [Machine.along_snoc, ← ih, atomic_snoc, Machine.exec_snoc]
    by_cases hw : (Machine.exec step r cs).1.Writes c
    · constructor
      · rintro ⟨hres, hbefore, hlast⟩
        have hok : ∀ err, ((Machine.exec step r cs).1.step c).2 ≠ .error err := fun err herr =>
          not_sameLookups_of_writes hw (hlast err herr)
        have hatomic : Atomic r cs := by
          refine ⟨fun e hmem => ?_, hbefore⟩
          rw [hsound.resolves_iff hmem]
          have hself := (hnext.resolves_iff (List.mem_append_left _ hmem)).mp (hres e (List.mem_append_left _ hmem))
          exact canonical_step c hself
        refine ⟨hatomic, ?_⟩
        rw [← hsound.resolve_step (accepted_of_clear he (ih.mp hatomic)) hatomic.1 hw]
        exact ⟨hres, hok⟩
      · rintro ⟨hatomic, hclear⟩
        rw [← hsound.resolve_step (accepted_of_clear he (ih.mp hatomic)) hatomic.1 hw] at hclear
        exact ⟨hclear.1, hatomic.2, fun err herr => absurd herr (hclear.2 err)⟩
    · obtain ⟨err, hs⟩ := step_quiet hw
      have hclear : Clear (Machine.exec step r cs).1 c := by
        by_contra hc
        exact hw ⟨not_not.mp fun h => hc (.inl h), fun h => hc (.inr (.inl h))⟩
      rw [hs]
      constructor
      · rintro ⟨hres, hbefore, -⟩
        exact ⟨⟨fun e hmem => hres e (List.mem_append_left _ hmem), hbefore⟩, hclear⟩
      · rintro ⟨hatomic, -⟩
        refine ⟨fun e hmem => hatomic.1 e (by simpa using hmem), hatomic.2, fun _ _ => ⟨fun _ => rfl, fun _ => rfl, rfl⟩⟩

/-- The second call is refused for its second alias, its name and its first one written. -/
def clashing : List Registration :=
  [.registerLazy "onnxruntime" "shipinfer.backends.onnx:OnnxBackend" ["ort"],
    .registerLazy "tensorrt" "shipinfer.backends.tensorrt:TensorRTBackend" ["trt", "ort"]]

theorem half_registered : ¬Atomic { kind := "backend" } clashing := by
  intro h
  have hsame := h.2 (clashing.take 1) (.registerLazy "tensorrt" "shipinfer.backends.tensorrt:TensorRTBackend" ["trt", "ort"])
    [] (.aliasTaken "backend" "ort" "onnxruntime") rfl rfl
  have hfound := hsame.1 "trt"
  exact absurd hfound (by decide +kernel)

theorem backends_atomic : Atomic { kind := "backend" }
    [.registerLazy "onnxruntime" "shipinfer.backends.onnx:OnnxBackend" ["onnxruntime", "ort"],
      .registerLazy "onnxruntime" "shipinfer.backends.onnx:Other" [],
      .registerLazy "tensorrt" "shipinfer.backends.tensorrt:TensorRTBackend" ["trt"]] :=
  (atomic_iff_clear rfl rfl _).mpr (by decide +kernel)

end Registry

end ShipInfer
