import ShipInfer.Topology.Chain

/-!
# The caps of an accepted chain

Every cap that arrives at an element is concrete and taken by it, and all that
arrives at an element with a condition arrives at its successors too; so along
any path of elements that may be skipped, the last one takes the cap of the
first edge.
-/

namespace ShipInfer.Chain

/-- Both halves are known. -/
def Caps.Concrete (c : Caps) : Prop := c.isWildcard = false

theorem Caps.concrete_iff {c : Caps} : c.Concrete ↔ c.format ≠ .any ∧ c.location ≠ .any := by
  simp [Concrete, isWildcard]

/-! ## What an element hands on -/

theorem agreedHalf_spec {α : Type} [DecidableEq α] {slot : String} {arrivals : List Arrival} {half : Caps → Half α}
    {h : Half α} (hok : agreedHalf slot arrivals half = .ok h) (hknown : ∀ a ∈ arrivals, half a.caps ≠ .any) :
    ∀ a ∈ arrivals, half a.caps = h := by
  intro a ha
  obtain ⟨v, hv⟩ : ∃ v, half a.caps = .only v := by
    cases hh : half a.caps with
    | any => exact absurd hh (hknown a ha)
    | only v => exact ⟨v, rfl⟩
  have hmem : v ∈ (arrivals.filterMap fun a => (half a.caps).value?).dedup := by
    rw [List.mem_dedup, List.mem_filterMap]
    exact ⟨a, ha, by rw [hv]; rfl⟩
  unfold agreedHalf at hok
  split at hok
  · rename_i hnil
    rw [hnil] at hmem
    exact (List.not_mem_nil hmem).elim
  · rename_i w hone
    cases hok
    rw [hone, List.mem_singleton] at hmem
    rw [hv, hmem]
  · cases hok

/-- A half that is filled in is the declared one, or what every arriving cap has. -/
theorem fillHalf_spec {α : Type} [DecidableEq α] {slot : String} {arrivals : List Arrival} {half : Caps → Half α}
    {cap : Caps} {h : Half α} (hok : fillHalf slot arrivals half cap = .ok h)
    (hknown : ∀ a ∈ arrivals, half a.caps ≠ .any) :
    (half cap ≠ .any → h = half cap) ∧ (half cap = .any → ∀ a ∈ arrivals, half a.caps = h) := by
  unfold fillHalf at hok
  split at hok
  · rename_i hany
    exact ⟨fun hne => absurd hany hne, fun _ => agreedHalf_spec hok hknown⟩
  · rename_i hne
    cases hok
    exact ⟨fun _ => rfl, fun hany => absurd hany hne⟩

/-- What an element hands on is concrete when what arrives is, and something does
where a half is left open; a location all its caps leave open is that of what arrives. -/
theorem resolveProduced_spec {n : ElementNode} {arrivals : List Arrival} {produced : List Caps}
    (hok : resolveProduced n arrivals = .ok produced) (hknown : ∀ a ∈ arrivals, a.caps.Concrete)
    (hsome : (∀ cap ∈ n.element.produces, cap.Concrete) ∨ arrivals ≠ []) :
    (∀ p ∈ produced, p.Concrete) ∧ ((∀ cap ∈ n.element.produces, cap.location = .any) →
      ∀ p ∈ produced, ∀ a ∈ arrivals, a.caps.location = p.location) := by
  have hformat : ∀ a ∈ arrivals, a.caps.format ≠ .any := fun a ha => (Caps.concrete_iff.mp (hknown a ha)).1
  have hlocation : ∀ a ∈ arrivals, a.caps.location ≠ .any := fun a ha => (Caps.concrete_iff.mp (hknown a ha)).2
  unfold resolveProduced at hok
  split at hok
  · rename_i hwild
    obtain ⟨resolved, hmap, hok⟩ := bind_ok.mp hok
    cases hok
    have harrive : arrivals ≠ [] := by
      rcases hsome with hconcrete | hne
      · obtain ⟨cap, hcap, hw⟩ := hwild
        rw [hconcrete cap hcap] at hw
        cases hw
      · exact hne
    obtain ⟨a₀, ha₀⟩ := List.exists_mem_of_ne_nil _ harrive
    have hfill (p : Caps) (hp : p ∈ fromKeys resolved) : ∃ cap ∈ n.element.produces,
        fillHalf n.name arrivals Caps.format cap = .ok p.format ∧
          fillHalf n.name arrivals Caps.location cap = .ok p.location := by
      obtain ⟨cap, hcap, hone⟩ := exists_of_mem_mapM hmap (mem_fromKeys.mp hp)
      obtain ⟨format, hf, hone⟩ := bind_ok.mp hone
      obtain ⟨location, hl, hone⟩ := bind_ok.mp hone
      cases hone
      exact ⟨cap, hcap, hf, hl⟩
    constructor
    · intro p hp
      obtain ⟨cap, hcap, hf, hl⟩ := hfill p hp
      obtain ⟨hf, hf'⟩ := fillHalf_spec hf hformat
      obtain ⟨hl, hl'⟩ := fillHalf_spec hl hlocation
      refine Caps.concrete_iff.mpr ⟨?_, ?_⟩
      · by_cases hany : cap.format = .any
        · rw [← hf' hany a₀ ha₀]
          exact hformat a₀ ha₀
        · rw [hf hany]
          exact hany
      · by_cases hany : cap.location = .any
        · rw [← hl' hany a₀ ha₀]
          exact hlocation a₀ ha₀
        · rw [hl hany]
          exact hany
    · intro hopen p hp
      obtain ⟨cap, hcap, -, hl⟩ := hfill p hp
      exact (fillHalf_spec hl hlocation).2 (hopen cap hcap)
  · rename_i hwild
    cases hok
    have hconcrete (p : Caps) (hp : p ∈ n.element.produces) : p.Concrete := by
      cases hw : p.isWildcard with
      | true => exact absurd ⟨p, hp, hw⟩ hwild
      | false => exact hw
    exact ⟨hconcrete, fun hopen p hp => absurd (hopen p hp) (Caps.concrete_iff.mp (hconcrete p hp)).2⟩

/-! ## One element's hand-overs -/

variable {accepts : String → List Caps} {n : ElementNode} {produced : List Caps} {s s' : Negotiation} {c : String}

theorem arrivals_arrive (s : Negotiation) (c k : String) (a : Arrival) :
    (s.arrive c a).arrivals k = if k = c then s.arrivals k ++ [a] else s.arrivals k := by
  by_cases hk : k = c
  · subst hk
    simp [Negotiation.arrive]
  · simp [Negotiation.arrive, hk]

/-- What the bypasses of one edge add. -/
theorem bypass_spec {accepted : List Caps} : ∀ {l : List Arrival} {s s' : Negotiation},
    l.foldlM (bypass n c accepted) s = .ok s' → s'.edges = s.edges ∧
      (∀ k, s'.arrivals k = if k = c then s.arrivals k ++ l.map fun a => { a with skipped := some n.name } else s.arrivals k) ∧
      ∀ a ∈ l, a.caps.TakenBy accepted
  | [], s, s', h => by
    cases h
    simp
  | a :: l, s, s', h => by
    rw [List.foldlM_cons] at h
    obtain ⟨s₁, hone, hrest⟩ := bind_ok.mp h
    unfold bypass at hone
    split at hone
    · cases hone
    · rename_i hneg
      cases hone
      obtain ⟨hedges, harrivals, htaken⟩ := bypass_spec hrest
      refine ⟨hedges, fun k => ?_, ?_⟩
      · rw [harrivals, arrivals_arrive]
        by_cases hk : k = c <;> simp [hk]
      · intro b hb
        rcases List.mem_cons.mp hb with rfl | hb
        · exact takenBy_of_negotiate hneg
        · exact htaken b hb

/-- What the hand-overs of `n` to the consumers `cs` leave. -/
structure HandsOver (accepts : String → List Caps) (n : ElementNode) (produced : List Caps) (cs : List String)
    (s s' : Negotiation) : Prop where
  grows : ∀ k, s.arrivals k <+: s'.arrivals k
  others : ∀ k, k ∉ cs → s'.arrivals k = s.arrivals k
  new : ∀ k, ∀ a ∈ s'.arrivals k, a ∈ s.arrivals k ∨ negotiate produced (accepts k) = some a.caps ∨
    n.condition ≠ none ∧ a.caps.TakenBy (accepts k) ∧ ∃ b ∈ s.arrivals n.name, b.caps = a.caps
  edges : ∀ e ∈ s'.edges, e ∈ s.edges ∨ e.producer = n.name ∧ e.consumer ∈ cs ∧
    negotiate produced (accepts e.consumer) = some e.caps ∧ ∃ a ∈ s'.arrivals e.consumer, a.caps = e.caps
  kept : s.edges ⊆ s'.edges
  every : ∀ k ∈ cs, ∃ e ∈ s'.edges, e.producer = n.name ∧ e.consumer = k
  passes : n.condition ≠ none → ∀ k ∈ cs, ∀ b ∈ s.arrivals n.name, ∃ a ∈ s'.arrivals k, a.caps = b.caps

/-- The hand-over to one consumer, with what bypasses the element when it may be skipped. -/
theorem connect_cases (hne : c ≠ n.name) (h : connect accepts n produced s c = .ok s') :
    ∃ (caps : Caps) (l : List Arrival), negotiate produced (accepts c) = some caps ∧ s'.edges = s.edges ++ [⟨n.name, c, caps⟩] ∧
      (∀ k, s'.arrivals k = if k = c then s.arrivals k ++ ⟨n.name, caps, none⟩ :: l else s.arrivals k) ∧
      (∀ a ∈ l, n.condition ≠ none ∧ a.caps.TakenBy (accepts c) ∧ ∃ b ∈ s.arrivals n.name, b.caps = a.caps) ∧
      (n.condition ≠ none → ∀ b ∈ s.arrivals n.name, ∃ a ∈ l, a.caps = b.caps) := by
  unfold connect at h
  split at h
  · cases h
  · rename_i caps hneg
    dsimp only at h
    split at h
    · rename_i hcond
      cases h
      refine ⟨caps, [], hneg, rfl, fun k => arrivals_arrive s c k _, by simp, fun hc => ?_⟩
      exact absurd (Option.isNone_iff_eq_none.mp hcond) hc
    · rename_i hcond
      have hlist : (s.arrive c ⟨n.name, caps, none⟩).arrivals n.name = s.arrivals n.name := by
        rw [arrivals_arrive, if_neg hne.symm]
      obtain ⟨hedges, harrivals, htaken⟩ := bypass_spec h
      simp only [hlist] at harrivals htaken
      refine ⟨caps, (s.arrivals n.name).map fun a => { a with skipped := some n.name }, hneg, hedges, fun k => ?_, ?_, fun _ b hb => ?_⟩
      · rw [harrivals, show ({ s.arrive c ⟨n.name, caps, none⟩ with edges := _ } : Negotiation).arrivals k = _ from
          arrivals_arrive s c k _]
        by_cases hk : k = c <;> simp [hk]
      · intro a ha
        obtain ⟨b, hb, rfl⟩ := List.mem_map.mp ha
        exact ⟨fun hnone => hcond (by simp [hnone]), htaken b hb, b, hb, rfl⟩
      · exact ⟨_, List.mem_map_of_mem hb, rfl⟩

theorem connect_spec (hne : c ≠ n.name) (h : connect accepts n produced s c = .ok s') :
    HandsOver accepts n produced [c] s s' := by
  obtain ⟨caps, l, hneg, hedges, harrivals, hl, hpass⟩ := connect_cases hne h
  have hc : s'.arrivals c = s.arrivals c ++ ⟨n.name, caps, none⟩ :: l := by rw [harrivals, if_pos rfl]
  refine ⟨fun k => ?_, fun k hk => ?_, fun k a ha => ?_, fun e he => ?_, ?_, ?_, ?_⟩
  · rw [harrivals]
    split
    · exact List.prefix_append _ _
    · exact List.prefix_refl _
  · rw [harrivals, if_neg fun heq => hk (List.mem_singleton.mpr heq)]
  · rw [harrivals] at ha
    split at ha
    · rename_i heq
      subst heq
      rcases List.mem_append.mp ha with ha | ha
      · exact .inl ha
      · rcases List.mem_cons.mp ha with rfl | ha
        · exact .inr (.inl hneg)
        · exact .inr (.inr (hl a ha))
    · exact .inl ha
  · rw [hedges] at he
    rcases List.mem_append.mp he with he | he
    · exact .inl he
    · obtain rfl := List.mem_singleton.mp he
      refine .inr ⟨rfl, List.mem_singleton_self c, hneg, ⟨n.name, caps, none⟩, ?_, rfl⟩
      simp [hc]
  · rw [hedges]
    exact List.subset_append_left _ _
  · intro k hk
    obtain rfl := List.mem_singleton.mp hk
    exact ⟨⟨n.name, k, caps⟩, by simp [hedges], rfl, rfl⟩
  · intro hcond k hk b hb
    obtain rfl := List.mem_singleton.mp hk
    obtain ⟨a, ha, heq⟩ := hpass hcond b hb
    exact ⟨a, by simp [hc, ha], heq⟩

theorem handsOver_spec : ∀ {cs : List String} {s s' : Negotiation}, n.name ∉ cs →
    cs.foldlM (connect accepts n produced) s = .ok s' → HandsOver accepts n produced cs s s'
  | [], s, s', _, h => by
    cases h
    exact ⟨fun k => List.prefix_refl _, fun _ _ => rfl, fun _ _ => .inl, fun _ => .inl, List.Subset.refl _, by simp, by simp⟩
  | c :: cs, s, s', hn, h => by
    obtain ⟨hc, hcs⟩ := not_or.mp (List.mem_cons.not.mp hn)
    rw [List.foldlM_cons] at h
    obtain ⟨s₁, hone, hrest⟩ := bind_ok.mp h
    have h₁ := connect_spec (fun heq => hc heq.symm) hone
    have h₂ := handsOver_spec hcs hrest
    have hname : s₁.arrivals n.name = s.arrivals n.name := h₁.others _ fun hmem => hc (List.mem_singleton.mp hmem)
    refine ⟨fun k => (h₁.grows k).trans (h₂.grows k), fun k hk => ?_, fun k a ha => ?_, fun e he => ?_,
      fun e he => h₂.kept (h₁.kept he), fun k hk => ?_, fun hcond k hk b hb => ?_⟩
    · obtain ⟨hkc, hkcs⟩ := not_or.mp (List.mem_cons.not.mp hk)
      rw [h₂.others k hkcs, h₁.others k fun hmem => hkc (List.mem_singleton.mp hmem)]
    · rcases h₂.new k a ha with hold | hnew
      · exact h₁.new k a hold
      · rw [hname] at hnew
        exact .inr hnew
    · rcases h₂.edges e he with hold | ⟨hp, hmem, hneg, ha⟩
      · rcases h₁.edges e hold with hold | ⟨hp, hmem, hneg, a, ha, heq⟩
        · exact .inl hold
        · refine .inr ⟨hp, List.mem_cons.mpr (.inl (List.mem_singleton.mp hmem)), hneg, a, ?_, heq⟩
          exact (h₂.grows e.consumer).subset ha
      · exact .inr ⟨hp, List.mem_cons_of_mem _ hmem, hneg, ha⟩
    · rcases List.mem_cons.mp hk with rfl | hk
      · obtain ⟨e, he, heq⟩ := h₁.every k (List.mem_singleton_self k)
        exact ⟨e, h₂.kept he, heq⟩
      · exact h₂.every k hk
    · rcases List.mem_cons.mp hk with rfl | hk
      · obtain ⟨a, ha, heq⟩ := h₁.passes hcond k (List.mem_singleton_self k) b hb
        exact ⟨a, (h₂.grows k).subset ha, heq⟩
      · exact h₂.passes hcond k hk b (hname ▸ hb)

/-! ## The whole chain -/

/-- The elements are wired forward, and a root says what it produces. -/
structure Wired (nodes : List ElementNode) : Prop where
  nodup : (nodes.map ElementNode.name).Nodup
  forward : ∀ pre n post, nodes = pre ++ n :: post → n.inputs ⊆ pre.map ElementNode.name
  outputs : ∀ m ∈ nodes, ∀ c, c ∈ m.outputs ↔ ∃ n ∈ nodes, n.name = c ∧ m.name ∈ n.inputs
  roots : ∀ n ∈ nodes, n.isRoot = true → ∀ cap ∈ n.element.produces, cap.Concrete

/-- What has been negotiated once the elements `done` are. -/
structure Negotiated (accepts : String → List Caps) (done : List ElementNode) (s : Negotiation) : Prop where
  taken : ∀ k, ∀ a ∈ s.arrivals k, a.caps.Concrete ∧ a.caps.TakenBy (accepts k)
  edges : ∀ e ∈ s.edges, (∃ m ∈ done, m.name = e.producer ∧ e.consumer ∈ m.outputs) ∧
    ∃ a ∈ s.arrivals e.consumer, a.caps = e.caps
  every : ∀ m ∈ done, ∀ c ∈ m.outputs, ∃ e ∈ s.edges, e.producer = m.name ∧ e.consumer = c
  passes : ∀ m ∈ done, m.condition ≠ none → ∀ c ∈ m.outputs, ∀ b ∈ s.arrivals m.name, ∃ a ∈ s.arrivals c, a.caps = b.caps
  stays : ∀ m ∈ done, (∀ cap ∈ m.element.produces, cap.location = .any) → ∀ e ∈ s.edges, e.producer = m.name →
    ∀ a ∈ s.arrivals m.name, a.caps.location = e.caps.location

theorem Negotiated.node {done : List ElementNode} (h : Negotiated accepts done s) (hnew : n.name ∉ done.map ElementNode.name)
    (hback : ∀ m ∈ done, m.name ∉ n.outputs) (hself : n.name ∉ n.outputs)
    (hsome : (∀ cap ∈ n.element.produces, cap.Concrete) ∨ ∃ m ∈ done, n.name ∈ m.outputs)
    (hok : negotiateNode accepts s n = .ok s') : Negotiated accepts (done ++ [n]) s' := by
  obtain ⟨produced, hproduced, hfold⟩ := bind_ok.mp hok
  have hands := handsOver_spec hself hfold
  have hknown : ∀ a ∈ s.arrivals n.name, a.caps.Concrete := fun a ha => (h.taken n.name a ha).1
  have harrive : (∀ cap ∈ n.element.produces, cap.Concrete) ∨ s.arrivals n.name ≠ [] := by
    refine hsome.imp_right fun ⟨m, hm, hmem⟩ => ?_
    obtain ⟨e, he, -, hconsumer⟩ := h.every m hm n.name hmem
    obtain ⟨a, ha, -⟩ := (h.edges e he).2
    exact List.ne_nil_of_mem (hconsumer ▸ ha)
  obtain ⟨hconcrete, hstays⟩ := resolveProduced_spec hproduced hknown harrive
  have hneg {k : String} {caps : Caps} (hn : negotiate produced (accepts k) = some caps) :
      caps.Concrete ∧ caps.TakenBy (accepts k) ∧ ∃ p ∈ produced, caps.location = p.location := by
    obtain ⟨htaken, p, hp, hformat, hlocation⟩ := negotiate_spec hn
    obtain ⟨hf, hl⟩ := Caps.concrete_iff.mp (hconcrete p hp)
    refine ⟨Caps.concrete_iff.mpr ⟨?_, ?_⟩, htaken, p, hp, hlocation hl⟩
    · rw [hformat hf]
      exact hf
    · rw [hlocation hl]
      exact hl
  -- What arrived at an element that is done, or at this one, is all that arrives there.
  have hsame (m : ElementNode) (hm : m ∈ done ++ [n]) : s'.arrivals m.name = s.arrivals m.name := by
    refine hands.others _ ?_
    rcases List.mem_append.mp hm with hm | hm
    · exact hback m hm
    · exact List.mem_singleton.mp hm ▸ hself
  have hold (e : Edge) (he : e ∈ s.edges) : e.producer ≠ n.name := by
    intro heq
    obtain ⟨⟨m, hm, hname, -⟩, -⟩ := h.edges e he
    exact hnew (List.mem_map.mpr ⟨m, hm, hname.trans heq⟩)
  refine ⟨fun k a ha => ?_, fun e he => ?_, fun m hm c hc => ?_, fun m hm hcond c hc b hb => ?_, fun m hm hopen e he hp a ha => ?_⟩
  · rcases hands.new k a ha with hmem | hn | ⟨-, htaken, b, hb, heq⟩
    · exact h.taken k a hmem
    · exact ⟨(hneg hn).1, (hneg hn).2.1⟩
    · exact ⟨heq ▸ hknown b hb, htaken⟩
  · rcases hands.edges e he with hmem | ⟨hp, hc, -, ha⟩
    · obtain ⟨⟨m, hm, hname⟩, a, ha, heq⟩ := h.edges e hmem
      exact ⟨⟨m, List.mem_append_left _ hm, hname⟩, a, (hands.grows _).subset ha, heq⟩
    · exact ⟨⟨n, by simp, hp.symm, hc⟩, ha⟩
  · rcases List.mem_append.mp hm with hm | hm
    · obtain ⟨e, he, heq⟩ := h.every m hm c hc
      exact ⟨e, hands.kept he, heq⟩
    · obtain rfl := List.mem_singleton.mp hm
      exact hands.every c hc
  · rw [hsame m hm] at hb
    rcases List.mem_append.mp hm with hm | hm
    · obtain ⟨a, ha, heq⟩ := h.passes m hm hcond c hc b hb
      exact ⟨a, (hands.grows c).subset ha, heq⟩
    · obtain rfl := List.mem_singleton.mp hm
      exact hands.passes hcond c hc b hb
  · rw [hsame m hm] at ha
    rcases List.mem_append.mp hm with hm | hm
    · rcases hands.edges e he with hmem | ⟨hp', -, -, -⟩
      · exact h.stays m hm hopen e hmem hp a ha
      · exact absurd (List.mem_map.mpr ⟨m, hm, hp.symm.trans hp'⟩) hnew
    · obtain rfl := List.mem_singleton.mp hm
      rcases hands.edges e he with hmem | ⟨-, -, hn, -⟩
      · exact absurd hp (hold e hmem)
      · obtain ⟨p, hp, heq⟩ := (hneg hn).2.2
        rw [heq]
        exact hstays hopen p hp a ha

theorem Wired.negotiated {nodes : List ElementNode} (hw : Wired nodes) : ∀ {post pre : List ElementNode} {s s' : Negotiation},
    nodes = pre ++ post → Negotiated accepts pre s → post.foldlM (negotiateNode accepts) s = .ok s' →
      Negotiated accepts nodes s'
  | [], pre, s, s', hsplit, h, hok => by
    cases hok
    rw [hsplit, List.append_nil]
    exact h
  | n :: post, pre, s, s', hsplit, h, hok => by
    rw [List.foldlM_cons] at hok
    obtain ⟨s₁, hone, hrest⟩ := bind_ok.mp hok
    have hnames : (pre.map ElementNode.name ++ n.name :: post.map ElementNode.name).Nodup := by
      have hn := hw.nodup
      rw [hsplit, List.map_append, List.map_cons] at hn
      exact hn
    have hnew : n.name ∉ pre.map ElementNode.name := fun hmem =>
      List.disjoint_of_nodup_append hnames hmem List.mem_cons_self
    have hmem : n ∈ nodes := by simp [hsplit]
    have hinputs := hw.forward pre n post hsplit
    -- A consumer has this element among its inputs, which come before it.
    have hlater (m : ElementNode) (hm : m ∈ pre ∨ m = n) : m.name ∉ n.outputs := by
      intro hout
      obtain ⟨m', hm', hname, hin⟩ := (hw.outputs n hmem m.name).mp hout
      obtain rfl : m' = m := by
        refine List.inj_on_of_nodup_map hw.nodup hm' ?_ hname
        rcases hm with hm | rfl
        · simp [hsplit, hm]
        · exact hmem
      rcases hm with hm | rfl
      · obtain ⟨before, after, hpre⟩ := List.append_of_mem hm
        have := hw.forward before m' (after ++ n :: post) (by simp [hsplit, hpre]) hin
        exact hnew (by simp [hpre, List.mem_append, this])
      · exact hnew (hinputs hin)
    have hsome : (∀ cap ∈ n.element.produces, cap.Concrete) ∨ ∃ m ∈ pre, n.name ∈ m.outputs := by
      by_cases hroot : n.isRoot = true
      · exact .inl (hw.roots n hmem hroot)
      · have hne : n.inputs ≠ [] := by simpa [ElementNode.isRoot, List.isEmpty_iff] using hroot
        obtain ⟨p, hp⟩ := List.exists_mem_of_ne_nil _ hne
        obtain ⟨m, hm, rfl⟩ := List.mem_map.mp (hinputs hp)
        refine .inr ⟨m, hm, (hw.outputs m (by simp [hsplit, hm]) n.name).mpr ⟨n, hmem, rfl, hp⟩⟩
    have hnode := h.node hnew (fun m hm => hlater m (.inl hm)) (hlater n (.inr rfl)) hsome hone
    exact hw.negotiated (by simp [hsplit]) hnode hrest

/-! ## What the loader accepts -/

theorem resolveFrom_spec {known : List String} : ∀ {previous : Option String} {entries : List (String × ElementSpec)}
    {inputs : List (String × List String)}, resolveFrom known previous entries = .ok inputs →
      inputs.map Prod.fst = entries.map Prod.fst ∧ ∀ p ∈ inputs, p.2.Nodup
  | _, [], _, h => by
    cases h
    simp
  | _, (slot, declared) :: rest, _, h => by
    obtain ⟨_, -, h⟩ := bind_ok.mp h
    obtain ⟨inputs, hrest, h⟩ := bind_ok.mp h
    cases h
    obtain ⟨hnames, hnodup⟩ := resolveFrom_spec hrest
    refine ⟨by simp [hnames], fun p hp => ?_⟩
    rcases List.mem_cons.mp hp with rfl | hp
    · exact nodup_fromKeys _
    · exact hnodup p hp

section
variable {inputs : List (String × List String)}

theorem inputsOf_eq (hn : (inputs.map Prod.fst).Nodup) {slot : String} {producers : List String}
    (h : (slot, producers) ∈ inputs) : inputsOf inputs slot = producers := by
  rw [inputsOf, (Dict.lookup_eq_some_iff hn).mpr h, Option.getD_some]

theorem mem_consumers (hn : (inputs.map Prod.fst).Nodup) {producer slot : String} :
    slot ∈ consumers inputs producer ↔ slot ∈ inputs.map Prod.fst ∧ producer ∈ inputsOf inputs slot := by
  rw [consumers, List.mem_map]
  constructor
  · rintro ⟨p, hp, rfl⟩
    obtain ⟨hp, hmem⟩ := List.mem_filter.mp hp
    refine ⟨List.mem_map_of_mem hp, ?_⟩
    rw [inputsOf_eq hn hp]
    exact of_decide_eq_true hmem
  · rintro ⟨hslot, hmem⟩
    obtain ⟨p, hp, rfl⟩ := List.mem_map.mp hslot
    rw [inputsOf_eq hn hp] at hmem
    exact ⟨p, List.mem_filter.mpr ⟨hp, decide_eq_true hmem⟩, rfl⟩

theorem nodup_consumers (hn : (inputs.map Prod.fst).Nodup) (producer : String) : (consumers inputs producer).Nodup :=
  hn.sublist (List.filter_sublist.map Prod.fst)

/-- The order is one of all slots, each after its producers. -/
theorem topologicalOrder_spec (hn : (inputs.map Prod.fst).Nodup) (hin : ∀ p ∈ inputs, p.2.Nodup) {order : List String}
    (h : topologicalOrder inputs = .ok order) :
    order.Perm (inputs.map Prod.fst) ∧ Kahn.Forward (inputsOf inputs) [] order := by
  obtain ⟨_, hlength, h⟩ := bind_ok.mp h
  cases h
  rw [refuse_ok, not_not] at hlength
  have hinputs (c : String) (hc : c ∈ inputs.map Prod.fst) : (inputsOf inputs c).Nodup := by
    obtain ⟨p, hp, rfl⟩ := List.mem_map.mp hc
    rw [inputsOf_eq hn hp]
    exact hin p hp
  obtain ⟨hnodup, hsub, hforward⟩ := Kahn.loop_forward hinputs (nodup_consumers hn) (fun _ _ => mem_consumers hn) hn
    (inputs.map Prod.fst).length
  exact ⟨(List.subperm_of_subset hnodup hsub).perm_of_length_le hlength.ge, hforward⟩

end

/-- The nodes of an accepted order. -/
theorem nodes_spec {spec : ChainSpec} {inputs : List (String × List String)} {order : List String}
    (hslots : inputs.map Prod.fst = spec.elements.keys) (hperm : order.Perm (inputs.map Prod.fst)) :
    (spec.nodes inputs order).map ElementNode.name = order ∧
      ∀ n ∈ spec.nodes inputs order, n.inputs = inputsOf inputs n.name ∧ n.outputs = consumers inputs n.name ∧
        n.donor = none := by
  have hknown : ∀ slot ∈ order, slot ∈ spec.elements.keys := fun slot hs => hslots ▸ hperm.subset hs
  clear hperm
  unfold ChainSpec.nodes
  induction order with
  | nil => simp
  | cons slot order ih =>
    obtain ⟨hnames, hnodes⟩ := ih fun k hk => hknown k (List.mem_cons_of_mem _ hk)
    obtain ⟨declared, hget⟩ : ∃ declared, spec.elements.get? slot = some declared := by
      cases hget : spec.elements.get? slot with
      | none => exact absurd (hknown slot List.mem_cons_self) (Dict.get?_eq_none_iff.mp hget)
      | some declared => exact ⟨declared, rfl⟩
    rw [List.filterMap_cons, hget]
    refine ⟨by simp [hnames], fun n hn => ?_⟩
    rcases List.mem_cons.mp hn with rfl | hn
    · exact ⟨rfl, rfl, rfl⟩
    · exact hnodes n hn

theorem checkNodes_roots {nodes : List ElementNode} (h : checkNodes nodes = .ok ()) {n : ElementNode} (hn : n ∈ nodes)
    (hroot : n.isRoot = true) : n.condition = none ∧ ∀ cap ∈ n.element.produces, cap.Concrete := by
  obtain ⟨_, hstructure, -⟩ := bind_ok.mp h
  obtain ⟨_, hroots, -⟩ := bind_ok.mp hstructure
  have hone := forM_ok_iff.mp hroots n (List.mem_filter.mpr ⟨hn, hroot⟩)
  obtain ⟨_, -, hone⟩ := bind_ok.mp hone
  obtain ⟨_, -, hone⟩ := bind_ok.mp hone
  obtain ⟨_, hproduces, hone⟩ := bind_ok.mp hone
  rw [refuse_ok] at hproduces
  constructor
  · split at hone
    · assumption
    · cases hone
  · intro cap hcap
    cases hw : cap.isWildcard with
    | true => exact absurd ⟨cap, hcap, hw⟩ hproduces
    | false => exact hw

/-- The parts of an accepted chain. -/
theorem fromSpec_spec {spec : ChainSpec} {t : Topology} (h : Topology.fromSpec spec = .ok t) :
    ∃ nodes s, Wired nodes ∧ checkNodes nodes = .ok () ∧ nodes.foldlM (negotiateNode (acceptsOf nodes)) {} = .ok s ∧
      (∀ n ∈ nodes, n.donor = none) ∧ t.edges = s.edges ∧ t.nodes = withDonors nodes s.edges := by
  obtain ⟨_, -, h⟩ := bind_ok.mp h
  obtain ⟨_, -, h⟩ := bind_ok.mp h
  obtain ⟨inputs, hinputs, h⟩ := bind_ok.mp h
  obtain ⟨order, horder, h⟩ := bind_ok.mp h
  obtain ⟨_, hcheck, h⟩ := bind_ok.mp h
  obtain ⟨edges, hedges, h⟩ := bind_ok.mp h
  obtain ⟨s, hfold, hedges⟩ := bind_ok.mp hedges
  cases hedges
  cases h
  obtain ⟨hslots, hin⟩ := resolveFrom_spec hinputs
  have hn : (inputs.map Prod.fst).Nodup := by
    rw [hslots]
    exact spec.elements.nodup
  obtain ⟨hperm, hforward⟩ := topologicalOrder_spec hn hin horder
  obtain ⟨hnames, hnodes⟩ := nodes_spec hslots hperm
  refine ⟨_, s, ⟨?_, ?_, ?_, ?_⟩, hcheck, hfold, fun n hn' => (hnodes n hn').2.2, rfl, rfl⟩
  · rw [hnames]
    exact hperm.nodup_iff.mpr hn
  · intro pre n post hsplit
    have hmem : n ∈ spec.nodes inputs order := by simp [hsplit]
    have horder' : order = pre.map ElementNode.name ++ n.name :: post.map ElementNode.name := by
      rw [← hnames, hsplit, List.map_append, List.map_cons]
    rw [(hnodes n hmem).1]
    have hbefore := Kahn.Forward.before (horder' ▸ hforward)
    exact hbefore
  · intro m hm c
    rw [(hnodes m hm).2.1, mem_consumers hn]
    constructor
    · rintro ⟨hc, hmem⟩
      rw [← hperm.mem_iff, ← hnames] at hc
      obtain ⟨n, hn', rfl⟩ := List.mem_map.mp hc
      exact ⟨n, hn', rfl, (hnodes n hn').1 ▸ hmem⟩
    · rintro ⟨n, hn', rfl, hmem⟩
      refine ⟨?_, (hnodes n hn').1 ▸ hmem⟩
      rw [← hperm.mem_iff, ← hnames]
      exact List.mem_map_of_mem hn'
  · exact fun n hn' hroot => (checkNodes_roots hcheck hn' hroot).2

/-- What is handed over the edge `f` may reach `v`, past elements that may be skipped. -/
inductive Topology.Passes (t : Topology) (f : Edge) : String → Prop
  | edge : Passes t f f.consumer
  | skip {n : ElementNode} {g : Edge} : Passes t f n.name → n ∈ t.nodes → n.condition ≠ none → g ∈ t.edges →
      g.producer = n.name → Passes t f g.consumer

theorem find?_name {nodes : List ElementNode} (hn : (nodes.map ElementNode.name).Nodup) {n : ElementNode} (h : n ∈ nodes) :
    nodes.find? (fun m => decide (m.name = n.name)) = some n := by
  cases hfind : nodes.find? (fun m => decide (m.name = n.name)) with
  | none =>
    have := List.find?_eq_none.mp hfind n h
    simp at this
  | some m =>
    have hname : m.name = n.name := by simpa using List.find?_some hfind
    rw [List.inj_on_of_nodup_map hn (List.mem_of_find?_eq_some hfind) h hname]

section
variable {spec : ChainSpec} {t : Topology} {f : Edge} {v : String}

theorem edges_concrete (h : Topology.fromSpec spec = .ok t) : ∀ e ∈ t.edges, e.caps.Concrete := by
  obtain ⟨nodes, s, hw, -, hfold, -, hedges, -⟩ := fromSpec_spec h
  have hneg := hw.negotiated (List.nil_append nodes).symm ⟨by simp, by simp, by simp, by simp, by simp⟩ hfold
  rw [hedges]
  intro e he
  obtain ⟨a, ha, heq⟩ := (hneg.edges e he).2
  rw [← heq]
  exact (hneg.taken e.consumer a ha).1

/-- The last element of a path takes the cap of its first edge, and if it leaves
the location open it hands it on where it is. -/
theorem passes_sound (h : Topology.fromSpec spec = .ok t) (hf : f ∈ t.edges) (hp : t.Passes f v) :
    ∃ n ∈ t.nodes, n.name = v ∧ f.caps.TakenBy n.element.accepts ∧
      ((∀ cap ∈ n.element.produces, cap.location = .any) → ∀ g ∈ t.edges, g.producer = v → g.caps.location = f.caps.location) := by
  obtain ⟨nodes, s, hw, -, hfold, -, hedges, hnodes⟩ := fromSpec_spec h
  have hneg := hw.negotiated (List.nil_append nodes).symm ⟨by simp, by simp, by simp, by simp, by simp⟩ hfold
  have hout {g : Edge} (hg : g ∈ t.edges) : ∃ m ∈ nodes, m.name = g.producer ∧ g.consumer ∈ m.outputs :=
    (hneg.edges g (hedges ▸ hg)).1
  -- What passes along a path has arrived at its end when the chain was loaded.
  have harrived : ∃ a ∈ s.arrivals v, a.caps = f.caps := by
    induction hp with
    | edge => exact (hneg.edges f (hedges ▸ hf)).2
    | @skip n g _ hn hcond hg hproducer ih =>
      obtain ⟨b, hb, hcaps⟩ := ih
      obtain ⟨m, hm, rfl⟩ := List.mem_map.mp (hnodes ▸ hn)
      obtain ⟨m', hm', hname, hconsumer⟩ := hout hg
      obtain rfl : m' = m := by
        refine List.inj_on_of_nodup_map hw.nodup hm' hm ?_
        rw [hname, hproducer, ElementNode.withDonor_name]
      rw [ElementNode.withDonor_condition] at hcond
      rw [ElementNode.withDonor_name] at hb
      obtain ⟨a, ha, heq⟩ := hneg.passes m' hm' hcond g.consumer hconsumer b hb
      exact ⟨a, ha, heq.trans hcaps⟩
  obtain ⟨a, ha, hcaps⟩ := harrived
  obtain ⟨n, hn, rfl⟩ : ∃ n ∈ nodes, n.name = v := by
    have hconsumer : ∃ g ∈ t.edges, g.consumer = v := by
      cases hp with
      | edge => exact ⟨f, hf, rfl⟩
      | skip _ _ _ hg _ => exact ⟨_, hg, rfl⟩
    obtain ⟨g, hg, rfl⟩ := hconsumer
    obtain ⟨m, hm, -, hmem⟩ := hout hg
    obtain ⟨n, hn, hname, -⟩ := (hw.outputs m hm g.consumer).mp hmem
    exact ⟨n, hn, hname⟩
  refine ⟨n.withDonor s.edges, ?_, n.withDonor_name _, ?_, fun hopen g hg hproducer => ?_⟩
  · rw [hnodes]
    exact List.mem_map_of_mem hn
  · have htaken := (hneg.taken n.name a ha).2
    rw [acceptsOf, find?_name hw.nodup hn] at htaken
    rw [ElementNode.withDonor_element, ← hcaps]
    exact htaken
  · rw [ElementNode.withDonor_element] at hopen
    rw [← hcaps]
    exact (hneg.stays n hn hopen g (hedges ▸ hg) hproducer a ha).symm

theorem donorFor_mem {n : ElementNode} (hne : n.inputs ≠ []) (edges : List Edge) : donorFor n edges ∈ n.inputs := by
  unfold donorFor
  dsimp only
  cases hfind : n.element.accepts.findSome? fun declared =>
    n.inputs.find? fun producer => (edgeCaps edges producer n.name).any fun caps => caps.matchesWith declared with
  | none =>
    obtain ⟨p, rest, heq⟩ := List.exists_cons_of_ne_nil hne
    simp [heq]
  | some p =>
    obtain ⟨declared, -, hp⟩ := List.exists_of_findSome?_eq_some hfind
    exact List.mem_of_find?_eq_some hp

/-- What the walk uses of an accepted chain. -/
structure Topology.Walkable (t : Topology) : Prop where
  names : (t.nodes.map ElementNode.name).Nodup
  forward : ∀ pre n post, t.nodes = pre ++ n :: post → n.inputs ⊆ pre.map ElementNode.name
  roots : ∀ n ∈ t.nodes, n.isRoot = true → n.condition = none
  donors : ∀ n ∈ t.nodes, ∀ donor, n.donor = some donor → donor ∈ n.inputs
  edges : ∀ n ∈ t.nodes, ∀ producer ∈ n.inputs, ∃ g ∈ t.edges, g.producer = producer ∧ g.consumer = n.name

theorem walkable (h : Topology.fromSpec spec = .ok t) : t.Walkable := by
  obtain ⟨nodes, s, hw, hcheck, hfold, hdonor, hedges, hnodes⟩ := fromSpec_spec h
  have hneg := hw.negotiated (List.nil_append nodes).symm ⟨by simp, by simp, by simp, by simp, by simp⟩ hfold
  have hnames (l : List ElementNode) : (withDonors l s.edges).map ElementNode.name = l.map ElementNode.name := by
    simp [withDonors, Function.comp_def]
  refine ⟨?_, fun pre n post hsplit => ?_, fun n hn hroot => ?_, fun n hn donor hd => ?_, fun n hn producer hp => ?_⟩
  · rw [hnodes, hnames]
    exact hw.nodup
  · obtain ⟨pre', rest, hpre, rfl, hrest⟩ := List.map_eq_append_iff.mp (hnodes ▸ hsplit)
    obtain ⟨m, post', rfl, rfl, -⟩ := List.map_eq_cons_iff.mp hrest
    rw [ElementNode.withDonor_inputs]
    exact (hnames pre').symm ▸ hw.forward pre' m post' hpre
  · obtain ⟨m, hm, rfl⟩ := List.mem_map.mp (hnodes ▸ hn)
    rw [ElementNode.withDonor_condition]
    exact (checkNodes_roots hcheck hm (by simpa [ElementNode.isRoot] using hroot)).1
  · obtain ⟨m, hm, rfl⟩ := List.mem_map.mp (hnodes ▸ hn)
    unfold ElementNode.withDonor at hd
    split at hd
    · rw [hdonor m hm] at hd
      cases hd
    · rename_i hroot
      obtain rfl := Option.some.inj hd
      rw [ElementNode.withDonor_inputs]
      exact donorFor_mem (by simpa [ElementNode.isRoot, List.isEmpty_iff] using hroot) _
  · obtain ⟨m, hm, rfl⟩ := List.mem_map.mp (hnodes ▸ hn)
    rw [ElementNode.withDonor_inputs] at hp
    obtain ⟨before, after, hsplit⟩ := List.append_of_mem hm
    obtain ⟨m', hm', rfl⟩ := List.mem_map.mp (hw.forward before m after hsplit hp)
    have hm'' : m' ∈ nodes := by simp [hsplit, hm']
    obtain ⟨g, hg, hproducer, hconsumer⟩ := hneg.every m' hm'' m.name ((hw.outputs m' hm'' _).mpr ⟨m, hm, rfl, hp⟩)
    exact ⟨g, hedges ▸ hg, hproducer, by rw [hconsumer, ElementNode.withDonor_name]⟩

end

end ShipInfer.Chain
