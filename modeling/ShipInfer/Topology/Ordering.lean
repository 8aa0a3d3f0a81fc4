import Mathlib
import ShipInfer.Topology.Soundness

/-!
# The order of a chain

Kahn's loop puts out every slot exactly when no slot feeds itself; otherwise the
depth-first search closes on a cycle. The search cannot come back empty-handed:
what it is done with stands after its consumers, and of the slots that are not
out the one it finished last would wait for one it finished later still.
-/

namespace ShipInfer.Chain

/-- The producers of each slot, as `_resolve_predecessors` leaves them. -/
structure Resolved (inputs : List (String × List String)) : Prop where
  slots : (inputs.map Prod.fst).Nodup
  producers : ∀ p ∈ inputs, p.2.Nodup
  known : ∀ p ∈ inputs, p.2 ⊆ inputs.map Prod.fst

/-- An edge of the graph, in flow order. -/
def Feeds (inputs : List (String × List String)) (producer slot : String) : Prop := producer ∈ inputsOf inputs slot

theorem resolveFrom_known {known : List String} : ∀ {previous : Option String} {entries : List (String × ElementSpec)}
    {inputs : List (String × List String)}, resolveFrom known previous entries = .ok inputs → ∀ p ∈ inputs, p.2 ⊆ known
  | _, [], _, h => by
    cases h
    simp
  | previous, (slot, declared) :: rest, _, h => by
    obtain ⟨_, hall, h⟩ := bind_ok.mp h
    obtain ⟨inputs, hrest, h⟩ := bind_ok.mp h
    cases h
    intro p hp
    rcases List.mem_cons.mp hp with rfl | hp
    · intro target htarget
      obtain ⟨_, -, hone⟩ := bind_ok.mp (forM_ok_iff.mp hall target (mem_fromKeys.mp htarget))
      rw [refuse_ok, not_not] at hone
      exact hone
    · exact resolveFrom_known hrest p hp

theorem resolvePredecessors_resolved {spec : ChainSpec} {inputs : List (String × List String)}
    (h : resolvePredecessors spec = .ok inputs) : Resolved inputs := by
  obtain ⟨hslots, hproducers⟩ := resolveFrom_spec h
  have hkeys : inputs.map Prod.fst = spec.elements.keys := hslots
  refine ⟨?_, hproducers, fun p hp => ?_⟩
  · rw [hkeys]
    exact spec.elements.nodup
  · rw [hkeys]
    exact resolveFrom_known h p hp

/-! ## The search -/

section
variable {consumers : String → List String} {done done' path : List String} {slot consumer : String}

def Leads (consumers : String → List String) (a b : String) : Prop := b ∈ consumers a

/-- What a search over some slots comes back with. -/
def Explored (consumers : String → List String) (done slots : List String) : Except (List String) (List String) → Prop
  | .error cycle => Kahn.IsCycle (Leads consumers) cycle
  | .ok done' => Kahn.Forward consumers [] done' ∧ done ⊆ done' ∧ slots ⊆ done'

theorem foldlM_explored {visit : List String → String → Except (List String) (List String)} :
    ∀ {slots done : List String}, (∀ slot ∈ slots, ∀ done, Kahn.Forward consumers [] done →
      Explored consumers done [slot] (visit done slot)) → Kahn.Forward consumers [] done →
      Explored consumers done slots (slots.foldlM visit done)
  | [], done, _, hdone => ⟨hdone, List.Subset.refl _, List.nil_subset _⟩
  | slot :: slots, done, hvisit, hdone => by
    have hone := hvisit slot List.mem_cons_self done hdone
    rw [List.foldlM_cons]
    cases hcase : visit done slot with
    | error cycle =>
      rw [hcase] at hone
      exact hone
    | ok next =>
      rw [hcase] at hone
      obtain ⟨hnext, hgrows, hslot⟩ := hone
      have hrest := foldlM_explored (fun s hs => hvisit s (List.mem_cons_of_mem _ hs)) hnext
      change Explored consumers done (slot :: slots) (slots.foldlM visit next)
      cases hcase' : slots.foldlM visit next with
      | error cycle =>
        rw [hcase'] at hrest
        exact hrest
      | ok last =>
        rw [hcase'] at hrest
        obtain ⟨hlast, hgrows', hslots⟩ := hrest
        refine ⟨hlast, fun _ h => hgrows' (hgrows h), List.cons_subset.mpr ⟨?_, hslots⟩⟩
        exact hgrows' (hslot (List.mem_singleton_self slot))

/-- An edge back onto the path closes a cycle. -/
theorem isCycle_drop (hnodup : (path ++ [slot]).Nodup) (hchain : (path ++ [slot]).IsChain (Leads consumers))
    (hconsumer : consumer ∈ consumers slot) (hback : consumer ∈ path ++ [slot]) :
    Kahn.IsCycle (Leads consumers) ((path ++ [slot]).drop ((path ++ [slot]).idxOf consumer)) := by
  obtain ⟨pre, post, hsplit, hpre⟩ := List.eq_append_cons_of_mem hback
  have hdrop : (path ++ [slot]).drop ((path ++ [slot]).idxOf consumer) = consumer :: post := by
    rw [hsplit, List.idxOf_append_of_notMem hpre, List.idxOf_cons_self, Nat.add_zero, List.drop_left]
  rw [hdrop]
  rw [hsplit] at hnodup hchain
  refine ⟨hnodup.of_append_right, consumer, post, rfl, ?_⟩
  refine List.isChain_append.mpr ⟨(List.isChain_append.mp hchain).2.1, List.isChain_singleton _, fun last hlast first hfirst => ?_⟩
  have hlast' : last = slot := by
    have heq := congrArg List.getLast? hsplit
    rw [List.getLast?_concat, List.getLast?_append_cons, Option.mem_def.mp hlast] at heq
    exact (Option.some.inj heq).symm
  have hfirst' : first = consumer := by simpa using hfirst.symm
  rw [hlast', hfirst']
  exact hconsumer

/-- The path is one of distinct slots, so it never grows longer than the chain. -/
theorem visit_explored {slots : List String} (hsub : ∀ a, consumers a ⊆ slots) : ∀ (n : Nat) {path done : List String} {slot : String},
    path ++ [slot] ⊆ slots → (path ++ [slot]).Nodup → (path ++ [slot]).IsChain (Leads consumers) →
    slots.length < path.length + n → Kahn.Forward consumers [] done →
    Explored consumers done [slot] (visit consumers n path done slot)
  | 0, path, done, slot, hpath, hnodup, _, hfuel, _ => by
    have hle := (List.subperm_of_subset hnodup hpath).length_le
    rw [List.length_append] at hle
    omega
  | n + 1, path, done, slot, hpath, hnodup, hchain, hfuel, hdone => by
    have hstep : ∀ consumer ∈ consumers slot, ∀ done, Kahn.Forward consumers [] done →
        Explored consumers done [consumer] (if consumer ∈ path ++ [slot] then
          .error ((path ++ [slot]).drop ((path ++ [slot]).idxOf consumer))
        else if consumer ∈ done then .ok done else visit consumers n (path ++ [slot]) done consumer) := by
      intro consumer hconsumer done hdone
      by_cases hback : consumer ∈ path ++ [slot]
      · rw [if_pos hback]
        exact isCycle_drop hnodup hchain hconsumer hback
      rw [if_neg hback]
      by_cases hmem : consumer ∈ done
      · rw [if_pos hmem]
        exact ⟨hdone, List.Subset.refl _, by simpa using hmem⟩
      rw [if_neg hmem]
      refine visit_explored hsub n ?_ ?_ ?_ ?_ hdone
      · exact List.append_subset.mpr ⟨hpath, by simpa using hsub slot hconsumer⟩
      · exact hnodup.append (List.nodup_singleton _) (by simpa using hback)
      · refine List.isChain_append.mpr ⟨hchain, List.isChain_singleton _, fun last hlast first hfirst => ?_⟩
        rw [List.getLast?_concat, Option.mem_some_iff] at hlast
        have hfirst : first = consumer := by simpa using hfirst.symm
        rw [← hlast, hfirst]
        exact hconsumer
      · rw [List.length_append, List.length_singleton]
        omega
    have hfold := foldlM_explored hstep hdone
    rw [visit]
    cases hcase : (consumers slot).foldlM (fun done consumer => if consumer ∈ path ++ [slot] then
        Except.error ((path ++ [slot]).drop ((path ++ [slot]).idxOf consumer))
      else if consumer ∈ done then .ok done else visit consumers n (path ++ [slot]) done consumer) done with
    | error cycle =>
      rw [hcase] at hfold
      exact hfold
    | ok next =>
      rw [hcase] at hfold
      obtain ⟨hnext, hgrows, hconsumers⟩ := hfold
      refine ⟨Kahn.forward_snoc.mpr ⟨hnext, by simpa using hconsumers⟩, ?_, ?_⟩
      · exact List.subset_append_of_subset_left _ hgrows
      · exact List.subset_append_right _ _

end

/-! ## The order or a cycle -/

section
variable {inputs : List (String × List String)}

theorem Resolved.mem_slots (h : Resolved inputs) {producer slot : String} (hfeeds : Feeds inputs producer slot) :
    slot ∈ inputs.map Prod.fst ∧ producer ∈ inputs.map Prod.fst := by
  unfold Feeds inputsOf at hfeeds
  cases hlookup : inputs.lookup slot with
  | none =>
    rw [hlookup] at hfeeds
    exact (List.not_mem_nil hfeeds).elim
  | some producers =>
    rw [hlookup] at hfeeds
    have hmem := (Dict.lookup_eq_some_iff h.slots).mp hlookup
    exact ⟨List.mem_map_of_mem hmem, h.known _ hmem hfeeds⟩

theorem Resolved.leads_iff (h : Resolved inputs) : Leads (consumers inputs) = Feeds inputs := by
  funext producer slot
  refine propext ((mem_consumers h.slots).trans ⟨And.right, fun hfeeds => ⟨(h.mem_slots hfeeds).1, hfeeds⟩⟩)

/-- Either the slots can be numbered downward along every edge, or the search finds a cycle. -/
theorem Resolved.cycle_or_numbered (h : Resolved inputs) : Kahn.IsCycle (Feeds inputs) (findCycle inputs) ∨
    ∃ done, inputs.map Prod.fst ⊆ done ∧ Kahn.Forward (consumers inputs) [] done := by
  have hsub (a : String) : consumers inputs a ⊆ inputs.map Prod.fst := fun c hc => ((mem_consumers h.slots).mp hc).1
  have hstep : ∀ slot ∈ inputs.map Prod.fst, ∀ done, Kahn.Forward (consumers inputs) [] done →
      Explored (consumers inputs) done [slot] (if slot ∈ done then .ok done
        else visit (consumers inputs) ((inputs.map Prod.fst).length + 1) [] done slot) := by
    intro slot hslot done hdone
    by_cases hmem : slot ∈ done
    · rw [if_pos hmem]
      exact ⟨hdone, List.Subset.refl _, by simpa using hmem⟩
    rw [if_neg hmem]
    refine visit_explored hsub _ ?_ ?_ ?_ ?_ hdone
    · simpa using hslot
    · simp
    · simp
    · simp
  have hfold := @foldlM_explored _ _ _ [] hstep trivial
  unfold findCycle
  dsimp only
  split
  · rename_i cycle hcase
    rw [hcase] at hfold
    refine .inl ?_
    rw [← h.leads_iff]
    exact hfold
  · rename_i done hcase
    rw [hcase] at hfold
    exact .inr ⟨done, hfold.2.2, hfold.1⟩

/-- Without a cycle everything comes out: of what does not, the search would have
finished one last, and that one waits for another. -/
theorem Resolved.complete (h : Resolved inputs) {done : List String} (hall : inputs.map Prod.fst ⊆ done)
    (hdone : Kahn.Forward (consumers inputs) [] done) {order : List String}
    (hstuck : ∀ slot ∈ inputs.map Prod.fst, slot ∉ order → ∃ p ∈ inputsOf inputs slot, p ∉ order) :
    inputs.map Prod.fst ⊆ order := by
  have key : ∀ n slot, slot ∈ inputs.map Prod.fst → done.length - done.idxOf slot ≤ n → slot ∈ order := by
    intro n
    induction n with
    | zero =>
      intro slot hslot hle
      have := List.idxOf_lt_length_of_mem (hall hslot)
      omega
    | succ n ih =>
      intro slot hslot hle
      by_contra hout
      obtain ⟨producer, hfeeds, hproducer⟩ := hstuck slot hslot hout
      have hmem := (h.mem_slots hfeeds).2
      refine hproducer (ih producer hmem ?_)
      have hlt := hdone.idxOf_lt (hall hmem) ((mem_consumers h.slots).mpr ⟨hslot, hfeeds⟩)
      have := List.idxOf_lt_length_of_mem (hall hmem)
      omega
  exact fun slot hslot => key _ slot hslot (Nat.le_refl _)

theorem Resolved.nodup_inputsOf (h : Resolved inputs) : ∀ slot ∈ inputs.map Prod.fst, (inputsOf inputs slot).Nodup := by
  intro slot hslot
  obtain ⟨p, hp, rfl⟩ := List.mem_map.mp hslot
  rw [inputsOf_eq h.slots hp]
  exact h.producers p hp

theorem Resolved.acyclic (h : Resolved inputs) {order : List String} (hperm : order.Perm (inputs.map Prod.fst))
    (hforward : Kahn.Forward (inputsOf inputs) [] order) : Kahn.Acyclic (Feeds inputs) := by
  refine Kahn.acyclic_of_rank (fun slot => order.idxOf slot) fun producer slot hfeeds => ?_
  exact hforward.idxOf_lt (hperm.mem_iff.mpr (h.mem_slots hfeeds).1) hfeeds

/-- Every slot after its producers, or a cycle. -/
theorem Resolved.order_or_cycle (h : Resolved inputs) :
    (∃ order, topologicalOrder inputs = .ok order ∧ order.Perm (inputs.map Prod.fst) ∧
      Kahn.Forward (inputsOf inputs) [] order) ∨
    ∃ cycle, topologicalOrder inputs = .error (.cycle cycle) ∧ Kahn.IsCycle (Feeds inputs) cycle := by
  obtain ⟨hnodup, hsub, hforward⟩ := Kahn.loop_forward h.nodup_inputsOf (nodup_consumers h.slots)
    (fun _ _ => mem_consumers h.slots) h.slots (inputs.map Prod.fst).length
  have hstuck := Kahn.loop_stuck h.nodup_inputsOf (nodup_consumers h.slots) (fun _ _ => mem_consumers h.slots) h.slots
  unfold topologicalOrder refuse
  dsimp only at hnodup hsub hforward hstuck ⊢
  generalize horder : Kahn.loop (consumers inputs) (inputs.map Prod.fst).length (fun slot => (inputsOf inputs slot).length)
    ((inputs.map Prod.fst).filter fun slot => decide ((inputsOf inputs slot).length = 0)) [] = order at hnodup hsub hforward hstuck ⊢
  by_cases hlength : order.length = (inputs.map Prod.fst).length
  · rw [if_neg (not_not.mpr hlength)]
    refine .inl ⟨order, rfl, ?_, hforward⟩
    exact (List.subperm_of_subset hnodup hsub).perm_of_length_le hlength.ge
  · rw [if_pos hlength]
    refine .inr ⟨findCycle inputs, rfl, ?_⟩
    rcases h.cycle_or_numbered with hcycle | ⟨done, hall, hdone⟩
    · exact hcycle
    · have hcomplete := h.complete hall hdone hstuck
      have hle := (List.subperm_of_subset h.slots hcomplete).length_le
      have hge := (List.subperm_of_subset hnodup hsub).length_le
      exact absurd (Nat.le_antisymm hge hle) hlength

end

/-! ## From a decoder to an output -/

/-- What is reached is what was, or feeds something that was. -/
theorem mem_reaching {producers : String → List String} : ∀ {n : Nat} {frontier reached : List String} {slot : String},
    frontier ⊆ reached → slot ∈ reaching producers n frontier reached →
      ∃ last ∈ reached, Relation.ReflTransGen (fun a b => a ∈ producers b) slot last
  | 0, _, _, slot, _, h => ⟨slot, h, .refl⟩
  | _ + 1, [], _, slot, _, h => ⟨slot, h, .refl⟩
  | n + 1, first :: frontier, reached, slot, hsub, h => by
    rw [reaching] at h
    obtain ⟨hfirst, hfrontier⟩ := List.cons_subset.mp hsub
    obtain ⟨last, hlast, hpath⟩ := mem_reaching (List.append_subset.mpr
      ⟨List.subset_append_of_subset_left _ hfrontier, List.subset_append_right _ _⟩) h
    rcases List.mem_append.mp hlast with hlast | hlast
    · exact ⟨last, hlast, hpath⟩
    · exact ⟨first, hfirst, hpath.tail (List.mem_of_mem_filter hlast)⟩

/-- What `_check_structure` leaves of the nodes. -/
theorem checkNodes_structure {nodes : List ElementNode} (h : checkNodes nodes = .ok ()) :
    (∀ n ∈ nodes, n.isRoot = true → n.kind = .decode) ∧ (∃ n ∈ nodes, n.kind = .output) ∧
      (∀ n ∈ nodes, n.kind = .output → n.isSink = true) ∧
      ∀ n ∈ nodes, n.name ∈ reaching (fun slot => ((nodes.find? fun m => decide (m.name = slot)).map ElementNode.inputs).getD [])
        nodes.length ((nodes.filter fun m => decide (m.kind = .output)).map ElementNode.name)
        ((nodes.filter fun m => decide (m.kind = .output)).map ElementNode.name) := by
  obtain ⟨_, hstructure, -⟩ := bind_ok.mp h
  obtain ⟨_, hroots, hstructure⟩ := bind_ok.mp hstructure
  obtain ⟨_, houtput, hstructure⟩ := bind_ok.mp hstructure
  obtain ⟨_, hsinks, hstranded⟩ := bind_ok.mp hstructure
  rw [refuse_ok] at houtput hstranded
  refine ⟨fun n hn hroot => ?_, ?_, fun n hn hkind => ?_, fun n hn => ?_⟩
  · have hone := forM_ok_iff.mp hroots n (List.mem_filter.mpr ⟨hn, hroot⟩)
    obtain ⟨_, hkind, -⟩ := bind_ok.mp hone
    rw [refuse_ok, not_not] at hkind
    exact hkind
  · obtain ⟨n, hn⟩ := List.exists_mem_of_ne_nil _ houtput
    obtain ⟨hn, hkind⟩ := List.mem_filter.mp hn
    exact ⟨n, hn, of_decide_eq_true hkind⟩
  · have hone := forM_ok_iff.mp hsinks n (List.mem_filter.mpr ⟨hn, decide_eq_true hkind⟩)
    rw [refuse_ok] at hone
    simpa using hone
  · rw [not_not, List.map_eq_nil_iff, List.filter_eq_nil_iff] at hstranded
    simpa using hstranded n hn

/-- An edge of the chain leads from one element to another. -/
def Topology.Flows (t : Topology) (producer consumer : String) : Prop :=
  ∃ e ∈ t.edges, e.producer = producer ∧ e.consumer = consumer

/-- On the way from a decoder that nothing feeds to an output that feeds nothing. -/
def Topology.Carries (t : Topology) (n : ElementNode) : Prop :=
  (∃ root ∈ t.nodes, root.kind = .decode ∧ root.inputs = [] ∧ Relation.ReflTransGen t.Flows root.name n.name) ∧
    ∃ sink ∈ t.nodes, sink.kind = .output ∧ sink.outputs = [] ∧ Relation.ReflTransGen t.Flows n.name sink.name

section
variable {spec : ChainSpec} {t : Topology}

theorem Topology.Walkable.flows (hw : t.Walkable) {n : ElementNode} (hn : n ∈ t.nodes) {producer : String}
    (hp : producer ∈ n.inputs) : t.Flows producer n.name := hw.edges n hn producer hp

/-- Forward along the walk, a root or something a root leads to feeds each element. -/
theorem rooted (hw : t.Walkable) : ∀ (k : Nat) {pre post : List ElementNode} {n : ElementNode}, pre.length ≤ k →
    t.nodes = pre ++ n :: post →
      ∃ root ∈ t.nodes, root.inputs = [] ∧ Relation.ReflTransGen t.Flows root.name n.name := by
  intro k
  induction k with
  | zero =>
    intro pre post n hle hsplit
    obtain rfl := List.eq_nil_of_length_eq_zero (Nat.le_zero.mp hle)
    exact ⟨n, by simp [hsplit], List.subset_nil.mp (hw.forward [] n post hsplit), .refl⟩
  | succ k ih =>
    intro pre post n hle hsplit
    have hn : n ∈ t.nodes := by simp [hsplit]
    by_cases hroot : n.inputs = []
    · exact ⟨n, hn, hroot, .refl⟩
    obtain ⟨producer, hp⟩ := List.exists_mem_of_ne_nil _ hroot
    obtain ⟨m, hm, rfl⟩ := List.mem_map.mp (hw.forward pre n post hsplit hp)
    obtain ⟨before, after, hpre⟩ := List.append_of_mem hm
    have hlength : before.length ≤ k := by
      rw [hpre, List.length_append, List.length_cons] at hle
      omega
    have hsplit' : t.nodes = before ++ m :: (after ++ n :: post) := by simp [hsplit, hpre]
    obtain ⟨root, hmem, hinputs, hpath⟩ := ih hlength hsplit'
    exact ⟨root, hmem, hinputs, hpath.tail (hw.flows hn hp)⟩

theorem mem_withDonors {nodes : List ElementNode} {edges : List Edge} {n : ElementNode} (h : n ∈ withDonors nodes edges) :
    ∃ m ∈ nodes, m.name = n.name ∧ m.kind = n.kind ∧ m.inputs = n.inputs ∧ m.outputs = n.outputs := by
  obtain ⟨m, hm, rfl⟩ := List.mem_map.mp h
  exact ⟨m, hm, (m.withDonor_name _).symm, (m.withDonor_kind _).symm, (m.withDonor_inputs _).symm, (m.withDonor_outputs _).symm⟩

theorem carries (h : Topology.fromSpec spec = .ok t) : ∀ n ∈ t.nodes, t.Carries n := by
  have hw := walkable h
  obtain ⟨nodes, s, -, hcheck, -, -, -, hnodes⟩ := fromSpec_spec h
  obtain ⟨hroots, -, hsinks, hreach⟩ := checkNodes_structure hcheck
  have hmem {m : ElementNode} (hm : m ∈ nodes) : m.withDonor s.edges ∈ t.nodes := by
    rw [hnodes]
    exact List.mem_map_of_mem hm
  intro n hn
  constructor
  · obtain ⟨pre, post, hsplit⟩ := List.append_of_mem hn
    obtain ⟨root, hroot, hinputs, hpath⟩ := rooted hw pre.length (Nat.le_refl _) hsplit
    obtain ⟨m, hm, -, hkind, hin, -⟩ := mem_withDonors (hnodes ▸ hroot)
    refine ⟨root, hroot, hkind ▸ hroots m hm ?_, hinputs, hpath⟩
    simp [ElementNode.isRoot, hin, hinputs]
  · obtain ⟨m, hm, hname, -⟩ := mem_withDonors (hnodes ▸ hn)
    obtain ⟨last, hlast, hpath⟩ := mem_reaching (List.Subset.refl _) (hreach m hm)
    obtain ⟨sink, hsink, rfl⟩ := List.mem_map.mp hlast
    obtain ⟨hsink, hkind⟩ := List.mem_filter.mp hsink
    have hkind : sink.kind = .output := of_decide_eq_true hkind
    refine ⟨sink.withDonor s.edges, hmem hsink, ?_, ?_, ?_⟩
    · rw [ElementNode.withDonor_kind]
      exact hkind
    · rw [ElementNode.withDonor_outputs]
      exact List.isEmpty_iff.mp (hsinks sink hsink hkind)
    · rw [ElementNode.withDonor_name, ← hname]
      refine Relation.ReflTransGen.mono (fun a b hab => ?_) _ _ hpath
      cases hfind : nodes.find? fun k => decide (k.name = b) with
      | none =>
        rw [hfind] at hab
        exact (List.not_mem_nil hab).elim
      | some k =>
        rw [hfind] at hab
        have hk : k.name = b := by simpa using List.find?_some hfind
        have ha : a ∈ (k.withDonor s.edges).inputs := by simpa using hab
        have hflows := hw.flows (hmem (List.mem_of_find?_eq_some hfind)) ha
        rw [ElementNode.withDonor_name, hk] at hflows
        exact hflows

end

/-- **The order of a chain.** There is one exactly when nothing feeds itself, and
otherwise the error names a cycle in flow order; and all of an accepted chain
lies between a decoder and an output. -/
theorem ordered_or_cycle {inputs : List (String × List String)} (hgraph : Resolved inputs) :
    (∀ order, topologicalOrder inputs = .ok order → order.Perm (inputs.map Prod.fst) ∧
      ∀ producer slot, Feeds inputs producer slot → order.idxOf producer < order.idxOf slot) ∧
    ((∃ order, topologicalOrder inputs = .ok order) ↔ Kahn.Acyclic (Feeds inputs)) ∧
    (¬Kahn.Acyclic (Feeds inputs) → ∃ cycle, topologicalOrder inputs = .error (.cycle cycle) ∧
      Kahn.IsCycle (Feeds inputs) cycle) ∧
    ∀ spec t, Topology.fromSpec spec = .ok t → ∀ n ∈ t.nodes, t.Carries n := by
  refine ⟨fun order horder => ?_, ⟨?_, fun hacyclic => ?_⟩, fun hcyclic => ?_, fun spec t h => carries h⟩
  · obtain ⟨hperm, hforward⟩ := topologicalOrder_spec hgraph.slots hgraph.producers horder
    refine ⟨hperm, fun producer slot hfeeds => ?_⟩
    exact hforward.idxOf_lt (hperm.mem_iff.mpr (hgraph.mem_slots hfeeds).1) hfeeds
  · rintro ⟨order, horder⟩
    obtain ⟨hperm, hforward⟩ := topologicalOrder_spec hgraph.slots hgraph.producers horder
    exact hgraph.acyclic hperm hforward
  · rcases hgraph.order_or_cycle with ⟨order, horder, -⟩ | ⟨cycle, -, hcycle⟩
    · exact ⟨order, horder⟩
    · exact absurd hacyclic hcycle.not_acyclic
  · rcases hgraph.order_or_cycle with ⟨order, -, hperm, hforward⟩ | hcycle
    · exact absurd (hgraph.acyclic hperm hforward) hcyclic
    · exact hcycle

/-- Two elements feed each other, and a third waits behind them. -/
def roundabout : List (String × List String) := [("detect", ["track"]), ("track", ["detect"]), ("output", ["track"])]

theorem nv12_isToken : IsToken "nv12" := by decide

def direct : ChainSpec where
  elements := ⟨[
    ("decode", { kind := .decode, element := { impl := "replay", produces := [⟨.only ⟨"nv12", nv12_isToken⟩, .only .gpu⟩] } }),
    ("output", { kind := .output, element := { impl := "log", accepts := [⟨.any, .any⟩] } })], by simp⟩

theorem roundabout_cycle : (∃ cycle, topologicalOrder roundabout = .error (.cycle cycle) ∧
      Kahn.IsCycle (Feeds roundabout) cycle) ∧
    ∃ t, Topology.fromSpec direct = .ok t ∧ t.nodes.length = 2 ∧ ∀ n ∈ t.nodes, t.Carries n := by
  have hgraph : Resolved roundabout := ⟨by decide, by decide, by decide⟩
  have hcyclic : ¬Kahn.Acyclic (Feeds roundabout) := by
    intro hacyclic
    refine hacyclic "track" (.head (b := "detect") ?_ (.single ?_))
    · simp [Feeds, inputsOf, roundabout]
    · simp [Feeds, inputsOf, roundabout, List.lookup]
  refine ⟨(ordered_or_cycle hgraph).2.2.1 hcyclic, _, rfl, rfl, (ordered_or_cycle hgraph).2.2.2 direct _ rfl⟩

end ShipInfer.Chain
