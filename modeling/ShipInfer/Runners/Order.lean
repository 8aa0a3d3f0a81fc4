import ShipInfer.Runners.Walk
import ShipInfer.Topology.Soundness

/-!
# A walk in another order

What a node receives is made of what its inputs produced, and these come before it in
every topological order. So the order the loader chose decides nothing an element sees.
-/

namespace ShipInfer.Runners

open Chain

namespace ChainWalk

variable {π ρ ν : Type}

/-- What a node received on a walk, and what it left for its successors; `none` where it
received nothing. -/
structure Visit (π ρ ν : Type) where
  node : String
  received : Option (ChainItem π ρ ν)
  result : Option (Option (ChainItem π ρ ν))

variable [DecidableEq ρ]

/-- The visits of the loop, one a node. -/
def visits (edges : List Edge) (env : WalkEnv π ρ ν) (item : ChainItem π ρ ν) :
    List ElementNode → WalkState π ρ ν → Except WalkEnd (List (Visit π ρ ν))
  | [], _ => .ok []
  | node :: rest, s => do
    let s' ← visit edges env item s node
    let later ← visits edges env item rest s'
    return ⟨node.name, ((receives edges item s node).toOption).join, s'.produced.get? node.name⟩ :: later

/-- The nodes of a chain, each behind its inputs. -/
structure TopologicalOrder (t : Topology) (order : List ElementNode) : Prop where
  perm : order.Perm t.nodes
  forward : ∀ pre n post, order = pre ++ n :: post → n.inputs ⊆ pre.map ElementNode.name

section
variable {edges : List Edge} {env : WalkEnv π ρ ν} {item : ChainItem π ρ ν} {n : ElementNode} {s s' u : WalkState π ρ ν}

omit [DecidableEq ρ] in
theorem contributors_congr {p q : Dict String (Option (ChainItem π ρ ν))} (h : ∀ name ∈ n.inputs, p.get? name = q.get? name) :
    contributors n p = contributors n q := by
  unfold contributors
  refine List.filterMap_congr fun name hname => ?_
  rw [h name hname]

/-- A node reads what its inputs produced. -/
theorem receives_congr (hdonor : ∀ d, n.donor = some d → d ∈ n.inputs)
    (h : ∀ name ∈ n.inputs, s.produced.get? name = u.produced.get? name) : receives edges item s n = receives edges item u n := by
  have hdonorOf : ∀ first cs, donorOf edges n s.produced first cs = donorOf edges n u.produced first cs := by
    intro first cs
    unfold donorOf
    cases hd : n.donor with
    | none => rfl
    | some d => rw [Option.bind_some, Option.bind_some, h d (hdonor d hd)]
  unfold receives inbound
  rw [contributors_congr h]
  simp only [hdonorOf]

/-- A visit writes under the node's name, and what it writes is made of what the node received. -/
theorem visit_frame (hvisit : visit edges env item s n = .ok s') {name : String} (h : name ≠ n.name) :
    s'.produced.get? name = s.produced.get? name := by
  unfold visit at hvisit
  cases hr : receives edges item s n with
  | error e => rw [hr] at hvisit; cases hvisit
  | ok received =>
    rw [hr] at hvisit
    cases received with
    | none => cases hvisit; rfl
    | some incoming =>
      dsimp only at hvisit
      split at hvisit
      · cases hvisit
        exact Dict.get?_set_ne h
      · split at hvisit
        · cases hvisit
        · cases hp : env.process n incoming with
          | error e => rw [hp] at hvisit; cases hvisit
          | ok result =>
            rw [hp] at hvisit
            cases hvisit
            exact Dict.get?_set_ne h

/-- Two states that give a node the same are changed alike by its visit. -/
theorem visit_transfer (hlate : ∀ name, env.late name = false) (hr : receives edges item s n = receives edges item u n)
    (hnew : s.produced.get? n.name = u.produced.get? n.name) (hvisit : visit edges env item s n = .ok s') :
    ∃ u', visit edges env item u n = .ok u' ∧ u'.produced.get? n.name = s'.produced.get? n.name := by
  unfold visit at hvisit ⊢
  rw [← hr]
  cases hreceived : receives edges item s n with
  | error e => rw [hreceived] at hvisit; cases hvisit
  | ok received =>
    rw [hreceived] at hvisit
    cases received with
    | none =>
      cases hvisit
      exact ⟨u, rfl, hnew.symm⟩
    | some incoming =>
      dsimp only at hvisit ⊢
      by_cases hadmits : n.admits env.str incoming.metadata = false
      · rw [if_pos hadmits] at hvisit ⊢
        cases hvisit
        exact ⟨_, rfl, by rw [Dict.get?_set_self, Dict.get?_set_self]⟩
      · have hnow : ¬ (n.element.needsModel && env.late n.name) = true := by simp [hlate]
        rw [if_neg hadmits, if_neg hnow] at hvisit ⊢
        cases hp : env.process n incoming with
        | error e => rw [hp] at hvisit; cases hvisit
        | ok result =>
          rw [hp] at hvisit
          cases hvisit
          exact ⟨_, rfl, by rw [Dict.get?_set_self, Dict.get?_set_self]⟩

theorem visits_frame : ∀ {rest : List ElementNode} {s s' : WalkState π ρ ν}, rest.foldlM (visit edges env item) s = .ok s' →
    ∀ {name : String}, name ∉ rest.map ElementNode.name → s'.produced.get? name = s.produced.get? name
  | [], _, _, h, _, _ => by cases h; rfl
  | n :: rest, s, s', h, name, hname => by
    rw [List.foldlM_cons] at h
    obtain ⟨s₁, hone, hrest⟩ := bind_ok.mp h
    rw [List.map_cons, List.mem_cons, not_or] at hname
    rw [visits_frame hrest hname.2, visit_frame hone hname.1]

end

theorem visits_nodes {edges : List Edge} {env : WalkEnv π ρ ν} {item : ChainItem π ρ ν} : ∀ {rest : List ElementNode}
    {s : WalkState π ρ ν} {vs : List (Visit π ρ ν)}, visits edges env item rest s = .ok vs →
      vs.map Visit.node = rest.map ElementNode.name
  | [], _, _, h => by cases h; rfl
  | n :: rest, s, vs, h => by
    unfold visits at h
    obtain ⟨s', -, h⟩ := bind_ok.mp h
    obtain ⟨later, hlater, h⟩ := bind_ok.mp h
    cases h
    rw [List.map_cons, List.map_cons, visits_nodes hlater]

/-! ## Two orders -/

section
variable {t : Topology} {env : WalkEnv π ρ ν} {item : ChainItem π ρ ν} {order order' : List ElementNode}

omit [DecidableEq ρ] in
theorem TopologicalOrder.names (hw : t.Walkable) (h : TopologicalOrder t order) : (order.map ElementNode.name).Nodup :=
  (h.perm.map _).nodup_iff.mpr hw.names

omit [DecidableEq ρ] in
theorem TopologicalOrder.donors (hw : t.Walkable) (h : TopologicalOrder t order) {n : ElementNode} (hn : n ∈ order) :
    ∀ d, n.donor = some d → d ∈ n.inputs := hw.donors n (h.perm.mem_iff.mp hn)

/-- What a node of a walk received and left, by the end of the walk. -/
def visitAt (edges : List Edge) (item : ChainItem π ρ ν) (s : WalkState π ρ ν) (n : ElementNode) : Visit π ρ ν :=
  ⟨n.name, ((receives edges item s n).toOption).join, s.produced.get? n.name⟩

/-- What stands under the inputs of a node when it is visited stands there at the end. -/
theorem inputs_settled (hw : t.Walkable) (ho : TopologicalOrder t order) {pre post : List ElementNode} {n : ElementNode}
    (hsplit : order = pre ++ n :: post) {s s' : WalkState π ρ ν} (h : (n :: post).foldlM (visit t.edges env item) s = .ok s') :
    ∀ name ∈ n.inputs, s.produced.get? name = s'.produced.get? name := by
  intro name hname
  refine (visits_frame h fun hmem => ?_).symm
  have hnodup := ho.names hw
  rw [hsplit, List.map_append] at hnodup
  exact List.disjoint_of_nodup_append hnodup (ho.forward pre n post hsplit hname) hmem

theorem visits_eq (hw : t.Walkable) (ho : TopologicalOrder t order) : ∀ (rest pre : List ElementNode) {s s' : WalkState π ρ ν},
    order = pre ++ rest → rest.foldlM (visit t.edges env item) s = .ok s' →
      visits t.edges env item rest s = .ok (rest.map (visitAt t.edges item s'))
  | [], _, _, _, _, _ => rfl
  | n :: rest, pre, s, s', hsplit, h => by
    have hn : n ∈ order := by rw [hsplit]; exact List.mem_append_right _ List.mem_cons_self
    have hreceives : receives t.edges item s n = receives t.edges item s' n :=
      receives_congr (ho.donors hw hn) (inputs_settled hw ho hsplit h)
    rw [List.foldlM_cons] at h
    obtain ⟨s₁, hone, hrest⟩ := bind_ok.mp h
    have hnodup := ho.names hw
    rw [hsplit, List.map_append, List.map_cons] at hnodup
    have hlater : n.name ∉ rest.map ElementNode.name := (List.nodup_cons.mp hnodup.of_append_right).1
    have hresult : s₁.produced.get? n.name = s'.produced.get? n.name := (visits_frame hrest hlater).symm
    have hvisits := visits_eq hw ho rest (pre ++ [n]) (by rw [hsplit]; simp) hrest
    unfold visits
    rw [hone]
    show (do let later ← visits t.edges env item rest s₁; return _ :: later) = _
    rw [hvisits, hreceives, hresult]
    rfl

/-- The nodes still to come in one order, after a walk in the other. -/
theorem walk_transfer (hw : t.Walkable) (ho : TopologicalOrder t order) (ho' : TopologicalOrder t order')
    (hlate : ∀ name, env.late name = false) {last : WalkState π ρ ν}
    (hwalk : order.foldlM (visit t.edges env item) { last := item } = .ok last) :
    ∀ (rest pre : List ElementNode) {u : WalkState π ρ ν}, order' = pre ++ rest →
      (∀ m ∈ pre, u.produced.get? m.name = last.produced.get? m.name) → (∀ m ∈ rest, u.produced.get? m.name = none) →
      ∃ u', rest.foldlM (visit t.edges env item) u = .ok u' ∧ ∀ m ∈ order', u'.produced.get? m.name = last.produced.get? m.name
  | [], pre, u, hsplit, hpre, _ => ⟨u, rfl, by rw [hsplit, List.append_nil]; exact hpre⟩
  | n :: rest, pre, u, hsplit, hpre, hrest => by
    have hn : n ∈ order := ho.perm.mem_iff.mpr (ho'.perm.mem_iff.mp (by rw [hsplit]; exact List.mem_append_right _ List.mem_cons_self))
    obtain ⟨before, after, horder⟩ := List.append_of_mem hn
    have hparts := hwalk
    rw [horder, List.foldlM_append] at hparts
    obtain ⟨s, hbefore, hafter⟩ := bind_ok.mp hparts
    have hsettled := inputs_settled hw ho horder hafter
    rw [List.foldlM_cons] at hafter
    obtain ⟨s₁, hone, hlast⟩ := bind_ok.mp hafter
    have hnodup := ho.names hw
    rw [horder, List.map_append, List.map_cons] at hnodup
    have hnodup' := ho'.names hw
    rw [hsplit, List.map_append, List.map_cons] at hnodup'
    have hreceives : receives t.edges item s n = receives t.edges item u n := by
      refine receives_congr (ho.donors hw hn) fun name hname => ?_
      obtain ⟨m, hm, rfl⟩ := List.mem_map.mp (ho'.forward pre n rest hsplit hname)
      rw [hsettled _ hname, hpre m hm]
    have hfirst : s.produced.get? n.name = none := by
      rw [visits_frame hbefore fun hmem => List.disjoint_of_nodup_append hnodup hmem List.mem_cons_self]
      exact Dict.get?_empty _
    obtain ⟨u', hvisit, hsame⟩ := visit_transfer hlate hreceives (hfirst.trans (hrest n List.mem_cons_self).symm) hone
    have hresult : u'.produced.get? n.name = last.produced.get? n.name := by
      rw [hsame]
      exact (visits_frame hlast (List.nodup_cons.mp hnodup.of_append_right).1).symm
    have hother : ∀ m : ElementNode, m.name ≠ n.name → u'.produced.get? m.name = u.produced.get? m.name := fun m hm => visit_frame hvisit hm
    obtain ⟨u'', hfold, hall⟩ := walk_transfer hw ho ho' hlate hwalk rest (pre ++ [n]) (u := u')
      (by rw [hsplit]; simp) (fun m hm => by
        rcases List.mem_append.mp hm with hm | hm
        · rw [hother m, hpre m hm]
          intro he
          exact List.disjoint_of_nodup_append hnodup' (List.mem_map_of_mem hm) (by rw [he]; exact List.mem_cons_self)
        · rw [List.mem_singleton.mp hm, hresult]) (fun m hm => by
        rw [hother m, hrest m (List.mem_cons_of_mem _ hm)]
        intro he
        exact (List.nodup_cons.mp hnodup'.of_append_right).1 (he ▸ List.mem_map_of_mem hm))
    exact ⟨u'', by rw [List.foldlM_cons, hvisit]; exact hfold, hall⟩

/-- A walk that ends well in one order does in the other, with the same visits. -/
theorem run_transfer (hw : t.Walkable) (ho : TopologicalOrder t order) (ho' : TopologicalOrder t order')
    (hstart : env.lateAtStart = false) (hlate : ∀ name, env.late name = false) {out : ChainItem π ρ ν}
    (h : run { t with nodes := order } env item = .ok out) :
    ∃ out' vs vs', run { t with nodes := order' } env item = .ok out' ∧
      visits t.edges env item order { last := item } = .ok vs ∧ visits t.edges env item order' { last := item } = .ok vs' ∧
      vs'.Perm vs := by
  unfold run at h
  obtain ⟨-, -, h⟩ := bind_ok.mp h
  obtain ⟨last, hwalk, -⟩ := bind_ok.mp h
  obtain ⟨last', hwalk', hsame⟩ := walk_transfer hw ho ho' hlate hwalk order' [] (u := { last := item }) rfl
    (fun m hm => absurd hm List.not_mem_nil) (fun m _ => Dict.get?_empty _)
  refine ⟨last'.last, _, _, ?_, visits_eq hw ho order [] rfl hwalk, visits_eq hw ho' order' [] rfl hwalk', ?_⟩
  · unfold run
    rw [hstart]
    show (do let s ← order'.foldlM (visit t.edges env item) { last := item }; return s.last) = _
    rw [hwalk']
    rfl
  · have hat : order'.map (visitAt t.edges item last') = order'.map (visitAt t.edges item last) := by
      refine List.map_congr_left fun n hn => ?_
      obtain ⟨pre, post, hsplit⟩ := List.append_of_mem hn
      have hreceives : receives t.edges item last' n = receives t.edges item last n := by
        refine receives_congr (ho'.donors hw hn) fun name hname => ?_
        obtain ⟨m, hm, rfl⟩ := List.mem_map.mp (ho'.forward pre n post hsplit hname)
        exact hsame m (by rw [hsplit]; exact List.mem_append_left _ hm)
      unfold visitAt
      rw [hreceives, hsame n hn]
    rw [hat]
    exact (ho'.perm.trans ho.perm.symm).map _

end

end ChainWalk

/-- **The order does not matter.** In any two topological orders of an accepted chain,
with no deadline expiring, the walk ends well in both or in neither, and where it does
every element receives and leaves the same. -/
theorem walk_order {π ρ ν : Type} [DecidableEq ρ] {spec : ChainSpec} {t : Topology} {order order' : List ElementNode}
    {env : WalkEnv π ρ ν} {item : ChainItem π ρ ν} (h : Topology.fromSpec spec = .ok t)
    (ho : ChainWalk.TopologicalOrder t order) (ho' : ChainWalk.TopologicalOrder t order') (hstart : env.lateAtStart = false)
    (hlate : ∀ name, env.late name = false) :
    ((∃ out, ChainWalk.run { t with nodes := order } env item = .ok out) ↔
      ∃ out, ChainWalk.run { t with nodes := order' } env item = .ok out) ∧
    ∀ out, ChainWalk.run { t with nodes := order } env item = .ok out →
      ∃ vs vs', ChainWalk.visits t.edges env item order { last := item } = .ok vs ∧
        ChainWalk.visits t.edges env item order' { last := item } = .ok vs' ∧ vs'.Perm vs ∧
        (vs.map ChainWalk.Visit.node) = order.map ElementNode.name ∧ (vs.map ChainWalk.Visit.node).Nodup := by
  have hw := walkable h
  refine ⟨⟨fun hout => ?_, fun hout => ?_⟩, fun out hout => ?_⟩
  · obtain ⟨out, hout⟩ := hout
    obtain ⟨out', -, -, hrun, -⟩ := ChainWalk.run_transfer hw ho ho' hstart hlate hout
    exact ⟨out', hrun⟩
  · obtain ⟨out, hout⟩ := hout
    obtain ⟨out', -, -, hrun, -⟩ := ChainWalk.run_transfer hw ho' ho hstart hlate hout
    exact ⟨out', hrun⟩
  · obtain ⟨out', vs, vs', -, hvs, hvs', hperm⟩ := ChainWalk.run_transfer hw ho ho' hstart hlate hout
    have hnodes := ChainWalk.visits_nodes hvs
    exact ⟨vs, vs', hvs, hvs', hperm, hnodes, hnodes ▸ ho.names hw⟩

theorem nv12_token : IsToken "nv12" := by decide

/-- Two elements behind one decoder, and an output behind both. -/
def forked : ChainSpec where
  elements := ⟨[
    ("decode", { kind := .decode, element := { impl := "replay", produces := [⟨.only ⟨"nv12", nv12_token⟩, .only .gpu⟩] } }),
    ("ships", { kind := .detect, element := { impl := "tee", accepts := [⟨.any, .any⟩], produces := [⟨.any, .any⟩] } }),
    ("people", { kind := .detect, element := { impl := "tee", accepts := [⟨.any, .any⟩], produces := [⟨.any, .any⟩] },
                 after := some ["decode"] }),
    ("output", { kind := .output, element := { impl := "log", accepts := [⟨.any, .any⟩] },
                 after := some ["ships", "people"] })], by simp⟩

def forkedTopology : Topology :=
  match Topology.fromSpec forked with
  | .ok t => t
  | .error _ => ⟨"", [], []⟩

def peopleFirst : List ElementNode :=
  match forkedTopology.nodes with
  | [decode, ships, people, output] => [decode, people, ships, output]
  | nodes => nodes

/-- Every element hands on what it is given, the output keeps it. -/
def handingOn : WalkEnv Unit Nat String where
  str _ := ""
  process n item := .ok (if n.isSink then none else some item)

def oneFrame : ChainItem Unit Nat String := { context := {}, caps := ⟨.any, .any⟩, payload := some (), metadata := .empty }

theorem forkedTopology_loaded : Topology.fromSpec forked = .ok forkedTopology := by rfl

theorem peopleFirst_order : ChainWalk.TopologicalOrder forkedTopology peopleFirst := by
  refine ⟨?_, fun pre n post h => ?_⟩
  · unfold peopleFirst
    split
    · rename_i decode ships people output hnodes
      rw [hnodes]
      exact (List.Perm.swap ships people [output]).cons decode
    · exact List.Perm.refl _
  · have hinputs : peopleFirst.map ElementNode.inputs = [[], ["decode"], ["decode"], ["ships", "people"]] := by rfl
    have hnames : peopleFirst.map ElementNode.name = ["decode", "people", "ships", "output"] := by rfl
    rw [h, List.map_append, List.map_cons] at hinputs hnames
    rcases pre with _ | ⟨a, _ | ⟨b, _ | ⟨c, _ | ⟨d, pre⟩⟩⟩⟩ <;>
      simp only [List.map_nil, List.map_cons, List.nil_append, List.cons_append, List.cons.injEq] at hinputs hnames ⊢
    · rw [hinputs.1]
      exact List.nil_subset _
    · rw [hinputs.2.1, hnames.1]
      exact List.Subset.refl _
    · rw [hinputs.2.2.1, hnames.1]
      exact List.cons_subset.mpr ⟨List.mem_cons_self, List.nil_subset _⟩
    · rw [hinputs.2.2.2.1, hnames.1, hnames.2.1, hnames.2.2.1]
      simp
    · simp at hinputs

theorem peopleFirst_walk : peopleFirst ≠ forkedTopology.nodes ∧
    (∃ out, ChainWalk.run { forkedTopology with nodes := peopleFirst } handingOn oneFrame = .ok out) ∧
    ∃ vs vs', ChainWalk.visits forkedTopology.edges handingOn oneFrame forkedTopology.nodes { last := oneFrame } = .ok vs ∧
      ChainWalk.visits forkedTopology.edges handingOn oneFrame peopleFirst { last := oneFrame } = .ok vs' ∧ vs'.Perm vs := by
  have hw := walkable forkedTopology_loaded
  have ho : ChainWalk.TopologicalOrder forkedTopology forkedTopology.nodes := ⟨List.Perm.refl _, hw.forward⟩
  have hrun : ∃ out, ChainWalk.run { forkedTopology with nodes := forkedTopology.nodes } handingOn oneFrame = .ok out := ⟨_, rfl⟩
  have hstart : handingOn.lateAtStart = false := rfl
  have h := @walk_order Unit Nat String _ _ _ _ _ _ oneFrame forkedTopology_loaded ho peopleFirst_order hstart fun _ => rfl
  obtain ⟨out, hout⟩ := hrun
  obtain ⟨vs, vs', hvs, hvs', hperm, -⟩ := h.2 out hout
  exact ⟨by decide, h.1.mp ⟨out, hout⟩, vs, vs', hvs, hvs', hperm⟩

end ShipInfer.Runners
