import ShipInfer.Runners.Walk
import ShipInfer.Topology.Soundness

/-!
# What the elements of a walk receive

Whatever a walk hands to an element over its inputs is what some element that
ran handed over an edge, past elements that were skipped. The loader has
negotiated the cap of that edge, and the element takes it.
-/

namespace ShipInfer.Runners

open Chain

namespace ChainWalk

variable {π ρ ν : Type}

theorem mem_contributors {n : ElementNode} {produced : Dict String (Option (ChainItem π ρ ν))} {p : String × ChainItem π ρ ν} :
    p ∈ contributors n produced ↔ p.1 ∈ n.inputs ∧ produced.get? p.1 = some (some p.2) := by
  unfold contributors
  rw [List.mem_filterMap]
  constructor
  · rintro ⟨name, hname, hsome⟩
    obtain ⟨x, hx, rfl⟩ := Option.map_eq_some_iff.mp hsome
    exact ⟨hname, Option.join_eq_some_iff.mp hx⟩
  · rintro ⟨hname, hget⟩
    exact ⟨p.1, hname, by rw [hget]; rfl⟩

theorem substituteDonor_spec {edges : List Edge} {n : ElementNode} {first donor : ChainItem π ρ ν}
    {contributors : List (String × ChainItem π ρ ν)} (h : substituteDonor edges n first contributors = .ok donor) :
    donor = first ∨ ∃ p ∈ contributors, p.2 = donor := by
  unfold substituteDonor at h
  split at h
  · exact .inl (Except.ok.inj h).symm
  · split at h
    · rename_i p hfind
      exact .inr ⟨p, List.mem_of_find?_eq_some hfind, Except.ok.inj h⟩
    · cases h

variable [DecidableEq ρ] {t : Topology} {env : WalkEnv π ρ ν} {item : ChainItem π ρ ν}

/-- The walk comes to the node in the state `s`, and what it receives is not nothing. -/
structure Reaches (t : Topology) (env : WalkEnv π ρ ν) (item : ChainItem π ρ ν) (n : ElementNode) (s : WalkState π ρ ν)
    (incoming : ChainItem π ρ ν) : Prop where
  before : ∃ pre post, t.nodes = pre ++ n :: post ∧ pre.foldlM (visit t.edges env item) { last := item } = .ok s
  receives : receives t.edges item s n = .ok (some incoming)

/-- The element runs and hands something on. -/
def HandsOn (t : Topology) (env : WalkEnv π ρ ν) (item : ChainItem π ρ ν) (producer : String) (result : ChainItem π ρ ν) : Prop :=
  ∃ n s incoming, Reaches t env item n s incoming ∧ n.admits env.str incoming.metadata = true ∧ n.name = producer ∧
    env.process n incoming = .ok (some result)

/-- Data handed over the edge `f`, as the node `v` receives it. -/
structure Carries (t : Topology) (env : WalkEnv π ρ ν) (item : ChainItem π ρ ν) (f : Edge) (v : String)
    (received : ChainItem π ρ ν) : Prop where
  edge : f ∈ t.edges
  passes : t.Passes f v
  handed : ∃ result, HandsOn t env item f.producer result ∧ received.caps = result.caps ∧ received.payload = result.payload

/-- What stands in the state came over some edge, whoever takes it from there. -/
def Delivered (t : Topology) (env : WalkEnv π ρ ν) (item : ChainItem π ρ ν) (s : WalkState π ρ ν) : Prop :=
  ∀ name x, s.produced.get? name = some (some x) → ∀ g ∈ t.edges, g.producer = name → ∃ f, Carries t env item f g.consumer x

/-- A node receives one contributor's caps and payload. -/
theorem inbound_spec {edges : List Edge} {n : ElementNode} {produced : Dict String (Option (ChainItem π ρ ν))}
    {incoming : ChainItem π ρ ν} (hdonor : ∀ donor, n.donor = some donor → donor ∈ n.inputs)
    (h : inbound edges n produced = .ok (some incoming)) :
    ∃ p ∈ contributors n produced, incoming.caps = p.2.caps ∧ incoming.payload = p.2.payload := by
  unfold inbound at h
  split at h
  · cases h
  · rename_i p rest hcontributors
    obtain ⟨donor, hd, h⟩ := bind_ok.mp h
    have hmem : ∃ q ∈ contributors n produced, q.2 = donor := by
      unfold donorOf at hd
      split at hd
      · rename_i x hx
        obtain rfl := Except.ok.inj hd
        obtain ⟨name, hname, hget⟩ := Option.bind_eq_some_iff.mp hx
        exact ⟨(name, x), mem_contributors.mpr ⟨hdonor name hname, Option.join_eq_some_iff.mp hget⟩, rfl⟩
      · rcases substituteDonor_spec hd with rfl | ⟨q, hq, rfl⟩
        · exact ⟨p, by simp [hcontributors], rfl⟩
        · exact ⟨q, by rw [hcontributors]; exact hq, rfl⟩
    obtain ⟨q, hq, rfl⟩ := hmem
    refine ⟨q, hq, ?_⟩
    split at h
    · cases h
      exact ⟨rfl, rfl⟩
    · obtain ⟨merged, -, h⟩ := bind_ok.mp h
      cases h
      exact ⟨rfl, rfl⟩

/-- What a node receives over its inputs came over some edge, and so did what it is given. -/
theorem Reaches.carried (hw : t.Walkable) {n : ElementNode} {s : WalkState π ρ ν} {incoming : ChainItem π ρ ν}
    (hr : Reaches t env item n s incoming) (hd : Delivered t env item s) :
    (∀ p ∈ contributors n s.produced, ∃ f, Carries t env item f n.name p.2) ∧
      (n.isRoot = false → ∃ f, Carries t env item f n.name incoming) := by
  obtain ⟨pre, post, hsplit, -⟩ := hr.before
  have hn : n ∈ t.nodes := by simp [hsplit]
  have hall : ∀ p ∈ contributors n s.produced, ∃ f, Carries t env item f n.name p.2 := by
    intro p hp
    obtain ⟨hinput, hget⟩ := mem_contributors.mp hp
    obtain ⟨g, hg, hproducer, hconsumer⟩ := hw.edges n hn p.1 hinput
    obtain ⟨f, hf⟩ := hd p.1 p.2 hget g hg hproducer
    exact ⟨f, hconsumer ▸ hf⟩
  refine ⟨hall, fun hroot => ?_⟩
  have hin : inbound t.edges n s.produced = .ok (some incoming) := by
    have hrec := hr.receives
    unfold ChainWalk.receives at hrec
    rwa [if_neg (by simp [hroot])] at hrec
  obtain ⟨p, hp, hcaps, hpayload⟩ := inbound_spec (hw.donors n hn) hin
  obtain ⟨f, hf⟩ := hall p hp
  obtain ⟨result, hands, hc, hpl⟩ := hf.handed
  exact ⟨f, hf.edge, hf.passes, result, hands, hcaps.trans hc, hpayload.trans hpl⟩

theorem Delivered.visit (hw : t.Walkable) {pre post : List ElementNode} {n : ElementNode} {s s' : WalkState π ρ ν}
    (hsplit : t.nodes = pre ++ n :: post) (hs : pre.foldlM (visit t.edges env item) { last := item } = .ok s)
    (hd : Delivered t env item s) (h : visit t.edges env item s n = .ok s') : Delivered t env item s' := by
  have hn : n ∈ t.nodes := by simp [hsplit]
  unfold ChainWalk.visit at h
  split at h
  · cases h
  · exact Except.ok.inj h ▸ hd
  · rename_i incoming hrec
    have hr : Reaches t env item n s incoming := ⟨⟨pre, post, hsplit, hs⟩, hrec⟩
    split at h
    · -- A node with a condition is no root, and what it is given passes it by.
      rename_i hskip
      obtain rfl := Except.ok.inj h
      have hcond : n.condition ≠ none := by
        intro hnone
        simp [ElementNode.admits, hnone] at hskip
      have hroot : n.isRoot = false := by
        cases hroot : n.isRoot with
        | true => exact absurd (hw.roots n hn hroot) hcond
        | false => rfl
      intro name x hget g hg hproducer
      rw [Dict.get?_set] at hget
      split at hget
      · rename_i heq
        obtain rfl := Option.some.inj (Option.some.inj hget)
        obtain ⟨f, hf⟩ := (hr.carried hw hd).2 hroot
        exact ⟨f, hf.edge, .skip hf.passes hn hcond hg (hproducer.trans heq), hf.handed⟩
      · exact hd name x hget g hg hproducer
    · rename_i hadmits
      split at h
      · cases h
      · split at h
        · cases h
        · rename_i result hprocess
          obtain rfl := Except.ok.inj h
          intro name x hget g hg hproducer
          rw [Dict.get?_set] at hget
          split at hget
          · rename_i heq
            obtain rfl := Option.some.inj hget
            have hands : HandsOn t env item g.producer x :=
              ⟨n, s, incoming, hr, by simpa using hadmits, (hproducer.trans heq).symm, hprocess⟩
            exact ⟨g, hg, .edge, x, hands, rfl, rfl⟩
          · exact hd name x hget g hg hproducer

theorem delivered_prefix (hw : t.Walkable) : ∀ (rest pre post : List ElementNode) {s s' : WalkState π ρ ν},
    t.nodes = pre ++ (rest ++ post) → pre.foldlM (visit t.edges env item) { last := item } = .ok s →
      Delivered t env item s → rest.foldlM (visit t.edges env item) s = .ok s' → Delivered t env item s'
  | [], _, _, _, _, _, _, hd, h => by
    cases h
    exact hd
  | n :: rest, pre, post, s, s', hsplit, hs, hd, h => by
    rw [List.foldlM_cons] at h
    obtain ⟨s₁, hone, hrest⟩ := bind_ok.mp h
    refine delivered_prefix hw rest (pre ++ [n]) post (by simp [hsplit]) ?_ (hd.visit hw hsplit hs hone) hrest
    rw [List.foldlM_append, hs]
    exact bind_ok.mpr ⟨s, rfl, bind_ok.mpr ⟨s₁, hone, rfl⟩⟩

theorem Reaches.delivered (hw : t.Walkable) {n : ElementNode} {s : WalkState π ρ ν} {incoming : ChainItem π ρ ν}
    (hr : Reaches t env item n s incoming) : Delivered t env item s := by
  obtain ⟨pre, post, hsplit, hs⟩ := hr.before
  exact delivered_prefix hw pre [] (n :: post) hsplit rfl (by intro name x hget; simp at hget) hs

end ChainWalk

/-- Each element that hands something on does so under the caps of its edges. -/
def ChainWalk.KeepsCaps {π ρ ν : Type} [DecidableEq ρ] (t : Topology) (env : WalkEnv π ρ ν) (item : ChainItem π ρ ν) : Prop :=
  ∀ f ∈ t.edges, ∀ result, HandsOn t env item f.producer result → result.caps = f.caps

/-- **The caps of a chain.** Every edge of an accepted chain has a concrete cap. The
cap of an edge is taken at the end of each path that starts with it and goes past
elements with a condition only. In every walk, what an element that runs receives
from each upstream, and what it is given, was handed over such an edge, so it takes
its cap. An element that leaves the location of its output open changes no location. -/
theorem caps_sound {spec : ChainSpec} {t : Topology} (h : Topology.fromSpec spec = .ok t) :
    (∀ e ∈ t.edges, e.caps.Concrete) ∧
    (∀ f ∈ t.edges, ∀ v, t.Passes f v → ∃ n ∈ t.nodes, n.name = v ∧ f.caps.TakenBy n.element.accepts) ∧
    (∀ (π ρ ν : Type) [DecidableEq ρ] (env : WalkEnv π ρ ν) (item incoming : ChainItem π ρ ν) (n : ElementNode)
      (s : WalkState π ρ ν), ChainWalk.Reaches t env item n s incoming → n.isRoot = false →
        ∀ received, received = incoming ∨ (∃ upstream, (upstream, received) ∈ ChainWalk.contributors n s.produced) →
          (∃ f, ChainWalk.Carries t env item f n.name received ∧ f.caps.TakenBy n.element.accepts) ∧
            (ChainWalk.KeepsCaps t env item → received.caps.TakenBy n.element.accepts)) ∧
    (∀ f ∈ t.edges, ∀ n ∈ t.nodes, t.Passes f n.name → (∀ cap ∈ n.element.produces, cap.location = .any) →
      ∀ g ∈ t.edges, g.producer = n.name → g.caps.location = f.caps.location) := by
  have hw := walkable h
  -- A path ends at the one node of its name.
  have hend {f : Edge} {n : ElementNode} (hn : n ∈ t.nodes) (hf : f ∈ t.edges) (hp : t.Passes f n.name) :
      f.caps.TakenBy n.element.accepts ∧ ((∀ cap ∈ n.element.produces, cap.location = .any) →
        ∀ g ∈ t.edges, g.producer = n.name → g.caps.location = f.caps.location) := by
    obtain ⟨m, hm, hname, htaken, hstays⟩ := passes_sound h hf hp
    obtain rfl := List.inj_on_of_nodup_map hw.names hm hn hname
    exact ⟨htaken, hstays⟩
  refine ⟨edges_concrete h, fun f hf v hp => ?_, fun π ρ ν _ env item incoming n s hr hroot received hreceived => ?_,
    fun f hf n hn hp => (hend hn hf hp).2⟩
  · obtain ⟨n, hn, hname, htaken, -⟩ := passes_sound h hf hp
    exact ⟨n, hn, hname, htaken⟩
  · obtain ⟨pre, post, hsplit, -⟩ := hr.before
    have hn : n ∈ t.nodes := by simp [hsplit]
    obtain ⟨hall, hgiven⟩ := hr.carried hw (hr.delivered hw)
    have hcarried : ∃ f, ChainWalk.Carries t env item f n.name received := by
      rcases hreceived with rfl | ⟨upstream, hmem⟩
      · exact hgiven hroot
      · exact hall _ hmem
    obtain ⟨f, hf⟩ := hcarried
    have htaken := (hend hn hf.edge hf.passes).1
    refine ⟨⟨f, hf, htaken⟩, fun hkeeps => ?_⟩
    obtain ⟨result, hands, hcaps, -⟩ := hf.handed
    rw [hcaps, hkeeps f hf.edge result hands]
    exact htaken

/-- A decoder in device memory, an element, and an output that takes anything. -/
def through (middle : Element) (condition : Option Condition) : ChainSpec where
  elements := ⟨[
    ("decode", { kind := .decode, element := { impl := "replay", produces := [⟨.only ⟨"nv12", by decide⟩, .only .gpu⟩] } }),
    ("middle", { kind := .detect, element := middle, condition := condition }),
    ("output", { kind := .output, element := { impl := "log", accepts := [⟨.any, .any⟩] } })], by simp⟩

def tee : Element := { impl := "tee", accepts := [⟨.any, .any⟩], produces := [⟨.any, .any⟩] }

/-- A wildcard in the format only. -/
def download : Element := { impl := "download", accepts := [⟨.any, .only .gpu⟩], produces := [⟨.any, .only .cpu⟩] }

/-- An element that may be skipped: its edges, and what reaches the output past it. -/
theorem tee_sound : ∃ t, Topology.fromSpec (through tee (some ⟨"class", .eq, "ship"⟩)) = .ok t ∧ t.edges.length = 2 ∧
    (∀ e ∈ t.edges, e.caps.Concrete) ∧
    (∀ f ∈ t.edges, ∀ v, t.Passes f v → ∃ n ∈ t.nodes, n.name = v ∧ f.caps.TakenBy n.element.accepts) := by
  have hsound := @caps_sound (through tee (some ⟨"class", .eq, "ship"⟩)) _ rfl
  exact ⟨_, rfl, rfl, hsound.1, hsound.2.1⟩

/-- An element that leaves only the format open may change the location. -/
theorem download_moves : ¬∀ (spec : ChainSpec) (t : Topology), Topology.fromSpec spec = .ok t →
    ∀ f ∈ t.edges, ∀ n ∈ t.nodes, t.Passes f n.name → (∀ cap ∈ n.element.produces, cap.isWildcard = true) →
      ∀ g ∈ t.edges, g.producer = n.name → g.caps.location = f.caps.location := by
  intro hall
  have hmoves := hall (through download none) _ rfl ⟨"decode", "middle", ⟨.only ⟨"nv12", by decide⟩, .only .gpu⟩⟩ (by decide)
    _ (List.mem_cons_of_mem _ List.mem_cons_self) .edge (by decide)
    ⟨"middle", "output", ⟨.only ⟨"nv12", by decide⟩, .only .cpu⟩⟩ (by decide) rfl
  cases hmoves

end ShipInfer.Runners
