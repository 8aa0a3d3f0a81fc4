import ShipInfer.Runners.Service

/-!
# When a shard reports what it runs

Only an accepted `UpdateTopology` starts a runner, and it records its own
request. The runner it starts was built with that request, unless a runner was
kept: over a stop, or built and then refused for its name.
-/

namespace ShipInfer.Runners.ShardService

variable {cfg : ServiceConfig} {s : ShardService}

/-- While its runner runs, what is recorded is what the runner was built with. -/
def Reports (s : ShardService) : Prop :=
  ∀ r, s.runner = some r → r.running = true →
    s.chainYaml = r.builtWith.chainYaml ∧ s.sharedBy = r.builtWith.sharedBy ∧ s.shareRank = r.builtWith.shareRank

/-- An install that would start a kept runner carries what that runner was built with. -/
def Renews (cfg : ServiceConfig) (s : ShardService) : ServiceCall → Prop
  | .updateTopology request _ start =>
    ∀ r ∈ s.runner, r.running = false → start = .ok () → ∀ name, cfg.fromYaml request.chainYaml = .ok name →
      ¬misnamed name r.topology → request = r.builtWith
  | _ => True

theorem Reports.of_runner {s' : ShardService} (h : s.Reports)
    (hr : ∀ r', s'.runner = some r' → r'.running = true →
      ∃ r, s.runner = some r ∧ r.running = true ∧ r'.builtWith = r.builtWith)
    (hc : s'.chainYaml = s.chainYaml) (hb : s'.sharedBy = s.sharedBy) (hk : s'.shareRank = s.shareRank) : s'.Reports := by
  intro r' hr' hrun'
  obtain ⟨r, hrr, hrun, hbuilt⟩ := hr r' hr' hrun'
  rw [hc, hb, hk, hbuilt]
  exact h r hrr hrun

theorem Reports.of_idle (h : ∀ r, s.runner = some r → r.running = false) : s.Reports := by
  intro r hr hrun
  simp [h r hr] at hrun

/-- An install reports rightly just when the runner it starts was built with the request. -/
theorem reports_install {request : TopologyRequest} {name : String} {r : Runner} {builtHere : Bool}
    {start : Except String Unit} (hidle : r.running = false) :
    (s.install request name r builtHere start).1.Reports ↔
      (start = .ok () → ¬misnamed name r.topology → request = r.builtWith) := by
  unfold install
  split
  · rename_i hname
    refine ⟨fun _ _ hfits => absurd hname hfits, fun _ => .of_idle fun r' hr' => ?_⟩
    rw [← Option.some.inj hr', hidle]
  · rename_i hname
    cases start with
    | error e =>
      simp only [Runner.start, hidle, Bool.false_eq_true, if_false, reduceCtorEq, false_implies, iff_true]
      refine .of_idle fun r' hr' => ?_
      cases builtHere with
      | true => simp at hr'
      | false => rw [← Option.some.inj hr', hidle]
    | ok u =>
      simp only [Runner.start, hidle, Bool.false_eq_true, if_false, Reports]
      constructor
      · intro h _ _
        obtain ⟨hc, hb, hk⟩ := h _ rfl rfl
        cases request
        simp_all
      · intro h r' hr' _
        obtain rfl := Option.some.inj hr'
        simp [h trivial hname]

theorem reports_updateTopology (h : s.Reports) (request : TopologyRequest) (build : Except String String)
    (start : Except String Unit) :
    (s.updateTopology cfg request build start).1.Reports ↔ Renews cfg s (.updateTopology request build start) := by
  simp only [Renews]
  unfold updateTopology
  split
  · rename_i e hyaml
    exact ⟨fun _ r _ _ _ name hname => by simp [hname] at hyaml, fun _ => h⟩
  · rename_i name hyaml
    split
    · rename_i r hr
      split
      · rename_i hrun
        exact ⟨fun _ r' hr' hidle => by simp_all, fun _ => h⟩
      · rename_i hidle
        rw [reports_install (by simpa using hidle)]
        constructor
        · intro hstart r' hr' _ hok name' hname' hfits
          obtain rfl : r = r' := Option.some.inj (hr.symm.trans hr')
          obtain rfl : name = name' := Except.ok.inj (hyaml.symm.trans hname')
          exact hstart hok hfits
        · intro hrenews hok hfits
          exact hrenews r hr (by simpa using hidle) hok name hyaml hfits
    · rename_i hnone
      have hvacuous : ∀ r ∈ s.runner, r.running = false → start = .ok () → ∀ name,
          cfg.fromYaml request.chainYaml = .ok name → ¬misnamed name r.topology → request = r.builtWith := by
        intro r hr
        simp [hnone] at hr
      refine ⟨fun _ => hvacuous, fun _ => ?_⟩
      split
      · exact h
      · exact (reports_install rfl).mpr fun _ _ => rfl

theorem Reports.addCamera (h : s.Reports) (camera : Except String String) (answer : Except String Unit) :
    (s.addCamera camera answer).1.Reports := by
  unfold ShardService.addCamera
  split
  · exact h
  · split
    · exact h
    · exact h
    · rename_i r _ hr
      split
      · exact h
      · rename_i r' hadd
        refine h.of_runner (fun r'' hr'' hrun => ⟨r, hr, ?_⟩) rfl rfl rfl
        obtain rfl : r' = r'' := Option.some.inj hr''
        unfold Runner.addCamera at hadd
        split at hadd
        · cases hadd
        · split at hadd
          · cases hadd
          · split at hadd
            · cases hadd
            · split at hadd
              · cases hadd
              · cases hadd
                exact ⟨hrun, rfl⟩

theorem drain_keeps (r : Runner) (answer : DrainAnswer) :
    (r.drain answer).1.running = r.running ∧ (r.drain answer).1.builtWith = r.builtWith := by
  unfold Runner.drain
  split
  · exact ⟨rfl, rfl⟩
  · split
    · exact ⟨rfl, rfl⟩
    · split <;> exact ⟨rfl, rfl⟩

theorem removeCamera_keeps (r : Runner) (cameraId : String) (answer : Except String Bool) :
    (r.removeCamera cameraId answer).1.running = r.running ∧
      (r.removeCamera cameraId answer).1.builtWith = r.builtWith := by
  unfold Runner.removeCamera
  split
  · exact ⟨rfl, rfl⟩
  · split <;> exact ⟨rfl, rfl⟩

theorem Reports.removeCamera (h : s.Reports) (cameraId : String) (answer : Except String Bool) :
    (s.removeCamera cameraId answer).1.Reports := by
  unfold ShardService.removeCamera
  split
  · exact h
  · rename_i r hr
    refine h.of_runner (fun r' hr' hrun => ⟨r, hr, ?_⟩) rfl rfl rfl
    obtain rfl := Option.some.inj hr'
    obtain ⟨hrunning, hbuilt⟩ := removeCamera_keeps r cameraId answer
    exact ⟨hrunning ▸ hrun, hbuilt⟩

theorem Reports.drainRunner (h : s.Reports) (answer : DrainAnswer) : (s.drainRunner answer).1.Reports := by
  unfold ShardService.drainRunner
  split
  · exact h
  · rename_i r hr
    refine h.of_runner (fun r' hr' hrun => ⟨r, hr, ?_⟩) rfl rfl rfl
    obtain rfl := Option.some.inj hr'
    obtain ⟨hrunning, hbuilt⟩ := drain_keeps r answer
    exact ⟨hrunning ▸ hrun, hbuilt⟩

theorem Reports.stop (h : s.Reports) (answer : DrainAnswer) (raises : Option String) :
    (s.stop answer raises).1.Reports := by
  unfold ShardService.stop
  split
  · exact h
  · refine .of_idle fun r hr => ?_
    obtain ⟨r', -, rfl⟩ := Option.map_eq_some_iff.mp hr
    unfold Runner.stop
    split
    · rfl
    · rename_i hidle
      simpa using hidle

/-- One call keeps the report right just when it renews. -/
theorem reports_step (h : s.Reports) (c : ServiceCall) : (s.step cfg c).1.Reports ↔ Renews cfg s c := by
  cases c with
  | updateTopology request build start => exact reports_updateTopology h request build start
  | addCamera camera answer => exact iff_of_true (h.addCamera camera answer) trivial
  | removeCamera cameraId answer => exact iff_of_true (h.removeCamera cameraId answer) trivial
  | drain answer => exact iff_of_true (h.drainRunner answer) trivial
  | stop answer raises => exact iff_of_true (h.stop answer raises) trivial

theorem reports_empty : Reports {} := by
  intro r hr
  cases hr

/-- A shard reports what it runs after every call of a run just when each call
of it renews. -/
theorem reports_iff (cfg : ServiceConfig) (calls : List ServiceCall) :
    (∀ served, served <+: calls → (run cfg served).1.Reports) ↔ Machine.Along (step cfg) (Renews cfg) {} calls := by
  have hstep : ∀ s c, Reports s → (Reports (step cfg s c).1 ↔ Renews cfg s c) := fun _ c h => reports_step h c
  exact Machine.along_iff hstep calls reports_empty

/-- Every text loads as the chain `ship`. -/
def shipChain : ServiceConfig := ⟨fun _ => .ok "ship"⟩

/-- Installed for two shards a device, stopped, and installed again for four. -/
def reinstalled : List ServiceCall :=
  [.updateTopology ⟨"a", [2], [0]⟩ (.ok "ship") (.ok ()), .stop (.released 0) none,
    .updateTopology ⟨"b", [4], [3]⟩ (.error "not asked") (.ok ())]

/-- The runner built for two runs on, under the report of four. -/
theorem reinstalled_misreports :
    (run shipChain reinstalled).2 = [.accepted, .stopped 0 "", .accepted] ∧
    (run shipChain reinstalled).1.sharedBy = [4] ∧
    (run shipChain reinstalled).1.runner.map (fun r => (r.running, r.builtWith)) = some (true, ⟨"a", [2], [0]⟩) ∧
    ¬(run shipChain reinstalled).1.Reports := by
  refine ⟨by decide, by decide, by decide, fun h => ?_⟩
  have := h { topology := "ship", builtWith := ⟨"a", [2], [0]⟩, running := true } (by decide) rfl
  exact absurd this.1 (by decide)

end ShipInfer.Runners.ShardService
