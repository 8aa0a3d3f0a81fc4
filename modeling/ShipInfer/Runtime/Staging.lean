import ShipInfer.Core.Tensor
import ShipInfer.Lib.Numerals

/-!
# Staging pools and their owners

`MemoryPool.staging_for` of `runtime/memory/pool.py`, and the texts its callers name
themselves with: `BackendContext.instance_name` of `backends/base.py` and
`staging_owner` of `runtime/ops/thread_local.py`.
-/

namespace ShipInfer.Runtime

/-! ## The pool -/

/-- The staging pools by owner; a pool is known by its number. -/
structure MemoryPool where
  stagingPools : Dict String Nat := .empty
  created : Nat := 0

namespace MemoryPool

/-- `staging_for` -/
def stagingFor (m : MemoryPool) (owner : String) : Nat × MemoryPool :=
  match m.stagingPools.get? owner with
  | some pool => (pool, m)
  | none => (m.created, { stagingPools := m.stagingPools.set owner m.created, created := m.created + 1 })

/-- The pools a list of callers gets, one after another. -/
def claim : MemoryPool → List String → List Nat
  | _, [] => []
  | m, owner :: owners => (m.stagingFor owner).1 :: claim (m.stagingFor owner).2 owners

/-- Owners have a pool of their own, one that was created. -/
structure Separate (m : MemoryPool) : Prop where
  injective : ∀ o o' p, m.stagingPools.get? o = some p → m.stagingPools.get? o' = some p → o = o'
  bounded : ∀ o p, m.stagingPools.get? o = some p → p < m.created

theorem separate_empty : Separate {} :=
  ⟨fun _ _ _ h => (nomatch h), fun _ _ h => (nomatch h)⟩

theorem stagingFor_spec {m : MemoryPool} (hm : m.Separate) (owner : String) :
    (m.stagingFor owner).2.Separate ∧ (m.stagingFor owner).2.stagingPools.get? owner = some (m.stagingFor owner).1 ∧
      ∀ o p, m.stagingPools.get? o = some p → (m.stagingFor owner).2.stagingPools.get? o = some p := by
  cases hget : m.stagingPools.get? owner with
  | some pool =>
    have heq : m.stagingFor owner = (pool, m) := by simp [stagingFor, hget]
    rw [heq]
    exact ⟨hm, hget, fun _ _ h => h⟩
  | none =>
    have heq : m.stagingFor owner =
        (m.created, { stagingPools := m.stagingPools.set owner m.created, created := m.created + 1 }) := by
      simp [stagingFor, hget]
    rw [heq]
    have hset : ∀ o, (m.stagingPools.set owner m.created).get? o =
        if o = owner then some m.created else m.stagingPools.get? o := Dict.get?_set _ _ _
    refine ⟨⟨?_, ?_⟩, ?_, ?_⟩
    · intro o o' p ho ho'
      simp only [hset] at ho ho'
      by_cases h : o = owner <;> by_cases h' : o' = owner
      · rw [h, h']
      · rw [if_pos h, Option.some.injEq] at ho
        rw [if_neg h'] at ho'
        exact absurd (hm.bounded o' p ho') (by omega)
      · rw [if_neg h] at ho
        rw [if_pos h', Option.some.injEq] at ho'
        exact absurd (hm.bounded o p ho) (by omega)
      · rw [if_neg h] at ho
        rw [if_neg h'] at ho'
        exact hm.injective o o' p ho ho'
    · intro o p ho
      simp only [hset] at ho
      by_cases h : o = owner
      · rw [if_pos h, Option.some.injEq] at ho
        show p < m.created + 1
        omega
      · rw [if_neg h] at ho
        exact (hm.bounded o p ho).trans (Nat.lt_succ_self _)
    · simp [hset]
    · intro o p ho
      have hne : o ≠ owner := by
        intro h
        rw [h, hget] at ho
        cases ho
      simp [hset, hne, ho]

/-- What a list of callers gets is read off one injective table. -/
theorem claim_eq_map : ∀ (owners : List String) {m : MemoryPool}, m.Separate → ∃ f : String → Nat,
    (∀ o p, m.stagingPools.get? o = some p → f o = p) ∧
      (∀ o o', (o ∈ owners ∨ o ∈ m.stagingPools.keys) → (o' ∈ owners ∨ o' ∈ m.stagingPools.keys) → f o = f o' → o = o') ∧
      m.claim owners = owners.map f
  | [], m, hm => by
    refine ⟨fun o => (m.stagingPools.get? o).getD 0, fun o p h => by simp [h], ?_, rfl⟩
    intro o o' ho ho' hf
    obtain ⟨p, hp⟩ := Option.isSome_iff_exists.mp (Dict.contains_iff.mpr (ho.resolve_left List.not_mem_nil))
    obtain ⟨p', hp'⟩ := Option.isSome_iff_exists.mp (Dict.contains_iff.mpr (ho'.resolve_left List.not_mem_nil))
    simp only [hp, hp', Option.getD_some] at hf
    exact hm.injective o o' p hp (hf ▸ hp')
  | owner :: owners, m, hm => by
    obtain ⟨hm', hown, hkeep⟩ := stagingFor_spec hm owner
    obtain ⟨f, hf, hinj, hclaim⟩ := claim_eq_map owners hm'
    have hmem : ∀ o, o ∈ owner :: owners ∨ o ∈ m.stagingPools.keys →
        o ∈ owners ∨ o ∈ (m.stagingFor owner).2.stagingPools.keys := by
      intro o ho
      have hkey : ∀ q p, (m.stagingFor owner).2.stagingPools.get? q = some p →
          q ∈ (m.stagingFor owner).2.stagingPools.keys := by
        intro q p hq
        exact Dict.contains_iff.mp (by simp [Dict.contains, hq])
      rcases ho with ho | ho
      · rcases List.mem_cons.mp ho with rfl | ho
        · exact .inr (hkey _ _ hown)
        · exact .inl ho
      · obtain ⟨p, hp⟩ := Option.isSome_iff_exists.mp (Dict.contains_iff.mpr ho)
        exact .inr (hkey _ _ (hkeep o p hp))
    refine ⟨f, fun o p h => hf o p (hkeep o p h), fun o o' ho ho' => hinj o o' (hmem o ho) (hmem o' ho'), ?_⟩
    simp only [claim, hclaim, List.map_cons, hf owner _ hown]

/-- Pools differ just as the owners do. -/
theorem claim_nodup_iff (owners : List String) : (({} : MemoryPool).claim owners).Nodup ↔ owners.Nodup := by
  obtain ⟨f, -, hinj, hclaim⟩ := claim_eq_map owners separate_empty
  rw [hclaim]
  refine ⟨List.Nodup.of_map f, fun h => (List.nodup_map_iff_inj_on h).mpr ?_⟩
  intro o ho o' ho' hf
  exact hinj o o' (.inl ho) (.inl ho') hf

end MemoryPool

/-! ## Owners -/

/-- `str(device)` -/
def deviceText (device : Device) : String :=
  match device.kind with
  | .cpu => "cpu"
  | .cuda => "cuda:" ++ toString device.index

def hex (n : Nat) : String := String.ofList (Nat.toDigits 16 n)

/-- Who asks for a pool: a loaded copy of a model, or the image ops of a thread. -/
inductive Claimant
  | instance (name : String) (version : Int) (device : Device)
  | thread (name : String) (ident : Nat) (device : Int)
  deriving DecidableEq

def Claimant.isInstance : Claimant → Bool
  | .instance _ _ _ => true
  | .thread _ _ _ => false

/-- `instance_name` and `staging_owner` -/
def Claimant.owner : Claimant → String
  | .instance name version device => name ++ ":" ++ toString version ++ "@" ++ deviceText device
  | .thread name ident device => "ops:" ++ name ++ "#" ++ hex ident ++ ":cuda:" ++ toString device

section
variable {c : Char}

theorem mem_intText {i : Int} (hc : c ∈ (toString i).toList) : c = '-' ∨ ∃ d < 16, c = Nat.digitChar d := by
  cases i with
  | ofNat n => exact .inr (mem_natText hc)
  | negSucc n =>
    have htext : (toString (Int.negSucc n)).toList = '-' :: (toString (n + 1)).toList := by
      show ("-" ++ toString (n + 1)).toList = _
      rw [String.toList_append]
      rfl
    rw [htext] at hc
    rcases List.mem_cons.mp hc with hc | hc
    · exact .inl hc
    · exact .inr (mem_natText hc)

theorem digitChar_ne : ∀ d < 16, Nat.digitChar d ≠ '-' ∧ Nat.digitChar d ≠ ':' ∧ Nat.digitChar d ≠ '@' ∧
    Nat.digitChar d ≠ '#' := by decide

theorem intText_plain {i : Int} : ':' ∉ (toString i).toList ∧ '@' ∉ (toString i).toList := by
  constructor
  · intro hc
    rcases mem_intText hc with h | ⟨d, hd, h⟩
    · exact absurd h (by decide)
    · exact (digitChar_ne d hd).2.1 h.symm
  · intro hc
    rcases mem_intText hc with h | ⟨d, hd, h⟩
    · exact absurd h (by decide)
    · exact (digitChar_ne d hd).2.2.1 h.symm

end

theorem natText_not_neg (m n : Nat) : (toString m).toList ≠ ("-" ++ toString n).toList := by
  intro h
  have hmem : '-' ∈ (toString m).toList := by
    rw [h, String.toList_append]
    exact List.mem_append_left _ (by decide)
  rw [Nat.toString_eq_repr, Nat.toList_repr] at hmem
  obtain ⟨d, hd, hc⟩ := mem_toDigits (by decide) (by decide) hmem
  exact (digitChar_ne d hd).1 hc.symm

theorem intText_inj {i j : Int} (h : (toString i).toList = (toString j).toList) : i = j := by
  cases i with
  | ofNat m =>
    cases j with
    | ofNat n => exact congrArg Int.ofNat (natText_inj h)
    | negSucc n => exact absurd h (natText_not_neg m (n + 1))
  | negSucc m =>
    cases j with
    | ofNat n => exact absurd h.symm (natText_not_neg n (m + 1))
    | negSucc n =>
      have hrest : ("-" ++ toString (m + 1)).toList = ("-" ++ toString (n + 1)).toList := h
      rw [String.toList_append, String.toList_append, List.append_cancel_left_eq] at hrest
      have hsucc := natText_inj hrest
      rw [Nat.succ_inj.mp hsucc]

/-! ### An owner names one claimant -/

theorem deviceText_cpu {device : Device} (h : device.kind = .cpu) : deviceText device = "cpu" := by
  simp only [deviceText, h]

theorem deviceText_cuda {device : Device} (h : device.kind = .cuda) :
    (deviceText device).toList = "cuda".toList ++ ':' :: (toString device.index).toList := by
  simp only [deviceText, h, String.toList_append]
  rfl

theorem at_not_mem_deviceText (device : Device) : '@' ∉ (deviceText device).toList := by
  cases hk : device.kind with
  | cpu =>
    rw [deviceText_cpu hk]
    decide
  | cuda =>
    rw [deviceText_cuda hk]
    intro h
    rcases List.mem_append.mp h with h | h
    · exact absurd h (by decide)
    · rcases List.mem_cons.mp h with h | h
      · exact absurd h (by decide)
      · exact intText_plain.2 h

/-- `Device.cpu` has index 0. -/
def Plain (device : Device) : Prop := device.kind = .cpu → device.index = 0

theorem deviceText_inj {device device' : Device} (hd : Plain device) (hd' : Plain device')
    (h : (deviceText device).toList = (deviceText device').toList) : device = device' := by
  cases hk : device.kind with
  | cpu =>
    cases hk' : device'.kind with
    | cpu =>
      have hindex := (hd hk).trans (hd' hk').symm
      cases device
      cases device'
      simp_all
    | cuda =>
      rw [deviceText_cpu hk, deviceText_cuda hk'] at h
      have hmem : ':' ∈ "cpu".toList := by rw [h]; simp
      exact absurd hmem (by decide)
  | cuda =>
    cases hk' : device'.kind with
    | cpu =>
      rw [deviceText_cuda hk, deviceText_cpu hk'] at h
      have hmem : ':' ∈ "cpu".toList := by rw [← h]; simp
      exact absurd hmem (by decide)
    | cuda =>
      rw [deviceText_cuda hk, deviceText_cuda hk'] at h
      have hindex := intText_inj (List.cons.inj (List.append_cancel_left h)).2
      cases device
      cases device'
      simp_all

theorem instance_owner_toList (name : String) (version : Int) (device : Device) :
    (Claimant.instance name version device).owner.toList =
      (name.toList ++ ':' :: (toString version).toList) ++ '@' :: (deviceText device).toList := by
  simp [Claimant.owner, String.toList_append]

theorem thread_owner_toList (name : String) (ident : Nat) (device : Int) :
    (Claimant.thread name ident device).owner.toList =
      (("ops:".toList ++ name.toList ++ '#' :: Nat.toDigits 16 ident) ++ ":cuda".toList) ++
        ':' :: (toString device).toList := by
  simp [Claimant.owner, String.toList_append, hex]

theorem instance_owner_ne_thread {name name' : String} {version : Int} {device : Device} {ident : Nat} {gpu : Int} :
    (Claimant.instance name version device).owner ≠ (Claimant.thread name' ident gpu).owner := by
  intro h
  have htext := congrArg String.toList h
  rw [instance_owner_toList, thread_owner_toList] at htext
  cases hk : device.kind with
  | cpu =>
    -- what follows the last colon of the one holds an `@`
    rw [deviceText_cpu hk, List.append_assoc, List.cons_append] at htext
    have hcolon : ':' ∉ (toString version).toList ++ '@' :: "cpu".toList := by
      intro hmem
      rcases List.mem_append.mp hmem with hmem | hmem
      · exact intText_plain.1 hmem
      · exact absurd hmem (by decide)
    have htail := (split_at_last hcolon intText_plain.1 htext).2
    have hat : '@' ∈ (toString gpu).toList := by rw [← htail]; simp
    exact intText_plain.2 hat
  | cuda =>
    rw [deviceText_cuda hk, ← List.cons_append, ← List.append_assoc] at htext
    have hfront := (split_at_last intText_plain.1 intText_plain.1 htext).1
    have hword := (List.append_inj' hfront rfl).2
    exact absurd hword (by decide)

theorem instance_owner_inj {name name' : String} {version version' : Int} {device device' : Device}
    (hd : Plain device) (hd' : Plain device')
    (h : (Claimant.instance name version device).owner = (Claimant.instance name' version' device').owner) :
    name = name' ∧ version = version' ∧ device = device' := by
  have htext := congrArg String.toList h
  rw [instance_owner_toList, instance_owner_toList] at htext
  obtain ⟨hmodel, hdevice⟩ := split_at_last (at_not_mem_deviceText _) (at_not_mem_deviceText _) htext
  obtain ⟨hname, hversion⟩ := split_at_last intText_plain.1 intText_plain.1 hmodel
  exact ⟨String.toList_inj.mp hname, intText_inj hversion, deviceText_inj hd hd' hdevice⟩

theorem thread_owner_inj {name name' : String} {ident ident' : Nat} {gpu gpu' : Int}
    (h : (Claimant.thread name ident gpu).owner = (Claimant.thread name' ident' gpu').owner) : ident = ident' := by
  have htext := congrArg String.toList h
  rw [thread_owner_toList, thread_owner_toList] at htext
  have hfront := (split_at_last intText_plain.1 intText_plain.1 htext).1
  have hname := (List.append_inj' hfront rfl).1
  have hhash : ∀ n, '#' ∉ Nat.toDigits 16 n := by
    intro n hmem
    obtain ⟨d, hd, hc⟩ := mem_toDigits (by decide) (by decide) hmem
    exact (digitChar_ne d hd).2.2.2 hc.symm
  exact toDigits_inj (by decide) (by decide) (split_at_last (hhash _) (hhash _) hname).2

/-! ## Placements -/

inductive InstanceKind
  | auto
  | gpu
  | cpu
  deriving DecidableEq

structure InstanceGroup where
  kind : InstanceKind
  count : Nat
  gpus : List Nat
  count_pos : 1 ≤ count
  cpu_names_no_gpus : kind = .cpu → gpus = []

inductive PlacementError
  | noGpu
  | notVisible (missing : List Nat)
  | noShare (gpu sharing rank : Nat)
  | noInstances
  deriving DecidableEq

def cuda (gpu : Nat) : Device := { kind := .cuda, index := gpu }

/-- The copies on one device: this process's share of `count`. -/
def InstanceGroup.share (group : InstanceGroup) (sharedBy shareRank : Nat → Option Nat) (gpu : Nat) :
    Except PlacementError (List Device) :=
  let sharing := (sharedBy gpu).getD 1
  let rank := (shareRank gpu).getD 0
  let share := group.count / sharing + if rank < group.count % sharing then 1 else 0
  if share < 1 then .error (.noShare gpu sharing rank) else .ok (List.replicate share (cuda gpu))

/-- `InstanceGroup.expand` -/
def InstanceGroup.expand (group : InstanceGroup) (visible : List Nat) (sharedBy shareRank : Nat → Option Nat) :
    Except PlacementError (List Device) :=
  let kind := if group.kind = .auto then (if visible = [] then InstanceKind.cpu else .gpu) else group.kind
  if kind = .cpu then .ok (List.replicate group.count {})
  else
    let targets := if group.gpus = [] then visible else group.gpus
    let missing := (targets.filter fun gpu => !visible.contains gpu).dedup
    if targets = [] then .error .noGpu
    else if missing ≠ [] then .error (.notVisible missing.mergeSort)
    else (targets.mapM fun gpu => group.share sharedBy shareRank gpu).map List.flatten

/-- `ModelConfig.placements`: the devices of a model's copies, in order. -/
def placements (groups : List InstanceGroup) (visible : List Nat) (sharedBy shareRank : Nat → Option Nat) :
    Except PlacementError (List Device) := do
  let out ← groups.mapM fun group => group.expand visible sharedBy shareRank
  if out.flatten = [] then .error .noInstances else .ok out.flatten

section
variable {visible : List Nat} {sharedBy shareRank : Nat → Option Nat} {devices : List Device} {device : Device}

theorem cuda_plain (gpu : Nat) : Plain (cuda gpu) := fun h => DeviceKind.noConfusion h

theorem InstanceGroup.mem_share {group : InstanceGroup} {gpu : Nat}
    (h : group.share sharedBy shareRank gpu = .ok devices) (hmem : device ∈ devices) : device = cuda gpu := by
  simp only [InstanceGroup.share] at h
  by_cases hshare : group.count / (sharedBy gpu).getD 1 +
      (if (shareRank gpu).getD 0 < group.count % (sharedBy gpu).getD 1 then 1 else 0) < 1
  · rw [if_pos hshare] at h
    cases h
  · rw [if_neg hshare, Except.ok.injEq] at h
    rw [← h] at hmem
    exact List.eq_of_mem_replicate hmem

theorem InstanceGroup.expand_plain {group : InstanceGroup} (h : group.expand visible sharedBy shareRank = .ok devices)
    (hmem : device ∈ devices) : Plain device := by
  simp only [InstanceGroup.expand] at h
  generalize hkind : (if group.kind = .auto then (if visible = [] then InstanceKind.cpu else .gpu) else group.kind) =
    kind at h
  by_cases hcpu : kind = .cpu
  · rw [if_pos hcpu, Except.ok.injEq] at h
    rw [← h] at hmem
    rw [List.eq_of_mem_replicate hmem]
    exact fun _ => rfl
  · rw [if_neg hcpu] at h
    generalize (if group.gpus = [] then visible else group.gpus) = targets at h
    by_cases hnone : targets = []
    · rw [if_pos hnone] at h
      cases h
    · rw [if_neg hnone] at h
      split at h
      · cases h
      · cases hm : targets.mapM fun gpu => group.share sharedBy shareRank gpu with
        | error e => simp [hm, Except.map] at h
        | ok lists =>
          simp only [hm, Except.map, Except.ok.injEq] at h
          rw [← h] at hmem
          obtain ⟨list, hlist, hdev⟩ := List.mem_flatten.mp hmem
          obtain ⟨gpu, -, hgpu⟩ := exists_of_mem_mapM hm hlist
          rw [InstanceGroup.mem_share hgpu hdev]
          exact cuda_plain gpu

theorem placements_plain {groups : List InstanceGroup} (h : placements groups visible sharedBy shareRank = .ok devices)
    (hmem : device ∈ devices) : Plain device := by
  unfold placements at h
  obtain ⟨out, hout, hrest⟩ := bind_ok.mp h
  by_cases hnone : out.flatten = []
  · rw [if_pos hnone] at hrest
    cases hrest
  · rw [if_neg hnone, Except.ok.injEq] at hrest
    rw [← hrest] at hmem
    obtain ⟨list, hlist, hdev⟩ := List.mem_flatten.mp hmem
    obtain ⟨group, -, hgroup⟩ := exists_of_mem_mapM hout hlist
    exact InstanceGroup.expand_plain hgroup hdev

end

/-! ## Who claims a pool -/

/-- The settings a process places its models with. -/
structure Host where
  visible : List Nat
  sharedBy : Nat → Option Nat := fun _ => none
  shareRank : Nat → Option Nat := fun _ => none

/-- A model served on a host, with the copies its instance groups make. -/
structure Served (host : Host) where
  name : String
  version : Int
  groups : List InstanceGroup
  devices : List Device
  placed : placements groups host.visible host.sharedBy host.shareRank = .ok devices

structure Copy where
  name : String
  version : Int
  device : Device
  deriving DecidableEq

/-- A live thread that holds staged image ops. -/
structure OpsThread where
  name : String
  ident : Nat
  device : Int
  deriving DecidableEq

variable {host : Host}

/-- `Model._build_instances`, as far as it names the copies -/
def Served.copies (m : Served host) : List Copy := m.devices.map fun device => ⟨m.name, m.version, device⟩

def Copy.claimant (c : Copy) : Claimant := .instance c.name c.version c.device

def OpsThread.claimant (t : OpsThread) : Claimant := .thread t.name t.ident t.device

/-- The instances of all models and the threads, as claimants of pools. -/
def claimants (models : List (Served host)) (threads : List OpsThread) : List Claimant :=
  (models.flatMap Served.copies).map Copy.claimant ++ threads.map OpsThread.claimant

/-- The pools of the claimants, in the order they claim. -/
def pools (claims : List Claimant) : List Nat := ({} : MemoryPool).claim (claims.map Claimant.owner)

theorem owner_inj {models : List (Served host)} {threads : List OpsThread} (hids : (threads.map OpsThread.ident).Nodup) :
    ∀ c ∈ claimants models threads, ∀ c' ∈ claimants models threads, c.owner = c'.owner → c = c' := by
  have hplain : ∀ c ∈ models.flatMap Served.copies, Plain c.device := by
    intro c hc
    obtain ⟨m, -, hm⟩ := List.mem_flatMap.mp hc
    obtain ⟨device, hdevice, rfl⟩ := List.mem_map.mp hm
    exact placements_plain m.placed hdevice
  intro c hc c' hc' h
  rcases List.mem_append.mp hc with hc | hc <;> rcases List.mem_append.mp hc' with hc' | hc'
  · obtain ⟨x, hx, rfl⟩ := List.mem_map.mp hc
    obtain ⟨y, hy, rfl⟩ := List.mem_map.mp hc'
    obtain ⟨hname, hversion, hdevice⟩ := instance_owner_inj (hplain x hx) (hplain y hy) h
    simp only [Copy.claimant, hname, hversion, hdevice]
  · obtain ⟨x, -, rfl⟩ := List.mem_map.mp hc
    obtain ⟨y, -, rfl⟩ := List.mem_map.mp hc'
    exact absurd h instance_owner_ne_thread
  · obtain ⟨x, -, rfl⟩ := List.mem_map.mp hc
    obtain ⟨y, -, rfl⟩ := List.mem_map.mp hc'
    exact absurd h.symm instance_owner_ne_thread
  · obtain ⟨x, hx, rfl⟩ := List.mem_map.mp hc
    obtain ⟨y, hy, rfl⟩ := List.mem_map.mp hc'
    rw [List.inj_on_of_nodup_map hids hx hy (thread_owner_inj h)]

/-- The pools are apart just when no two copies are of one model, version and device. -/
theorem pools_nodup_iff {models : List (Served host)} {threads : List OpsThread} {claims : List Claimant}
    (hids : (threads.map OpsThread.ident).Nodup) (hclaims : claims.Perm (claimants models threads)) :
    (pools claims).Nodup ↔ (models.flatMap Served.copies).Nodup := by
  have hinj : ∀ c ∈ claims, ∀ c' ∈ claims, c.owner = c'.owner → c = c' := fun c hc c' hc' =>
    owner_inj hids c (hclaims.mem_iff.mp hc) c' (hclaims.mem_iff.mp hc')
  have hthreads : (threads.map OpsThread.claimant).Nodup := by
    refine (List.nodup_map_iff_inj_on (hids.of_map _)).mpr ?_
    intro x hx y hy hxy
    exact List.inj_on_of_nodup_map hids hx hy (Claimant.thread.inj hxy).2.1
  have hcopies : ((models.flatMap Served.copies).map Copy.claimant).Nodup ↔ (models.flatMap Served.copies).Nodup := by
    refine List.nodup_map_iff ?_
    intro x y hxy
    cases x
    cases y
    simpa [Copy.claimant] using hxy
  calc (pools claims).Nodup ↔ (claims.map Claimant.owner).Nodup := MemoryPool.claim_nodup_iff _
    _ ↔ claims.Nodup := ⟨List.Nodup.of_map _, fun h => (List.nodup_map_iff_inj_on h).mpr hinj⟩
    _ ↔ (claimants models threads).Nodup := hclaims.nodup_iff
    _ ↔ (models.flatMap Served.copies).Nodup := by
      rw [claimants, List.nodup_append, hcopies]
      refine ⟨fun h => h.1, fun h => ⟨h, hthreads, ?_⟩⟩
      intro x hx y hy
      obtain ⟨c, -, rfl⟩ := List.mem_map.mp hx
      obtain ⟨t, -, rfl⟩ := List.mem_map.mp hy
      exact Claimant.noConfusion

end ShipInfer.Runtime
