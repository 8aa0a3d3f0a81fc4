import ShipInfer.Backends.Execute
import ShipInfer.Lib.Machine

/-!
# One staging buffer, one user

While the pools of all claimants are apart, nobody but an instance writes to the pinned
buffers of its pool, so what its stream has yet to upload is what the batch staged. The
pools are apart just when no two loaded copies share model, version and device.
-/

namespace ShipInfer.Backends.TensorRT

open ShipInfer.Runtime

variable {ρ : Type}

/-! ## What a batch asks for -/

/-- The rows a batch brings for an input. -/
def Batch.given (b : Batch ρ) (name : String) : List ρ := (b.rows.get? name).getD []

/-- The rows of a batch an engine should read. -/
def Engine.reads (e : Engine ρ) (b : Batch ρ) : List (List ρ) := e.inputs.map fun n => (b.given n).take b.size

/-- What the network answers for a batch. -/
def Engine.answer (e : Engine ρ) (b : Batch ρ) (name : String) : List ρ := e.network b.size (e.reads b) name

/-- The batch fits and brings every row of every input. -/
def Engine.Supplied (e : Engine ρ) (b : Batch ρ) : Prop :=
  b.size ≤ e.capacity ∧ ∀ n ∈ e.inputs, b.size ≤ (b.given n).length

instance (e : Engine ρ) (b : Batch ρ) : Decidable (e.Supplied b) :=
  inferInstanceAs (Decidable (_ ∧ _))

/-- What is seen is of the batch it is seen for. -/
def Seen.Right (S : Setup ρ) : Seen ρ → Prop
  | .ran k batch reads => reads = (S.engine k).reads batch
  | .fetched k batch name rows => rows = (S.engine k).answer batch name
  | .returned _ _ => True
  | .raised _ _ => True

/-! ## What the stream has yet to do -/

/-- The rows of an input binding once the operations happened. -/
def landed (mem : Buffer → List ρ) (name : String) : List (Op ρ) → List ρ → List ρ
  | [], rows => rows
  | .upload n b :: ops, rows => landed mem name ops (if n = name then overlay (mem b) rows else rows)
  | .run _ :: ops, rows => landed mem name ops rows
  | .download _ _ _ :: ops, rows => landed mem name ops rows

/-- Only uploads are pending, each from its own buffer of the pool. -/
def Uploads (pool : Nat) (stream : List (Op ρ)) : Prop :=
  ∀ op ∈ stream, ∃ name b, op = .upload name b ∧ b.pool = pool ∧ b.name = "in:" ++ name

/-- The rows staged so far are on the device once the stream has run. -/
def Holds (mem : Buffer → List ρ) (stream : List (Op ρ)) (device : String → List ρ)
    (staged : List (String × List ρ)) : Prop :=
  ∀ p ∈ staged, p.2 <+: landed mem p.1 stream (device p.1)

def HasRun (e : Engine ρ) (batch : Batch ρ) (device : String → List ρ) : Prop :=
  ∀ name ∈ e.outputs, e.answer batch name <+: device name

/-- The network of the batch runs last, over its rows, or has run. -/
def Due (e : Engine ρ) (pool : Nat) (mem : Buffer → List ρ) (batch : Batch ρ) (stream : List (Op ρ))
    (device : String → List ρ) : Prop :=
  (∃ ups, stream = ups ++ [.run batch] ∧ Uploads pool ups ∧ Holds mem ups device batch.rows.entries) ∨
    (stream = [] ∧ HasRun e batch device)

section
variable {pool : Nat} {mem mem' : Buffer → List ρ} {stream : List (Op ρ)}

theorem landed_append (name : String) (ops ops' : List (Op ρ)) (rows : List ρ) :
    landed mem name (ops ++ ops') rows = landed mem name ops' (landed mem name ops rows) := by
  induction ops generalizing rows with
  | nil => rfl
  | cons op ops ih =>
    cases op <;> simp only [List.cons_append, landed, ih]

theorem landed_frame {name : String} (hmem : ∀ b, b.pool = pool → b.name = "in:" ++ name → mem' b = mem b) :
    ∀ {stream : List (Op ρ)} (rows : List ρ), Uploads pool stream → landed mem' name stream rows = landed mem name stream rows := by
  intro stream
  induction stream with
  | nil => intro rows _; rfl
  | cons op ops ih =>
    intro rows hups
    obtain ⟨n, b, rfl, hpool, hname⟩ := hups op List.mem_cons_self
    have hrest : Uploads pool ops := fun op hop => hups op (List.mem_cons_of_mem _ hop)
    simp only [landed]
    by_cases h : n = name
    · rw [if_pos h, if_pos h, hmem b hpool (h ▸ hname)]
      exact ih _ hrest
    · rw [if_neg h, if_neg h]
      exact ih _ hrest

theorem Uploads.snoc (hups : Uploads pool stream) {name : String} {b : Buffer} (hpool : b.pool = pool)
    (hname : b.name = "in:" ++ name) : Uploads pool (stream ++ [Op.upload name b]) := by
  intro op hop
  rcases List.mem_append.mp hop with hop | hop
  · exact hups op hop
  · exact ⟨name, b, List.mem_singleton.mp hop, hpool, hname⟩

theorem uploads_nil : Uploads pool ([] : List (Op ρ)) := fun _ h => (List.not_mem_nil h).elim

theorem input_key_inj {name name' : String} (h : "in:" ++ name = "in:" ++ name') : name = name' := by
  have htext := congrArg String.toList h
  rw [String.toList_append, String.toList_append] at htext
  exact String.toList_inj.mp (List.append_cancel_left htext)

theorem prefix_overlay (new old : List ρ) : new <+: overlay new old := List.prefix_append _ _

end

/-! ## The network reads its batch -/

section
variable {e : Engine ρ} {batch : Batch ρ} {device : String → List ρ}

theorem reads_of_holds (hsup : e.Supplied batch) (h : ∀ p ∈ batch.rows.entries, p.2 <+: device p.1) :
    (e.inputs.map fun n => (device n).take batch.size) = e.reads batch := by
  refine List.map_congr_left fun n hn => ?_
  have hsize := hsup.2 n hn
  unfold Batch.given at hsize ⊢
  cases hget : batch.rows.get? n with
  | none =>
    rw [hget] at hsize
    have hzero : batch.size = 0 := Nat.le_zero.mp hsize
    simp [hzero]
  | some rows =>
    rw [hget] at hsize
    obtain ⟨more, hmore⟩ := h (n, rows) (Dict.get?_eq_some_iff.mp hget)
    simp only [Option.getD_some] at hsize ⊢
    rw [← hmore]
    exact List.take_append_of_le_length hsize

theorem apply_hasRun (hsup : e.Supplied batch) (h : ∀ p ∈ batch.rows.entries, p.2 <+: device p.1) :
    HasRun e batch (e.apply batch.size device) := by
  intro name hname
  have hreads := reads_of_holds hsup h
  unfold Engine.apply
  rw [if_pos hname]
  refine List.IsPrefix.trans ?_ (prefix_overlay _ _)
  unfold Engine.answer Engine.extent
  by_cases hd : e.dynamicShapes = true
  · rw [if_pos hd]
    exact hreads ▸ List.prefix_refl _
  · rw [if_neg hd]
    have htake : ((e.inputs.map fun n => (device n).take e.capacity).map fun rows => rows.take batch.size) =
        e.reads batch := by
      rw [← hreads, List.map_map]
      refine List.map_congr_left fun n _ => ?_
      simp [List.take_take, Nat.min_eq_left hsup.1]
    rw [← htake, ← e.rows_apart (Bool.eq_false_iff.mpr hd) _ _ name hsup.1]
    exact List.take_prefix _ _

theorem HasRun.take (hsup : e.Supplied batch) (h : HasRun e batch device) {name : String} (hname : name ∈ e.outputs) :
    (device name).take (min batch.size e.capacity) = e.answer batch name := by
  obtain ⟨more, hmore⟩ := h name hname
  have hlen : (e.answer batch name).length = batch.size := e.network_length _ _ _
  rw [Nat.min_eq_left hsup.1, ← hmore, List.take_append_of_le_length hlen.ge, ← hlen, List.take_length]

end

/-! ## One instance -/

/-- Where an instance with a pool of its own can stand. -/
inductive Good (e : Engine ρ) (pool : Nat) (mem : Buffer → List ρ) : Instance ρ → Prop
  | idle {stream device} : Uploads pool stream → Good e pool mem ⟨.idle, stream, device⟩
  | staging {stream device batch rest} (done : List (String × List ρ)) : Uploads pool stream → e.Supplied batch →
      batch.rows.entries = done ++ rest → Holds mem stream device done → Good e pool mem ⟨.staging batch rest, stream, device⟩
  | staged {stream device batch name b rest} (done : List (String × List ρ)) (rows : List ρ) : Uploads pool stream →
      e.Supplied batch → batch.rows.entries = done ++ (name, rows) :: rest → Holds mem stream device done →
      b.pool = pool → b.name = "in:" ++ name → mem b = rows → Good e pool mem ⟨.staged batch name b rest, stream, device⟩
  | fetching {stream device batch rest} : e.Supplied batch → rest ⊆ e.outputs → Due e pool mem batch stream device →
      Good e pool mem ⟨.fetching batch rest, stream, device⟩
  | requested {stream device batch name b rest} (front : List (Op ρ)) : e.Supplied batch → name :: rest ⊆ e.outputs →
      b.pool = pool → stream = front ++ [.download name b (min batch.size e.capacity)] →
      Due e pool mem batch front device → Good e pool mem ⟨.requested batch name b rest, stream, device⟩
  | landed {device batch name b rest} : e.Supplied batch → name :: rest ⊆ e.outputs → b.pool = pool →
      HasRun e batch device → (mem b).take (min batch.size e.capacity) = e.answer batch name →
      Good e pool mem ⟨.requested batch name b rest, [], device⟩

section
variable {e : Engine ρ} {pool : Nat} {mem mem' : Buffer → List ρ} {i : Instance ρ} {stream : List (Op ρ)}
  {device : String → List ρ} {batch : Batch ρ}

theorem Holds.frame {staged : List (String × List ρ)} (hups : Uploads pool stream)
    (hmem : ∀ p ∈ staged, ∀ b, b.pool = pool → b.name = "in:" ++ p.1 → mem' b = mem b) (h : Holds mem stream device staged) :
    Holds mem' stream device staged := by
  intro p hp
  rw [landed_frame (hmem p hp) _ hups]
  exact h p hp

theorem Due.frame (hmem : ∀ b, b.pool = pool → mem' b = mem b) (h : Due e pool mem batch stream device) :
    Due e pool mem' batch stream device := by
  rcases h with ⟨ups, hstream, hups, hholds⟩ | h
  · exact .inl ⟨ups, hstream, hups, hholds.frame hups fun _ _ b hb _ => hmem b hb⟩
  · exact .inr h

/-- Nobody else's buffers matter to an instance. -/
theorem Good.frame (hmem : ∀ b, b.pool = pool → mem' b = mem b) (h : Good e pool mem i) : Good e pool mem' i := by
  have hstaged : ∀ {staged stream device}, Uploads pool stream → Holds mem stream device staged →
      Holds mem' stream device staged := fun hups h => h.frame hups fun _ _ b hb _ => hmem b hb
  cases h with
  | idle hups => exact .idle hups
  | staging done hups hsup hentries hholds => exact .staging done hups hsup hentries (hstaged hups hholds)
  | staged done rows hups hsup hentries hholds hpool hname hrows =>
    exact .staged done rows hups hsup hentries (hstaged hups hholds) hpool hname ((hmem _ hpool).trans hrows)
  | fetching hsup hrest hdue => exact .fetching hsup hrest (hdue.frame hmem)
  | requested front hsup hrest hpool hstream hdue => exact .requested front hsup hrest hpool hstream (hdue.frame hmem)
  | landed hsup hrest hpool hrun hrows =>
    exact .landed hsup hrest hpool hrun (by rw [hmem _ hpool]; exact hrows)

end

/-- A step of the instance `k`: it stands well again, what is seen is right, and nothing
outside its pool changes. -/
structure Advance (S : Setup ρ) (k pool : Nat) (s : State ρ) (r : State ρ × List (Seen ρ)) : Prop where
  good : Good (S.engine k) pool r.1.memory (r.1.instances k)
  right : ∀ seen ∈ r.2, seen.Right S
  others : ∀ j, j ≠ k → r.1.instances j = s.instances j
  frame : ∀ b : Buffer, b.pool ≠ pool → r.1.memory b = s.memory b

section
variable {S : Setup ρ} {s : State ρ} {k pool : Nat} {i : Instance ρ} {batch : Batch ρ} {stream : List (Op ρ)}
  {device : String → List ρ}

theorem advance_stay (h : Good (S.engine k) pool s.memory (s.instances k)) : Advance S k pool s (s, []) :=
  ⟨h, fun _ hmem => (List.not_mem_nil hmem).elim, fun _ _ => rfl, fun _ _ => rfl⟩

theorem advance_set {seen : List (Seen ρ)} (h : Good (S.engine k) pool s.memory i) (hseen : ∀ x ∈ seen, x.Right S) :
    Advance S k pool s (s.setInstance k i, seen) := by
  refine ⟨?_, hseen, fun j hj => Function.update_of_ne hj _ _, fun _ _ => rfl⟩
  simp only [State.setInstance, Function.update_self]
  exact h

theorem right_nil : ∀ x ∈ ([] : List (Seen ρ)), x.Right S := fun _ h => (List.not_mem_nil h).elim

/-! ### The host thread -/

theorem stageInput_advance {name : String} {rows : List ρ} {rest : List (String × List ρ)}
    (hi : s.instances k = ⟨.staging batch ((name, rows) :: rest), stream, device⟩)
    (h : Good (S.engine k) pool s.memory (s.instances k)) :
    Advance S k pool s (stageInput S s k pool (s.instances k) batch name rows rest) := by
  have hgood := h
  rw [hi] at h
  cases h with
  | staging done hups hsup hentries hholds =>
    have hfresh : ∀ p ∈ done, p.1 ≠ name := by
      intro p hp heq
      have hnodup := batch.rows.nodup
      rw [hentries, List.map_append, List.map_cons] at hnodup
      exact (List.nodup_append.mp hnodup).2.2 p.1 (List.mem_map_of_mem hp) name List.mem_cons_self heq
    unfold stageInput
    simp only [hi]
    by_cases hraise : name ∉ (S.engine k).inputs ++ (S.engine k).outputs ∨ (S.engine k).capacity < rows.length
    · rw [if_pos hraise]
      exact advance_set (.idle hups) fun x hx => by rw [List.mem_singleton.mp hx]; trivial
    · rw [if_neg hraise]
      by_cases hasync : S.async = true
      · rw [if_pos hasync]
        refine ⟨?_, right_nil, fun j hj => Function.update_of_ne hj _ _, ?_⟩
        · simp only [State.setInstance, Function.update_self]
          refine .staged done rows hups hsup hentries (hholds.frame hups ?_) rfl rfl (Function.update_self _ _ _)
          intro p hp b _ hname
          refine Function.update_of_ne ?_ _ _
          rintro rfl
          exact hfresh p hp (input_key_inj hname).symm
        · intro b hb
          refine Function.update_of_ne ?_ _ _
          rintro rfl
          exact hb rfl
      · rw [if_neg hasync]
        by_cases hempty : stream.isEmpty = true
        · rw [if_pos hempty]
          refine advance_set (.staging (done ++ [(name, rows)]) hups hsup (by simp [hentries]) ?_) right_nil
          rw [List.isEmpty_iff.mp hempty] at hholds ⊢
          intro p hp
          rcases List.mem_append.mp hp with hp | hp
          · simp only [landed, Function.update_of_ne (hfresh p hp)]
            exact hholds p hp
          · rw [List.mem_singleton.mp hp]
            simp only [landed, Function.update_self]
            exact prefix_overlay _ _
        · rw [if_neg hempty]
          exact advance_stay hgood

theorem uploadInput_advance {name : String} {b : Buffer} {rest : List (String × List ρ)}
    (hi : s.instances k = ⟨.staged batch name b rest, stream, device⟩)
    (h : Good (S.engine k) pool s.memory (s.instances k)) :
    Advance S k pool s (uploadInput s k (s.instances k) batch name b rest) := by
  rw [hi] at h
  cases h with
  | staged done rows hups hsup hentries hholds hpool hname hrows =>
    unfold uploadInput
    simp only [hi]
    refine advance_set (.staging (done ++ [(name, rows)]) (hups.snoc hpool hname) hsup (by simp [hentries]) ?_) right_nil
    intro p hp
    rw [landed_append]
    simp only [landed]
    rcases List.mem_append.mp hp with hp | hp
    · have hne : name ≠ p.1 := by
        have hnodup := batch.rows.nodup
        rw [hentries, List.map_append, List.map_cons] at hnodup
        exact ((List.nodup_append.mp hnodup).2.2 p.1 (List.mem_map_of_mem hp) name List.mem_cons_self).symm
      rw [if_neg hne]
      exact hholds p hp
    · rw [List.mem_singleton.mp hp, if_pos rfl, hrows]
      exact prefix_overlay _ _

theorem enqueue_advance (hi : s.instances k = ⟨.staging batch [], stream, device⟩)
    (h : Good (S.engine k) pool s.memory (s.instances k)) : Advance S k pool s (enqueue S s k (s.instances k) batch) := by
  rw [hi] at h
  cases h with
  | staging done hups hsup hentries hholds =>
    rw [List.append_nil] at hentries
    unfold enqueue
    simp only [hi]
    exact advance_set (.fetching hsup (List.Subset.refl _) (.inl ⟨stream, rfl, hups, hentries ▸ hholds⟩)) right_nil

theorem Due.ran {e : Engine ρ} {mem : Buffer → List ρ} (h : Due e pool mem batch [] device) : HasRun e batch device := by
  rcases h with ⟨ups, hstream, -⟩ | ⟨-, hrun⟩
  · simp at hstream
  · exact hrun

theorem fetchOutput_advance {name : String} {rest : List String}
    (hi : s.instances k = ⟨.fetching batch (name :: rest), stream, device⟩)
    (h : Good (S.engine k) pool s.memory (s.instances k)) :
    Advance S k pool s (fetchOutput S s k pool (s.instances k) batch name rest) := by
  have hgood := h
  rw [hi] at h
  cases h with
  | fetching hsup hrest hdue =>
    unfold fetchOutput
    simp only [hi]
    by_cases hasync : S.async = true
    · rw [if_pos hasync]
      refine ⟨?_, right_nil, fun j hj => Function.update_of_ne hj _ _, fun _ _ => rfl⟩
      simp only [State.setInstance, Function.update_self]
      exact .requested stream hsup hrest rfl rfl hdue
    · rw [if_neg hasync]
      by_cases hempty : stream.isEmpty = true
      · rw [if_pos hempty]
        refine advance_set (.fetching hsup (fun n hn => hrest (List.mem_cons_of_mem _ hn)) hdue) ?_
        intro x hx
        rw [List.mem_singleton.mp hx]
        rw [List.isEmpty_iff.mp hempty] at hdue
        exact hdue.ran.take hsup (hrest List.mem_cons_self)
      · rw [if_neg hempty]
        exact advance_stay hgood

theorem takeOutput_advance {name : String} {b : Buffer} {rest : List String}
    (hi : s.instances k = ⟨.requested batch name b rest, stream, device⟩)
    (h : Good (S.engine k) pool s.memory (s.instances k)) :
    Advance S k pool s (takeOutput S s k (s.instances k) batch name b rest) := by
  have hgood := h
  unfold takeOutput
  rw [hi] at h
  cases h with
  | requested front hsup hrest hpool hstream hdue =>
    have hbusy : ¬ (s.instances k).stream.isEmpty = true := by rw [hi, hstream]; simp
    rw [if_neg hbusy]
    exact advance_stay hgood
  | landed hsup hrest hpool hrun hrows =>
    have hfree : (s.instances k).stream.isEmpty = true := by rw [hi]; rfl
    rw [if_pos hfree, hi]
    refine advance_set (.fetching hsup (fun n hn => hrest (List.mem_cons_of_mem _ hn)) (.inr ⟨rfl, hrun⟩)) ?_
    intro x hx
    rw [List.mem_singleton.mp hx]
    exact hrows

theorem finish_advance (h : Good (S.engine k) pool s.memory (s.instances k)) : Advance S k pool s (finish s k (s.instances k) batch) := by
  unfold finish
  by_cases hempty : (s.instances k).stream.isEmpty = true
  · rw [if_pos hempty]
    refine advance_set ?_ fun x hx => by rw [List.mem_singleton.mp hx]; trivial
    rw [List.isEmpty_iff.mp hempty]
    exact .idle uploads_nil
  · rw [if_neg hempty]
    exact advance_stay h

theorem host_advance (h : Good (S.engine k) pool s.memory (s.instances k)) :
    Advance S k pool s (host S s k pool (s.instances k)) := by
  cases hi : s.instances k with
  | mk phase stream device =>
    rw [← hi]
    unfold host
    have hphase : (s.instances k).phase = phase := by rw [hi]
    rw [hphase]
    cases phase with
    | idle => exact advance_stay h
    | staging batch rest =>
      cases rest with
      | nil => exact enqueue_advance hi h
      | cons input rest => exact stageInput_advance hi h
    | staged batch name b rest => exact uploadInput_advance hi h
    | fetching batch rest =>
      cases rest with
      | nil => exact finish_advance h
      | cons name rest => exact fetchOutput_advance hi h
    | requested batch name b rest => exact takeOutput_advance hi h

/-! ### The stream -/

theorem Holds.upload {mem : Buffer → List ρ} {name : String} {b : Buffer} {ops : List (Op ρ)}
    {staged : List (String × List ρ)} (h : Holds mem (.upload name b :: ops) device staged) :
    Holds mem ops (Function.update device name (overlay (mem b) (device name))) staged := by
  intro p hp
  have hland := h p hp
  simp only [landed] at hland
  by_cases hne : name = p.1
  · rw [if_pos hne] at hland
    rw [← hne, Function.update_self, hne]
    exact hland
  · rw [if_neg hne] at hland
    rw [Function.update_of_ne (Ne.symm hne)]
    exact hland

theorem Uploads.tail {op : Op ρ} {ops : List (Op ρ)} (h : Uploads pool (op :: ops)) : Uploads pool ops :=
  fun x hx => h x (List.mem_cons_of_mem _ hx)

/-- The next operation of an instance whose network is due. -/
theorem Due.next {e : Engine ρ} {mem : Buffer → List ρ} {op : Op ρ} {ops : List (Op ρ)} (hsup : e.Supplied batch)
    (h : Due e pool mem batch (op :: ops) device) :
    (∃ name b, op = .upload name b ∧
        Due e pool mem batch ops (Function.update device name (overlay (mem b) (device name)))) ∨
      (op = .run batch ∧ ops = [] ∧ (e.inputs.map fun n => (device n).take batch.size) = e.reads batch ∧
        HasRun e batch (e.apply batch.size device)) := by
  rcases h with ⟨ups, hstream, hups, hholds⟩ | ⟨hstream, -⟩
  · cases ups with
    | nil =>
      obtain ⟨rfl, rfl⟩ := List.cons.inj hstream
      exact .inr ⟨rfl, rfl, reads_of_holds hsup hholds, apply_hasRun hsup hholds⟩
    | cons u ups =>
      obtain ⟨rfl, rfl⟩ := List.cons.inj hstream
      obtain ⟨name, b, rfl, -⟩ := hups op List.mem_cons_self
      exact .inl ⟨name, b, rfl, .inl ⟨ups, rfl, hups.tail, hholds.upload⟩⟩
  · cases hstream

/-- An upload, whatever the instance stands at. -/
theorem perform_upload {phase : Phase ρ} {name : String} {b : Buffer} {ops : List (Op ρ)}
    (hi : s.instances k = ⟨phase, .upload name b :: ops, device⟩)
    (h : Good (S.engine k) pool s.memory ⟨phase, ops, Function.update device name (overlay (s.memory b) (device name))⟩) :
    Advance S k pool s (perform (S.engine k) s k (s.instances k)) := by
  have heq : perform (S.engine k) s k (s.instances k) = (s.setInstance k
      ⟨phase, ops, Function.update device name (overlay (s.memory b) (device name))⟩, []) := by
    rw [hi]
    rfl
  rw [heq]
  exact advance_set h right_nil

theorem perform_run {phase : Phase ρ} {ops : List (Op ρ)} (hi : s.instances k = ⟨phase, .run batch :: ops, device⟩)
    (hreads : ((S.engine k).inputs.map fun n => (device n).take batch.size) = (S.engine k).reads batch)
    (h : Good (S.engine k) pool s.memory ⟨phase, ops, (S.engine k).apply batch.size device⟩) :
    Advance S k pool s (perform (S.engine k) s k (s.instances k)) := by
  have heq : perform (S.engine k) s k (s.instances k) = (s.setInstance k
      ⟨phase, ops, (S.engine k).apply batch.size device⟩,
      [.ran k batch ((S.engine k).inputs.map fun n => (device n).take batch.size)]) := by
    rw [hi]
    rfl
  rw [heq]
  refine advance_set h fun x hx => ?_
  rw [List.mem_singleton.mp hx]
  exact hreads

theorem perform_download {name : String} {b : Buffer} {rest : List String}
    (hi : s.instances k = ⟨.requested batch name b rest, [.download name b (min batch.size (S.engine k).capacity)], device⟩)
    (hsup : (S.engine k).Supplied batch) (hrest : name :: rest ⊆ (S.engine k).outputs) (hpool : b.pool = pool)
    (hrun : HasRun (S.engine k) batch device) : Advance S k pool s (perform (S.engine k) s k (s.instances k)) := by
  have htake := hrun.take hsup (hrest List.mem_cons_self)
  have heq : perform (S.engine k) s k (s.instances k) =
      ((s.setMemory b (overlay ((device name).take (min batch.size (S.engine k).capacity)) (s.memory b))).setInstance k
        ⟨.requested batch name b rest, [], device⟩, []) := by
    rw [hi]
    rfl
  rw [heq]
  refine ⟨?_, right_nil, fun j hj => Function.update_of_ne hj _ _, ?_⟩
  · simp only [State.setInstance, Function.update_self]
    refine .landed hsup hrest hpool hrun ?_
    have hlen : ((S.engine k).answer batch name).length = min batch.size (S.engine k).capacity := by
      rw [Nat.min_eq_left hsup.1]
      exact (S.engine k).network_length _ _ _
    simp only [State.setMemory, Function.update_self, htake]
    rw [overlay, List.take_append_of_le_length hlen.ge, ← hlen, List.take_length]
  · intro c hc
    refine Function.update_of_ne ?_ _ _
    rintro rfl
    exact hc hpool

theorem perform_advance (h : Good (S.engine k) pool s.memory (s.instances k)) :
    Advance S k pool s (perform (S.engine k) s k (s.instances k)) := by
  have hgood := h
  cases hi : s.instances k with
  | mk phase stream device =>
    cases stream with
    | nil =>
      have heq : perform (S.engine k) s k ⟨phase, [], device⟩ = (s, []) := rfl
      rw [heq]
      exact advance_stay hgood
    | cons op ops =>
      rw [← hi]
      rw [hi] at h
      cases h with
      | idle hups =>
        obtain ⟨name, b, rfl, -⟩ := hups op List.mem_cons_self
        exact perform_upload hi (.idle hups.tail)
      | staging done hups hsup hentries hholds =>
        obtain ⟨name, b, rfl, -⟩ := hups op List.mem_cons_self
        exact perform_upload hi (.staging done hups.tail hsup hentries hholds.upload)
      | staged done rows hups hsup hentries hholds hpool hname hrows =>
        obtain ⟨n, b, rfl, -⟩ := hups op List.mem_cons_self
        exact perform_upload hi (.staged done rows hups.tail hsup hentries hholds.upload hpool hname hrows)
      | fetching hsup hrest hdue =>
        rcases hdue.next hsup with ⟨name, b, rfl, hdue'⟩ | ⟨rfl, rfl, hreads, hrun⟩
        · exact perform_upload hi (.fetching hsup hrest hdue')
        · exact perform_run hi hreads (.fetching hsup hrest (.inr ⟨rfl, hrun⟩))
      | requested front hsup hrest hpool hstream hdue =>
        cases front with
        | nil =>
          obtain ⟨rfl, rfl⟩ := List.cons.inj hstream
          exact perform_download hi hsup hrest hpool hdue.ran
        | cons first front =>
          obtain ⟨rfl, rfl⟩ := List.cons.inj hstream
          rcases hdue.next hsup with ⟨name, b, rfl, hdue'⟩ | ⟨rfl, rfl, hreads, hrun⟩
          · exact perform_upload hi (.requested front hsup hrest hpool rfl hdue')
          · exact perform_run hi hreads (.requested [] hsup hrest hpool rfl (.inr ⟨rfl, hrun⟩))

end

/-! ## All claimants -/

/-- Every instance stands well, and threads run nothing. -/
structure Inv (S : Setup ρ) (s : State ρ) : Prop where
  stands : ∀ k pool, S.serves k = true → S.pool k = some pool → Good (S.engine k) pool s.memory (s.instances k)
  threads : ∀ k, S.serves k = false → (s.instances k).phase = .idle ∧ (s.instances k).stream = []

/-- Nothing runs yet. -/
def State.Initial (s : State ρ) : Prop := ∀ k, (s.instances k).phase = .idle ∧ (s.instances k).stream = []

/-- A batch is admitted with all its rows. -/
def Setup.Supplies (S : Setup ρ) (_ : State ρ) : Event ρ → Prop
  | .execute k batch => (S.engine k).Supplied batch
  | _ => True

section
variable {S : Setup ρ} {s : State ρ} {k pool : Nat}

theorem inv_initial (h : s.Initial) : Inv S s := by
  refine ⟨fun k pool _ _ => ?_, fun k _ => h k⟩
  obtain ⟨hphase, hstream⟩ := h k
  cases hi : s.instances k with
  | mk phase stream device =>
    rw [hi] at hphase hstream
    simp only at hphase hstream
    rw [hphase, hstream]
    exact .idle uploads_nil

theorem pool_inj (hapart : (pools S.claims).Nodup) {j : Nat} (hk : S.pool k = some pool) (hj : S.pool j = some pool) :
    j = k := by
  unfold Setup.pool at hk hj
  obtain ⟨hlt, -⟩ := List.getElem?_eq_some_iff.mp hj
  exact (List.getElem?_inj hlt hapart).mp (hj.trans hk.symm)

/-- A step of one instance inside its pool leaves the others standing. -/
theorem Advance.inv (hapart : (pools S.claims).Nodup) (hserves : S.serves k = true) (hk : S.pool k = some pool)
    (hinv : Inv S s) {r : State ρ × List (Seen ρ)} (h : Advance S k pool s r) : Inv S r.1 := by
  constructor
  · intro j p hj hp
    by_cases hjk : j = k
    · subst hjk
      cases hk.symm.trans hp
      exact h.good
    · rw [h.others j hjk]
      refine (hinv.stands j p hj hp).frame fun b hb => h.frame b ?_
      intro hpool
      rw [← hb, hpool] at hp
      exact hjk (pool_inj hapart hk hp)
  · intro j hj
    have hjk : j ≠ k := by
      rintro rfl
      rw [hj] at hserves
      cases hserves
    rw [h.others j hjk]
    exact hinv.threads j hj

/-- An instance changes where it stands, and no memory does. -/
theorem setInstance_inv {i : Instance ρ} (hinv : Inv S s) (hserves : S.serves k = true)
    (hgood : ∀ p, Good (S.engine k) p s.memory (s.instances k) → Good (S.engine k) p s.memory i) :
    Inv S (s.setInstance k i) := by
  constructor
  · intro j p hj hp
    by_cases hjk : j = k
    · subst hjk
      simp only [State.setInstance, Function.update_self]
      exact hgood p (hinv.stands j p hj hp)
    · simp only [State.setInstance, Function.update_of_ne hjk]
      exact hinv.stands j p hj hp
  · intro j hj
    have hjk : j ≠ k := by
      rintro rfl
      rw [hj] at hserves
      cases hserves
    simp only [State.setInstance, Function.update_of_ne hjk]
    exact hinv.threads j hj

theorem stage_inv (hapart : (pools S.claims).Nodup) (hserves : S.serves k = false) (hk : S.pool k = some pool)
    (hinv : Inv S s) (name : String) (rows : List ρ) : Inv S (s.stage pool name rows).2 := by
  refine ⟨fun j p hj hp => ?_, hinv.threads⟩
  refine (hinv.stands j p hj hp).frame fun b hb => Function.update_of_ne ?_ _ _
  rintro rfl
  have hjk := pool_inj hapart hk (hb ▸ hp)
  rw [hjk, hserves] at hj
  cases hj

theorem step_inv (hapart : (pools S.claims).Nodup) (hinv : Inv S s) (event : Event ρ) (hsup : S.Supplies s event) :
    Inv S (step S s event).1 ∧ ∀ x ∈ (step S s event).2, x.Right S := by
  have hstay : Inv S s ∧ ∀ x ∈ ([] : List (Seen ρ)), x.Right S := ⟨hinv, right_nil⟩
  cases event with
  | execute k batch =>
    cases hphase : (s.instances k).phase with
    | idle =>
      by_cases hserves : S.serves k = true
      · simp only [step, hphase, if_pos hserves]
        refine ⟨setInstance_inv hinv hserves fun p hgood => ?_, right_nil⟩
        cases hi : s.instances k with
        | mk phase stream device =>
          rw [hi] at hgood hphase
          simp only at hphase
          subst hphase
          cases hgood with
          | idle hups => exact .staging [] hups hsup rfl fun _ h => (List.not_mem_nil h).elim
      · simp only [step, hphase, if_neg hserves]
        exact hstay
    | _ =>
      simp only [step, hphase]
      exact hstay
  | host k =>
    cases hk : S.pool k with
    | none =>
      simp only [step, hk]
      exact hstay
    | some pool =>
      simp only [step, hk]
      cases hserves : S.serves k with
      | true =>
        have hadv := host_advance (hinv.stands k pool hserves hk)
        exact ⟨hadv.inv hapart hserves hk hinv, hadv.right⟩
      | false =>
        have heq : host S s k pool (s.instances k) = (s, []) := by
          simp only [host, (hinv.threads k hserves).1]
        rw [heq]
        exact hstay
  | refuse k =>
    cases hphase : (s.instances k).phase with
    | staging batch rest =>
      cases rest with
      | cons input rest =>
        simp only [step, hphase]
        exact hstay
      | nil =>
        simp only [step, hphase]
        refine ⟨?_, fun x hx => by rw [List.mem_singleton.mp hx]; trivial⟩
        cases hserves : S.serves k with
        | false =>
          rw [(hinv.threads k hserves).1] at hphase
          cases hphase
        | true =>
          refine setInstance_inv hinv hserves fun p hgood => ?_
          cases hi : s.instances k with
          | mk phase stream device =>
            rw [hi] at hgood hphase
            simp only at hphase
            subst hphase
            cases hgood with
            | staging done hups _ _ _ => exact .idle hups
    | _ =>
      simp only [step, hphase]
      exact hstay
  | device k =>
    cases hk : S.pool k with
    | none =>
      simp only [step, hk]
      exact hstay
    | some pool =>
      simp only [step, hk]
      cases hserves : S.serves k with
      | true =>
        have hadv := perform_advance (hinv.stands k pool hserves hk)
        exact ⟨hadv.inv hapart hserves hk hinv, hadv.right⟩
      | false =>
        have heq : perform (S.engine k) s k (s.instances k) = (s, []) := by
          simp only [perform, (hinv.threads k hserves).2]
        rw [heq]
        exact hstay
  | write k name rows =>
    cases hk : S.pool k with
    | none =>
      simp only [step, hk]
      exact hstay
    | some pool =>
      by_cases hserves : S.serves k = true
      · simp only [step, hk, if_pos hserves]
        exact hstay
      · simp only [step, hk, if_neg hserves]
        exact ⟨stage_inv hapart (Bool.eq_false_iff.mpr hserves) hk hinv name rows, right_nil⟩

/-- While the pools are apart, every network reads its batch and every output fetched
is of that network. -/
theorem run_right (hapart : (pools S.claims).Nodup) (hs : s.Initial) {script : List (Event ρ)}
    (hsup : Machine.Along (step S) S.Supplies s script) :
    ∀ seen ∈ (Machine.exec (step S) s script).2.flatten, seen.Right S := by
  have key := hsup.induction (I := fun out s => Inv S s ∧ ∀ seen ∈ out.flatten, seen.Right S) ?_ script
    ⟨inv_initial hs, fun seen h => (List.not_mem_nil h).elim⟩
  · exact key.2
  · intro out s event ⟨hinv, hright⟩ hstep
    obtain ⟨hinv', hnew⟩ := step_inv hapart hinv event hstep
    refine ⟨hinv', fun seen hseen => ?_⟩
    rw [List.flatten_append, List.mem_append] at hseen
    rcases hseen with hseen | hseen
    · exact hright seen hseen
    · exact hnew seen (by simpa using hseen)

end

/-- **One staging buffer, one user.** The pools of all instances and threads are apart
just when no two loaded copies are of one model, version and device. Then, over every
interleaving in which each batch brings all its rows, the network of a batch reads that
batch, and what is fetched is what the network answers for it. -/
theorem one_buffer_one_user {host : Host} (models : List (Served host)) (threads : List OpsThread)
    {claims : List Claimant} (hids : (threads.map OpsThread.ident).Nodup)
    (hclaims : claims.Perm (claimants models threads)) :
    ((pools claims).Nodup ↔ (models.flatMap Served.copies).Nodup) ∧
      ((models.flatMap Served.copies).Nodup → ∀ (S : Setup ρ), S.claims = claims → ∀ s : State ρ, s.Initial →
        ∀ script, Machine.Along (step S) S.Supplies s script →
          ∀ seen ∈ (Machine.exec (step S) s script).2.flatten, seen.Right S) := by
  have hapart := pools_nodup_iff hids hclaims
  refine ⟨hapart, fun hcopies S hS s hs script hsup => ?_⟩
  exact run_right (hS ▸ hapart.mpr hcopies) hs hsup

/-! ## Two hosts -/

/-- Adds one to every row of its first input. -/
def features : Engine Nat where
  inputs := ["images"]
  outputs := ["features"]
  capacity := 4
  dynamicShapes := true
  network := fun n ins _ => (List.range n).map fun j => (ins.headD []).getD j 0 + 1
  network_length := by simp
  rows_apart := fun h => Bool.noConfusion h

def onePerGpu : InstanceGroup := ⟨.auto, 1, [], Nat.zero_lt_one, fun _ => rfl⟩

def twoPerGpu : InstanceGroup := ⟨.gpu, 2, [0], Nat.le_succ 1, fun h => InstanceKind.noConfusion h⟩

def twoGpus : Host := { visible := [0, 1] }

def spread : Served twoGpus := ⟨"ship_reid", 1, [onePerGpu], [cuda 0, cuda 1], by decide⟩

def doubled : Served twoGpus := ⟨"ship_reid", 1, [twoPerGpu], [cuda 0, cuda 0], by decide⟩

def worker : OpsThread := ⟨"pipeline-worker-0", 139, 0⟩

def single (row : Nat) : Batch Nat := ⟨Dict.empty.set "images" [row], 1⟩

/-- Both instances stage before either copies to its device. -/
def crossed : List (Event Nat) :=
  [.execute 0 (single 7), .execute 1 (single 9), .host 0, .host 0, .host 1, .write 2 "crops" [5], .device 0, .host 0,
    .device 0, .host 0, .device 0, .host 0, .host 0]

def quiet : State Nat := { memory := fun _ => [], instances := fun _ => { device := fun _ => [] } }

theorem quiet_initial : quiet.Initial := fun _ => ⟨rfl, rfl⟩

def serving (claims : List Claimant) : Setup Nat := { claims := claims, engine := fun _ => features, async := true }

instance (S : Setup Nat) : DecidablePred (Seen.Right S)
  | .ran k batch reads => inferInstanceAs (Decidable (reads = (S.engine k).reads batch))
  | .fetched k batch name rows => inferInstanceAs (Decidable (rows = (S.engine k).answer batch name))
  | .returned _ _ => .isTrue trivial
  | .raised _ _ => .isTrue trivial

instance {ρ : Type} (S : Setup ρ) (s : State ρ) : DecidablePred (S.Supplies s)
  | .execute k batch => inferInstanceAs (Decidable ((S.engine k).Supplied batch))
  | .host _ => .isTrue trivial
  | .refuse _ => .isTrue trivial
  | .device _ => .isTrue trivial
  | .write _ _ _ => .isTrue trivial

theorem spread_right : (Machine.exec (step (serving (claimants [spread] [worker]))) quiet crossed).2.flatten ≠ [] ∧
    ∀ seen ∈ (Machine.exec (step (serving (claimants [spread] [worker]))) quiet crossed).2.flatten,
      seen.Right (serving (claimants [spread] [worker])) := by
  refine ⟨?_, ?_⟩
  · apply List.ne_nil_of_length_pos
    decide +kernel
  · exact (one_buffer_one_user [spread] [worker] (by decide) (List.Perm.refl _)).2 (by decide)
      (serving (claimants [spread] [worker])) rfl quiet quiet_initial crossed (by decide +kernel)

/-- The second input is one a request may leave out. -/
def withOptional : Engine Nat := { features with inputs := ["images", "mask"] }

def optionalServing (claims : List Claimant) : Setup Nat :=
  { claims := claims, engine := fun _ => withOptional, async := true }

def both : Batch Nat := ⟨(Dict.empty.set "images" [7]).set "mask" [1], 1⟩

/-- One batch after another on one instance. -/
def oneByOne : List (Event Nat) :=
  [.execute 0 both, .host 0, .host 0, .host 0, .host 0, .host 0, .device 0, .device 0, .device 0, .host 0, .device 0,
    .host 0, .host 0, .execute 0 (single 9), .host 0, .host 0, .host 0, .device 0, .device 0]

/-- Two copies on one device share a pool, and the network of one batch reads the rows of
the other. On a copy alone, an input that a batch leaves out is read from the batch before. -/
theorem copies_share_a_buffer :
    (¬ (pools (claimants [doubled] [worker])).Nodup ∧
      Machine.Along (step (serving (claimants [doubled] [worker]))) (serving (claimants [doubled] [worker])).Supplies
        quiet crossed ∧
      ¬ ∀ seen ∈ (Machine.exec (step (serving (claimants [doubled] [worker]))) quiet crossed).2.flatten,
        seen.Right (serving (claimants [doubled] [worker]))) ∧
      (pools (claimants [spread] [worker])).Nodup ∧
      ¬ ∀ seen ∈ (Machine.exec (step (optionalServing (claimants [spread] [worker]))) quiet oneByOne).2.flatten,
        seen.Right (optionalServing (claimants [spread] [worker])) := by
  refine ⟨⟨?_, ?_, ?_⟩, ?_, ?_⟩ <;> decide +kernel

end ShipInfer.Backends.TensorRT
