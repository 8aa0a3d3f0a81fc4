import Mathlib.Data.List.Basic
import Mathlib.Data.List.Forall2

/-!
# Loops that may fail

A loop whose every round succeeds and keeps an invariant succeeds and keeps it.
-/

namespace ShipInfer

theorem bind_ok {ε : Type*} {α β : Type _} {x : Except ε α} {f : α → Except ε β} {b : β} :
    (x >>= f) = .ok b ↔ ∃ a, x = .ok a ∧ f a = .ok b := by
  cases x with
  | error e => simp [bind, Except.bind]
  | ok a => simp [bind, Except.bind]

/-- What a loop collects is what some round answered. -/
theorem exists_of_mem_mapM {γ δ ε : Type*} {f : γ → Except ε δ} {d : δ} : ∀ {cs : List γ} {ds : List δ},
    cs.mapM f = .ok ds → d ∈ ds → ∃ c ∈ cs, f c = .ok d
  | [], ds, h, hd => by
    cases h
    exact (List.not_mem_nil hd).elim
  | c :: cs, ds, h, hd => by
    rw [List.mapM_cons] at h
    obtain ⟨d', hc, h⟩ := bind_ok.mp h
    obtain ⟨ds', hcs, h⟩ := bind_ok.mp h
    cases h
    rcases List.mem_cons.mp hd with rfl | hd
    · exact ⟨c, List.mem_cons_self, hc⟩
    · obtain ⟨b, hb, hfb⟩ := exists_of_mem_mapM hcs hd
      exact ⟨b, List.mem_cons_of_mem _ hb, hfb⟩

theorem foldlM_ok {β γ ε : Type*} {f : β → γ → Except ε β} {I : β → Prop} : ∀ {l : List γ} {b : β},
    (∀ b c, c ∈ l → I b → ∃ b', f b c = .ok b' ∧ I b') → I b → ∃ b', l.foldlM f b = .ok b' ∧ I b'
  | [], b, _, hb => ⟨b, rfl, hb⟩
  | c :: l, b, h, hb => by
    obtain ⟨b₁, hf, hb₁⟩ := h b c List.mem_cons_self hb
    obtain ⟨b₂, hl, hb₂⟩ := foldlM_ok (fun b c hc => h b c (List.mem_cons_of_mem _ hc)) hb₁
    refine ⟨b₂, ?_, hb₂⟩
    rw [List.foldlM_cons, hf]
    exact hl

theorem foldl_keeps {β γ : Type*} {f : β → γ → β} {I : β → Prop} : ∀ {l : List γ} {b : β},
    (∀ b c, c ∈ l → I b → I (f b c)) → I b → I (l.foldl f b)
  | [], _, _, hb => hb
  | c :: l, b, h, hb =>
    foldl_keeps (l := l) (fun b c hc => h b c (List.mem_cons_of_mem _ hc)) (h b c List.mem_cons_self hb)

/-- What every round that succeeds keeps, a loop that succeeds keeps. -/
theorem foldlM_keeps {β γ ε : Type*} {f : β → γ → Except ε β} {I : β → Prop} : ∀ {l : List γ} {b b' : β},
    (∀ b c b', c ∈ l → f b c = .ok b' → I b → I b') → l.foldlM f b = .ok b' → I b → I b'
  | [], b, b', _, h, hb => by cases h; exact hb
  | c :: l, b, b', hstep, h, hb => by
    rw [List.foldlM_cons] at h
    cases hf : f b c with
    | error e => rw [hf] at h; cases h
    | ok b₁ =>
      rw [hf] at h
      exact foldlM_keeps (fun b c b' hc => hstep b c b' (List.mem_cons_of_mem _ hc)) h
        (hstep b c b₁ List.mem_cons_self hf hb)

/-- A loop that fails does so in one of its rounds. -/
theorem exists_of_foldlM_error {β γ ε : Type*} {f : β → γ → Except ε β} {e : ε} : ∀ {l : List γ} {b : β},
    l.foldlM f b = .error e → ∃ c ∈ l, ∃ b', f b' c = .error e
  | [], _, h => by cases h
  | c :: l, b, h => by
    rw [List.foldlM_cons] at h
    cases hf : f b c with
    | error e' =>
      rw [hf] at h
      cases h
      exact ⟨c, List.mem_cons_self, b, hf⟩
    | ok b₁ =>
      rw [hf] at h
      obtain ⟨c', hc', hrest⟩ := exists_of_foldlM_error h
      exact ⟨c', List.mem_cons_of_mem _ hc', hrest⟩

/-- A loop that collects what every round answers. -/
theorem mapM_ok {α γ δ ε : Type*} {f : γ → Except ε δ} {R : α → δ → Prop} : ∀ {l : List α} {cs : List γ},
    List.Forall₂ (fun a c => ∃ d, f c = .ok d ∧ R a d) l cs → ∃ ds, cs.mapM f = .ok ds ∧ List.Forall₂ R l ds
  | [], [], .nil => ⟨[], rfl, .nil⟩
  | _ :: _, c :: cs, .cons ⟨d, hd, hr⟩ hs => by
    obtain ⟨ds, hds, hrs⟩ := mapM_ok hs
    exact ⟨d :: ds, by rw [List.mapM_cons, hd, hds]; rfl, .cons hr hrs⟩

theorem forall₂_of_mapM_some {γ δ : Type*} {f : γ → Option δ} : ∀ {cs : List γ} {ds : List δ},
    cs.mapM f = some ds → List.Forall₂ (fun c d => f c = some d) cs ds
  | [], ds, h => by
    cases h
    exact .nil
  | c :: cs, ds, h => by
    rw [List.mapM_cons] at h
    obtain ⟨d, hd, h⟩ := Option.bind_eq_some_iff.mp h
    obtain ⟨ds', hds, h⟩ := Option.bind_eq_some_iff.mp h
    cases h
    exact .cons hd (forall₂_of_mapM_some hds)

theorem forall₂_of_mapM_ok {γ δ ε : Type*} {f : γ → Except ε δ} : ∀ {cs : List γ} {ds : List δ},
    cs.mapM f = .ok ds → List.Forall₂ (fun c d => f c = .ok d) cs ds
  | [], ds, h => by
    cases h
    exact .nil
  | c :: cs, ds, h => by
    rw [List.mapM_cons] at h
    obtain ⟨d, hd, h⟩ := bind_ok.mp h
    obtain ⟨ds', hds, h⟩ := bind_ok.mp h
    cases h
    exact .cons hd (forall₂_of_mapM_ok hds)

theorem exists_of_mem_forall₂ {α β : Type*} {R : α → β → Prop} : ∀ {l : List α} {m : List β} {b : β},
    List.Forall₂ R l m → b ∈ m → ∃ a ∈ l, R a b
  | [], [], _, .nil, hb => (List.not_mem_nil hb).elim
  | a :: l, _ :: m, b, .cons h hs, hb => by
    rcases List.mem_cons.mp hb with rfl | hb
    · exact ⟨a, List.mem_cons_self, h⟩
    · obtain ⟨a', ha', hr⟩ := exists_of_mem_forall₂ hs hb
      exact ⟨a', List.mem_cons_of_mem _ ha', hr⟩

theorem forall₂_trans {α β γ : Type*} {R : α → β → Prop} {S : β → γ → Prop} {T : α → γ → Prop}
    (h : ∀ a b c, R a b → S b c → T a c) : ∀ {l : List α} {m : List β} {n : List γ},
    List.Forall₂ R l m → List.Forall₂ S m n → List.Forall₂ T l n
  | _, _, _, .nil, .nil => .nil
  | _, _, _, .cons hab hlm, .cons hbc hmn => .cons (h _ _ _ hab hbc) (forall₂_trans h hlm hmn)

/-- A loop of checks passes when every check does. -/
theorem forM_ok_iff {γ ε : Type*} {f : γ → Except ε Unit} : ∀ {l : List γ},
    l.forM f = .ok () ↔ ∀ c ∈ l, f c = .ok ()
  | [] => by simp [List.forM, pure, Except.pure]
  | c :: l => by
    rw [List.forall_mem_cons, ← forM_ok_iff (l := l)]
    show (f c >>= fun _ => l.forM f) = .ok () ↔ _
    cases hf : f c with
    | error e => simp [bind, Except.bind]
    | ok u => simp [bind, Except.bind]

/-- A loop whose rounds succeed or fail whatever came before succeeds when all do. -/
theorem exists_foldlM_ok_iff {β γ ε : Type*} {f : β → γ → Except ε β} {P : γ → Prop} : ∀ {l : List γ} {b : β},
    (∀ b, ∀ c ∈ l, (∃ b', f b c = .ok b') ↔ P c) → ((∃ b', l.foldlM f b = .ok b') ↔ ∀ c ∈ l, P c)
  | [], b, _ => ⟨fun _ _ hc => (List.not_mem_nil hc).elim, fun _ => ⟨b, rfl⟩⟩
  | c :: l, b, h => by
    have hc := h b c List.mem_cons_self
    have hl : ∀ b, (∃ b', l.foldlM f b = .ok b') ↔ ∀ c ∈ l, P c := fun b =>
      exists_foldlM_ok_iff fun b c hc => h b c (List.mem_cons_of_mem _ hc)
    rw [List.forall_mem_cons, ← hc]
    constructor
    · rintro ⟨b', hb'⟩
      rw [List.foldlM_cons, bind_ok] at hb'
      obtain ⟨b₁, hf, hrest⟩ := hb'
      exact ⟨⟨b₁, hf⟩, (hl b₁).mp ⟨b', hrest⟩⟩
    · rintro ⟨⟨b₁, hf⟩, hall⟩
      obtain ⟨b', hrest⟩ := (hl b₁).mpr hall
      exact ⟨b', by rw [List.foldlM_cons, bind_ok]; exact ⟨b₁, hf, hrest⟩⟩

end ShipInfer
