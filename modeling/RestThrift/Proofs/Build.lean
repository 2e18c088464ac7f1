import Mathlib
import RestThrift.Convert.Function

/-!
# Successful runs

Statements about a conversion are statements about the runs that do not fail. A successful run of
a program is taken apart into the successful runs of its steps.
-/
namespace RestThrift.Convert

section Runs

variable {σ ε α β : Type} {s s' : σ} {a : α} {b : β}

/-- The program ends with a result and a state. -/
def Runs (x : StateT σ (Except ε) α) (s : σ) (a : α) (s' : σ) : Prop := x.run s = .ok (a, s')

theorem bind_eq_ok {x : Except ε α} {f : α → Except ε β} :
    x >>= f = .ok b ↔ ∃ a, x = .ok a ∧ f a = .ok b := by
  cases x <;> simp [bind, Except.bind]

/-- In the notation of programs, so that a long program is taken apart from its front and what is
behind is left alone. -/
theorem bind_eq_some {x : Option α} {f : α → Option β} :
    x >>= f = some b ↔ ∃ a, x = some a ∧ f a = some b :=
  Option.bind_eq_some_iff

theorem map_eq_ok {x : Except ε α} {f : α → β} : x.map f = .ok b ↔ ∃ a, x = .ok a ∧ f a = b := by
  cases x <;> simp [Except.map]

theorem mapM_keeps {P : β → Prop} {f : α → Except ε β} {l : List α} {bs : List β}
    (hstep : ∀ a ∈ l, ∀ b, f a = .ok b → P b) (h : l.mapM f = .ok bs) : ∀ b ∈ bs, P b := by
  induction l generalizing bs with
  | nil =>
    obtain rfl := Except.ok.inj h
    exact fun _ h => absurd h List.not_mem_nil
  | cons a rest ih =>
    obtain ⟨hfirst, hrest⟩ := List.forall_mem_cons.mp hstep
    simp only [List.mapM_cons, bind_eq_ok] at h
    obtain ⟨b, hb, others, hothers, h⟩ := h
    obtain rfl := Except.ok.inj h
    exact List.forall_mem_cons.mpr ⟨hfirst b hb, ih hrest hothers⟩

theorem mapM_congr {m : Type → Type} [Monad m] [LawfulMonad m] {f g : α → m β} {l : List α}
    (h : ∀ a ∈ l, f a = g a) : l.mapM f = l.mapM g := by
  induction l with
  | nil => rfl
  | cons a rest ih =>
    obtain ⟨ha, hrest⟩ := List.forall_mem_cons.mp h
    simp only [List.mapM_cons, ha, ih hrest]

theorem runs_pure {c : α} : Runs (pure c : StateT σ (Except ε) α) s a s' ↔ a = c ∧ s' = s := by
  change Except.ok (c, s) = Except.ok (a, s') ↔ _
  simp only [Except.ok.injEq, Prod.mk.injEq, eq_comm]

theorem runs_bind {x : StateT σ (Except ε) α} {f : α → StateT σ (Except ε) β} :
    Runs (x >>= f) s b s' ↔ ∃ a t, Runs x s a t ∧ Runs (f a) t b s' := by
  simp only [Runs, StateT.run_bind]
  cases x.run s with
  | error e => simp [bind, Except.bind]
  | ok out =>
    change (f out.1).run out.2 = _ ↔ _
    constructor
    · exact fun h => ⟨out.1, out.2, rfl, h⟩
    · rintro ⟨a, t, hout, h⟩
      cases hout
      exact h

theorem runs_lift {x : Except ε α} :
    Runs (liftM x : StateT σ (Except ε) α) s a s' ↔ x = .ok a ∧ s' = s := by
  cases x with
  | error e => simp [Runs, bind, Except.bind]
  | ok c =>
    simp [Runs, pure, Except.pure, bind, Except.bind]
    tauto

theorem runs_throw {e : ε} : ¬ Runs (throw e : StateT σ (Except ε) α) s a s' := by
  simp [Runs, throw, throwThe, MonadExceptOf.throw]

theorem runs_get {t : σ} : Runs (get : StateT σ (Except ε) σ) s t s' ↔ t = s ∧ s' = s := by
  simp only [Runs, StateT.run_get, pure, Except.pure, Except.ok.injEq, Prod.mk.injEq]
  tauto

theorem runs_set {t : σ} {u : PUnit} :
    Runs (set t : StateT σ (Except ε) PUnit) s u s' ↔ s' = t := by
  simp only [Runs, StateT.run_set, pure, Except.pure, Except.ok.injEq, Prod.mk.injEq]
  tauto

theorem runs_modify {f : σ → σ} {u : PUnit} :
    Runs (modify f : StateT σ (Except ε) PUnit) s u s' ↔ s' = f s := by
  simp only [Runs, StateT.run_modify, pure, Except.pure, Except.ok.injEq, Prod.mk.injEq]
  tauto

section Related

variable {R : α → β → Prop} {l : List α} {l' : List β}

theorem exists_right_of_forall₂ (h : List.Forall₂ R l l') (ha : a ∈ l) : ∃ b ∈ l', R a b := by
  induction h with
  | nil => simp at ha
  | cons hab _ ih =>
    rcases List.mem_cons.mp ha with rfl | ha
    · exact ⟨_, List.mem_cons_self, hab⟩
    · obtain ⟨b, hb, hr⟩ := ih ha
      exact ⟨b, List.mem_cons_of_mem _ hb, hr⟩

theorem exists_left_of_forall₂ (h : List.Forall₂ R l l') (hb : b ∈ l') : ∃ a ∈ l, R a b :=
  exists_right_of_forall₂ h.flip hb

/-- Entries that give the same as their partners give the same list. -/
theorem map_eq_of_forall₂ {γ : Type} {f : α → γ} {g : β → γ} (h : List.Forall₂ R l l')
    (hR : ∀ a b, R a b → g b = f a) : l'.map g = l.map f := by
  induction h with
  | nil => rfl
  | cons hab _ ih => rw [List.map_cons, List.map_cons, ih, hR _ _ hab]

end Related

/-- A program run on each entry of a list in turn: where each run moves the state along a relation
and what it says of its result stays true along it, all results are as said at the end. -/
theorem runs_mapM {R : σ → σ → Prop} {P : σ → α → β → Prop} {I : σ → Prop}
    {f : α → StateT σ (Except ε) β} (hrefl : ∀ s, R s s)
    (htrans : ∀ {s t u}, R s t → R t u → R s u) (hinv : ∀ {s t}, R s t → I s → I t)
    (hmono : ∀ {s t a b}, R s t → P s a b → P t a b) {l : List α}
    (hstep : ∀ a ∈ l, ∀ {s b t}, I s → Runs (f a) s b t → R s t ∧ P t a b) {bs : List β}
    (hs : I s) (h : Runs (l.mapM f) s bs s') : R s s' ∧ List.Forall₂ (P s') l bs := by
  induction l generalizing s bs with
  | nil =>
    obtain ⟨rfl, rfl⟩ := runs_pure.mp h
    exact ⟨hrefl _, .nil⟩
  | cons a rest ih =>
    simp only [List.mapM_cons, runs_bind, runs_pure] at h
    obtain ⟨b, t, hb, others, u, hothers, rfl, rfl⟩ := h
    obtain ⟨hst, hp⟩ := hstep a List.mem_cons_self hs hb
    obtain ⟨htu, hrest⟩ :=
      ih (fun a ha => hstep a (List.mem_cons_of_mem _ ha)) (hinv hst hs) hothers
    exact ⟨htrans hst htu, .cons (hmono htu hp) hrest⟩

end Runs

end RestThrift.Convert
