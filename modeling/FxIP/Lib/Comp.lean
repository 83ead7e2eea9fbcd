import Mathlib.Init

/-!
# Computations that may run for ever

A `Comp α` answers, for every amount of fuel, with a result or with nothing
yet. More fuel never changes a result, and that is a field of the structure.
Loops are written with `Comp.loop`; `Comp.Ensures` is total correctness, and
`loop_ensures` and `loop_diverges` are the two rules for loops.
-/

universe u v w

structure Comp (α : Type u) where
  run : Nat → Option α
  mono : ∀ {n m a}, n ≤ m → run n = some a → run m = some a

namespace Comp

variable {α : Type u} {β : Type v} {σ : Type u} {ρ : Type u}

/-- The computation returns `a`. -/
def Returns (c : Comp α) (a : α) : Prop := ∃ n, c.run n = some a

/-- The computation returns, and its result satisfies `Q`. -/
def Ensures (c : Comp α) (Q : α → Prop) : Prop := ∃ a, c.Returns a ∧ Q a

def Diverges (c : Comp α) : Prop := ∀ a, ¬ c.Returns a

theorem Returns.unique {c : Comp α} {a b : α} (ha : c.Returns a) (hb : c.Returns b) : a = b := by
  obtain ⟨n, hn⟩ := ha
  obtain ⟨m, hm⟩ := hb
  have h1 := c.mono (Nat.le_max_left n m) hn
  have h2 := c.mono (Nat.le_max_right n m) hm
  exact Option.some.inj (h1.symm.trans h2)

theorem Ensures.mono {c : Comp α} {P Q : α → Prop} (h : c.Ensures P) (hpq : ∀ a, P a → Q a) :
    c.Ensures Q := by
  obtain ⟨a, ha, hp⟩ := h
  exact ⟨a, ha, hpq a hp⟩

theorem Ensures.of_returns {c : Comp α} {Q : α → Prop} {a : α} (h : c.Ensures Q)
    (ha : c.Returns a) : Q a := by
  obtain ⟨b, hb, hq⟩ := h
  exact ha.unique hb ▸ hq

theorem Returns.ensures {c : Comp α} {Q : α → Prop} {a : α} (h : c.Returns a) (hq : Q a) :
    c.Ensures Q := ⟨a, h, hq⟩

-- ---------------------------------------------------------------------------
-- Sequencing
-- ---------------------------------------------------------------------------

protected def pure (a : α) : Comp α where
  run _ := some a
  mono _ h := h

protected def bind (c : Comp α) (f : α → Comp β) : Comp β where
  run n := (c.run n).bind fun a => (f a).run n
  mono := by
    intro n m b hnm h
    obtain ⟨a, ha, hb⟩ := Option.bind_eq_some_iff.mp h
    exact Option.bind_eq_some_iff.mpr ⟨a, c.mono hnm ha, (f a).mono hnm hb⟩

instance : Monad Comp where
  pure := Comp.pure
  bind := Comp.bind

@[simp] theorem run_pure (a : α) (n : Nat) : (pure a : Comp α).run n = some a := rfl

@[simp] theorem run_bind {α β : Type u} (c : Comp α) (f : α → Comp β) (n : Nat) :
    (c >>= f).run n = (c.run n).bind fun a => (f a).run n := rfl

@[simp] theorem returns_pure {a b : α} : (pure a : Comp α).Returns b ↔ a = b := by
  simp [Returns]

@[simp] theorem ensures_pure {a : α} {Q : α → Prop} : (pure a : Comp α).Ensures Q ↔ Q a := by
  simp [Ensures]

theorem returns_bind {α β : Type u} {c : Comp α} {f : α → Comp β} {b : β} :
    (c >>= f).Returns b ↔ ∃ a, c.Returns a ∧ (f a).Returns b := by
  constructor
  · rintro ⟨n, h⟩
    obtain ⟨a, ha, hb⟩ := Option.bind_eq_some_iff.mp h
    exact ⟨a, ⟨n, ha⟩, n, hb⟩
  · rintro ⟨a, ⟨n, hn⟩, m, hm⟩
    refine ⟨max n m, Option.bind_eq_some_iff.mpr ⟨a, c.mono (Nat.le_max_left n m) hn, ?_⟩⟩
    exact (f a).mono (Nat.le_max_right n m) hm

theorem Returns.bind_pure {α β : Type u} {c : Comp α} {f : α → Comp β} {a : α} {b : β}
    (h : c.Returns a) (hf : f a = pure b) : (c >>= f).Returns b :=
  returns_bind.mpr ⟨a, h, hf ▸ returns_pure.mpr rfl⟩

theorem ensures_bind {α β : Type u} {c : Comp α} {f : α → Comp β} {Q : β → Prop} :
    (c >>= f).Ensures Q ↔ c.Ensures fun a => (f a).Ensures Q := by
  constructor
  · rintro ⟨b, hb, hq⟩
    obtain ⟨a, ha, hf⟩ := returns_bind.mp hb
    exact ⟨a, ha, b, hf, hq⟩
  · rintro ⟨a, ha, b, hb, hq⟩
    exact ⟨b, returns_bind.mpr ⟨a, ha, hb⟩, hq⟩

theorem returns_map {α β : Type u} {c : Comp α} {f : α → β} {b : β} :
    (f <$> c).Returns b ↔ ∃ a, c.Returns a ∧ f a = b := by
  refine (returns_bind (f := fun a => pure (f a))).trans ?_
  simp only [returns_pure]

theorem Returns.bind_iff {α β : Type u} {c : Comp α} {f : α → Comp β} {a : α} {b : β}
    (h : c.Returns a) : (c >>= f).Returns b ↔ (f a).Returns b := by
  rw [returns_bind]
  constructor
  · rintro ⟨a', ha', hb⟩
    exact h.unique ha' ▸ hb
  · intro hb
    exact ⟨a, h, hb⟩

-- ---------------------------------------------------------------------------
-- Loops
-- ---------------------------------------------------------------------------

/-- At most `n` rounds of a loop: `inl` goes round again, `inr` leaves. -/
def loopRun (body : σ → Comp (σ ⊕ ρ)) : Nat → σ → Option ρ
  | 0, _ => none
  | n + 1, s => ((body s).run n).bind fun o =>
    match o with
    | .inl s' => loopRun body n s'
    | .inr r => some r

theorem loopRun_mono (body : σ → Comp (σ ⊕ ρ)) {n m : Nat} {s : σ} {r : ρ} (hnm : n ≤ m)
    (h : loopRun body n s = some r) : loopRun body m s = some r := by
  induction n generalizing m s with
  | zero => simp [loopRun] at h
  | succ n ih =>
    obtain ⟨k, rfl⟩ : ∃ k, m = k + 1 := ⟨m - 1, by omega⟩
    simp only [loopRun, Option.bind_eq_some_iff] at h ⊢
    obtain ⟨o, ho, hr⟩ := h
    refine ⟨o, (body s).mono (by omega) ho, ?_⟩
    cases o with
    | inl s' => exact ih (by omega) hr
    | inr r' => exact hr

def loop (body : σ → Comp (σ ⊕ ρ)) (s : σ) : Comp ρ where
  run n := loopRun body n s
  mono := loopRun_mono body

@[simp] theorem run_loop_zero (body : σ → Comp (σ ⊕ ρ)) (s : σ) : (loop body s).run 0 = none := rfl

theorem run_loop_succ (body : σ → Comp (σ ⊕ ρ)) (s : σ) (n : Nat) :
    (loop body s).run (n + 1) = ((body s).run n).bind fun o =>
      match o with
      | .inl s' => (loop body s').run n
      | .inr r => some r := rfl

theorem returns_loop {body : σ → Comp (σ ⊕ ρ)} {s : σ} {r : ρ} :
    (loop body s).Returns r ↔
      (body s).Returns (.inr r) ∨ ∃ s', (body s).Returns (.inl s') ∧ (loop body s').Returns r := by
  constructor
  · rintro ⟨n, h⟩
    cases n with
    | zero => simp at h
    | succ n =>
      rw [run_loop_succ, Option.bind_eq_some_iff] at h
      obtain ⟨o, ho, hr⟩ := h
      cases o with
      | inl s' => exact .inr ⟨s', ⟨n, ho⟩, n, hr⟩
      | inr r' => exact .inl ⟨n, by simpa [Option.some.inj hr] using ho⟩
  · rintro (⟨n, h⟩ | ⟨s', ⟨n, hn⟩, m, hm⟩)
    · exact ⟨n + 1, by simp [run_loop_succ, h]⟩
    · refine ⟨max n m + 1, ?_⟩
      rw [run_loop_succ, (body s).mono (Nat.le_max_left n m) hn]
      exact (loop body s').mono (Nat.le_max_right n m) hm

theorem Returns.loop_exit {body : σ → Comp (σ ⊕ ρ)} {s : σ} {r : ρ}
    (h : (body s).Returns (.inr r)) : (loop body s).Returns r := returns_loop.mpr (.inl h)

theorem Returns.loop_again {body : σ → Comp (σ ⊕ ρ)} {s t : σ} {r : ρ}
    (h : (body s).Returns (.inl t)) (hr : (loop body t).Returns r) : (loop body s).Returns r :=
  returns_loop.mpr (.inr ⟨t, h, hr⟩)

/-- What one round has to establish: the invariant again with a smaller
measure, or the result. -/
def RoundOk (I : σ → Prop) (μ : σ → Nat) (Q : ρ → Prop) (s : σ) : σ ⊕ ρ → Prop
  | .inl s' => I s' ∧ μ s' < μ s
  | .inr r => Q r

theorem loop_ensures {body : σ → Comp (σ ⊕ ρ)} (I : σ → Prop) (μ : σ → Nat) (Q : ρ → Prop)
    (hround : ∀ s, I s → (body s).Ensures (RoundOk I μ Q s)) {s : σ} (hs : I s) :
    (loop body s).Ensures Q := by
  induction hn : μ s using Nat.strongRecOn generalizing s with
  | _ n ih =>
    obtain ⟨o, ho, hok⟩ := hround s hs
    cases o with
    | inr r => exact ⟨r, ho.loop_exit, hok⟩
    | inl s' =>
      obtain ⟨r, hr, hq⟩ := ih (μ s') (hn ▸ hok.2) hok.1 rfl
      exact ⟨r, ho.loop_again hr, hq⟩

theorem Returns.loop_invariant {body : σ → Comp (σ ⊕ ρ)} (I : σ → Prop) (Q : ρ → Prop)
    (hagain : ∀ s s', I s → (body s).Returns (.inl s') → I s')
    (hexit : ∀ s r, I s → (body s).Returns (.inr r) → Q r) {s : σ} {r : ρ} (hs : I s)
    (h : (loop body s).Returns r) : Q r := by
  obtain ⟨n, h⟩ := h
  induction n generalizing s with
  | zero => simp at h
  | succ n ih =>
    rw [run_loop_succ, Option.bind_eq_some_iff] at h
    obtain ⟨o, ho, hr⟩ := h
    cases o with
    | inl s' => exact ih (hagain s s' hs ⟨n, ho⟩) hr
    | inr r' => exact Option.some.inj hr ▸ hexit s r' hs ⟨n, ho⟩

theorem Returns.loop_simulation {τ : Type u} {body : σ → Comp (σ ⊕ ρ)} {body' : τ → Comp (τ ⊕ ρ)}
    (R : σ → τ → Prop)
    (hagain : ∀ s t s', R s t → (body s).Returns (.inl s') → ∃ t', (body' t).Returns (.inl t') ∧
      R s' t')
    (hexit : ∀ s t r, R s t → (body s).Returns (.inr r) → (body' t).Returns (.inr r))
    {s : σ} {t : τ} {r : ρ} (hst : R s t) (h : (loop body s).Returns r) :
    (loop body' t).Returns r := by
  obtain ⟨n, h⟩ := h
  induction n generalizing s t with
  | zero => simp at h
  | succ n ih =>
    rw [run_loop_succ, Option.bind_eq_some_iff] at h
    obtain ⟨o, ho, hr⟩ := h
    cases o with
    | inl s' =>
      obtain ⟨t', ht', hst'⟩ := hagain s t s' hst ⟨n, ho⟩
      exact ht'.loop_again (ih hst' hr)
    | inr r' => exact (hexit s t r hst ⟨n, Option.some.inj hr ▸ ho⟩).loop_exit

theorem Returns.loop_forget {τ ρ' : Type u} {body : σ → Comp (σ ⊕ ρ)} {body' : τ → Comp (τ ⊕ ρ')}
    (f : τ → σ)
    (g : ρ' → ρ) (hround : ∀ t o, (body' t).Returns o → (body (f t)).Returns (o.map f g))
    {t : τ} {r : ρ'} (h : (loop body' t).Returns r) : (loop body (f t)).Returns (g r) := by
  obtain ⟨n, h⟩ := h
  induction n generalizing t with
  | zero => simp at h
  | succ n ih =>
    rw [run_loop_succ, Option.bind_eq_some_iff] at h
    obtain ⟨o, ho, hr⟩ := h
    have hbody := hround t o ⟨n, ho⟩
    cases o with
    | inl t' => exact hbody.loop_again (ih hr)
    | inr r' => exact Option.some.inj hr ▸ hbody.loop_exit

-- ---------------------------------------------------------------------------
-- Traces of loops
-- ---------------------------------------------------------------------------

/-- A loop that also returns what its rounds emitted, one after the other. -/
def loopTraced {τ : Type u} (emit : σ → List τ) (body : σ → Comp (σ ⊕ ρ)) (s : List τ × σ) :
    Comp (List τ × ρ) :=
  loop (fun s => do
    let o ← body s.2
    pure (o.map (fun t => (s.1 ++ emit s.2, t)) fun r => (s.1 ++ emit s.2, r))) s

section
variable {τ : Type u} {emit : σ → List τ} {body : σ → Comp (σ ⊕ ρ)} {trace trace' : List τ}
    {s t : σ} {r : ρ}

theorem returns_loopTraced {x : List τ × ρ} :
    (loopTraced emit body (trace, s)).Returns x ↔
      (∃ r, (body s).Returns (.inr r) ∧ x = (trace ++ emit s, r)) ∨
        ∃ t, (body s).Returns (.inl t) ∧ (loopTraced emit body (trace ++ emit s, t)).Returns x := by
  rw [loopTraced, returns_loop]
  constructor
  · rintro (h | ⟨t, h, hrest⟩)
    · obtain ⟨o, ho, hx⟩ := returns_bind.mp h
      cases o with
      | inl _ => cases returns_pure.mp hx
      | inr r => exact .inl ⟨r, ho, (Sum.inr.inj (returns_pure.mp hx)).symm⟩
    · obtain ⟨o, ho, ht⟩ := returns_bind.mp h
      cases o with
      | inl t' =>
        obtain rfl := Sum.inl.inj (returns_pure.mp ht)
        exact .inr ⟨t', ho, hrest⟩
      | inr _ => cases returns_pure.mp ht
  · rintro (⟨r, h, rfl⟩ | ⟨t, h, hrest⟩)
    · exact .inl (h.bind_pure rfl)
    · exact .inr ⟨_, h.bind_pure rfl, hrest⟩

theorem Returns.traced_exit (h : (body s).Returns (.inr r)) :
    (loopTraced emit body (trace, s)).Returns (trace ++ emit s, r) :=
  returns_loopTraced.mpr (.inl ⟨r, h, rfl⟩)

theorem Returns.traced_again (h : (body s).Returns (.inl t))
    (hr : (loopTraced emit body (trace ++ emit s, t)).Returns (trace', r)) :
    (loopTraced emit body (trace, s)).Returns (trace', r) :=
  returns_loopTraced.mpr (.inr ⟨t, h, hr⟩)

theorem Returns.traced (trace : List τ) (h : (loop body s).Returns r) :
    ∃ trace', (loopTraced emit body (trace, s)).Returns (trace', r) := by
  obtain ⟨n, h⟩ := h
  induction n generalizing s trace with
  | zero => simp at h
  | succ n ih =>
    rw [run_loop_succ, Option.bind_eq_some_iff] at h
    obtain ⟨o, ho, hr⟩ := h
    cases o with
    | inl t =>
      obtain ⟨trace', htraced⟩ := ih (trace ++ emit s) hr
      exact ⟨trace', .traced_again ⟨n, ho⟩ htraced⟩
    | inr r' =>
      obtain rfl := Option.some.inj hr
      exact ⟨_, .traced_exit ⟨n, ho⟩⟩

theorem Returns.untraced (h : (loopTraced emit body (trace, s)).Returns (trace', r)) :
    (loop body s).Returns r := by
  refine Returns.loop_forget (Prod.snd : List τ × σ → σ) Prod.snd (fun t o hround => ?_) h
  obtain ⟨o', ho', heq⟩ := returns_bind.mp hround
  obtain rfl := returns_pure.mp heq
  cases o' with
  | inl _ => exact ho'
  | inr _ => exact ho'

theorem returns_iff_traced (trace : List τ) :
    (loop body s).Returns r ↔ ∃ trace', (loopTraced emit body (trace, s)).Returns (trace', r) :=
  ⟨Returns.traced trace, fun ⟨_, h⟩ => h.untraced⟩

end

-- ---------------------------------------------------------------------------
-- Loops that run for ever
-- ---------------------------------------------------------------------------

/-- The states a loop comes to at the head of its rounds. -/
inductive Rounds (body : σ → Comp (σ ⊕ ρ)) (s : σ) : σ → Prop
  | refl : Rounds body s s
  | again {t u} : Rounds body s t → (body t).Returns (.inl u) → Rounds body s u

theorem Rounds.invariant {body : σ → Comp (σ ⊕ ρ)} (I : σ → Prop)
    (hagain : ∀ s s', I s → (body s).Returns (.inl s') → I s') {s t : σ} (hs : I s)
    (h : Rounds body s t) : I t := by
  induction h with
  | refl => exact hs
  | again _ hround ih => exact hagain _ _ ih hround

theorem loop_diverges {body : σ → Comp (σ ⊕ ρ)} (I : σ → Prop)
    (hround : ∀ s, I s → ∀ o, (body s).Returns o → ∃ s', o = .inl s' ∧ I s') {s : σ} (hs : I s) :
    (loop body s).Diverges := by
  rintro r ⟨n, h⟩
  induction n generalizing s with
  | zero => simp at h
  | succ n ih =>
    rw [run_loop_succ, Option.bind_eq_some_iff] at h
    obtain ⟨o, ho, hr⟩ := h
    obtain ⟨s', rfl, hs'⟩ := hround s hs o ⟨n, ho⟩
    exact ih hs' hr

end Comp
