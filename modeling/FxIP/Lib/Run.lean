import Mathlib.Data.List.Induction
import Mathlib.Tactic.ByContra

/-!
# Runs of a transition relation

`Run step s es t`: the events `es`, in order, lead from `s` to `t`. A property
of every run is an invariant; an invariant that needs a condition on the steps
is an invariant of the runs of the `Guarded` relation.
-/

universe u v

variable {σ : Type u} {ε : Type v}

inductive Run (step : σ → ε → σ → Prop) (s : σ) : List ε → σ → Prop
  | nil : Run step s [] s
  | snoc {es t e u} : Run step s es t → step t e u → Run step s (es ++ [e]) u

namespace Run

variable {step step' : σ → ε → σ → Prop} {s t u : σ} {e : ε} {es fs : List ε}

theorem nil_iff : Run step s [] t ↔ t = s := by
  constructor
  · intro h
    generalize hes : ([] : List ε) = es at h
    cases h with
    | nil => rfl
    | snoc _ _ => simp at hes
  · rintro rfl
    exact .nil

theorem snoc_iff : Run step s (es ++ [e]) u ↔ ∃ t, Run step s es t ∧ step t e u := by
  constructor
  · intro h
    generalize hes : es ++ [e] = gs at h
    cases h with
    | nil => simp at hes
    | snoc h1 h2 =>
      obtain ⟨rfl, he⟩ := List.append_inj' hes rfl
      obtain rfl := List.singleton_inj.mp he
      exact ⟨_, h1, h2⟩
  · rintro ⟨t, h1, h2⟩
    exact h1.snoc h2

theorem append (h : Run step s es t) (h' : Run step t fs u) : Run step s (es ++ fs) u := by
  induction h' with
  | nil => simpa using h
  | snoc _ hstep ih => simpa [← List.append_assoc] using ih.snoc hstep

theorem split (h : Run step s (es ++ fs) u) : ∃ t, Run step s es t ∧ Run step t fs u := by
  induction fs using List.reverseRecOn generalizing u with
  | nil => exact ⟨u, by simpa using h, .nil⟩
  | append_singleton fs e ih =>
    rw [← List.append_assoc, snoc_iff] at h
    obtain ⟨v, hv, hstep⟩ := h
    obtain ⟨t, ht, hr⟩ := ih hv
    exact ⟨t, ht, hr.snoc hstep⟩

theorem cons_iff : Run step s (e :: es) u ↔ ∃ t, step s e t ∧ Run step t es u := by
  constructor
  · intro h
    obtain ⟨t, ht, hr⟩ := split (show Run step s ([e] ++ es) u from h)
    obtain ⟨s', hs', hstep⟩ := snoc_iff.mp (show Run step s ([] ++ [e]) t from ht)
    obtain rfl := nil_iff.mp hs'
    exact ⟨t, hstep, hr⟩
  · rintro ⟨t, hstep, hr⟩
    have h1 : Run step s [e] t := Run.nil.snoc hstep
    exact h1.append hr

theorem unique (hdet : ∀ t e u u', step t e u → step t e u' → u = u')
    (h : Run step s es t) (h' : Run step s es u) : t = u := by
  induction h generalizing u with
  | nil => exact (nil_iff.mp h').symm
  | snoc _ hs ih =>
    obtain ⟨w, hw, hsw⟩ := snoc_iff.mp h'
    obtain rfl := ih hw
    exact hdet _ _ _ _ hs hsw

theorem invariant (I : List ε → σ → Prop) (h0 : I [] s)
    (hstep : ∀ es t e u, Run step s es t → I es t → step t e u → I (es ++ [e]) u)
    (h : Run step s es t) : I es t := by
  induction h with
  | nil => exact h0
  | snoc h1 h2 ih => exact hstep _ _ _ _ h1 ih h2

theorem mono (hle : ∀ t e u, step t e u → step' t e u) (h : Run step s es t) :
    Run step' s es t := by
  induction h with
  | nil => exact .nil
  | snoc _ h2 ih => exact ih.snoc (hle _ _ _ h2)

theorem map {τ : Type*} {step' : τ → ε → τ → Prop} (f : σ → τ)
    (hle : ∀ t e u, step t e u → step' (f t) e (f u))
    (h : Run step s es t) : Run step' (f s) es (f t) := by
  induction h with
  | nil => exact .nil
  | snoc _ h2 ih => exact ih.snoc (hle _ _ _ h2)

theorem of_foldlM {f : σ → ε → Option σ} (h : es.foldlM f s = some t) :
    Run (fun s e t => f s e = some t) s es t := by
  induction es generalizing s with
  | nil => exact nil_iff.mpr (Option.some.inj h).symm
  | cons e es ih =>
    rw [List.foldlM_cons, Option.bind_eq_bind, Option.bind_eq_some_iff] at h
    obtain ⟨u, hu, hrest⟩ := h
    exact cons_iff.mpr ⟨u, hu, ih hrest⟩

-- ---------------------------------------------------------------------------
-- Conditions on the steps
-- ---------------------------------------------------------------------------

/-- The steps taken where `C` holds of the state and the event. -/
def Guarded (C : σ → ε → Prop) (step : σ → ε → σ → Prop) (t : σ) (e : ε) (u : σ) : Prop :=
  C t e ∧ step t e u

theorem of_guarded {C : σ → ε → Prop} (h : Run (Guarded C step) s es t) : Run step s es t :=
  h.mono fun _ _ _ hg => hg.2

theorem guarded_invariant {C : σ → ε → Prop} (h : Run (Guarded C step) s es t)
    (I : σ → Prop) (h0 : I s) (hstep : ∀ t e u, C t e → step t e u → I t → I u) : I t :=
  h.invariant (fun _ t => I t) h0 fun _ _ _ _ _ hi hst => hstep _ _ _ hst.1 hst.2 hi

theorem guarded_of_foldlM {C : σ → ε → Prop} [∀ s e, Decidable (C s e)] {f : σ → ε → Option σ}
    (hf : ∀ s e t, f s e = some t → step s e t)
    (h : es.foldlM (fun s e => if C s e then f s e else none) s = some t) :
    Run (Guarded C step) s es t := by
  refine (of_foldlM h).mono fun t e u hu => ?_
  split at hu
  · rename_i hc
    exact ⟨hc, hf _ _ _ hu⟩
  · cases hu

-- ---------------------------------------------------------------------------
-- Simulation
-- ---------------------------------------------------------------------------

/-- Where every step leads from related states to related states, by a run of the
other relation, so does every run. -/
theorem simulates {τ φ : Type*} {step' : τ → φ → τ → Prop} {R : σ → τ → Prop} {t₀ : τ}
    (hsim : ∀ s t e s', R s t → step s e s' → ∃ fs t', Run step' t fs t' ∧ R s' t')
    (h0 : R s t₀) (h : Run step s es u) : ∃ fs t', Run step' t₀ fs t' ∧ R u t' := by
  induction h with
  | nil => exact ⟨[], t₀, .nil, h0⟩
  | snoc _ hstep ih =>
    obtain ⟨fs, t', hrun, hrel⟩ := ih
    obtain ⟨fs', t'', hrun', hrel'⟩ := hsim _ _ _ _ hrel hstep
    exact ⟨fs ++ fs', t'', hrun.append hrun', hrel'⟩

-- ---------------------------------------------------------------------------
-- Every state of a run
-- ---------------------------------------------------------------------------

/-- The state after every prefix of the events satisfies `P`. -/
def Always (step : σ → ε → σ → Prop) (P : σ → Prop) (s : σ) (es : List ε) : Prop :=
  ∀ fs t, fs <+: es → Run step s fs t → P t

theorem always_nil {P : σ → Prop} : Always step P s [] ↔ P s := by
  constructor
  · intro h
    exact h [] s List.prefix_rfl .nil
  · rintro h fs t hfs hr
    obtain rfl := List.prefix_nil.mp hfs
    exact nil_iff.mp hr ▸ h

theorem always_snoc {P : σ → Prop} :
    Always step P s (es ++ [e]) ↔
      Always step P s es ∧ ∀ t, Run step s (es ++ [e]) t → P t := by
  constructor
  · intro h
    exact ⟨fun fs t hfs => h fs t (hfs.trans (List.prefix_append _ _)),
      fun t => h _ t List.prefix_rfl⟩
  · rintro ⟨h1, h2⟩ fs t hfs hr
    rcases List.prefix_concat_iff.mp hfs with rfl | hfs
    · exact h2 t hr
    · exact h1 fs t hfs hr

theorem Always.snoc {P : σ → Prop} (hdet : ∀ t e u u', step t e u → step t e u' → u = u')
    (h : Always step P s es) (hrun : Run step s (es ++ [e]) t) (ht : P t) :
    Always step P s (es ++ [e]) :=
  always_snoc.mpr ⟨h, fun _ hu => unique hdet hrun hu ▸ ht⟩

/-- The exact condition for a property of every state of a run: when a step
from a good state leads to a state with `P` exactly if it meets `C`, and then
to a good state, the runs with `P` in every state are those whose steps all
meet `C`. -/
theorem always_iff_guarded {C : σ → ε → Prop} {P I : σ → Prop}
    (hdet : ∀ t e u u', step t e u → step t e u' → u = u')
    (h0 : I s) (hP : ∀ t, I t → P t)
    (hgood : ∀ t e u, I t → step t e u → C t e → I u)
    (hbad : ∀ t e u, I t → step t e u → ¬ C t e → ¬ P u)
    (h : Run step s es t) : Always step P s es ↔ Run (Guarded C step) s es t := by
  have hI : ∀ es t, Run (Guarded C step) s es t → I t := fun _ _ hr =>
    hr.guarded_invariant I h0 fun t e u hc hstep hi => hgood t e u hi hstep hc
  induction h with
  | nil =>
    exact ⟨fun _ => .nil, fun _ => always_nil.mpr (hP s h0)⟩
  | @snoc es t e u h1 h2 ih =>
    constructor
    · intro hall
      obtain ⟨hpre, hlast⟩ := always_snoc.mp hall
      have hr := ih.mp hpre
      refine hr.snoc ⟨?_, h2⟩
      by_contra hc
      exact hbad t e u (hI _ _ hr) h2 hc (hlast u (h1.snoc h2))
    · intro hrun
      obtain ⟨t', hr, hc, hstep⟩ := snoc_iff.mp hrun
      obtain rfl := unique hdet h1 (of_guarded hr)
      refine always_snoc.mpr ⟨ih.mpr hr, fun v hv => ?_⟩
      obtain rfl := unique hdet hv (h1.snoc h2)
      exact hP _ (hgood _ _ _ (hI _ _ hr) h2 hc)

theorem iff_guarded {C : σ → ε → Prop} {P I : σ → Prop}
    (hlost : ∀ t e u, step t e u → P u → P t)
    (h0 : I s) (hP : ∀ t, I t → P t)
    (hgood : ∀ t e u, I t → step t e u → C t e → I u)
    (hbad : ∀ t e u, I t → step t e u → ¬ C t e → ¬ P u)
    (h : Run step s es t) : P t ↔ Run (Guarded C step) s es t := by
  have hI : ∀ es t, Run (Guarded C step) s es t → I t := fun _ _ hr =>
    hr.guarded_invariant I h0 fun t e u hc hstep hi => hgood t e u hi hstep hc
  refine ⟨fun hp => ?_, fun hr => hP t (hI es t hr)⟩
  induction h with
  | nil => exact .nil
  | @snoc es t e u _ hstep ih =>
    have hr := ih (hlost t e u hstep hp)
    refine hr.snoc ⟨?_, hstep⟩
    by_contra hc
    exact hbad t e u (hI es t hr) hstep hc hp

end Run
