import Mathlib.Data.Fintype.Card
import Mathlib.Data.Fintype.EquivFin
import Mathlib.Logic.Relation
import Mathlib.Order.WellFounded
import FxIP.Lib.Comp

/-!
# Loops over finitely many states

The rounds of such a loop are a function of its state. It runs for ever exactly
if it comes to a state twice.
-/

namespace Comp

open Relation

universe u

variable {σ ρ : Type u} {f : σ → σ ⊕ ρ} {s t u : σ} {r : ρ}

theorem not_diverges_pure {α : Type u} {a : α} : ¬ (pure a : Comp α).Diverges :=
  fun h => h a (returns_pure.mpr rfl)

theorem diverges_bind {α β : Type u} {c : Comp α} {g : α → Comp β}
    (hg : ∀ a, ∃ b, (g a).Returns b) :
    (c >>= g).Diverges ↔ c.Diverges := by
  constructor
  · intro h a ha
    obtain ⟨b, hb⟩ := hg a
    exact h b (returns_bind.mpr ⟨a, ha, hb⟩)
  · intro h b hb
    obtain ⟨a, ha, -⟩ := returns_bind.mp hb
    exact h a ha

/-- The loop goes round from `s` to `t`. -/
def Goes (f : σ → σ ⊕ ρ) (s t : σ) : Prop := f s = .inl t

/-- From `s` the loop comes to a state, and to that again. -/
def Cycles (f : σ → σ ⊕ ρ) (s : σ) : Prop := ∃ t, ReflTransGen (Goes f) s t ∧ TransGen (Goes f) t t

theorem Goes.unique (h : Goes f s t) (h' : Goes f s u) : t = u := Sum.inl.inj (h.symm.trans h')

theorem Goes.cycle (h : Goes f s t) (hs : TransGen (Goes f) s s) : TransGen (Goes f) t t := by
  obtain ⟨u, hu, hback⟩ := TransGen.head'_iff.mp hs
  obtain rfl := h.unique hu
  exact TransGen.tail' hback h

theorem returns_of_exits (h : ReflTransGen (Goes f) s t) (hr : f t = .inr r) :
    (loop (fun s => pure (f s)) s).Returns r := by
  induction h using ReflTransGen.head_induction_on with
  | refl => exact Returns.loop_exit (returns_pure.mpr hr)
  | head hstep _ ih => exact Returns.loop_again (returns_pure.mpr hstep) ih

theorem Cycles.goes (h : Cycles f s) : ∃ t, Goes f s t ∧ Cycles f t := by
  obtain ⟨u, hreach, hcycle⟩ := h
  rcases ReflTransGen.cases_head hreach with rfl | ⟨t, hstep, hrest⟩
  · obtain ⟨t, hstep, -⟩ := TransGen.head'_iff.mp hcycle
    exact ⟨t, hstep, t, .refl, hstep.cycle hcycle⟩
  · exact ⟨t, hstep, u, hrest, hcycle⟩

theorem Cycles.diverges (h : Cycles f s) : (loop (fun s => pure (f s)) s).Diverges := by
  intro r hr
  refine Returns.loop_invariant (Cycles f) (fun _ => False) (fun s t hs hround => ?_)
    (fun s r hs hround => ?_) h hr
  · obtain ⟨u, hstep, hcycles⟩ := hs.goes
    obtain rfl : u = t := hstep.unique (returns_pure.mp hround)
    exact hcycles
  · obtain ⟨u, hstep, -⟩ := hs.goes
    cases hstep.symm.trans (returns_pure.mp hround)

theorem exits_of_not_cycles [Finite σ] (h : ¬ Cycles f s) :
    ∃ t r, ReflTransGen (Goes f) s t ∧ f t = .inr r := by
  let Reached := { t // ReflTransGen (Goes f) s t }
  let after (a b : Reached) : Prop := TransGen (Goes f) b.1 a.1
  have htrans : IsTrans Reached after := ⟨fun _ _ _ hab hbc => hbc.trans hab⟩
  have hirrefl : Std.Irrefl after := ⟨fun a ha => h ⟨a.1, a.2, ha⟩⟩
  obtain ⟨last, -, hlast⟩ :=
    (Finite.wellFounded_of_trans_of_irrefl after).has_min Set.univ ⟨⟨s, .refl⟩, trivial⟩
  cases hround : f last.1 with
  | inl t =>
    have hstep : Goes f last.1 t := hround
    exact absurd (TransGen.single hstep) (hlast ⟨t, last.2.tail hstep⟩ trivial)
  | inr r => exact ⟨last.1, r, last.2, hround⟩

theorem diverges_iff_cycles [Finite σ] : (loop (fun s => pure (f s)) s).Diverges ↔ Cycles f s := by
  refine ⟨fun hdiv => ?_, Cycles.diverges⟩
  by_contra hnot
  obtain ⟨t, r, hreach, hr⟩ := exits_of_not_cycles hnot
  exact hdiv r (returns_of_exits hreach hr)

end Comp
