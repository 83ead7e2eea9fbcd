import Mathlib.Init

/-!
# The wire behind a stop-and-wait sender

A sender that has at most one segment unacknowledged puts new segments on the
wire, and repeats of the last one. `first` are the segments as they were first
sent; their order is the order of the stream. A repeat is kept with the
position of the segment it stands for.
-/

universe u

structure Wire (α : Type u) where
  first : List α
  again : List (Nat × α)
  deriving Repr, DecidableEq

namespace Wire

variable {α : Type u} {w : Wire α} {P : α → Prop} {x y : α}

def init : Wire α where
  first := []
  again := []

def send (w : Wire α) (x : α) : Wire α := { w with first := w.first ++ [x] }

def repeatLast (w : Wire α) (y : α) : Wire α :=
  { w with again := w.again ++ [(w.first.length - 1, y)] }

/-- Every repeat of a segment with `P` is that segment again. -/
def Faithful (P : α → Prop) (w : Wire α) : Prop :=
  ∀ i y, (i, y) ∈ w.again → ∃ x, w.first[i]? = some x ∧ (P x → y = x)

theorem faithful_init : Faithful P (init : Wire α) := by
  intro i y hy
  cases hy

theorem Faithful.send (h : Faithful P w) : Faithful P (w.send x) := by
  intro i y hy
  obtain ⟨x', hx', heq⟩ := h i y hy
  refine ⟨x', ?_, heq⟩
  have hlt : i < w.first.length := (List.getElem?_eq_some_iff.mp hx').1
  rw [Wire.send, List.getElem?_append_left hlt, hx']

theorem Faithful.repeatLast (h : Faithful P w) (hx : w.first.getLast? = some x) (hy : P x → y = x) :
    Faithful P (w.repeatLast y) := by
  intro i y' hmem
  rcases List.mem_append.mp hmem with hmem | hmem
  · exact h i y' hmem
  · obtain ⟨rfl, rfl⟩ := Prod.mk.inj (List.mem_singleton.mp hmem)
    exact ⟨x, List.getLast?_eq_getElem? ▸ hx, hy⟩

@[simp] theorem first_send : (w.send x).first = w.first ++ [x] := rfl

end Wire
