import Mathlib

/-!
# Runs of a labelled transition system

A system is a relation `step s a t` on states and labels. `Reaches step ok s t` holds when a run
leads from `s` to `t` and every step of it meets the side condition `ok` on the state it starts
from and its label; `ok := fun _ _ => True` gives all runs.
-/

namespace Library

variable {σ α : Type*} {step : σ → α → σ → Prop} {ok : σ → α → Prop}

/-- Some run from one state to another takes only steps that meet `ok`. -/
def Reaches (step : σ → α → σ → Prop) (ok : σ → α → Prop) : σ → σ → Prop :=
  Relation.ReflTransGen fun s t => ∃ a, ok s a ∧ step s a t

/-- Every run, whatever its steps. -/
def anyStep (_ : σ) (_ : α) : Prop := True

namespace Reaches

lemma refl (s : σ) : Reaches step ok s s := Relation.ReflTransGen.refl

lemma trans {s t u : σ} (h : Reaches step ok s t) (h' : Reaches step ok t u) :
    Reaches step ok s u := Relation.ReflTransGen.trans h h'

lemma tail {s t u : σ} (a : α) (h : Reaches step ok s t) (hok : ok t a) (hs : step t a u) :
    Reaches step ok s u := Relation.ReflTransGen.tail h ⟨a, hok, hs⟩

/-- Permitting more steps keeps the run. -/
theorem weaken {ok' : σ → α → Prop} (more : ∀ s a, ok s a → ok' s a) {s t : σ}
    (h : Reaches step ok s t) : Reaches step ok' s t := by
  refine Relation.ReflTransGen.mono ?_ s t h
  rintro u v ⟨a, hok, hs⟩
  exact ⟨a, more u a hok, hs⟩

/-- A property kept by every permitted step holds along every permitted run. -/
theorem invariant {I : σ → Prop} (keep : ∀ s a t, I s → ok s a → step s a t → I t)
    {s t : σ} (h : Reaches step ok s t) (hs : I s) : I t := by
  induction h with
  | refl => exact hs
  | tail _ h ih =>
    obtain ⟨a, hok, hstep⟩ := h
    exact keep _ a _ ih hok hstep

end Reaches

end Library
