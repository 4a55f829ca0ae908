import Mathlib

/-!
# Runs with and without some of their events

A system takes the events of one party and everything else that happens to it, in any order. Two
systems related by `R` stay related when the first takes all events and the second only those of the
others, as long as the party's events keep the relation on their own.
-/

namespace Library

variable {σ τ α β : Type*}

/-- The state after an interleaving of a party's events and everything else. -/
def interleave (act : σ → α → σ) (other : σ → β → σ) (s : σ) (events : List (α ⊕ β)) : σ :=
  events.foldl (fun s event => event.elim (act s) (other s)) s

/-- What is left of an interleaving without the party's events. -/
def erase (events : List (α ⊕ β)) : List β := events.filterMap Sum.getRight?

/-- The party's events meet `ok` in the states they find. -/
def OkAlong (ok : σ → α → Prop) (act : σ → α → σ) (other : σ → β → σ) :
    σ → List (α ⊕ β) → Prop
  | _, [] => True
  | s, .inl a :: rest => ok s a ∧ OkAlong ok act other (act s a) rest
  | s, .inr b :: rest => OkAlong ok act other (other s b) rest

lemma okAlong_of_all {ok : σ → α → Prop} {act : σ → α → σ} {other : σ → β → σ}
    (all : ∀ s a, ok s a) (s : σ) (events : List (α ⊕ β)) : OkAlong ok act other s events := by
  fun_induction OkAlong ok act other s events <;> simp_all

/-- The erased run is related to the whole one. -/
theorem related_erase {ok : σ → α → Prop} {act : σ → α → σ} {other : σ → β → σ} {other' : τ → β → τ}
    (R : σ → τ → Prop) (quiet : ∀ s t a, R s t → ok s a → R (act s a) t)
    (keep : ∀ s t b, R s t → R (other s b) (other' t b)) {s : σ} {t : τ} (related : R s t)
    (events : List (α ⊕ β)) (fine : OkAlong ok act other s events) :
    R (interleave act other s events) ((erase events).foldl other' t) := by
  induction events generalizing s t with
  | nil => exact related
  | cons event rest ih =>
    cases event with
    | inl a => exact ih (quiet s t a related fine.1) fine.2
    | inr b => exact ih (keep s t b related) fine

end Library
