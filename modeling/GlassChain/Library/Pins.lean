import Mathlib

/-!
# One value per position

A process moves a mark upwards through an ordered set of positions and remembers at most one value
at the current position. Values are staked at positions. If the mark never moves back, a remembered
value is never replaced while the mark stays, and a new stake is made only for the value remembered
at the mark, then no position has two values.
-/

namespace Library

variable {P V : Type*} [LinearOrder P]

/-- Stakes lie at or below the mark, agree with the memory at the mark, and are unique. -/
structure Pinned (mark : Option (P × Option V)) (stakes : Set (P × V)) : Prop where
  below : ∀ p x, (p, x) ∈ stakes → ∃ q m, mark = some (q, m) ∧ (p < q ∨ p = q ∧ m = some x)
  unique : ∀ p x y, (p, x) ∈ stakes → (p, y) ∈ stakes → x = y

namespace Pinned

variable {mark : Option (P × Option V)} {stakes stakes' : Set (P × V)} {q : P} {m : Option V} {x : V}

lemma empty (mark : Option (P × Option V)) : Pinned mark ∅ :=
  ⟨fun _ _ h => h.elim, fun _ _ _ h => h.elim⟩

lemma mono (h : Pinned mark stakes) (fewer : stakes' ⊆ stakes) : Pinned mark stakes' :=
  ⟨fun p x hx => h.below p x (fewer hx), fun p x y hx hy => h.unique p x y (fewer hx) (fewer hy)⟩

/-- The mark moves up, or stays without forgetting. -/
def Forward (mark : Option (P × Option V)) (q : P) (m : Option V) : Prop :=
  ∀ p k, mark = some (p, k) → p < q ∨ p = q ∧ (k = none ∨ k = m)

lemma move (h : Pinned mark stakes) (forward : Forward mark q m) :
    Pinned (some (q, m)) stakes := by
  refine ⟨fun p x hx => ⟨q, m, rfl, ?_⟩, h.unique⟩
  obtain ⟨r, k, hk, position⟩ := h.below p x hx
  cases forward r k hk with
  | inl up =>
    cases position with
    | inl lower => exact .inl (lower.trans up)
    | inr same => exact .inl (same.1 ▸ up)
  | inr stay =>
    obtain ⟨rfl, memory⟩ := stay
    refine position.imp id fun ⟨same, value⟩ => ⟨same, ?_⟩
    cases memory with
    | inl none => rw [none] at value; cases value
    | inr kept => rw [← kept, value]

/-- The remembered value may be staked. -/
theorem stake (h : Pinned (some (q, some x)) stakes) :
    Pinned (some (q, some x)) (insert (q, x) stakes) := by
  have current {y : V} (hy : (q, y) ∈ stakes) : y = x := by
    obtain ⟨r, m, hm, position⟩ := h.below q y hy
    cases hm
    cases position with
    | inl lower => exact absurd lower (lt_irrefl _)
    | inr same => exact (Option.some.inj same.2).symm
  constructor
  · rintro p y (hy | hy)
    · cases hy
      exact ⟨q, some x, rfl, .inr ⟨rfl, rfl⟩⟩
    · exact h.below p y hy
  · rintro p y z (hy | hy) (hz | hz)
    · cases hy
      cases hz
      rfl
    · cases hy
      exact (current hz).symm
    · cases hz
      exact current hy
    · exact h.unique p y z hy hz

end Pinned

end Library
