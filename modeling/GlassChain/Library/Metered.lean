import Mathlib

/-!
# Metered machines

A machine that runs one instruction at a time on a store of fuel: every instruction costs one unit,
and a machine that still has an instruction to run when the store is empty stops. `meter` counts the
instructions it runs.
-/

namespace Library

variable {σ ε : Type*}

inductive Outcome (σ ε : Type*) where
  | returned
  | next (state : σ)
  | trapped (error : ε) (state : σ)

inductive Stop (ε : Type*) where
  | returned
  | outOfFuel
  | trapped (error : ε)

structure Metered (σ ε : Type*) where
  instructions : Nat
  /-- The fuel left in the store. -/
  fuel : Nat
  state : σ
  stop : Stop ε

/-- Run a machine until it returns, traps or needs fuel that is not there. -/
def meter (step : σ → Outcome σ ε) : Nat → σ → Metered σ ε
  | 0, s => match step s with
    | .returned => ⟨0, 0, s, .returned⟩
    | _ => ⟨0, 0, s, .outOfFuel⟩
  | fuel + 1, s => match step s with
    | .returned => ⟨0, fuel + 1, s, .returned⟩
    | .trapped e t => ⟨1, fuel, t, .trapped e⟩
    | .next t =>
      let rest := meter step fuel t
      { rest with instructions := rest.instructions + 1 }

variable {step : σ → Outcome σ ε} {fuel : Nat} {s t : σ}

lemma meter_returned (idle : step s = .returned) :
    meter step fuel s = ⟨0, fuel, s, .returned⟩ := by
  cases fuel <;> simp [meter, idle]

lemma meter_next (running : step s = .next t) :
    meter step (fuel + 1) s =
      { meter step fuel t with instructions := (meter step fuel t).instructions + 1 } := by
  simp [meter, running]

/-- Fuel is what pays for instructions. -/
theorem meter_instructions_add_fuel (step : σ → Outcome σ ε) (fuel : Nat) (s : σ) :
    (meter step fuel s).instructions + (meter step fuel s).fuel = fuel := by
  induction fuel generalizing s with
  | zero =>
    unfold meter
    split <;> rfl
  | succ fuel ih =>
    cases next : step s with
    | returned => simp [meter_returned next]
    | trapped e t => simp [meter, next, Nat.add_comm]
    | next t =>
      rw [meter_next next]
      have paid := ih t
      simp only
      omega

lemma meter_instructions_le (step : σ → Outcome σ ε) (fuel : Nat) (s : σ) :
    (meter step fuel s).instructions ≤ fuel := by
  have paid := meter_instructions_add_fuel step fuel s
  omega

/-- With fuel in the store only a machine that has returned runs nothing. -/
theorem meter_instructions_eq_zero :
    (meter step (fuel + 1) s).instructions = 0 ↔ step s = .returned := by
  cases next : step s with
  | returned => simp [meter_returned next]
  | trapped e t => simp [meter, next]
  | next t => simp [meter_next next]

/-- A run that returned has nothing left to do. -/
theorem step_of_meter_returned (returned : (meter step fuel s).stop = .returned) :
    step (meter step fuel s).state = .returned := by
  induction fuel generalizing s with
  | zero =>
    unfold meter at returned ⊢
    split at returned
    · assumption
    · cases returned
  | succ fuel ih =>
    cases next : step s with
    | returned => rwa [meter_returned next]
    | trapped e t => simp [meter, next] at returned
    | next t =>
      rw [meter_next next] at returned ⊢
      exact ih returned

variable {M : Type*} [AddMonoid M] {weight : σ → M}

/-- A metered run comes through a state; the weights of the instructions before it add up to `w`. -/
inductive Passes (step : σ → Outcome σ ε) (weight : σ → M) : Nat → σ → M → σ → Prop
  | here (fuel : Nat) (s : σ) : Passes step weight fuel s 0 s
  | next {fuel : Nat} {s t u : σ} {w : M} (running : step s = .next t)
      (rest : Passes step weight fuel t w u) : Passes step weight (fuel + 1) s (weight s + w) u
  | trapped {fuel : Nat} {s t : σ} {e : ε} (trap : step s = .trapped e t) :
      Passes step weight (fuel + 1) s (weight s) t

namespace Passes

/-- The run comes to the state it stops in. -/
theorem meter_state (step : σ → Outcome σ ε) (weight : σ → M) (fuel : Nat) (s : σ) :
    ∃ w, Passes step weight fuel s w (meter step fuel s).state := by
  induction fuel generalizing s with
  | zero =>
    refine ⟨0, ?_⟩
    unfold meter
    split <;> exact here 0 s
  | succ fuel ih =>
    cases next : step s with
    | returned =>
      rw [meter_returned next]
      exact ⟨0, here _ s⟩
    | trapped e t =>
      refine ⟨weight s, ?_⟩
      simp only [meter, next]
      exact trapped next
    | next t =>
      obtain ⟨w, rest⟩ := ih t
      rw [meter_next next]
      exact ⟨weight s + w, rest.next next⟩

/-- What every instruction keeps holds along a run, but for the state a trap leaves. -/
theorem invariant {I J : M → σ → Prop} (keep : ∀ w s t, I w s → step s = .next t → I (w + weight s) t)
    (stop : ∀ w s e t, I w s → step s = .trapped e t → J (w + weight s) t)
    {w v : M} (run : Passes step weight fuel s v t) (start : I w s) : I (w + v) t ∨ J (w + v) t := by
  induction run generalizing w with
  | here fuel s => exact .inl (by rwa [add_zero])
  | @next fuel s t u v running rest ih =>
    rw [← add_assoc]
    exact ih (keep w s t start running)
  | trapped trap => exact .inr (stop w _ _ _ start trap)

end Passes

end Library
