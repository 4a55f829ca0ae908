import Mathlib

/-!
# Machines that answer calls

`step s a` is the state after the call `a` and what the call returned. A relation between the states
of two machines that every call keeps carries over to lists of calls, with what can be seen of the
answers.
-/

namespace Library

open List

variable {σ τ α β γ δ : Type*}

def after (step : σ → α → σ × β) (s : σ) (calls : List α) : σ :=
  calls.foldl (fun s a => (step s a).1) s

def returned (step : σ → α → σ × β) : σ → List α → List β
  | _, [] => []
  | s, a :: calls => (step s a).2 :: returned step (step s a).1 calls

variable {step : σ → α → σ × β} {step' : τ → α → τ × γ}

@[simp]
lemma after_nil (s : σ) : after step s [] = s := rfl

@[simp]
lemma after_concat (s : σ) (calls : List α) (a : α) :
    after step s (calls ++ [a]) = (step (after step s calls) a).1 := by
  simp [after]

@[simp]
lemma returned_concat (s : σ) (calls : List α) (a : α) :
    returned step s (calls ++ [a]) =
      returned step s calls ++ [(step (after step s calls) a).2] := by
  induction calls generalizing s with
  | nil => rfl
  | cons c calls ih => exact congrArg _ (ih _)

@[simp]
lemma after_append (s : σ) (front back : List α) :
    after step s (front ++ back) = after step (after step s front) back :=
  foldl_append

/-- A property that the calls of a list keep. -/
theorem after_keeps {I : σ → Prop} {calls : List α}
    (keep : ∀ s, ∀ a ∈ calls, I s → I (step s a).1) {s : σ} (start : I s) :
    I (after step s calls) := by
  induction calls generalizing s with
  | nil => exact start
  | cons a calls ih =>
    exact ih (fun s b member => keep s b (mem_cons_of_mem a member)) (keep s a (by simp) start)

/-- A property that every call keeps. -/
theorem after_invariant {I : σ → Prop} (keep : ∀ s a, I s → I (step s a).1) {s : σ} (start : I s)
    (calls : List α) : I (after step s calls) :=
  after_keeps (fun s a _ => keep s a) start

/-- Every call of the list meets `ok` in the state it finds. -/
def Along (step : σ → α → σ × β) (ok : σ → α → Prop) (s : σ) (calls : List α) : Prop :=
  ∀ front a, front ++ [a] <+: calls → ok (after step s front) a

lemma Along.of_prefix {ok : σ → α → Prop} {s : σ} {calls front : List α}
    (along : Along step ok s calls) (sub : front <+: calls) : Along step ok s front :=
  fun front' a sub' => along front' a (sub'.trans sub)

lemma along_nil (ok : σ → α → Prop) (s : σ) : Along step ok s [] := by
  intro front a sub
  simp at sub

lemma along_cons {ok : σ → α → Prop} {s : σ} {a : α} {calls : List α} :
    Along step ok s (a :: calls) ↔ ok s a ∧ Along step ok (step s a).1 calls := by
  constructor
  · intro along
    exact ⟨along [] a (cons_prefix_cons.mpr ⟨rfl, nil_prefix⟩),
      fun front b sub => along (a :: front) b (cons_prefix_cons.mpr ⟨rfl, sub⟩)⟩
  · rintro ⟨first, rest⟩ front b sub
    cases front with
    | nil =>
      obtain ⟨rfl, -⟩ := cons_prefix_cons.mp sub
      exact first
    | cons c front =>
      obtain ⟨rfl, inner⟩ := cons_prefix_cons.mp sub
      exact rest front b inner

/-- The simulation rule. -/
theorem simulation {R : σ → τ → Prop} {ok : τ → α → Prop} {see : β → δ} {see' : γ → δ}
    (keep : ∀ s t a, R s t → ok t a →
      see (step s a).2 = see' (step' t a).2 ∧ R (step s a).1 (step' t a).1)
    {s : σ} {t : τ} (start : R s t) {calls : List α} (along : Along step' ok t calls) :
    (returned step s calls).map see = (returned step' t calls).map see' ∧
      R (after step s calls) (after step' t calls) := by
  induction calls using List.reverseRecOn with
  | nil => exact ⟨rfl, start⟩
  | append_singleton calls a ih =>
    obtain ⟨answers, related⟩ := ih (along.of_prefix (prefix_append _ _))
    obtain ⟨answer, next⟩ := keep _ _ a related (along calls a prefix_rfl)
    rw [after_concat, after_concat]
    exact ⟨by simp [answers, answer], next⟩

end Library
