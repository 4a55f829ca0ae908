import Mathlib

/-!
# Fallible loops over a mutable state

A loop body of type `σ → α → σ × Except ε Unit` updates its state in place and may fail; what it
wrote before stays written. `runInPlace` is the loop that stops at the first failure.
-/

namespace Library

open List

variable {σ α ε : Type*}

/-- Run `body` over a list; the first failure stops the loop and keeps the state it left. -/
def runInPlace (body : σ → α → σ × Except ε Unit) : σ → List α → σ × Except ε Unit
  | s, [] => (s, .ok ())
  | s, a :: l =>
    match body s a with
    | (s', .ok ()) => runInPlace body s' l
    | (s', .error e) => (s', .error e)

variable {body : σ → α → σ × Except ε Unit}

@[simp]
lemma runInPlace_nil (s : σ) : runInPlace body s [] = (s, .ok ()) := rfl

variable {s : σ} {a : α} {l : List α}

lemma runInPlace_cons_ok {s' : σ} (h : body s a = (s', .ok ())) :
    runInPlace body s (a :: l) = runInPlace body s' l := by
  rw [runInPlace, h]

lemma runInPlace_cons_error {s' : σ} {e : ε} (h : body s a = (s', .error e)) :
    runInPlace body s (a :: l) = (s', .error e) := by
  rw [runInPlace, h]

lemma runInPlace_cons_eq_ok {t : σ} :
    runInPlace body s (a :: l) = (t, .ok ()) ↔
      ∃ s', body s a = (s', .ok ()) ∧ runInPlace body s' l = (t, .ok ()) := by
  rcases hb : body s a with ⟨s', _ | ⟨⟩⟩
  · simp [runInPlace_cons_error hb]
  · simp [runInPlace_cons_ok hb]

/-- A loop over `l ++ l'` that succeeds is a loop over `l` that succeeds, then one over `l'`. -/
theorem runInPlace_append_eq_ok {t : σ} {l' : List α} :
    runInPlace body s (l ++ l') = (t, .ok ()) ↔
      ∃ u, runInPlace body s l = (u, .ok ()) ∧ runInPlace body u l' = (t, .ok ()) := by
  induction l generalizing s with
  | nil => simp
  | cons a l ih =>
    rw [cons_append, runInPlace_cons_eq_ok]
    simp only [ih, runInPlace_cons_eq_ok]
    constructor
    · rintro ⟨s', h, u, h', h''⟩
      exact ⟨u, ⟨s', h, h'⟩, h''⟩
    · rintro ⟨u, ⟨s', h, h'⟩, h''⟩
      exact ⟨s', h, u, h', h''⟩

lemma runInPlace_concat_eq_ok {t : σ} :
    runInPlace body s (l ++ [a]) = (t, .ok ()) ↔
      ∃ u, runInPlace body s l = (u, .ok ()) ∧ body u a = (t, .ok ()) := by
  simp only [runInPlace_append_eq_ok, runInPlace_cons_eq_ok, runInPlace_nil, Prod.mk.injEq,
    and_true, exists_eq_right]

/-- A body whose check does not read the state: the loop succeeds exactly when every element
passes. -/
theorem runInPlace_eq_ok_iff {passes : α → Prop} {next : σ → α → σ}
    (spec : ∀ s a t, body s a = (t, .ok ()) ↔ passes a ∧ t = next s a) {t : σ} :
    runInPlace body s l = (t, .ok ()) ↔ (∀ a ∈ l, passes a) ∧ t = l.foldl next s := by
  induction l generalizing s with
  | nil => simp [eq_comm]
  | cons a l ih =>
    simp only [runInPlace_cons_eq_ok, spec, ih, forall_mem_cons, foldl_cons]
    grind

/-- A loop that succeeds leaves the state its writes alone lead to. -/
theorem foldl_of_runInPlace_ok {t : σ} (ran : runInPlace body s l = (t, .ok ())) :
    l.foldl (fun s a => (body s a).1) s = t := by
  induction l generalizing s with
  | nil => simpa using ran
  | cons a l ih =>
    obtain ⟨s', first, rest⟩ := runInPlace_cons_eq_ok.mp ran
    rw [foldl_cons, first]
    exact ih rest

/-- A property of the state that the body keeps, failing or not, survives the loop. -/
theorem runInPlace_invariant {I : σ → Prop} (keep : ∀ s a, I s → I (body s a).1) (l : List α)
    (hs : I s) : I (runInPlace body s l).1 := by
  induction l generalizing s with
  | nil => exact hs
  | cons a l ih =>
    have next := keep s a hs
    rcases hb : body s a with ⟨s', _ | ⟨⟩⟩
    · simpa [runInPlace_cons_error hb, hb] using next
    · rw [runInPlace_cons_ok hb]
      exact ih (by simpa [hb] using next)

/-- The split of a failing loop: what succeeded, and the element that failed. -/
theorem runInPlace_eq_error {t : σ} {e : ε} (h : runInPlace body s l = (t, .error e)) :
    ∃ l₁ a l₂ u, l = l₁ ++ a :: l₂ ∧ runInPlace body s l₁ = (u, .ok ()) ∧
      body u a = (t, .error e) := by
  induction l generalizing s with
  | nil => simp at h
  | cons a l ih =>
    rcases hb : body s a with ⟨s', e' | ⟨⟩⟩
    · rw [runInPlace_cons_error hb] at h
      exact ⟨[], a, l, s, rfl, rfl, hb.trans h⟩
    · rw [runInPlace_cons_ok hb] at h
      obtain ⟨l₁, x, l₂, u, rfl, hl, hx⟩ := ih h
      exact ⟨a :: l₁, x, l₂, u, rfl, by rw [runInPlace_cons_ok hb, hl], hx⟩

/-- A monadic loop whose body checks and then moves to a determined state: it succeeds exactly when
every element passes in the state its predecessors lead to. -/
theorem foldlM_eq_ok_iff {step : σ → α → Except ε σ} {passes : σ → α → Prop} {next : σ → α → σ}
    (spec : ∀ s a t, step s a = .ok t ↔ passes s a ∧ t = next s a) {t : σ} :
    l.foldlM step s = .ok t ↔
      (∀ before a after, l = before ++ a :: after → passes (before.foldl next s) a) ∧
        t = l.foldl next s := by
  induction l generalizing s with
  | nil => simp [pure, Except.pure, eq_comm]
  | cons x l ih =>
    rw [foldlM_cons]
    constructor
    · intro run
      cases first : step s x with
      | error e =>
        rw [first] at run
        cases run
      | ok u =>
        rw [first] at run
        obtain ⟨passed, rfl⟩ := (spec s x u).mp first
        obtain ⟨rest, rfl⟩ := ih.mp run
        refine ⟨?_, rfl⟩
        intro before a after split
        cases before with
        | nil =>
          cases split
          exact passed
        | cons y before =>
          cases split
          exact rest before a after rfl
    · rintro ⟨all, rfl⟩
      rw [(spec s x _).mpr ⟨all [] x l rfl, rfl⟩]
      refine ih.mpr ⟨fun before a after split => ?_, rfl⟩
      exact all (x :: before) a after (by rw [split, cons_append])

end Library
