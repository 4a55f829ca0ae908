import Mathlib

/-!
# Plans executed at least once

A log records executions of the entries of a plan, each with its place. `RunsThrough plan n log`
holds when the log has executed the first `n` places, each for the first time in the order of the
plan, and nothing that does not stand at its place; executing any place up to `n` keeps it.
-/

namespace Library

open List

variable {α : Type*}

/-- The first execution of each place, in order. -/
def firsts (log : List (α × ℕ)) : List (α × ℕ) :=
  log.foldl (fun kept x => if x.2 ∈ kept.map Prod.snd then kept else kept ++ [x]) []

lemma firsts_concat (log : List (α × ℕ)) (x : α × ℕ) :
    firsts (log ++ [x]) =
      if x.2 ∈ (firsts log).map Prod.snd then firsts log else firsts log ++ [x] := by
  rw [firsts, foldl_append]
  rfl

lemma mem_of_mem_firsts {log : List (α × ℕ)} {y : α × ℕ} (first : y ∈ firsts log) : y ∈ log := by
  induction log using List.reverseRecOn with
  | nil => exact first
  | append_singleton log x ih =>
    rw [firsts_concat] at first
    grind

lemma map_snd_take_zipIdx (plan : List α) {n : ℕ} (within : n ≤ plan.length) :
    (plan.zipIdx.take n).map Prod.snd = List.range n := by
  rw [map_take, zipIdx_map_snd, range'_eq_map_range]
  simp [take_range, within]

/-- What is left of a plan from within its last part. -/
theorem drop_zipIdx_append (plan more : List α) (k : ℕ) :
    (plan ++ more).zipIdx.drop (plan.length + k) = (more.drop k).zipIdx (plan.length + k) := by
  apply ext_getElem?
  intro i
  have inner : (plan ++ more)[plan.length + k + i]? = more[k + i]? := by
    rw [getElem?_append_right (by omega)]
    congr 1
    omega
  simp [getElem?_zipIdx, inner]

structure RunsThrough (plan : List α) (n : ℕ) (log : List (α × ℕ)) : Prop where
  within : n ≤ plan.length
  firsts_eq : firsts log = plan.zipIdx.take n
  genuine : ∀ x ∈ log, x ∈ plan.zipIdx

namespace RunsThrough

variable {plan : List α} {n : ℕ} {log : List (α × ℕ)}

lemma nil : RunsThrough plan 0 [] := ⟨Nat.zero_le _, rfl, by simp⟩

lemma append (h : RunsThrough plan n log) (more : List α) : RunsThrough (plan ++ more) n log where
  within := by
    have := h.within
    simp only [length_append]
    omega
  firsts_eq := by
    rw [h.firsts_eq, zipIdx_append, take_append_of_le_length (by simpa using h.within)]
  genuine := by
    intro x executed
    rw [zipIdx_append]
    exact mem_append_left _ (h.genuine x executed)

lemma execute (h : RunsThrough plan n log) {p : ℕ} {x : α × ℕ} {rest : List (α × ℕ)}
    (reached : p ≤ n) (left : plan.zipIdx.drop p = x :: rest) :
    RunsThrough plan (max n (p + 1)) (log ++ [x]) ∧ x.2 = p ∧ p < plan.length ∧
      plan.zipIdx.drop (p + 1) = rest := by
  have inside : p < plan.length := by
    by_contra outside
    rw [drop_eq_nil_of_le (by simpa using outside)] at left
    simp at left
  obtain ⟨entry, rest_eq⟩ : x = plan.zipIdx.get ⟨p, by simpa using inside⟩ ∧
      plan.zipIdx.drop (p + 1) = rest := by
    rw [drop_eq_getElem_cons (by simpa using inside)] at left
    simpa [eq_comm] using left
  have place : x.2 = p := by simp [entry]
  have member : x ∈ plan.zipIdx := by
    rw [entry]
    exact get_mem _ _
  refine ⟨⟨max_le h.within inside, ?_, ?_⟩, place, inside, rest_eq⟩
  · rw [firsts_concat, h.firsts_eq, map_snd_take_zipIdx plan h.within, place]
    rcases Nat.lt_or_eq_of_le reached with again | rfl
    · rw [if_pos (mem_range.mpr again), max_eq_left (by omega)]
    · rw [if_neg (by simp), max_eq_right (by omega), take_add_one,
        getElem?_eq_getElem (by simpa using inside), entry]
      simp
  · intro y executed
    rcases mem_append.mp executed with earlier | now
    · exact h.genuine y earlier
    · exact mem_singleton.mp now ▸ member

/-- The whole plan was executed. -/
theorem mem_log (h : RunsThrough plan plan.length log) {x : α × ℕ} (planned : x ∈ plan.zipIdx) :
    x ∈ log := by
  apply mem_of_mem_firsts
  rwa [h.firsts_eq, take_of_length_le (by simp)]

end RunsThrough

end Library
