import Mathlib

/-!
# Entries with deadlines

A store whose entries are put under a key with a deadline, and are removed by a purge at that time
or later. What a key holds after a history is the entry of the latest put under it, unless a purge
since then has come to its deadline.
-/

namespace Library

/-- An operation on the store; others leave it as it is. -/
inductive Expiring (κ α : Type*) where
  | put (key : κ) (value : α) (deadline : Nat)
  | purge (time : Nat)
  | idle

namespace Expiring

variable {κ α : Type*} {ops : List (Expiring κ α)} {key : κ} {value : α} {deadline : Nat}

def Latest (ops : List (Expiring κ α)) (key : κ) (value : α) (deadline : Nat) : Prop :=
  ∃ before after, ops = before ++ put key value deadline :: after ∧
    (∀ v d, put key v d ∉ after) ∧ ∀ time, purge time ∈ after → time < deadline

lemma Latest.concat (latest : Latest ops key value deadline) {op : Expiring κ α}
    (other : ∀ v d, put key v d ≠ op) (early : ∀ time, purge time = op → time < deadline) :
    Latest (ops ++ [op]) key value deadline := by
  obtain ⟨before, after, rfl, last, kept⟩ := latest
  refine ⟨before, after ++ [op], by simp, ?_, ?_⟩ <;> grind

lemma latest_concat {op : Expiring κ α} (latest : Latest (ops ++ [op]) key value deadline) :
    op = put key value deadline ∨ Latest ops key value deadline ∧ (∀ v d, put key v d ≠ op) ∧
      ∀ time, purge time = op → time < deadline := by
  obtain ⟨before, after, cut, last, kept⟩ := latest
  rcases List.eq_nil_or_concat after with rfl | ⟨rest, op', rfl⟩
  · exact .inl (by simpa using (List.append_inj' cut rfl).2)
  · have cut : ops ++ [op] = (before ++ put key value deadline :: rest) ++ [op'] := by simp [cut]
    obtain ⟨rfl, same⟩ := List.append_inj' cut rfl
    obtain rfl : op = op' := by simpa using same
    exact .inr ⟨⟨before, rest, rfl, by grind, by grind⟩, by grind, by grind⟩

variable [DecidableEq κ]

def hold (key : κ) (entry : Option (α × Nat)) : Expiring κ α → Option (α × Nat)
  | put k value deadline => if k = key then some (value, deadline) else entry
  | purge time => entry.filter fun e => time < e.2
  | idle => entry

def held (ops : List (Expiring κ α)) (key : κ) : Option (α × Nat) := ops.foldl (hold key) none

@[simp] lemma held_nil : held ([] : List (Expiring κ α)) key = none := rfl

@[simp] lemma held_concat (ops : List (Expiring κ α)) (op : Expiring κ α) (key : κ) :
    held (ops ++ [op]) key = hold key (held ops key) op := by
  simp [held]

lemma held_eq_some : held ops key = some (value, deadline) ↔ Latest ops key value deadline := by
  induction ops using List.reverseRecOn with
  | nil => simp [Latest]
  | append_singleton ops op ih =>
    rw [held_concat]
    constructor
    · intro found
      cases op with
      | put k v d =>
        rw [hold] at found
        split at found
        · obtain rfl : k = key := ‹_›
          cases found
          exact ⟨ops, [], rfl, by simp, by simp⟩
        · exact (ih.mp found).concat (by grind) (by grind)
      | purge time =>
        rw [hold, Option.filter_eq_some_iff] at found
        exact (ih.mp found.1).concat (by grind) (by grind)
      | idle => exact (ih.mp found).concat (by grind) (by grind)
    · intro latest
      rcases latest_concat latest with rfl | ⟨earlier, other, early⟩
      · simp [hold]
      · rw [ih.mpr earlier]
        cases op with
        | put k v d => grind [hold]
        | purge time => simp [hold, Option.filter, early time rfl]
        | idle => rfl

end Expiring

end Library
