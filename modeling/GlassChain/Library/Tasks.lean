import Mathlib

/-!
# Interleaved tasks

A pool of tasks, each with a list of effects to perform in order for its item. Tasks are started at
any time and any of them may perform its next effect; the log remembers what was performed. Whatever
the interleaving, an effect is performed for an item as often as tasks for it were started, less the
tasks that still have it ahead.
-/

namespace Library

open List

variable {β ε : Type*}

/-- A list around a position, and what removing or replacing the element there gives. -/
theorem exists_split {l : List β} {position : Nat} {b : β} (found : l[position]? = some b) :
    ∃ front back, l = front ++ b :: back ∧ l.eraseIdx position = front ++ back ∧
      ∀ c, l.set position c = front ++ c :: back := by
  obtain ⟨inside, rfl⟩ := List.getElem?_eq_some_iff.mp found
  refine ⟨l.take position, l.drop (position + 1), ?_, ?_, fun c => ?_⟩
  · rw [← drop_eq_getElem_cons inside, take_append_drop]
  · rw [eraseIdx_eq_take_drop_succ]
  · rw [set_eq_take_append_cons_drop, if_pos inside]

structure Task (β ε : Type*) where
  item : β
  remaining : List ε

structure Tasks (β ε : Type*) where
  running : List (Task β ε)
  log : List (ε × β)

namespace Tasks

def idle : Tasks β ε := ⟨[], []⟩

def start (T : Tasks β ε) (effects : List ε) (item : β) : Tasks β ε :=
  { T with running := T.running ++ [⟨item, effects⟩] }

/-- The task at a position performs its next effect; a task with none left is done. -/
def perform (T : Tasks β ε) (position : Nat) : Tasks β ε :=
  match T.running[position]? with
  | none => T
  | some ⟨_, []⟩ => { T with running := T.running.eraseIdx position }
  | some ⟨item, e :: rest⟩ => ⟨T.running.set position ⟨item, rest⟩, T.log ++ [(e, item)]⟩

variable [DecidableEq ε] (T : Tasks β ε) (e : ε)

/-- The task's item, once for every time it is still to perform the effect. -/
def owed (t : Task β ε) : List β := List.replicate (t.remaining.count e) t.item

def performed : List β := T.log.filterMap fun entry => if entry.1 = e then some entry.2 else none

def awaiting : List β := T.running.flatMap (owed e)

def due : List β := T.performed e ++ T.awaiting e

@[simp]
lemma due_idle : (idle : Tasks β ε).due e = [] := rfl

/-- A new task makes its effects due for its item. -/
theorem due_start (effects : List ε) (item : β) :
    (T.start effects item).due e = T.due e ++ List.replicate (effects.count e) item := by
  simp [due, performed, awaiting, start, owed]

/-- Performing effects changes nothing about what is due. -/
theorem due_perform (position : Nat) : ((T.perform position).due e).Perm (T.due e) := by
  unfold perform
  split
  · exact List.Perm.refl _
  · rename_i item found
    obtain ⟨front, back, split, erased, -⟩ := exists_split found
    have same : awaiting { T with running := T.running.eraseIdx position } e = T.awaiting e := by
      rw [awaiting, awaiting, erased, split]
      simp [owed]
    rw [due, due, same]
    exact List.Perm.refl _
  · rename_i item first rest found
    obtain ⟨front, back, split, -, replaced⟩ := exists_split found
    have before : T.awaiting e = front.flatMap (owed e) ++
        (owed e ⟨item, first :: rest⟩ ++ back.flatMap (owed e)) := by
      rw [awaiting, split, flatMap_append, flatMap_cons]
    have after : awaiting ⟨T.running.set position ⟨item, rest⟩, T.log ++ [(first, item)]⟩ e =
        front.flatMap (owed e) ++ (owed e ⟨item, rest⟩ ++ back.flatMap (owed e)) := by
      rw [awaiting, replaced, flatMap_append, flatMap_cons]
    rw [due, due, after, before]
    by_cases here : first = e
    · -- one copy of the item moves from the awaited to the performed ones
      have moved : owed e (⟨item, first :: rest⟩ : Task β ε) = item :: owed e ⟨item, rest⟩ := by
        simp [owed, here, replicate_succ]
      have logged : performed (⟨T.running.set position ⟨item, rest⟩, T.log ++ [(first, item)]⟩ :
          Tasks β ε) e = T.performed e ++ [item] := by
        simp [performed, here]
      rw [moved, logged, append_assoc, singleton_append, cons_append]
      exact Perm.append_left _ perm_middle.symm
    · have kept : owed e (⟨item, first :: rest⟩ : Task β ε) = owed e ⟨item, rest⟩ := by
        simp [owed, here]
      have logged : performed (⟨T.running.set position ⟨item, rest⟩, T.log ++ [(first, item)]⟩ :
          Tasks β ε) e = T.performed e := by
        simp [performed, here]
      rw [kept, logged]

end Tasks

end Library
