import Mathlib

/-!
# Traces in which permission comes first

Some elements of a trace need a permission, and some elements give it. A trace is in order when each
element that needs one has it before it.
-/

namespace Library

open List

variable {α β : Type*} {needs : α → Prop} {grants : α → α → Prop} {l l' : List α}

def Preceded (needs : α → Prop) (grants : α → α → Prop) (l : List α) : Prop :=
  ∀ before a after, l = before ++ a :: after → needs a → ∃ g ∈ before, grants g a

namespace Preceded

lemma of_no_need (none : ∀ a ∈ l, ¬needs a) : Preceded needs grants l := by
  intro before a after split need
  exact absurd need (none a (by simp [split]))

lemma append (first : Preceded needs grants l) (second : Preceded needs grants l') :
    Preceded needs grants (l ++ l') := by
  intro before a after split need
  rcases append_eq_append_iff.mp split with ⟨middle, rfl, rest⟩ | ⟨middle, rfl, rest⟩
  · obtain ⟨g, member, granted⟩ := second middle a after rest need
    exact ⟨g, mem_append_right _ member, granted⟩
  · cases middle with
    | nil =>
      obtain ⟨g, member, -⟩ := second [] a after (by simpa using rest.symm) need
      cases member
    | cons b middle =>
      cases rest
      exact first before a middle rfl need

/-- One permission for all that follows. -/
theorem cons {g : α} (free : ¬needs g) (all : ∀ a ∈ l, needs a → grants g a) :
    Preceded needs grants (g :: l) := by
  intro before a after split need
  cases before with
  | nil =>
    cases split
    exact absurd need free
  | cons b before =>
    obtain ⟨rfl, rest⟩ := List.cons.inj split
    exact ⟨g, mem_cons_self, all a (by simp [rest]) need⟩

lemma flatMap {f : β → List α} {bs : List β} (each : ∀ b ∈ bs, Preceded needs grants (f b)) :
    Preceded needs grants (bs.flatMap f) := by
  induction bs with
  | nil => exact of_no_need (by simp)
  | cons b bs ih =>
    rw [flatMap_cons]
    exact (each b mem_cons_self).append (ih fun b member => each b (mem_cons_of_mem _ member))

end Preceded

end Library
