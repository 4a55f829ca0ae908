import Mathlib

/-!
# Texts joined by a separator

Two pairs of texts, each joined by a separator, of which the last text of the second pair does not
contain it. The joined texts are equal when the pairs are, and otherwise only where the first text
of the second pair continues the first text of the first pair with a separator. If both first texts
or both last texts are free of the separator, as decimal numbers are, the pairs are equal.
-/

namespace Library

variable {α : Type*} {x : α} {a b c d : List α}

lemma joined_eq_joined_iff (clean : x ∉ d) : a ++ x :: b = c ++ x :: d ↔
    (a = c ∧ b = d) ∨ ∃ rest, c = a ++ x :: rest ∧ b = rest ++ x :: d := by
  constructor
  · intro same
    rcases List.append_eq_append_iff.mp same with ⟨rest, rfl, cut⟩ | ⟨rest, rfl, cut⟩
    · cases rest with
      | nil => simp_all
      | cons y rest =>
        cases cut
        exact .inr ⟨rest, rfl, rfl⟩
    · cases rest with
      | nil => simp_all
      | cons y rest =>
        -- the separator would stand inside the last text
        cases cut
        simp at clean
  · rintro (⟨rfl, rfl⟩ | ⟨rest, rfl, rfl⟩)
    · rfl
    · simp

/-- The first separator is found again. -/
theorem joined_inj_first (clean : x ∉ a) (clean' : x ∉ c) (same : a ++ x :: b = c ++ x :: d) :
    a = c ∧ b = d := by
  rcases List.append_eq_append_iff.mp same with ⟨rest, rfl, cut⟩ | ⟨rest, rfl, cut⟩
  · cases rest <;> simp_all
  · cases rest <;> simp_all

/-- The last separator is found again. -/
theorem joined_inj_last (clean : x ∉ b) (clean' : x ∉ d) (same : a ++ x :: b = c ++ x :: d) :
    a = c ∧ b = d := by
  rcases (joined_eq_joined_iff clean').mp same with pairs | ⟨rest, -, rfl⟩
  · exact pairs
  · simp at clean

lemma toString_text (text : String) : toString text = text := rfl

lemma toList_toString (n : Nat) : (toString n).toList = Nat.toDigits 10 n := String.toList_ofList

lemma isDigit_of_mem_toString {n : Nat} {c : Char} (member : c ∈ (toString n).toList) :
    c.isDigit = true := by
  rw [toList_toString] at member
  exact Nat.isDigit_of_mem_toDigits (by decide) (by decide) member

lemma colon_notMem_toString (n : Nat) : ':' ∉ (toString n).toList := fun member =>
  absurd (isDigit_of_mem_toString member) (by decide)

lemma toString_inj {n m : Nat} : toString n = toString m ↔ n = m := by
  refine ⟨fun same => ?_, congrArg toString⟩
  have digits := congrArg (fun text => Nat.ofDigitChars 10 text.toList 0) same
  simpa only [toList_toString, Nat.ofDigitChars_toDigits (b := 10) (by decide) (by decide)] using digits

end Library
