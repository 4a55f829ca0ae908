import GlassChain.Core.Basic
import GlassChain.Library.Joined

/-!
# Text

Helpers of the standard library, and how deep JSON nests.
-/

namespace GlassChain

open Library List

def stripPrefix (front s : String) : Option String :=
  if front.toList.isPrefixOf s.toList then some (String.ofList (s.toList.drop front.toList.length))
  else none

lemma stripPrefix_eq_some {front s name : String} :
    stripPrefix front s = some name ↔ s = front ++ name := by
  unfold stripPrefix
  rw [← String.toList_inj, String.toList_append]
  split
  · rename_i h
    obtain ⟨rest, hrest⟩ := isPrefixOf_iff_prefix.mp h
    rw [← hrest, drop_left, Option.some.injEq, append_cancel_left_eq,
      ← String.toList_inj, String.toList_ofList]
  · rename_i h
    refine ⟨fun absurd => (by cases absurd), fun same => absurd ?_ h⟩
    rw [same]
    exact isPrefixOf_iff_prefix.mpr (prefix_append _ _)

def parseU64 (text : String) : Option Nat :=
  let digits := match text.toList with
    | '+' :: rest => rest
    | digits => digits
  let value := Nat.ofDigitChars 10 digits 0
  if !digits.isEmpty && digits.all Char.isDigit && value < 2 ^ 64 then some value else none

lemma parseU64_eq_some {text : String} {n : Nat} (parsed : parseU64 text = some n) :
    ':' ∉ text.toList := by
  intro colon
  unfold parseU64 at parsed
  split at parsed
  · rename_i rest plus
    have all : rest.all Char.isDigit = true := by grind
    have inside : ':' ∈ rest := by
      rw [plus] at colon
      simpa using colon
    exact absurd (all_eq_true.mp all _ inside) (by decide)
  · have all : text.toList.all Char.isDigit = true := by grind
    exact absurd (all_eq_true.mp all _ colon) (by decide)

lemma parseU64_toString {n m : Nat} (parsed : parseU64 (toString n) = some m) : m = n := by
  unfold parseU64 at parsed
  split at parsed
  · rename_i rest plus
    have digit := isDigit_of_mem_toString (n := n) (c := '+') (by rw [plus]; simp)
    exact absurd digit (by decide)
  · have value : Nat.ofDigitChars 10 (Nat.toDigits 10 n) 0 = n :=
      Nat.ofDigitChars_toDigits (by decide) (by decide)
    simp only [toList_toString, value] at parsed
    grind

mutual

def Value.depth : Value → Nat
  | .array items => Value.depthAll items + 1
  | .object fields => Value.depthFields fields + 1
  | _ => 0

def Value.depthAll : List Value → Nat
  | [] => 0
  | item :: items => max item.depth (Value.depthAll items)

def Value.depthFields : List (String × Value) → Nat
  | [] => 0
  | (_, field) :: fields => max field.depth (Value.depthFields fields)

end

def nested : Nat → Value
  | 0 => .null
  | n + 1 => .array [nested n]

lemma depth_nested (n : Nat) : (nested n).depth = n := by
  induction n with
  | zero => rfl
  | succ n ih => simp [nested, Value.depth, Value.depthAll, ih]

end GlassChain
