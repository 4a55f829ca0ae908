import Mathlib

/-!
# Numbers in big-endian bytes
-/

namespace Library

/-- The number that bytes spell, the most significant one first. -/
def ofBytes (bytes : List UInt8) : Nat := bytes.foldl (fun value b => value * 256 + b.toNat) 0

@[simp] lemma ofBytes_nil : ofBytes [] = 0 := rfl

lemma ofBytes_concat (bytes : List UInt8) (b : UInt8) :
    ofBytes (bytes ++ [b]) = ofBytes bytes * 256 + b.toNat := by
  simp [ofBytes]

lemma ofBytes_append (a b : List UInt8) :
    ofBytes (a ++ b) = ofBytes a * 256 ^ b.length + ofBytes b := by
  induction b using List.reverseRecOn with
  | nil => simp
  | append_singleton b x ih =>
    rw [← List.append_assoc, ofBytes_concat, ih, ofBytes_concat, List.length_append,
      List.length_singleton, Nat.pow_succ]
    ring

lemma ofBytes_cons (x : UInt8) (b : List UInt8) :
    ofBytes (x :: b) = x.toNat * 256 ^ b.length + ofBytes b := by
  rw [← List.singleton_append, ofBytes_append]
  simp [ofBytes]

end Library
