import Mathlib

/-!
# Signer bitmaps and quorums

A bitmap is a list of bytes; its bit `i` is bit `i % 8` of byte `i / 8`. `expand` lists the set bits
in ascending order, so counting them counts distinct members, and two large enough sets of members
share one outside any small set of exceptions.
-/

namespace Library

open List Finset

def bitMask (bit : Nat) : UInt8 := 1 <<< UInt8.ofNat bit

def testMask (byte : UInt8) (bit : Nat) : Bool := byte &&& bitMask bit != 0

lemma testMask_zero (bit : Nat) : testMask 0 bit = false := by
  simp [testMask]

lemma testMask_bitMask {i j : Nat} (hi : i < 8) (hj : j < 8) :
    testMask (bitMask i) j = decide (j = i) := by
  have all : ∀ i < 8, ∀ j < 8, testMask (bitMask i) j = decide (j = i) := by decide
  exact all i hi j hj

lemma testMask_eq_getLsbD (x : UInt8) {j : Nat} (hj : j < 8) :
    testMask x j = x.toBitVec.getLsbD j := by
  have all : ∀ j < 8, ∀ k < 8, (bitMask j).toBitVec.getLsbD k = decide (k = j) := by decide
  have mask := all j hj
  unfold testMask
  cases bit : x.toBitVec.getLsbD j with
  | true =>
    rw [bne_iff_ne]
    intro zero
    have := congrArg (fun y : UInt8 => y.toBitVec.getLsbD j) zero
    simp [bit, mask j hj] at this
  | false =>
    rw [bne_eq_false_iff_eq, ← UInt8.toBitVec_inj]
    apply BitVec.eq_of_getLsbD_eq
    intro k hk
    by_cases same : k = j
    · subst same; simp [bit]
    · simp [mask k hk, same]

lemma testMask_or (a b : UInt8) {j : Nat} (hj : j < 8) :
    testMask (a ||| b) j = (testMask a j || testMask b j) := by
  simp [testMask_eq_getLsbD _ hj]

/-- A byte is its eight bits. -/
theorem eq_of_testMask_eq {a b : UInt8} (h : ∀ j < 8, testMask a j = testMask b j) : a = b := by
  rw [← UInt8.toBitVec_inj]
  apply BitVec.eq_of_getLsbD_eq
  intro j hj
  rw [← testMask_eq_getLsbD a hj, ← testMask_eq_getLsbD b hj, h j hj]

/-- The set bits of one byte, ascending, counted from `base`. -/
def expandByte (base : Nat) (byte : UInt8) : List Nat :=
  ((List.range 8).filter (testMask byte)).map (base + ·)

/-- The set bits of a bitmap whose first bit has index `base`. -/
def expandFrom (base : Nat) : List UInt8 → List Nat
  | [] => []
  | byte :: rest => expandByte base byte ++ expandFrom (base + 8) rest

variable (bitmap : List UInt8)

def expand : List Nat := expandFrom 0 bitmap

lemma mem_expandByte {base i : Nat} {byte : UInt8} :
    i ∈ expandByte base byte ↔ ∃ bit < 8, testMask byte bit = true ∧ base + bit = i := by
  simp [expandByte, and_assoc]

lemma expandFrom_bounds {base i : Nat} {bitmap : List UInt8} (h : i ∈ expandFrom base bitmap) :
    base ≤ i ∧ i < base + 8 * bitmap.length := by
  induction bitmap generalizing base with
  | nil => simp [expandFrom] at h
  | cons byte rest ih =>
    rw [expandFrom, mem_append] at h
    cases h with
    | inl h =>
      obtain ⟨bit, hbit, -, rfl⟩ := mem_expandByte.mp h
      simp only [length_cons]
      omega
    | inr h =>
      have := ih h
      simp only [length_cons]
      omega

lemma mem_expandFrom {base i : Nat} {bitmap : List UInt8} :
    base + i ∈ expandFrom base bitmap ↔
      i < 8 * bitmap.length ∧ testMask (bitmap.getD (i / 8) 0) (i % 8) = true := by
  induction bitmap generalizing base i with
  | nil => simp [expandFrom]
  | cons byte rest ih =>
    rw [expandFrom, mem_append, mem_expandByte]
    by_cases first : i < 8
    · have small : i / 8 = 0 ∧ i % 8 = i := by omega
      have later : base + i ∉ expandFrom (base + 8) rest := by
        intro h
        have := (expandFrom_bounds h).1
        omega
      simp only [later, or_false, small, getD_cons_zero, length_cons]
      constructor
      · rintro ⟨bit, -, set, same⟩
        obtain rfl : bit = i := by omega
        exact ⟨by omega, set⟩
      · rintro ⟨-, set⟩
        exact ⟨i, first, set, rfl⟩
    · obtain ⟨k, rfl⟩ : ∃ k, i = k + 8 := ⟨i - 8, by omega⟩
      have shift : (k + 8) / 8 = k / 8 + 1 ∧ (k + 8) % 8 = k % 8 := by omega
      have here : ¬∃ bit < 8, testMask byte bit = true ∧ base + bit = base + (k + 8) := by
        rintro ⟨bit, hbit, -, same⟩
        omega
      have next := @ih (base + 8) k
      simp only [here, false_or, shift, getD_cons_succ, length_cons]
      rw [show base + (k + 8) = base + 8 + k by omega, next]
      constructor
      · rintro ⟨bound, set⟩
        exact ⟨by omega, set⟩
      · rintro ⟨bound, set⟩
        exact ⟨by omega, set⟩

lemma mem_expand {i : Nat} {bitmap : List UInt8} :
    i ∈ expand bitmap ↔
      i < 8 * bitmap.length ∧ testMask (bitmap.getD (i / 8) 0) (i % 8) = true := by
  simpa [expand] using @mem_expandFrom 0 i bitmap

/-- A bitmap is determined by its length and its set bits. -/
theorem eq_of_mem_expand_iff {a b : List UInt8} (length : a.length = b.length)
    (bits : ∀ i, i ∈ expand a ↔ i ∈ expand b) : a = b := by
  refine ext_getElem length fun k ha hb => eq_of_testMask_eq fun j hj => ?_
  have bit := bits (8 * k + j)
  have block : (8 * k + j) / 8 = k := by omega
  have place : (8 * k + j) % 8 = j := by omega
  rw [mem_expand, mem_expand, block, place, getD_eq_getElem _ _ ha, getD_eq_getElem _ _ hb] at bit
  rw [Bool.eq_iff_iff]
  constructor
  · exact fun set => (bit.mp ⟨by omega, set⟩).2
  · exact fun set => (bit.mpr ⟨by omega, set⟩).2

lemma expandFrom_pairwise (base : Nat) (bitmap : List UInt8) :
    (expandFrom base bitmap).Pairwise (· < ·) := by
  induction bitmap generalizing base with
  | nil => exact List.Pairwise.nil
  | cons byte rest ih =>
    refine pairwise_append.mpr ⟨?_, ih _, ?_⟩
    · refine List.Pairwise.map _ (fun a b hab => ?_) (pairwise_lt_range.filter _)
      omega
    · intro i hi j hj
      obtain ⟨bit, hbit, -, rfl⟩ := mem_expandByte.mp hi
      have := (expandFrom_bounds hj).1
      omega

lemma expand_pairwise : (expand bitmap).Pairwise (· < ·) := expandFrom_pairwise 0 bitmap

lemma expand_nodup : (expand bitmap).Nodup := (expand_pairwise bitmap).imp fun h => Nat.ne_of_lt h

/-- Bit `i` set, for an index inside the bitmap. -/
def setBit (i : Nat) : List UInt8 :=
  bitmap.modify (i / 8) (· ||| bitMask (i % 8))

@[simp] lemma length_setBit (i : Nat) : (setBit bitmap i).length = bitmap.length := by
  simp [setBit]

lemma mem_expandFrom_setBit {base i j : Nat} {bitmap : List UInt8}
    (hi : i < 8 * bitmap.length) :
    j ∈ expandFrom base (setBit bitmap i) ↔ j = base + i ∨ j ∈ expandFrom base bitmap := by
  induction bitmap generalizing base i with
  | nil => simp at hi
  | cons byte rest ih =>
    by_cases first : i < 8
    · have small : i / 8 = 0 ∧ i % 8 = i := by omega
      have here : j ∈ expandByte base (byte ||| bitMask i) ↔
          j = base + i ∨ j ∈ expandByte base byte := by
        simp only [mem_expandByte]
        constructor
        · rintro ⟨bit, hbit, set, rfl⟩
          rw [testMask_or _ _ hbit, testMask_bitMask first hbit] at set
          by_cases same : bit = i
          · exact .inl (by omega)
          · exact .inr ⟨bit, hbit, by simpa [same] using set, rfl⟩
        · rintro (rfl | ⟨bit, hbit, set, rfl⟩)
          · exact ⟨i, first, by simp [testMask_or _ _ first, testMask_bitMask first first], rfl⟩
          · exact ⟨bit, hbit, by simp [testMask_or _ _ hbit, set], rfl⟩
      simp [setBit, small, expandFrom, here, or_assoc]
    · -- the byte lies further on: its index there is smaller by eight
      obtain ⟨k, rfl⟩ : ∃ k, i = k + 8 := ⟨i - 8, by omega⟩
      have shift : setBit (byte :: rest) (k + 8) = byte :: setBit rest k := by
        have : (k + 8) / 8 = k / 8 + 1 ∧ (k + 8) % 8 = k % 8 := by omega
        simp [setBit, this]
      rw [shift, expandFrom, expandFrom, mem_append, mem_append,
        ih (by simpa [Nat.mul_add] using hi)]
      constructor
      · rintro (h | h | h)
        · exact .inr (.inl h)
        · exact .inl (by omega)
        · exact .inr (.inr h)
      · rintro (h | h | h)
        · exact .inr (.inl (by omega))
        · exact .inl h
        · exact .inr (.inr h)

lemma mem_expand_setBit {i j : Nat} {bitmap : List UInt8} (hi : i < 8 * bitmap.length) :
    j ∈ expand (setBit bitmap i) ↔ j = i ∨ j ∈ expand bitmap := by
  simpa [expand] using @mem_expandFrom_setBit 0 i j bitmap hi

lemma expand_replicate_zero (n : Nat) : expand (List.replicate n 0) = [] := by
  suffices ∀ base, expandFrom base (List.replicate n 0) = [] from this 0
  induction n with
  | zero => exact fun _ => rfl
  | succ n ih =>
    intro base
    have none : expandByte base 0 = [] := by simp [expandByte, testMask_zero]
    simp [replicate_succ, expandFrom, none, ih]

/-- A bitmap with chosen bits. -/
theorem exists_bitmap {len : Nat} (S : Finset Nat) (inside : ∀ i ∈ S, i < 8 * len) :
    ∃ bitmap : List UInt8, bitmap.length = len ∧ ∀ i, i ∈ expand bitmap ↔ i ∈ S := by
  induction S using Finset.induction_on with
  | empty => exact ⟨List.replicate len 0, by simp, by simp [expand_replicate_zero]⟩
  | insert i S _ ih =>
    obtain ⟨bitmap, length, bits⟩ := ih fun j hj => inside j (mem_insert_of_mem hj)
    have bound : i < 8 * bitmap.length := by
      rw [length]
      exact inside i (mem_insert_self i S)
    refine ⟨setBit bitmap i, by simpa using length, fun j => ?_⟩
    rw [mem_expand_setBit bound, mem_insert, bits]

/-- Two sets of members that overlap in more than `f` places share a member outside any set of at
most `f` exceptions. -/
theorem exists_common_outside {n f : Nat} {S T bad : Finset Nat} (hS : S ⊆ Finset.range n)
    (hT : T ⊆ Finset.range n) (hbad : bad.card ≤ f) (large : n + f < S.card + T.card) :
    ∃ i ∈ S, i ∈ T ∧ i ∉ bad := by
  have union : (S ∪ T).card ≤ n := by
    simpa using card_le_card (union_subset hS hT)
  have inter := card_union_add_card_inter S T
  obtain ⟨i, hi, hbad⟩ := exists_mem_notMem_of_card_lt_card (show bad.card < (S ∩ T).card by omega)
  exact ⟨i, (mem_inter.mp hi).1, (mem_inter.mp hi).2, hbad⟩

end Library
