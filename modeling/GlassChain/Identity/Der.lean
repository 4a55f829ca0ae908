import GlassChain.Core.Basic

/-!
# Elements of DER

A tag, a length in its shortest form of up to two bytes, and the contents, as the OCSP code writes
and reads them. Every failure of the reader is `OcspError::Malformed`, so it returns an `Option`.
-/

namespace GlassChain

open List

structure Element where
  tag : UInt8
  contents : Bytes
  deriving DecidableEq, Repr

def writeLen (len : Nat) : Bytes :=
  if len < 0x80 then [.ofNat len]
  else if len ≤ 0xFF then [0x81, .ofNat len]
  else [0x82, .ofNat (len / 256), .ofNat len]

def writeTlv (tag : UInt8) (contents : Bytes) : Bytes := tag :: writeLen contents.length ++ contents

/-- A length, with the number of bytes that it takes; only the shortest form is read. -/
def readLen : Bytes → Option (Nat × Nat)
  | [] => none
  | first :: data =>
    if first < 0x80 then some (first.toNat, 1)
    else match first, data with
      | 0x81, len :: _ => if len < 0x80 then none else some (len.toNat, 2)
      | 0x82, high :: low :: _ =>
        let len := high.toNat * 256 + low.toNat
        if len < 0x100 then none else some (len, 3)
      | _, _ => none

/-- An element and the offset just past it. -/
def readTlv : Bytes → Option (Element × Nat)
  | [] => none
  | tag :: data => (readLen data).bind fun (len, header) =>
    if header + len ≤ data.length then
      some (⟨tag, (data.drop header).take len⟩, 1 + header + len)
    else none

lemma readLen_writeLen {len : Nat} (fits : len < 65536) (rest : Bytes) :
    readLen (writeLen len ++ rest) = some (len, (writeLen len).length) := by
  unfold writeLen
  split
  · have short : UInt8.ofNat len < 0x80 := by
      rw [UInt8.lt_iff_toNat_lt]
      simp
      omega
    simp [readLen, short]
    omega
  · split
    · have long : ¬UInt8.ofNat len < 0x80 := by
        rw [UInt8.lt_iff_toNat_lt]
        simp
        omega
      simp [readLen, long]
      omega
    · simp [readLen]
      omega

/-- The three forms are disjoint and each is the shortest one. -/
theorem writeLen_of_readLen {data : Bytes} {len header : Nat}
    (read : readLen data = some (len, header)) : writeLen len = data.take header := by
  unfold readLen at read
  split at read
  · cases read
  · rename_i first data
    split at read
    · cases read
      simp_all [writeLen, UInt8.lt_iff_toNat_lt]
    · split at read
      · rename_i len data _
        split at read
        · cases read
        · rename_i long
          cases read
          have small := len.toNat_lt
          rw [UInt8.lt_iff_toNat_lt] at long
          have short : ¬len.toNat < 0x80 := long
          rw [writeLen, if_neg short, if_pos (by omega)]
          simp
      · rename_i high low data _
        dsimp only at read
        split at read
        · cases read
        · rename_i long
          cases read
          have small := low.toNat_lt
          have upper : (high.toNat * 256 + low.toNat) / 256 = high.toNat := by omega
          rw [writeLen, if_neg (by omega), if_neg (by omega), upper]
          simp
      · cases read

/-- An element reads back, whatever follows it. -/
theorem readTlv_writeTlv (tag : UInt8) {contents : Bytes} (fits : contents.length < 65536)
    (rest : Bytes) : readTlv (writeTlv tag contents ++ rest) =
      some (⟨tag, contents⟩, (writeTlv tag contents).length) := by
  simp [writeTlv, readTlv, readLen_writeLen fits]
  omega

lemma writeTlv_of_readTlv {data : Bytes} {element : Element} {stop : Nat}
    (read : readTlv data = some (element, stop)) :
    0 < stop ∧ stop ≤ data.length ∧ writeTlv element.tag element.contents = data.take stop := by
  unfold readTlv at read
  split at read
  · cases read
  · rename_i tag data
    obtain ⟨⟨len, header⟩, length, read⟩ := Option.bind_eq_some_iff.mp read
    dsimp only at read
    split at read
    · rename_i fits
      cases read
      have whole : ((data.drop header).take len).length = len := by simp; omega
      refine ⟨by omega, by simp; omega, ?_⟩
      rw [writeTlv, whole, writeLen_of_readLen length, Nat.add_assoc, Nat.add_comm 1,
        take_succ_cons, take_add]
      rfl
    · cases read

def readSequence (data : Bytes) : Option (List Element) :=
  if data = [] then some []
  else match _read : readTlv data with
    | some (element, stop) => (readSequence (data.drop stop)).map (element :: ·)
    | none => none
termination_by data.length
decreasing_by
  have := writeTlv_of_readTlv _read
  rw [length_drop]
  omega

def Element.write (element : Element) : Bytes := writeTlv element.tag element.contents

lemma readSequence_flatMap_write {elements : List Element}
    (fits : ∀ element ∈ elements, element.contents.length < 65536) :
    readSequence (elements.flatMap Element.write) = some elements := by
  induction elements with
  | nil => rw [flatMap_nil, readSequence, if_pos rfl]
  | cons first elements ih =>
    have read := readTlv_writeTlv first.tag (fits first (by simp)) (elements.flatMap Element.write)
    rw [flatMap_cons, readSequence, if_neg (by simp [Element.write, writeTlv])]
    split
    · rename_i element stop same
      obtain ⟨rfl, rfl⟩ := Prod.mk.inj (Option.some.inj (same.symm.trans read))
      rw [Element.write, drop_left, ih fun element member => fits element (by simp [member])]
      rfl
    · rename_i same
      cases same.symm.trans read

/-- Written elements read back with their length, whatever follows; what is read was written so; and
a row of written elements reads back as the elements. -/
theorem der_codec_canonical :
    (∀ tag contents rest, contents.length < 65536 → readTlv (writeTlv tag contents ++ rest) =
      some (⟨tag, contents⟩, (writeTlv tag contents).length)) ∧
    (∀ data element stop, readTlv data = some (element, stop) →
      writeTlv element.tag element.contents = data.take stop ∧ stop ≤ data.length) ∧
    ∀ elements : List Element, (∀ element ∈ elements, element.contents.length < 65536) →
      readSequence (elements.flatMap fun e => writeTlv e.tag e.contents) = some elements := by
  refine ⟨fun tag _ rest fits => readTlv_writeTlv tag fits rest, fun data element stop read => ?_,
    fun elements => readSequence_flatMap_write⟩
  obtain ⟨-, within, same⟩ := writeTlv_of_readTlv read
  exact ⟨same, within⟩

end GlassChain
