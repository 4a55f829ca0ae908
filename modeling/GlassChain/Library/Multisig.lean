import Mathlib

/-!
# Aggregate signatures

`Multisig` lists the operations of a signature scheme whose signatures over one message aggregate
and are checked against a sum of public keys. `Multisig.Ideal` states perfect security: a signature
is worth exactly the multiset of (key, message) pairs it was built from, so it verifies for that
multiset and for no other, and encodings are canonical. `Multisig.symbolic` is a scheme that has
these properties.
-/

namespace Library

open List

/-- The operations of an aggregate signature scheme over byte strings. -/
structure Multisig where
  PrivateKey : Type
  PublicKey : Type
  Signature : Type
  /-- Sums of public keys. -/
  Point : Type
  publicKey : PrivateKey → PublicKey
  keyBytes : PublicKey → List UInt8
  keyOfBytes : List UInt8 → Except String PublicKey
  signatureBytes : Signature → List UInt8
  signatureOfBytes : List UInt8 → Except String Signature
  sign : PrivateKey → List UInt8 → Signature
  verify : PublicKey → Signature → List UInt8 → Bool
  aggregate : List Signature → Except String Signature
  identity : Point
  pointOfBytes : List UInt8 → Option Point
  add : Point → Point → Point
  /-- The pairing equation between a key sum, a signature and a hashed message. -/
  pairingCheck : Point → Signature → List UInt8 → Bool

namespace Multisig

def encodedKey (B : Multisig) (sk : B.PrivateKey) : List UInt8 := B.keyBytes (B.publicKey sk)

structure Ideal (B : Multisig) where
  /-- The (key, message) pairs a signature was built from. -/
  built : B.Signature → Multiset (List UInt8 × List UInt8)
  /-- The keys a sum was built from. -/
  keys : B.Point → Multiset (List UInt8)
  key_canonical : ∀ {bytes pk}, B.keyOfBytes bytes = .ok pk → B.keyBytes pk = bytes
  key_round : ∀ sk, B.keyOfBytes (B.encodedKey sk) = .ok (B.publicKey sk)
  private_of_key : ∀ pk, ∃ sk, B.publicKey sk = pk
  signature_round : ∀ σ, B.signatureOfBytes (B.signatureBytes σ) = .ok σ
  signature_nonempty : ∀ σ, B.signatureBytes σ ≠ []
  built_sign : ∀ sk m, built (B.sign sk m) = {(B.encodedKey sk, m)}
  verify_iff : ∀ pk σ m, B.verify pk σ m = true ↔ built σ = {(B.keyBytes pk, m)}
  aggregate_ok : ∀ σs, σs ≠ [] → ∃ σ, B.aggregate σs = .ok σ ∧ built σ = (σs.map built).sum
  keys_identity : keys B.identity = 0
  keys_add : ∀ p q, keys (B.add p q) = keys p + keys q
  point_of_key : ∀ {bytes pk}, B.keyOfBytes bytes = .ok pk →
    ∃ p, B.pointOfBytes bytes = some p
  keys_point : ∀ {bytes p}, B.pointOfBytes bytes = some p → keys p = {bytes}
  pairing_iff : ∀ p σ m, B.pairingCheck p σ m = true ↔ built σ = (keys p).map (·, m)

def sumKeys (B : Multisig) (keys : List (List UInt8)) : Option B.Point :=
  keys.foldlM (fun total key => (B.pointOfBytes key).map (B.add total)) B.identity

namespace Ideal

variable {B : Multisig} (I : B.Ideal)

lemma keys_sumKeys {encoded : List (List UInt8)} {p : B.Point} (h : B.sumKeys encoded = some p) :
    I.keys p = encoded := by
  suffices ∀ start, encoded.foldlM (fun total key => (B.pointOfBytes key).map (B.add total)) start
      = some p → I.keys p = I.keys start + (encoded : Multiset (List UInt8)) by
    simpa [I.keys_identity] using this _ h
  clear h
  induction encoded with
  | nil =>
    intro start h
    cases h
    simp
  | cons key rest ih =>
    intro start h
    rw [foldlM_cons] at h
    cases parsed : B.pointOfBytes key with
    | none => simp [parsed] at h
    | some q =>
      simp only [parsed, Option.map_some, Option.bind_eq_bind, Option.bind_some] at h
      rw [ih _ h, I.keys_add, I.keys_point parsed, add_assoc, ← Multiset.cons_coe]
      simp

include I in
lemma sumKeys_isSome {encoded : List (List UInt8)}
    (parse : ∀ key ∈ encoded, ∃ pk, B.keyOfBytes key = .ok pk) : ∃ p, B.sumKeys encoded = some p := by
  unfold sumKeys
  generalize B.identity = start
  induction encoded generalizing start with
  | nil => exact ⟨start, rfl⟩
  | cons key rest ih =>
    obtain ⟨pk, hpk⟩ := parse key (by simp)
    obtain ⟨q, hq⟩ := I.point_of_key hpk
    rw [foldlM_cons, hq]
    exact ih (fun k hk => parse k (by simp [hk])) (B.add start q)

/-- What signatures of one pair each are worth together. -/
theorem sum_built {ι : Type*} {l : List ι} {σ : ι → B.Signature}
    {pair : ι → List UInt8 × List UInt8} (h : ∀ i ∈ l, I.built (σ i) = {pair i}) :
    ((l.map σ).map I.built).sum = (l : Multiset ι).map pair := by
  induction l with
  | nil => rfl
  | cons i rest ih =>
    rw [map_cons, map_cons, sum_cons, h i (by simp),
      ih fun j hj => h j (by simp [hj]), ← Multiset.cons_coe, Multiset.map_cons,
      Multiset.singleton_add]

include I in
lemma verify_sign (sk : B.PrivateKey) (m : List UInt8) :
    B.verify (B.publicKey sk) (B.sign sk m) m = true :=
  (I.verify_iff _ _ _).mpr (I.built_sign sk m)

end Ideal

section Symbolic

noncomputable def symbolicCode : List (List UInt8 × List UInt8) → Nat :=
  (Countable.exists_injective_nat _).choose

lemma symbolicCode_injective : Function.Injective symbolicCode :=
  (Countable.exists_injective_nat (List (List UInt8 × List UInt8))).choose_spec

open Classical in
/-- The scheme with keys of `size` bytes in which a signature is the list of the pairs it was built
from. -/
noncomputable def symbolic (size : Nat) : Multisig where
  PrivateKey := { key : List UInt8 // key.length = size }
  PublicKey := { key : List UInt8 // key.length = size }
  Signature := List (List UInt8 × List UInt8)
  Point := Multiset (List UInt8)
  publicKey := id
  keyBytes := Subtype.val
  keyOfBytes bytes := if h : bytes.length = size then .ok ⟨bytes, h⟩ else .error "key size"
  signatureBytes σ := List.replicate (symbolicCode σ + 1) 0
  signatureOfBytes bytes :=
    if h : ∃ σ, symbolicCode σ + 1 = bytes.length then .ok h.choose else .error "no signature"
  sign sk m := [(sk.val, m)]
  verify pk σ m := decide (σ = [(pk.val, m)])
  aggregate σs := if σs = [] then .error "no signatures" else .ok σs.flatten
  identity := 0
  pointOfBytes bytes := some {bytes}
  add p q := p + q
  pairingCheck p σ m := decide ((σ : Multiset _) = p.map (·, m))

lemma symbolic_keyOfBytes {size : Nat} {bytes : List UInt8} (h : bytes.length = size) :
    (symbolic size).keyOfBytes bytes = .ok ⟨bytes, h⟩ := dif_pos h

lemma symbolic_signature_round {size : Nat} (σ : (symbolic size).Signature) :
    (symbolic size).signatureOfBytes ((symbolic size).signatureBytes σ) = .ok σ := by
  have coded : ∃ τ, symbolicCode τ + 1 = (List.replicate (symbolicCode σ + 1) (0 : UInt8)).length :=
    ⟨σ, by simp⟩
  have same : coded.choose = σ := symbolicCode_injective (by simpa using coded.choose_spec)
  exact (dif_pos coded).trans (congrArg _ same)

lemma coe_flatten {α : Type*} (ls : List (List α)) :
    (ls.flatten : Multiset α) = (ls.map Multiset.ofList).sum := by
  induction ls with
  | nil => rfl
  | cons l rest ih => rw [map_cons, sum_cons, ← ih, flatten_cons, Multiset.coe_add]

noncomputable def symbolicIdeal (size : Nat) : (symbolic size).Ideal where
  built := Multiset.ofList
  keys := id
  key_canonical := by
    intro bytes pk h
    by_cases fits : bytes.length = size
    · cases (symbolic_keyOfBytes fits).symm.trans h
      rfl
    · cases (dif_neg fits).symm.trans h
  key_round sk := symbolic_keyOfBytes sk.property
  private_of_key pk := ⟨pk, rfl⟩
  signature_round := symbolic_signature_round
  signature_nonempty σ := cons_ne_nil _ _
  built_sign sk m := rfl
  verify_iff := fun pk (σ : List (List UInt8 × List UInt8)) m =>
    (decide_eq_true_iff (p := σ = [(pk.val, m)])).trans Multiset.coe_eq_singleton.symm
  aggregate_ok σs nonempty := ⟨List.flatten σs, if_neg nonempty, coe_flatten σs⟩
  keys_identity := rfl
  keys_add _ _ := rfl
  point_of_key _ := ⟨_, rfl⟩
  keys_point h := (Option.some.inj h).symm
  pairing_iff := fun p (σ : List (List UInt8 × List UInt8)) m =>
    decide_eq_true_iff (p := (σ : Multiset _) = Multiset.map (·, m) p)

end Symbolic

section Canonical

noncomputable def canonicalCode : Multiset (List UInt8 × List UInt8) → Nat :=
  (Countable.exists_injective_nat _).choose

lemma canonicalCode_injective : Function.Injective canonicalCode :=
  (Countable.exists_injective_nat (Multiset (List UInt8 × List UInt8))).choose_spec

open Classical in
/-- The symbolic scheme with unique signatures: a signature is the multiset of the pairs it was
built from, and aggregation is addition. -/
noncomputable def canonical (size : Nat) : Multisig :=
  { symbolic size with
    Signature := Multiset (List UInt8 × List UInt8)
    signatureBytes := fun σ => List.replicate (canonicalCode σ + 1) 0
    signatureOfBytes := fun bytes =>
      if h : ∃ σ, canonicalCode σ + 1 = bytes.length then .ok h.choose else .error "no signature"
    sign := fun (sk : { key : List UInt8 // key.length = size }) m => {(sk.val, m)}
    verify := fun (pk : { key : List UInt8 // key.length = size }) σ m => decide (σ = {(pk.val, m)})
    aggregate := fun σs => if σs = [] then .error "no signatures" else .ok σs.sum
    pairingCheck := fun (p : Multiset (List UInt8)) σ m => decide (σ = p.map (·, m)) }

lemma canonical_signature_round {size : Nat} (σ : (canonical size).Signature) :
    (canonical size).signatureOfBytes ((canonical size).signatureBytes σ) = .ok σ := by
  have coded : ∃ τ, canonicalCode τ + 1 = (List.replicate (canonicalCode σ + 1) (0 : UInt8)).length :=
    ⟨σ, by simp⟩
  have same : coded.choose = σ := canonicalCode_injective (by simpa using coded.choose_spec)
  exact (dif_pos coded).trans (congrArg _ same)

noncomputable def canonicalIdeal (size : Nat) : (canonical size).Ideal where
  built := id
  keys := id
  key_canonical := (symbolicIdeal size).key_canonical
  key_round := (symbolicIdeal size).key_round
  private_of_key := (symbolicIdeal size).private_of_key
  signature_round := canonical_signature_round
  signature_nonempty _ := cons_ne_nil _ _
  built_sign _ _ := rfl
  verify_iff := fun pk (σ : Multiset (List UInt8 × List UInt8)) m =>
    decide_eq_true_iff (p := σ = {(pk.val, m)})
  aggregate_ok := fun (σs : List (Multiset (List UInt8 × List UInt8))) nonempty =>
    ⟨σs.sum, if_neg nonempty, congrArg List.sum (map_id σs).symm⟩
  keys_identity := rfl
  keys_add _ _ := rfl
  point_of_key _ := ⟨_, rfl⟩
  keys_point := (symbolicIdeal size).keys_point
  pairing_iff := fun p (σ : Multiset (List UInt8 × List UInt8)) m =>
    decide_eq_true_iff (p := σ = Multiset.map (·, m) p)

end Canonical

end Multisig

end Library
