import GlassChain.Identity.MspRegistry

/-!
# What an identity key signs

A possession proof of a session, the rotation of a pinned fingerprint and the registration of a
principal are signed with the same ed25519 keys. Each message starts with the name of its purpose
and puts the length of every field in front of it, so it can be read in one way only.
-/

namespace GlassChain

open List

/-- A purpose, with the arguments its message is made of. -/
inductive IdentityProof where
  | orgPossession (org nodeId : String) (binding : Bytes)
  | tofuPin (nodeId tlsCertFingerprint : String)
  | mspRegistration (org : String) (publicKey : Bytes)
  deriving DecidableEq, Repr

namespace IdentityProof

def message : IdentityProof → Bytes
  | orgPossession org nodeId binding => orgPossessionMessage org nodeId binding
  | tofuPin nodeId tlsCertFingerprint => tofuPinMessage nodeId tlsCertFingerprint
  | mspRegistration org publicKey => mspRegistrationMessage org publicKey

def fields : IdentityProof → List Bytes
  | orgPossession org nodeId binding => [utf8 org, utf8 nodeId, binding]
  | tofuPin nodeId tlsCertFingerprint => [utf8 nodeId, utf8 tlsCertFingerprint]
  | mspRegistration org publicKey => [utf8 org, publicKey]

/-- Every length fits the `u32` in front of its field; `push_field` panics otherwise. -/
def Fits (p : IdentityProof) : Prop := ∀ field ∈ p.fields, field.length < 2 ^ 32

instance (p : IdentityProof) : Decidable p.Fits :=
  inferInstanceAs (Decidable (∀ field ∈ p.fields, field.length < 2 ^ 32))

/-- The letter after `glasschain-`. -/
def initial : IdentityProof → UInt8
  | orgPossession .. => 'o'.toUInt8
  | tofuPin .. => 't'.toUInt8
  | mspRegistration .. => 'm'.toUInt8

lemma message_initial (p : IdentityProof) : p.message[11]? = some p.initial := by
  cases p with
  | orgPossession | tofuPin | mspRegistration =>
    simp only [message, orgPossessionMessage, tofuPinMessage, mspRegistrationMessage, append_assoc]
    rw [getElem?_append_left (by decide), initial]
    decide

lemma message_injOn {p q : IdentityProof} (fits : p.Fits) (fits' : q.Fits)
    (same : p.message = q.message) : p = q := by
  have letters : p.initial = q.initial := by
    have := p.message_initial
    rwa [same, message_initial, Option.some.injEq, eq_comm] at this
  simp only [Fits, fields] at fits fits'
  cases p with
  | orgPossession org nodeId binding =>
    cases q with
    | orgPossession org' nodeId' binding' =>
      simp only [message, orgPossessionMessage, append_assoc] at same
      obtain ⟨orgs, same⟩ := lengthPrefixed_append_inj (fits _ (by simp)) (fits' _ (by simp))
        (append_cancel_left same)
      obtain ⟨nodes, same⟩ := lengthPrefixed_append_inj (fits _ (by simp)) (fits' _ (by simp)) same
      rw [utf8_injective orgs, utf8_injective nodes, lengthPrefixed_injective same]
    | tofuPin | mspRegistration => exact absurd letters (by simp only [initial]; decide)
  | tofuPin nodeId fingerprint =>
    cases q with
    | tofuPin nodeId' fingerprint' =>
      simp only [message, tofuPinMessage, append_assoc] at same
      obtain ⟨nodes, same⟩ := lengthPrefixed_append_inj (fits _ (by simp)) (fits' _ (by simp))
        (append_cancel_left same)
      rw [utf8_injective nodes, utf8_injective (lengthPrefixed_injective same)]
    | orgPossession | mspRegistration => exact absurd letters (by simp only [initial]; decide)
  | mspRegistration org publicKey =>
    cases q with
    | mspRegistration org' publicKey' =>
      simp only [message, mspRegistrationMessage, append_assoc] at same
      obtain ⟨orgs, same⟩ := lengthPrefixed_append_inj (fits _ (by simp)) (fits' _ (by simp))
        (append_cancel_left same)
      rw [utf8_injective orgs, lengthPrefixed_injective same]
    | orgPossession | tofuPin => exact absurd letters (by simp only [initial]; decide)

inductive Accepted (K : MspPki) (key proof : Bytes) : IdentityProof → Prop
  | orgPossession {certPem org nodeId : String} {binding : Bytes}
      (held : K.certificateEd25519PublicKey certPem = some key)
      (verified : verifyOrgPossession K.toPki certPem org nodeId binding proof = true) :
      Accepted K key proof (.orgPossession org nodeId binding)
  | tofuPin {pin : PinState} {c : PinCall} (pinned : pin.publicKey = some key)
      (sent : c.fingerprintProof = some proof)
      (verified : PinRegistry.rotationProof K.ed25519 (some pin) c = .valid) :
      Accepted K key proof (.tofuPin c.nodeId c.certFingerprint)
  | mspRegistration {certPem org : String} {verifyCertPem : String → Except String Unit}
      (registered : MspEndorsementProvider.registrationKey K certPem proof org verifyCertPem =
        .ok key) : Accepted K key proof (.mspRegistration org key)

variable {K : MspPki} {key proof : Bytes} {p q : IdentityProof}

/-- Each check verifies the proof over the message of its purpose. -/
theorem Accepted.verified (accepted : p.Accepted K key proof) :
    verifyEd25519 K.ed25519 key p.message proof = true := by
  cases accepted with
  | orgPossession held verified => simpa [verifyOrgPossession, held, message] using verified
  | tofuPin pinned sent verified =>
    simp only [PinRegistry.rotationProof, pinned, sent] at verified
    split at verified
    · split at verified
      · assumption
      · cases verified
    · cases verified
  | mspRegistration registered =>
    exact ((MspEndorsementProvider.registrationKey_eq_ok K).mp registered).2.2.2

lemma message_eq_of_verified {C : Ed25519} (ideal : C.SignsOne) {message message' : Bytes}
    (verified : verifyEd25519 C key message proof = true)
    (verified' : verifyEd25519 C key message' proof = true) : message = message' := by
  simp only [verifyEd25519, Bool.and_eq_true] at verified verified'
  exact ideal _ _ _ _ verified.2 verified'.2

end IdentityProof

/-- No two purposes or argument tuples share a message, and what a key signed for one is accepted
for no other. -/
theorem identity_proofs_separated (p q : IdentityProof) (fits : p.Fits) (fits' : q.Fits) :
    (p.message = q.message → p = q) ∧
      ∀ (K : MspPki) (key proof : Bytes), K.ed25519.SignsOne →
        verifyEd25519 K.ed25519 key p.message proof = true →
        verifyEd25519 K.ed25519 key q.message proof = true ∨ q.Accepted K key proof → p = q := by
  refine ⟨IdentityProof.message_injOn fits fits', ?_⟩
  intro K key proof ideal signed checked
  have verified : verifyEd25519 K.ed25519 key q.message proof = true :=
    checked.elim id IdentityProof.Accepted.verified
  exact IdentityProof.message_injOn fits fits'
    (IdentityProof.message_eq_of_verified ideal signed verified)

/-- The keys of `sampleMsp`, of which each has signed this message only. -/
def signedOnce (message : Bytes) : MspPki :=
  { sampleMsp with ed25519 := ⟨fun _ => true, fun _ signed _ => signed == message⟩ }

/-- Texts of one field that run into the next give different messages, and a possession proof does
not rotate a pin. -/
theorem identity_proofs_sample :
    let p := IdentityProof.orgPossession "Farm" "a" [9]
    p.message ≠ (IdentityProof.orgPossession "Far" "ma" [9]).message ∧
      (verifyEd25519 (signedOnce p.message).ed25519 (List.replicate 32 1) p.message
          (List.replicate 64 2) = true ∧
        ¬(IdentityProof.tofuPin "Farm" "a").Accepted (signedOnce p.message) (List.replicate 32 1)
          (List.replicate 64 2)) := by
  intro p
  have signed : verifyEd25519 (signedOnce p.message).ed25519 (List.replicate 32 1) p.message
      (List.replicate 64 2) = true := by decide
  have once : (signedOnce p.message).ed25519.SignsOne := by
    intro _ message message' _ verified verified'
    exact (beq_iff_eq.mp verified).trans (beq_iff_eq.mp verified').symm
  refine ⟨fun same => ?_, signed, fun accepted => ?_⟩
  · exact absurd ((identity_proofs_separated p (.orgPossession "Far" "ma" [9]) (by decide)
      (by decide)).1 same) (by decide)
  · exact absurd ((identity_proofs_separated p (.tofuPin "Farm" "a") (by decide) (by decide)).2
      _ _ _ once signed (.inr accepted)) (by decide)

end GlassChain
