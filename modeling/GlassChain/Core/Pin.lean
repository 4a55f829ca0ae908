import GlassChain.Core.Basic

/-!
# The identity-pin decision

What one handshake does to the identity pinned for an address: record it, know it again, rotate its
transport fingerprint, or reject the claim.
-/

namespace GlassChain

structure PinState where
  nodeId : String
  certFingerprint : String
  org : String
  publicKey : Option Bytes
  deriving DecidableEq, Repr

/-- The identity fields one `Hello` claims. -/
structure IdentityClaim where
  nodeId : String
  certFingerprint : String
  org : String
  publicKey : Option Bytes
  deriving DecidableEq, Repr

/-- Whether a fingerprint change comes with a valid signed rotation. -/
inductive RotationProof where
  | missing
  | invalid
  | valid
  deriving DecidableEq, Repr

inductive RejectReason where
  | poisoned
  | nodeIdChanged
  | orgChanged
  | noPinnedKey
  | missingProof
  | invalidProof
  deriving DecidableEq, Repr

inductive PinDecision where
  | new
  | known
  | rotated
  | rejected (reason : RejectReason)
  deriving DecidableEq, Repr

namespace Pin

def decide (existing : Option PinState) (poisoned : Bool) (claim : IdentityClaim)
    (rotationProof : RotationProof) : PinDecision :=
  if poisoned then .rejected .poisoned
  else match existing with
    | none => .new
    | some pinned =>
      if pinned.nodeId ≠ claim.nodeId then .rejected .nodeIdChanged
      else if pinned.org ≠ claim.org then .rejected .orgChanged
      else if pinned.certFingerprint = claim.certFingerprint then .known
      else if pinned.publicKey.isNone then .rejected .noPinnedKey
      else match rotationProof with
        | .missing => .rejected .missingProof
        | .invalid => .rejected .invalidProof
        | .valid => .rotated

variable {existing : Option PinState} {poisoned : Bool} {claim : IdentityClaim}
  {rotationProof : RotationProof}

/-- The claim agrees with the pin in what never changes. -/
def SameIdentity (pinned : PinState) (claim : IdentityClaim) : Prop :=
  pinned.nodeId = claim.nodeId ∧ pinned.org = claim.org

lemma decide_eq_new : decide existing poisoned claim rotationProof = .new ↔
    poisoned = false ∧ existing = none := by
  unfold decide
  cases existing <;> grind

lemma decide_eq_known : decide existing poisoned claim rotationProof = .known ↔
    poisoned = false ∧ ∃ pinned, existing = some pinned ∧ SameIdentity pinned claim ∧
      pinned.certFingerprint = claim.certFingerprint := by
  unfold decide SameIdentity
  cases existing <;> grind

lemma decide_eq_rotated : decide existing poisoned claim rotationProof = .rotated ↔
    poisoned = false ∧ ∃ pinned, existing = some pinned ∧ SameIdentity pinned claim ∧
      pinned.certFingerprint ≠ claim.certFingerprint ∧ pinned.publicKey.isSome = true ∧
      rotationProof = .valid := by
  unfold decide SameIdentity
  cases existing with
  | none => grind
  | some pinned => cases key : pinned.publicKey <;> grind

end Pin

end GlassChain
