import GlassChain.Core.Block
import GlassChain.Library.BigEndian
import GlassChain.Library.Multisig
import GlassChain.Library.Quorum

/-!
# Votes, validator sets and quorum certificates

The BFT provider is written over the operations `B` of its BLS library. A provider can only be made
by `new`, which checks every validator's key and proof of possession; the structure carries that
check. A vote holds two signatures: one over the candidate hash alone, which is what certificates
aggregate, and one over the whole context.
-/

namespace GlassChain

open Library List

def usizeMax : Nat := 2 ^ 64 - 1

/-- Two thirds of the set, rounded down, plus one; the product saturates. -/
def quorumThreshold (validatorCount : Nat) : Nat := min (validatorCount * 2) usizeMax / 3 + 1

def bitmapLen (validatorCount : Nat) : Nat :=
  if validatorCount % 8 = 0 then validatorCount / 8 else validatorCount / 8 + 1

def meetsQuorum (signers validatorCount : Nat) : Bool := quorumThreshold validatorCount ≤ signers

def bitmapContains (bitmap : Bytes) (index : Nat) : Bool :=
  testMask (bitmap.getD (index / 8) 0) (index % 8)

def expandSigners (bitmap : Bytes) : List Nat := expand bitmap

def signersInRange (signers : List Nat) (validatorCount : Nat) : Bool :=
  signers.all (· < validatorCount)

def bitmapTooLarge (bitmapLen : Nat) : Bool := usizeMax / 8 < bitmapLen

/-- Big-endian bytes of a number, `width` of them. -/
def beBytes (width n : Nat) : Bytes :=
  (List.range width).reverse.map fun i => UInt8.ofNat (n / 256 ^ i)

/-- A `u32` length and the bytes. -/
def lengthPrefixed (bytes : Bytes) : Bytes := beBytes 4 bytes.length ++ bytes

inductive VotePhase where
  | prevote
  | precommit
  deriving DecidableEq, Repr

namespace VotePhase

def tag : VotePhase → UInt8
  | prevote => 0
  | precommit => 1

def debug : VotePhase → String
  | prevote => "Prevote"
  | precommit => "Precommit"

end VotePhase

structure BftVote where
  height : Nat
  round : Nat
  phase : VotePhase
  blockHash : String
  chainId : String
  publicKey : Bytes
  signature : Bytes
  contextSignature : Bytes
  algorithm : SignatureAlgorithm
  deriving DecidableEq, Repr

/-- A failed parse of another package, reported as an invalid block. -/
def parsed {α : Type} (result : Except String α) (text : String) : Except CoreError α :=
  result.mapError fun e => .invalidBlock (text ++ e)

namespace BftVote

/-- What certificates sign: the candidate hash, without height, round or phase. -/
def voteMessage (blockHash : String) : Bytes :=
  utf8 "glasschain-bft-vote:" ++ lengthPrefixed (utf8 blockHash)

def contextMessage (chainId : String) (height round : Nat) (phase : VotePhase)
    (blockHash : String) : Bytes :=
  utf8 "glasschain-bft-vote-ctx:" ++ lengthPrefixed (utf8 chainId) ++ beBytes 8 height ++
    beBytes 4 round ++ [phase.tag] ++ lengthPrefixed (utf8 blockHash)

def sign (B : Multisig) (chainId : String) (height round : Nat) (phase : VotePhase)
    (blockHash : String) (signingKey : B.PrivateKey) : BftVote where
  height := height
  round := round
  phase := phase
  blockHash := blockHash
  chainId := chainId
  publicKey := B.encodedKey signingKey
  signature := B.signatureBytes (B.sign signingKey (voteMessage blockHash))
  contextSignature :=
    B.signatureBytes (B.sign signingKey (contextMessage chainId height round phase blockHash))
  algorithm := .bls12381

def verify (B : Multisig) (v : BftVote) : Except CoreError Unit := do
  require (v.algorithm == .bls12381) (.invalidBlock
    ("bft: vote algorithm must be Bls12381, got " ++ QuorumCertificate.debugAlgorithm v.algorithm))
  require (!v.contextSignature.isEmpty) (.invalidBlock ("bft: vote has no context signature — " ++
    "the legacy hash-only vote format is no longer accepted (#99)"))
  let key ← parsed (B.keyOfBytes v.publicKey) "bft: vote has an invalid BLS public key: "
  let signature ← parsed (B.signatureOfBytes v.signature) "bft: vote has an invalid BLS signature: "
  require (B.verify key signature (voteMessage v.blockHash)) (.invalidBlock
    (s!"bft: vote signature does not verify (height {v.height}, round {v.round}, phase " ++
      v.phase.debug ++ ")"))
  let context ← parsed (B.signatureOfBytes v.contextSignature)
    "bft: vote has an invalid context signature: "
  require
    (B.verify key context (contextMessage v.chainId v.height v.round v.phase v.blockHash))
    (.invalidBlock
      (s!"bft: vote context signature does not verify (chain {v.chainId}, height {v.height}, " ++
        s!"round {v.round}, phase " ++ v.phase.debug ++ ")"))

end BftVote

structure EquivocationProof where
  height : Nat
  round : Nat
  phase : VotePhase
  publicKey : Bytes
  firstVote : BftVote
  secondVote : BftVote
  deriving DecidableEq, Repr

namespace EquivocationProof

def agrees (p : EquivocationProof) (v : BftVote) : Bool :=
  v.height == p.height && v.round == p.round && v.phase == p.phase && v.publicKey == p.publicKey

def verify (B : Multisig) (p : EquivocationProof) : Except CoreError Unit := do
  p.firstVote.verify B
  p.secondVote.verify B
  require (p.firstVote.blockHash != p.secondVote.blockHash) (.invalidBlock
    "equivocation proof: both votes name the same hash — not equivocation")
  require (p.agrees p.firstVote) (.invalidBlock
    "equivocation proof: first vote disagrees with the proof context")
  require (p.agrees p.secondVote) (.invalidBlock
    "equivocation proof: second vote disagrees with the proof context")
  require (p.firstVote.chainId == p.secondVote.chainId) (.invalidBlock
    "equivocation proof: the votes are bound to different chains")

end EquivocationProof

structure ValidatorInfo where
  name : String
  publicKey : Bytes
  pop : Bytes
  deriving DecidableEq, Repr

namespace ValidatorInfo

def popMessage (v : ValidatorInfo) : Bytes := utf8 ("glasschain-bls-pop:" ++ hexEncode v.publicKey)

/-- The checks `BftConsensusProvider::new` makes on one validator. -/
def register (B : Multisig) (v : ValidatorInfo) : Except CoreError Unit := do
  require (v.publicKey.length == 48) (.invalidBlock
    (s!"bft: validator '{v.name}' has a {v.publicKey.length}-byte BLS public key (expected 48)"))
  let key ← parsed (B.keyOfBytes v.publicKey)
    (s!"bft: validator '{v.name}' has an invalid BLS public key: ")
  let pop ← parsed (B.signatureOfBytes v.pop)
    (s!"bft: validator '{v.name}' has an invalid proof of possession: ")
  require (B.verify key pop v.popMessage) (.invalidBlock
    (s!"bft: validator '{v.name}' failed its proof of possession (rogue-key defense)"))

def registerAll (B : Multisig) : List ValidatorInfo → Except CoreError Unit
  | [] => .ok ()
  | v :: rest => do
    v.register B
    registerAll B rest

lemma registerAll_iff {B : Multisig} {vs : List ValidatorInfo} :
    registerAll B vs = .ok () ↔ ∀ v ∈ vs, v.register B = .ok () := by
  induction vs with
  | nil => simp [registerAll]
  | cons v rest ih => simp [registerAll, bind_eq_ok, ih, Unique.exists_iff]

end ValidatorInfo

structure BftConsensusProvider (B : Multisig) where
  validators : List ValidatorInfo
  signingKey : B.PrivateKey
  registered : ∀ v ∈ validators, v.register B = .ok ()

/-- The IETF multisig check: the signers' keys collapse into one sum. -/
def verifySameMessageMultisig (B : Multisig) (aggregate : B.Signature) (publicKeys : List Bytes)
    (message : Bytes) : Bool :=
  match B.sumKeys publicKeys with
  | none => false
  | some point => B.pairingCheck point aggregate message

namespace BftConsensusProvider

variable {B : Multisig}

def new (validators : List ValidatorInfo) (signingKey : B.PrivateKey) :
    Except CoreError (BftConsensusProvider B) :=
  match h : ValidatorInfo.registerAll B validators with
  | .ok () => .ok ⟨validators, signingKey, ValidatorInfo.registerAll_iff.mp h⟩
  | .error e => .error e

def publicKey (P : BftConsensusProvider B) : Bytes := B.encodedKey P.signingKey

def validatorCount (P : BftConsensusProvider B) : Nat := P.validators.length

def quorum (P : BftConsensusProvider B) : Nat := quorumThreshold P.validators.length

def indexOf (P : BftConsensusProvider B) (key : Bytes) : Option Nat :=
  P.validators.findIdx? (·.publicKey == key)

def localIndex (P : BftConsensusProvider B) : Option Nat := P.indexOf P.publicKey

def signVote (P : BftConsensusProvider B) (chainId : String) (height round : Nat)
    (phase : VotePhase) (blockHash : String) : BftVote :=
  BftVote.sign B chainId height round phase blockHash P.signingKey

def verifyVote (P : BftConsensusProvider B) (v : BftVote) : Except CoreError Nat := do
  v.verify B
  match P.indexOf v.publicKey with
  | some index => .ok index
  | none => .error (.invalidBlock "bft: vote from a validator outside the set")

/-- The loop of `aggregate_votes`: a voter whose bit is set already is skipped. -/
def collectSignatures (P : BftConsensusProvider B) :
    List BftVote → Bytes → List B.Signature → Except CoreError (Bytes × List B.Signature)
  | [], bitmap, signatures => .ok (bitmap, signatures)
  | v :: rest, bitmap, signatures => do
    let index ← P.verifyVote v
    if bitmapContains bitmap index then P.collectSignatures rest bitmap signatures
    else
      let signature ← parsed (B.signatureOfBytes v.signature) "bft: invalid vote signature: "
      P.collectSignatures rest (setBit bitmap index) (signatures ++ [signature])

def aggregateVotes (P : BftConsensusProvider B) (votes : List BftVote) :
    Except CoreError (Bytes × Bytes) := do
  let (bitmap, signatures) ←
    P.collectSignatures votes (List.replicate (bitmapLen P.validators.length) 0) []
  let aggregate ← parsed (B.aggregate signatures) "bft: vote aggregation failed: "
  return (bitmap, B.signatureBytes aggregate)

def verifyCertificate (P : BftConsensusProvider B) (c : QuorumCertificate) (b : Block) :
    Except CoreError Unit := do
  c.validate b
  require (!c.isDegenerate) (.invalidBlock
    "bft: degenerate (empty) quorum certificate is not final")
  require (!bitmapTooLarge c.signersBitmap.length) (.invalidBlock
    "bft: signer bitmap is too large to expand")
  let signers := expandSigners c.signersBitmap
  require (meetsQuorum signers.length P.validatorCount) (.invalidBlock
    s!"bft: quorum {P.quorum} not reached ({signers.length} validators in bitmap)")
  require (signersInRange signers P.validators.length) (.invalidBlock
    "bft: certificate bitmap names validators outside the set")
  let publicKeys := (signers.filterMap (P.validators[·]?)).map (·.publicKey)
  let aggregate ← parsed (B.signatureOfBytes c.aggregateSignature)
    "bft: invalid BLS aggregate signature: "
  require (verifySameMessageMultisig B aggregate publicKeys (BftVote.voteMessage b.hash))
    (.invalidBlock
      s!"bft: aggregate signature does not verify over block {b.index} ({signers.length} signers)")

end BftConsensusProvider

@[simp]
lemma parsed_eq_ok {α : Type} {result : Except String α} {text : String} {a : α} :
    parsed result text = .ok a ↔ result = .ok a :=
  mapError_eq_ok

@[simp]
lemma length_beBytes (width n : Nat) : (beBytes width n).length = width := by
  simp [beBytes]

lemma lengthPrefixed_injective : Function.Injective lengthPrefixed := by
  intro a b h
  exact (append_inj h (by simp)).2

lemma beBytes_succ (width n : Nat) :
    beBytes (width + 1) n = UInt8.ofNat (n / 256 ^ width) :: beBytes width n := by
  simp [beBytes, range_succ]

lemma ofBytes_beBytes (width n : Nat) : ofBytes (beBytes width n) = n % 256 ^ width := by
  induction width with
  | zero => simp [beBytes, Nat.mod_one]
  | succ width ih =>
    rw [beBytes_succ, ofBytes_cons, length_beBytes, ih, Nat.pow_succ, Nat.mod_mul]
    simp only [UInt8.toNat_ofNat']
    ring

lemma beBytes_inj {width n m : Nat} (fits : n < 256 ^ width) (fits' : m < 256 ^ width)
    (same : beBytes width n = beBytes width m) : n = m := by
  have read := congrArg ofBytes same
  rwa [ofBytes_beBytes, ofBytes_beBytes, Nat.mod_eq_of_lt fits, Nat.mod_eq_of_lt fits'] at read

/-- A length that fits says where the bytes end. -/
theorem lengthPrefixed_append_inj {a b rest rest' : Bytes} (fits : a.length < 2 ^ 32)
    (fits' : b.length < 2 ^ 32) (same : lengthPrefixed a ++ rest = lengthPrefixed b ++ rest') :
    a = b ∧ rest = rest' := by
  simp only [lengthPrefixed, append_assoc] at same
  obtain ⟨lengths, bytes⟩ := append_inj same (by simp)
  exact append_inj bytes (beBytes_inj fits fits' lengths)

namespace BftVote

lemma voteMessage_injective : Function.Injective voteMessage := by
  intro a b h
  exact utf8_injective (lengthPrefixed_injective (append_cancel_left h))

/-- The two domains differ in the byte after the common text. -/
theorem voteMessage_ne_contextMessage (hash chainId : String) (height round : Nat)
    (phase : VotePhase) (hash' : String) :
    voteMessage hash ≠ contextMessage chainId height round phase hash' := by
  intro h
  have vote : (voteMessage hash)[19]? = some 58 := by
    rw [voteMessage, getElem?_append_left (by decide)]
    decide
  have context : (contextMessage chainId height round phase hash')[19]? = some 45 := by
    simp only [contextMessage, append_assoc]
    rw [getElem?_append_left (by decide)]
    decide
  rw [h, context] at vote
  exact absurd vote (by decide)

lemma voteMessage_ne_popMessage (hash : String) (v : ValidatorInfo) :
    voteMessage hash ≠ v.popMessage := by
  intro h
  have vote : (voteMessage hash)[12]? = some 102 := by
    rw [voteMessage, getElem?_append_left (by decide)]
    decide
  have pop : v.popMessage[12]? = some 108 := by
    rw [ValidatorInfo.popMessage, utf8_append, getElem?_append_left (by decide)]
    decide
  rw [h, pop] at vote
  exact absurd vote (by decide)

/-- What a context signature covers, with numbers and lengths in the ranges of their types. -/
structure Context where
  chainId : String
  height : Nat
  round : Nat
  phase : VotePhase
  blockHash : String
  chainFits : (utf8 chainId).length < 2 ^ 32
  heightFits : height < 2 ^ 64
  roundFits : round < 2 ^ 32
  hashFits : (utf8 blockHash).length < 2 ^ 32

def Context.message (c : Context) : Bytes :=
  contextMessage c.chainId c.height c.round c.phase c.blockHash

lemma tag_injective : Function.Injective VotePhase.tag := by
  intro a b same
  cases a <;> cases b <;> first | rfl | exact absurd same (by decide)

/-- The parts of a context are read off one after the other, each in front of the rest. -/
theorem Context.message_injective {c c' : Context} (same : c.message = c'.message) :
    c.chainId = c'.chainId ∧ c.height = c'.height ∧ c.round = c'.round ∧ c.phase = c'.phase ∧
      c.blockHash = c'.blockHash := by
  simp only [message, contextMessage, append_assoc] at same
  obtain ⟨chain, same⟩ :=
    lengthPrefixed_append_inj c.chainFits c'.chainFits (append_cancel_left same)
  obtain ⟨height, same⟩ := append_inj same (by simp)
  obtain ⟨round, same⟩ := append_inj same (by simp)
  obtain ⟨phase, hash⟩ := append_inj same rfl
  exact ⟨utf8_injective chain, beBytes_inj c.heightFits c'.heightFits height,
    beBytes_inj c.roundFits c'.roundFits round, tag_injective (singleton_inj.mp phase),
    utf8_injective (lengthPrefixed_injective hash)⟩

/-- Both messages determine what they encode, and what certificates aggregate is never read as a
context or as a proof of possession. -/
theorem vote_encodings_separated (c c' : Context) (hash hash' : String) (v : ValidatorInfo) :
    (c.message = c'.message → c.chainId = c'.chainId ∧ c.height = c'.height ∧
      c.round = c'.round ∧ c.phase = c'.phase ∧ c.blockHash = c'.blockHash) ∧
    (voteMessage hash = voteMessage hash' → hash = hash') ∧
    voteMessage hash ≠ c.message ∧ voteMessage hash ≠ v.popMessage := by
  refine ⟨Context.message_injective, fun same => voteMessage_injective same, ?_,
    voteMessage_ne_popMessage hash v⟩
  exact voteMessage_ne_contextMessage hash c.chainId c.height c.round c.phase c.blockHash

/-- The first prevote for a block, in a round. -/
def firstPrevote (round : Nat) (fits : round < 2 ^ 32) : Context :=
  ⟨"chain", 1, round, .prevote, "a", by decide, by decide, fits, by decide⟩

theorem vote_encodings_of_rounds :
    (firstPrevote 0 (by decide)).message ≠ (firstPrevote 1 (by decide)).message := by
  intro same
  have rounds := ((vote_encodings_separated _ _ "a" "a" ⟨"", [], []⟩).1 same).2.2.1
  exact absurd rounds (by decide)

variable {B : Multisig} {v : BftVote}

lemma verify_iff : v.verify B = .ok () ↔
    v.algorithm = .bls12381 ∧ v.contextSignature ≠ [] ∧
      ∃ key, B.keyOfBytes v.publicKey = .ok key ∧
        ∃ signature, B.signatureOfBytes v.signature = .ok signature ∧
          B.verify key signature (voteMessage v.blockHash) = true ∧
          ∃ context, B.signatureOfBytes v.contextSignature = .ok context ∧ B.verify key context
              (contextMessage v.chainId v.height v.round v.phase v.blockHash) = true := by
  simp [verify, bind_eq_ok]

/-- The hash signature of a vote that verifies holds nothing but the voter's own signature. -/
theorem built_of_verify (I : B.Ideal) (h : v.verify B = .ok ()) :
    ∃ σ, B.signatureOfBytes v.signature = .ok σ ∧
      I.built σ = {(v.publicKey, voteMessage v.blockHash)} := by
  obtain ⟨-, -, key, hkey, σ, hσ, verified, -⟩ := verify_iff.mp h
  refine ⟨σ, hσ, ?_⟩
  rw [(I.verify_iff key σ _).mp verified, I.key_canonical hkey]

lemma verify_sign (I : B.Ideal) (chainId : String) (height round : Nat) (phase : VotePhase)
    (blockHash : String) (sk : B.PrivateKey) :
    (sign B chainId height round phase blockHash sk).verify B = .ok () :=
  verify_iff.mpr ⟨rfl, I.signature_nonempty _, _, I.key_round sk, _, I.signature_round _,
    I.verify_sign sk _, _, I.signature_round _, I.verify_sign sk _⟩

end BftVote

namespace ValidatorInfo

variable {B : Multisig} {v : ValidatorInfo}

lemma register_iff : v.register B = .ok () ↔
    v.publicKey.length = 48 ∧ ∃ key, B.keyOfBytes v.publicKey = .ok key ∧
      ∃ pop, B.signatureOfBytes v.pop = .ok pop ∧ B.verify key pop v.popMessage = true := by
  simp [register, bind_eq_ok]

def ofPrivateKey (B : Multisig) (name : String) (sk : B.PrivateKey) : ValidatorInfo where
  name := name
  publicKey := B.encodedKey sk
  pop := B.signatureBytes
    (B.sign sk (utf8 ("glasschain-bls-pop:" ++ hexEncode (B.encodedKey sk))))

lemma register_ofPrivateKey (I : B.Ideal) (name : String) {sk : B.PrivateKey}
    (size : (B.encodedKey sk).length = 48) : (ofPrivateKey B name sk).register B = .ok () :=
  register_iff.mpr ⟨size, _, I.key_round sk, _, I.signature_round _, I.verify_sign sk _⟩

end ValidatorInfo

lemma BftConsensusProvider.new_eq_ok {B : Multisig} {validators : List ValidatorInfo}
    {signingKey : B.PrivateKey} {P : BftConsensusProvider B} :
    BftConsensusProvider.new validators signingKey = .ok P ↔
      P.validators = validators ∧ P.signingKey = signingKey := by
  unfold BftConsensusProvider.new
  split
  · rw [Except.ok.injEq]
    constructor
    · rintro rfl
      exact ⟨rfl, rfl⟩
    · rintro ⟨rfl, rfl⟩
      rfl
  · rename_i e h
    refine ⟨fun absurd => (nomatch absurd), ?_⟩
    rintro ⟨rfl, -⟩
    rw [ValidatorInfo.registerAll_iff.mpr P.registered] at h
    cases h

end GlassChain
