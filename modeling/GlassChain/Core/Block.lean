import GlassChain.Core.Canonical

/-!
# Blocks and the structure of quorum certificates

A block stores the hash of its own content; the certificate is outside the hashed tuple. `mine`
searches for a nonce. The search need not end, so it takes the number of iterations it may make,
and the clock it reads when the nonce wraps.
-/

namespace GlassChain

structure QuorumCertificate where
  blockIndex : Nat
  blockHash : String
  signersBitmap : Bytes
  aggregateSignature : Bytes
  algorithm : SignatureAlgorithm
  deriving DecidableEq, Repr

structure Block where
  index : Nat
  timestamp : Nat
  transactions : List Transaction
  writeSet : List PersistentWrite
  previousHash : String
  nonce : Nat
  hash : String
  certificate : Option QuorumCertificate
  deriving Repr

/-- `hash` starts with `difficulty` bytes `'0'`. -/
def hasLeadingZeros (hash : String) (difficulty : Nat) : Bool :=
  difficulty ≤ (utf8 hash).length && ((utf8 hash).take difficulty).all (· == 48)

namespace Block

def content (b : Block) : BlockContent :=
  ⟨b.index, b.timestamp, b.transactions, b.writeSet, b.previousHash, b.nonce⟩

def calculateHash (X : Externals) (b : Block) : String := X.contentHash b.content

def hasValidPow (b : Block) (difficulty : Nat) : Bool := hasLeadingZeros b.hash difficulty

def isValid (X : Externals) (b : Block) : Bool := b.hash == b.calculateHash X

/-- An unmined block; `now` is the clock reading. -/
def withWriteSet (X : Externals) (now index : Nat) (transactions : List Transaction)
    (previousHash : String) (writeSet : List PersistentWrite) : Block :=
  let block : Block := ⟨index, now, transactions, writeSet, previousHash, 0, "", none⟩
  { block with hash := block.calculateHash X }

/-- One round of the nonce search: the timestamp is refreshed just before the nonce wraps. -/
def nextNonce (X : Externals) (now : Nat) (b : Block) : Block :=
  let b := if b.nonce = 2 ^ 64 - 1 then { b with timestamp := now } else b
  let b := { b with nonce := (b.nonce + 1) % 2 ^ 64 }
  { b with hash := b.calculateHash X }

def searchNonce (X : Externals) (clock : Nat → Nat) (difficulty : Nat) :
    Nat → Block → Option Block
  | 0, b => if b.hasValidPow difficulty then some b else none
  | fuel + 1, b =>
    if b.hasValidPow difficulty then some b
    else searchNonce X clock difficulty fuel (b.nextNonce X (clock fuel))

/-- Proof of Work; `none` when `fuel` rounds do not reach the target. -/
def mine (X : Externals) (clock : Nat → Nat) (difficulty fuel : Nat) (b : Block) :
    Option Block :=
  searchNonce X clock difficulty fuel { b with hash := b.calculateHash X }

def chainsTo (X : Externals) (b previous : Block) : Except CoreError Unit := do
  require (b.previousHash == previous.hash) (.invalidBlock
    s!"block {b.index} previous_hash mismatch: expected {previous.hash}, got {b.previousHash}")
  require (b.index == previous.index + 1) (.invalidBlock
    s!"block index gap: expected {previous.index + 1}, got {b.index}")
  require (b.isValid X) (.invalidBlock s!"block {b.index} hash is invalid")

end Block

namespace QuorumCertificate

def pow (b : Block) : QuorumCertificate := ⟨b.index, b.hash, [], [], .ed25519⟩

def isDegenerate (c : QuorumCertificate) : Bool := c.signersBitmap.isEmpty

def debugAlgorithm : SignatureAlgorithm → String
  | .ed25519 => "Ed25519"
  | .bls12381 => "Bls12381"

/-- Structural validation; the aggregate itself is checked by the consensus provider. -/
def validate (c : QuorumCertificate) (b : Block) : Except CoreError Unit := do
  require (c.blockIndex == b.index) (.invalidBlock
    s!"quorum certificate: block index {c.blockIndex} does not match {b.index}")
  require (c.blockHash == b.hash) (.invalidBlock
    s!"quorum certificate: block hash mismatch for block {b.index}")
  if c.isDegenerate then return
  require (!c.aggregateSignature.isEmpty) (.invalidBlock
    "quorum certificate: non-degenerate certificate carries no aggregate signature")
  require (c.algorithm == .bls12381) (.invalidBlock
    ("quorum certificate: aggregate signature algorithm must be Bls12381, got " ++
      debugAlgorithm c.algorithm))

end QuorumCertificate

@[simp]
lemma require_eq_ok {ok : Bool} {error : CoreError} {u : Unit} :
    require ok error = .ok u ↔ ok = true := by
  cases ok <;> simp [require]

/-- The first check passed, and so did the rest. -/
theorem bind_eq_ok {ε α β : Type} {x : Except ε α} {f : α → Except ε β} {b : β} :
    x >>= f = .ok b ↔ ∃ a, x = .ok a ∧ f a = .ok b := by
  cases x with
  | error e => simp [bind, Except.bind]
  | ok a => simp [bind, Except.bind]

lemma mapError_eq_ok {ε ε' α : Type} {result : Except ε α} {f : ε → ε'} {a : α} :
    result.mapError f = .ok a ↔ result = .ok a := by
  cases result <;> simp [Except.mapError]

lemma isOk_iff {result : Except CoreError Unit} : result.isOk = true ↔ result = .ok () := by
  cases result <;> simp [Except.isOk, Except.toBool]

/-- Two checks in a row. -/
theorem seq_eq_ok {ε β : Type} {x : Except ε Unit} {y : Except ε β} {b : β} :
    (do x; y) = .ok b ↔ x = .ok () ∧ y = .ok b := by
  simp only [bind_eq_ok, Unique.exists_iff]

lemma forM_eq_ok {α : Type} {f : α → Except CoreError Unit} {l : List α} :
    forM l f = .ok () ↔ ∀ a ∈ l, f a = .ok () := by
  induction l with
  | nil => simp [pure, Except.pure]
  | cons a rest ih => rw [List.forM_cons, seq_eq_ok, ih, List.forall_mem_cons]

lemma Block.isValid_iff {X : Externals} {b : Block} :
    b.isValid X = true ↔ b.hash = b.calculateHash X := beq_iff_eq

lemma Block.chainsTo_iff {X : Externals} {b previous : Block} :
    b.chainsTo X previous = .ok () ↔
      b.previousHash = previous.hash ∧ b.index = previous.index + 1 ∧ b.isValid X = true := by
  simp [Block.chainsTo, bind_eq_ok]

lemma QuorumCertificate.validate_iff {c : QuorumCertificate} {b : Block} :
    c.validate b = .ok () ↔ c.blockIndex = b.index ∧ c.blockHash = b.hash ∧
      (c.isDegenerate = true ∨ c.aggregateSignature ≠ [] ∧ c.algorithm = .bls12381) := by
  unfold QuorumCertificate.validate
  cases hd : c.isDegenerate <;> simp [bind_eq_ok, pure, Except.pure]

namespace Block

variable {X : Externals} {clock : Nat → Nat} {difficulty fuel : Nat} {b b' : Block}

/-- What mining leaves alone, and what it establishes. -/
structure MinedFrom (X : Externals) (difficulty : Nat) (b b' : Block) : Prop where
  index : b'.index = b.index
  transactions : b'.transactions = b.transactions
  writeSet : b'.writeSet = b.writeSet
  previousHash : b'.previousHash = b.previousHash
  certificate : b'.certificate = b.certificate
  valid : b'.isValid X = true
  pow : b'.hasValidPow difficulty = true

private lemma nextNonce_keeps (now : Nat) :
    (b.nextNonce X now).index = b.index ∧ (b.nextNonce X now).transactions = b.transactions ∧
      (b.nextNonce X now).writeSet = b.writeSet ∧
      (b.nextNonce X now).previousHash = b.previousHash ∧
      (b.nextNonce X now).certificate = b.certificate ∧
      (b.nextNonce X now).isValid X = true := by
  unfold nextNonce
  split <;> simp [isValid_iff, calculateHash, content]

private lemma searchNonce_spec (valid : b.isValid X = true)
    (h : searchNonce X clock difficulty fuel b = some b') : MinedFrom X difficulty b b' := by
  induction fuel generalizing b with
  | zero =>
    by_cases hp : b.hasValidPow difficulty = true
    · obtain rfl : b = b' := by simpa [searchNonce, hp] using h
      exact ⟨rfl, rfl, rfl, rfl, rfl, valid, hp⟩
    · simp [searchNonce, hp] at h
  | succ fuel ih =>
    by_cases hp : b.hasValidPow difficulty = true
    · obtain rfl : b = b' := by simpa [searchNonce, hp] using h
      exact ⟨rfl, rfl, rfl, rfl, rfl, valid, hp⟩
    · obtain ⟨hi, ht, hw, hprev, hc, hv⟩ := nextNonce_keeps (X := X) (b := b) (clock fuel)
      have found := ih hv (by simpa [searchNonce, hp] using h)
      exact ⟨found.index.trans hi, found.transactions.trans ht, found.writeSet.trans hw,
        found.previousHash.trans hprev, found.certificate.trans hc, found.valid, found.pow⟩

lemma mine_spec (h : b.mine X clock difficulty fuel = some b') :
    MinedFrom X difficulty b b' := by
  have found := searchNonce_spec (by simp [isValid_iff, calculateHash, content]) h
  exact ⟨found.index, found.transactions, found.writeSet, found.previousHash, found.certificate,
    found.valid, found.pow⟩

end Block

end GlassChain
