import GlassChain.Core.Transaction

/-!
# Errors and the functions of other packages

`CoreError` keeps the variants and texts of the source. `Externals` collects the third-party
functions the core calls: SHA-256 with hex output, the `serde_json` printers and parser, base64
decoding, and the standard library's hasher. Nothing is assumed of them here; a result that needs
one of their properties names it as a hypothesis.
-/

namespace GlassChain

inductive GasMeter where
  | fuel
  | operation
  deriving DecidableEq, Repr

inductive CoreError where
  | invalidBlock (message : String)
  | invalidTransaction (message : String)
  | emptyLedger
  | serialization (message : String)
  | gasExhausted (meter : GasMeter) (used limit : Nat)
  | execution (message : String)
  | storage (message : String)
  deriving DecidableEq, Repr

/-- `thiserror`'s text of an error. -/
def CoreError.display : CoreError → String
  | invalidBlock message => "invalid block: " ++ message
  | invalidTransaction message => "invalid transaction: " ++ message
  | emptyLedger => "ledger is empty"
  | serialization message => "serialization error: " ++ message
  | gasExhausted .fuel used limit => s!"Fuel gas exhausted after {used} units (limit: {limit})"
  | gasExhausted .operation used limit =>
    s!"Operation gas exhausted after {used} units (limit: {limit})"
  | execution message => "execution error: " ++ message
  | storage message => "storage error: " ++ message

/-- The tuple `Block::calculate_hash` serializes. -/
structure BlockContent where
  index : Nat
  timestamp : Nat
  transactions : List Transaction
  writeSet : List PersistentWrite
  previousHash : String
  nonce : Nat
  deriving Countable

/-- The tuple `CanonicalRecord::canonical_form` serializes. -/
structure RecordContent where
  recordId : String
  schemaId : String
  schemaVersion : Nat
  occurredAt : Nat
  issuer : String
  pdcRef : Option String
  payload : List (String × Value)
  extensions : List (String × ExtensionValue)

def hexEncode (bytes : Bytes) : String :=
  String.ofList (bytes.flatMap fun b => [Nat.digitChar (b.toNat / 16), Nat.digitChar (b.toNat % 16)])

def hexDigit (c : Char) : Option Nat :=
  if c.isDigit then some (c.toNat - '0'.toNat)
  else if 'a' ≤ c && c ≤ 'f' then some (c.toNat - 'a'.toNat + 10)
  else if 'A' ≤ c && c ≤ 'F' then some (c.toNat - 'A'.toNat + 10)
  else none

/-- `hex::decode`, in either case. -/
def hexDecode (text : String) : Option Bytes := decode text.toList
where
  decode : List Char → Option Bytes
    | [] => some []
    | [_] => none
    | high :: low :: rest => do
      let high ← hexDigit high
      let low ← hexDigit low
      let rest ← decode rest
      return UInt8.ofNat (16 * high + low) :: rest

lemma hexDigit_digitChar {n : Nat} (small : n < 16) : hexDigit (Nat.digitChar n) = some n := by
  decide +revert

/-- Bytes are read back as they were written. -/
@[simp] theorem hexDecode_hexEncode (bytes : Bytes) : hexDecode (hexEncode bytes) = some bytes := by
  simp only [hexDecode, hexEncode, String.toList_ofList]
  induction bytes with
  | nil => rfl
  | cons b bytes ih =>
    have high : hexDigit (Nat.digitChar (b.toNat / 16)) = some (b.toNat / 16) :=
      hexDigit_digitChar (by have := b.toNat_lt; omega)
    have low : hexDigit (Nat.digitChar (b.toNat % 16)) = some (b.toNat % 16) :=
      hexDigit_digitChar (by omega)
    have whole : UInt8.ofNat (16 * (b.toNat / 16) + b.toNat % 16) = b := by
      rw [Nat.div_add_mod, UInt8.ofNat_toNat]
    simp only [List.flatMap_cons, List.cons_append, List.nil_append, hexDecode.decode, high, low,
      ih, Option.bind_eq_bind, Option.bind_some, whole, pure]

lemma hexEncode_injective : Function.Injective hexEncode := by
  intro a b same
  have decoded := congrArg hexDecode same
  simpa using decoded

/-- Functions of other packages. -/
structure Externals where
  /-- Hex-encoded SHA-256 (`sha2`, `hex`). -/
  sha256 : Bytes → String
  /-- `serde_json::to_string` of the hashed block tuple. -/
  contentJson : BlockContent → String
  /-- `serde_json::to_string` of the canonical record tuple. -/
  recordJson : RecordContent → String
  /-- `serde_json::to_vec` of a transaction. -/
  transactionJson : Transaction → Bytes
  /-- `serde_json::from_slice`. -/
  parseJson : Bytes → Except String Value
  /-- `base64::STANDARD.decode`. -/
  base64Decode : String → Option Bytes
  /-- `DefaultHasher` over the registry entries. -/
  registryHash : List (String × Bytes × Bytes) → UInt64

namespace Externals

def contentHash (X : Externals) (c : BlockContent) : String := X.sha256 (utf8 (X.contentJson c))

/-- A text that determines the bytes it was made from and satisfies every Proof-of-Work target up
to `zeros`. -/
def plainDigest (zeros : Nat) (data : Bytes) : String :=
  String.ofList (List.replicate zeros '0' ++ data.map fun b => Char.ofNat b.toNat)

lemma plainDigest_injective (zeros : Nat) : Function.Injective (plainDigest zeros) := by
  intro a b h
  have chars := List.append_cancel_left (String.ofList_injective h)
  refine List.map_injective_iff.mpr ?_ chars
  intro x y hxy
  have small (z : UInt8) : z.toNat.isValidChar := .inl (by have := z.toNat_lt; omega)
  have values := congrArg Char.toNat hxy
  simp only [Char.toNat_ofNat, if_pos (small _)] at values
  exact UInt8.toNat_inj.mp values

def unary (n : Nat) : String := String.ofList (List.replicate n 'x')

lemma unary_injective : Function.Injective unary := by
  intro a b h
  simpa using congrArg List.length (String.ofList_injective h)

/-- An injective text for block contents, which are countably many. -/
noncomputable def contentText (c : BlockContent) : String :=
  unary ((Countable.exists_injective_nat BlockContent).choose c)

lemma contentText_injective : Function.Injective contentText :=
  unary_injective.comp (Countable.exists_injective_nat BlockContent).choose_spec

/-- Stand-ins for the other packages' functions with collision-free block hashes that satisfy every
Proof-of-Work target up to `zeros`. -/
noncomputable def plain (zeros : Nat) : Externals where
  sha256 := plainDigest zeros
  contentJson := contentText
  recordJson _ := ""
  transactionJson _ := []
  parseJson _ := .error "not JSON"
  base64Decode _ := none
  registryHash _ := 0

lemma plain_contentHash_injective (zeros : Nat) :
    Function.Injective (plain zeros).contentHash :=
  (plainDigest_injective zeros).comp (utf8_injective.comp contentText_injective)

end Externals

end GlassChain
