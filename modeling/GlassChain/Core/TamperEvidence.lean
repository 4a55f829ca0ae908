import GlassChain.Core.LedgerRun
import Mathlib.Logic.Function.Iterate

/-!
# Two accepted chains with a hash in common

`validate_chain` recomputes every stored hash and follows every link. Where the hash of the content
is injective, one hash in common fixes everything below it, the certificates apart: they are outside
the hashed tuple. The genesis block may have any index, so positions are compared through the
indices counted from it.

`chains_to` expects `previous.index + 1`. A build with overflow checks stops where that sum leaves
the 64 bits of an index, a build without them wraps, and a chain may then start near the top of the
range. `validateChainWith` is `validate_chain` over either successor.
-/

namespace GlassChain

open List Block Ledger CapabilityHistory

namespace Block

def uncertified (b : Block) : Block := { b with certificate := none }

lemma uncertified_eq {b b' : Block} (content : b.content = b'.content) (hash : b.hash = b'.hash) :
    b.uncertified = b'.uncertified := by
  cases b
  cases b'
  simp_all [Block.content, uncertified]

/-- `chains_to`, where the index after `i` is `next i`. -/
def chainsToWith (X : Externals) (next : Nat → Nat) (b previous : Block) :
    Except CoreError Unit := do
  require (b.previousHash == previous.hash) (.invalidBlock
    s!"block {b.index} previous_hash mismatch: expected {previous.hash}, got {b.previousHash}")
  require (b.index == next previous.index) (.invalidBlock
    s!"block index gap: expected {next previous.index}, got {b.index}")
  require (b.isValid X) (.invalidBlock s!"block {b.index} hash is invalid")

lemma chainsToWith_succ (X : Externals) (b previous : Block) :
    b.chainsToWith X (· + 1) previous = b.chainsTo X previous := rfl

lemma chainsToWith_iff {X : Externals} {next : Nat → Nat} {b previous : Block} :
    b.chainsToWith X next previous = .ok () ↔
      b.previousHash = previous.hash ∧ b.index = next previous.index ∧ b.isValid X = true := by
  simp [chainsToWith, bind_eq_ok]

end Block

namespace Ledger

def checkLinksWith (X : Externals) (next : Nat → Nat) (difficulty : Nat) (previous : Block) :
    List Block → Except CoreError Unit
  | [] => .ok ()
  | b :: rest => do
    b.chainsToWith X next previous
    require (blockConsensusAdmissible b difficulty) (.invalidBlock
      (s!"block {b.index} does not satisfy PoW difficulty {difficulty} " ++
        "and carries no valid certificate"))
    checkLinksWith X next difficulty b rest

/-- `validate_chain`, where the index after `i` is `next i`. -/
def validateChainWith (X : Externals) (next : Nat → Nat) (L : Ledger) : Except CoreError Unit := do
  match L.chain with
  | [] => .ok ()
  | genesis :: rest => checkLinksWith X next L.difficulty genesis rest
  match CapabilityHistory.buildFromBlocks X L.chain with
  | .ok _ => .ok ()
  | .error e => .error (.invalidBlock s!"capability history is invalid: {e.display}")
  match L.chain with
  | [] => .ok ()
  | genesis :: _ => do
    require (genesis.isValid X) (.invalidBlock "genesis block hash is invalid")
    require (genesis.hasValidPow L.difficulty) (.invalidBlock
      "genesis block does not satisfy PoW difficulty")

variable {X : Externals} {next : Nat → Nat}

lemma checkLinksWith_succ (difficulty : Nat) (previous : Block) (rest : List Block) :
    checkLinksWith X (· + 1) difficulty previous rest = checkLinks X difficulty previous rest := by
  induction rest generalizing previous with
  | nil => rfl
  | cons b rest ih => simp only [checkLinksWith, checkLinks, chainsToWith_succ, ih]

lemma validateChainWith_succ (L : Ledger) : L.validateChainWith X (· + 1) = L.validateChain X := by
  unfold validateChainWith validateChain
  cases L.chain with
  | nil => rfl
  | cons genesis rest =>
    have links := checkLinksWith_succ (X := X) L.difficulty genesis rest
    exact (congrArg (fun links => links >>= _) links).trans rfl

end Ledger

/-- The part of acceptance that the hashes rest on: valid blocks, linked by hash and by index. -/
structure Sealed (X : Externals) (next : Nat → Nat) (c₁ : List Block) : Prop where
  valid : ∀ b ∈ c₁, b.isValid X = true
  linked : ∀ {i : Nat} {a b : Block}, c₁[i]? = some a → c₁[i + 1]? = some b →
    b.previousHash = a.hash ∧ b.index = next a.index

section Sealed

variable {X : Externals} {next : Nat → Nat} {c₁ c₂ : List Block}

lemma Sealed.cons {previous b : Block} {rest : List Block} (valid : previous.isValid X = true)
    (link : b.chainsToWith X next previous = .ok ()) (sealed : Sealed X next (b :: rest)) :
    Sealed X next (previous :: b :: rest) := by
  obtain ⟨hash, index, -⟩ := chainsToWith_iff.mp link
  refine ⟨fun x hx => ?_, fun {i a y} first second => ?_⟩
  · rcases mem_cons.mp hx with rfl | hx
    · exact valid
    · exact sealed.valid x hx
  · cases i with
    | zero =>
      obtain rfl : previous = a := by simpa using first
      obtain rfl : b = y := by simpa using second
      exact ⟨hash, index⟩
    | succ i => exact sealed.linked (by simpa using first) (by simpa using second)

lemma Sealed.of_checkLinksWith {difficulty : Nat} {previous : Block} {rest : List Block}
    (valid : previous.isValid X = true)
    (ok : Ledger.checkLinksWith X next difficulty previous rest = .ok ()) :
    Sealed X next (previous :: rest) := by
  induction rest generalizing previous with
  | nil => exact ⟨by simpa using valid, by simp⟩
  | cons b rest ih =>
    simp only [Ledger.checkLinksWith, bind_eq_ok, require_eq_ok, Unique.exists_iff] at ok
    obtain ⟨link, -, rest⟩ := ok
    exact .cons valid link (ih (chainsToWith_iff.mp link).2.2 rest)

lemma Ledger.sealed_of_validateChainWith {L : Ledger} (ok : L.validateChainWith X next = .ok ()) :
    Sealed X next L.chain := by
  rcases whole : L.chain with _ | ⟨genesis, rest⟩
  · exact ⟨by simp, by simp⟩
  · simp only [validateChainWith, whole, bind_eq_ok, Unique.exists_iff] at ok
    obtain ⟨links, rest⟩ := ok
    split at rest
    · simp only [bind_eq_ok, require_eq_ok, Unique.exists_iff, true_and] at rest
      exact .of_checkLinksWith rest.1 links
    · simp [bind_eq_ok] at rest

/-- Indices are counted from the genesis block. -/
theorem Sealed.index_eq (sealed : Sealed X next c₁) {i : Nat} {g b : Block}
    (first : c₁[0]? = some g) (at_i : c₁[i]? = some b) : b.index = next^[i] g.index := by
  induction i generalizing b with
  | zero =>
    obtain rfl : g = b := Option.some.inj (first.symm.trans at_i)
    rfl
  | succ i ih =>
    have inside : i + 1 < c₁.length := (List.getElem?_eq_some_iff.mp at_i).1
    have before : c₁[i]? = some c₁[i] := getElem?_eq_getElem (by omega)
    rw [(sealed.linked before at_i).2, ih before, Function.iterate_succ_apply']

/-- One hash, one content. -/
theorem Sealed.content_eq (injective : Function.Injective X.contentHash) (sealed : Sealed X next c₁)
    (sealed' : Sealed X next c₂) {b b' : Block} (mem : b ∈ c₁) (mem' : b' ∈ c₂)
    (same : b.hash = b'.hash) : b.content = b'.content := by
  have stored := isValid_iff.mp (sealed.valid b mem)
  have stored' := isValid_iff.mp (sealed'.valid b' mem')
  exact injective (stored.symm.trans (same.trans stored'))

/-- Two chains with one hash at one position agree on everything up to it, certificates apart. -/
theorem Sealed.prefix_eq (injective : Function.Injective X.contentHash) (sealed : Sealed X next c₁)
    (sealed' : Sealed X next c₂) {i : Nat} {b b' : Block} (at_i : c₁[i]? = some b)
    (at_i' : c₂[i]? = some b') (same : b.hash = b'.hash) :
    (c₁.take (i + 1)).map uncertified = (c₂.take (i + 1)).map uncertified := by
  -- Backwards along the links: a content holds the hash of the block before it.
  induction i generalizing b b' with
  | zero =>
    have content := sealed.content_eq injective sealed' (mem_of_getElem? at_i)
      (mem_of_getElem? at_i') same
    simp [take_add_one, at_i, at_i', uncertified_eq content same]
  | succ i ih =>
    have content := sealed.content_eq injective sealed' (mem_of_getElem? at_i)
      (mem_of_getElem? at_i') same
    have inside : i + 1 < c₁.length := (List.getElem?_eq_some_iff.mp at_i).1
    have inside' : i + 1 < c₂.length := (List.getElem?_eq_some_iff.mp at_i').1
    have before : c₁[i]? = some c₁[i] := getElem?_eq_getElem (by omega)
    have before' : c₂[i]? = some c₂[i] := getElem?_eq_getElem (by omega)
    have link := (sealed.linked before at_i).1
    have link' := (sealed'.linked before' at_i').1
    have hashes : c₁[i].hash = c₂[i].hash :=
      link.symm.trans ((congrArg BlockContent.previousHash content).trans link')
    have below := ih before before' hashes
    rw [take_add_one (i := i + 1), take_add_one (i := i + 1), at_i, at_i',
      map_append, map_append, below]
    simp [uncertified_eq content same]

end Sealed

/-- A hash in common stands at one position and fixes both chains up to there; a tip in common, at
one length, fixes all transactions and write sets. -/
structure TamperEvident (c₁ c₂ : List Block) : Prop where
  prefixes : ∀ {i j : Nat} {b b' : Block}, c₁[i]? = some b → c₂[j]? = some b' → b.hash = b'.hash →
    i = j ∧ (c₁.take (i + 1)).map Block.uncertified = (c₂.take (i + 1)).map Block.uncertified
  whole : c₁.length = c₂.length → c₁.getLast?.map Block.hash = c₂.getLast?.map Block.hash →
    c₁.map Block.transactions = c₂.map Block.transactions ∧
      c₁.map Block.writeSet = c₂.map Block.writeSet

section Evidence

variable {X : Externals} {next : Nat → Nat} {c₁ c₂ : List Block}

/-- Chains that agree up to their tips agree on what no certificate is part of. -/
private theorem map_eq_of_uncertified {α : Type*} {f : Block → α}
    (blind : ∀ b, f b.uncertified = f b)
    (same : c₁.map uncertified = c₂.map uncertified) : c₁.map f = c₂.map f := by
  have mapped := congrArg (List.map f) same
  simpa [Function.comp_def, blind] using mapped

/-- Sealed chains from one genesis index, which count no index twice. -/
theorem Sealed.tamperEvident (injective : Function.Injective X.contentHash)
    (sealed : Sealed X next c₁) (sealed' : Sealed X next c₂)
    (genesis : ∀ g ∈ c₁.head?, ∀ g' ∈ c₂.head?, g.index = g'.index)
    (distinct : ∀ g, ∀ i < c₁.length, ∀ j < c₂.length, next^[i] g = next^[j] g → i = j) :
    TamperEvident c₁ c₂ := by
  have prefixes : ∀ {i j : Nat} {b b' : Block}, c₁[i]? = some b → c₂[j]? = some b' →
      b.hash = b'.hash →
      i = j ∧ (c₁.take (i + 1)).map uncertified = (c₂.take (i + 1)).map uncertified := by
    intro i j b b' at_i at_j same
    have content := sealed.content_eq injective sealed' (mem_of_getElem? at_i)
      (mem_of_getElem? at_j) same
    have inside : i < c₁.length := (List.getElem?_eq_some_iff.mp at_i).1
    have inside' : j < c₂.length := (List.getElem?_eq_some_iff.mp at_j).1
    have first : c₁[0]? = some c₁[0] := getElem?_eq_getElem (by omega)
    have first' : c₂[0]? = some c₂[0] := getElem?_eq_getElem (by omega)
    have start : c₁[0].index = c₂[0].index := genesis _ (by rw [head?_eq_getElem?, first]; rfl) _
        (by rw [head?_eq_getElem?, first']; rfl)
    have counted : next^[i] c₁[0].index = next^[j] c₁[0].index := by
      rw [← sealed.index_eq first at_i, start, ← sealed'.index_eq first' at_j]
      exact congrArg BlockContent.index content
    obtain rfl := distinct _ i inside j inside' counted
    exact ⟨rfl, sealed.prefix_eq injective sealed' at_i at_j same⟩
  refine ⟨prefixes, fun length tips => ?_⟩
  have agree : c₁.map uncertified = c₂.map uncertified := by
    rcases eq_nil_or_concat c₁ with rfl | ⟨c₁, b, rfl⟩
    · obtain rfl : c₂ = [] := length_eq_zero_iff.mp length.symm
      rfl
    · rcases eq_nil_or_concat c₂ with rfl | ⟨c₂, b', rfl⟩
      · simp at length
      · have same : b.hash = b'.hash := by simpa using tips
        have size : c₁.length = c₂.length := by simpa using length
        have result := (prefixes (i := c₁.length) (j := c₂.length) (by simp) (by simp) same).2
        simpa [take_of_length_le, size] using result
  exact ⟨map_eq_of_uncertified (fun _ => rfl) agree, map_eq_of_uncertified (fun _ => rfl) agree⟩

lemma iterate_wrapping_mod (n i g : Nat) : (fun k => (k + 1) % n)^[i] g % n = (g + i) % n := by
  induction i with
  | zero => rfl
  | succ i ih => rw [Function.iterate_succ_apply', Nat.mod_mod, ← Nat.mod_add_mod, ih,
      Nat.mod_add_mod, Nat.add_assoc]

/-- Fewer than `n` wrapping steps reach no index twice. -/
theorem iterate_wrapping_injective {n i j g : Nat} (hi : i < n) (hj : j < n)
    (same : (fun k => (k + 1) % n)^[i] g = (fun k => (k + 1) % n)^[j] g) : i = j := by
  have modulo : (g + i) % n = (g + j) % n := by
    rw [← iterate_wrapping_mod, ← iterate_wrapping_mod, same]
  have cancelled : i % n = j % n := Nat.ModEq.add_left_cancel' g modulo
  rwa [Nat.mod_eq_of_lt hi, Nat.mod_eq_of_lt hj] at cancelled

/-- Acceptance seals a chain under injective hashing of block contents, whichever way the index
arithmetic overflows; a vector holds fewer than `2 ^ 64` blocks. -/
theorem validated_chains_tamper_evident (injective : Function.Injective X.contentHash)
    (L M : Ledger) (genesis : ∀ g ∈ L.chain.head?, ∀ g' ∈ M.chain.head?, g.index = g'.index) :
    (L.validateChain X = .ok () → M.validateChain X = .ok () → TamperEvident L.chain M.chain) ∧
      (L.chain.length ≤ 2 ^ 64 → M.chain.length ≤ 2 ^ 64 →
        L.validateChainWith X (fun i => (i + 1) % 2 ^ 64) = .ok () →
        M.validateChainWith X (fun i => (i + 1) % 2 ^ 64) = .ok () →
          TamperEvident L.chain M.chain) := by
  refine ⟨fun ok ok' => ?_, fun short short' ok ok' => ?_⟩
  · rw [← validateChainWith_succ] at ok ok'
    refine Sealed.tamperEvident injective (sealed_of_validateChainWith ok)
      (sealed_of_validateChainWith ok') genesis fun g i _ j _ same => ?_
    have sums : g + i = g + j := by
      rw [← Nat.succ_iterate, ← Nat.succ_iterate]
      exact same
    omega
  · refine Sealed.tamperEvident injective (sealed_of_validateChainWith ok)
      (sealed_of_validateChainWith ok') genesis fun g i hi j hj same => ?_
    exact iterate_wrapping_injective (by omega) (by omega) same

end Evidence

/-- A ledger of difficulty zero: a genesis block of index `start` and one stock movement. -/
def twoBlocks (X : Externals) (next : Nat → Nat) (start : Nat)
    (certificate : Option QuorumCertificate) : Ledger :=
  let genesis := Block.withWriteSet X 0 start [] "0" []
  let second := Block.withWriteSet X 0 (next start) [stockTx "a"] genesis.hash []
  ⟨[genesis, { second with certificate }], [], 0, 0, none, 0, none⟩

lemma twoBlocks_validated (X : Externals) (next : Nat → Nat) (start : Nat)
    (certificate : Option QuorumCertificate) :
    (twoBlocks X next start certificate).validateChainWith X next = .ok () := by
  simp [twoBlocks, Ledger.validateChainWith, Ledger.checkLinksWith, chainsToWith,
    Ledger.blockConsensusAdmissible, buildFromBlocks, Library.runInPlace,
    validateBlock, validateTransaction, stockTx,
    withWriteSet, isValid_iff, calculateHash, content, hasValidPow,
    hasLeadingZeros, require, bind, Except.bind]

/-- Certificates are free; under wrapping arithmetic a chain may start at the last index. -/
theorem validated_chains_tamper_evident_recertified :
    let X := Externals.plain 0
    let wrap := fun i => (i + 1) % 2 ^ 64
    let certificate := QuorumCertificate.pow (sealedGenesis X)
    TamperEvident (twoBlocks X (· + 1) 0 none).chain
        (twoBlocks X (· + 1) 0 (some certificate)).chain ∧
      TamperEvident (twoBlocks X wrap (2 ^ 64 - 1) none).chain
        (twoBlocks X wrap (2 ^ 64 - 1) (some certificate)).chain := by
  intro X wrap certificate
  have ok := fun c => twoBlocks_validated X (· + 1) 0 c
  simp only [validateChainWith_succ] at ok
  have injective := Externals.plain_contentHash_injective 0
  refine ⟨(validated_chains_tamper_evident injective _ _ ?_).1 (ok _) (ok _),
    (validated_chains_tamper_evident injective _ _ ?_).2 ?_ ?_ (twoBlocks_validated X wrap _ _)
      (twoBlocks_validated X wrap _ _)⟩
  all_goals simp [twoBlocks]

end GlassChain
