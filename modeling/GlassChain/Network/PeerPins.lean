import GlassChain.Core.Authorization
import GlassChain.Core.Bft
import GlassChain.Core.Pin
import GlassChain.Library.KeyedMap
import GlassChain.Network.Registry
import GlassChain.Network.Storage

/-!
# Identity pins

The registry of peer identities by listen address: trust on first use, a signed rotation of the
transport fingerprint, and pins that are written to storage and read back at a start. What is pinned
and what is stored agree in every run, so that a restart neither forgets a pin nor makes one, and an
unreadable pin stays refused.
-/

namespace GlassChain

open Library Option AList

structure VerifiedPeer where
  nodeId : String
  certFingerprint : String
  org : String
  orgVerified : Bool
  publicKey : Option Bytes
  advertised : List CapabilityAdvertisement
  deriving DecidableEq, Repr

/-- The persisted form, without the advertised capabilities. -/
structure StoredPeerPin where
  nodeId : String
  certFingerprint : String
  org : String
  orgVerified : Bool
  publicKey : Option Bytes
  deriving DecidableEq, Repr, Countable

def StoredPeerPin.ofPeer (peer : VerifiedPeer) : StoredPeerPin where
  nodeId := peer.nodeId
  certFingerprint := peer.certFingerprint
  org := peer.org
  orgVerified := peer.orgVerified
  publicKey := peer.publicKey

def StoredPeerPin.toPeer (pin : StoredPeerPin) : VerifiedPeer :=
  ⟨pin.nodeId, pin.certFingerprint, pin.org, pin.orgVerified, pin.publicKey, []⟩

/-- `serde_json` on stored pins. -/
structure PinCodec where
  encode : StoredPeerPin → Bytes
  decode : Bytes → Except String StoredPeerPin
  decode_encode : ∀ pin, decode (encode pin) = .ok pin

inductive TofuOutcome where
  | new
  | known
  | rotated
  deriving DecidableEq, Repr

/-- A detached signature under a raw public key; malformed input does not verify. -/
def verifyEd25519 (E : Ed25519) (publicKey message proof : Bytes) : Bool :=
  publicKey.length == 32 && E.validKey publicKey && proof.length == 64 &&
    E.verify publicKey message proof

def tofuPinMessage (nodeId tlsCertFingerprint : String) : Bytes :=
  utf8 "glasschain-tofu-pin:" ++ lengthPrefixed (utf8 nodeId) ++
    lengthPrefixed (utf8 tlsCertFingerprint)

structure PinRegistry where
  peers : AList fun _ : String => VerifiedPeer
  /-- Addresses whose persisted pin could not be read, with the reason. -/
  poisoned : AList fun _ : String => String

/-- The arguments of `verify_or_register`: the identity claim of one `Hello`. -/
structure PinCall where
  listenAddr : String
  nodeId : String
  certFingerprint : String
  org : String
  orgVerified : Bool
  publicKey : Option Bytes
  fingerprintProof : Option Bytes
  deriving DecidableEq, Repr

def PinCall.firstContact (c : PinCall) : VerifiedPeer :=
  ⟨c.nodeId, c.certFingerprint, c.org, c.orgVerified, c.publicKey, []⟩

def tofuRejectionMessage (reason : RejectReason) (poisonReason : Option String)
    (listenAddr nodeId org : String) (pinned : Option PinState) : String :=
  let unreadable := poisonReason.getD "unreadable"
  let pinnedNode := (pinned.map PinState.nodeId).getD ""
  let pinnedOrg := (pinned.map PinState.org).getD ""
  match reason with
  | .poisoned => s!"persisted TOFU pin for '{listenAddr}' is unreadable ({unreadable}); " ++
      "remove the stored pin to re-trust this address"
  | .nodeIdChanged => s!"node_id changed: expected '{pinnedNode}', got '{nodeId}'"
  | .orgChanged => s!"org changed for node '{nodeId}': expected '{pinnedOrg}', got '{org}'"
  | .noPinnedKey => s!"TLS certificate fingerprint changed for node '{nodeId}' and no pinned " ++
      "identity key is available for a signed rotation; operator action required"
  | .missingProof => s!"TLS certificate fingerprint changed for node '{nodeId}' without a signed " ++
      "rotation proof"
  | .invalidProof => s!"TLS certificate fingerprint changed for node '{nodeId}' with an invalid " ++
      "rotation proof (not signed by the pinned key)"

namespace PinRegistry

def new : PinRegistry := ⟨∅, ∅⟩

variable (R : PinRegistry)

def poison (listenAddr reason : String) : PinRegistry :=
  { R with poisoned := R.poisoned.insert listenAddr reason }

def loadPin (listenAddr : String) (pin : StoredPeerPin) : PinRegistry :=
  { R with peers := R.peers.insert listenAddr pin.toPeer }

/-- `get_mut`: nothing happens at an address without a pin. -/
def modify (listenAddr : String) (change : VerifiedPeer → VerifiedPeer) : PinRegistry :=
  match R.peers.lookup listenAddr with
  | some peer => { R with peers := R.peers.insert listenAddr (change peer) }
  | none => R

def setAdvertised (listenAddr : String) (advertised : List CapabilityAdvertisement) : PinRegistry :=
  R.modify listenAddr fun peer => { peer with advertised := advertised }

def orgVerified (address org : String) : Option Bool :=
  ((R.peers.lookup address).filter fun peer => peer.org == org).map VerifiedPeer.orgVerified

def pinState (peer : VerifiedPeer) : PinState :=
  ⟨peer.nodeId, peer.certFingerprint, peer.org, peer.publicKey⟩

/-- The proof counts only when the fingerprint changed and a key is pinned. -/
def rotationProof (E : Ed25519) (pinned : Option PinState) (c : PinCall) : RotationProof :=
  match pinned with
  | none => .missing
  | some pin =>
    if pin.certFingerprint ≠ c.certFingerprint then
      match pin.publicKey, c.fingerprintProof with
      | some pinnedKey, some proof =>
        if verifyEd25519 E pinnedKey (tofuPinMessage c.nodeId c.certFingerprint) proof then .valid
        else .invalid
      | _, _ => .missing
    else .missing

/-- A returning peer: the session evidence is refreshed and a first key adopted. -/
def refresh (c : PinCall) (peer : VerifiedPeer) : VerifiedPeer :=
  { peer with
    orgVerified := c.orgVerified
    publicKey := if peer.publicKey.isNone && c.publicKey.isSome then c.publicKey
      else peer.publicKey }

/-- A signed rotation: the new fingerprint, and a new key when one is presented. -/
def rotate (c : PinCall) (peer : VerifiedPeer) : VerifiedPeer :=
  { peer with
    certFingerprint := c.certFingerprint
    orgVerified := c.orgVerified
    publicKey := if c.publicKey.isSome then c.publicKey else peer.publicKey }

def verifyOrRegister (E : Ed25519) (R : PinRegistry) (c : PinCall) :
    PinRegistry × Except String TofuOutcome :=
  let pinned := (R.peers.lookup c.listenAddr).map pinState
  let claim : IdentityClaim := ⟨c.nodeId, c.certFingerprint, c.org, c.publicKey⟩
  let poisonReason := R.poisoned.lookup c.listenAddr
  match Pin.decide pinned poisonReason.isSome claim (rotationProof E pinned c) with
  | .rejected reason =>
    (R, .error (tofuRejectionMessage reason poisonReason c.listenAddr c.nodeId c.org pinned))
  | .new =>
    ({ R with peers := R.peers.insert c.listenAddr c.firstContact }, .ok .new)
  | .known => (R.modify c.listenAddr (refresh c), .ok .known)
  | .rotated => (R.modify c.listenAddr (rotate c), .ok .rotated)

variable {E : Ed25519} {R R' : PinRegistry} {c : PinCall} {peer : VerifiedPeer}

lemma modify_of_lookup {change : VerifiedPeer → VerifiedPeer} {address : String}
    (found : R.peers.lookup address = some peer) :
    R.modify address change = { R with peers := R.peers.insert address (change peer) } := by
  simp [modify, found]

lemma rotationProof_eq_valid {pinned : Option PinState} :
    rotationProof E pinned c = .valid ↔ ∃ pin key proof, pinned = some pin ∧
      pin.certFingerprint ≠ c.certFingerprint ∧ pin.publicKey = some key ∧
      c.fingerprintProof = some proof ∧
      verifyEd25519 E key (tofuPinMessage c.nodeId c.certFingerprint) proof = true := by
  unfold rotationProof
  cases pinned with
  | none => simp
  | some pin =>
    cases key : pin.publicKey <;> cases proof : c.fingerprintProof <;> grind

inductive Accepted (E : Ed25519) (R : PinRegistry) (c : PinCall) : VerifiedPeer → Prop
  | new (absent : R.peers.lookup c.listenAddr = none) :
    Accepted E R c c.firstContact
  | known (peer : VerifiedPeer) (found : R.peers.lookup c.listenAddr = some peer)
    (nodeId : peer.nodeId = c.nodeId) (org : peer.org = c.org)
    (certFingerprint : peer.certFingerprint = c.certFingerprint) : Accepted E R c (refresh c peer)
  | rotated (peer : VerifiedPeer) (found : R.peers.lookup c.listenAddr = some peer)
    (nodeId : peer.nodeId = c.nodeId) (org : peer.org = c.org)
    (certFingerprint : peer.certFingerprint ≠ c.certFingerprint) (key proof : Bytes)
    (pinnedKey : peer.publicKey = some key) (presented : c.fingerprintProof = some proof)
    (signed : verifyEd25519 E key (tofuPinMessage c.nodeId c.certFingerprint) proof = true) :
    Accepted E R c (rotate c peer)

/-- A claim is rejected and nothing changes, or it is accepted at an address that is not poisoned
and only the pin there changes. -/
theorem verifyOrRegister_cases (E : Ed25519) (R : PinRegistry) (c : PinCall) :
    (∃ e, R.verifyOrRegister E c = (R, .error e)) ∨
      ∃ peer outcome, R.poisoned.lookup c.listenAddr = none ∧ Accepted E R c peer ∧
        R.verifyOrRegister E c =
          ({ R with peers := R.peers.insert c.listenAddr peer }, .ok outcome) := by
  unfold verifyOrRegister
  extract_lets pinned claim poisonReason
  have clean : poisonReason.isSome = false → R.poisoned.lookup c.listenAddr = none := by
    simp [poisonReason]
  cases decision : Pin.decide pinned poisonReason.isSome claim (rotationProof E pinned c) with
  | rejected reason => exact .inl ⟨_, rfl⟩
  | new =>
    obtain ⟨open_, absent⟩ := Pin.decide_eq_new.mp decision
    exact .inr ⟨_, _, clean open_, .new (map_eq_none_iff.mp absent), rfl⟩
  | known =>
    obtain ⟨open_, pin, shown, ⟨nodeId, org⟩, same⟩ := Pin.decide_eq_known.mp decision
    obtain ⟨peer, found, rfl⟩ := map_eq_some_iff.mp shown
    refine .inr ⟨_, .known, clean open_, .known peer found nodeId org same, ?_⟩
    simp only [modify_of_lookup found]
  | rotated =>
    obtain ⟨open_, pin, shown, ⟨nodeId, org⟩, changed, -, valid⟩ := Pin.decide_eq_rotated.mp decision
    obtain ⟨peer, found, rfl⟩ := map_eq_some_iff.mp shown
    obtain ⟨pin, key, proof, again, -, pinnedKey, presented, signed⟩ :=
      rotationProof_eq_valid.mp valid
    obtain rfl : pinState peer = pin := Option.some.inj (shown.symm.trans again)
    refine .inr ⟨_, .rotated, clean open_,
      .rotated peer found nodeId org changed key proof pinnedKey presented signed, ?_⟩
    simp only [modify_of_lookup found]

lemma Accepted.nodeId (accepted : Accepted E R c peer) : peer.nodeId = c.nodeId := by
  cases accepted with
  | new => rfl
  | known _ _ nodeId => exact nodeId
  | rotated _ _ nodeId => exact nodeId

lemma Accepted.org (accepted : Accepted E R c peer) : peer.org = c.org := by
  cases accepted with
  | new => rfl
  | known _ _ _ org => exact org
  | rotated _ _ _ org => exact org

end PinRegistry

def tofuPinPrefix : String := "tofu:peer:"

def persistTofuPin (K : PinCodec) (storage : WorldState) (listenAddr : String)
    (peer : VerifiedPeer) : WorldState :=
  storage.insert (tofuPinPrefix ++ listenAddr) (K.encode (.ofPeer peer))

def readPin (K : PinCodec) (storage : WorldState) (key : String) :
    Option (String × Except String StoredPeerPin) := do
  let address ← stripPrefix tofuPinPrefix key
  let raw ← storage.lookup key
  return (address, K.decode raw)

def readablePin (entry : String × Except String StoredPeerPin) : Option (String × StoredPeerPin) :=
  match entry.2 with
  | .ok pin => some (entry.1, pin)
  | .error _ => none

def unreadablePin (entry : String × Except String StoredPeerPin) : Option (String × String) :=
  match entry.2 with
  | .ok _ => none
  | .error e => some (entry.1, e)

def pinEntries (K : PinCodec) (storage : WorldState) : List (String × Except String StoredPeerPin) :=
  (listStateKeys storage tofuPinPrefix).filterMap (readPin K storage)

def loadTofuPins (K : PinCodec) (storage : WorldState) : PinRegistry :=
  let pins := (pinEntries K storage).filterMap readablePin
  let poisoned := (pinEntries K storage).filterMap unreadablePin
  let loaded := pins.foldl (fun R p => R.loadPin p.1 p.2) .new
  poisoned.foldl (fun R p => R.poison p.1 p.2) loaded

def storedPin (K : PinCodec) (storage : WorldState) (address : String) :
    Option (Except String StoredPeerPin) :=
  (storage.lookup (tofuPinPrefix ++ address)).map K.decode

section Load

variable {K : PinCodec} {storage : WorldState} {address : String}

lemma mem_pinEntries {entry : String × Except String StoredPeerPin} :
    entry ∈ pinEntries K storage ↔ storedPin K storage entry.1 = some entry.2 := by
  obtain ⟨address, result⟩ := entry
  simp only [pinEntries, List.mem_filterMap, mem_listStateKeys, readPin, storedPin, bind_eq_bind,
    bind_eq_some_iff, stripPrefix_eq_some, map_eq_some_iff, pure_def,
    Option.some.injEq, Prod.mk.injEq]
  constructor
  · rintro ⟨key, -, other, rfl, raw, found, rfl, rfl⟩
    exact ⟨raw, found, rfl⟩
  · rintro ⟨raw, found, rfl⟩
    refine ⟨_, ⟨?_, address, rfl⟩, address, rfl, raw, found, rfl, rfl⟩
    exact lookup_isSome.mp (by simp [found])

lemma foldl_loadPin (pins : List (String × StoredPeerPin)) (R : PinRegistry) :
    pins.foldl (fun R p => R.loadPin p.1 p.2) R =
      { R with peers := fill R.peers (pins.map fun p => (p.1, p.2.toPeer)) } := by
  induction pins generalizing R with
  | nil => rfl
  | cons p rest ih => exact ih (R.loadPin p.1 p.2)

lemma foldl_poison (poisoned : List (String × String)) (R : PinRegistry) :
    poisoned.foldl (fun R p => R.poison p.1 p.2) R =
      { R with poisoned := fill R.poisoned poisoned } := by
  induction poisoned generalizing R with
  | nil => rfl
  | cons p rest ih => exact ih (R.poison p.1 p.2)

lemma loadTofuPins_eq : loadTofuPins K storage =
    { peers := fill ∅ (((pinEntries K storage).filterMap readablePin).map
        fun p => (p.1, p.2.toPeer))
      poisoned := fill ∅ ((pinEntries K storage).filterMap unreadablePin) } := by
  simp only [loadTofuPins, foldl_loadPin, foldl_poison, PinRegistry.new]

def loadedPin (stored : Option (Except String StoredPeerPin)) : Option StoredPeerPin :=
  match stored with
  | some (.ok pin) => some pin
  | _ => none

def loadError (stored : Option (Except String StoredPeerPin)) : Option String :=
  match stored with
  | some (.error e) => some e
  | _ => none

lemma loadedPin_eq_some {stored : Option (Except String StoredPeerPin)} {pin : StoredPeerPin} :
    loadedPin stored = some pin ↔ stored = some (.ok pin) := by
  unfold loadedPin
  grind

lemma loadError_eq_some {stored : Option (Except String StoredPeerPin)} {e : String} :
    loadError stored = some e ↔ stored = some (.error e) := by
  unfold loadError
  grind

lemma lookup_loaded_peers : (loadTofuPins K storage).peers.lookup address =
    (loadedPin (storedPin K storage address)).map StoredPeerPin.toPeer := by
  rw [loadTofuPins_eq]
  apply lookup_fill fun address => (loadedPin (storedPin K storage address)).map StoredPeerPin.toPeer
  intro address peer
  simp only [List.mem_map, List.mem_filterMap, map_eq_some_iff, loadedPin_eq_some,
    Prod.mk.injEq, Prod.exists]
  constructor
  · rintro ⟨other, pin, ⟨entryAddress, result, listed, read⟩, rfl, rfl⟩
    have stored := mem_pinEntries.mp listed
    cases result with
    | error e => cases read
    | ok found =>
      cases read
      exact ⟨pin, stored, rfl⟩
  · rintro ⟨pin, stored, rfl⟩
    exact ⟨address, pin, ⟨address, .ok pin, mem_pinEntries.mpr stored, rfl⟩, rfl, rfl⟩

lemma lookup_loaded_poisoned :
    (loadTofuPins K storage).poisoned.lookup address = loadError (storedPin K storage address) := by
  rw [loadTofuPins_eq]
  apply lookup_fill fun address => loadError (storedPin K storage address)
  intro address e
  simp only [List.mem_filterMap, loadError_eq_some, Prod.exists]
  constructor
  · rintro ⟨entryAddress, result, listed, read⟩
    have stored := mem_pinEntries.mp listed
    cases result with
    | ok pin => cases read
    | error reason =>
      cases read
      exact stored
  · intro stored
    exact ⟨address, .error e, mem_pinEntries.mpr stored, rfl⟩

lemma loadTofuPins_empty : loadTofuPins K ∅ = .new := by
  simp [loadTofuPins, pinEntries, listStateKeys]

lemma storedPin_persist (peer : VerifiedPeer) (other : String) :
    storedPin K (persistTofuPin K storage address peer) other =
      if other = address then some (.ok (.ofPeer peer)) else storedPin K storage other := by
  unfold storedPin persistTofuPin
  split
  · rename_i same
    subst same
    rw [lookup_insert, map_some, K.decode_encode]
  · rename_i apart
    rw [lookup_insert_ne fun same => apart ((String.append_right_inj _).mp same)]

end Load

structure PinNode where
  registry : PinRegistry
  storage : WorldState

namespace PinNode

def start (K : PinCodec) (storage : WorldState) : PinNode := ⟨loadTofuPins K storage, storage⟩

def hello (E : Ed25519) (K : PinCodec) (N : PinNode) (c : PinCall) :
    PinNode × Except String TofuOutcome :=
  match N.registry.verifyOrRegister E c with
  | (R, .error e) => (⟨R, N.storage⟩, .error e)
  | (R, .ok outcome) =>
    match R.peers.lookup c.listenAddr with
    | some peer => (⟨R, persistTofuPin K N.storage c.listenAddr peer⟩, .ok outcome)
    | none => (⟨R, N.storage⟩, .ok outcome)

def pin (N : PinNode) (address : String) : Option StoredPeerPin :=
  (N.registry.peers.lookup address).map .ofPeer

end PinNode

inductive PinInput where
  | hello (c : PinCall)
  | restart

def PinInput.next (E : Ed25519) (K : PinCodec) (N : PinNode) : PinInput → PinNode
  | hello c => (N.hello E K c).1
  | restart => .start K N.storage

def PinInput.Step (E : Ed25519) (K : PinCodec) (N : PinNode) (input : PinInput) (N' : PinNode) :
    Prop := N' = input.next E K N

/-- The claim presents, at this address, a proof that verifies under the key pinned before over the
pinned node id and the fingerprint pinned after. -/
def PinInput.Rotates (E : Ed25519) (address : String) (before after : StoredPeerPin)
    (input : PinInput) : Prop :=
  ∃ c key proof, input = .hello c ∧ c.listenAddr = address ∧ before.publicKey = some key ∧
    c.fingerprintProof = some proof ∧ after.certFingerprint ≠ before.certFingerprint ∧
    verifyEd25519 E key (tofuPinMessage before.nodeId after.certFingerprint) proof = true

namespace PinNode

variable {E : Ed25519} {K : PinCodec} {N N' : PinNode} {c : PinCall} {address : String}

/-- Memory and storage agree: what is stored is pinned, or poisons its address. -/
structure Durable (K : PinCodec) (N : PinNode) : Prop where
  pinned : ∀ address, N.pin address = loadedPin (storedPin K N.storage address)
  poisoned : ∀ address,
    N.registry.poisoned.lookup address = loadError (storedPin K N.storage address)

lemma start_durable (storage : WorldState) : (start K storage).Durable K where
  pinned address := by
    unfold pin start
    rw [lookup_loaded_peers, map_map]
    exact map_id_apply
  poisoned _ := lookup_loaded_poisoned

/-- A rejected claim changes nothing; an accepted one writes its pin to memory and to storage. -/
theorem hello_cases (E : Ed25519) (K : PinCodec) (N : PinNode) (c : PinCall) :
    (∃ e, N.hello E K c = (N, .error e)) ∨
      ∃ peer outcome, N.registry.poisoned.lookup c.listenAddr = none ∧
        PinRegistry.Accepted E N.registry c peer ∧
        N.hello E K c = (⟨{ N.registry with peers := N.registry.peers.insert c.listenAddr peer },
          persistTofuPin K N.storage c.listenAddr peer⟩, .ok outcome) := by
  unfold hello
  rcases N.registry.verifyOrRegister_cases E c with ⟨e, rejected⟩ | accepted
  · left
    exact ⟨e, by rw [rejected]⟩
  · right
    obtain ⟨peer, outcome, clean, accepted, same⟩ := accepted
    refine ⟨peer, outcome, clean, accepted, ?_⟩
    rw [same]
    simp only [lookup_insert]

lemma pin_accepted (peer : VerifiedPeer) (storage : WorldState) (other : String) :
    pin ⟨{ N.registry with peers := N.registry.peers.insert address peer }, storage⟩ other =
      if other = address then some (.ofPeer peer) else N.pin other := by
  unfold pin
  split
  · rename_i same
    subst same
    rw [lookup_insert, map_some]
  · rename_i apart
    rw [lookup_insert_ne apart]

lemma Durable.next (durable : N.Durable K) (input : PinInput) : (input.next E K N).Durable K := by
  cases input with
  | restart => exact start_durable N.storage
  | hello c =>
    show (N.hello E K c).1.Durable K
    rcases N.hello_cases E K c with ⟨e, rejected⟩ | ⟨peer, outcome, clean, accepted, same⟩
    · rw [rejected]
      exact durable
    · rw [same]
      constructor
      · intro other
        rw [pin_accepted, storedPin_persist]
        split
        · rfl
        · exact durable.pinned other
      · intro other
        rw [storedPin_persist]
        split
        · rename_i here
          rw [here]
          exact clean
        · exact durable.poisoned other

/-- What one step may do to the pin of an address. -/
structure PinKept (E : Ed25519) (address : String) (input : PinInput)
    (before after : StoredPeerPin) : Prop where
  nodeId : after.nodeId = before.nodeId
  org : after.org = before.org
  certFingerprint : after.certFingerprint ≠ before.certFingerprint →
    input.Rotates E address before after
  keyed : before.publicKey.isSome = true → after.publicKey.isSome = true
  publicKey : before.publicKey.isSome = true → after.publicKey ≠ before.publicKey →
    input.Rotates E address before after

lemma PinKept.refl (pin : StoredPeerPin) (input : PinInput) : PinKept E address input pin pin where
  nodeId := rfl
  org := rfl
  certFingerprint changed := absurd rfl changed
  keyed := id
  publicKey _ changed := absurd rfl changed

/-- An accepted claim keeps the pin of its address, but for the signed rotation. -/
theorem kept_of_accepted {peer : VerifiedPeer} {before : StoredPeerPin}
    (accepted : PinRegistry.Accepted E N.registry c peer) (pinned : N.pin c.listenAddr = some before) :
    PinKept E c.listenAddr (.hello c) before (.ofPeer peer) := by
  obtain ⟨old, found, rfl⟩ := map_eq_some_iff.mp pinned
  cases accepted with
  | new absent =>
    rw [absent] at found
    cases found
  | known peer found' nodeId org certFingerprint =>
    obtain rfl : peer = old := Option.some.inj (found'.symm.trans found)
    refine ⟨rfl, rfl, fun changed => absurd rfl changed, ?_, ?_⟩
    · intro keyed
      obtain ⟨key, pinnedKey⟩ := isSome_iff_exists.mp keyed
      simp_all [PinRegistry.refresh, StoredPeerPin.ofPeer]
    · intro keyed changed
      refine absurd ?_ changed
      obtain ⟨key, pinnedKey⟩ := isSome_iff_exists.mp keyed
      simp_all [PinRegistry.refresh, StoredPeerPin.ofPeer]
  | rotated peer found' nodeId org certFingerprint key proof pinnedKey presented signed =>
    obtain rfl : peer = old := Option.some.inj (found'.symm.trans found)
    have rotates : (PinInput.hello c).Rotates E c.listenAddr (.ofPeer peer)
        (.ofPeer (PinRegistry.rotate c peer)) :=
      ⟨c, key, proof, rfl, rfl, pinnedKey, presented, certFingerprint.symm, by
        simpa [StoredPeerPin.ofPeer, PinRegistry.rotate, nodeId] using signed⟩
    refine ⟨rfl, rfl, fun _ => rotates, ?_, fun _ _ => rotates⟩
    intro keyed
    simp only [StoredPeerPin.ofPeer, PinRegistry.rotate] at keyed ⊢
    split
    · assumption
    · exact keyed

/-- One step keeps every pin, whether it is a claim or a restart. -/
theorem Durable.kept (durable : N.Durable K) (input : PinInput) {before : StoredPeerPin}
    (pinned : N.pin address = some before) :
    ∃ after, (input.next E K N).pin address = some after ∧
      PinKept E address input before after := by
  cases input with
  | restart =>
    -- the stored pin is the one in memory, and the start reads it back
    refine ⟨before, ?_, .refl before _⟩
    rw [PinInput.next, (start_durable N.storage).pinned, ← pinned, durable.pinned]
    rfl
  | hello c =>
    show ∃ after, (N.hello E K c).1.pin address = some after ∧ _
    rcases N.hello_cases E K c with ⟨e, rejected⟩ | ⟨peer, outcome, -, accepted, same⟩
    · rw [rejected]
      exact ⟨before, pinned, .refl before _⟩
    · rw [same, pin_accepted]
      split
      · rename_i here
        subst here
        exact ⟨_, rfl, kept_of_accepted accepted pinned⟩
      · exact ⟨before, pinned, .refl before _⟩

def Lasting (before after : StoredPeerPin) : Prop :=
  after.nodeId = before.nodeId ∧ after.org = before.org ∧
    (before.publicKey.isSome = true → after.publicKey.isSome = true)

lemma Durable.lasting (durable : N.Durable K) {before : StoredPeerPin}
    (pinned : N.pin address = some before)
    (run : Reaches (PinInput.Step E K) anyStep N N') :
    N'.Durable K ∧ ∃ after, N'.pin address = some after ∧ Lasting before after := by
  refine run.invariant (I := fun M : PinNode => M.Durable K ∧
    ∃ after, M.pin address = some after ∧ Lasting before after) ?_ ?_
  · rintro M input M' ⟨durable, after, pinned, nodeId, org, keyed⟩ - rfl
    obtain ⟨later, pinned', kept⟩ := durable.kept (E := E) input pinned
    exact ⟨durable.next input, later, pinned', kept.nodeId.trans nodeId, kept.org.trans org,
      fun had => kept.keyed (keyed had)⟩
  · exact ⟨durable, before, pinned, rfl, rfl, id⟩

lemma Durable.of_run {storage : WorldState}
    (run : Reaches (PinInput.Step E K) anyStep (start K storage) N) : N.Durable K := by
  refine run.invariant (I := fun M : PinNode => M.Durable K) ?_ (start_durable storage)
  rintro M input M' durable - rfl
  exact durable.next input

lemma hello_poisoned {reason : String}
    (poisoned : N.registry.poisoned.lookup c.listenAddr = some reason) :
    ∃ e, N.hello E K c = (N, .error e) := by
  rcases N.hello_cases E K c with rejected | ⟨peer, outcome, clean, -⟩
  · exact rejected
  · rw [poisoned] at clean
    cases clean

lemma unreadable_kept {storage : WorldState} {reason : String}
    (unreadable : storedPin K storage address = some (.error reason))
    (run : Reaches (PinInput.Step E K) anyStep (start K storage) N) :
    N.registry.poisoned.lookup address = some reason := by
  have kept : N.Durable K ∧ storedPin K N.storage address = some (.error reason) := by
    refine run.invariant (I := fun M : PinNode => M.Durable K ∧
      storedPin K M.storage address = some (.error reason)) ?_ ⟨start_durable storage, unreadable⟩
    rintro M input M' ⟨durable, stored⟩ - rfl
    refine ⟨durable.next input, ?_⟩
    cases input with
    | restart => exact stored
    | hello c =>
      show storedPin K (M.hello E K c).1.storage address = _
      rcases M.hello_cases E K c with ⟨e, rejected⟩ | ⟨peer, outcome, clean, -, same⟩
      · rw [rejected]
        exact stored
      · rw [same, storedPin_persist, if_neg, stored]
        rintro rfl
        rw [durable.poisoned, loadError_eq_some.mpr stored] at clean
        cases clean
  rw [kept.1.poisoned, loadError_eq_some.mpr kept.2]

end PinNode

/-- In every run of claims and restarts, from any storage: an accepted claim pins its node id and
organization for good; a fingerprint or a pinned key changes only in a rotation signed by the key
pinned before, and a key is never lost; a rejected claim changes nothing; and an address whose pin
is unreadable rejects every claim. -/
theorem pins_rotate_only_under_pinned_key (E : Ed25519) (K : PinCodec) (storage : WorldState)
    (N : PinNode) (run : Reaches (PinInput.Step E K) anyStep (PinNode.start K storage) N)
    (address : String) :
    (∀ c N' outcome, c.listenAddr = address → N.hello E K c = (N', .ok outcome) →
      ∃ pin, N'.pin address = some pin ∧ pin.nodeId = c.nodeId ∧ pin.org = c.org) ∧
    (∀ before, N.pin address = some before →
      (∀ N', Reaches (PinInput.Step E K) anyStep N N' →
        ∃ after, N'.pin address = some after ∧ PinNode.Lasting before after) ∧
      ∀ input : PinInput, ∃ after, (input.next E K N).pin address = some after ∧
        PinNode.PinKept E address input before after) ∧
    (∀ c N' e, N.hello E K c = (N', .error e) → N' = N) ∧
    (∀ reason, storedPin K storage address = some (.error reason) →
      ∀ c, c.listenAddr = address → ∃ e, N.hello E K c = (N, .error e)) := by
  have durable := PinNode.Durable.of_run run
  refine ⟨?_, ?_, ?_, ?_⟩
  · rintro c N' outcome rfl done
    rcases N.hello_cases E K c with ⟨e, rejected⟩ | ⟨peer, _, -, accepted, same⟩
    · rw [rejected] at done
      cases done
    · rw [same] at done
      cases done
      refine ⟨.ofPeer peer, ?_, accepted.nodeId, accepted.org⟩
      rw [PinNode.pin_accepted, if_pos rfl]
  · intro before pinned
    exact ⟨fun N' later => (durable.lasting pinned later).2, fun input => durable.kept input pinned⟩
  · intro c N' e done
    rcases N.hello_cases E K c with ⟨_, rejected⟩ | ⟨_, _, -, -, same⟩
    · rw [rejected] at done
      cases done
      rfl
    · rw [same] at done
      cases done
  · rintro reason unreadable c rfl
    exact PinNode.hello_poisoned (PinNode.unreadable_kept unreadable run)

noncomputable def pinText (pin : StoredPeerPin) : Bytes :=
  utf8 (Externals.unary ((Countable.exists_injective_nat StoredPeerPin).choose pin))

lemma pinText_injective : Function.Injective pinText :=
  utf8_injective.comp (Externals.unary_injective.comp
    (Countable.exists_injective_nat StoredPeerPin).choose_spec)

noncomputable def plainPinCodec : PinCodec where
  encode := pinText
  decode raw := match Function.partialInv pinText raw with
    | some pin => .ok pin
    | none => .error "unreadable pin"
  decode_encode pin := by rw [Function.partialInv_left pinText_injective]

def firstClaim : PinCall :=
  ⟨"10.0.0.1:8000", "farm-1", "aa", "Farm", true, some (List.replicate 32 1), none⟩

def rotationClaim : PinCall :=
  { firstClaim with certFingerprint := "bb", fingerprintProof := some (List.replicate 64 2) }

/-- A rotation after a first claim. -/
theorem pin_rotation_sample :
    let E : Ed25519 := ⟨fun _ => true, fun _ _ _ => true⟩
    let K := plainPinCodec
    let N := (PinInput.hello firstClaim).next E K (.start K ∅)
    ∃ before after, N.pin "10.0.0.1:8000" = some before ∧
      ((PinInput.hello rotationClaim).next E K N).pin "10.0.0.1:8000" = some after ∧
      after.certFingerprint ≠ before.certFingerprint ∧
      (PinInput.hello rotationClaim).Rotates E "10.0.0.1:8000" before after := by
  intro E K N
  have empty : PinNode.start K ∅ = ⟨.new, ∅⟩ := congrArg (PinNode.mk · ∅) loadTofuPins_empty
  have run : Reaches (PinInput.Step E K) anyStep (PinNode.start K ∅) N :=
    .tail (.hello firstClaim) (.refl _) trivial rfl
  have pinned : N.pin "10.0.0.1:8000" = some (.ofPeer firstClaim.firstContact) := by
    simp only [N, empty]
    rfl
  obtain ⟨-, kept, -⟩ := pins_rotate_only_under_pinned_key E K ∅ N run "10.0.0.1:8000"
  obtain ⟨after, rotated, change⟩ := (kept _ pinned).2 (.hello rotationClaim)
  have fingerprint : ((PinInput.hello rotationClaim).next E K N).pin "10.0.0.1:8000" =
      some (.ofPeer (PinRegistry.rotate rotationClaim firstClaim.firstContact)) := by
    simp only [N, empty]
    rfl
  obtain rfl := Option.some.inj (rotated.symm.trans fingerprint)
  have changed : (StoredPeerPin.ofPeer (PinRegistry.rotate rotationClaim
      firstClaim.firstContact)).certFingerprint ≠
      (StoredPeerPin.ofPeer firstClaim.firstContact).certFingerprint := by decide
  exact ⟨_, _, pinned, rotated, changed, change.certFingerprint changed⟩

end GlassChain
