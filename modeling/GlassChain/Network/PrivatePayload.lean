import GlassChain.Library.Joined
import GlassChain.Network.PeerPins
import GlassChain.Network.WriteForm

/-!
# Private payloads

A member of a collection keeps the private payloads it receives in a transient store, under one text
made of the collection and the commitment, and answers the requests of verified members. Membership
is checked for the collection the requester names. A name that continues another one with a colon
makes the two texts meet: then a payload of the longer name is returned for the shorter.
-/

namespace GlassChain

open Library List

structure PayloadEnvelope where
  payload : Bytes
  expiresAt : Nat
  deriving DecidableEq, Repr

/-- `serde_json` on envelopes. -/
structure EnvelopeCodec where
  encode : PayloadEnvelope → Bytes
  decode : Bytes → Except String PayloadEnvelope
  decode_encode : ∀ envelope, decode (encode envelope) = .ok envelope

def transientPrefix : String := "transient"

def transientKey (collection commitment : String) : String :=
  s!"{transientPrefix}:{collection}:{commitment}"

structure TransientStore where
  storage : WorldState
  expiryIndex : AList fun _ : String => Nat

namespace TransientStore

def new (storage : WorldState) : TransientStore := ⟨storage, ∅⟩

def recordExpiry (T : TransientStore) (key : String) (expiresAt : Nat) : TransientStore :=
  { T with expiryIndex := T.expiryIndex.insert key expiresAt }

/-- The deadline is a `u64`. -/
def put (K : EnvelopeCodec) (T : TransientStore) (now : Nat) (collection commitment : String)
    (payload : Bytes) (retentionSecs : Nat) : TransientStore :=
  let expiresAt := (now + retentionSecs) % 2 ^ 64
  let key := transientKey collection commitment
  { T with storage := T.storage.insert key (K.encode ⟨payload, expiresAt⟩) }.recordExpiry key expiresAt

def get (K : EnvelopeCodec) (T : TransientStore) (now : Nat) (collection commitment : String) :
    TransientStore × Except CoreError (Option Bytes) :=
  let key := transientKey collection commitment
  match T.storage.lookup key with
  | none => (T, .ok none)
  | some raw => match K.decode raw with
    | .error e => (T, .error (.serialization e))
    | .ok envelope =>
      if envelope.expiresAt ≤ now then (T, .ok none)
      else (T.recordExpiry key envelope.expiresAt, .ok (some envelope.payload))

def expired (K : EnvelopeCodec) (now : Nat) (raw : Bytes) : Bool :=
  match K.decode raw with
  | .ok envelope => envelope.expiresAt ≤ now
  | .error _ => false

/-- The deadlines of the index, and for keys it does not know those of the stored envelopes. -/
def purgeExpired (K : EnvelopeCodec) (T : TransientStore) (now : Nat) : TransientStore × Nat :=
  let indexed := (T.expiryIndex.entries.filter fun e => e.2 ≤ now).map Sigma.fst
  let discovered := (listStateKeys T.storage (transientPrefix ++ ":")).filter fun key =>
    (T.expiryIndex.lookup key).isNone && ((T.storage.lookup key).map (expired K now)).getD false
  let keys := indexed ++ discovered
  (⟨keys.foldl (fun m key => m.erase key) T.storage,
    keys.foldl (fun m key => m.erase key) T.expiryIndex⟩, keys.length)

variable {K : EnvelopeCodec} {T T' : TransientStore} {now : Nat} {collection commitment : String}
  {payload : Bytes}

lemma get_eq_some : T.get K now collection commitment = (T', .ok (some payload)) ↔
    ∃ raw envelope, T.storage.lookup (transientKey collection commitment) = some raw ∧
      K.decode raw = .ok envelope ∧ now < envelope.expiresAt ∧ envelope.payload = payload ∧
      T' = T.recordExpiry (transientKey collection commitment) envelope.expiresAt := by
  unfold get
  cases found : T.storage.lookup (transientKey collection commitment) with
  | none => simp [found]
  | some raw =>
    cases decoded : K.decode raw with
    | error e => simp [found, decoded]
    | ok envelope =>
      by_cases late : envelope.expiresAt ≤ now
      · simp only [found, decoded, if_pos late]
        grind
      · simp only [found, decoded, if_neg late]
        grind

lemma get_storage : (T.get K now collection commitment).1.storage = T.storage := by
  unfold get
  dsimp only
  split
  · rfl
  · split
    · rfl
    · split <;> rfl

end TransientStore

inductive TransientCall where
  | put (now : Nat) (collection commitment : String) (payload : Bytes) (retentionSecs : Nat)
  | get (now : Nat) (collection commitment : String)
  | purgeExpired (now : Nat)
  /-- A new store over the same storage. -/
  | restart

namespace TransientCall

def next (K : EnvelopeCodec) (T : TransientStore) : TransientCall → TransientStore
  | put now collection commitment payload retentionSecs =>
    T.put K now collection commitment payload retentionSecs
  | get now collection commitment => (T.get K now collection commitment).1
  | purgeExpired now => (T.purgeExpired K now).1
  | restart => .new T.storage

def Puts (collection commitment : String) (payload : Bytes) (call : TransientCall) : Prop :=
  ∃ now retentionSecs, call = .put now collection commitment payload retentionSecs

/-- Puts use a name of `names` and commit to the payload. -/
def Within (X : Externals) (names : Set String) : TransientCall → Prop
  | put _ collection commitment payload _ => collection ∈ names ∧ commitment = X.sha256 payload
  | _ => True

def run (K : EnvelopeCodec) (storage : WorldState) (calls : List TransientCall) : TransientStore :=
  calls.foldl (next K) (.new storage)

end TransientCall

def WithoutPayloads (storage : WorldState) : Prop :=
  ∀ collection commitment, storage.lookup (transientKey collection commitment) = none

namespace TransientStore

variable {K : EnvelopeCodec} {T : TransientStore} {P : String → String → Bytes → Prop}

def Explained (K : EnvelopeCodec) (P : String → String → Bytes → Prop) (T : TransientStore) : Prop :=
  ∀ collection commitment raw,
    T.storage.lookup (transientKey collection commitment) = some raw →
    ∃ collection' commitment' payload expiresAt, P collection' commitment' payload ∧
      transientKey collection commitment = transientKey collection' commitment' ∧
      raw = K.encode ⟨payload, expiresAt⟩

lemma Explained.of_storage {T' : TransientStore} (explained : T.Explained K P)
    (fewer : ∀ key raw, T'.storage.lookup key = some raw → T.storage.lookup key = some raw) :
    T'.Explained K P :=
  fun collection commitment raw found => explained collection commitment raw (fewer _ raw found)

lemma Explained.put {collection commitment : String} {payload : Bytes}
    (explained : T.Explained K P) (put : P collection commitment payload)
    (now retentionSecs : Nat) :
    (T.put K now collection commitment payload retentionSecs).Explained K P := by
  intro collection' commitment' raw found
  by_cases same : transientKey collection' commitment' = transientKey collection commitment
  · refine ⟨collection, commitment, payload, (now + retentionSecs) % 2 ^ 64, put, same, ?_⟩
    rw [same] at found
    exact (Option.some.inj ((AList.lookup_insert T.storage).symm.trans found)).symm
  · exact explained collection' commitment' raw ((AList.lookup_insert_ne same).symm.trans found)

lemma Explained.next (explained : T.Explained K P) (call : TransientCall)
    (puts : ∀ collection commitment payload, call.Puts collection commitment payload →
      P collection commitment payload) : (call.next K T).Explained K P := by
  cases call with
  | put now collection commitment payload retentionSecs =>
    exact explained.put (puts _ _ _ ⟨now, retentionSecs, rfl⟩) now retentionSecs
  | get now collection commitment =>
    refine explained.of_storage fun key raw found => ?_
    rwa [TransientCall.next, get_storage] at found
  | purgeExpired now => exact explained.of_storage fun _ _ => lookup_of_lookup_foldl_erase
  | restart => exact explained

/-- In every run, what is stored was put. -/
theorem explained_run {storage : WorldState} (fresh : WithoutPayloads storage)
    (calls : List TransientCall) :
    (TransientCall.run K storage calls).Explained K fun collection commitment payload =>
      ∃ call ∈ calls, call.Puts collection commitment payload := by
  refine List.foldlRecOn calls (TransientCall.next K) ?_ ?_
  · intro collection commitment raw found
    rw [new, fresh] at found
    cases found
  · intro T explained call listed
    exact explained.next call fun _ _ _ put => ⟨call, listed, put⟩

end TransientStore

/-- `other` continues `name` with a colon. -/
def Shadows (name other : String) : Prop := name.toList ++ [':'] <+: other.toList

instance : DecidableRel Shadows := fun name other =>
  inferInstanceAs (Decidable (name.toList ++ [':'] <+: other.toList))

lemma toList_transientKey (collection commitment : String) :
    (transientKey collection commitment).toList =
      "transient:".toList ++ (collection.toList ++ ':' :: commitment.toList) := by
  simp [transientKey, transientPrefix, toString, String.toList_append]

variable {X : Externals}

/-- A text without the byte of a colon has none. -/
theorem colon_notMem_of_utf8 {text : String} (clean : 58 ∉ utf8 text) : ':' ∉ text.toList := by
  intro member
  obtain ⟨front, back, cut⟩ := append_of_mem member
  have spelled : text = String.ofList front ++ ":" ++ String.ofList back := by
    apply String.toList_inj.mp
    rw [cut]
    simp
  refine clean ?_
  rw [spelled, utf8_append, utf8_append]
  have colon : utf8 ":" = [58] := by decide
  simp [colon]

/-- The digits of a digest are no colons. -/
theorem colon_not_mem_sha256 (hex : HexDigest X) (data : Bytes) : ':' ∉ (X.sha256 data).toList :=
  colon_notMem_of_utf8 fun listed => absurd ((hex data).2 58 listed) (by decide)

/-- The keys of two payloads are equal when the names and commitments are, or when the stored name
continues the requested one. -/
theorem transientKey_eq_iff {name commitment stored digest : String}
    (clean : ':' ∉ digest.toList) :
    transientKey name commitment = transientKey stored digest ↔
      (name = stored ∧ commitment = digest) ∨
        ∃ rest, stored.toList = name.toList ++ ':' :: rest ∧
          commitment.toList = rest ++ ':' :: digest.toList := by
  rw [← String.toList_inj, toList_transientKey, toList_transientKey, append_cancel_left_eq,
    joined_eq_joined_iff clean, String.toList_inj, String.toList_inj]

/-- What a request returns was put under the requested name, or under one that continues it. -/
theorem put_of_get (hex : HexDigest X) {K : EnvelopeCodec} {names : Set String}
    {storage : WorldState} {calls : List TransientCall} (fresh : WithoutPayloads storage)
    (within : ∀ call ∈ calls, call.Within X names) {T' : TransientStore} {now : Nat}
    {name commitment : String} {payload : Bytes}
    (found : (TransientCall.run K storage calls).get K now name commitment =
      (T', .ok (some payload))) :
    (∃ call ∈ calls, call.Puts name commitment payload) ∨
      ∃ stored ∈ names, Shadows name stored ∧
        ∃ digest, ∃ call ∈ calls, call.Puts stored digest payload := by
  obtain ⟨raw, envelope, held, decoded, -, rfl, -⟩ := TransientStore.get_eq_some.mp found
  obtain ⟨stored, digest, payload, expiresAt, ⟨call, listed, put⟩, same, rfl⟩ :=
    TransientStore.explained_run fresh calls name commitment raw held
  rw [K.decode_encode] at decoded
  cases decoded
  obtain ⟨now', retentionSecs, rfl⟩ := put
  obtain ⟨named, committed⟩ := within _ listed
  have clean : ':' ∉ digest.toList := committed ▸ colon_not_mem_sha256 hex payload
  rcases (transientKey_eq_iff clean).mp same with ⟨rfl, rfl⟩ | ⟨rest, continued, -⟩
  · exact .inl ⟨_, listed, now', retentionSecs, rfl⟩
  · refine .inr ⟨stored, named, ⟨rest, ?_⟩, digest, _, listed, now', retentionSecs, rfl⟩
    simp [continued]

/-- One put under a name that continues the requested one is found. -/
theorem get_of_shadows {K : EnvelopeCodec} {name stored : String} (shadows : Shadows name stored)
    (payload : Bytes) (digest : String) : ∃ commitment T',
      (TransientCall.run K ∅ [.put 0 stored digest payload 1]).get K 0 name commitment =
        (T', .ok (some payload)) := by
  obtain ⟨rest, continued⟩ := shadows
  refine ⟨String.ofList (rest ++ ':' :: digest.toList), _, TransientStore.get_eq_some.mpr
    ⟨K.encode ⟨payload, 1⟩, ⟨payload, 1⟩, ?_, K.decode_encode _, Nat.one_pos, rfl, rfl⟩⟩
  have same : transientKey name (String.ofList (rest ++ ':' :: digest.toList)) =
      transientKey stored digest := by
    apply String.toList_inj.mp
    rw [toList_transientKey, toList_transientKey, ← continued]
    simp
  rw [same]
  exact AList.lookup_insert _

/-- The configuration of a channel; its description and its declared policy are not read here. -/
structure ChannelConfig where
  name : String
  memberIds : List String
  retentionSecs : Nat
  deriving DecidableEq, Repr

structure Channel where
  config : ChannelConfig
  /-- The effective members. -/
  members : List String
  deriving DecidableEq, Repr

def defaultRegulatorOrgs : List String := ["anvisa", "mapa"]

namespace Channel

/-- Regulators are members of every channel; the list is sorted and without duplicates. -/
def new (config : ChannelConfig) : Channel where
  config := config
  members := ((config.memberIds ++ defaultRegulatorOrgs).mergeSort fun a b => a ≤ b).dedup

def isMember (channel : Channel) (nodeId : String) : Bool := channel.members.contains nodeId

lemma isMember_new {config : ChannelConfig} {org : String} :
    (new config).isMember org = true ↔ org ∈ config.memberIds ++ defaultRegulatorOrgs := by
  simp [isMember, new, mem_mergeSort]

end Channel

structure PrivateGate where
  verifierConfigured : Bool
  registry : PinRegistry
  collections : List Channel
  /-- The node identifier of the attached identity. -/
  identity : Option String
  nodeId : String

structure PrivatePayload where
  collection : String
  commitment : String
  payload : Bytes
  deriving DecidableEq, Repr

inductive NetworkError where
  | unknownCollection (name : String)
  | peerDisconnected (address : String)
  | messageTooLarge (size max : Nat)
  | serialization (message : String)
  deriving DecidableEq, Repr

def privatePayloadAllowed (verifierPresent orgVerified orgIsMember : Bool) : Bool :=
  verifierPresent && orgVerified && orgIsMember

namespace PrivateGate

variable (G : PrivateGate)

def localOrg : String := G.identity.getD G.nodeId

def collection (G : PrivateGate) (name : String) : Option Channel :=
  G.collections.find? fun c => c.config.name == name

def isCollectionMember (name org : String) : Bool :=
  (G.collection name).any fun c => c.isMember org

def peerOrg (address : String) : Option String :=
  (G.registry.peers.lookup address).map VerifiedPeer.org

def privatePeerTrusted (address collection : String) : Bool :=
  privatePayloadAllowed G.verifierConfigured
    ((G.peerOrg address).any fun org => G.registry.orgVerified address org == some true)
    ((G.peerOrg address).any fun org => G.isCollectionMember collection org)

/-- A new collection; its name only has to be unused. -/
def adminCreateChannel (config : ChannelConfig) : Except NetworkError PrivateGate :=
  if (G.collection config.name).isSome then .error (.unknownCollection config.name)
  else .ok { G with collections := G.collections ++ [.new config] }

/-- A request on a connection with this stable address; the answer goes back on the connection. -/
def requestPrivatePayload (K : EnvelopeCodec) (G : PrivateGate) (T : TransientStore) (now : Nat)
    (stableAddr : Option String) (collection commitment : String) :
    TransientStore × Option PrivatePayload :=
  match stableAddr with
  | none => (T, none)
  | some address =>
    if !G.privatePeerTrusted address collection || !G.isCollectionMember collection G.localOrg then
      (T, none)
    else match T.get K now collection commitment with
      | (T, .ok (some payload)) => (T, some ⟨collection, commitment, payload⟩)
      | (T, _) => (T, none)

variable {G : PrivateGate} {K : EnvelopeCodec} {T T' : TransientStore} {now : Nat}

def Serves (address collection : String) : Prop :=
  G.privatePeerTrusted address collection = true ∧
    G.isCollectionMember collection G.localOrg = true

/-- A trusted peer has an organization, verified in its last handshake and a member. -/
theorem privatePeerTrusted_iff {address collection : String} :
    G.privatePeerTrusted address collection = true ↔ G.verifierConfigured = true ∧
      ∃ peer, G.registry.peers.lookup address = some peer ∧ peer.orgVerified = true ∧
        G.isCollectionMember collection peer.org = true := by
  cases found : G.registry.peers.lookup address with
  | none => simp [privatePeerTrusted, privatePayloadAllowed, peerOrg, found]
  | some peer =>
    simp [privatePeerTrusted, privatePayloadAllowed, peerOrg, found, PinRegistry.orgVerified,
      and_assoc]

lemma requestPrivatePayload_eq_some {stableAddr : Option String} {collection commitment : String}
    {message : PrivatePayload} :
    G.requestPrivatePayload K T now stableAddr collection commitment = (T', some message) ↔
      ∃ address, stableAddr = some address ∧ G.Serves address collection ∧
        T.get K now collection commitment = (T', .ok (some message.payload)) ∧
        message.collection = collection ∧ message.commitment = commitment := by
  unfold requestPrivatePayload Serves
  cases stableAddr with
  | none => simp
  | some address =>
    cases trusted : G.privatePeerTrusted address collection with
    | false => simp [trusted]
    | true =>
      cases holder : G.isCollectionMember collection G.localOrg with
      | false => simp [trusted]
      | true =>
        obtain ⟨collection', commitment', payload⟩ := message
        cases result : T.get K now collection commitment with
        | mk store outcome => rcases outcome with e | (_ | found) <;> grind

end PrivateGate

/-- A request for `name` returns only what was put under exactly that name and commitment. -/
def Isolates (X : Externals) (K : EnvelopeCodec) (names : Set String) (name : String) : Prop :=
  ∀ storage calls, WithoutPayloads storage → (∀ call ∈ calls, call.Within X names) →
    ∀ now commitment payload T',
      (TransientCall.run K storage calls).get K now name commitment = (T', .ok (some payload)) →
      ∃ call ∈ calls, call.Puts name commitment payload

/-- A peer whose request is answered belongs to a collection under which the payload was put. -/
def AnswersMembers (X : Externals) (K : EnvelopeCodec) (names : Set String) (G : PrivateGate) :
    Prop :=
  ∀ storage calls, WithoutPayloads storage → (∀ call ∈ calls, call.Within X names) →
    ∀ now address name commitment message T',
      G.requestPrivatePayload K (TransientCall.run K storage calls) now (some address) name
        commitment = (T', some message) →
      ∃ stored digest org, (∃ call ∈ calls, call.Puts stored digest message.payload) ∧
        G.peerOrg address = some org ∧ G.isCollectionMember stored org = true

/-- Collections are isolated exactly where no stored name continues a requested one with a colon: in
the store for every requested name, behind the gate for every peer and name it serves unless the
peer belongs to the longer name too. -/
theorem collections_isolated_iff (hex : HexDigest X) (K : EnvelopeCodec) (names : Set String) :
    (∀ name, Isolates X K names name ↔ ∀ stored ∈ names, ¬ Shadows name stored) ∧
    ∀ G : PrivateGate, AnswersMembers X K names G ↔
      ∀ address name, G.Serves address name → ∀ stored ∈ names, Shadows name stored →
        ∃ org, G.peerOrg address = some org ∧ G.isCollectionMember stored org = true := by
  have fresh : WithoutPayloads ∅ := fun _ _ => AList.lookup_empty _
  have within {stored : String} (named : stored ∈ names) :
      ∀ call ∈ [TransientCall.put 0 stored (X.sha256 []) [] 1], call.Within X names := by
    intro call listed
    obtain rfl := mem_singleton.mp listed
    exact ⟨named, rfl⟩
  refine ⟨fun name => ⟨?_, ?_⟩, fun G => ⟨?_, ?_⟩⟩
  · intro isolated stored named shadows
    obtain ⟨commitment, T', found⟩ := get_of_shadows (K := K) shadows [] (X.sha256 [])
    obtain ⟨call, listed, now, retentionSecs, rfl⟩ :=
      isolated ∅ _ fresh (within named) 0 commitment [] T' found
    cases mem_singleton.mp listed
    -- a name does not continue itself
    exact absurd shadows.length_le (by simp)
  · intro apart storage calls fresh within now commitment payload T' found
    rcases put_of_get hex fresh within found with put | ⟨stored, named, shadows, -⟩
    · exact put
    · exact absurd shadows (apart stored named)
  · intro answers address name serves stored named shadows
    obtain ⟨commitment, T', found⟩ := get_of_shadows (K := K) shadows [] (X.sha256 [])
    obtain ⟨stored', digest, org, ⟨call, listed, now, retentionSecs, rfl⟩, known, member⟩ :=
      answers ∅ _ fresh (within named) 0 address name commitment ⟨name, commitment, []⟩ T'
        (PrivateGate.requestPrivatePayload_eq_some.mpr ⟨address, rfl, serves, found, rfl, rfl⟩)
    cases mem_singleton.mp listed
    exact ⟨org, known, member⟩
  · intro members storage calls fresh within now address name commitment message T' answered
    obtain ⟨address, rfl', serves, found, -, -⟩ :=
      PrivateGate.requestPrivatePayload_eq_some.mp answered
    cases rfl'
    rcases put_of_get hex fresh within found with put | ⟨stored, named, shadows, digest, put⟩
    · obtain ⟨-, peer, known, -, member⟩ := PrivateGate.privatePeerTrusted_iff.mp serves.1
      exact ⟨name, commitment, peer.org, put, by simp [PrivateGate.peerOrg, known], member⟩
    · obtain ⟨org, known, member⟩ := members address name serves stored named shadows
      exact ⟨stored, digest, org, put, known, member⟩

def plainEnvelopeCodec : EnvelopeCodec where
  encode envelope := List.replicate envelope.expiresAt 0 ++ 1 :: envelope.payload
  decode raw := match raw.dropWhile (· == 0) with
    | _ :: payload => .ok ⟨payload, (raw.takeWhile (· == 0)).length⟩
    | [] => .error "unreadable envelope"
  decode_encode envelope := by simp

/-- A node with one verified peer, of the organization `rival`. -/
def rivalGate : PrivateGate where
  verifierConfigured := true
  registry := ⟨AList.singleton "10.0.0.9:8000" ⟨"rival-1", "aa", "rival", true, none, []⟩, ∅⟩
  collections := []
  identity := none
  nodeId := "holder"

/-- A payload of `prices:acme` is returned to a peer that belongs to `prices` only. -/
theorem shadowed_payload_leaks :
    let K := plainEnvelopeCodec
    let digest := hexExternals.sha256 [7]
    let T := TransientCall.run K ∅ [.put 0 "prices:acme" digest [7] 60]
    ∃ G, (rivalGate.adminCreateChannel ⟨"prices", ["rival", "holder"], 60⟩ >>=
        fun G => G.adminCreateChannel ⟨"prices:acme", ["holder"], 60⟩) = .ok G ∧
      (∃ T', G.requestPrivatePayload K T 0 (some "10.0.0.9:8000") "prices" ("acme:" ++ digest) =
        (T', some ⟨"prices", "acme:" ++ digest, [7]⟩)) ∧
      G.peerOrg "10.0.0.9:8000" = some "rival" ∧
      G.isCollectionMember "prices:acme" "rival" = false := by
  intro K digest T
  let prices := Channel.new ⟨"prices", ["rival", "holder"], 60⟩
  let acme := Channel.new ⟨"prices:acme", ["holder"], 60⟩
  have asker : prices.isMember "rival" = true := Channel.isMember_new.mpr (by decide)
  have holder : prices.isMember "holder" = true := Channel.isMember_new.mpr (by decide)
  have outsider : acme.isMember "rival" = false := by
    rw [Bool.eq_false_iff]
    exact fun member => absurd (Channel.isMember_new.mp member) (by decide)
  refine ⟨{ rivalGate with collections := [prices, acme] }, rfl, ?_, rfl, outsider⟩
  refine ⟨_, PrivateGate.requestPrivatePayload_eq_some.mpr
    ⟨"10.0.0.9:8000", rfl, ⟨?_, holder⟩, rfl, rfl, rfl⟩⟩
  exact PrivateGate.privatePeerTrusted_iff.mpr ⟨rfl, _, rfl, rfl, asker⟩

/-- Names of which none continues another. -/
theorem collections_isolated_sample :
    (∀ stored ∈ ({"prices", "costs"} : Set String), ¬ Shadows "prices" stored) ∧
      Isolates hexExternals plainEnvelopeCodec {"prices", "costs"} "prices" := by
  have apart : ∀ stored ∈ ({"prices", "costs"} : Set String), ¬ Shadows "prices" stored := by
    rintro stored (rfl | rfl) <;> decide
  exact ⟨apart, ((collections_isolated_iff hexDigest_sample plainEnvelopeCodec _).1 "prices").mpr apart⟩

end GlassChain
