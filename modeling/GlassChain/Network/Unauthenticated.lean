import GlassChain.Library.Erasure
import GlassChain.Network.Durability
import GlassChain.Network.PrivateDelivery
import GlassChain.Network.Submission

/-!
# Connections without a handshake

What the messages of a connection do while it has no stable address. Transactions, blocks, suffixes
of a chain and private payloads are ignored there, and questions about the chain and the peers are
answered. A full chain, a list of peers and the messages of a vote round are taken from anybody. The
run in which a connection sent only messages that are ignored, or that the node has no use for, is
the run without the connection.
-/

namespace GlassChain

open Library Validator Multisig

inductive Message where
  | hello (hello : HelloMessage)
  | transaction (tx : Transaction)
  | block (block : Block)
  | proposal (block : Block) (round : Nat)
  | vote (vote : BftVote)
  | precommit (block : Block) (round : Nat) (prevoteCertificate : QuorumCertificate)
  | privatePayload (message : PrivatePayload)
  | requestPrivatePayload (collection commitment : String)
  | requestChain
  | requestChainFrom (fromIndex : Nat)
  | chain (fromIndex : Nat) (blocks : List Block)
  | requestPeers
  | peers (addresses : List String)
  | goodbye (reason : String)

structure PeerNode (B : Multisig) where
  validator : Validator B
  engine : ContractEngine
  store : Store
  peers : PeerTable
  transient : TransientStore
  collections : List Channel

/-- A connection: its number, its session and the remote address. -/
structure Inbound where
  connection : Nat
  session : Session
  address : String

/-- What a message finds besides the node: the time, the clock of new transactions, the storage
backend's failures, and the key the replay of a chain builds its providers with. -/
structure Arrival (B : Multisig) where
  now : Nat
  clock : String → Nat
  backend : Backend
  verifierKey : B.PrivateKey

/-- What a message leads to: the node, what is written back, the addresses to dial, the effect on
the connection. -/
structure Reaction (B : Multisig) where
  node : PeerNode B
  replies : List Message
  dials : List String
  effect : MessageEffect

def PinRegistry.advertised (R : PinRegistry) : PeerRegistry :=
  fun address => (R.peers.lookup address).map VerifiedPeer.advertised

namespace PeerNode

variable {B : Multisig}

def ledger (n : PeerNode B) : Ledger := n.validator.ledger

def state (n : PeerNode B) : NodeState B := n.validator.state

variable (n : PeerNode B)

def withLedger (L : Ledger) : PeerNode B :=
  { n with validator := { n.validator with ledger := L } }

def intake : IntakeState :=
  ⟨n.ledger, n.engine, n.state.toCommitState, n.peers.registry.advertised⟩

def withIntake (i : IntakeState) : PeerNode B :=
  { n with
    validator := { n.validator with
      ledger := i.ledger
      state := { n.state with toCommitState := i.state } }
    engine := i.engine }

def gate (C : NodeConfig) (n : PeerNode B) : PrivateGate :=
  ⟨C.verifier.isSome, n.peers.registry, n.collections, C.identity, C.nodeId⟩

def blockView (now : Nat) : BlockView B where
  sender := none
  registry := n.peers.registry.advertised
  gating := (n.state.toCommitState, n.ledger.chain)
  nowSecs := now
  state := n.state
  nextHeight := n.ledger.chain.length
  rebuilding := n.ledger.chain
  tip := n.ledger
  endorsing := (n.state.toCommitState, n.ledger.chain)

def chainView (verifierKey : B.PrivateKey) : ChainView B :=
  ⟨n.state.endorsement, n.state.consensus, verifierKey⟩

/-- The `pdc` capability at the next height. -/
def pdcActive (X : Externals) (n : PeerNode B) : Bool :=
  let set := match n.state.capabilityHistory with
    | some history => history.effectiveSet X n.ledger.chain.length
    | none => match CapabilityHistory.buildFromBlocks X n.ledger.chain with
      | .ok history => history.effectiveSet X n.ledger.chain.length
      | .error _ => .genesis X
  set.isActive pdcCapabilityId

/-- After a chain was adopted: the blocks are stored and the projections rebuilt from them. -/
def rebuild (X : Externals) (n : PeerNode B) (backend : Backend) (L : Ledger) : PeerNode B :=
  let (world, store) := (n.store.putBlocks backend L.chain).rebuildWorldState backend
  let engine := ContractEngine.rebuildFromChain L.chain
  let commit : CommitState := { n.state.toCommitState with
    contracts := fun id => (engine.getContract id).map Contract.definition
    worldState := world.getD n.state.worldState
    policies := (PolicyHistory.buildFromBlocks L.chain).toOption.getD n.state.policies
    capabilityHistory := (CapabilityHistory.buildFromBlocks X L.chain).toOption.or
      n.state.capabilityHistory }
  { n with
    validator := n.validator.handle X (.environment L commit)
    engine := engine
    store := store }

def syncChain (X : Externals) (n : PeerNode B) (a : Arrival B) (blocks : List Block) : PeerNode B :=
  if replacesChain X n.ledger (n.chainView a.verifierKey) blocks then
    n.rebuild X a.backend (receiveChain X n.ledger (n.chainView a.verifierKey) blocks)
  else n

/-- `HashSet::insert` for each address; the new ones are dialled. -/
def learn (known : List String × List String) (address : String) : List String × List String :=
  if address ∈ known.1 then known else (address :: known.1, known.2 ++ [address])

def chainFrom (chain : List Block) (fromIndex : Nat) : Message :=
  if fromIndex ≤ chain.length then .chain fromIndex (chain.drop fromIndex) else .chain 0 chain

def helloReply (h : HelloMessage) : List Message :=
  if n.ledger.chain.length < h.chainLength then
    if n.ledger.chain.length ≤ 1 then [.requestChain] else [.requestChainFrom n.ledger.chain.length]
  else []

variable (X : Externals) (P : Pki) (K : PinCodec) (J : EnvelopeCodec) (O : OfferJson)
  (C : NodeConfig)

/-- `process_message` on a connection without a stable address. -/
def processUnauthenticated (n : PeerNode B) (c : Inbound) (a : Arrival B) : Message → Reaction B
  | .hello h =>
    let (peers, storage, effect) := n.peers.hello X P K C n.transient.storage a.now c.connection
      c.session h
    ⟨{ n with peers := peers, transient := { n.transient with storage := storage } },
      if effect.stableAddr.isSome then n.helloReply h else [], [], effect⟩
  | .transaction tx =>
    ⟨n.withIntake (n.intake.peerTransaction X O a.clock none tx), [], [], .default⟩
  | .block block =>
    ⟨n.withLedger (receiveBlock X n.ledger (n.blockView a.now) block), [], [], .default⟩
  | .proposal block round =>
    ⟨{ n with validator := n.validator.handle X (.proposal block round) },
      (handleProposal X n.ledger n.state block round).2.toList.map .vote, [], .default⟩
  | .vote vote => ⟨{ n with validator := n.validator.handle X (.vote vote) }, [], [], .default⟩
  | .precommit block round prevoteCertificate =>
    ⟨{ n with validator := n.validator.handle X (.precommit block round prevoteCertificate) },
      (handlePrecommit X n.ledger n.state block round prevoteCertificate).2.toList.map .vote, [],
      .default⟩
  | .privatePayload message =>
    let transient := (n.gate C).receivePrivatePayload X J n.transient a.now (n.pdcActive X) none
      message
    ⟨{ n with transient := transient }, [], [], .default⟩
  | .requestPrivatePayload collection commitment =>
    let (transient, answer) := (n.gate C).requestPrivatePayload J n.transient a.now none collection
      commitment
    ⟨{ n with transient := transient }, answer.toList.map .privatePayload, [], .default⟩
  | .requestChain => ⟨n, [.chain 0 n.ledger.chain], [], .default⟩
  | .requestChainFrom fromIndex => ⟨n, [chainFrom n.ledger.chain fromIndex], [], .default⟩
  | .chain 0 blocks => ⟨n.syncChain X a blocks, [], [], .default⟩
  | .chain (_ + 1) blocks =>
    ⟨blocks.foldl (fun n block =>
      n.withLedger (receiveBlock X n.ledger (n.blockView a.now) block)) n, [], [], .default⟩
  | .requestPeers => ⟨n, [.peers (n.peers.knownPeers.filter (· ≠ c.address))], [], .default⟩
  | .peers addresses =>
    let (known, dials) := addresses.foldl learn (n.peers.knownPeers, [])
    ⟨{ n with peers := { n.peers with knownPeers := known } }, [], dials, .default⟩
  | .goodbye _ => ⟨n, [], [], .default⟩

def Refuses (n : PeerNode B) (c : Inbound) (a : Arrival B) : Message → Prop
  | .hello h => (n.peers.hello X P K C n.transient.storage a.now c.connection c.session
      h).2.2.stableAddr = none
  | _ => True

/-- The message is none that is taken from anybody, or the node has no use for it: the chain is not
one to adopt, the peers are known, there is no validator set or no round it is about. -/
def Ignores (n : PeerNode B) (a : Arrival B) : Message → Prop
  | .chain 0 blocks => replacesChain X n.ledger (n.chainView a.verifierKey) blocks = false
  | .peers addresses => ∀ address ∈ addresses, address ∈ n.peers.knownPeers
  | .proposal _ _ => False
  | .vote _ => (deriveValidatorProvider X n.state).2 = none
  | .precommit block round _ => ∀ record, n.state.bftRound = some record →
      record.height ≠ block.index ∨ record.round ≠ round
  | _ => True

variable {X P K J O C} {n : PeerNode B} {c : Inbound} {a : Arrival B}

lemma foldl_learn_known (known : List String × List String) {addresses : List String}
    (all : ∀ address ∈ addresses, address ∈ known.1) : addresses.foldl learn known = known := by
  induction addresses with
  | nil => rfl
  | cons address rest ih =>
    have here : learn known address = known := if_pos (all address (by simp))
    rw [List.foldl_cons, here]
    exact ih fun later listed => all later (by simp [listed])

lemma foldl_suffix (now : Nat) (blocks : List Block) :
    blocks.foldl (fun n block =>
      n.withLedger (receiveBlock X n.ledger (n.blockView now) block)) n = n := by
  induction blocks with
  | nil => rfl
  | cons block rest ih => exact ih

lemma deriveValidatorProvider_none {S : NodeState B}
    (absent : (deriveValidatorProvider X S).2 = none) : deriveValidatorProvider X S = (S, none) := by
  unfold deriveValidatorProvider at absent ⊢
  dsimp only at absent ⊢
  repeat' split at absent
  all_goals simp_all

lemma handle_vote_ignored {v : Validator B} (vote : BftVote)
    (absent : (deriveValidatorProvider X v.state).2 = none) : v.handle X (.vote vote) = v := by
  simp only [handle, onVote, handleVote, deriveValidatorProvider_none absent]

lemma handle_precommit_ignored {v : Validator B} {block : Block} {round : Nat}
    (certificate : QuorumCertificate) (elsewhere : ∀ record, v.state.bftRound = some record →
      record.height ≠ block.index ∨ record.round ≠ round) :
    v.handle X (.precommit block round certificate) = v := by
  simp only [handle, onPrecommit, handlePrecommit]
  cases found : v.state.bftRound with
  | none => rfl
  | some record => simp only [if_pos (elsewhere record found)]

/-- A message that completes no handshake and that the node ignores leaves the node as it is. -/
theorem processUnauthenticated_ignored {message : Message} (refuses : n.Refuses X P K C c a message)
    (ignores : n.Ignores X a message) :
    (n.processUnauthenticated X P K J O C c a message).node = n := by
  cases message with
  | hello h =>
    rcases PeerTable.hello_cases X P K C n.peers n.transient.storage a.now c.connection c.session h
      with refused | ⟨peer, -, -, accepted⟩
    · simp only [processUnauthenticated, refused]
    · simp only [Refuses, accepted] at refuses
      cases refuses
  | chain fromIndex blocks =>
    cases fromIndex with
    | zero => exact if_neg (by simp [show replacesChain _ _ _ _ = false from ignores])
    | succ k => exact foldl_suffix a.now blocks
  | peers addresses =>
    simp only [processUnauthenticated, foldl_learn_known (n.peers.knownPeers, []) ignores]
  | proposal block round => exact ignores.elim
  | vote vote =>
    simp only [processUnauthenticated, handle_vote_ignored vote ignores]
  | precommit block round certificate =>
    simp only [processUnauthenticated, handle_precommit_ignored certificate ignores]
  | privatePayload message =>
    have kept : (n.gate C).receivePrivatePayload X J n.transient a.now (n.pdcActive X) none message =
        n.transient := by
      unfold PrivateGate.receivePrivatePayload
      split <;> rfl
    simp only [processUnauthenticated, kept]
  | transaction | block | requestPrivatePayload | requestChain | requestChainFrom | requestPeers
    | goodbye => rfl

end PeerNode

section

variable {B : Multisig} (X : Externals) (P : Pki) (K : PinCodec) (J : EnvelopeCodec) (O : OfferJson)
  (C : NodeConfig) (c : Inbound)

def takeMessage (s : PeerNode B × Bool) (arrival : Arrival B × Message) : PeerNode B × Bool :=
  if s.2 then
    let reaction := s.1.processUnauthenticated X P K J O C c arrival.1 arrival.2
    (reaction.node, !reaction.effect.disconnect)
  else s

def happens (s : PeerNode B × Bool) (change : PeerNode B → PeerNode B) : PeerNode B × Bool :=
  (change s.1, s.2)

/-- While the connection is open, its messages complete no handshake and are ignored. -/
def StaysOutside (s : PeerNode B × Bool) (arrival : Arrival B × Message) : Prop :=
  s.2 = true → s.1.Refuses X P K C c arrival.1 arrival.2 ∧ s.1.Ignores X arrival.1 arrival.2

/-- For every node and every interleaving of a connection's messages with anything else that
happens: if the messages complete no handshake and are ignored where they arrive, the node is the
one of the run without them. -/
theorem outside_messages_have_no_effect (n : PeerNode B)
    (events : List ((Arrival B × Message) ⊕ (PeerNode B → PeerNode B)))
    (outside : OkAlong (StaysOutside X P K C c) (takeMessage X P K J O C c) happens (n, true) events) :
    (interleave (takeMessage X P K J O C c) happens (n, true) events).1 =
      (erase events).foldl (fun n change => change n) n := by
  refine related_erase (fun s m => s.1 = m) ?_ ?_ rfl events outside
  · rintro ⟨n, live⟩ m arrival rfl stays
    cases live with
    | false => rfl
    | true =>
      obtain ⟨refuses, ignores⟩ := stays rfl
      exact PeerNode.processUnauthenticated_ignored refuses ignores
  · rintro s m change rfl
    rfl

end

lemma onProposal_round {B : Multisig} {X : Externals} (v : Validator B) (block : Block)
    (round : Nat) : (v.onProposal X block round).state.bftRound.map BftRound.round = some round := by
  obtain run | ⟨S, provider, -, run | ⟨P, -, -, -, run⟩⟩ :=
    v.onProposal_cases X block round <;> rw [run] <;> rfl

noncomputable def emptyNode (X : Externals) : PeerNode (Multisig.symbolic 48) where
  validator := ⟨(freshPool X).ledger, openState _, fun _ => none, 0, []⟩
  engine := .new
  store := .empty
  peers := ⟨.new, [], ∅⟩
  transient := .new ∅
  collections := []

def stranger : Inbound := ⟨0, ⟨"aa", none⟩, "10.6.6.6:5000"⟩

noncomputable def strangerArrival : Arrival (Multisig.symbolic 48) :=
  ⟨0, fun _ => 0, .healthy, sampleKey 1⟩

noncomputable def afterStranger (X : Externals) (message : Message) :
    PeerNode (Multisig.symbolic 48) :=
  ((emptyNode X).processUnauthenticated X farmPki plainPinCodec plainEnvelopeCodec
    (fun _ => .error "not JSON") farmConfig stranger strangerArrival message).node

lemma emptyNode_replaces (X : Externals) :
    replacesChain X (emptyNode X).ledger ((emptyNode X).chainView (sampleKey 1))
      (bftLedger X 0).chain = true := by
  by_contra kept
  have adopted := fresh_adopts X ((emptyNode X).chainView (sampleKey 1)) rfl
  rw [Ledger.receive, receiveChain_eq] at adopted
  rw [show (freshPool X).ledger = (emptyNode X).ledger from rfl, if_neg kept] at adopted
  have lengths := congrArg (fun L : Ledger => L.chain.length) adopted
  simp [emptyNode, PeerNode.ledger, freshPool, bftLedger] at lengths

/-- A stranger's chain is adopted, its proposal recorded and its peer known. -/
theorem stranger_changes_node :
    let X := Externals.plain 0
    let n := emptyNode X
    (n.ledger.chain = [sealedGenesis X] ∧
        (afterStranger X (.chain 0 (bftLedger X 0).chain)).ledger.chain =
          [sealedGenesis X, activationBlock X]) ∧
      (n.state.bftRound = none ∧
        ((afterStranger X (.proposal (activationBlock X) 3)).state.bftRound.map
          BftRound.round) = some 3) ∧
      (n.peers.knownPeers = [] ∧
        (afterStranger X (.peers ["10.6.6.6:8000"])).peers.knownPeers = ["10.6.6.6:8000"]) := by
  intro X n
  refine ⟨⟨rfl, ?_⟩, ⟨rfl, ?_⟩, rfl, rfl⟩
  · have adopted : receiveChain X n.ledger (n.chainView (sampleKey 1)) (bftLedger X 0).chain =
        bftLedger X 0 := fresh_adopts X (n.chainView (sampleKey 1)) rfl
    have replaces : replacesChain X n.ledger (n.chainView strangerArrival.verifierKey)
        (bftLedger X 0).chain = true := emptyNode_replaces X
    show (n.syncChain X strangerArrival (bftLedger X 0).chain).ledger.chain = _
    rw [PeerNode.syncChain, if_pos replaces]
    show (receiveChain X n.ledger (n.chainView (sampleKey 1)) (bftLedger X 0).chain).chain = _
    rw [adopted]
    rfl
  · exact onProposal_round n.validator (activationBlock X) 3

/-- A stranger's question, an address the node has learned meanwhile, and a refused `Hello`. -/
theorem stranger_without_effect :
    let X := Externals.plain 0
    let learned (n : PeerNode (symbolic 48)) : PeerNode (symbolic 48) :=
      { n with peers := { n.peers with knownPeers := ["10.6.6.6:8000"] } }
    let events : List ((Arrival (symbolic 48) × Message) ⊕
        (PeerNode (symbolic 48) → PeerNode (symbolic 48))) :=
      [.inl (strangerArrival, .requestPeers), .inr learned,
        .inl (strangerArrival, .peers ["10.6.6.6:8000"]),
        .inl (strangerArrival, .hello { farmHello with version := "glasschain/6" })]
    (interleave (takeMessage X farmPki plainPinCodec plainEnvelopeCodec
        (fun _ => .error "not JSON") farmConfig stranger) happens (emptyNode X, true) events).1 =
      learned (emptyNode X) := by
  intro X learned events
  apply outside_messages_have_no_effect X farmPki plainPinCodec plainEnvelopeCodec
    (fun _ => .error "not JSON") farmConfig stranger (emptyNode X) events
  exact ⟨fun _ => ⟨trivial, trivial⟩, fun _ => ⟨trivial, fun _ listed => listed⟩,
    fun _ => ⟨rfl, trivial⟩, trivial⟩

end GlassChain
