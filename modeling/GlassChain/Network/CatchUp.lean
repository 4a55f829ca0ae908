import GlassChain.Network.Unauthenticated

/-!
# Catching up

A node that hears of a longer chain asks for it: for all of it while it has the genesis block only,
and from its own length on otherwise. A full chain replaces a shorter one; the blocks of a suffix
pass the gate of single blocks. So among full chains the longest acceptable one is left, whatever
their order. But a node with a block after genesis only ever extends its chain: two nodes that came
to differ at a height differ there for good, and the one behind asks for the same suffix again.
-/

namespace GlassChain

open Library List PeerNode Ledger

variable {B : Multisig} {X : Externals} {L : Ledger} {v : ChainView B} {chain : List Block}

/-- A ledger with nothing but the genesis block of `L` would adopt the chain. -/
def Acceptable (X : Externals) (L : Ledger) (v : ChainView B) (chain : List Block) : Prop :=
  replacesChain X { L with chain := L.chain.take 1 } v chain = true

lemma replacesChain_iff (begun : L.chain ≠ []) : replacesChain X L v chain = true ↔
    L.chain.length < chain.length ∧ Acceptable X L v chain := by
  obtain ⟨genesis, rest, whole⟩ := exists_cons_of_ne_nil begun
  simp only [Acceptable, replacesChain, adopts, Bool.and_eq_true, decide_eq_true_eq, whole,
    take_succ_cons, take_zero, length_cons, length_nil]
  grind

/-- An adopted chain begins with a block of the same hash: what is acceptable stays the same. -/
theorem acceptable_adopted (begun : L.chain ≠ []) (acceptable : Acceptable X L v chain)
    (other : List Block) : Acceptable X { L with chain := chain }.resetIndexes v other ↔
      Acceptable X L v other := by
  obtain ⟨genesis, rest, whole⟩ := exists_cons_of_ne_nil begun
  cases chain with
  | nil => simp [Acceptable, replacesChain, adopts] at acceptable
  | cons first later =>
    have same : genesis.hash = first.hash := by
      simp only [Acceptable, replacesChain, adopts, Bool.and_eq_true, whole] at acceptable
      simpa using acceptable.2.2.1.1.1
    simp [Acceptable, replacesChain, adopts, resetIndexes, whole, same]

lemma receiveChain_full (begun : L.chain ≠ []) (chain : List Block) :
    (∀ other, Acceptable X (receiveChain X L v chain) v other ↔ Acceptable X L v other) ∧
    (Acceptable X L v chain → chain.length ≤ (receiveChain X L v chain).chain.length) ∧
    ((receiveChain X L v chain).chain = L.chain ∨ (receiveChain X L v chain).chain = chain ∧
      L.chain.length < chain.length ∧ Acceptable X L v chain) := by
  rw [receiveChain_eq]
  split
  · rename_i replaces
    obtain ⟨longer, acceptable⟩ := (replacesChain_iff begun).mp replaces
    exact ⟨acceptable_adopted begun acceptable, fun _ => le_rfl, .inr ⟨rfl, longer, acceptable⟩⟩
  · rename_i stays
    rw [replacesChain_iff begun] at stays
    refine ⟨fun _ => Iff.rfl, fun acceptable => ?_, .inl rfl⟩
    by_contra longer
    exact stays ⟨by omega, acceptable⟩

/-- The chain after full chains came in one after the other. -/
def afterChains (X : Externals) (L : Ledger) (v : ChainView B) (chains : List (List Block)) :
    List Block :=
  (chains.foldl (fun L chain => receiveChain X L v chain) L).chain

lemma afterChains_spec (begun : L.chain ≠ []) (chains : List (List Block)) :
    (afterChains X L v chains = L.chain ∨ L.chain.length < (afterChains X L v chains).length ∧
      afterChains X L v chains ∈ chains ∧ Acceptable X L v (afterChains X L v chains)) ∧
    ∀ chain ∈ chains, Acceptable X L v chain →
      chain.length ≤ (afterChains X L v chains).length := by
  induction chains generalizing L with
  | nil => exact ⟨.inl rfl, by simp⟩
  | cons chain chains ih =>
    obtain ⟨same, atLeast, left⟩ := receiveChain_full (X := X) (v := v) begun chain
    have begun' : (receiveChain X L v chain).chain ≠ [] := by
      rcases left with e | ⟨e, longer, -⟩ <;> rw [e]
      · exact begun
      · exact ne_nil_of_length_pos (by omega)
    have later : afterChains X L v (chain :: chains) =
      afterChains X (receiveChain X L v chain) v chains := rfl
    obtain ⟨choice, longest⟩ := ih begun'
    simp only [same, ← later] at choice longest
    have grown : (receiveChain X L v chain).chain.length ≤
        (afterChains X L v (chain :: chains)).length := by
      rcases choice with e | ⟨longer, -⟩
      · rw [e]
      · exact longer.le
    grind

/-- Of full chains the longest acceptable one is left, if it is longer than the own chain. The order
in which they come matters only among equally long ones. -/
theorem longest_chain_wins (X : Externals) (L : Ledger) (v : ChainView B) (begun : L.chain ≠ [])
    (chains : List (List Block)) :
    (afterChains X L v chains = L.chain ∨ L.chain.length < (afterChains X L v chains).length ∧
      afterChains X L v chains ∈ chains ∧ Acceptable X L v (afterChains X L v chains)) ∧
    (∀ chain ∈ chains, Acceptable X L v chain →
      chain.length ≤ (afterChains X L v chains).length) ∧
    ∀ reordered, reordered.Perm chains →
      (afterChains X L v reordered).length = (afterChains X L v chains).length ∧
      ((∀ chain ∈ chains, Acceptable X L v chain →
          chain.length = (afterChains X L v chains).length → chain = afterChains X L v chains) →
        afterChains X L v reordered = afterChains X L v chains) := by
  obtain ⟨choice, longest⟩ := afterChains_spec (X := X) (v := v) begun chains
  refine ⟨choice, longest, fun reordered perm => ?_⟩
  obtain ⟨choice', longest'⟩ := afterChains_spec (X := X) (v := v) begun reordered
  simp only [perm.mem_iff] at choice' longest'
  have equal : (afterChains X L v reordered).length = (afterChains X L v chains).length := by
    grind
  exact ⟨equal, by grind⟩

theorem fresh_takes_longer_chain :
    let X := Externals.plain 0
    let v := (emptyNode X).chainView (sampleKey 1)
    2 ≤ (afterChains X (emptyNode X).ledger v [(bftLedger X 0).chain, []]).length := by
  intro X v
  have begun : (emptyNode X).ledger.chain ≠ [] := cons_ne_nil _ _
  have wins := longest_chain_wins X (emptyNode X).ledger v begun [(bftLedger X 0).chain, []]
  exact wins.2.1 _ (by simp) ((replacesChain_iff begun).mp (emptyNode_replaces X)).2

/-- The chain got no shorter, is another one only if it is longer, and kept the id of votes. -/
def Ledger.GrowsTo (L L' : Ledger) : Prop :=
  L.chain.length ≤ L'.chain.length ∧ (L.chain.length = L'.chain.length → L'.chain = L.chain) ∧
    L'.chainId = L.chainId

lemma receive_grows (begun : L.chain ≠ []) (input : LedgerInput B) :
    L.GrowsTo (L.receive X input) := by
  by_cases full : ∃ view blocks, input = .chain view blocks
  · obtain ⟨view, blocks, rfl⟩ := full
    obtain e | ⟨-, -, adopts, e⟩ := receiveChain_cases (X := X) (L := L) view blocks <;>
      rw [Ledger.receive, e]
    · exact ⟨le_rfl, fun _ => rfl, rfl⟩
    · obtain ⟨genesis, rest, whole⟩ := exists_cons_of_ne_nil begun
      cases blocks <;> simp [Ledger.adopts, Ledger.resetIndexes, whole] at adopts ⊢
      grind [Ledger.GrowsTo, Ledger.chainId]
  · have other : ∀ view blocks, input ≠ .chain view blocks := by grind
    have part := receive_extends (X := X) L other
    refine ⟨part.length_le, fun same => (part.eq_of_length same).symm, ?_⟩
    obtain ⟨rest, whole⟩ := part
    simp [Ledger.chainId, ← whole, head?_append_of_ne_nil _ begun]

theorem ledger_only_grows (X : Externals) (L : Ledger) (begun : L.chain ≠ [])
    (inputs : List (LedgerInput B)) : L.GrowsTo (inputs.foldl (Ledger.receive X) L) := by
  induction inputs generalizing L with
  | nil => exact ⟨le_rfl, fun _ => rfl, rfl⟩
  | cons input inputs ih =>
    have now := receive_grows (X := X) begun input
    have later := ih (L.receive X input) (by grind [Ledger.GrowsTo])
    grind [Ledger.GrowsTo]

theorem fresh_only_grows :
    let X := Externals.plain 0
    let longer := LedgerInput.chain soloView (bftLedger X 0).chain
    (emptyNode X).ledger.GrowsTo ((emptyNode X).ledger.receive X longer) := by
  intro X longer
  exact ledger_only_grows X (emptyNode X).ledger (cons_ne_nil _ _) [longer]

/-- The nodes of a network, and the messages under way with sender and receiver. A message may come
late, more than once or never. -/
structure SyncNet (B : Multisig) where
  nodes : Nat → PeerNode B
  wire : List (Nat × Nat × Message)

inductive SyncEvent (B : Multisig) where
  /-- A node accepts the `Hello` of a peer. -/
  | hello (node peer : Nat) (hello : HelloMessage)
  | announce (node peer : Nat) (block : Block)
  | deliver (sender receiver : Nat) (message : Message) (view : BlockView B) (arrival : Arrival B)
  /-- Anything else a node does, such as mining. -/
  | work (node : Nat) (later : PeerNode B)

abbrev PeerNode.height (n : PeerNode B) : Nat := n.ledger.chain.length

/-- What a node makes of a message about the chain, and what it writes back. What else a commit does
is `work`. -/
def PeerNode.react (X : Externals) (n : PeerNode B) (view : BlockView B) (arrival : Arrival B) :
    Message → PeerNode B × List Message
  | .block block => (n.withLedger (receiveBlock X n.ledger view block),
      if view.verdict X block = .tooFarAhead then [.requestChainFrom n.height] else [])
  | .requestChain => (n, [.chain 0 n.ledger.chain])
  | .requestChainFrom fromIndex => (n, [chainFrom n.ledger.chain fromIndex])
  | .chain 0 blocks => (n.syncChain X arrival blocks, [])
  | _ => (n, [])

/-- A suffix is a block message for each of its blocks. -/
def Message.parts : Message → List Message
  | .chain (_ + 1) blocks => blocks.map .block
  | _ => []

namespace SyncNet

abbrev chainOf (s : SyncNet B) (i : Nat) : List Block := (s.nodes i).ledger.chain

def next (X : Externals) (s : SyncNet B) : SyncEvent B → SyncNet B
  | .hello i j h => { s with wire := s.wire ++ ((s.nodes i).helloReply h).map (i, j, ·) }
  | .announce i j block => { s with wire := s.wire ++ [(i, j, .block block)] }
  | .deliver i j message view arrival =>
    let (n, replies) := (s.nodes j).react X view arrival message
    ⟨Function.update s.nodes j n,
      s.wire ++ replies.map (j, i, ·) ++ message.parts.map (i, j, ·)⟩
  | .work i later => { s with nodes := Function.update s.nodes i later }

def Step (X : Externals) (s : SyncNet B) (event : SyncEvent B) (t : SyncNet B) : Prop :=
  t = s.next X event

/-- Messages are delivered that were sent, and work of its own only extends a node's chain. -/
def Fair (s : SyncNet B) : SyncEvent B → Prop
  | .deliver i j message _ _ => (i, j, message) ∈ s.wire
  | .work i later => s.chainOf i <+: later.ledger.chain
  | _ => True

/-- Node `i` has extended `base`, has asked for no more than what is behind its own chain, and no
full chain that is longer is on the way to it. -/
structure Extends (i : Nat) (base : List Block) (s : SyncNet B) : Prop where
  part : base <+: s.chainOf i
  unasked : ∀ j, (i, j, .requestChain) ∉ s.wire
  requests : ∀ j k, (i, j, .requestChainFrom k) ∈ s.wire → 0 < k ∧ k ≤ (s.chainOf i).length
  answers : ∀ j blocks, (j, i, .chain 0 blocks) ∈ s.wire → blocks.length ≤ (s.chainOf i).length

variable {i : Nat} {base : List Block} {s t : SyncNet B}

lemma Extends.grow (inv : Extends i base s) {more : List (Nat × Nat × Message)}
    (wire : t.wire = s.wire ++ more) (part : s.chainOf i <+: t.chainOf i)
    (own : ∀ j m, (i, j, m) ∈ more → m ≠ .requestChain ∧
      ∀ k, m = .requestChainFrom k → 0 < k ∧ k ≤ (t.chainOf i).length)
    (full : ∀ j blocks, (j, i, .chain 0 blocks) ∈ more → blocks.length ≤ (t.chainOf i).length) :
    Extends i base t := by
  have longer := part.length_le
  obtain ⟨begun, unasked, requests, answers⟩ := inv
  refine ⟨begun.trans part, ?_, ?_, ?_⟩ <;> grind

/-- A message other than a longer full chain lets the chain grow at most. -/
theorem react_chain (n : PeerNode B) (view : BlockView B) (arrival : Arrival B) {message : Message}
    (short : ∀ blocks, message = .chain 0 blocks → blocks.length ≤ n.height) :
    n.ledger.chain <+: (n.react X view arrival message).1.ledger.chain := by
  unfold PeerNode.react
  split
  · exact receiveBlock_extends _ _ _
  · exact prefix_rfl
  · exact prefix_rfl
  · rename_i blocks
    have stays : replacesChain X n.ledger (n.chainView arrival.verifierKey) blocks = false := by
      have := short blocks rfl
      simp [replacesChain, adopts, Nat.not_lt.mpr this]
    rw [syncChain, stays]
    exact prefix_rfl
  · exact prefix_rfl

/-- Only a block that is too far ahead makes a node ask for more, from its own length on. -/
theorem react_requests {n : PeerNode B} {view : BlockView B} {arrival : Arrival B}
    {message reply : Message} (sent : reply ∈ (n.react X view arrival message).2) :
    reply = .requestChainFrom n.height ∨ ∃ k blocks, reply = .chain k blocks := by
  unfold PeerNode.react at sent
  grind [chainFrom]

/-- A full chain answers a request for all of it, or one for more than the node has. -/
theorem react_full {n : PeerNode B} {view : BlockView B} {arrival : Arrival B} {message : Message}
    {blocks : List Block} (sent : .chain 0 blocks ∈ (n.react X view arrival message).2) :
    message = .requestChain ∨ ∃ k, message = .requestChainFrom k ∧ (0 < k → blocks.length < k) := by
  unfold PeerNode.react at sent
  grind [chainFrom]

lemma Extends.step (grown : 1 < base.length) (inv : Extends i base s) (event : SyncEvent B)
    (fair : s.Fair event) : Extends i base (s.next X event) := by
  have long := inv.part.length_le
  cases event with
  | hello a b h =>
    refine inv.grow rfl prefix_rfl (fun j m sent => ?_) fun j blocks sent => ?_ <;>
      simp only [helloReply] at sent <;> grind [next]
  | announce a b block =>
    exact inv.grow rfl prefix_rfl (fun j m sent => by simp_all) (by simp)
  | work a later =>
    refine inv.grow (append_nil _).symm ?_ (by simp) (by simp)
    simp only [next, chainOf, Function.update_apply]
    split
    · rename_i same
      exact same ▸ fair
    · exact prefix_rfl
  | deliver a b message view arrival =>
    have part : s.chainOf i <+: (s.next X (.deliver a b message view arrival)).chainOf i := by
      simp only [next, chainOf, Function.update_apply]
      split
      · rename_i same
        subst same
        refine react_chain _ view arrival fun blocks full => inv.answers a blocks ?_
        exact full ▸ fair
      · exact prefix_rfl
    have longer := part.length_le
    have single : ∀ m ∈ message.parts, ∃ block, m = .block block := by
      unfold Message.parts
      grind
    have wire : (s.next X (.deliver a b message view arrival)).wire = s.wire ++
        (((s.nodes b).react X view arrival message).2.map (b, a, ·) ++
          message.parts.map (a, b, ·)) := append_assoc _ _ _
    have unasked := inv.unasked
    have requests := inv.requests
    refine inv.grow wire part (fun j m sent => ?_) fun j blocks sent => ?_ <;>
      simp only [mem_append, mem_map, Prod.mk.injEq] at sent
    · grind [react_requests]
    · grind [react_full, Fair]

lemma Extends.run (grown : 1 < base.length) (inv : Extends i base s)
    (run : Reaches (Step X) Fair s t) : Extends i base t := by
  refine run.invariant (fun u event w kept fair step => ?_) inv
  rw [step]
  exact kept.step grown event fair

/-- Along every run of a network that starts with nothing under way: a node that had a block after
genesis only extends its chain, and where two such nodes differ they differ for good. -/
theorem forks_are_permanent (X : Externals) {start middle final : SyncNet B}
    (quiet : start.wire = []) (before : Reaches (Step X) Fair start middle)
    (later : Reaches (Step X) Fair middle final) :
    (∀ i, 1 < (start.chainOf i).length →
      middle.chainOf i <+: final.chainOf i) ∧
    ∀ i j (h : Nat) a b, 1 < (start.chainOf i).length →
      1 < (start.chainOf j).length →
      (middle.chainOf i)[h]? = some a → (middle.chainOf j)[h]? = some b →
      a ≠ b → (final.chainOf i)[h]? ≠ (final.chainOf j)[h]? := by
  have extended i (grown : 1 < (start.chainOf i).length) :
      middle.chainOf i <+: final.chainOf i := by
    have begun : Extends i (start.chainOf i) start :=
      ⟨prefix_rfl, by simp [quiet], by simp [quiet], by simp [quiet]⟩
    have inv := begun.run grown before
    have rebased : Extends i (middle.chainOf i) middle :=
      { inv with part := prefix_rfl }
    exact (rebased.run (grown.trans_le inv.part.length_le) later).part
  refine ⟨extended, fun i j h a b grown grown' own other differ => ?_⟩
  have kept := prefix_iff_getElem?.mp (extended i grown)
  have kept' := prefix_iff_getElem?.mp (extended j grown')
  grind

/-- Node `0` has four blocks after genesis, and the others have another one there. -/
noncomputable def forked (X : Externals) : SyncNet (Multisig.symbolic 48) where
  nodes i := (emptyNode X).withLedger { (emptyNode X).ledger with
    chain := sealedGenesis X :: if i = 0 then
        [activationBlock X, bftBlock X "a", (bftBlock X "a").after X [],
          ((bftBlock X "a").after X []).after X []]
      else [{ activationBlock X with hash := (activationBlock X).hash ++ "!" }] }
  wire := []

def openView (n : PeerNode B) : BlockView B := undisturbedView n.ledger (openState B)

lemma hash_apart (hash : String) : hash ≠ hash ++ "!" := by
  intro same
  simpa using congrArg String.length same

theorem forked_stays :
    let X := Externals.plain 0
    let asked := (forked X).next X (.hello 1 0 { farmHello with chainLength := 5 })
    let answered := asked.next X
      (.deliver 1 0 (.requestChainFrom 2) (openView (asked.nodes 0)) strangerArrival)
    (answered.chainOf 0)[1]? ≠ (answered.chainOf 1)[1]? := by
  intro X asked answered
  have first : Reaches (Step X) Fair (forked X) asked := (Reaches.refl _).tail
    (.hello 1 0 _) trivial rfl
  have second : Reaches (Step X) Fair asked answered :=
    (Reaches.refl asked).tail _ (mem_singleton.mpr rfl) rfl
  refine (forks_are_permanent X rfl first second).2 0 1 1 _ _ (by decide) (by decide) rfl rfl ?_
  exact fun same => hash_apart _ (congrArg Block.hash same)

end SyncNet

namespace PeerNode

variable {view : PeerNode B → BlockView B} {arrival : Arrival B} {n peer : PeerNode B}

def reactAll (X : Externals) (view : PeerNode B → BlockView B) (arrival : Arrival B)
    (n : PeerNode B) : List Message → PeerNode B × List Message
  | [] => (n, [])
  | message :: later =>
    let (n, replies) := n.react X (view n) arrival message
    let (n, more) := reactAll X view arrival n later
    (n, replies ++ more)

lemma reactAll_same {reply : Message} {messages : List Message}
    (same : ∀ m ∈ messages, n.react X (view n) arrival m = (n, [reply])) :
    n.reactAll X view arrival messages = (n, List.replicate messages.length reply) := by
  induction messages with
  | nil => rfl
  | cons m later ih =>
    obtain ⟨now, rest⟩ := forall_mem_cons.mp same
    simp [reactAll, now, ih rest, replicate_succ]

lemma reactAll_append (messages later : List Message) :
    n.reactAll X view arrival (messages ++ later) =
      let (next, replies) := n.reactAll X view arrival messages
      let (last, more) := next.reactAll X view arrival later
      (last, replies ++ more) := by
  induction messages generalizing n with
  | nil => rfl
  | cons m messages ih => simp [reactAll, ih]

/-- A round: the peer answers every request, and the node handles every answer. -/
def catchUpRound (X : Externals) (view : PeerNode B → BlockView B) (arrival : Arrival B)
    (peer : PeerNode B) (s : PeerNode B × List Message) : PeerNode B × List Message :=
  s.1.reactAll X view arrival (s.2.flatMap fun request =>
    (peer.react X (view peer) arrival request).2.flatMap fun answer => answer :: answer.parts)

/-- The peer is heard, and its block at the node's height has another predecessor. -/
structure Forked (X : Externals) (v : BlockView B) (n peer : PeerNode B) : Prop where
  tip : v.tip = n.ledger
  heard : ∃ address, v.sender = some address ∧
    v.registry.isReadOnly address (activeSetAtTip X v.gating.1 v.gating.2) = false
  timely : ∀ b ∈ peer.ledger.chain, timestampWithinFutureWindow b.index b.timestamp v.nowSecs = true
  heights : ∀ (h : Nat) b, peer.ledger.chain[h]? = some b → b.index = h
  apart : ∃ own fork, n.ledger.chain.getLast? = some own ∧
    peer.ledger.chain[n.height]? = some fork ∧ fork.previousHash ≠ own.hash

lemma Forked.react (forked : Forked X (view n) n peer) {h : Nat} {b : Block}
    (at_ : peer.ledger.chain[h]? = some b) (missing : n.height ≤ h) :
    n.react X (view n) arrival (.block b) =
      (n, if n.height < h then [.requestChainFrom n.height] else []) := by
  obtain ⟨address, sender, writer⟩ := forked.heard
  obtain ⟨own, fork, last, other, apart⟩ := forked.apart
  have timely := forked.timely b (mem_of_getElem? at_)
  have refused (same : fork = b) : (b.chainsTo X own).isOk = false := by
    rw [Bool.eq_false_iff, Ne, isOk_iff, Block.chainsTo_iff]
    grind
  have index := forked.heights h b at_
  have verdict : (view n).verdict X b = if n.height < h then .tooFarAhead else .rejected := by
    simp only [BlockView.verdict, sender, writer, timely, BlockView.chainVerdict, forked.tip, last]
    grind
  split at verdict <;> simp [PeerNode.react, receiveBlock, *] <;> rfl

lemma Forked.answer (forked : Forked X (view n) n peer) : n.reactAll X view arrival
      ((peer.react X (view peer) arrival (.requestChainFrom n.height)).2.flatMap
        fun answer => answer :: answer.parts) =
      (n, List.replicate (peer.height - (n.height + 1)) (.requestChainFrom n.height)) := by
  obtain ⟨own, fork, last, other, -⟩ := forked.apart
  obtain ⟨inside, -⟩ := List.getElem?_eq_some_iff.mp other
  have suffix : peer.ledger.chain.drop n.height =
      fork :: peer.ledger.chain.drop (n.height + 1) := by
    rw [drop_eq_getElem_cons inside]
    grind
  have first : n.react X (view n) arrival (.block fork) = (n, []) := by
    simpa using forked.react other le_rfl
  have ahead : ∀ m ∈ (peer.ledger.chain.drop (n.height + 1)).map Message.block,
      n.react X (view n) arrival m = (n, [.requestChainFrom n.height]) := by
    intro message sent
    obtain ⟨b, later, rfl⟩ := mem_map.mp sent
    obtain ⟨k, at_⟩ := mem_iff_getElem?.mp later
    rw [getElem?_drop] at at_
    rw [forked.react at_ (by omega), if_pos (by omega)]
  obtain ⟨m, length⟩ : ∃ m, n.height = m + 1 := Nat.exists_eq_succ_of_ne_zero (by grind)
  rw [length] at suffix ahead inside ⊢
  have silent blocks : n.react X (view n) arrival (.chain (m + 1) blocks) = (n, []) := rfl
  have answers : (peer.react X (view peer) arrival (.requestChainFrom (m + 1))).2 =
      [.chain (m + 1) (peer.ledger.chain.drop (m + 1))] := by
    simp [PeerNode.react, chainFrom, inside.le]
  rw [answers]
  simp only [flatMap_cons, flatMap_nil, append_nil, Message.parts, suffix,
    map_cons, reactAll, silent, first, reactAll_same ahead, nil_append, length_map,
    length_drop]

/-- Where the chains forked, the node asks again for every block but the first of each answer. As
long as the peer is two blocks ahead the requests go on, and multiply; the chain stays as it is. -/
theorem fork_multiplies_requests (X : Externals) (view : PeerNode B → BlockView B)
    (arrival : Arrival B) (n peer : PeerNode B) (forked : Forked X (view n) n peer) (rounds : Nat) :
    (catchUpRound X view arrival peer)^[rounds] (n, [.requestChainFrom n.height]) =
      (n, List.replicate ((peer.height - (n.height + 1)) ^ rounds)
        (.requestChainFrom n.height)) := by
  have round (requests : Nat) : catchUpRound X view arrival peer
      (n, List.replicate requests (.requestChainFrom n.height)) =
      (n, List.replicate ((peer.height - (n.height + 1)) * requests)
        (.requestChainFrom n.height)) := by
    induction requests with
    | zero => rfl
    | succ requests ih =>
      rw [catchUpRound] at ih ⊢
      rw [replicate_succ, flatMap_cons, reactAll_append, forked.answer]
      simp only [ih, replicate_append_replicate]
      rw [Nat.mul_succ, Nat.add_comm]
  induction rounds with
  | zero => rfl
  | succ rounds ih => rw [Function.iterate_succ_apply', ih, round, Nat.pow_succ']

theorem forked_asks_again :
    let X := Externals.plain 0
    let n := (SyncNet.forked X).nodes 1
    (catchUpRound X SyncNet.openView strangerArrival ((SyncNet.forked X).nodes 0))^[3]
      (n, [.requestChainFrom 2]) = (n, List.replicate 8 (.requestChainFrom 2)) := by
  intro X n
  refine fork_multiplies_requests X SyncNet.openView strangerArrival n ((SyncNet.forked X).nodes 0)
    ⟨rfl, ⟨"peer", rfl, ?_⟩, ?_, ?_, ⟨_, _, rfl, rfl, SyncNet.hash_apart _⟩⟩ 3
  · rfl
  · intro b listed
    simp [SyncNet.forked, withLedger, ledger] at listed
    rcases listed with rfl | rfl | rfl | rfl | rfl <;> rfl
  · rintro (_ | _ | _ | _ | _ | h) b at_ <;> cases at_ <;> rfl

end PeerNode

end GlassChain
