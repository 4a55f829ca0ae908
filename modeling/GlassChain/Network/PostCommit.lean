import GlassChain.Network.Finality
import GlassChain.Library.Tasks

/-!
# Post-commit effects

`after_block_commit` performs its effects for a block one after the other, each under its own locks,
while other tasks append, mine and replace chains. Mining calls it for the block it committed. The
handling of a peer's block calls it whatever `append_peer_block` answered, so a block that two peers
race runs its effects twice and is appended once. Effects and appended blocks correspond exactly in
the runs in which no admitted peer block comes too late.
-/

namespace GlassChain

open Library List Ledger

variable {B : Multisig} {X : Externals}

/-- What `after_block_commit` does for a block. -/
inductive PostCommitEffect where
  | storage
  | indexer
  | eventBus
  | provenance
  | flattener
  | watcher
  deriving DecidableEq, Repr

def postCommitEffects : List PostCommitEffect :=
  [.storage, .indexer, .eventBus, .provenance, .flattener, .watcher]

/-- The ledger, the blocks appended to it so far and the post-commit tasks. -/
structure Committing where
  ledger : Ledger
  appended : List Block
  tasks : Tasks Block PostCommitEffect

/-- What happens in a node, as far as appending and its effects go. A suffix is a block message for
each of its blocks; the orders a watcher generates are submissions. -/
inductive CommitEvent (B : Multisig) where
  | submit (tx : Transaction)
  | prepare
  | mine (view : MiningView)
  | block (view : BlockView B) (block : Block)
  | chain (view : ChainView B) (blocks : List Block)
  /-- A post-commit task performs its next effect. -/
  | effect (position : Nat)

namespace Committing

/-- `append_peer_block`, then `after_block_commit` in any case. -/
def commitPeer (X : Externals) (s : Committing) (block : Block) : Committing :=
  match s.ledger.appendPeerBlock X block with
  | (ledger, pushed) =>
    { ledger := ledger
      appended := if pushed then s.appended ++ [block] else s.appended
      tasks := s.tasks.start postCommitEffects block }

/-- The end of `mine_async`: `after_block_commit` for the block that was committed. -/
def commitMined (X : Externals) (s : Committing) (view : MiningView) : Committing :=
  let ledger := s.ledger.receive X (.mine view : LedgerInput B)
  match ({ view with finishing := s.ledger } : MiningView).committed X with
  | none => { s with ledger := ledger }
  | some block =>
    { ledger := ledger
      appended := s.appended ++ [block]
      tasks := s.tasks.start postCommitEffects block }

def next (X : Externals) (s : Committing) : CommitEvent B → Committing
  | .submit tx => { s with ledger := (s.ledger.addTransaction X tx).1 }
  | .prepare => { s with ledger := s.ledger.prepareMining.1 }
  | .mine view => s.commitMined (B := B) X view
  | .block view block => match view.verdict X block with
    | .append => s.commitPeer X block
    | _ => s
  | .chain view blocks => { s with ledger := receiveChain X s.ledger view blocks }
  | .effect position => { s with tasks := s.tasks.perform position }

def run (X : Externals) (s : Committing) (events : List (CommitEvent B)) : Committing :=
  events.foldl (next X) s

def start (L : Ledger) : Committing := ⟨L, [], .idle⟩

/-- Every effect was performed, or is still to be performed by a running task, exactly once for each
appended block, and for no other block. -/
def Exact (s : Committing) : Prop := ∀ effect, (s.tasks.due effect).Perm s.appended

/-- An admitted peer block no longer extends the tip when it is to be appended. -/
def Late (X : Externals) (s : Committing) : CommitEvent B → Prop
  | .block view block => view.verdict X block = .append ∧ s.ledger.extendsTip X block = false
  | _ => False

variable {s : Committing} {event : CommitEvent B}

lemma due_start (tasks : Tasks Block PostCommitEffect) (block : Block)
    (effect : PostCommitEffect) :
    (tasks.start postCommitEffects block).due effect = tasks.due effect ++ [block] := by
  rw [Tasks.due_start]
  cases effect <;> rfl

/-- In time, an event makes effects due for the blocks it appends. -/
theorem next_of_not_late (inTime : ¬s.Late X event) : ∃ new,
    (∀ effect, ((s.next X event).tasks.due effect).Perm (s.tasks.due effect ++ new)) ∧
      (s.next X event).appended = s.appended ++ new := by
  cases event with
  | mine view =>
    simp only [next, commitMined]
    split
    · exact ⟨[], by simp, by simp⟩
    · rename_i block _
      exact ⟨[block], fun effect => by rw [due_start], rfl⟩
  | block view block =>
    simp only [next]
    split
    · rename_i admitted
      have extending : s.ledger.extendsTip X block = true := by
        simpa [Late, admitted] using inTime
      refine ⟨[block], fun effect => ?_, ?_⟩
      · rw [commitPeer, due_start]
      · simp [commitPeer, appendPeerBlock, extending]
    · exact ⟨[], by simp, by simp⟩
  | effect position =>
    exact ⟨[], fun effect => by simpa [next] using s.tasks.due_perform effect position,
      by simp [next]⟩
  | _ => exact ⟨[], by simp [next], by simp [next]⟩

/-- Too late, effects become due for a block that is not appended. -/
theorem next_of_late (late : s.Late X event) : ∃ block,
    (∀ effect, (s.next X event).tasks.due effect = s.tasks.due effect ++ [block]) ∧
      (s.next X event).appended = s.appended := by
  cases event with
  | block view block =>
    obtain ⟨admitted, stale⟩ := late
    refine ⟨block, fun effect => ?_, ?_⟩
    · simp only [next, admitted, commitPeer, due_start]
    · simp [next, admitted, commitPeer, appendPeerBlock, stale]
  | _ => exact late.elim

def Covered (s : Committing) : Prop := ∀ effect, s.appended.length ≤ (s.tasks.due effect).length

def Ahead (s : Committing) : Prop := ∀ effect, s.appended.length < (s.tasks.due effect).length

lemma Exact.next (exact_ : s.Exact) (inTime : ¬s.Late X event) : (s.next X event).Exact := by
  obtain ⟨new, due, appended⟩ := next_of_not_late inTime
  intro effect
  rw [appended]
  exact (due effect).trans ((exact_ effect).append_right new)

lemma length_next (s : Committing) (event : CommitEvent B) (effect : PostCommitEffect) :
    (s.next X event).appended.length + (s.tasks.due effect).length ≤
      s.appended.length + ((s.next X event).tasks.due effect).length := by
  by_cases late : s.Late X event
  · obtain ⟨block, due, appended⟩ := next_of_late late
    simp only [due, appended, length_append]
    omega
  · obtain ⟨new, due, appended⟩ := next_of_not_late late
    simp only [(due effect).length_eq, appended, length_append]
    omega

lemma Covered.next (covered : s.Covered) : (s.next X event).Covered := by
  intro effect
  have := s.length_next (X := X) event effect
  have := covered effect
  omega

lemma Ahead.next (ahead : s.Ahead) : (s.next X event).Ahead := by
  intro effect
  have := s.length_next (X := X) event effect
  have := ahead effect
  omega

lemma Covered.late (covered : s.Covered) (late : s.Late X event) : (s.next X event).Ahead := by
  obtain ⟨block, due, appended⟩ := next_of_late late
  intro effect
  have := covered effect
  simp only [due, appended, length_append, length_singleton]
  omega

end Committing

namespace Committing

variable {L : Ledger} {events : List (CommitEvent B)}

lemma run_append (s : Committing) (before after : List (CommitEvent B)) :
    s.run X (before ++ after) = (s.run X before).run X after := by
  simp [run]

lemma covered_run (events : List (CommitEvent B)) : ((start L).run X events).Covered := by
  induction events using List.reverseRecOn with
  | nil => simp [run, Covered, start]
  | append_singleton before event ih =>
    rw [run_append]
    exact ih.next

lemma Ahead.run {s : Committing} (ahead : s.Ahead) (events : List (CommitEvent B)) :
    (s.run X events).Ahead := by
  induction events using List.reverseRecOn with
  | nil => exact ahead
  | append_singleton before event ih =>
    rw [run_append]
    exact ih.next

/-- In every interleaving the effects performed and due are those of the appended blocks, once each,
exactly when every admitted peer block still extends the tip at the moment it is appended. -/
theorem effects_exact_iff (X : Externals) (L : Ledger) (events : List (CommitEvent B)) :
    ((start L).run X events).Exact ↔
      ∀ before view block after, events = before ++ .block view block :: after →
        view.verdict X block = .append →
          ((start L).run X before).ledger.extendsTip X block = true := by
  constructor
  · rintro exact_ before view block after rfl admitted
    by_contra stale
    have late : ((start L).run X before).Late X (.block view block) := ⟨admitted, by simpa using stale⟩
    have ahead : ((start L).run X (before ++ .block view block :: after)).Ahead := by
      rw [run_append]
      exact ((covered_run before).late late).run after
    exact absurd (exact_ .storage).length_eq (ahead .storage).ne'
  · intro inTime
    induction events using List.reverseRecOn with
    | nil => simp [run, Exact, start]
    | append_singleton before event ih =>
      rw [run_append]
      refine (ih fun front view block back split => ?_).next fun late => ?_
      · exact inTime front view block (back ++ [event]) (by simp [split])
      · cases event with
        | block view block =>
          have extending := inTime before view block [] rfl late.1
          exact absurd (extending.symm.trans late.2) (by simp)
        | _ => exact late

/-- An undisturbed node admits the next block of difficulty zero. -/
theorem undisturbed_admits (X : Externals) :
    (undisturbedView (bftLedger X 0) (soloState X)).verdict X (bftBlock X "a") = .append := by
  obtain ⟨-, gates⟩ := undisturbedView_gates X 0
    (show (soloState X).toCommitState = bftCommitState X from rfl) "a"
  refine BlockView.verdict_eq_append.mpr ⟨gates, ?_⟩
  simp [BlockView.consensusValid, bftBlock, Block.after, Block.withWriteSet, undisturbedView,
    bftLedger, Block.hasValidPow, hasLeadingZeros]

lemma extendsTip_appended (L : Ledger) (block : Block) :
    (L.appendPeerBlock X block).1.extendsTip X block = true →
      (L.appendPeerBlock X block).2 = false := by
  unfold appendPeerBlock
  split
  · intro again
    have chains : block.chainsTo X block = .ok () := by
      simpa [extendsTip, isOk_iff] using again
    have index := (Block.chainsTo_iff.mp chains).2.1
    omega
  · exact fun _ => rfl

/-- A block that two peers send at the same time is admitted twice and appended once; its effects
run for both. -/
theorem raced_block_effects_twice : ∃ (view : BlockView (Multisig.symbolic 48)) (block : Block),
    let s := (start (bftLedger (.plain 0) 0)).run (.plain 0) [.block view block, .block view block]
    s.appended = [block] ∧ ∀ effect, s.tasks.due effect = [block, block] := by
  have admitted := undisturbed_admits (.plain 0)
  have pushed : ((bftLedger (.plain 0) 0).appendPeerBlock (.plain 0)
      (bftBlock (.plain 0) "a")).2 = true := by
    have extending : (bftLedger (.plain 0) 0).extendsTip (.plain 0) (bftBlock (.plain 0) "a") =
        true := isOk_iff.mpr (Block.after_chainsTo _ _ _)
    rw [appendPeerBlock, if_pos extending]
  have stale : (((bftLedger (.plain 0) 0).appendPeerBlock (.plain 0)
      (bftBlock (.plain 0) "a")).1.appendPeerBlock (.plain 0) (bftBlock (.plain 0) "a")).2 = false := by
    rw [appendPeerBlock, if_neg]
    intro extending
    simp [extendsTip_appended _ _ extending] at pushed
  refine ⟨undisturbedView (bftLedger (.plain 0) 0) (soloState (.plain 0)),
    bftBlock (.plain 0) "a", ?_, fun effect => ?_⟩
  · simp [run, next, admitted, commitPeer, start, pushed, stale]
  · simp only [run, foldl_cons, foldl_nil, next, admitted, commitPeer, due_start, start,
      Tasks.due_idle, nil_append, cons_append]

end Committing

end GlassChain
