import GlassChain.Network.Projection

/-!
# After the storage part of a commit

`after_block_commit` goes on with the projections once its block is mirrored in memory, or storage
did not take it. While the chain only grows, the blocks whose storage part is outstanding and those
that finish it account for every new block of the chain, whatever the order of the work and the
failures of the backend.
-/

namespace GlassChain

open Library List Block Work

variable {B : Multisig} {X : Externals}

namespace Work

def blocks : Work → List Block
  | .post block | .mirror block => [block]
  | .adopted | .rebuild | .install _ => []

def outstanding (work : List Work) : List Block := work.flatMap blocks

@[simp]
lemma outstanding_nil : outstanding [] = [] := rfl

@[simp]
lemma outstanding_append (front back : List Work) :
    outstanding (front ++ back) = outstanding front ++ outstanding back := flatMap_append

@[simp]
lemma outstanding_cons (w : Work) (back : List Work) :
    outstanding (w :: back) = w.blocks ++ outstanding back := rfl

@[simp]
lemma outstanding_posts (chain : List Block) : outstanding (chain.map .post) = chain := by
  induction chain with
  | nil => rfl
  | cons block rest ih => simp [blocks, ih]

end Work

def ProjectionEvent.restarts : ProjectionEvent B → Bool
  | .restart _ _ _ => true
  | _ => false

namespace Materialised

/-- The block whose storage part ends with an event: it was mirrored, or storage did not take it. -/
def finished (s : Materialised) : ProjectionEvent B → List Block
  | .work position backend => match s.work[position]? with
    | some (.post block) =>
      if backend.refuses block.index then [block]
      else match s.store.applyBlock block with
        | .ok _ => []
        | .error _ => [block]
    | some (.mirror block) => [block]
    | _ => []
  | _ => []

/-- The chain is not replaced, and a peer's block that is admitted comes in time to extend it. -/
def Grows (X : Externals) (s : Materialised) : ProjectionEvent B → Prop
  | .submit _ | .prepare | .mine _ | .work _ _ => True
  | .block view block => view.verdict X block = .append → s.ledger.extendsTip X block = true
  | .chain view blocks => replacesChain X s.ledger view blocks = false
  | .restart _ _ _ => False

variable {s : Materialised}

lemma Grows.not_restarts {event : ProjectionEvent B} (grows : s.Grows X event) :
    event.restarts = false := by
  cases event with
  | restart verifierKey fresh backend => exact grows.elim
  | _ => rfl

lemma next_restarts {event : ProjectionEvent B} (restarts : event.restarts = true) :
    (s.next X event).work = [] := by
  cases event with
  | restart verifierKey fresh backend => rfl
  | _ => cases restarts

lemma perform_ledger (position : Nat) (backend : Backend) :
    (s.perform position backend).ledger = s.ledger := by
  unfold perform
  repeat' split
  all_goals rfl

private lemma perm_finished (front back : List Work) (block : Block) :
    (outstanding (front ++ back) ++ [block]).Perm
      (outstanding front ++ ([block] ++ outstanding back)) := by
  rw [outstanding_append, append_assoc]
  exact perm_append_comm.append_left _

/-- A piece of work leaves its block outstanding, or finishes its storage part. -/
theorem outstanding_perform (position : Nat) (backend : Backend) :
    (outstanding (s.perform position backend).work ++
      s.finished (.work position backend : ProjectionEvent B)).Perm (outstanding s.work) := by
  rcases found : s.work[position]? with _ | w
  · simp [perform, finished, found]
  obtain ⟨front, back, split, erased, replaced⟩ := exists_split found
  have before : outstanding s.work =
      outstanding front ++ (w.blocks ++ outstanding back) := by simp [split]
  rw [before]
  cases w with
  | post block =>
    simp only [perform, finished, found, erased, replaced]
    split
    · exact perm_finished front back block
    · cases applied : s.store.applyBlock block with
      | ok store => simp [blocks]
      | error e => exact perm_finished front back block
  | mirror block =>
    simp only [perform, finished, found, erased]
    exact perm_finished front back block
  | adopted => simp [perform, finished, found, replaced, blocks]
  | rebuild =>
    simp only [perform, finished, found, erased, replaced]
    split <;> simp [blocks]
  | install world => simp [perform, finished, found, erased, blocks]

/-- What a step that lets the chain grow adds to it becomes outstanding. -/
theorem next_grows {event : ProjectionEvent B} (grows : s.Grows X event) : ∃ new,
    (s.next X event).ledger.chain = s.ledger.chain ++ new ∧
      (outstanding (s.next X event).work ++ s.finished event).Perm
        (outstanding s.work ++ new) := by
  cases event with
  | submit tx =>
    refine ⟨[], ?_, by simp [next, finished]⟩
    obtain e | e | e | ⟨-, -, e⟩ := s.ledger.addTransaction_cases X tx <;> simp [next, e]
  | prepare =>
    refine ⟨[], ?_, by simp [next, finished]⟩
    simp only [next, Ledger.prepareMining, append_nil]
    split <;> rfl
  | mine view => exact ⟨_, Ledger.receive_mine_chain (B := B) view, by simp [next, finished]⟩
  | block view block =>
    simp only [next, finished, append_nil]
    split
    · rename_i admitted
      refine ⟨[block], ?_, by simp [blocks]⟩
      rw [Ledger.appendPeerBlock, if_pos (grows admitted)]
    · exact ⟨[], by simp, by simp⟩
  | chain view blocks =>
    have refused : replacesChain X s.ledger view blocks = false := grows
    exact ⟨[], by simp [next, receiveChain_eq, refused], by simp [next, finished, refused]⟩
  | work position backend =>
    refine ⟨[], ?_, ?_⟩
    · rw [append_nil, next, perform_ledger]
    · rw [append_nil]
      exact outstanding_perform position backend
  | restart verifierKey fresh backend => exact grows.elim

end Materialised

def restockBlock (X : Externals) : Block := (sealedGenesis X).after X [stockTx "restock"]

def restockLedger (X : Externals) : Ledger :=
  { (freshPool X).ledger with chain := [sealedGenesis X, restockBlock X] }

noncomputable def restockStore (X : Externals) : Store :=
  ((Materialised.freshNode X).store.putBlock (restockBlock X)).applyWrites (restockBlock X)

lemma restockBlock_chainsTo (X : Externals) :
    (restockBlock X).chainsTo X (sealedGenesis X) = .ok () := after_chainsTo X _ _

lemma restockStore_holds (X : Externals) :
    (restockStore X).Holds [sealedGenesis X, restockBlock X] :=
  (Materialised.freshNode_quiescent X).1.putBlock rfl

namespace Materialised

noncomputable def restocking (X : Externals) (store : Store) (work : List Work) : Materialised :=
  ⟨restockLedger X, (freshNode X).world, store, work⟩

lemma freshNode_restock (X : Externals) :
    (freshNode X).next X (.block (freshView X) (restockBlock X)) =
      restocking X (freshNode X).store [.post (restockBlock X)] := by
  have silent : (CapabilityHistory.validateBlock X ⟨[]⟩ (restockBlock X)).2 = .ok () := by
    rw [restockBlock, CapabilityHistory.validateBlock_stock]
  have admitted : (freshView X).verdict X (restockBlock X) = .append :=
    fresh_admits (restockBlock_chainsTo X) rfl rfl silent
  simp only [next, admitted, freshNode_start, nil_append,
    freshPool_append (restockBlock_chainsTo X), restocking, restockLedger]

lemma restock_applied (X : Externals) :
    (freshNode X).store.applyBlock (restockBlock X) = .ok (restockStore X) := by
  have stored := (freshNode_quiescent X).1
  exact stored.applyBlock_eq_ok.mpr ⟨⟨rfl, by simp [restockBlock, Block.after, withWriteSet]⟩, rfl⟩

lemma restocking_posted (X : Externals) :
    (restocking X (freshNode X).store [.post (restockBlock X)]).next X
        (.work 0 .healthy : ProjectionEvent B) =
      restocking X (restockStore X) [.mirror (restockBlock X)] ∧
    (restocking X (freshNode X).store [.post (restockBlock X)]).finished
        (.work 0 .healthy : ProjectionEvent B) = [] := by
  simp [next, perform, finished, restocking, Backend.healthy, restock_applied]

lemma restocked_restarts (X : Externals) (work : List Work) :
    ((restocking X (restockStore X) work).next X
      (.restart (sampleKey 1) (freshPool X).ledger .healthy)).ledger = restockLedger X := by
  have admitted : Admitted X 0 [sealedGenesis X, restockBlock X] := by
    have start : Admitted X 0 [sealedGenesis X] := .single rfl (isValid_iff.mpr rfl) rfl
    refine start.snoc rfl (restockBlock_chainsTo X) ?_
    simp [Ledger.blockConsensusAdmissible, hasValidPow, hasLeadingZeros, restockBlock,
      Block.after, withWriteSet]
  have restorable : restorable X (sampleKey 1) 0 [sealedGenesis X, restockBlock X] = true := by
    refine (admitted.restorable_iff (restockStore_holds X).consecutive).mpr (restartable_plain ?_)
    simp [restockBlock, sealedGenesis, genesisBlock, Block.after, withWriteSet]
  have restored : restoreLedger X (sampleKey 1) (restockStore X) (freshPool X).ledger =
      restockLedger X := by
    simp only [restoreLedger, (restockStore_holds X).storedChain]
    exact if_pos restorable
  exact restored

end Materialised

end GlassChain
