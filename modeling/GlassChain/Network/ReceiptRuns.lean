import GlassChain.Library.Calls
import GlassChain.Network.Journal

/-!
# Runs of the vote journal

Votes are recorded and heights retired in any order, from an empty journal on. A context is dropped
when its receipt is retired or evicted, and also when a vote for it is refused because the journal
is full and holds no lower height. Between two drops a context holds its first vote.
-/

namespace GlassChain

open Library

inductive JournalCall where
  | record (v : BftVote)
  | retireBelow (height : Nat)

inductive JournalAnswer where
  | recorded (proof : Option EquivocationProof)
  /-- How many receipts were dropped. -/
  | retired (count : Nat)

namespace VoteReceipts

def empty : VoteReceipts := ⟨∅⟩

def call (r : VoteReceipts) : JournalCall → VoteReceipts × JournalAnswer
  | .record v => ((r.record v).1, .recorded (r.record v).2)
  | .retireBelow height => (r.retireBelow height,
      .retired (r.seen.entries.length - (r.retireBelow height).seen.entries.length))

def run (calls : List JournalCall) : VoteReceipts := after call empty calls

@[simp]
lemma run_concat (calls : List JournalCall) (c : JournalCall) :
    run (calls ++ [c]) = ((run calls).call c).1 := after_concat empty calls c

def votesFor (key : ReceiptKey) (calls : List JournalCall) : List BftVote :=
  calls.filterMap fun c => match c with
    | .record v => if receiptKey v = key then some v else none
    | .retireBelow _ => none

/-- A receipt is retired, or evicted from a full journal for a vote of a new context; or the vote is
refused, as the journal is full and holds no lower height. -/
def Drops (r : VoteReceipts) : JournalCall → ReceiptKey → Prop
  | .retireBelow height, key => r.seen.lookup key ≠ none ∧ key.1 < height
  | .record v, key => r.seen.lookup (receiptKey v) = none ∧
      voteReceiptCap ≤ r.seen.entries.length ∧
      (r.seen.lookup key ≠ none ∧ key.1 < v.height ∨
        key = receiptKey v ∧ r.heldFrom v.height = r.seen.entries.length)

/-- `front` is the run up to the last drop of a context, and `back` the calls since. -/
structure LastDrop (key : ReceiptKey) (front back : List JournalCall) : Prop where
  dropped : front = [] ∨ ∃ past c, front = past ++ [c] ∧ (run past).Drops c key
  kept : ∀ mid c, mid ++ [c] <+: back → ¬(run (front ++ mid)).Drops c key

variable {r : VoteReceipts} {v w : BftVote} {key : ReceiptKey} {c : JournalCall}

lemma record_proof (r : VoteReceipts) (v : BftVote) (proof : EquivocationProof) :
    (r.record v).2 = some proof ↔ ∃ first, r.seen.lookup (receiptKey v) = some first ∧
      first.blockHash ≠ v.blockHash ∧
      proof = ⟨v.height, v.round, v.phase, v.publicKey, first, v⟩ := by
  rcases r.record_cases v with ⟨first, held, ⟨other, eq⟩ | ⟨same, eq⟩⟩ |
    ⟨new, ⟨-, eq⟩ | ⟨-, ⟨-, eq⟩ | ⟨-, eq⟩⟩⟩
  · rw [eq, held]
    constructor
    · rintro ⟨⟩
      exact ⟨first, rfl, other, rfl⟩
    · rintro ⟨_, ⟨⟩, -, rfl⟩
      rfl
  · rw [eq, held]
    simp [same]
  all_goals
    rw [eq, new]
    simp

/-- A call leaves a context empty if it drops it, and else leaves its receipt or enters the vote
that it brings. -/
theorem lookup_call (r : VoteReceipts) (c : JournalCall) (key : ReceiptKey) :
    (r.Drops c key → (r.call c).1.seen.lookup key = none) ∧
    (¬r.Drops c key →
      (r.call c).1.seen.lookup key = (r.seen.lookup key).or (votesFor key [c]).head?) := by
  cases c with
  | retireBelow height =>
    simp only [call, retireBelow, lookup_retain, votesFor, Drops]
    grind
  | record v =>
    have votes : votesFor key [.record v] = if receiptKey v = key then [v] else [] := by
      simp only [votesFor]
      grind
    simp only [call, votes, Drops]
    rcases r.record_cases v with ⟨first, held, ⟨-, eq⟩ | ⟨-, eq⟩⟩ |
      ⟨new, ⟨room, eq⟩ | ⟨full, ⟨freed, eq⟩ | ⟨all, eq⟩⟩⟩ <;> rw [eq]
    · grind
    · grind
    · by_cases own : key = receiptKey v
      · subst own
        grind [AList.lookup_insert]
      · grind [AList.lookup_insert_ne]
    · by_cases own : key = receiptKey v
      · subst own
        grind [AList.lookup_insert]
      · grind [AList.lookup_insert_ne, lookup_retain]
    · grind [lookup_retain]

/-- Recording evicts nothing from the height of the vote on. -/
theorem record_keeps (held : r.seen.lookup key = some w) (high : v.height ≤ key.1) :
    (r.record v).1.seen.lookup key = some w := by
  have kept : ¬r.Drops (.record v) key := by grind [Drops]
  simpa [call, held] using (r.lookup_call (.record v) key).2 kept

/-- A vote of a new context is refused exactly by a journal that is full from its height on. -/
theorem record_refuses_iff (small : r.seen.entries.length ≤ voteReceiptCap)
    (new : r.seen.lookup (receiptKey v) = none) :
    (r.record v).1.seen.lookup (receiptKey v) = none ↔ r.heldFrom v.height = voteReceiptCap := by
  have bound : r.heldFrom v.height ≤ r.seen.entries.length := r.length_retain_le v.height
  obtain ⟨refused, entered⟩ := r.lookup_call (.record v) (receiptKey v)
  simp only [Drops, call] at refused entered
  grind [votesFor]

lemma length_call_le (small : r.seen.entries.length ≤ voteReceiptCap) (c : JournalCall) :
    (r.call c).1.seen.entries.length ≤ voteReceiptCap := by
  cases c with
  | retireBelow height => exact (r.length_retain_le height).trans small
  | record v =>
    have retained := r.length_retain_le v.height
    simp only [call]
    rcases r.record_cases v with ⟨_, -, ⟨-, eq⟩ | ⟨-, eq⟩⟩ |
      ⟨-, ⟨room, eq⟩ | ⟨-, ⟨freed, eq⟩ | ⟨-, eq⟩⟩⟩
    · rwa [eq]
    · rwa [eq]
    · rw [eq]
      exact (r.length_insert_le v).trans room
    · rw [eq]
      exact ((r.retain v.height).length_insert_le v).trans (freed.trans_le small)
    · rw [eq]
      exact retained.trans small

/-- Since its last drop, a context holds the first vote recorded for it. -/
theorem lookup_run (calls : List JournalCall) (key : ReceiptKey) :
    ∃ front back, calls = front ++ back ∧ LastDrop key front back ∧
      (run calls).seen.lookup key = (votesFor key back).head? := by
  induction calls using List.reverseRecOn with
  | nil => exact ⟨[], [], rfl, ⟨.inl rfl, by simp⟩, rfl⟩
  | append_singleton calls c ih =>
    obtain ⟨front, back, rfl, last, held⟩ := ih
    by_cases drops : (run (front ++ back)).Drops c key
    · refine ⟨front ++ back ++ [c], [], by simp, ⟨.inr ⟨_, c, rfl, drops⟩, by simp⟩, ?_⟩
      rw [run_concat]
      exact (lookup_call _ c key).1 drops
    · refine ⟨front, back ++ [c], by simp, ⟨last.dropped, fun mid c' sub => ?_⟩, ?_⟩
      · rcases List.prefix_concat_iff.mp sub with whole | shorter
        · obtain ⟨rfl, rfl⟩ := List.append_inj' whole rfl |>.imp_right List.singleton_inj.mp
          exact drops
        · exact last.kept mid c' shorter
      · have votes : votesFor key (back ++ [c]) = votesFor key back ++ votesFor key [c] :=
          List.filterMap_append
        rw [run_concat, (lookup_call _ c key).2 drops, held, votes, List.head?_append]

/-- After any calls the journal is within its cap, holds for each context the first vote since it
was last dropped, proves an equivocation exactly against a held vote for another hash, never evicts
from the height of the recorded vote on, and refuses a vote only if it is full there. -/
theorem vote_journal_sound (calls : List JournalCall) :
    (run calls).seen.entries.length ≤ voteReceiptCap ∧
    (∀ key, ∃ front back, calls = front ++ back ∧ LastDrop key front back ∧
      (run calls).seen.lookup key = (votesFor key back).head?) ∧
    (∀ v proof, ((run calls).record v).2 = some proof ↔
      ∃ first, (run calls).seen.lookup (receiptKey v) = some first ∧
        first.blockHash ≠ v.blockHash ∧
        proof = ⟨v.height, v.round, v.phase, v.publicKey, first, v⟩) ∧
    (∀ v key w, (run calls).seen.lookup key = some w → v.height ≤ key.1 →
      ((run calls).record v).1.seen.lookup key = some w) ∧
    ∀ v, (run calls).seen.lookup (receiptKey v) = none →
      (((run calls).record v).1.seen.lookup (receiptKey v) = none ↔
        (run calls).heldFrom v.height = voteReceiptCap) := by
  have small : (run calls).seen.entries.length ≤ voteReceiptCap :=
    after_invariant (I := fun r : VoteReceipts => r.seen.entries.length ≤ voteReceiptCap)
      (fun r c small => length_call_le small c) (Nat.zero_le _) calls
  exact ⟨small, lookup_run calls, (run calls).record_proof, fun v key w => record_keeps,
    fun v => record_refuses_iff small⟩

end VoteReceipts

end GlassChain
