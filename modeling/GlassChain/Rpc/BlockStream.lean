import Mathlib

/-!
# Streamed blocks

`stream_blocks` subscribes to the node's events, then copies the blocks of the ledger, then follows
the events. A block that is appended before the copy and announced after the subscription is
delivered by both, and a block is announced after the ledger's lock was released, so the stream is
exact only where the announcements since the subscription are of blocks appended after the copy, in
their order.
-/

namespace GlassChain

open List

/-- Blocks are named by their index, which does not change while the chain is only appended to. -/
structure BlockStream where
  length : Nat
  /-- Appended and not yet announced. -/
  pending : List Nat
  subscribed : Bool
  /-- The length of the ledger when its blocks were copied. -/
  copied : Option Nat
  /-- Announced since the subscription, in order. -/
  events : List Nat
  /-- How many of them the loop has received. -/
  received : Nat
  delivered : List Nat

inductive StreamStep where
  | append
  | announce (index : Nat)
  | subscribe
  | copy
  | receive

namespace BlockStream

def new : BlockStream := ⟨1, [], false, none, [], 0, []⟩

def step (start : Nat) (s : BlockStream) : StreamStep → BlockStream
  | .append => { s with length := s.length + 1, pending := s.pending ++ [s.length] }
  | .announce index =>
    if index ∈ s.pending then
      { s with
        pending := s.pending.erase index
        events := if s.subscribed then s.events ++ [index] else s.events }
    else s
  | .subscribe => { s with subscribed := true }
  | .copy =>
    if s.subscribed ∧ s.copied = none then
      { s with copied := some s.length, delivered := List.range' start (s.length - start) }
    else s
  | .receive =>
    match s.copied, s.events[s.received]? with
    | some _, some index =>
      { s with
        received := s.received + 1
        delivered := if start ≤ index ∧ index < s.length then s.delivered ++ [index]
          else s.delivered }
    | _, _ => s

def run (start : Nat) (steps : List StreamStep) : BlockStream := steps.foldl (step start) new

/-- Every block was announced, and every announcement received. -/
def Settled (s : BlockStream) : Prop := s.pending = [] ∧ s.received = s.events.length

structure Sound (start : Nat) (s : BlockStream) : Prop where
  once : (s.pending ++ s.events).Nodup
  appended : ∀ i ∈ s.pending ++ s.events, i < s.length
  quiet : s.subscribed = false → s.copied = none
  idle : s.copied = none → s.received = 0
  behind : s.received ≤ s.events.length
  known : ∀ n, s.copied = some n → n ≤ s.length ∧
    (∀ i, n ≤ i → i < s.length → i ∈ s.pending ++ s.events) ∧
    s.delivered = List.range' start (n - start) ++ (s.events.take s.received).filter (start ≤ ·)

variable {start : Nat} {s : BlockStream}

/-- No step of the stream breaks what it guarantees. -/
lemma Sound.step (sound : s.Sound start) (event : StreamStep) : (s.step start event).Sound start := by
  obtain ⟨once, appended, quiet, idle, behind, known⟩ := sound
  cases event with
  | append =>
    have fresh : s.length ∉ s.pending ++ s.events := fun member => (appended _ member).ne rfl
    have shifted : (s.pending ++ [s.length] ++ s.events).Perm
        (s.length :: (s.pending ++ s.events)) := by
      simp [perm_middle]
    refine ⟨shifted.nodup_iff.mpr (.cons fresh once), fun i member => ?_, quiet, idle, behind,
      fun n copied => ?_⟩
    · have := shifted.mem_iff.mp member
      grind [BlockStream.step]
    · have := known n copied
      refine ⟨by grind [BlockStream.step], fun i lower upper => shifted.mem_iff.mpr ?_, this.2.2⟩
      grind [BlockStream.step]
  | announce index =>
    by_cases waiting : index ∈ s.pending
    · simp only [BlockStream.step, if_pos waiting]
      have rest := (perm_cons_erase waiting).append_right s.events
      cases listening : s.subscribed with
      | false =>
        have apart := nodup_cons.mp (rest.nodup_iff.mp once)
        have none := quiet listening
        exact ⟨apart.2, fun i member => appended i (rest.mem_iff.mpr (.tail _ member)),
          fun _ => none, idle, behind, by simp [none]⟩
      | true =>
        have moved : (s.pending.erase index ++ (s.events ++ [index])).Perm (s.pending ++ s.events) := by
          rw [← append_assoc]
          exact (perm_append_singleton _ _).trans rest.symm
        refine ⟨moved.nodup_iff.mpr once, fun i member => appended i (moved.mem_iff.mp member),
          nofun, idle, by simp; omega, fun n copied => ?_⟩
        obtain ⟨within, complete, delivered⟩ := known n copied
        refine ⟨within, fun i lower upper => moved.mem_iff.mpr (complete i lower upper), ?_⟩
        simp [delivered, take_append_of_le_length behind]
    · simp only [BlockStream.step, if_neg waiting]
      exact ⟨once, appended, quiet, idle, behind, known⟩
  | subscribe => exact ⟨once, appended, nofun, idle, behind, known⟩
  | copy =>
    by_cases ready : s.subscribed ∧ s.copied = none
    · simp only [BlockStream.step, if_pos ready]
      refine ⟨once, appended, by simp [ready.1], nofun, behind, fun n same => ?_⟩
      cases same
      exact ⟨le_rfl, fun i lower upper => absurd upper lower.not_gt, by simp [idle ready.2]⟩
    · simp only [BlockStream.step, if_neg ready]
      exact ⟨once, appended, quiet, idle, behind, known⟩
  | receive =>
    cases copied : s.copied with
    | none => simpa only [BlockStream.step, copied] using ⟨once, appended, quiet, idle, behind, known⟩
    | some n =>
      cases next : s.events[s.received]? with
      | none =>
        simpa only [BlockStream.step, copied, next] using ⟨once, appended, quiet, idle, behind, known⟩
      | some index =>
        obtain ⟨within, complete, delivered⟩ := known n copied
        obtain ⟨there, rfl⟩ := List.getElem?_eq_some_iff.mp next
        have below := appended _ (mem_append_right s.pending (getElem_mem there))
        simp only [BlockStream.step, copied, next]
        refine ⟨once, appended, by simpa [copied] using quiet, nofun, there, fun m same => ?_⟩
        cases same
        refine ⟨within, complete, ?_⟩
        rw [take_add_one, next, filter_append, ← append_assoc, ← delivered]
        by_cases wanted : start ≤ s.events[s.received] <;> simp [wanted, below]

lemma sound_run (start : Nat) (steps : List StreamStep) : (run start steps).Sound start := by
  induction steps using List.reverseRecOn with
  | nil => exact ⟨.nil, nofun, fun _ => rfl, fun _ => rfl, le_rfl, nofun⟩
  | append_singleton steps event ih =>
    rw [run, foldl_append]
    exact ih.step event

end BlockStream

/-- A settled stream has delivered the blocks from the start on, once each and in order, exactly
when no announcement that it received is of a block it had copied and they came in order. -/
theorem stream_exact_iff (start : Nat) (steps : List StreamStep) (n : Nat)
    (copied : (BlockStream.run start steps).copied = some n)
    (settled : (BlockStream.run start steps).Settled) :
    (BlockStream.run start steps).delivered =
        List.range' start ((BlockStream.run start steps).length - start) ↔
      (∀ i ∈ (BlockStream.run start steps).events, start ≤ i → n ≤ i) ∧
        ((BlockStream.run start steps).events.filter (start ≤ ·)).Pairwise (· < ·) := by
  obtain ⟨once, appended, -, -, -, known⟩ := BlockStream.sound_run start steps
  generalize BlockStream.run start steps = s at *
  obtain ⟨pending, received⟩ := settled
  obtain ⟨within, complete, delivered⟩ := known n copied
  rw [received, take_length] at delivered
  rw [pending, nil_append] at once appended complete
  have increasing : (List.range' start (s.length - start)).Pairwise (· < ·) := pairwise_lt_range'
  rw [delivered]
  constructor
  · intro exact
    rw [← exact, pairwise_append] at increasing
    refine ⟨fun i member lower => ?_, increasing.2.1⟩
    by_contra held
    have := increasing.2.2 i (by grind) i (by grind)
    omega
  · rintro ⟨after, ordered⟩
    have sorted : (List.range' start (n - start) ++ s.events.filter (start ≤ ·)).Pairwise (· < ·) :=
      pairwise_append.mpr ⟨pairwise_lt_range', ordered, by grind⟩
    refine Perm.eq_of_pairwise' sorted increasing ?_
    refine (perm_ext_iff_of_nodup (sorted.imp ne_of_lt) (increasing.imp ne_of_lt)).mpr fun i => ?_
    by_cases member : i ∈ s.events
    · have := appended i member
      have := after i member
      simp [member]
      omega
    · have : n ≤ i → s.length ≤ i := fun lower =>
        le_of_not_gt fun upper => member (complete i lower upper)
      simp [member]
      omega

theorem stream_exact_sample :
    (BlockStream.run 0 [.subscribe, .copy, .append, .announce 1, .receive]).delivered = [0, 1] :=
  (stream_exact_iff 0 [.subscribe, .copy, .append, .announce 1, .receive] 1
    (by decide) ⟨by decide, by decide⟩).mpr (by decide)

/-- A block between the subscription and the copy is delivered twice, and two tasks that announce
their blocks in the other order have them delivered so. -/
theorem stream_inexact :
    (BlockStream.run 1 [.subscribe, .append, .copy, .announce 1, .receive]).delivered = [1, 1] ∧
      (BlockStream.run 1 [.subscribe, .copy, .append, .append, .announce 2, .announce 1, .receive,
        .receive]).delivered = [2, 1] := by
  decide

end GlassChain
