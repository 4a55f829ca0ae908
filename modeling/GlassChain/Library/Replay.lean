import Mathlib

/-!
# Replaying keyed writes

Writes that set or remove the value under a key, applied in order to a finite map. Maps are compared
by what they hold under each key. What a replay leaves under a key it writes does not depend on the
map it started from, so a log replayed over a map whose keys it all writes gives what it gives from
the empty map.
-/

namespace Library

open AList

variable {κ β ω : Type*} [DecidableEq κ]

def Agree (m n : AList fun _ : κ => β) : Prop := ∀ k, m.lookup k = n.lookup k

lemma Agree.refl (m : AList fun _ : κ => β) : Agree m m := fun _ => rfl

variable (key : ω → κ) (value : ω → Option β)

/-- One write; no value is a removal. -/
def applyWrite (m : AList fun _ : κ => β) (w : ω) : AList fun _ : κ => β :=
  match value w with
  | some v => m.insert (key w) v
  | none => m.erase (key w)

def replay (m : AList fun _ : κ => β) (log : List ω) : AList fun _ : κ => β :=
  log.foldl (applyWrite key value) m

def Written (log : List ω) (k : κ) : Prop := ∃ w ∈ log, key w = k

variable {key value} {m n : AList fun _ : κ => β} {log : List ω} {k : κ}

lemma lookup_applyWrite (w : ω) :
    (applyWrite key value m w).lookup k = if k = key w then value w else m.lookup k := by
  unfold applyWrite
  by_cases here : k = key w
  · subst here
    cases value w with
    | some v => simp [lookup_insert]
    | none => simp [lookup_erase]
  · cases value w with
    | some v => simp [here, lookup_insert_ne here]
    | none => simp [here, lookup_erase_ne here]

lemma replay_cons (w : ω) (log : List ω) :
    replay key value m (w :: log) = replay key value (applyWrite key value m w) log := rfl

/-- Under a key that is not written everything stays. -/
theorem lookup_replay_of_not_written (unwritten : ¬Written key log k) :
    (replay key value m log).lookup k = m.lookup k := by
  induction log generalizing m with
  | nil => rfl
  | cons w log ih =>
    rw [replay_cons, ih fun ⟨v, mem, same⟩ => unwritten ⟨v, by simp [mem], same⟩, lookup_applyWrite,
      if_neg fun same => unwritten ⟨w, by simp, same.symm⟩]

/-- Under a key that is written the start does not matter. -/
theorem lookup_replay_of_written (written : Written key log k) :
    (replay key value m log).lookup k = (replay key value n log).lookup k := by
  induction log generalizing m n with
  | nil =>
    obtain ⟨w, mem, -⟩ := written
    simp at mem
  | cons w log ih =>
    simp only [replay_cons]
    by_cases later : Written key log k
    · exact ih later
    · have here : k = key w := by
        obtain ⟨v, mem, same⟩ := written
        rcases List.mem_cons.mp mem with rfl | mem
        · exact same.symm
        · exact absurd ⟨v, mem, same⟩ later
      rw [lookup_replay_of_not_written later, lookup_replay_of_not_written later,
        lookup_applyWrite, lookup_applyWrite, if_pos here, if_pos here]

lemma Agree.replay (h : Agree m n) (log : List ω) :
    Agree (replay key value m log) (replay key value n log) := by
  intro k
  by_cases written : Written key log k
  · exact lookup_replay_of_written written
  · rw [lookup_replay_of_not_written written, lookup_replay_of_not_written written, h k]

/-- From the empty map a replay holds only what it wrote. -/
theorem written_of_lookup_replay (held : ((replay key value ∅ log).lookup k).isSome = true) :
    Written key log k := by
  by_contra unwritten
  rw [lookup_replay_of_not_written unwritten] at held
  simp at held

/-- Over a map whose keys it all writes, a log gives what it gives from the empty map. -/
theorem replay_overwrites (covered : ∀ k, (m.lookup k).isSome = true → Written key log k) :
    Agree (replay key value m log) (replay key value ∅ log) := by
  intro k
  by_cases written : Written key log k
  · exact lookup_replay_of_written written
  · rw [lookup_replay_of_not_written written, lookup_replay_of_not_written written]
    have absent : m.lookup k = none := by
      by_contra present
      exact written (covered k (Option.isSome_iff_ne_none.mpr present))
    rw [absent, lookup_empty]

end Library
