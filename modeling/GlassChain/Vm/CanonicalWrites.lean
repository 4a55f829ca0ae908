import GlassChain.Network.WriteForm
import GlassChain.Vm.Wasm

/-!
# Canonical execution results

The order in which a guest reports its writes leaves no trace in the canonical result. The sort
compares scopes alone; it gives one list for every order because the scan before it refused a scope
that occurs twice, so that no two writes tie. Redaction keeps scopes, and so it can come before or
after.
-/

namespace GlassChain

open scoped List

namespace PersistentWrite

variable {w w' : PersistentWrite} {writes sorted : List PersistentWrite}

/-- Writes tie only in the same scope. -/
theorem scope_eq_of_scopeLe (le : scopeLe w w' = true) (ge : scopeLe w' w = true) :
    w.scope = w'.scope := by
  have tie := Std.OrientedCmp.isLE_antisymm le ge
  simp only [compareLex, compareOn, Ordering.then_eq_eq, compare_eq_iff_eq] at tie
  obtain ⟨channel, contract, key⟩ := tie
  simp [scope, channel, contract, key]

lemma StrictlySorted.eq_of_perm (strict : StrictlySorted writes) (strict' : StrictlySorted sorted)
    (perm : writes ~ sorted) : writes = sorted := by
  refine List.Perm.eq_of_pairwise ?_ strict strict' perm
  rintro a b - - ⟨le, differ⟩ ⟨ge, -⟩
  exact absurd (scope_eq_of_scopeLe le ge) differ

section

variable (ok : canonicalize writes = .ok sorted)

include ok

lemma strictlySorted_of_canonicalize : StrictlySorted sorted :=
  (canonicalize_self_iff.mp (canonicalize_idem ok)).2

lemma perm_of_canonicalize : sorted ~ writes := by
  obtain ⟨-, rfl⟩ := canonicalize_eq_ok.mp ok
  exact List.mergeSort_perm writes scopeLe

/-- Every order of the same writes has the same canonical form. -/
theorem canonicalize_perm {other : List PersistentWrite} (perm : other ~ writes) :
    canonicalize other = .ok sorted := by
  obtain ⟨⟨named, distinct⟩, -⟩ := canonicalize_eq_ok.mp ok
  have passes : canonicalize other = .ok (other.mergeSort scopeLe) := by
    refine canonicalize_eq_ok.mpr ⟨⟨fun w mem => named w (perm.mem_iff.mp mem), ?_⟩, rfl⟩
    exact (perm.map scope).nodup_iff.mpr distinct
  have same := (strictlySorted_of_canonicalize passes).eq_of_perm
    (strictlySorted_of_canonicalize ok)
    ((perm_of_canonicalize passes).trans (perm.trans (perm_of_canonicalize ok).symm))
  rw [passes, same]

end

end PersistentWrite

namespace ExecutionResult

open PersistentWrite

def blockForm (X : Externals) (r : ExecutionResult) : ExecutionResult :=
  { r with writes := r.writes.map (PersistentWrite.blockForm X) }

lemma canonicalize_eq_ok {r c : ExecutionResult} : r.canonicalize = .ok c ↔
    PersistentWrite.canonicalize r.writes = .ok c.writes ∧ c.ephemeral = r.ephemeral := by
  obtain ⟨ephemeral, writes⟩ := c
  simp only [canonicalize, bind_eq_ok, pure, Except.pure, Except.ok.injEq, mk.injEq]
  grind

/-- Canonicalisation accepts exactly the results with named and distinct scopes. It gives the
strictly increasing arrangement of their writes, one for all orders, and commutes with redaction. -/
theorem canonicalize_order_independent (X : Externals) (r : ExecutionResult) :
    ((∃ c, r.canonicalize = .ok c) ↔
      (∀ w ∈ r.writes, w.Named) ∧ (r.writes.map scope).Nodup) ∧
    (∀ c, r.canonicalize = .ok c →
      StrictlySorted c.writes ∧ c.writes ~ r.writes ∧ c.canonicalize = .ok c ∧
      ∀ r' : ExecutionResult, r'.writes ~ r.writes →
        ∃ c', r'.canonicalize = .ok c' ∧ c'.writes = c.writes) ∧
    (r.blockForm X).canonicalize = r.canonicalize.map (blockForm X) := by
  refine ⟨?_, fun c ok => ?_, ?_⟩
  · constructor
    · rintro ⟨c, ok⟩
      exact (PersistentWrite.canonicalize_eq_ok.mp (canonicalize_eq_ok.mp ok).1).1
    · intro good
      exact ⟨⟨r.ephemeral, r.writes.mergeSort scopeLe⟩,
        canonicalize_eq_ok.mpr ⟨PersistentWrite.canonicalize_eq_ok.mpr ⟨good, rfl⟩, rfl⟩⟩
  · obtain ⟨ok, -⟩ := canonicalize_eq_ok.mp ok
    refine ⟨strictlySorted_of_canonicalize ok, perm_of_canonicalize ok,
      canonicalize_eq_ok.mpr ⟨canonicalize_idem ok, rfl⟩, fun r' perm => ?_⟩
    exact ⟨⟨r'.ephemeral, c.writes⟩, canonicalize_eq_ok.mpr ⟨canonicalize_perm ok perm, rfl⟩, rfl⟩
  · unfold canonicalize blockForm
    rw [canonicalize_map_blockForm]
    cases PersistentWrite.canonicalize r.writes <;> rfl

end ExecutionResult

end GlassChain
