import GlassChain.Core.PolicyTree
import GlassChain.Identity.MspRegistry

/-!
# An evaluation is a function of the set of signers

`evaluate` walks through the signers: one that cannot be authenticated ends it, one whose signature
does not verify is passed over, the others are collected in a set. Neither the order nor the
repetition of signers shows in what it returns.
-/

namespace GlassChain

open MspEndorsementProvider List

namespace MspEndorsementProvider

variable {C : Ed25519} {M : MspEndorsementProvider} {height : Nat}

def AllKnown (C : Ed25519) (M : MspEndorsementProvider) (height : Nat)
    (signers : List EndorserIdentity) : Prop :=
  ∀ signer ∈ signers, ∃ entry, M.authenticate C height signer = .ok entry

/-- One signer that cannot be authenticated is enough to fail. -/
theorem foldlM_countSigner_ok_iff {payload : Bytes} {signers : List EndorserIdentity}
    {start : Finset Principal} :
    (∃ distinct, signers.foldlM (M.countSigner C payload height) start = .ok distinct) ↔
      AllKnown C M height signers := by
  induction signers generalizing start with
  | nil => simp [AllKnown, pure, Except.pure]
  | cons signer rest ih =>
    simp only [AllKnown, foldlM_cons, bind_eq_ok, forall_mem_cons] at ih ⊢
    constructor
    · rintro ⟨distinct, next, counted, run⟩
      simp only [countSigner, bind_eq_ok] at counted
      obtain ⟨entry, known, -⟩ := counted
      exact ⟨⟨entry, known⟩, ih.mp ⟨distinct, run⟩⟩
    · rintro ⟨⟨entry, known⟩, others⟩
      have counted : M.countSigner C payload height start signer =
          .ok (if signed C payload signer then insert entry.principal start else start) := by
        simp [countSigner, known, bind, Except.bind, pure, Except.pure]
      obtain ⟨distinct, run⟩ := ih.mpr others
      exact ⟨distinct, _, counted, run⟩

lemma verify_ok_iff {request : EndorsementRequest} :
    (∃ distinct, (M.toPrincipalProvider C).verify request height = .ok distinct) ↔
      AllKnown C M height request.signers :=
  foldlM_countSigner_ok_iff

/-- Requests for one payload by the same signers count the same principals. -/
theorem verify_congr {request request' : EndorsementRequest}
    (payload : request.payload = request'.payload)
    (same : ∀ signer, signer ∈ request.signers ↔ signer ∈ request'.signers)
    {distinct : Finset Principal}
    (run : (M.toPrincipalProvider C).verify request height = .ok distinct) :
    (M.toPrincipalProvider C).verify request' height = .ok distinct := by
  have known : AllKnown C M height request'.signers := fun signer member =>
    verify_ok_iff.mp ⟨distinct, run⟩ signer ((same signer).mpr member)
  obtain ⟨distinct', run'⟩ := verify_ok_iff.mpr known
  have equal : distinct' = distinct := by
    ext p
    rw [mem_verify run', mem_verify run]
    simp only [same, payload]
  rwa [equal] at run'

/-- What is counted, in terms of the directory alone. -/
theorem mem_verify_directory {request : EndorsementRequest} {distinct : Finset Principal}
    (run : (M.toPrincipalProvider C).verify request height = .ok distinct) (p : Principal) :
    p ∈ distinct ↔ ∃ signer ∈ request.signers, signed C request.payload signer = true ∧
      ∃ entry, M.directory.lookup signer.publicKey = some entry ∧ entry.principal = p := by
  rw [mem_verify run]
  constructor
  · rintro ⟨signer, member, entry, known, principal, valid⟩
    exact ⟨signer, member, valid, entry, (authenticate_eq_ok.mp known).1, principal⟩
  · rintro ⟨signer, member, valid, entry, registered, principal⟩
    -- the signer was authenticated, and by its own entry
    obtain ⟨entry', known⟩ := verify_ok_iff.mp ⟨distinct, run⟩ signer member
    have found := (authenticate_eq_ok.mp known).1
    rw [registered, Option.some.injEq] at found
    subst found
    exact ⟨signer, member, entry, known, principal, valid⟩

end MspEndorsementProvider

/-- Requests that differ in the order and repetition of their signers are evaluated alike. The
principals of a success are those of the keys that signed, once each, and the expression is judged
by some choice of its rules among them. -/
theorem msp_evaluation_set_semantics (C : Ed25519) (M : MspEndorsementProvider) (height : Nat)
    (expression : PolicyExpression) (valid : expression.validate = .ok ())
    (request request' : EndorsementRequest) (payload : request.payload = request'.payload)
    (same : ∀ signer, signer ∈ request.signers ↔ signer ∈ request'.signers) :
    ((∃ e e', M.evaluate C expression request height = .error e ∧
        M.evaluate C expression request' height = .error e') ∨
      ∃ result, M.evaluate C expression request height = .ok result ∧
        M.evaluate C expression request' height = .ok result) ∧
    ∀ result, M.evaluate C expression request height = .ok result →
      result.distinctPrincipals.Pairwise (· < ·) ∧
      (∀ p, p ∈ result.distinctPrincipals ↔ ∃ signer ∈ request.signers,
        MspEndorsementProvider.signed C request.payload signer = true ∧
        ∃ entry, M.directory.lookup signer.publicKey = some entry ∧ entry.principal = p) ∧
      result.satisfied = expression.evaluate result.distinctPrincipals.toFinset ∧
      (result.satisfied = true ↔ ∃ leaves, expression.Choice leaves ∧
        ∀ p ∈ leaves, p ∈ result.distinctPrincipals) := by
  constructor
  · cases first : M.evaluate C expression request height with
    | ok result =>
      refine .inr ⟨result, rfl, ?_⟩
      obtain ⟨-, distinct, run, shape⟩ := evaluate_eq_ok.mp first
      exact evaluate_eq_ok.mpr ⟨valid, distinct, verify_congr payload same run, shape⟩
    | error e =>
      cases second : M.evaluate C expression request' height with
      | error e' => exact .inl ⟨e, e', rfl, rfl⟩
      | ok result =>
        obtain ⟨-, distinct, run, shape⟩ := evaluate_eq_ok.mp second
        have passed := evaluate_eq_ok.mpr ⟨valid, distinct,
          verify_congr payload.symm (fun s => (same s).symm) run, shape⟩
        rw [first] at passed
        cases passed
  · intro result passed
    obtain ⟨-, distinct, run, rfl⟩ := evaluate_eq_ok.mp passed
    have listed (p : Principal) : p ∈ distinct.sort ↔ p ∈ distinct := Finset.mem_sort _
    have sorted : distinct.sort.toFinset = distinct := Finset.sort_toFinset _ _
    refine ⟨(Finset.sortedLT_sort distinct).pairwise, fun p => ?_, by rw [sorted], ?_⟩
    · rw [listed, mem_verify_directory run]
    · rw [PolicyExpression.evaluate_iff_choice distinct expression valid]
      simp only [listed, Finset.subset_iff]

/-- The request of two registered members, in some order and with repetitions. -/
def twoMembers (signers : List (String × UInt8)) : EndorsementRequest :=
  ⟨⟨"", "", [], none⟩, [], signers.map fun (org, byte) =>
    ⟨⟨org⟩, List.replicate 32 byte, List.replicate 64 byte, .ed25519⟩⟩

/-- Acme signs twice around Beta, or once after it. -/
theorem msp_evaluation_sample :
    let M := RegistryCall.run sampleMsp ⟨∅⟩ [sampleRegistration "acme" 0, sampleRegistration "beta" 0]
    let both := PolicyExpression.nOutOf 2 [.signedBy ⟨"acme"⟩, .signedBy ⟨"beta"⟩]
    ∃ result, M.evaluate sampleMsp.ed25519 both
        (twoMembers [("acme", 1), ("beta", 2), ("acme", 1)]) 5 = .ok result ∧
      M.evaluate sampleMsp.ed25519 both (twoMembers [("beta", 2), ("acme", 1)]) 5 = .ok result := by
  intro M both
  have alike := msp_evaluation_set_semantics sampleMsp.ed25519 M 5 both rfl
    (twoMembers [("acme", 1), ("beta", 2), ("acme", 1)]) (twoMembers [("beta", 2), ("acme", 1)]) rfl
    (by simp only [twoMembers, map_cons, map_nil, mem_cons]; tauto)
  have known : MspEndorsementProvider.AllKnown sampleMsp.ed25519 M 5
      (twoMembers [("acme", 1), ("beta", 2), ("acme", 1)]).signers := by
    intro signer member
    simp only [twoMembers, map_cons, map_nil, mem_cons, not_mem_nil, or_false] at member
    rcases member with rfl | rfl | rfl <;> exact ⟨_, rfl⟩
  obtain ⟨distinct, run⟩ := verify_ok_iff.mpr known
  have passed := evaluate_eq_ok.mpr ⟨(rfl : both.validate = .ok ()), distinct, run, rfl⟩
  rcases alike.1 with ⟨e, -, failed, -⟩ | same
  · rw [passed] at failed
    cases failed
  · exact same

end GlassChain
