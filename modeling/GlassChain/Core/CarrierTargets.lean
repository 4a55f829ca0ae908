import GlassChain.Core.Authorization

/-!
# What an endorser's signature covers

Endorsers sign the transaction without its carriers, and the target a carrier declares is part of
the carrier. Whoever holds the signatures can declare other targets for them: they verify as before,
and the policies of the new target are evaluated over the principals that signed under the old one.
-/

namespace GlassChain

open MspEndorsementProvider List

/-- A property of the second list, read along the correspondence with the first. -/
theorem forall_mem_iff_forall₂ {α β : Type*} {R S : α → β → Prop} {Q : β → Prop} {l : List α}
    {l' : List β} (related : List.Forall₂ R l l') (same : ∀ a b, R a b → (Q b ↔ S a b)) :
    (∀ b ∈ l', Q b) ↔ List.Forall₂ S l l' := by
  induction related with
  | nil => simp
  | cons first _ ih => rw [forall_mem_cons, forall₂_cons, same _ _ first, ih]

/-- The transactions differ in the targets of their carriers and in nothing else. -/
structure Retargeted (t t' : Transaction) : Prop where
  id : t'.id = t.id
  timestamp : t'.timestamp = t.timestamp
  kind : t'.kind = t.kind
  carriers : List.Forall₂ (fun e e' => e'.signers = e.signers) t.endorsements t'.endorsements
  differ : t'.endorsements ≠ t.endorsements

/-- Every signature of the list verifies over the payload of the transaction. -/
def SignedFor (X : Externals) (C : Ed25519) (tx : Transaction) (signers : List EndorserIdentity) :
    Prop :=
  ∀ signer ∈ signers, signed C (TransactionEndorsement.payload X tx) signer = true

namespace Retargeted

variable {X : Externals} {C : Ed25519} {M : MspEndorsementProvider} {t t' : Transaction}
  {height : Nat}

lemma payload_eq (re : Retargeted t t') :
    TransactionEndorsement.payload X t' = TransactionEndorsement.payload X t := by
  obtain ⟨id, timestamp, kind, endorsements⟩ := t
  obtain ⟨id', timestamp', kind', endorsements'⟩ := t'
  obtain ⟨rfl, rfl, rfl, -, -⟩ := re
  rfl

lemma signers_eq (re : Retargeted t t') :
    t'.endorsements.flatMap TransactionEndorsement.signers =
      t.endorsements.flatMap TransactionEndorsement.signers := by
  have carriers := re.carriers
  generalize t.endorsements = l at carriers
  generalize t'.endorsements = l' at carriers
  induction carriers with
  | nil => rfl
  | cons same _ ih => rw [flatMap_cons, flatMap_cons, same, ih]

lemma evaluateDefault_eq (re : Retargeted t t') (provider : EndorsementProvider) :
    evaluateDefault X provider t' height = evaluateDefault X provider t height := by
  simp only [evaluateDefault, operationDefault, re.kind, re.id, re.payload_eq, re.signers_eq]

lemma signedFor_iff (re : Retargeted t t') (signers : List EndorserIdentity) :
    SignedFor X C t' signers ↔ SignedFor X C t signers := by
  unfold SignedFor
  rw [re.payload_eq]

end Retargeted

/-- The principals that signed the carrier `e` of `t` satisfy the policies of `target`. -/
def Transfers (X : Externals) (C : Ed25519) (M : MspEndorsementProvider) (history : PolicyHistory)
    (t : Transaction) (height : Nat) (e : TransactionEndorsement) (target : ScopedTarget) : Prop :=
  ∃ P, (M.toPrincipalProvider C).verify (carrierRequest X t e) height = .ok P ∧
    ∀ policy ∈ (history.policiesFor target.channel target.contract).applicable target,
      policy.validate = .ok () ∧ policy.evaluate P = true

lemma evaluateCarrier_transfers {X : Externals} {C : Ed25519} {M : MspEndorsementProvider}
    {history : PolicyHistory} {t t' : Transaction} {height : Nat} (re : Retargeted t t')
    {e e' : TransactionEndorsement} (same : e'.signers = e.signers) :
    evaluateCarrier X (M.toPrincipalProvider C).evaluate history t' height e' = .ok () ↔
      Transfers X C M history t height e e'.target := by
  rw [evaluateCarrier_principals]
  simp only [toPrincipalProvider, carrierRequest, Transfers, re.payload_eq, same]

/-- Changing the targets invalidates a list of signatures only if it was invalid before. The new
targets must cover the writes, and the principals who signed under the old ones satisfy their
policies. -/
theorem retargeted_signatures (X : Externals) (C : Ed25519) (M : MspEndorsementProvider)
    (history : PolicyHistory) (t t' : Transaction) (writes : List PersistentWrite) (height : Nat)
    (re : Retargeted t t') :
    (∀ signers, (SignedFor X C t signers → ¬SignedFor X C t' signers) ↔
      ¬SignedFor X C t signers) ∧
    (evaluateTransactionEndorsements X (M.toPrincipalProvider C).evaluate history t' writes
        height = .ok () ↔
      (∀ w ∈ writes, ∃ e' ∈ t'.endorsements, e'.covers w = true) ∧
      (t.kind.isPolicyUpdate = true → t.endorsements ≠ []) ∧
      (t.kind.isRecord = false → List.Forall₂
        (fun e e' => Transfers X C M history t height e e'.target) t.endorsements t'.endorsements) ∧
      evaluateDefault X (M.toPrincipalProvider C).evaluate t height = .ok ()) := by
  refine ⟨fun signers => ?_, ?_⟩
  · rw [re.signedFor_iff signers]
    exact ⟨fun never valid => never valid valid, fun invalid valid => absurd valid invalid⟩
  · have carriers : (∀ e' ∈ t'.endorsements, evaluateCarrier X (M.toPrincipalProvider C).evaluate
        history t' height e' = .ok ()) ↔ List.Forall₂ (fun e e' =>
          Transfers X C M history t height e e'.target) t.endorsements t'.endorsements :=
      forall_mem_iff_forall₂ re.carriers fun e e' same => evaluateCarrier_transfers re same
    have nonempty : t'.endorsements ≠ [] ↔ t.endorsements ≠ [] := by
      rw [← length_pos_iff, ← length_pos_iff, re.carriers.length_eq]
    rw [evaluateTransactionEndorsements_eq_ok, re.kind, re.evaluateDefault_eq, carriers, nonempty]

def endorsedFor (key : String) : Transaction :=
  ⟨"adjust", 0, .inventoryUpdate ⟨"SKU-1", "owner", 1, "restock"⟩,
    [⟨⟨"supply", "orders", [key], none⟩, [partnerSigner]⟩]⟩

lemma endorsedFor_retargeted : Retargeted (endorsedFor "open") (endorsedFor "closed") where
  id := rfl
  timestamp := rfl
  kind := rfl
  carriers := .cons rfl .nil
  differ := by decide

/-- The only message anybody signed is the payload of the movement for the key `open`. -/
noncomputable def onceSigned : Ed25519 where
  validKey _ := true
  verify _ message _ := message = TransactionEndorsement.payload (.plain 0) (endorsedFor "open")

lemma endorsedFor_signed (key : String) :
    onceSigned.verify partnerKey (TransactionEndorsement.payload (.plain 0) (endorsedFor key))
      partnerSigner.signature = true := by
  have same : TransactionEndorsement.payload (.plain 0) (endorsedFor key) =
      TransactionEndorsement.payload (.plain 0) (endorsedFor "open") := rfl
  simp [onceSigned, same]

theorem retargeted_sample :
    Retargeted (endorsedFor "open") (endorsedFor "closed") ∧
    ((SignedFor (.plain 0) onceSigned (endorsedFor "open") [partnerSigner] →
        ¬SignedFor (.plain 0) onceSigned (endorsedFor "closed") [partnerSigner]) ↔
      ¬SignedFor (.plain 0) onceSigned (endorsedFor "open") [partnerSigner]) :=
  ⟨endorsedFor_retargeted, (retargeted_signatures (.plain 0) onceSigned ⟨partnerDirectory⟩
    sampleHistory _ _ [] 1 endorsedFor_retargeted).1 [partnerSigner]⟩

/-- The signature given for the key `open` is accepted for a write to the key `closed`. -/
theorem signature_reused_for_other_key :
    let accepts (tx : Transaction) : Prop := evaluateTransactionEndorsements (.plain 0)
        (toPrincipalProvider onceSigned ⟨partnerDirectory⟩).evaluate sampleHistory tx
        [⟨"supply", "orders", "closed", .set [1], .pub⟩] 1 = .ok ()
    Retargeted (endorsedFor "open") (endorsedFor "closed") ∧
    SignedFor (.plain 0) onceSigned (endorsedFor "open") [partnerSigner] ∧
    SignedFor (.plain 0) onceSigned (endorsedFor "closed") [partnerSigner] ∧
    ¬accepts (endorsedFor "open") ∧ accepts (endorsedFor "closed") := by
  intro accepts
  have valid (key : String) : SignedFor (.plain 0) onceSigned (endorsedFor key) [partnerSigner] := by
    intro signer member
    rw [mem_singleton.mp member, signed, Bool.and_eq_true]
    exact ⟨rfl, endorsedFor_signed key⟩
  refine ⟨endorsedFor_retargeted, valid "open", valid "closed", ?_, ?_⟩
  · intro accepted
    have covered := (evaluateTransactionEndorsements_eq_ok.mp accepted).1
    obtain ⟨e, member, covers⟩ := covered _ mem_cons_self
    rw [mem_singleton.mp member] at covers
    exact absurd covers (by decide)
  · refine evaluateTransactionEndorsements_eq_ok.mpr ⟨?_, fun update => absurd update (by decide),
      fun _ e member => ?_, rfl⟩
    · intro w write
      rw [mem_singleton.mp write]
      exact ⟨_, mem_cons_self, by decide⟩
    · rw [mem_singleton.mp member]
      refine evaluateCarrier_principals.mpr
        ⟨_, partnerDirectory_verify rfl rfl (endorsedFor_signed "closed") 1, ?_⟩
      have layers : (sampleHistory.policiesFor "supply" "orders").applicable
          ⟨"supply", "orders", ["closed"], none⟩ = [.signedBy ⟨"partner"⟩] := rfl
      intro policy applies
      rw [layers] at applies
      rw [mem_singleton.mp applies]
      exact ⟨by decide, by decide⟩

end GlassChain
