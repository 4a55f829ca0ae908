import GlassChain.Core.PolicyTree
import GlassChain.Workflows.PurchaseFlow

/-!
# Who signs a custody handoff

A delivery receipt needs two of two signatures: of its issuer, and of the receiver its payload
names. Both names are the submitter's to choose, and nothing keeps them apart. Where they are the
same, the two leaves of the policy are one principal, and one signature is enough; the receipts of
the purchase flow are of this kind.
-/

namespace GlassChain

open MspEndorsementProvider PolicyExpression List

/-- A signature of the principal over the transaction is among its carriers, of a registered key in
force at the height. -/
def HasSigned (X : Externals) (C : Ed25519) (M : MspEndorsementProvider) (tx : Transaction)
    (height : Nat) (p : Principal) : Prop :=
  ∃ e ∈ tx.endorsements, ∃ signer ∈ e.signers, ∃ entry,
    M.authenticate C height signer = .ok entry ∧ entry.principal = p ∧
      signed C (TransactionEndorsement.payload X tx) signer = true

def defaultRequest (X : Externals) (tx : Transaction) : EndorsementRequest :=
  ⟨⟨"", "", [], none⟩, TransactionEndorsement.payload X tx,
    tx.endorsements.flatMap TransactionEndorsement.signers⟩

section Acceptance

variable {X : Externals} {C : Ed25519} {M : MspEndorsementProvider} {history : PolicyHistory}
  {tx : Transaction} {record : CanonicalRecord} {writes : List PersistentWrite} {height : Nat}
  {P : Finset Principal}

lemma mem_verify_defaultRequest
    (verified : (M.toPrincipalProvider C).verify (defaultRequest X tx) height = .ok P)
    (p : Principal) : p ∈ P ↔ HasSigned X C M tx height p := by
  rw [mem_verify verified]
  simp only [defaultRequest, HasSigned, mem_flatMap]
  grind

/-- The provider refuses no request whose signers it knows. -/
theorem verify_isOk_iff {request : EndorsementRequest} :
    (∃ P, (M.toPrincipalProvider C).verify request height = .ok P) ↔
      ∀ signer ∈ request.signers, ∃ entry, M.authenticate C height signer = .ok entry := by
  simp only [toPrincipalProvider]
  generalize (∅ : Finset Principal) = start
  induction request.signers generalizing start with
  | nil => simp [pure, Except.pure]
  | cons signer rest ih =>
    rw [foldlM_cons, forall_mem_cons, countSigner]
    cases known : M.authenticate C height signer with
    | error e => simp [bind, Except.bind]
    | ok entry => simpa [bind, Except.bind, pure, Except.pure] using ih _

/-- Every signer of the carriers holds a registered key in force at the height. -/
def SignersKnown (C : Ed25519) (M : MspEndorsementProvider) (tx : Transaction) (height : Nat) :
    Prop :=
  ∀ signer ∈ tx.endorsements.flatMap TransactionEndorsement.signers,
    ∃ entry, M.authenticate C height signer = .ok entry

/-- The default policy is evaluated on the verified signers. -/
lemma evaluateDefault_eq_ok {V : PrincipalProvider} {policy : PolicyExpression}
    (default : operationDefault tx = .ok (some policy)) :
    evaluateDefault X V.evaluate tx height = .ok () ↔ policy.validate = .ok () ∧
      ∃ P, V.verify (defaultRequest X tx) height = .ok P ∧ policy.evaluate P = true := by
  rw [← PrincipalProvider.evaluate_eq_true, evaluateDefault, bind_eq_ok]
  simp only [default, Except.ok.injEq, exists_eq_left']
  rw [bind_eq_ok]
  simp [require_eq_ok, defaultRequest]

lemma both_iff {a b : Principal} : (nOutOf 2 [.signedBy a, .signedBy b]).evaluate P = true ↔
    a ∈ P ∧ b ∈ P := by
  by_cases first : a ∈ P <;> by_cases second : b ∈ P <;>
    simp [PolicyExpression.evaluate, satisfiedCount, first, second]

lemma both_validate {a b : Principal} :
    (nOutOf 2 [.signedBy a, .signedBy b]).validate = .ok () ↔ a.name ≠ "" ∧ b.name ≠ "" := by
  rw [validate_nOutOf, validateAll_cons, validateAll_cons]
  simp [validate, validateAll]

/-- A receipt is accepted exactly when its writes are covered, its signers are known, and its issuer
and the receiver it names have signed. -/
theorem receipt_accepted_iff (kind : tx.kind = .canonicalRecord record)
    (receipt : record.schemaId = "delivery_receipt") :
    evaluateTransactionEndorsements X (M.toPrincipalProvider C).evaluate history tx writes height =
        .ok () ↔
      (∀ w ∈ writes, ∃ e ∈ tx.endorsements, e.covers w = true) ∧
      ∃ receiver, payloadName record "receiver_id" = some receiver ∧ record.issuer ≠ "" ∧
        SignersKnown C M tx height ∧ HasSigned X C M tx height ⟨record.issuer⟩ ∧
        HasSigned X C M tx height ⟨receiver⟩ := by
  rw [evaluateTransactionEndorsements_eq_ok]
  simp only [kind, TransactionKind.isPolicyUpdate, TransactionKind.isRecord, Bool.false_eq_true,
    Bool.true_eq_false, false_implies, true_and]
  refine and_congr_right fun _ => ?_
  cases named : payloadName record "receiver_id" with
  | none =>
    have refused : ∃ e, operationDefault tx = .error e := by
      simp [operationDefault, kind, recordDefault, receipt, named]
    obtain ⟨e, refused⟩ := refused
    simp [evaluateDefault, refused, bind, Except.bind]
  | some receiver =>
    have default : operationDefault tx =
        .ok (some (.nOutOf 2 [.signedBy ⟨record.issuer⟩, .signedBy ⟨receiver⟩])) := by
      simp [operationDefault, kind, recordDefault, receipt, named]
    have present : receiver ≠ "" := by
      simpa using (Option.filter_eq_some_iff.mp named).2
    rw [evaluateDefault_eq_ok default, both_validate]
    simp only [both_iff, Option.some.injEq, exists_eq_left']
    constructor
    · rintro ⟨⟨issuer, -⟩, P, verified, sender, custodian⟩
      exact ⟨issuer, verify_isOk_iff.mp ⟨P, verified⟩, (mem_verify_defaultRequest verified _).mp sender,
        (mem_verify_defaultRequest verified _).mp custodian⟩
    · rintro ⟨issuer, known, sender, custodian⟩
      obtain ⟨P, verified⟩ : ∃ P, (M.toPrincipalProvider C).verify (defaultRequest X tx) height =
        .ok P := verify_isOk_iff.mpr known
      exact ⟨⟨issuer, present⟩, P, verified, (mem_verify_defaultRequest verified _).mpr sender,
        (mem_verify_defaultRequest verified _).mpr custodian⟩

/-- Only the principal that a sole signer claims has signed. -/
theorem HasSigned.eq_of_sole {target : ScopedTarget} {signer : EndorserIdentity} {p : Principal}
    (sole : tx.endorsements = [⟨target, [signer]⟩]) (has : HasSigned X C M tx height p) :
    p = signer.claimedPrincipal := by
  obtain ⟨e, carrier, other, member, entry, authenticated, rfl, -⟩ := has
  rw [sole, mem_singleton] at carrier
  rw [carrier, mem_singleton] at member
  rw [(authenticate_eq_ok.mp authenticated).2.1, member]

end Acceptance

/-- Someone holds a registered key of the issuer that is in force at the height, and has signed a
transaction with the record. -/
def IssuerSigns (X : Externals) (C : Ed25519) (M : MspEndorsementProvider) (height : Nat)
    (record : CanonicalRecord) : Prop :=
  ∃ id timestamp signer entry, M.authenticate C height signer = .ok entry ∧
    entry.principal = ⟨record.issuer⟩ ∧
    signed C (TransactionEndorsement.payload X ⟨id, timestamp, .canonicalRecord record, []⟩) signer =
      true

/-- Every accepted transaction with a receipt is signed by two principals exactly when the receiver
is not the issuer or nobody signs for the issuer. Then the issuer and the receiver have signed. -/
theorem custody_handoff_two_parties_iff (X : Externals) (C : Ed25519) (M : MspEndorsementProvider)
    (history : PolicyHistory) (height : Nat) (record : CanonicalRecord)
    (receipt : record.schemaId = "delivery_receipt") :
    ((∀ tx writes, tx.kind = .canonicalRecord record → evaluateTransactionEndorsements X
        (M.toPrincipalProvider C).evaluate history tx writes height = .ok () →
        ∃ sender receiver : Principal, sender ≠ receiver ∧ HasSigned X C M tx height sender ∧
          HasSigned X C M tx height receiver) ↔
      (payloadName record "receiver_id" = some record.issuer → ¬IssuerSigns X C M height record)) ∧
    ∀ tx writes, tx.kind = .canonicalRecord record → evaluateTransactionEndorsements X
      (M.toPrincipalProvider C).evaluate history tx writes height = .ok () →
      ∃ receiver, payloadName record "receiver_id" = some receiver ∧
        HasSigned X C M tx height ⟨record.issuer⟩ ∧ HasSigned X C M tx height ⟨receiver⟩ := by
  have both {tx : Transaction} {writes : List PersistentWrite}
      (kind : tx.kind = .canonicalRecord record) (accepted : evaluateTransactionEndorsements X
        (M.toPrincipalProvider C).evaluate history tx writes height = .ok ()) :
      ∃ receiver, payloadName record "receiver_id" = some receiver ∧
        HasSigned X C M tx height ⟨record.issuer⟩ ∧ HasSigned X C M tx height ⟨receiver⟩ := by
    obtain ⟨-, receiver, named, -, -, sent, received⟩ :=
      (receipt_accepted_iff kind receipt).mp accepted
    exact ⟨receiver, named, sent, received⟩
  refine ⟨⟨?_, ?_⟩, fun tx writes => both⟩
  · -- the issuer's one signature makes an accepted transaction
    rintro always own ⟨id, timestamp, signer, entry, authenticated, same, signs⟩
    let tx : Transaction := ⟨id, timestamp, .canonicalRecord record, [⟨⟨"", "", [], none⟩, [signer]⟩]⟩
    have issuer : HasSigned X C M tx height ⟨record.issuer⟩ :=
      ⟨_, mem_cons_self, signer, mem_cons_self, entry, authenticated, same, signs⟩
    have present : record.issuer ≠ "" := by simpa using (Option.filter_eq_some_iff.mp own).2
    obtain ⟨sender, receiver, distinct, sent, received⟩ := always tx [] rfl
      ((receipt_accepted_iff rfl receipt).mpr ⟨by simp, _, own, present, by
        simpa [SignersKnown, tx] using ⟨entry, authenticated⟩, issuer, issuer⟩)
    exact distinct ((sent.eq_of_sole rfl).trans (received.eq_of_sole rfl).symm)
  · intro apart tx writes kind accepted
    obtain ⟨receiver, named, sent, received⟩ := both kind accepted
    refine ⟨⟨record.issuer⟩, ⟨receiver⟩, fun same => ?_, sent, received⟩
    obtain rfl := Principal.mk.inj same
    obtain ⟨e, -, signer, -, entry, authenticated, same, signs⟩ := sent
    refine apart named ⟨tx.id, tx.timestamp, signer, entry, authenticated, same, ?_⟩
    rw [← kind]
    exact signs

def handoff (record : CanonicalRecord) (signers : List EndorserIdentity) : Transaction :=
  ⟨"handoff", 0, .canonicalRecord record, [⟨⟨"", "", [], none⟩, signers⟩]⟩

def sellerKey : Bytes := List.replicate 32 9

def sellerSigner : EndorserIdentity := ⟨⟨"seller"⟩, sellerKey, List.replicate 64 1, .ed25519⟩

def tradeDirectory : MspEndorsementProvider :=
  ⟨partnerDirectory.insert sellerKey ⟨⟨"seller"⟩, 0, none⟩⟩

def trusting : Ed25519 := ⟨fun _ => true, fun _ _ _ => true⟩

lemma tradeDirectory_authenticate {signer : EndorserIdentity}
    (known : signer ∈ [sellerSigner, partnerSigner]) (height : Nat) :
    ∃ entry, tradeDirectory.authenticate trusting height signer = .ok entry ∧
      entry.principal = signer.claimedPrincipal := by
  have other : partnerKey ≠ sellerKey := by decide
  simp only [mem_cons, not_mem_nil, or_false] at known
  obtain rfl | rfl := known
  · exact ⟨_, authenticate_eq_ok.mpr
      ⟨AList.lookup_insert _, rfl, by simp [heightOutcome], rfl, rfl⟩, rfl⟩
  · exact ⟨_, authenticate_eq_ok.mpr
      ⟨(AList.lookup_insert_ne other).trans (AList.lookup_insert _), rfl, by simp [heightOutcome],
        rfl, rfl⟩, rfl⟩

lemma handoff_signed {record : CanonicalRecord} {signers : List EndorserIdentity}
    (known : signers ⊆ [sellerSigner, partnerSigner]) {signer : EndorserIdentity}
    (member : signer ∈ signers) (height : Nat) :
    HasSigned (.plain 0) trusting tradeDirectory (handoff record signers) height
      signer.claimedPrincipal := by
  obtain ⟨entry, authenticated, same⟩ := tradeDirectory_authenticate (known member) height
  refine ⟨_, mem_cons_self, signer, member, entry, authenticated, same, ?_⟩
  have one := known member
  simp only [mem_cons, not_mem_nil, or_false] at one
  obtain rfl | rfl := one <;> rfl

lemma handoff_accepted {record : CanonicalRecord} {signers : List EndorserIdentity}
    (known : signers ⊆ [sellerSigner, partnerSigner])
    (receipt : record.schemaId = "delivery_receipt") (issued : record.issuer ≠ "")
    {sender receiver : EndorserIdentity} (sent : sender ∈ signers) (received : receiver ∈ signers)
    (issuer : sender.claimedPrincipal = ⟨record.issuer⟩)
    (named : payloadName record "receiver_id" = some receiver.claimedPrincipal.name) (height : Nat) :
    evaluateTransactionEndorsements (.plain 0) (tradeDirectory.toPrincipalProvider trusting).evaluate
      ⟨[]⟩ (handoff record signers) [] height = .ok () := by
  refine (receipt_accepted_iff rfl receipt).mpr ⟨by simp, _, named, issued, ?_, ?_, ?_⟩
  · intro signer member
    simp only [handoff, flatMap_cons, flatMap_nil, append_nil] at member
    obtain ⟨entry, authenticated, -⟩ := tradeDirectory_authenticate (known member) height
    exact ⟨entry, authenticated⟩
  · exact issuer ▸ handoff_signed known sent height
  · exact handoff_signed known received height

/-- A receipt issued by the seller for the partner needs both. -/
theorem custody_handoff_sample :
    let shipment := buildShipment "po:r1" 101 { sellerDeal with counterparty := "partner" }
    let receipt := buildReceipt shipment ⟨"partner", "seller", "2026-01-01"⟩
    let tx := handoff receipt [sellerSigner, partnerSigner]
    ∃ sender receiver : Principal, sender ≠ receiver ∧
      HasSigned (.plain 0) trusting tradeDirectory tx 1 sender ∧
      HasSigned (.plain 0) trusting tradeDirectory tx 1 receiver := by
  intro shipment receipt tx
  have named : payloadName receipt "receiver_id" = some partnerSigner.claimedPrincipal.name := by
    decide
  have accepted := handoff_accepted (List.Subset.refl _) rfl (by decide) mem_cons_self
    (mem_cons_of_mem sellerSigner mem_cons_self) rfl named 1
  exact (custody_handoff_two_parties_iff (.plain 0) trusting tradeDirectory ⟨[]⟩ 1 receipt rfl).1.mpr
    (fun own => absurd own (by decide)) tx [] rfl accepted

/-- The buyer's flow emits a receipt in which it is issuer and receiver. With the buyer's signature
alone it is accepted; the seller who shipped has not signed. -/
theorem custody_handoff_one_party :
    let deal := { buyerDeal with org := "partner" }
    let shipment := buildShipment "po:r1" 101 { sellerDeal with counterparty := "partner" }
    ∃ receipt, (buyerFlow deal).tryApply (.awaitingShipment "po:r1") (.recordCommitted shipment) =
        some ⟨.delivered "po:r1" receipt.recordId, [.emitRecord receipt], false⟩ ∧
      receipt.schemaId = "delivery_receipt" ∧
      evaluateTransactionEndorsements (.plain 0)
        (tradeDirectory.toPrincipalProvider trusting).evaluate ⟨[]⟩
        (handoff receipt [partnerSigner]) [] 1 = .ok () ∧
      ∀ p, HasSigned (.plain 0) trusting tradeDirectory (handoff receipt [partnerSigner]) 1 p →
        p = ⟨"partner"⟩ := by
  intro deal shipment
  have shipped : Shipped deal "po:r1" shipment := ⟨rfl, rfl, rfl, rfl, by decide⟩
  refine ⟨buildReceipt shipment ⟨"partner", "partner", "2026-01-01"⟩,
    (buyerFlow_tryApply deal).mpr (.receive shipped), rfl, ?_, ?_⟩
  · exact handoff_accepted (subset_cons_self _ _) rfl (by decide) mem_cons_self
      mem_cons_self rfl (by decide) 1
  · exact fun p has => (has.eq_of_sole rfl : p = partnerSigner.claimedPrincipal)

end GlassChain
