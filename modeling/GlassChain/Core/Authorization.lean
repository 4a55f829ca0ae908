import GlassChain.Core.Endorsement
import Mathlib.Data.Finset.Union
import Mathlib.Data.List.AList

/-!
# Who authorised a transaction

The evaluation of a policy over the principals that verifiably signed, the provider that finds them
by their registered keys, and what the acceptance of a transaction's carriers says about them. A
carrier is evaluated under the policies of the target it declares itself; a policy update is not
compared with the targets of its carriers.
-/

namespace GlassChain

open List PolicyExpression PolicyHistory

namespace PolicyExpression

mutual

def evaluate (principals : Finset Principal) : PolicyExpression → Bool
  | .signedBy principal => principal ∈ principals
  | .nOutOf required rules =>
    if rules.isEmpty || required == 0 then false
    else required ≤ satisfiedCount principals rules

def satisfiedCount (principals : Finset Principal) : List PolicyExpression → Nat
  | [] => 0
  | rule :: rules =>
    (if rule.evaluate principals then 1 else 0) + satisfiedCount principals rules

end

mutual

lemma evaluate_mono {P Q : Finset Principal} (sub : P ⊆ Q) :
    (e : PolicyExpression) → e.evaluate P = true → e.evaluate Q = true
  | .signedBy principal => by
    simp only [evaluate, decide_eq_true_eq]
    intro signed
    exact sub signed
  | .nOutOf required rules => by
    have more := satisfiedCount_mono sub rules
    simp only [evaluate]
    split
    · exact id
    · simp only [decide_eq_true_eq]
      omega

lemma satisfiedCount_mono {P Q : Finset Principal} (sub : P ⊆ Q) :
    (rules : List PolicyExpression) → satisfiedCount P rules ≤ satisfiedCount Q rules
  | [] => le_rfl
  | rule :: rules => by
    have first := evaluate_mono sub rule
    have rest := satisfiedCount_mono sub rules
    simp only [satisfiedCount]
    cases one : rule.evaluate P with
    | false => grind
    | true => grind

end

mutual

lemma evaluate_empty : (e : PolicyExpression) → e.evaluate ∅ = false
  | .signedBy principal => by simp [evaluate]
  | .nOutOf required rules => by
    simp only [evaluate, satisfiedCount_empty rules]
    grind

lemma satisfiedCount_empty : (rules : List PolicyExpression) → satisfiedCount ∅ rules = 0
  | [] => rfl
  | rule :: rules => by
    simp [satisfiedCount, evaluate_empty rule, satisfiedCount_empty rules]

end

end PolicyExpression

/-- A provider that authenticates signers: the distinct principals whose signatures over the request
verify as of a height. -/
structure PrincipalProvider where
  verify : EndorsementRequest → Nat → Except CoreError (Finset Principal)

namespace PrincipalProvider

/-- The expression is checked as metadata, then evaluated over the verified principals. -/
def evaluate (V : PrincipalProvider) : EndorsementProvider := fun expression request height => do
  expression.validate
  let distinct ← V.verify request height
  return expression.evaluate distinct

variable {V : PrincipalProvider} {policy : PolicyExpression} {request : EndorsementRequest}
  {height : Nat}

lemma evaluate_eq_true : V.evaluate policy request height = .ok true ↔
    policy.validate = .ok () ∧ ∃ P, V.verify request height = .ok P ∧ policy.evaluate P = true := by
  unfold evaluate
  rw [seq_eq_ok, bind_eq_ok]
  simp [pure, Except.pure]

/-- The principals that verifiably signed; none if the request is refused. -/
def principals (V : PrincipalProvider) (request : EndorsementRequest) (height : Nat) :
    Finset Principal :=
  match V.verify request height with
  | .ok P => P
  | .error _ => ∅

lemma principals_eq {P : Finset Principal} (h : V.verify request height = .ok P) :
    V.principals request height = P := by
  rw [principals, h]

end PrincipalProvider

structure RegisteredPrincipal where
  principal : Principal
  validFrom : Nat
  revokedAt : Option Nat

inductive HeightOutcome where
  | authorized
  | notYetValid
  | revoked (height : Nat)
  deriving DecidableEq

/-- The committed window: from `validFrom` on, up to a revocation. -/
def heightOutcome (validFrom : Nat) (revokedAt : Option Nat) (height : Nat) : HeightOutcome :=
  if height < validFrom then .notYetValid
  else match revokedAt with
    | some revoked => if revoked ≤ height then .revoked revoked else .authorized
    | none => .authorized

/-- The functions of `ed25519_dalek`. -/
structure Ed25519 where
  validKey : Bytes → Bool
  verify : (key message signature : Bytes) → Bool

/-- Ideal signatures: one of a key is over one message. -/
def Ed25519.SignsOne (C : Ed25519) : Prop := ∀ key message message' signature,
  C.verify key message signature = true → C.verify key message' signature = true →
    message = message'

structure MspEndorsementProvider where
  directory : AList fun _ : Bytes => RegisteredPrincipal

namespace MspEndorsementProvider

def authenticate (C : Ed25519) (M : MspEndorsementProvider) (height : Nat)
    (signer : EndorserIdentity) : Except CoreError RegisteredPrincipal :=
  match M.directory.lookup signer.publicKey with
  | none => .error (.invalidTransaction
      s!"endorsement: unknown signing key (hex {hexEncode (signer.publicKey.take 4)}...)")
  | some entry => do
    require (entry.principal = signer.claimedPrincipal) (.invalidTransaction
      (s!"endorsement: claimed principal '{signer.claimedPrincipal.name}' conflicts with " ++
        s!"verified principal '{entry.principal.name}'"))
    match heightOutcome entry.validFrom entry.revokedAt height with
    | .authorized => pure ()
    | .notYetValid => throw (.invalidTransaction
        (s!"endorsement: principal '{entry.principal.name}' is not authorized at height " ++
          s!"{height} (valid from {entry.validFrom})"))
    | .revoked revoked => throw (.invalidTransaction
        s!"endorsement: principal '{entry.principal.name}' was revoked at height {revoked}")
    require (signer.publicKey.length = 32) (.invalidTransaction
      "endorsement: public key is not 32 bytes")
    require (C.validKey signer.publicKey) (.invalidTransaction
      "endorsement: public key is not a valid ed25519 key")
    return entry

lemma authenticate_eq_ok {C : Ed25519} {M : MspEndorsementProvider} {height : Nat}
    {signer : EndorserIdentity} {entry : RegisteredPrincipal} :
    M.authenticate C height signer = .ok entry ↔
      M.directory.lookup signer.publicKey = some entry ∧
        entry.principal = signer.claimedPrincipal ∧
        heightOutcome entry.validFrom entry.revokedAt height = .authorized ∧
        signer.publicKey.length = 32 ∧ C.validKey signer.publicKey = true := by
  unfold authenticate
  cases known : M.directory.lookup signer.publicKey with
  | none => simp
  | some e =>
    simp only [seq_eq_ok, require_eq_ok, decide_eq_true_eq, Option.some.injEq]
    constructor
    · rintro ⟨claim, rest⟩
      cases outcome : heightOutcome e.validFrom e.revokedAt height with
      | authorized =>
        simp only [outcome, pure, Except.pure, seq_eq_ok, require_eq_ok, decide_eq_true_eq,
          Except.ok.injEq] at rest
        obtain ⟨long, valid, rfl⟩ := rest
        exact ⟨rfl, claim, outcome, long, valid⟩
      | notYetValid =>
        rw [outcome] at rest
        cases rest
      | revoked height =>
        rw [outcome] at rest
        cases rest
    · rintro ⟨rfl, claim, outcome, long, valid⟩
      refine ⟨claim, ?_⟩
      simp [outcome, pure, Except.pure, seq_eq_ok, long, valid]

def signed (C : Ed25519) (payload : Bytes) (signer : EndorserIdentity) : Bool :=
  signer.signature.length = 64 && C.verify signer.publicKey payload signer.signature

/-- One signer: refused, or counted if the signature verifies, else skipped. -/
def countSigner (C : Ed25519) (M : MspEndorsementProvider) (payload : Bytes) (height : Nat)
    (distinct : Finset Principal) (signer : EndorserIdentity) :
    Except CoreError (Finset Principal) := do
  let entry ← M.authenticate C height signer
  return if signed C payload signer then insert entry.principal distinct else distinct

def toPrincipalProvider (C : Ed25519) (M : MspEndorsementProvider) : PrincipalProvider where
  verify request height :=
    request.signers.foldlM (M.countSigner C request.payload height) ∅

lemma mem_foldlM_countSigner {C : Ed25519} {M : MspEndorsementProvider} {payload : Bytes}
    {height : Nat} {signers : List EndorserIdentity} {start distinct : Finset Principal}
    (run : signers.foldlM (M.countSigner C payload height) start = .ok distinct) (p : Principal) :
    p ∈ distinct ↔ p ∈ start ∨ ∃ signer ∈ signers, ∃ entry,
      M.authenticate C height signer = .ok entry ∧ entry.principal = p ∧
        signed C payload signer = true := by
  induction signers generalizing start with
  | nil =>
    cases run
    simp
  | cons signer rest ih =>
    rw [foldlM_cons, bind_eq_ok] at run
    obtain ⟨next, first, run⟩ := run
    simp only [countSigner, bind_eq_ok, pure, Except.pure, Except.ok.injEq] at first
    obtain ⟨entry, known, rfl⟩ := first
    rw [ih run]
    simp only [mem_cons, exists_eq_or_imp, known, Except.ok.injEq, exists_eq_left']
    grind

/-- The principals counted are those of the registered keys, in force at the height, that signed the
payload. -/
theorem mem_verify {C : Ed25519} {M : MspEndorsementProvider} {request : EndorsementRequest}
    {height : Nat} {distinct : Finset Principal}
    (run : (M.toPrincipalProvider C).verify request height = .ok distinct) (p : Principal) :
    p ∈ distinct ↔ ∃ signer ∈ request.signers, ∃ entry,
      M.authenticate C height signer = .ok entry ∧ entry.principal = p ∧
        signed C request.payload signer = true := by
  simpa using mem_foldlM_countSigner run p

end MspEndorsementProvider

def carrierRequest (X : Externals) (tx : Transaction) (e : TransactionEndorsement) :
    EndorsementRequest :=
  ⟨e.target, TransactionEndorsement.payload X tx, e.signers⟩

def TransactionKind.isRecord : TransactionKind → Bool
  | .canonicalRecord _ => true
  | _ => false

def TransactionKind.isPolicyUpdate : TransactionKind → Bool
  | .policyUpdate _ => true
  | _ => false

section Acceptance

variable {X : Externals} {provider : EndorsementProvider} {V : PrincipalProvider}
  {history : PolicyHistory} {tx : Transaction} {e : TransactionEndorsement} {height : Nat}
  {writes : List PersistentWrite}

lemma evaluateCarrier_eq_ok : evaluateCarrier X provider history tx height e = .ok () ↔
    ∀ policy ∈ (history.policiesFor e.target.channel e.target.contract).applicable e.target,
      provider policy (carrierRequest X tx e) height = .ok true := by
  unfold evaluateCarrier
  rw [forM_eq_forM, forM_eq_ok]
  refine forall₂_congr fun policy _ => ?_
  simp [bind_eq_ok, require_eq_ok, carrierRequest]

/-- A carrier passes if its signers verify and satisfy every layer of its own target. -/
theorem evaluateCarrier_principals : evaluateCarrier X V.evaluate history tx height e = .ok () ↔
    ∃ P, V.verify (carrierRequest X tx e) height = .ok P ∧
      ∀ policy ∈ (history.policiesFor e.target.channel e.target.contract).applicable e.target,
        policy.validate = .ok () ∧ policy.evaluate P = true := by
  rw [evaluateCarrier_eq_ok]
  simp only [PrincipalProvider.evaluate_eq_true]
  constructor
  · intro passed
    obtain ⟨-, P, verified, -⟩ := passed
      (history.policiesFor e.target.channel e.target.contract).channelDefault
      (by simp [ScopedPolicies.applicable])
    refine ⟨P, verified, fun policy member => ?_⟩
    obtain ⟨valid, Q, verified', holds⟩ := passed policy member
    obtain rfl : P = Q := Except.ok.inj (verified.symm.trans verified')
    exact ⟨valid, holds⟩
  · rintro ⟨P, verified, passed⟩ policy member
    obtain ⟨valid, holds⟩ := passed policy member
    exact ⟨valid, P, verified, holds⟩

lemma evaluateTransactionEndorsements_eq_ok :
    evaluateTransactionEndorsements X provider history tx writes height = .ok () ↔
      (∀ w ∈ writes, ∃ e ∈ tx.endorsements, e.covers w = true) ∧
      (tx.kind.isPolicyUpdate = true → tx.endorsements ≠ []) ∧
      (tx.kind.isRecord = false →
        ∀ e ∈ tx.endorsements, evaluateCarrier X provider history tx height e = .ok ()) ∧
      evaluateDefault X provider tx height = .ok () := by
  have covered : (∀ w ∈ writes, ∃ e ∈ tx.endorsements, e.covers w = true) ↔
      (writes.find? fun w => !(tx.endorsements.any fun e => e.covers w)) = none := by
    simp
  rw [covered]
  unfold evaluateTransactionEndorsements
  cases uncovered : writes.find? fun w => !(tx.endorsements.any fun e => e.covers w) with
  | some w => simp [throw, throwThe, MonadExceptOf.throw, bind, Except.bind]
  | none =>
    cases kind : tx.kind <;>
      simp [TransactionKind.isPolicyUpdate, TransactionKind.isRecord, seq_eq_ok, forM_eq_ok,
        require_eq_ok]

end Acceptance

namespace PolicyHistory

def Valid (h : PolicyHistory) : Prop := ∀ u ∈ h.updates, check u = .ok ()

/-- No valid update is for the empty channel. -/
theorem Valid.policiesFor_empty {h : PolicyHistory} (valid : h.Valid) (contract : String) :
    h.policiesFor "" contract = defaultPolicies := by
  have none (p : String → Bool) :
      h.updates.reverse.find? (fun u => u.channel == "" && p u.contract) = .none := by
    refine find?_eq_none.mpr fun u member => ?_
    have named := (seq_eq_ok.mp (valid u (mem_reverse.mp member))).1
    simp only [require_eq_ok, decide_eq_true_eq] at named
    simp [named]
  unfold policiesFor
  rw [none (· == contract), none (· == "")]
  rfl

/-- The exact scope decides when all its updates say the same. -/
theorem policiesFor_of_exact {h : PolicyHistory} {channel contract : String} {p : ScopedPolicies}
    (found : ∃ u ∈ h.updates, u.channel = channel ∧ u.contract = contract)
    (same : ∀ u ∈ h.updates, u.channel = channel → u.contract = contract → u.policies = p) :
    h.policiesFor channel contract = p := by
  obtain ⟨u, member, rfl, rfl⟩ := found
  have some : (h.updates.reverse.find? fun v =>
      v.channel == u.channel && v.contract == u.contract).isSome = true := by
    rw [find?_isSome]
    exact ⟨u, mem_reverse.mpr member, by simp⟩
  obtain ⟨v, last⟩ := Option.isSome_iff_exists.mp some
  have scope := find?_some last
  simp only [Bool.and_eq_true, beq_iff_eq] at scope
  unfold policiesFor
  rw [last]
  exact same v (mem_reverse.mp (mem_of_find?_eq_some last)) scope.1 scope.2

end PolicyHistory

def ScopedPolicies.scopeLayers (p : ScopedPolicies) : List PolicyExpression :=
  p.channelDefault :: p.contractDefault.toList

lemma ScopedPolicies.scopeLayers_subset (p : ScopedPolicies) (target : ScopedTarget) :
    p.scopeLayers ⊆ p.applicable target := by
  intro policy member
  simp only [applicable, mem_append]
  exact .inl (.inl member)

def PrincipalProvider.signers (V : PrincipalProvider) (X : Externals) (tx : Transaction)
    (height : Nat) : Finset Principal :=
  tx.endorsements.toFinset.biUnion fun e => V.principals (carrierRequest X tx e) height

section Updates

variable {X : Externals} {V : PrincipalProvider} {history : PolicyHistory} {tx : Transaction}
  {e : TransactionEndorsement} {height : Nat}

/-- A carrier that passed, for the scope: its layers hold of the transaction's signers. -/
theorem scopeLayers_of_evaluateCarrier (member : e ∈ tx.endorsements)
    (passed : evaluateCarrier X V.evaluate history tx height e = .ok ()) :
    ∀ policy ∈ (history.policiesFor e.target.channel e.target.contract).scopeLayers,
      policy.evaluate (V.signers X tx height) = true := by
  intro policy layer
  obtain ⟨P, verified, holds⟩ := evaluateCarrier_principals.mp passed
  have sub : P ⊆ V.signers X tx height := by
    rw [← PrincipalProvider.principals_eq verified]
    exact Finset.subset_biUnion_of_mem (fun e => V.principals (carrierRequest X tx e) height)
      (mem_toFinset.mpr member)
  exact evaluate_mono sub policy (holds policy (ScopedPolicies.scopeLayers_subset _ _ layer)).2

def soleOwner (name : String) : ScopedPolicies := ⟨.signedBy ⟨name⟩, none, none, []⟩

lemma soleOwner_applicable (name : String) (target : ScopedTarget) :
    (soleOwner name).applicable target = [.signedBy ⟨name⟩] := by
  simp [soleOwner, ScopedPolicies.applicable, lookup]

/-- A history in which the scopes of the carriers belong to one principal and the scope of the
update, written last, to another. -/
def dividedHistory (u : PolicyUpdate) (carriers : List TransactionEndorsement) : PolicyHistory :=
  ⟨(carriers.filter fun e => e.target.channel ≠ "").map
      (fun e => ⟨e.target.channel, e.target.contract, soleOwner "other"⟩) ++
    if u.channel = "" then [] else [⟨u.channel, u.contract, soleOwner "owner"⟩]⟩

lemma dividedHistory_valid (u : PolicyUpdate) (carriers : List TransactionEndorsement) :
    (dividedHistory u carriers).Valid := by
  have check_ok {channel contract name : String} (named : channel ≠ "") (owner : name ≠ "") :
      PolicyHistory.check ⟨channel, contract, soleOwner name⟩ = .ok () := by
    simp [check, seq_eq_ok, named, soleOwner, ScopedPolicies.validate, validate, owner]
  intro v member
  obtain carrier | update := mem_append.mp member
  · obtain ⟨e, kept, rfl⟩ := mem_map.mp carrier
    exact check_ok (by simpa using (mem_filter.mp kept).2) (by decide)
  · split at update
    · cases update
    · rename_i named
      rw [mem_singleton.mp update]
      exact check_ok named (by decide)

def Elsewhere (u : PolicyUpdate) (e : TransactionEndorsement) : Prop :=
  e.target.channel = u.channel → u.channel ≠ "" ∧ e.target.contract ≠ u.contract

variable {u : PolicyUpdate} {carriers : List TransactionEndorsement}

lemma mem_dividedHistory {v : PolicyUpdate} (member : v ∈ (dividedHistory u carriers).updates) :
    (∃ e ∈ carriers, v = ⟨e.target.channel, e.target.contract, soleOwner "other"⟩) ∨
      v = ⟨u.channel, u.contract, soleOwner "owner"⟩ := by
  obtain carrier | update := mem_append.mp member
  · obtain ⟨e, kept, rfl⟩ := mem_map.mp carrier
    exact .inl ⟨e, (mem_filter.mp kept).1, rfl⟩
  · split at update
    · cases update
    · exact .inr (mem_singleton.mp update)

lemma dividedHistory_carrier (member : e ∈ carriers) (elsewhere : Elsewhere u e) :
    (dividedHistory u carriers).policiesFor e.target.channel e.target.contract =
      soleOwner (if e.target.channel = "" then networkGovernancePrincipal else "other") := by
  by_cases empty : e.target.channel = ""
  · rw [if_pos empty, empty, (dividedHistory_valid u carriers).policiesFor_empty]
    rfl
  · rw [if_neg empty]
    refine policiesFor_of_exact ⟨⟨_, _, soleOwner "other"⟩, ?_, rfl, rfl⟩ ?_
    · exact mem_append_left _ (mem_map.mpr ⟨e, mem_filter.mpr ⟨member, by simpa using empty⟩, rfl⟩)
    · intro v updated channel contract
      obtain ⟨e', -, rfl⟩ | rfl := mem_dividedHistory updated
      · rfl
      · exact absurd contract.symm (elsewhere channel.symm).2

lemma dividedHistory_update (elsewhere : ∀ e ∈ carriers, Elsewhere u e) :
    (dividedHistory u carriers).policiesFor u.channel u.contract =
      soleOwner (if u.channel = "" then networkGovernancePrincipal else "owner") := by
  by_cases empty : u.channel = ""
  · rw [if_pos empty, empty, (dividedHistory_valid u carriers).policiesFor_empty]
    rfl
  · rw [if_neg empty]
    refine policiesFor_of_exact ⟨⟨_, _, soleOwner "owner"⟩, ?_, rfl, rfl⟩ ?_
    · refine mem_append_right _ ?_
      rw [if_neg empty]
      exact mem_singleton_self _
    · intro v updated channel contract
      obtain ⟨e, member, rfl⟩ | rfl := mem_dividedHistory updated
      · exact absurd contract (elsewhere e member channel).2
      · rfl

/-- An update whose transaction passes is authorised by the scope it replaces, whatever the
policies, the provider and the height, exactly when one of its carriers declares that scope. (No
update is committed for the empty channel.) -/
theorem policy_update_authorised_iff (X : Externals) (tx : Transaction) (u : PolicyUpdate)
    (kind : tx.kind = .policyUpdate u) :
    (∀ (history : PolicyHistory) (V : PrincipalProvider) (writes : List PersistentWrite)
      (height : Nat), history.Valid →
        evaluateTransactionEndorsements X V.evaluate history tx writes height = .ok () →
        ∀ policy ∈ (history.policiesFor u.channel u.contract).scopeLayers,
          policy.evaluate (V.signers X tx height) = true) ↔
      (tx.endorsements = [] ∨ ∃ e ∈ tx.endorsements, e.target.channel = u.channel ∧
        (u.channel = "" ∨ e.target.contract = u.contract)) := by
  constructor
  · intro authorised
    by_contra declared
    obtain ⟨carried, undeclared⟩ := not_or.mp declared
    have elsewhere : ∀ e ∈ tx.endorsements, Elsewhere u e := by
      intro e member channel
      exact not_or.mp fun scope => undeclared ⟨e, member, channel, scope⟩
    -- everybody signs but the owner of the scope
    let present : Finset Principal :=
      if u.channel = "" then {⟨"other"⟩} else {⟨"other"⟩, ⟨networkGovernancePrincipal⟩}
    let V : PrincipalProvider := ⟨fun _ _ => .ok present⟩
    have accepted : evaluateTransactionEndorsements X V.evaluate (dividedHistory u tx.endorsements)
        tx [] 0 = .ok () := by
      refine evaluateTransactionEndorsements_eq_ok.mpr
        ⟨by simp, fun _ => carried, fun _ e member => ?_, ?_⟩
      · refine evaluateCarrier_principals.mpr ⟨present, rfl, ?_⟩
        rw [dividedHistory_carrier member (elsewhere e member), soleOwner_applicable]
        have apart := elsewhere e member
        simp only [mem_singleton, forall_eq, validate, require_eq_ok,
          evaluate, decide_eq_true_eq, present, networkGovernancePrincipal]
        unfold Elsewhere at apart
        split <;> split <;> grind
      · simp [evaluateDefault, operationDefault, kind, pure, Except.pure, bind, Except.bind]
    have signers : V.signers X tx 0 ⊆ present :=
      Finset.biUnion_subset.mpr fun e _ => (PrincipalProvider.principals_eq rfl).subset
    have owner := authorised _ V [] 0 (dividedHistory_valid u tx.endorsements) accepted
      (.signedBy ⟨if u.channel = "" then networkGovernancePrincipal else "owner"⟩)
      (by rw [dividedHistory_update elsewhere]; exact mem_cons_self)
    have signed := signers (of_decide_eq_true owner)
    simp only [present, networkGovernancePrincipal] at signed
    split at signed <;> simp at signed
  · intro declared history V writes height valid accepted
    obtain ⟨-, carried, passed, -⟩ := evaluateTransactionEndorsements_eq_ok.mp accepted
    have carried : tx.endorsements ≠ [] := carried (by rw [kind]; rfl)
    obtain ⟨e, member, channel, scope⟩ := declared.resolve_left carried
    have holds := scopeLayers_of_evaluateCarrier member (passed (by rw [kind]; rfl) e member)
    have same : history.policiesFor e.target.channel e.target.contract =
        history.policiesFor u.channel u.contract := by
      obtain empty | exact := scope
      · rw [channel, empty, valid.policiesFor_empty, valid.policiesFor_empty]
      · rw [channel, exact]
    rwa [same] at holds

end Updates

def partnerKey : Bytes := List.replicate 32 7

def partnerSigner : EndorserIdentity := ⟨⟨"partner"⟩, partnerKey, List.replicate 64 0, .ed25519⟩

/-- The update of the policies of `(supply, inventory)`, with one carrier for the given contract,
signed by the partner. -/
def sampleUpdateTx (contract : String) : Transaction :=
  ⟨"update", 0, .policyUpdate ⟨"supply", "inventory", soleOwner "partner"⟩,
    [⟨⟨"supply", contract, [], none⟩, [partnerSigner]⟩]⟩

def sampleHistory : PolicyHistory :=
  ⟨[⟨"supply", "inventory", soleOwner "owner"⟩, ⟨"supply", "orders", soleOwner "partner"⟩]⟩

def partnerDirectory : AList fun _ : Bytes => RegisteredPrincipal :=
  (∅ : AList fun _ : Bytes => RegisteredPrincipal).insert partnerKey ⟨⟨"partner"⟩, 0, none⟩

def samplePartner : PrincipalProvider :=
  MspEndorsementProvider.toPrincipalProvider ⟨fun _ => true, fun _ _ _ => true⟩ ⟨partnerDirectory⟩

lemma partnerDirectory_verify {C : Ed25519} {request : EndorsementRequest}
    (only : request.signers = [partnerSigner]) (valid : C.validKey partnerKey = true)
    (verifies : C.verify partnerKey request.payload partnerSigner.signature = true) (height : Nat) :
    (MspEndorsementProvider.toPrincipalProvider C ⟨partnerDirectory⟩).verify request height =
      .ok {⟨"partner"⟩} := by
  have known : MspEndorsementProvider.authenticate C ⟨partnerDirectory⟩ height partnerSigner =
      .ok ⟨⟨"partner"⟩, 0, none⟩ :=
    MspEndorsementProvider.authenticate_eq_ok.mpr
      ⟨AList.lookup_insert _, rfl, by simp [heightOutcome], rfl, valid⟩
  have counted : MspEndorsementProvider.signed C request.payload partnerSigner = true := by
    rw [MspEndorsementProvider.signed, Bool.and_eq_true]
    exact ⟨rfl, verifies⟩
  simp [MspEndorsementProvider.toPrincipalProvider, only, MspEndorsementProvider.countSigner, known,
    counted, bind, Except.bind, pure, Except.pure]

lemma samplePartner_verify (contract : String) (X : Externals) (height : Nat) :
    ∀ e ∈ (sampleUpdateTx contract).endorsements,
      samplePartner.verify (carrierRequest X (sampleUpdateTx contract) e) height =
        .ok {⟨"partner"⟩} := by
  intro e member
  rw [mem_singleton.mp member]
  exact partnerDirectory_verify rfl rfl rfl height

lemma sampleHistory_valid : sampleHistory.Valid := by
  intro u member
  simp only [sampleHistory, mem_cons, not_mem_nil, or_false] at member
  obtain rfl | rfl := member <;> rfl

/-- A verified signature of the carrier's scope is all that is asked for. -/
theorem sampleUpdate_accepted {contract owner : String} {V : PrincipalProvider} (named : owner ≠ "")
    (verified : ∀ e ∈ (sampleUpdateTx contract).endorsements,
      V.verify (carrierRequest (.plain 0) (sampleUpdateTx contract) e) 1 = .ok {⟨owner⟩})
    (layers : sampleHistory.policiesFor "supply" contract = soleOwner owner) :
    evaluateTransactionEndorsements (.plain 0) V.evaluate sampleHistory (sampleUpdateTx contract) []
      1 = .ok () := by
  refine evaluateTransactionEndorsements_eq_ok.mpr ⟨by simp, fun _ => by simp [sampleUpdateTx],
    fun _ e member => evaluateCarrier_principals.mpr ⟨_, verified e member, ?_⟩, rfl⟩
  rw [mem_singleton.mp member, layers, soleOwner_applicable]
  intro policy layer
  rw [mem_singleton.mp layer]
  exact ⟨by simpa [validate] using named, by simp [evaluate]⟩

def sampleOwner : PrincipalProvider := ⟨fun _ _ => .ok {⟨"owner"⟩}⟩

/-- With a carrier for the scope itself the owner authorises the update. -/
theorem policy_update_authorised_sample :
    evaluateTransactionEndorsements (.plain 0) sampleOwner.evaluate sampleHistory
        (sampleUpdateTx "inventory") [] 1 = .ok () ∧
      (PolicyExpression.signedBy ⟨"owner"⟩).evaluate
        (sampleOwner.signers (.plain 0) (sampleUpdateTx "inventory") 1) = true := by
  have accepted := sampleUpdate_accepted (V := sampleOwner) (by decide) (fun _ _ => rfl)
    (show sampleHistory.policiesFor "supply" "inventory" = soleOwner "owner" from rfl)
  have authorised := (policy_update_authorised_iff (.plain 0) (sampleUpdateTx "inventory") _ rfl).mpr
    (.inr ⟨_, mem_cons_self, rfl, .inr rfl⟩)
  exact ⟨accepted, authorised sampleHistory sampleOwner [] 1 sampleHistory_valid accepted _
    mem_cons_self⟩

/-- The partner replaces the owner's policies with a carrier for a scope of its own. -/
theorem policy_update_by_stranger :
    sampleHistory.Valid ∧
      evaluateTransactionEndorsements (.plain 0) samplePartner.evaluate sampleHistory
        (sampleUpdateTx "orders") [] 1 = .ok () ∧
      (sampleHistory.policiesFor "supply" "inventory").scopeLayers = [.signedBy ⟨"owner"⟩] ∧
      samplePartner.signers (.plain 0) (sampleUpdateTx "orders") 1 = {⟨"partner"⟩} := by
  have verified := samplePartner_verify "orders" (.plain 0) 1
  refine ⟨sampleHistory_valid, sampleUpdate_accepted (by decide) verified rfl, rfl, ?_⟩
  have single : (sampleUpdateTx "orders").endorsements.toFinset =
      {(sampleUpdateTx "orders").endorsements.head (by simp [sampleUpdateTx])} := rfl
  rw [PrincipalProvider.signers, single, Finset.singleton_biUnion]
  exact PrincipalProvider.principals_eq (verified _ (head_mem _))

end GlassChain
