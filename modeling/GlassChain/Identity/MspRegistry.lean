import GlassChain.Core.Authorization
import GlassChain.Network.Handshake
import Mathlib.Data.Finset.Sort

/-!
# The registry of MSP keys over its history

`register_certificate` inserts an entry under the key of a verified certificate, `revoke` overwrites
the height from which a registered key is void. Both overwrite: a second registration erases the
window of the first, a second revocation moves the end of the window. `evaluate` at a height reads
the directory only through who is in force at that height.
-/

namespace GlassChain

open AList MspEndorsementProvider

instance : LinearOrder Principal := LinearOrder.lift' Principal.name fun p q same => by
  cases p
  cases q
  exact congrArg Principal.mk same

structure EndorsementEvaluation where
  satisfied : Bool
  distinctPrincipals : List Principal
  required : Nat
  deriving DecidableEq, Repr

namespace MspEndorsementProvider

def evaluate (C : Ed25519) (M : MspEndorsementProvider) (expression : PolicyExpression)
    (request : EndorsementRequest) (height : Nat) : Except CoreError EndorsementEvaluation := do
  expression.validate
  let distinct ← (M.toPrincipalProvider C).verify request height
  return ⟨expression.evaluate distinct, distinct.sort, expression.requiredCount⟩

def principalAt (height : Nat) (entry : Option RegisteredPrincipal) : Option Principal :=
  entry.bind fun e =>
    if heightOutcome e.validFrom e.revokedAt height = .authorized then some e.principal else none

def inForce (M : MspEndorsementProvider) (height : Nat) (key : Bytes) : Option Principal :=
  principalAt height (M.directory.lookup key)

variable {C : Ed25519} {M M' : MspEndorsementProvider} {height : Nat}

lemma principalAt_eq_some {entry : Option RegisteredPrincipal} {p : Principal} :
    principalAt height entry = some p ↔ ∃ e, entry = some e ∧
      heightOutcome e.validFrom e.revokedAt height = .authorized ∧ e.principal = p := by
  simp [principalAt, Option.bind_eq_some_iff]

lemma countSigner_eq_ok {payload : Bytes} {signer : EndorserIdentity}
    {distinct next : Finset Principal} :
    M.countSigner C payload height distinct signer = .ok next ↔
      M.inForce height signer.publicKey = some signer.claimedPrincipal ∧
        signer.publicKey.length = 32 ∧ C.validKey signer.publicKey = true ∧
        next = if signed C payload signer then insert signer.claimedPrincipal distinct
          else distinct := by
  simp only [countSigner, bind_eq_ok, authenticate_eq_ok, pure, Except.pure, Except.ok.injEq,
    inForce, principalAt_eq_some]
  constructor
  · rintro ⟨entry, ⟨known, claim, outcome, long, valid⟩, rfl⟩
    exact ⟨⟨entry, known, outcome, claim⟩, long, valid, by rw [claim]⟩
  · rintro ⟨⟨entry, known, outcome, claim⟩, long, valid, rfl⟩
    exact ⟨entry, ⟨known, claim, outcome, long, valid⟩, by rw [claim]⟩

/-- Two directories have the same keys in force at a height, among those a signer can use. -/
def Agree (C : Ed25519) (height : Nat) (M M' : MspEndorsementProvider) : Prop :=
  ∀ key, key.length = 32 → C.validKey key = true → M.inForce height key = M'.inForce height key

lemma Agree.symm (h : Agree C height M M') : Agree C height M' M :=
  fun key long valid => (h key long valid).symm

lemma Agree.verify (h : Agree C height M M') {request : EndorsementRequest}
    {distinct : Finset Principal}
    (passed : (M.toPrincipalProvider C).verify request height = .ok distinct) :
    (M'.toPrincipalProvider C).verify request height = .ok distinct := by
  obtain ⟨target, payload, signers⟩ := request
  simp only [toPrincipalProvider] at passed ⊢
  generalize (∅ : Finset Principal) = start at passed ⊢
  induction signers generalizing start with
  | nil => exact passed
  | cons signer rest ih =>
    rw [List.foldlM_cons, bind_eq_ok] at passed ⊢
    obtain ⟨next, counted, passed⟩ := passed
    refine ⟨next, ?_, ih next passed⟩
    obtain ⟨known, long, valid, next⟩ := countSigner_eq_ok.mp counted
    exact countSigner_eq_ok.mpr ⟨h _ long valid ▸ known, long, valid, next⟩

lemma evaluate_eq_ok {expression : PolicyExpression} {request : EndorsementRequest}
    {result : EndorsementEvaluation} :
    M.evaluate C expression request height = .ok result ↔ expression.validate = .ok () ∧
      ∃ distinct, (M.toPrincipalProvider C).verify request height = .ok distinct ∧
        result = ⟨expression.evaluate distinct, distinct.sort, expression.requiredCount⟩ := by
  simp only [evaluate, bind_eq_ok, Unique.exists_iff, PUnit.default_eq_unit, pure, Except.pure,
    Except.ok.injEq, eq_comm (a := result)]

/-- The request of one signer with an empty signature: it passes, without a principal, if the key is
in force for the claimed one. -/
def probe (key : Bytes) (p : Principal) : EndorsementRequest :=
  ⟨⟨"", "", [], none⟩, [], [⟨p, key, [], .ed25519⟩]⟩

lemma verify_probe {key : Bytes} {p : Principal} :
    (∃ distinct, (M.toPrincipalProvider C).verify (probe key p) height = .ok distinct) ↔
      M.inForce height key = some p ∧ key.length = 32 ∧ C.validKey key = true := by
  simp [toPrincipalProvider, probe, bind_eq_ok, pure, Except.pure, countSigner_eq_ok]

/-- Two directories answer alike, errors counted as equal, exactly if they agree. -/
theorem evaluate_eq_iff :
    (∀ expression request, (M.evaluate C expression request height).toOption =
      (M'.evaluate C expression request height).toOption) ↔ Agree C height M M' := by
  constructor
  · intro same key long valid
    ext p
    have probed := same (.signedBy ⟨"member"⟩) (probe key p)
    have named : (PolicyExpression.signedBy ⟨"member"⟩).validate = .ok () := rfl
    have passes (N : MspEndorsementProvider) : N.inForce height key = some p ↔
        ∃ result, (N.evaluate C (.signedBy ⟨"member"⟩) (probe key p) height).toOption =
          some result := by
      simp only [toOption_eq_some, evaluate_eq_ok, named, true_and,
        exists_comm (α := EndorsementEvaluation), exists_and_left, exists_eq, and_true, verify_probe,
        long, valid]
    rw [passes M, passes M', probed]
  · intro agree expression request
    ext result
    simp only [toOption_eq_some, evaluate_eq_ok]
    refine and_congr_right fun _ => exists_congr fun distinct => and_congr_left fun _ => ?_
    exact ⟨agree.verify, agree.symm.verify⟩

end MspEndorsementProvider

structure MspPki extends Pki where
  certificateOrganization : String → Option String

inductive MspRegistrationError where
  | certificate (reason : String)
  | orgMismatch (org subject : String)
  | noPublicKey
  | proofInvalid
  deriving DecidableEq, Repr

def mspRegistrationMessage (org : String) (publicKey : Bytes) : Bytes :=
  utf8 "glasschain-msp-registration:" ++ lengthPrefixed (utf8 org) ++ lengthPrefixed publicKey

namespace MspEndorsementProvider

variable (K : MspPki)

/-- The checks of `register_certificate`: the key it registers. `verifyCertPem` is the verifier at
the time of the call. -/
def registrationKey (certPem : String) (proof : Bytes) (org : String)
    (verifyCertPem : String → Except String Unit) : Except MspRegistrationError Bytes := do
  (verifyCertPem certPem).mapError .certificate
  let subject := (K.certificateOrganization certPem).getD "(absent)"
  if subject ≠ org then throw (.orgMismatch org subject)
  match K.certificateEd25519PublicKey certPem with
  | none => throw .noPublicKey
  | some publicKey =>
    if !verifyEd25519 K.ed25519 publicKey (mspRegistrationMessage org publicKey) proof then
      throw .proofInvalid
    return publicKey

lemma registrationKey_eq_ok {certPem org : String} {proof key : Bytes}
    {verifyCertPem : String → Except String Unit} :
    registrationKey K certPem proof org verifyCertPem = .ok key ↔
      verifyCertPem certPem = .ok () ∧ (K.certificateOrganization certPem).getD "(absent)" = org ∧
        K.certificateEd25519PublicKey certPem = some key ∧
        verifyEd25519 K.ed25519 key (mspRegistrationMessage org key) proof = true := by
  unfold registrationKey
  cases checked : verifyCertPem certPem with
  | error e => simp [Except.mapError, bind, Except.bind]
  | ok _ =>
    by_cases named : (K.certificateOrganization certPem).getD "(absent)" = org
    · cases held : K.certificateEd25519PublicKey certPem with
      | none => simp [Except.mapError, bind, Except.bind, named, throw, throwThe,
          MonadExceptOf.throw]
      | some publicKey =>
        cases proved : verifyEd25519 K.ed25519 publicKey (mspRegistrationMessage org publicKey) proof
        all_goals
          simp [Except.mapError, bind, Except.bind, named, proved, throw, throwThe,
            MonadExceptOf.throw, pure, Except.pure]
          grind
    · simp [Except.mapError, bind, Except.bind, named, throw, throwThe, MonadExceptOf.throw]

def registerCertificate (M : MspEndorsementProvider) (certPem : String) (proof : Bytes)
    (org : String) (verifyCertPem : String → Except String Unit) (validFromHeight : Nat) :
    Except MspRegistrationError MspEndorsementProvider := do
  let publicKey ← registrationKey K certPem proof org verifyCertPem
  return ⟨M.directory.insert publicKey ⟨⟨org⟩, validFromHeight, none⟩⟩

/-- `false` for an unknown key. -/
def revoke (M : MspEndorsementProvider) (publicKey : Bytes) (atHeight : Nat) :
    MspEndorsementProvider × Bool :=
  match M.directory.lookup publicKey with
  | some entry => (⟨M.directory.insert publicKey { entry with revokedAt := some atHeight }⟩, true)
  | none => (M, false)

end MspEndorsementProvider

inductive RegistryCall where
  | registerCertificate (certPem : String) (proof : Bytes) (org : String)
      (verifyCertPem : String → Except String Unit) (validFromHeight : Nat)
  | revoke (publicKey : Bytes) (atHeight : Nat)

namespace RegistryCall

variable (K : MspPki)

def height : RegistryCall → Nat
  | registerCertificate _ _ _ _ validFromHeight => validFromHeight
  | revoke _ atHeight => atHeight

/-- The key a call registers; none if it fails. -/
def registers : RegistryCall → Option Bytes
  | registerCertificate certPem proof org verifyCertPem _ =>
    (MspEndorsementProvider.registrationKey K certPem proof org verifyCertPem).toOption
  | revoke .. => none

def revokes : RegistryCall → Option Bytes
  | registerCertificate .. => none
  | revoke publicKey _ => some publicKey

/-- The registry after a call; one that fails leaves it as it was. -/
def apply (M : MspEndorsementProvider) : RegistryCall → MspEndorsementProvider
  | registerCertificate certPem proof org verifyCertPem validFromHeight =>
    (M.registerCertificate K certPem proof org verifyCertPem validFromHeight).toOption.getD M
  | revoke publicKey atHeight => (M.revoke publicKey atHeight).1

def run (M : MspEndorsementProvider) (calls : List RegistryCall) : MspEndorsementProvider :=
  calls.foldl (apply K) M

variable {K} {M : MspEndorsementProvider} {call : RegistryCall} {calls : List RegistryCall}
  {key : Bytes} {h : Nat}

lemma lookup_apply_cases (K : MspPki) (M : MspEndorsementProvider) (call : RegistryCall)
    (key : Bytes) :
    (call.registers K = some key ∧ ∃ p,
      (call.apply K M).directory.lookup key = some ⟨p, call.height, none⟩) ∨
    (call.registers K ≠ some key ∧ call.revokes = some key ∧
      (call.apply K M).directory.lookup key =
        (M.directory.lookup key).map ({ · with revokedAt := some call.height })) ∨
    (call.registers K ≠ some key ∧ call.revokes ≠ some key ∧
      (call.apply K M).directory.lookup key = M.directory.lookup key) := by
  cases call with
  | registerCertificate certPem proof org verifyCertPem validFrom =>
    simp only [registers, revokes, apply, height, MspEndorsementProvider.registerCertificate]
    cases MspEndorsementProvider.registrationKey K certPem proof org verifyCertPem with
    | error e => exact .inr (.inr ⟨by simp [Except.toOption], by simp, rfl⟩)
    | ok publicKey =>
      by_cases same : publicKey = key
      · subst same
        exact .inl ⟨rfl, ⟨org⟩, lookup_insert _⟩
      · refine .inr (.inr ⟨by simpa [Except.toOption] using same, by simp, ?_⟩)
        exact lookup_insert_ne (Ne.symm same)
  | revoke publicKey atHeight =>
    refine .inr ?_
    simp only [registers, revokes, apply, height, MspEndorsementProvider.revoke]
    by_cases same : publicKey = key
    · subst same
      refine .inl ⟨by simp, rfl, ?_⟩
      cases known : M.directory.lookup publicKey with
      | none => simp [known]
      | some entry => simp [lookup_insert]
    · refine .inr ⟨by simp, by simpa using same, ?_⟩
      cases M.directory.lookup publicKey with
      | none => rfl
      | some entry => exact lookup_insert_ne (Ne.symm same)

/-- The key has no window that reaches back to `h`. -/
def Blank (h : Nat) (M : MspEndorsementProvider) (key : Bytes) : Prop :=
  ∀ entry, M.directory.lookup key = some entry → h < entry.validFrom

lemma Blank.inForce (blank : Blank h M key) : M.inForce h key = none := by
  unfold MspEndorsementProvider.inForce principalAt
  cases known : M.directory.lookup key with
  | none => rfl
  | some entry => simp [heightOutcome, blank entry known]

lemma Blank.apply (blank : Blank h M key) (forward : h < call.height) :
    Blank h (call.apply K M) key := by
  intro entry known
  rcases lookup_apply_cases K M call key with ⟨-, p, found⟩ | ⟨-, -, found⟩ | ⟨-, -, found⟩
  · rw [found] at known
    cases known
    exact forward
  · rw [found] at known
    obtain ⟨old, before, rfl⟩ := Option.map_eq_some_iff.mp known
    exact blank old before
  · exact blank entry (found ▸ known)

lemma Blank.run (blank : Blank h M key) (forward : ∀ call ∈ calls, h < call.height) :
    Blank h (run K M calls) key := by
  induction calls generalizing M with
  | nil => exact blank
  | cons call rest ih =>
    exact ih (blank.apply (forward call (by simp))) fun c hc => forward c (by simp [hc])

/-- A registration from above `h` erases what the key was at `h`. -/
theorem blank_of_registered (forward : ∀ call ∈ calls, h < call.height)
    (registered : ∃ call ∈ calls, call.registers K = some key) : Blank h (run K M calls) key := by
  induction calls generalizing M with
  | nil => simp at registered
  | cons call rest ih =>
    have later : ∀ c ∈ rest, h < c.height := fun c hc => forward c (by simp [hc])
    by_cases here : call.registers K = some key
    · refine Blank.run (M := call.apply K M) (fun entry known => ?_) later
      obtain ⟨-, p, found⟩ := (lookup_apply_cases K M call key).resolve_right (by grind)
      rw [found] at known
      cases known
      exact forward call (by simp)
    · refine ih later ?_
      obtain ⟨c, hc, same⟩ := registered
      rcases List.mem_cons.mp hc with rfl | hc
      · exact absurd same here
      · exact ⟨c, hc, same⟩

/-- Without a registration the entry changes by revocations from above `h` at most. -/
theorem lookup_run_of_not_registered (M : MspEndorsementProvider)
    (forward : ∀ call ∈ calls, h < call.height)
    (quiet : ∀ call ∈ calls, call.registers K ≠ some key) :
    ((∀ call ∈ calls, call.revokes ≠ some key) ∧
      (run K M calls).directory.lookup key = M.directory.lookup key) ∨
    ((∃ call ∈ calls, call.revokes = some key) ∧ ∃ r, h < r ∧
      (run K M calls).directory.lookup key =
        (M.directory.lookup key).map ({ · with revokedAt := some r })) := by
  induction calls generalizing M with
  | nil => exact .inl ⟨by simp, rfl⟩
  | cons call rest ih =>
    have first := (lookup_apply_cases K M call key).resolve_left fun here =>
      quiet call (by simp) here.1
    rcases ih (call.apply K M) (fun c hc => forward c (by simp [hc]))
      fun c hc => quiet c (by simp [hc]) with ⟨none, same⟩ | ⟨⟨c, hc, revoked⟩, r, above, last⟩
    · rcases first with ⟨-, here, found⟩ | ⟨-, other, found⟩
      · refine .inr ⟨⟨call, by simp, here⟩, call.height, forward call (by simp), ?_⟩
        exact same.trans found
      · refine .inl ⟨fun c hc => ?_, same.trans found⟩
        rcases List.mem_cons.mp hc with rfl | hc
        · exact other
        · exact none c hc
    · -- a later revocation overwrites whatever this call left
      refine .inr ⟨⟨c, by simp [hc], revoked⟩, r, above, last.trans ?_⟩
      rcases first with ⟨-, -, found⟩ | ⟨-, -, found⟩ <;> rw [found]
      rw [Option.map_map]
      rfl

/-- A history above `h` leaves what a key is at `h` exactly if it does not register a key in force
at `h`, and does not revoke a key void at `h` by an earlier revocation, unless it also registers
it. -/
def Undisturbed (K : MspPki) (h : Nat) (M : MspEndorsementProvider) (calls : List RegistryCall)
    (key : Bytes) : Prop :=
  ∀ entry, M.directory.lookup key = some entry →
    (heightOutcome entry.validFrom entry.revokedAt h = .authorized →
      ∀ call ∈ calls, call.registers K ≠ some key) ∧
    ∀ r, heightOutcome entry.validFrom entry.revokedAt h = .revoked r →
      (∃ call ∈ calls, call.revokes = some key) → ∃ call ∈ calls, call.registers K = some key

/-- A revocation above `h` reopens the window at `h`. -/
theorem heightOutcome_revoked_above {r : Nat} (above : h < r) (validFrom : Nat)
    (revokedAt : Option Nat) :
    heightOutcome validFrom (some r) h =
      if heightOutcome validFrom revokedAt h = .notYetValid then .notYetValid else .authorized := by
  cases revokedAt <;> grind [heightOutcome]

lemma inForce_run_eq_iff (forward : ∀ call ∈ calls, h < call.height) :
    (run K M calls).inForce h key = M.inForce h key ↔ Undisturbed K h M calls key := by
  by_cases registered : ∃ call ∈ calls, call.registers K = some key
  · rw [(blank_of_registered forward registered).inForce]
    unfold Undisturbed MspEndorsementProvider.inForce principalAt
    cases known : M.directory.lookup key with
    | none => simp
    | some entry => cases outcome : heightOutcome entry.validFrom entry.revokedAt h <;> grind
  · have quiet : ∀ call ∈ calls, call.registers K ≠ some key := by simpa using registered
    rcases lookup_run_of_not_registered M forward quiet with ⟨none, same⟩ | ⟨revoked, r, above, same⟩
    · have unchanged : (run K M calls).inForce h key = M.inForce h key := by
        simp only [MspEndorsementProvider.inForce, same]
      refine iff_of_true unchanged fun entry _ => ⟨fun _ => quiet, fun _ _ some => ?_⟩
      obtain ⟨call, hc, again⟩ := some
      exact absurd again (none call hc)
    · unfold Undisturbed MspEndorsementProvider.inForce principalAt
      rw [same]
      cases known : M.directory.lookup key with
      | none => simp
      | some entry =>
        have reopened := heightOutcome_revoked_above above entry.validFrom entry.revokedAt
        cases outcome : heightOutcome entry.validFrom entry.revokedAt h <;> grind

def Usable (K : MspPki) (M : MspEndorsementProvider) : Prop :=
  ∀ key entry, M.directory.lookup key = some entry →
    key.length = 32 ∧ K.ed25519.validKey key = true

/-- A proof under the key was verified when it was registered. -/
theorem usable_of_registers (registered : call.registers K = some key) :
    key.length = 32 ∧ K.ed25519.validKey key = true := by
  cases call with
  | revoke _ _ => cases registered
  | registerCertificate certPem proof org verifyCertPem validFrom =>
    have verified := (registrationKey_eq_ok K).mp (toOption_eq_some.mp registered)
    simp only [verifyEd25519, Bool.and_eq_true, beq_iff_eq] at verified
    exact verified.2.2.2.1.1

lemma Usable.apply (usable : Usable K M) (call : RegistryCall) : Usable K (call.apply K M) := by
  intro key entry known
  rcases lookup_apply_cases K M call key with ⟨registered, -⟩ | ⟨-, -, found⟩ | ⟨-, -, found⟩
  · exact usable_of_registers registered
  · rw [found] at known
    obtain ⟨old, before, -⟩ := Option.map_eq_some_iff.mp known
    exact usable key old before
  · exact usable key entry (found ▸ known)

lemma usable_run (K : MspPki) (calls : List RegistryCall) : Usable K (run K ⟨∅⟩ calls) := by
  induction calls using List.reverseRecOn with
  | nil =>
    intro key entry known
    cases known
  | append_singleton calls call ih =>
    rw [run, List.foldl_append]
    exact ih.apply call

/-- For every registry reached by calls, and every further history of calls that are to take effect
above `h`: evaluation at `h` is the same before and after, errors counted as equal, if and only if
the history leaves every key undisturbed. -/
theorem evaluate_stable_iff (K : MspPki) (before after : List RegistryCall) (h : Nat)
    (forward : ∀ call ∈ after, h < call.height) :
    (∀ expression request,
      ((run K ⟨∅⟩ (before ++ after)).evaluate K.ed25519 expression request h).toOption =
        ((run K ⟨∅⟩ before).evaluate K.ed25519 expression request h).toOption) ↔
    ∀ key, Undisturbed K h (run K ⟨∅⟩ before) after key := by
  rw [evaluate_eq_iff, run, List.foldl_append]
  constructor
  · intro agree key entry known
    obtain ⟨long, valid⟩ := usable_run K before key entry known
    exact (inForce_run_eq_iff forward).mp (agree key long valid) entry known
  · intro undisturbed key _ _
    exact (inForce_run_eq_iff forward).mpr (undisturbed key)

end RegistryCall

/-- A certificate is the name of its organization; a signature is the key, twice. -/
def sampleMsp : MspPki where
  ed25519 := ⟨fun _ => true, fun key _ signature => signature == key ++ key⟩
  certificateEd25519PublicKey certPem := some (List.replicate 32 (if certPem = "acme" then 1 else 2))
  certificateOrganization certPem := some certPem

def sampleRegistration (org : String) (validFrom : Nat) : RegistryCall :=
  .registerCertificate org (List.replicate 64 (if org = "acme" then 1 else 2)) org
    (fun _ => .ok ()) validFrom

def acmeKey : Bytes := List.replicate 32 1

def acmeRequest : EndorsementRequest :=
  ⟨⟨"", "", [], none⟩, [], [⟨⟨"acme"⟩, acmeKey, List.replicate 64 1, .ed25519⟩]⟩

/-- Another member joins and Acme's key is revoked, both above height 5. -/
theorem evaluate_stable_sample :
    let before := [sampleRegistration "acme" 0]
    let after := [sampleRegistration "beta" 7, .revoke acmeKey 9]
    ((RegistryCall.run sampleMsp ⟨∅⟩ (before ++ after)).evaluate sampleMsp.ed25519
        (.signedBy ⟨"acme"⟩) acmeRequest 5).toOption =
      ((RegistryCall.run sampleMsp ⟨∅⟩ before).evaluate sampleMsp.ed25519
        (.signedBy ⟨"acme"⟩) acmeRequest 5).toOption := by
  intro before after
  refine (RegistryCall.evaluate_stable_iff sampleMsp before after 5 ?_).mpr ?_ _ _
  · simp [after, sampleRegistration, RegistryCall.height]
  · intro key entry known
    have directory : (RegistryCall.run sampleMsp ⟨∅⟩ before).directory =
        (∅ : AList fun _ : Bytes => RegisteredPrincipal).insert acmeKey ⟨⟨"acme"⟩, 0, none⟩ := rfl
    by_cases acme : key = acmeKey
    · subst acme
      obtain rfl : ⟨⟨"acme"⟩, 0, none⟩ = entry := by
        rw [directory, lookup_insert] at known
        exact Option.some.inj known
      exact ⟨fun _ => by decide +kernel, fun r revoked => by cases revoked⟩
    · rw [directory, lookup_insert_ne acme] at known
      cases known

/-- A certificate renewed from height 10 voids what its key endorsed at height 5; a revocation at
height 10 restores a key revoked at height 3. -/
theorem evaluate_unstable :
    let at5 := fun calls => (RegistryCall.run sampleMsp ⟨∅⟩ calls).evaluate sampleMsp.ed25519
      (.signedBy ⟨"acme"⟩) acmeRequest 5
    at5 [sampleRegistration "acme" 0] = .ok ⟨true, [⟨"acme"⟩], 1⟩ ∧
      at5 [sampleRegistration "acme" 0, sampleRegistration "acme" 10] = .error (.invalidTransaction
          "endorsement: principal 'acme' is not authorized at height 5 (valid from 10)") ∧
      at5 [sampleRegistration "acme" 0, .revoke acmeKey 3] = .error (.invalidTransaction
          "endorsement: principal 'acme' was revoked at height 3") ∧
      at5 [sampleRegistration "acme" 0, .revoke acmeKey 3, .revoke acmeKey 10] =
        .ok ⟨true, [⟨"acme"⟩], 1⟩ := by
  decide +kernel

end GlassChain
