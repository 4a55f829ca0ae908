import GlassChain.Library.KeyedMap

/-!
# Revocation at a certificate authority

A certificate carries a serial; the authority's books are kept by node. `issue_identity_with_role`
takes the next serial and overwrites the node's entry, `revoke_identity` moves the entry to the list
that goes into every CRL from then on, and only an entry can be attested good. A certificate issued
to a node that has an entry already pushes the older serial out of the books: no revocation reaches
it any more.

The root CA of an `Organization` and an `IntermediateCa` keep the same books. The library that
builds and signs certificates, lists and responses may fail; a call says how that went.
-/

namespace GlassChain

open Library List

inductive IdentityError where
  | certGen (reason : String)
  | verificationFailed
  | invalidPublicKey
  deriving DecidableEq, Repr

structure MspCertificate where
  commonName : String
  organizationName : String
  organizationalUnit : Option String
  serialNumber : Nat
  deriving DecidableEq, Repr

inductive RevocationReason where
  | unspecified
  | keyCompromise
  | caCompromise
  | affiliationChanged
  | superseded
  | cessationOfOperation
  | certificateHold
  | removeFromCrl
  | privilegeWithdrawn
  | aaCompromise
  deriving DecidableEq, Repr

structure RevokedCertParams where
  serialNumber : Nat
  revocationTime : Int
  reasonCode : Option RevocationReason
  invalidityDate : Option Int
  deriving DecidableEq, Repr

structure CertificateRevocationList where
  thisUpdate : Int
  nextUpdate : Int
  crlNumber : Nat
  revokedCerts : List RevokedCertParams
  deriving DecidableEq, Repr

/-- A response that attests a serial good, and until when. -/
structure OcspResponse where
  serial : Nat
  thisUpdate : Nat
  nextUpdate : Nat
  deriving DecidableEq, Repr

def ocspValiditySecs : Nat := 60 * 60 * 6

def crlValidityDays : Int := 30

structure CaBooks where
  orgName : String
  nextSerial : Nat
  issuedSerials : AList fun _ : String => Nat
  revoked : List RevokedCertParams

abbrev Signing := Except String Unit

def Signing.result {α : Type} (signing : Signing) (made : α) : Except IdentityError α :=
  match signing with
  | .ok () => .ok made
  | .error reason => .error (.certGen reason)

namespace CaBooks

def new (orgName : String) : CaBooks := ⟨orgName, 1, ∅, []⟩

/-- The counter is a `u64`. -/
def takeSerial (b : CaBooks) : Nat × CaBooks :=
  (b.nextSerial, { b with nextSerial := (b.nextSerial + 1) % 2 ^ 64 })

/-- A serial is used up even if the certificate cannot be made. -/
def issueIdentityWithRole (b : CaBooks) (nodeId : String) (role : Option String)
    (signing : Signing) : CaBooks × Except IdentityError MspCertificate :=
  let (serial, b) := b.takeSerial
  match signing.result (MspCertificate.mk nodeId b.orgName role serial) with
  | .error e => (b, .error e)
  | .ok certificate =>
    ({ b with issuedSerials := b.issuedSerials.insert nodeId serial }, .ok certificate)

def revokeIdentity (b : CaBooks) (nodeId : String) (now : Int) :
    CaBooks × Except IdentityError Unit :=
  match b.issuedSerials.lookup nodeId with
  | none => (b, .error (.certGen ("no issued certificate for node `" ++ nodeId ++ "`")))
  | some serial =>
    ({ b with
        issuedSerials := b.issuedSerials.erase nodeId
        revoked := b.revoked ++ [⟨serial, now, some .keyCompromise, none⟩] }, .ok ())

/-- `crl_pem` of either authority is not backdated and valid for `crlValidityDays`. -/
def crlWithValidity (b : CaBooks) (now backdatedDays validityDays : Int) (signing : Signing) :
    Except IdentityError CertificateRevocationList :=
  let thisUpdate := now - backdatedDays * 86400
  signing.result ⟨thisUpdate, thisUpdate + validityDays * 86400, 1, b.revoked⟩

def ocspResponseDer (b : CaBooks) (nodeId : String) (now : Nat) (signing : Signing) :
    Except IdentityError OcspResponse :=
  match b.issuedSerials.lookup nodeId with
  | none => .error (.certGen ("no live issued certificate for node `" ++ nodeId ++ "`"))
  | some serial => signing.result ⟨serial, now, now + ocspValiditySecs⟩

end CaBooks

/-- A member of an organization, with its certificate. -/
structure MemberIdentity where
  nodeId : String
  certificate : MspCertificate
  deriving DecidableEq, Repr

/-- A root CA, with the identities of its members. -/
structure Organization extends CaBooks where
  members : AList fun _ : String => MemberIdentity

/-- A subordinate CA, with its own certificate. -/
structure IntermediateCa extends CaBooks where
  certificate : MspCertificate

namespace Organization

def new (name : String) : Organization := ⟨.new name, ∅⟩

def issueIdentityWithRole (o : Organization) (nodeId : String) (role : Option String)
    (signing : Signing) : Organization × Except IdentityError MspCertificate :=
  match o.toCaBooks.issueIdentityWithRole nodeId role signing with
  | (b, .error e) => ({ o with toCaBooks := b }, .error e)
  | (b, .ok certificate) =>
    (⟨b, o.members.insert nodeId ⟨nodeId, certificate⟩⟩, .ok certificate)

def revokeIdentity (o : Organization) (nodeId : String) (now : Int) :
    Organization × Except IdentityError Unit :=
  let (b, result) := o.toCaBooks.revokeIdentity nodeId now
  ({ o with toCaBooks := b }, result)

/-- A subordinate CA takes one of the organization's serials, which the books do not list. -/
def issueIntermediateCa (o : Organization) (cn : String) (signing : Signing) :
    Organization × Except IdentityError IntermediateCa :=
  let (serial, b) := o.takeSerial
  ({ o with toCaBooks := b }, signing.result ⟨.new o.orgName, ⟨cn, o.orgName, none, serial⟩⟩)

end Organization

namespace IntermediateCa

def issueIdentityWithRole (ca : IntermediateCa) (nodeId : String) (role : Option String)
    (signing : Signing) : IntermediateCa × Except IdentityError MspCertificate :=
  let (b, result) := ca.toCaBooks.issueIdentityWithRole nodeId role signing
  ({ ca with toCaBooks := b }, result)

def revokeIdentity (ca : IntermediateCa) (nodeId : String) (now : Int) :
    IntermediateCa × Except IdentityError Unit :=
  let (b, result) := ca.toCaBooks.revokeIdentity nodeId now
  ({ ca with toCaBooks := b }, result)

end IntermediateCa

inductive Authority where
  | organization (o : Organization)
  | intermediate (ca : IntermediateCa)

inductive CaCall where
  | issueIdentityWithRole (nodeId : String) (role : Option String) (signing : Signing)
  | revokeIdentity (nodeId : String) (now : Int)
  | issueIntermediateCa (cn : String) (signing : Signing)

namespace Authority

def books : Authority → CaBooks
  | organization o => o.toCaBooks
  | intermediate ca => ca.toCaBooks

def Fresh : Authority → Prop
  | organization o => ∃ name, o = .new name
  | intermediate ca => ∃ (o : Organization) (cn : String) (signing : Signing),
      (o.issueIntermediateCa cn signing).2 = .ok ca

def crl (A : Authority) (now backdatedDays validityDays : Int) (signing : Signing) :
    Except IdentityError CertificateRevocationList :=
  A.books.crlWithValidity now backdatedDays validityDays signing

def ocspResponseDer (A : Authority) (nodeId : String) (now : Nat) (signing : Signing) :
    Except IdentityError OcspResponse :=
  A.books.ocspResponseDer nodeId now signing

def issueIdentityWithRole (nodeId : String) (role : Option String) (signing : Signing) :
    Authority → Authority × Except IdentityError MspCertificate
  | organization o => (o.issueIdentityWithRole nodeId role signing).map organization id
  | intermediate ca => (ca.issueIdentityWithRole nodeId role signing).map intermediate id

def revokeIdentity (nodeId : String) (now : Int) :
    Authority → Authority × Except IdentityError Unit
  | organization o => (o.revokeIdentity nodeId now).map organization id
  | intermediate ca => (ca.revokeIdentity nodeId now).map intermediate id

/-- A subordinate CA has no call for further ones. -/
def issueIntermediateCa (cn : String) (signing : Signing) : Authority → Authority
  | organization o => organization (o.issueIntermediateCa cn signing).1
  | intermediate ca => intermediate ca

def call (A : Authority) : CaCall → Authority × Option MspCertificate
  | .issueIdentityWithRole nodeId role signing =>
    (A.issueIdentityWithRole nodeId role signing).map id Except.toOption
  | .revokeIdentity nodeId now => ((A.revokeIdentity nodeId now).1, none)
  | .issueIntermediateCa cn signing => (A.issueIntermediateCa cn signing, none)

end Authority

structure Issuance where
  authority : Authority
  certificates : List MspCertificate

namespace Issuance

def next (s : Issuance) (call : CaCall) : Issuance :=
  ⟨(s.authority.call call).1, s.certificates ++ (s.authority.call call).2.toList⟩

def run (A : Authority) (calls : List CaCall) : Issuance := calls.foldl next ⟨A, []⟩

lemma run_append (A : Authority) (first : List CaCall) (call : CaCall) :
    run A (first ++ [call]) = (run A first).next call := by
  simp [run]

lemma books_next_revoke (s : Issuance) (nodeId : String) (now : Int) :
    (s.next (.revokeIdentity nodeId now)).authority.books =
      (s.authority.books.revokeIdentity nodeId now).1 := by
  obtain ⟨A, certificates⟩ := s
  cases A <;> rfl

lemma certificates_subset_next (s : Issuance) (call : CaCall) :
    s.certificates ⊆ (s.next call).certificates := subset_append_left _ _

/-- What a call can do: issue a certificate, revoke one, or use up a serial at most. -/
theorem next_cases (s : Issuance) (call : CaCall) :
    (∃ nodeId role, call = .issueIdentityWithRole nodeId role (.ok ()) ∧
      (s.next call).authority.books = { s.authority.books with
        nextSerial := (s.authority.books.nextSerial + 1) % 2 ^ 64
        issuedSerials :=
          s.authority.books.issuedSerials.insert nodeId s.authority.books.nextSerial } ∧
      (s.next call).certificates = s.certificates ++
        [⟨nodeId, s.authority.books.orgName, role, s.authority.books.nextSerial⟩]) ∨
    (∃ nodeId now serial, call = .revokeIdentity nodeId now ∧
      s.authority.books.issuedSerials.lookup nodeId = some serial ∧
      (s.next call).authority.books = { s.authority.books with
        issuedSerials := s.authority.books.issuedSerials.erase nodeId
        revoked := s.authority.books.revoked ++ [⟨serial, now, some .keyCompromise, none⟩] } ∧
      (s.next call).certificates = s.certificates) ∨
    ((∀ nodeId role, call ≠ .issueIdentityWithRole nodeId role (.ok ())) ∧
      (∃ serial, (s.next call).authority.books = { s.authority.books with nextSerial := serial } ∧
        (serial = s.authority.books.nextSerial ∨
          serial = (s.authority.books.nextSerial + 1) % 2 ^ 64)) ∧
      (s.next call).certificates = s.certificates) := by
  obtain ⟨A, certificates⟩ := s
  cases call with
  | issueIdentityWithRole nodeId role signing =>
    rcases signing with reason | ⟨⟩
    · refine .inr (.inr ⟨by simp, ⟨_, ?_, .inr rfl⟩, ?_⟩)
      · cases A <;> rfl
      · cases A <;> exact append_nil _
    · refine .inl ⟨nodeId, role, rfl, ?_, ?_⟩ <;> cases A <;> rfl
  | revokeIdentity nodeId now =>
    have books := books_next_revoke ⟨A, certificates⟩ nodeId now
    cases known : A.books.issuedSerials.lookup nodeId with
    | none =>
      refine .inr (.inr ⟨by simp, ⟨_, ?_, .inl rfl⟩, append_nil _⟩)
      simp only [books, CaBooks.revokeIdentity, known]
    | some serial =>
      refine .inr (.inl ⟨nodeId, now, serial, rfl, known, ?_, append_nil _⟩)
      simp only [books, CaBooks.revokeIdentity, known]
  | issueIntermediateCa cn signing =>
    refine .inr (.inr ⟨by simp, ?_, append_nil _⟩)
    cases A with
    | organization o => exact ⟨_, rfl, .inr rfl⟩
    | intermediate ca => exact ⟨_, rfl, .inl rfl⟩

/-- The books against the certificates issued, after `taken` serials were taken. -/
structure Kept (taken : Nat) (s : Issuance) : Prop where
  counter : s.authority.books.nextSerial = (taken + 1) % 2 ^ 64
  numbered : ∀ c ∈ s.certificates, ∃ i < taken, c.serialNumber = (i + 1) % 2 ^ 64
  distinct : (s.certificates.map (·.serialNumber)).Nodup
  live : ∀ nodeId serial, s.authority.books.issuedSerials.lookup nodeId = some serial →
    ∃ c ∈ s.certificates, c.commonName = nodeId ∧ c.serialNumber = serial
  void : ∀ r ∈ s.authority.books.revoked, ∀ nodeId,
    s.authority.books.issuedSerials.lookup nodeId ≠ some r.serialNumber
  listed : ∀ r ∈ s.authority.books.revoked, ∃ c ∈ s.certificates, c.serialNumber = r.serialNumber

variable {s : Issuance} {taken : Nat} {call : CaCall} {A : Authority} {calls : List CaCall}
  {nodeId : String}

/-- The next serial has not been used, while fewer than all of them were taken. -/
theorem Kept.fresh (h : Kept taken s) (few : taken < 2 ^ 64) {c : MspCertificate}
    (issued : c ∈ s.certificates) : c.serialNumber ≠ s.authority.books.nextSerial := by
  obtain ⟨i, before, serial⟩ := h.numbered c issued
  rw [h.counter, serial]
  omega

/-- A live serial determines its node. -/
theorem Kept.node_eq (h : Kept taken s) {other : String} {serial : Nat}
    (live : s.authority.books.issuedSerials.lookup nodeId = some serial)
    (live' : s.authority.books.issuedSerials.lookup other = some serial) : nodeId = other := by
  obtain ⟨c, issued, rfl, same⟩ := h.live _ _ live
  obtain ⟨c', issued', rfl, same'⟩ := h.live _ _ live'
  rw [inj_on_of_nodup_map h.distinct issued issued' (same.trans same'.symm)]

lemma Kept.next (h : Kept taken s) (few : taken < 2 ^ 64) (call : CaCall) :
    ∃ taken' ≤ taken + 1, Kept taken' (s.next call) := by
  rcases next_cases s call with ⟨node, role, -, books, certificates⟩ |
    ⟨node, now, serial, -, entry, books, certificates⟩ | ⟨-, ⟨serial, books, counter⟩, certificates⟩
  · have fresh := fun c issued => h.fresh few (c := c) issued
    refine ⟨taken + 1, le_rfl, ?_, ?_, ?_, ?_, ?_, ?_⟩
    all_goals simp only [books, certificates, lookup_insert_eq_some, mem_append,
      mem_singleton, ne_eq]
    · rw [h.counter]
      omega
    · rintro c (old | rfl)
      · obtain ⟨i, before, serial⟩ := h.numbered c old
        exact ⟨i, by omega, serial⟩
      · exact ⟨taken, by omega, h.counter⟩
    · rw [map_append, nodup_append]
      refine ⟨h.distinct, by simp, ?_⟩
      intro serial old serial' new
      obtain ⟨c, issued, rfl⟩ := mem_map.mp old
      obtain rfl : serial' = _ := by simpa using new
      exact fresh c issued
    · rintro other serial (⟨rfl, rfl⟩ | ⟨-, entry⟩)
      · exact ⟨_, .inr rfl, rfl, rfl⟩
      · obtain ⟨c, issued, facts⟩ := h.live other serial entry
        exact ⟨c, .inl issued, facts⟩
    · rintro r hr other (⟨-, same⟩ | ⟨-, entry⟩)
      · obtain ⟨c, issued, serial⟩ := h.listed r hr
        exact fresh c issued (serial.trans same.symm)
      · exact h.void r hr other entry
    · intro r hr
      obtain ⟨c, issued, serial⟩ := h.listed r hr
      exact ⟨c, .inl issued, serial⟩
  · refine ⟨taken, by omega, ?_, ?_, ?_, ?_, ?_, ?_⟩
    all_goals simp only [books, certificates, lookup_erase_eq_some, mem_append,
      mem_singleton, ne_eq]
    · exact h.counter
    · exact h.numbered
    · exact h.distinct
    · exact fun other serial' entry => h.live other serial' entry.2
    · rintro r (old | rfl) other ⟨differ, entry'⟩
      · exact h.void r old other entry'
      · exact differ (h.node_eq entry' entry)
    · rintro r (old | rfl)
      · exact h.listed r old
      · obtain ⟨c, issued, -, same⟩ := h.live node serial entry
        exact ⟨c, issued, same⟩
  · have advanced : ∃ taken' ≤ taken + 1, taken ≤ taken' ∧ serial = (taken' + 1) % 2 ^ 64 := by
      rcases counter with rfl | rfl
      · exact ⟨taken, by omega, le_rfl, h.counter⟩
      · exact ⟨taken + 1, le_rfl, by omega, by rw [h.counter]; omega⟩
    obtain ⟨taken', bound, later, serial⟩ := advanced
    refine ⟨taken', bound, ?_, ?_, ?_, ?_, ?_, ?_⟩
    all_goals simp only [books, certificates]
    · exact serial
    · intro c issued
      obtain ⟨i, before, numbered⟩ := h.numbered c issued
      exact ⟨i, by omega, numbered⟩
    · exact h.distinct
    · exact h.live
    · exact h.void
    · exact h.listed

lemma kept_run (start : A.Fresh) (calls : List CaCall) (few : calls.length ≤ 2 ^ 64) :
    ∃ taken ≤ calls.length, Kept taken (run A calls) := by
  induction calls using List.reverseRecOn with
  | nil =>
    have books : ∃ name, A.books = .new name := by
      cases A with
      | organization o =>
        obtain ⟨name, rfl⟩ := start
        exact ⟨name, rfl⟩
      | intermediate ca =>
        obtain ⟨o, cn, ⟨⟩ | ⟨⟩, made⟩ := start
        · cases made
        · cases made
          exact ⟨o.orgName, rfl⟩
    obtain ⟨name, books⟩ := books
    refine ⟨0, le_rfl, ?_, ?_, ?_, ?_, ?_, ?_⟩
    all_goals simp [run, books, CaBooks.new]
  | append_singleton calls call ih =>
    rw [length_append, length_singleton] at few ⊢
    obtain ⟨taken, bound, kept⟩ := ih (by omega)
    obtain ⟨taken', bound', kept'⟩ := kept.next (by omega) call
    exact ⟨taken', by omega, run_append A calls call ▸ kept'⟩

lemma run_induction {P : Issuance → Prop} (start : A.Fresh) {first tail : List CaCall}
    (few : (first ++ tail).length ≤ 2 ^ 64) (base : P (run A first))
    (step : ∀ s taken, Kept taken s → taken < 2 ^ 64 → ∀ call ∈ tail, P s → P (s.next call)) :
    P (run A (first ++ tail)) := by
  induction tail using List.reverseRecOn with
  | nil => simpa using base
  | append_singleton tail call ih =>
    rw [← append_assoc, length_append, length_singleton] at few
    obtain ⟨taken, bound, kept⟩ := kept_run start (first ++ tail) (by omega)
    rw [← append_assoc, run_append]
    refine step _ taken kept (by omega) call (by simp) (ih (by omega) ?_)
    exact fun s taken kept few c hc => step s taken kept few c (by simp [hc])

/-- Every certificate of the node is in the books: it can be revoked, or it has been. -/
def Accounted (nodeId : String) (s : Issuance) : Prop :=
  ∀ c ∈ s.certificates, c.commonName = nodeId →
    s.authority.books.issuedSerials.lookup nodeId = some c.serialNumber ∨
      c.serialNumber ∈ s.authority.books.revoked.map (·.serialNumber)

lemma Accounted.next (h : Accounted nodeId s)
    (clear : ∀ role, call = .issueIdentityWithRole nodeId role (.ok ()) →
      s.authority.books.issuedSerials.lookup nodeId = none) : Accounted nodeId (s.next call) := by
  rcases next_cases s call with ⟨node, role, issue, books, certificates⟩ |
    ⟨node, now, serial, -, entry, books, certificates⟩ | ⟨-, ⟨serial, books, -⟩, certificates⟩
  all_goals
    intro c issued named
    simp only [books, certificates, lookup_insert_eq_some, lookup_erase_eq_some, mem_append,
      mem_singleton, map_append, map_singleton] at issued ⊢
  · by_cases same : nodeId = node
    · subst same
      rcases issued with old | rfl
      · -- an older certificate is no entry: there was none
        have revoked := (h c old named).resolve_left (by simp [clear role issue])
        exact .inr revoked
      · exact .inl (.inl ⟨rfl, rfl⟩)
    · rcases issued with old | rfl
      · exact (h c old named).imp_left fun entry => .inr ⟨same, entry⟩
      · exact absurd named.symm same
  · by_cases same : nodeId = node
    · subst same
      rcases h c issued named with entry' | revoked
      · exact .inr (.inr (Option.some.inj (entry'.symm.trans entry)))
      · exact .inr (.inl revoked)
    · exact (h c issued named).imp (fun entry => ⟨same, entry⟩) .inl
  · exact h c issued named

/-- A serial that was issued and is out of the books. -/
structure Lost (serial : Nat) (s : Issuance) : Prop where
  issued : ∃ c ∈ s.certificates, c.serialNumber = serial
  dead : ∀ nodeId, s.authority.books.issuedSerials.lookup nodeId ≠ some serial
  unlisted : serial ∉ s.authority.books.revoked.map (·.serialNumber)

lemma Lost.next {serial : Nat} (h : Lost serial s) (kept : Kept taken s) (few : taken < 2 ^ 64)
    (call : CaCall) : Lost serial (s.next call) := by
  obtain ⟨c, issued, same⟩ := h.issued
  rcases next_cases s call with ⟨node, role, -, books, certificates⟩ |
    ⟨node, now, serial', -, entry, books, certificates⟩ | ⟨-, ⟨_, books, -⟩, certificates⟩
  all_goals
    refine ⟨⟨c, ?_, same⟩, ?_, ?_⟩
    all_goals simp only [books, certificates, ne_eq, lookup_insert_eq_some, lookup_erase_eq_some,
      mem_append, mem_singleton, map_append, map_singleton]
  · exact .inl issued
  · rintro other (⟨-, reused⟩ | ⟨-, entry⟩)
    · exact kept.fresh few issued (same.trans reused.symm)
    · exact h.dead other entry
  · exact h.unlisted
  · exact issued
  · rintro other ⟨-, entry'⟩
    exact h.dead other entry'
  · rintro (old | rfl)
    · exact h.unlisted old
    · exact h.dead node entry
  · exact issued
  · exact h.dead
  · exact h.unlisted

/-- A certificate for a node that has an entry puts the older one out of the books. -/
theorem lost_of_reissued (kept : Kept taken s) (few : taken < 2 ^ 64) (role : Option String)
    {serial : Nat} (entry : s.authority.books.issuedSerials.lookup nodeId = some serial) :
    Lost serial (s.next (.issueIdentityWithRole nodeId role (.ok ()))) ∧
      ∃ c ∈ s.certificates, c.commonName = nodeId ∧ c.serialNumber = serial := by
  obtain ⟨c, issued, named, same⟩ := kept.live nodeId serial entry
  refine ⟨?_, c, issued, named, same⟩
  rcases next_cases s (.issueIdentityWithRole nodeId role (.ok ())) with
    ⟨node, role', call, books, certificates⟩ | ⟨_, _, _, call, -⟩ | ⟨call, -⟩
  · cases call
    refine ⟨⟨c, ?_, same⟩, ?_, ?_⟩
    all_goals simp only [books, certificates, ne_eq, lookup_insert_eq_some, mem_append]
    · exact .inl issued
    · rintro other (⟨-, reused⟩ | ⟨differ, entry'⟩)
      · exact kept.fresh few issued (same.trans reused.symm)
      · exact differ (kept.node_eq entry' entry)
    · intro listed
      obtain ⟨r, hr, serial⟩ := mem_map.mp listed
      exact kept.void r hr nodeId (serial ▸ entry)
  · cases call
  · exact absurd rfl (call nodeId role)

lemma lookup_next_eq_none (none : s.authority.books.issuedSerials.lookup nodeId = none)
    (quiet : ∀ role, call ≠ .issueIdentityWithRole nodeId role (.ok ())) :
    (s.next call).authority.books.issuedSerials.lookup nodeId = .none := by
  rw [Option.eq_none_iff_forall_ne_some] at none ⊢
  intro serial found
  rcases next_cases s call with ⟨node, role, issue, books, -⟩ | ⟨node, now, _, -, -, books, -⟩ |
    ⟨-, ⟨_, books, -⟩, -⟩
  all_goals simp only [books, lookup_insert_eq_some, lookup_erase_eq_some] at found
  · rcases found with ⟨rfl, -⟩ | ⟨-, found⟩
    · exact quiet role issue
    · exact none serial found
  · exact none serial found.2
  · exact none serial found

/-- No certificate was issued to the node while it had one that could be revoked. -/
def OneAtATime (A : Authority) (calls : List CaCall) (nodeId : String) : Prop :=
  ∀ i role, calls[i]? = some (.issueIdentityWithRole nodeId role (.ok ())) →
    (run A (calls.take i)).authority.books.issuedSerials.lookup nodeId = none

lemma accounted_run {calls : List CaCall} (apart : OneAtATime A calls nodeId) :
    Accounted nodeId (run A calls) := by
  induction calls using List.reverseRecOn with
  | nil =>
    intro c issued
    cases issued
  | append_singleton calls call ih =>
    rw [run_append]
    refine (ih fun i role issue => ?_).next fun role issue => ?_
    · have inside : i < calls.length := (List.getElem?_eq_some_iff.mp issue).1
      have earlier := apart i role (by rwa [getElem?_append_left inside])
      rwa [take_append_of_le_length inside.le] at earlier
    · simpa using apart calls.length role (by simp [issue])

lemma lookup_next_revoke (s : Issuance) (nodeId : String) (now : Int) :
    (s.next (.revokeIdentity nodeId now)).authority.books.issuedSerials.lookup nodeId = none := by
  rw [books_next_revoke, CaBooks.revokeIdentity]
  cases entry : s.authority.books.issuedSerials.lookup nodeId with
  | none => exact entry
  | some serial => exact AList.lookup_erase _ _

/-- The serials on every list that can be minted are those revoked so far. -/
theorem mem_crl_iff {serial : Nat} :
    (∀ now backdated validity signing list,
      s.authority.crl now backdated validity signing = .ok list →
        serial ∈ list.revokedCerts.map (·.serialNumber)) ↔
      serial ∈ s.authority.books.revoked.map (·.serialNumber) := by
  constructor
  · intro every
    exact every 0 0 0 (.ok ()) _ rfl
  · rintro member now backdated validity (reason | ⟨⟩) list minted
    · cases minted
    · cases minted
      exact member

/-- A response that can be minted attests the entry of a node. -/
theorem lookup_of_ocspResponseDer {time : Nat} {signing : Signing} {response : OcspResponse}
    (minted : s.authority.ocspResponseDer nodeId time signing = .ok response) :
    s.authority.books.issuedSerials.lookup nodeId = some response.serial := by
  unfold Authority.ocspResponseDer CaBooks.ocspResponseDer at minted
  split at minted
  · cases minted
  · rename_i serial entry
    rcases signing with reason | ⟨⟩
    · cases minted
    · cases minted
      exact entry

/-- After a revocation of a node and no later issuance to it, as long as serials last: none of its
certificates can be attested good; and all of them are on every list that can be minted, if and only
if it was never issued a certificate while it had one that could be revoked. The revocation may even
fail, for a node without an entry. -/
theorem revocation_complete_iff (start : A.Fresh) (before later : List CaCall) (nodeId : String)
    (now : Int) (few : (before ++ .revokeIdentity nodeId now :: later).length ≤ 2 ^ 64)
    (quiet : ∀ role, .issueIdentityWithRole nodeId role (.ok ()) ∉ later) :
    let s := run A (before ++ .revokeIdentity nodeId now :: later)
    (∀ c ∈ s.certificates, c.commonName = nodeId → ∀ other time signing response,
      s.authority.ocspResponseDer other time signing = .ok response →
        response.serial ≠ c.serialNumber) ∧
    ((∀ c ∈ s.certificates, c.commonName = nodeId →
      ∀ time backdated validity signing list,
        s.authority.crl time backdated validity signing = .ok list →
          c.serialNumber ∈ list.revokedCerts.map (·.serialNumber)) ↔
      OneAtATime A before nodeId) := by
  intro s
  have split : before ++ .revokeIdentity nodeId now :: later =
      before ++ [.revokeIdentity nodeId now] ++ later := by simp
  obtain ⟨taken, -, kept⟩ := kept_run start _ few
  have gone : s.authority.books.issuedSerials.lookup nodeId = none := by
    simp only [s, split] at few ⊢
    refine run_induction (P := fun s => s.authority.books.issuedSerials.lookup nodeId = none) start few
      ?_ fun s _ _ _ call member none => ?_
    · rw [run_append]
      exact lookup_next_revoke ..
    · exact lookup_next_eq_none none fun role same => quiet role (same ▸ member)
  refine ⟨fun c issued named other time signing response minted same => ?_, ?_⟩
  · have entry := lookup_of_ocspResponseDer minted
    obtain ⟨c', issued', named', serial'⟩ := kept.live other _ entry
    obtain rfl : c' = c := inj_on_of_nodup_map kept.distinct issued' issued (serial'.trans same)
    rw [← named', named, gone] at entry
    cases entry
  · simp only [mem_crl_iff]
    constructor
    · intro complete i role issue
      by_contra reissued
      obtain ⟨serial, entry⟩ := Option.ne_none_iff_exists'.mp reissued
      obtain ⟨inside, same⟩ := List.getElem?_eq_some_iff.mp issue
      have cut : before ++ .revokeIdentity nodeId now :: later =
          before.take i ++ [.issueIdentityWithRole nodeId role (.ok ())] ++
            (before.drop (i + 1) ++ .revokeIdentity nodeId now :: later) := by
        rw [← same, take_append_getElem, ← append_assoc, take_append_drop]
      rw [cut] at few
      have short : (before.take i).length < 2 ^ 64 := by
        simp only [length_append, length_cons] at few
        omega
      obtain ⟨taken, bound, kept⟩ := kept_run start (before.take i) (by omega)
      obtain ⟨lost, c, issued, named, same⟩ := lost_of_reissued kept (by omega) role entry
      -- from here on the older serial stays issued and out of the books
      have ever : Lost serial s ∧ c ∈ s.certificates := by
        simp only [s, cut]
        refine run_induction (P := fun s => Lost serial s ∧ c ∈ s.certificates) start few
          ?_ fun s taken kept few call _ h => ?_
        · rw [run_append]
          exact ⟨lost, certificates_subset_next _ _ issued⟩
        · exact ⟨h.1.next kept few call, certificates_subset_next _ _ h.2⟩
      exact ever.1.unlisted (same ▸ complete c ever.2 named)
    · intro apart c issued named
      have accounted : Accounted nodeId s := by
        refine run_induction (P := Accounted nodeId) start few (accounted_run apart)
          fun s _ _ _ call member h => h.next fun role issue => ?_
        rcases mem_cons.mp member with revoke | member
        · rw [revoke] at issue
          cases issue
        · exact absurd (issue ▸ member) (quiet role)
      exact (accounted c issued named).resolve_left (by simp [gone])

end Issuance

/-- A node gets a certificate, and another one after the first was revoked. -/
theorem revocation_complete_sample :
    let A := Authority.organization (.new "acme")
    let issue := CaCall.issueIdentityWithRole "node" none (.ok ())
    let before := [issue, .revokeIdentity "node" 1, issue]
    let s := Issuance.run A (before ++ [.revokeIdentity "node" 2])
    s.certificates.map (·.serialNumber) = [1, 2] ∧
      ∀ c ∈ s.certificates, c.commonName = "node" →
        ∀ time backdated validity signing list,
          s.authority.crl time backdated validity signing = .ok list →
            c.serialNumber ∈ list.revokedCerts.map (·.serialNumber) := by
  intro A issue before s
  refine ⟨by decide, (Issuance.revocation_complete_iff (A := A) ⟨"acme", rfl⟩ before [] "node" 2
    (by decide) (by simp)).2.mpr fun i role issued => ?_⟩
  have inside : i < 3 := (List.getElem?_eq_some_iff.mp issued).1
  interval_cases i
  · rfl
  · cases issued
  · decide

/-- Either authority issues a node a second certificate, without the first one's role, and revokes
the node: the first certificate is on no list. -/
theorem revocation_incomplete :
    let issue := fun role => CaCall.issueIdentityWithRole "node" role (.ok ())
    let before := [issue (some "admin"), issue none]
    ∀ A ∈ [Authority.organization (.new "acme"),
        .intermediate ⟨.new "acme", ⟨"sub", "acme", none, 1⟩⟩], A.Fresh ∧
      ((Issuance.run A before).authority.revokeIdentity "node" 1).2 = .ok () ∧
      ∃ c ∈ (Issuance.run A (before ++ [.revokeIdentity "node" 1])).certificates,
        c.commonName = "node" ∧ c.organizationalUnit = some "admin" ∧
        ∃ list, (Issuance.run A (before ++ [.revokeIdentity "node" 1])).authority.crl 1 0
          crlValidityDays (.ok ()) = .ok list ∧
          c.serialNumber ∉ list.revokedCerts.map (·.serialNumber) := by
  intro issue before A member
  rcases mem_pair.mp member with rfl | rfl
  · refine ⟨⟨"acme", rfl⟩, by decide, ⟨"node", "acme", some "admin", 1⟩, by decide, rfl, rfl, _,
      rfl, ?_⟩
    decide
  · refine ⟨⟨.new "acme", "sub", .ok (), rfl⟩, by decide, ⟨"node", "acme", some "admin", 1⟩,
      by decide, rfl, rfl, _, rfl, ?_⟩
    decide

end GlassChain
