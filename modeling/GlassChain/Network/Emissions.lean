import GlassChain.Network.GeneratedIds
import GlassChain.Network.WriteForm
import GlassChain.Workflows.LotFlows

/-!
# Ids of emitted records

Hosts submit the records of the recall, response and attestation flows under their record ids, and
the ledger takes a second record with an id it knows for a copy. An id is built from the lot and the
family of the record, and for recalls and responses from the status or the kind; the organization,
the reason, the scope and the validity are not in it. Two records of one lot that differ in those
share an id.
-/

namespace GlassChain

open Library RecallStatus CanonicalRecord List

inductive ResponseKind where
  | quarantine
  | dispute
  deriving DecidableEq, Repr

def ResponseKind.text : ResponseKind → String
  | .quarantine => "quarantine"
  | .dispute => "disputed"

inductive AttestationKind where
  | certification
  | audit
  deriving DecidableEq, Repr

def AttestationKind.text : AttestationKind → String
  | .certification => "quality_certification"
  | .audit => "audit_attestation"

/-- An instance of one of the flows over a lot; a custodian is given the lot to watch. -/
inductive LotFlow where
  | recalling (config : RecallConfig)
  | response (kind : ResponseKind) (config : RecallResponseConfig) (watched : String)
  | attestation (kind : AttestationKind) (config : AttestationConfig)

namespace LotFlow

variable (X : Externals)

def emitted (events : List FlowEvent) : LotFlow → List CanonicalRecord
  | .recalling config => (recallFlow config).emitted .awaitingLot events
  | .response .quarantine config watched =>
    (quarantineFlow config).emitted (.watchingLot watched) events
  | .response .dispute config watched => (disputeFlow config).emitted (.watchingLot watched) events
  | .attestation .certification config => (certificationFlow X config).emitted .awaitingLot events
  | .attestation .audit config => (auditFlow X config).emitted .awaitingLot events

/-- An instance with the events that may be delivered to it. -/
abbrev Instance := LotFlow × Set FlowEvent

/-- What instances can emit, each on events of its own in any order and number. -/
def emittedBy (instances : Set Instance) : Set CanonicalRecord :=
  {record | ∃ i ∈ instances, ∃ events : List FlowEvent, (∀ event ∈ events, event ∈ i.2) ∧
    record ∈ i.1.emitted X events}

end LotFlow

inductive Emission where
  | recalls (config : RecallConfig) (reason : String) (status : RecallStatus)
  | responds (config : RecallResponseConfig) (kind : ResponseKind)
  | attests (config : AttestationConfig) (kind : AttestationKind) (lotRef lotCommitment : String)

def Emission.record (X : Externals) : Emission → CanonicalRecord
  | .recalls config reason status => buildRecall config.lotRef reason status config
  | .responds config kind => buildResponse config.lotRef kind.text config
  | .attests config kind lotRef lotCommitment =>
    buildAttestation X lotRef lotCommitment { config with family := kind.text }

/-- What an instance can emit, by its configuration and its events. -/
inductive LotFlow.CanEmit : LotFlow.Instance → Emission → Prop
  | recalling {config heard reason status} : config.Recalls heard reason → status.Heard heard →
      CanEmit (.recalling config, heard) (.recalls config reason status)
  | response {kind config watched heard} : Responds kind.text watched heard →
      CanEmit (.response kind config watched, heard) (.responds config kind)
  | attestation {kind config heard lotRef commitment} : LotHeard heard lotRef commitment →
      .woken "attest" ∈ heard →
      CanEmit (.attestation kind config, heard) (.attests config kind lotRef commitment)

lemma LotFlow.mem_emittedBy {X : Externals} {instances : Set LotFlow.Instance}
    {record : CanonicalRecord} : record ∈ LotFlow.emittedBy X instances ↔
      ∃ i ∈ instances, ∃ e, LotFlow.CanEmit i e ∧ record = e.record X := by
  refine exists_congr fun ⟨flow, heard⟩ => and_congr_right fun _ => ?_
  cases flow with
  | recalling config =>
    refine (recallFlow_canEmit record).trans ⟨?_, ?_⟩
    · rintro ⟨reason, status, known, reached, rfl⟩
      exact ⟨_, .recalling known reached, rfl⟩
    · rintro ⟨_, emits, rfl⟩
      cases emits with | recalling known reached => exact ⟨_, _, known, reached, rfl⟩
  | response kind config watched =>
    have known : (∃ events : List FlowEvent, (∀ event ∈ events, event ∈ heard) ∧
        record ∈ (LotFlow.response kind config watched).emitted X events) ↔
        IsResponse config kind.text watched heard record := by
      cases kind <;> exact responseFlow_canEmit record
    refine known.trans ⟨?_, ?_⟩
    · rintro ⟨responds, rfl⟩
      exact ⟨_, .response responds, rfl⟩
    · rintro ⟨_, emits, rfl⟩
      cases emits with | response responds => exact ⟨responds, rfl⟩
  | attestation kind config =>
    have known : (∃ events : List FlowEvent, (∀ event ∈ events, event ∈ heard) ∧
        record ∈ (LotFlow.attestation kind config).emitted X events) ↔
        IsAttestation X { config with family := kind.text } heard record := by
      cases kind <;> exact attestationFlow_canEmit record
    refine known.trans ⟨?_, ?_⟩
    · rintro ⟨lotRef, commitment, lot, woken, rfl⟩
      exact ⟨_, .attestation lot woken, rfl⟩
    · rintro ⟨_, emits, rfl⟩
      cases emits with | attestation lot woken => exact ⟨_, _, lot, woken, rfl⟩

def withStatus (lot : String) (status : RecallStatus) : String := s!"{lot}:{status.text}"

/-- Two recalls with one id: of one lot in one status, or one issued for a lot whose reference is
that of the other with its status appended. -/
def SameRecall (lot : String) (status : RecallStatus) (lot' : String) (status' : RecallStatus) :
    Prop :=
  (lot = lot' ∧ status = status') ∨
    (status = .issued ∧ status' ≠ .issued ∧ lot = withStatus lot' status') ∨
    (status' = .issued ∧ status ≠ .issued ∧ lot' = withStatus lot status)

def Emission.SameSlot : Emission → Emission → Prop
  | .recalls c _ status, .recalls c' _ status' => SameRecall c.lotRef status c'.lotRef status'
  | .responds c kind, .responds c' kind' => c.lotRef = c'.lotRef ∧ kind = kind'
  | .attests _ kind lot _, .attests _ kind' lot' _ => kind = kind' ∧ lot = lot'
  | _, _ => False

def Emission.Agrees (X : Externals) : Emission → Emission → Prop
  | .recalls c reason _, .recalls c' reason' _ =>
    c.lotRef = c'.lotRef ∧ c.issuer = c'.issuer ∧ reason = reason'
  | .responds c _, .responds c' _ => c.org = c'.org
  | .attests c _ _ commitment, .attests c' _ _ commitment' =>
    c.issuer = c'.issuer ∧ c.scope = c'.scope ∧ c.validFrom = c'.validFrom ∧ c.validTo = c'.validTo ∧
      manifestCommitment X commitment c = manifestCommitment X commitment' c'
  | _, _ => False

namespace RecallStatus

lemma colon_notMem_text (status : RecallStatus) : ':' ∉ status.text.toList := by
  cases status <;> decide

lemma text_injective : Function.Injective text := by
  intro s s' same
  cases s <;> cases s' <;> first | rfl | exact absurd same (by decide)

def suffix : RecallStatus → List Char
  | .issued => []
  | other => ':' :: other.text.toList

lemma suffix_of_ne {status : RecallStatus} (later : status ≠ .issued) :
    status.suffix = ':' :: status.text.toList := by
  cases status with
  | issued => exact absurd rfl later
  | active | completed => rfl

end RecallStatus

lemma toList_recallId (lot : String) (status : RecallStatus) :
    (recallId lot status).toList = "recall:".toList ++ (lot.toList ++ status.suffix) := by
  cases status <;> simp [recallId, suffix, toString_text]

lemma recallId_eq_iff {lot lot' : String} {status status' : RecallStatus} :
    recallId lot status = recallId lot' status' ↔ SameRecall lot status lot' status' := by
  rw [← String.toList_inj, toList_recallId, toList_recallId, append_cancel_left_eq, SameRecall]
  by_cases first : status = .issued <;> by_cases second : status' = .issued
  · subst first second
    simp [suffix, String.toList_inj]
  · subst first
    rw [suffix_of_ne second]
    simp [suffix, second, Ne.symm second, ← String.toList_inj, withStatus, toString_text]
  · subst second
    rw [suffix_of_ne first]
    simp [suffix, first, ← String.toList_inj, withStatus, toString_text, eq_comm]
  · rw [suffix_of_ne first, suffix_of_ne second]
    simp only [first, second, false_and, or_false]
    constructor
    · intro same
      obtain ⟨lots, texts⟩ := joined_inj_last status.colon_notMem_text status'.colon_notMem_text same
      exact ⟨String.toList_inj.mp lots, text_injective (String.toList_inj.mp texts)⟩
    · rintro ⟨rfl, rfl⟩
      rfl

lemma ne_withStatus (lot : String) (status : RecallStatus) : lot ≠ withStatus lot status := by
  intro same
  have lengths := congrArg (fun text => text.toList.length) same
  simp [withStatus, toString_text] at lengths

lemma SameRecall.status_eq {lot : String} {status status' : RecallStatus}
    (same : SameRecall lot status lot status') : status = status' := by
  rcases same with ⟨-, same⟩ | ⟨-, -, longer⟩ | ⟨-, -, longer⟩
  · exact same
  · exact absurd longer (ne_withStatus lot status')
  · exact absurd longer (ne_withStatus lot status)

lemma toList_responseId (lot : String) (kind : ResponseKind) :
    (responseId lot kind.text).toList =
      "transformation:".toList ++ (lot.toList ++ ':' :: kind.text.toList) := by
  unfold responseId
  simp [toString_text]

lemma responseId_eq_iff {lot lot' : String} {kind kind' : ResponseKind} :
    responseId lot kind.text = responseId lot' kind'.text ↔ lot = lot' ∧ kind = kind' := by
  have clean (kind : ResponseKind) : ':' ∉ kind.text.toList := by cases kind <;> decide
  rw [← String.toList_inj, toList_responseId, toList_responseId, append_cancel_left_eq]
  constructor
  · intro same
    obtain ⟨lots, texts⟩ := joined_inj_last (clean kind) (clean kind') same
    refine ⟨String.toList_inj.mp lots, ?_⟩
    cases kind <;> cases kind' <;> first | rfl | exact absurd texts (by decide)
  · rintro ⟨rfl, rfl⟩
    rfl

lemma toList_attestationId (kind : AttestationKind) (lot : String) :
    (attestationId kind.text lot).toList = kind.text.toList ++ ':' :: lot.toList := by
  simp [attestationId, toString_text]

lemma attestationId_eq_iff {lot lot' : String} {kind kind' : AttestationKind} :
    attestationId kind.text lot = attestationId kind'.text lot' ↔ kind = kind' ∧ lot = lot' := by
  have clean (kind : AttestationKind) : ':' ∉ kind.text.toList := by cases kind <;> decide
  rw [← String.toList_inj, toList_attestationId, toList_attestationId]
  constructor
  · intro same
    obtain ⟨texts, lots⟩ := joined_inj_first (clean kind) (clean kind') same
    refine ⟨?_, String.toList_inj.mp lots⟩
    cases kind <;> cases kind' <;> first | rfl | exact absurd texts (by decide)
  · rintro ⟨rfl, rfl⟩
    rfl

namespace Emission

variable {X : Externals} {e e' : Emission}

def initial : Emission → Char
  | .recalls .. => 'r'
  | .responds .. => 't'
  | .attests _ .certification _ _ => 'q'
  | .attests _ .audit _ _ => 'a'

lemma head_recordId (e : Emission) : (e.record X).recordId.toList.head? = some e.initial := by
  cases e with
  | recalls config reason status =>
    simp [record, buildRecall, new, toList_recallId, initial]
  | responds config kind =>
    simp [record, buildResponse, new, toList_responseId, initial]
  | attests config kind lotRef lotCommitment =>
    simp only [record, buildAttestation, new, toList_attestationId]
    cases kind <;> simp [initial, AttestationKind.text]

/-- Records have one id exactly in one slot. -/
theorem recordId_eq_iff : (e.record X).recordId = (e'.record X).recordId ↔ e.SameSlot e' := by
  have apart (differ : e.initial ≠ e'.initial) : (e.record X).recordId ≠ (e'.record X).recordId := by
    intro same
    have heads := congrArg (fun id => id.toList.head?) same
    simp only [head_recordId, Option.some.injEq] at heads
    exact differ heads
  cases e <;> cases e'
  case recalls.recalls => exact recallId_eq_iff
  case responds.responds => exact responseId_eq_iff
  case attests.attests => exact attestationId_eq_iff
  -- records of different kinds differ in the first letter of the id
  all_goals exact iff_of_false (apart (by grind [initial, cases AttestationKind])) id

/-- In one slot, issuer and payload are equal exactly if the emissions agree. -/
theorem content_eq_iff (slot : e.SameSlot e') :
    ((e.record X).issuer = (e'.record X).issuer ∧ (e.record X).payload = (e'.record X).payload) ↔
      e.Agrees X e' := by
  cases e <;> cases e'
  case recalls.recalls =>
    simp only [record, buildRecall, new, cons.injEq, Prod.mk.injEq, true_and, Value.string.injEq,
      and_true, Agrees]
    constructor
    · rintro ⟨issuer, -, lot, same, -⟩
      exact ⟨lot, issuer, same⟩
    · rintro ⟨lot, issuer, same⟩
      simp only [SameSlot, lot] at slot
      exact ⟨issuer, issuer, lot, same, slot.status_eq ▸ rfl⟩
  case responds.responds =>
    obtain ⟨lot, rfl⟩ := slot
    simp [record, buildResponse, new, Agrees, lot]
  case attests.attests =>
    obtain ⟨rfl, rfl⟩ := slot
    simp only [record, buildAttestation, new, manifestCommitment, cons.injEq, Prod.mk.injEq,
      true_and, Value.string.injEq, Value.object.injEq, and_true, Agrees]
    tauto
  all_goals exact slot.elim

end Emission

def Unshadowed (records : Set CanonicalRecord) : Prop :=
  ∀ record ∈ records, ∀ record' ∈ records,
    record.issuer ≠ record'.issuer ∨ record.payload ≠ record'.payload →
      record.recordId ≠ record'.recordId

/-- Organizations that act on one lot say the same: its recalls have one issuer and one reason, and
no recalled lot is named like a status of another one; responses of one kind come from one
organization; attestations of one family have one issuer, scope and validity, and manifests of one
commitment. -/
structure OneVoice (X : Externals) (instances : Set LotFlow.Instance) : Prop where
  recalls : ∀ c heard c' heard', (.recalling c, heard) ∈ instances →
    (.recalling c', heard') ∈ instances → c.lotRef = c'.lotRef → ∀ reason reason',
      c.Recalls heard reason → c'.Recalls heard' reason' → c.issuer = c'.issuer ∧ reason = reason'
  statuses : ∀ c heard c' heard' status, (.recalling c, heard) ∈ instances →
    (.recalling c', heard') ∈ instances → status ≠ .issued → status.Heard heard →
    c'.lotRef = withStatus c.lotRef status → ∀ reason reason', c.Recalls heard reason →
      ¬c'.Recalls heard' reason'
  responses : ∀ kind c watched heard c' watched' heard', (.response kind c watched, heard) ∈ instances →
    (.response kind c' watched', heard') ∈ instances → c.lotRef = c'.lotRef →
    Responds kind.text watched heard → Responds kind.text watched' heard' → c.org = c'.org
  attestations : ∀ kind c heard c' heard', (.attestation kind c, heard) ∈ instances →
    (.attestation kind c', heard') ∈ instances → .woken "attest" ∈ heard → .woken "attest" ∈ heard' →
    ∀ lotRef commitment commitment', LotHeard heard lotRef commitment →
      LotHeard heard' lotRef commitment' → c.issuer = c'.issuer ∧ c.scope = c'.scope ∧
        c.validFrom = c'.validFrom ∧ c.validTo = c'.validTo ∧
        manifestCommitment X commitment c = manifestCommitment X commitment' c'

section

variable {X : Externals} {instances : Set LotFlow.Instance}

lemma oneVoice_iff : OneVoice X instances ↔ ∀ i ∈ instances, ∀ i' ∈ instances, ∀ e e',
    LotFlow.CanEmit i e → LotFlow.CanEmit i' e' → e.SameSlot e' → e.Agrees X e' := by
  constructor
  · rintro voice i among i' among' e e' emits emits' slot
    cases emits with
    | recalling known reached =>
      cases emits' with
      | recalling known' reached' =>
        rcases slot with ⟨lot, -⟩ | ⟨-, later, longer⟩ | ⟨-, later, longer⟩
        · exact ⟨lot, voice.recalls _ _ _ _ among among' lot _ _ known known'⟩
        · exact absurd known (voice.statuses _ _ _ _ _ among' among later reached' longer _ _ known')
        · exact absurd known' (voice.statuses _ _ _ _ _ among among' later reached longer _ _ known)
      | response | attestation => exact slot.elim
    | response responds =>
      cases emits' with
      | response responds' =>
        obtain ⟨lot, rfl⟩ := slot
        exact voice.responses _ _ _ _ _ _ _ among among' lot responds responds'
      | recalling | attestation => exact slot.elim
    | attestation lot woken =>
      cases emits' with
      | attestation lot' woken' =>
        obtain ⟨rfl, rfl⟩ := slot
        exact voice.attestations _ _ _ _ _ among among' woken woken' _ _ _ lot lot'
      | recalling | response => exact slot.elim
  · intro voice
    have issued (heard : Set FlowEvent) : RecallStatus.issued.Heard heard := nofun
    refine ⟨?_, ?_, ?_, ?_⟩
    · intro c heard c' heard' among among' lot reason reason' known known'
      have agree := voice _ among _ among' _ _ (.recalling known (issued heard))
        (.recalling known' (issued heard')) (.inl ⟨lot, rfl⟩)
      exact agree.2
    · intro c heard c' heard' status among among' later reached longer reason reason' known known'
      have agree := voice _ among _ among' _ _ (.recalling known reached)
        (.recalling known' (issued heard')) (.inr (.inr ⟨rfl, later, longer⟩))
      exact ne_withStatus _ _ (agree.1.trans longer)
    · intro kind c watched heard c' watched' heard' among among' lot responds responds'
      exact voice _ among _ among' _ _ (.response responds) (.response responds') ⟨lot, rfl⟩
    · intro kind c heard c' heard' among among' woken woken' lotRef _ _ lot lot'
      exact voice _ among _ among' _ _ (.attestation lot woken) (.attestation lot' woken') ⟨rfl, rfl⟩

lemma unshadowed_iff : Unshadowed (LotFlow.emittedBy X instances) ↔ OneVoice X instances := by
  rw [oneVoice_iff]
  constructor
  · intro unshadowed i among i' among' e e' emits emits' slot
    refine (Emission.content_eq_iff slot).mp ?_
    by_contra differ
    exact unshadowed _ (LotFlow.mem_emittedBy.mpr ⟨i, among, e, emits, rfl⟩) _
      (LotFlow.mem_emittedBy.mpr ⟨i', among', e', emits', rfl⟩) (not_and_or.mp differ)
      (Emission.recordId_eq_iff.mpr slot)
  · rintro voice record emitted record' emitted' differ same
    obtain ⟨i, among, e, emits, rfl⟩ := LotFlow.mem_emittedBy.mp emitted
    obtain ⟨i', among', e', emits', rfl⟩ := LotFlow.mem_emittedBy.mp emitted'
    have slot := Emission.recordId_eq_iff.mp same
    obtain ⟨issuers, payloads⟩ :=
      (Emission.content_eq_iff slot).mpr (voice i among i' among' e e' emits emits' slot)
    exact differ.elim (· issuers) (· payloads)

end

def submission (clock : String → Nat) (sign : CanonicalRecord → List RecordSignature)
    (record : CanonicalRecord) : Transaction :=
  .withId clock record.recordId (.canonicalRecord { record with signatures := sign record })

/-- For every collection of instances with the events that may reach them: records they can emit
that differ in issuer or payload have different ids exactly when those on one lot say the same. Then
a ledger that knew none of the records drops one only for another with the same issuer and
payload. -/
theorem emissions_unshadowed_iff (X : Externals) (instances : Set LotFlow.Instance) :
    (Unshadowed (LotFlow.emittedBy X instances) ↔ OneVoice X instances) ∧
    (OneVoice X instances → ∀ (clock : String → Nat)
      (sign : CanonicalRecord → List RecordSignature) (L : Ledger), IdsSound L →
      ∀ front record, (∀ r ∈ front ++ [record], r ∈ LotFlow.emittedBy X instances) →
        ¬Kept L (submission clock sign record) →
        let answer := (L.addAll X (front.map (submission clock sign))).addTransaction X
          (submission clock sign record)
        answer.2 = .ok () →
        ∃ kept ∈ front ++ [record], kept.issuer = record.issuer ∧ kept.payload = record.payload ∧
          submission clock sign kept ∈ answer.1.pendingTransactions) := by
  refine ⟨unshadowed_iff, fun voice clock sign L sound front record emitted unknown => ?_⟩
  intro answer taken
  obtain ⟨t, submitted, same, queued⟩ := queued_of_taken sound unknown taken
  rw [← map_singleton (f := submission clock sign), ← map_append] at submitted
  obtain ⟨kept, member, rfl⟩ := mem_map.mp submitted
  refine ⟨kept, member, ?_⟩
  have unshadowed := unshadowed_iff.mpr voice kept (emitted kept member) record
    (emitted record (by simp))
  have equal : kept.issuer = record.issuer ∧ kept.payload = record.payload := by
    by_contra differ
    exact unshadowed (not_and_or.mp differ) same
  exact ⟨equal.1, equal.2, queued⟩

/-! Organizations that act on `lot-1`. -/

def anchoredLot (id : String) : CanonicalRecord :=
  { CanonicalRecord.new id 1 "lot" [] "maker" with commitment := some "c" }

def recallBy (org lot reason : String) : LotFlow × List FlowEvent :=
  (.recalling ⟨org, lot, 100⟩,
    [.recordCommitted (anchoredLot lot), .woken ("recall:" ++ reason), .woken "activate"])

def publicRecall : FlowEvent :=
  .recordCommitted (buildRecall "lot-1" "glass" .issued ⟨"maker", "lot-1", 100⟩)

def quarantineBy (org : String) : LotFlow × List FlowEvent :=
  (.response .quarantine ⟨org, "lot-1", 200⟩ "lot-1", [publicRecall, .woken "quarantine"])

def disputeBy (org : String) : LotFlow × List FlowEvent :=
  (.response .dispute ⟨org, "lot-1", 200⟩ "lot-1", [publicRecall, .woken "dispute"])

def certificationBy (org scope : String) : LotFlow × List FlowEvent :=
  (.attestation .certification ⟨"", org, scope, "2026-01-01", "2027-01-01", 300⟩,
    [.recordCommitted (anchoredLot "lot-1"), .woken "attest"])

def recordsOf (X : Externals) (runs : List (LotFlow × List FlowEvent)) : List CanonicalRecord :=
  runs.flatMap fun run => run.1.emitted X run.2

def soleActors : List (LotFlow × List FlowEvent) :=
  [recallBy "maker" "lot-1" "glass", quarantineBy "holder-1", disputeBy "holder-1",
    certificationBy "lab-1" "cold-chain"]

def instancesOf (runs : List (LotFlow × List FlowEvent)) : Set LotFlow.Instance :=
  {i | ∃ run ∈ runs, i = (run.1, {event | event ∈ run.2})}

section Sample

variable {heard : Set FlowEvent}

lemma recalling_of_soleActors {c : RecallConfig}
    (member : (.recalling c, heard) ∈ instancesOf soleActors) : c = ⟨"maker", "lot-1", 100⟩ ∧
      ∀ reason, c.Recalls heard reason → reason = "glass" := by
  obtain ⟨rfl, rfl⟩ : c = ⟨"maker", "lot-1", 100⟩ ∧ heard = _ := by
    simpa [instancesOf, soleActors, recallBy, quarantineBy, disputeBy, certificationBy] using member
  refine ⟨rfl, ?_⟩
  rintro reason ⟨-, wake, woken, begins, rfl⟩
  obtain rfl | rfl : wake = "recall:" ++ "glass" ∨ wake = "activate" := by simpa using woken
  · decide
  · exact absurd begins (by decide)

lemma responding_of_soleActors {kind : ResponseKind} {c : RecallResponseConfig} {watched : String}
    (member : (.response kind c watched, heard) ∈ instancesOf soleActors) : c.org = "holder-1" := by
  simp only [instancesOf, soleActors, recallBy, quarantineBy, disputeBy, certificationBy] at member
  grind

lemma attesting_of_soleActors {kind : AttestationKind} {c : AttestationConfig}
    (member : (.attestation kind c, heard) ∈ instancesOf soleActors) :
    c = ⟨"", "lab-1", "cold-chain", "2026-01-01", "2027-01-01", 300⟩ ∧
      ∀ lotRef commitment, LotHeard heard lotRef commitment → commitment = "c" := by
  obtain ⟨⟨-, rfl⟩, rfl⟩ : (kind = .certification ∧ c = _) ∧ heard = _ := by
    simpa [instancesOf, soleActors, recallBy, quarantineBy, disputeBy, certificationBy] using member
  refine ⟨rfl, ?_⟩
  rintro lotRef commitment ⟨lot, committed, -, -, held⟩
  obtain rfl : lot = anchoredLot "lot-1" := by simpa using committed
  exact (Option.some.inj held).symm

end Sample

theorem emissions_unshadowed_sample :
    Unshadowed (LotFlow.emittedBy hexExternals (instancesOf soleActors)) := by
  refine (emissions_unshadowed_iff hexExternals _).1.mpr ⟨?_, ?_, ?_, ?_⟩
  · intro c heard c' heard' among among' _ reason reason' known known'
    obtain ⟨rfl, one⟩ := recalling_of_soleActors among
    obtain ⟨rfl, other⟩ := recalling_of_soleActors among'
    exact ⟨rfl, (one _ known).trans (other _ known').symm⟩
  · intro c heard c' heard' status among among' _ _ longer
    obtain ⟨rfl, -⟩ := recalling_of_soleActors among
    obtain ⟨rfl, -⟩ := recalling_of_soleActors among'
    exact absurd longer (ne_withStatus _ _)
  · intro kind c watched heard c' watched' heard' among among' _ _ _
    exact (responding_of_soleActors among).trans (responding_of_soleActors among').symm
  · intro kind c heard c' heard' among among' _ _ lotRef commitment commitment' known known'
    obtain ⟨rfl, one⟩ := attesting_of_soleActors among
    obtain ⟨rfl, other⟩ := attesting_of_soleActors among'
    rw [one _ _ known, other _ _ known']
    exact ⟨rfl, rfl, rfl, rfl, rfl⟩

def pooledRecords (X : Externals) (records : List CanonicalRecord) : List (String × String) :=
  let sign (record : CanonicalRecord) : List RecordSignature := [⟨record.issuer, [1], .ed25519⟩]
  let L := (freshPool X).ledger.addAll X (records.map (submission (fun _ => 0) sign))
  L.pendingTransactions.filterMap fun tx => match tx.kind with
    | .canonicalRecord record => some (tx.id, record.issuer)
    | _ => none

/-- Two organizations recall one lot for different reasons, two custodians quarantine it, two
dispute the recall, two laboratories certify it; and a lot is called `lot-1:active`. The ledger
keeps the first record under each id. -/
theorem emissions_shadowed :
    let records := recordsOf hexExternals [recallBy "maker" "lot-1" "glass",
      recallBy "shop" "lot-1" "mould", recallBy "mill" "lot-1:active" "metal",
      quarantineBy "holder-1", quarantineBy "holder-2", disputeBy "holder-1", disputeBy "holder-2",
      certificationBy "lab-1" "cold-chain", certificationBy "lab-2" "gmp"]
    records.map (fun record => (record.recordId, record.issuer)) =
      [("recall:lot-1", "maker"), ("recall:lot-1:active", "maker"), ("recall:lot-1", "shop"),
        ("recall:lot-1:active", "shop"), ("recall:lot-1:active", "mill"),
        ("recall:lot-1:active:active", "mill"), ("transformation:lot-1:quarantine", "holder-1"),
        ("transformation:lot-1:quarantine", "holder-2"),
        ("transformation:lot-1:disputed", "holder-1"), ("transformation:lot-1:disputed", "holder-2"),
        ("quality_certification:lot-1", "lab-1"), ("quality_certification:lot-1", "lab-2")] ∧
    pooledRecords hexExternals records =
      [("recall:lot-1", "maker"), ("recall:lot-1:active", "maker"),
        ("recall:lot-1:active:active", "mill"), ("transformation:lot-1:quarantine", "holder-1"),
        ("transformation:lot-1:disputed", "holder-1"), ("quality_certification:lot-1", "lab-1")] := by
  decide +kernel

end GlassChain
