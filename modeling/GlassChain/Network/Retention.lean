import GlassChain.Library.Expiring
import GlassChain.Network.PrivatePayload

/-!
# Retention of private payloads

A deadline is kept twice: in the stored envelope, and in an index in memory that a restart forgets.
A purge goes by the index where it knows a key and reads the envelope where it does not. Along any
sequential history the index never differs from the envelopes, so the store keeps exactly the latest
put of each collection and commitment until a purge comes to its deadline.
-/

namespace GlassChain

open Library List TransientStore AList Expiring

variable {commitment : String}

lemma colon_notMem_of_isHex64 (hex : isHex64 commitment = true) : ':' ∉ commitment.toList := by
  simp only [isHex64, Bool.and_eq_true, all_eq_true] at hex
  exact colon_notMem_of_utf8 fun listed => absurd (hex.2 58 listed) (by decide)

variable {collection : String}

lemma transientKey_inj {collection' commitment' : String} (hex : isHex64 commitment = true)
    (hex' : isHex64 commitment' = true) :
    transientKey collection commitment = transientKey collection' commitment' ↔
      collection = collection' ∧ commitment = commitment' := by
  constructor
  · intro same
    rw [← String.toList_inj, toList_transientKey, toList_transientKey,
      append_cancel_left_eq] at same
    obtain ⟨names, commitments⟩ := joined_inj_last (colon_notMem_of_isHex64 hex)
      (colon_notMem_of_isHex64 hex') same
    exact ⟨String.toList_inj.mp names, String.toList_inj.mp commitments⟩
  · rintro ⟨rfl, rfl⟩
    rfl

def PayloadKey (key : String) : Prop :=
  ∃ collection commitment, isHex64 commitment = true ∧ key = transientKey collection commitment

lemma PayloadKey.starts {key : String} (own : PayloadKey key) :
    ∃ rest, key = transientPrefix ++ ":" ++ rest := by
  obtain ⟨collection, commitment, -, rfl⟩ := own
  refine ⟨collection ++ ":" ++ commitment, String.toList_inj.mp ?_⟩
  simp [toList_transientKey, transientPrefix, String.toList_append]

namespace TransientStore

/-- The storage holds envelopes under the keys of payloads, and the index their deadlines. -/
structure Sound (K : EnvelopeCodec) (T : TransientStore) : Prop where
  stored : ∀ rest raw, T.storage.lookup (transientPrefix ++ ":" ++ rest) = some raw →
    PayloadKey (transientPrefix ++ ":" ++ rest) ∧ ∃ envelope, raw = K.encode envelope
  indexed : ∀ key deadline, T.expiryIndex.lookup key = some deadline →
    PayloadKey key ∧ ∃ payload, T.storage.lookup key = some (K.encode ⟨payload, deadline⟩)

variable {K : EnvelopeCodec} {T : TransientStore} {now : Nat}

def purged (K : EnvelopeCodec) (T : TransientStore) (now : Nat) : List String :=
  (T.expiryIndex.entries.filter fun e => e.2 ≤ now).map Sigma.fst ++
    (listStateKeys T.storage (transientPrefix ++ ":")).filter fun key =>
      (T.expiryIndex.lookup key).isNone && ((T.storage.lookup key).map (expired K now)).getD false

lemma purgeExpired_eq : T.purgeExpired K now =
    (⟨(T.purged K now).foldl (fun m key => m.erase key) T.storage,
      (T.purged K now).foldl (fun m key => m.erase key) T.expiryIndex⟩,
      (T.purged K now).length) := rfl

lemma encode_inj {envelope envelope' : PayloadEnvelope} :
    K.encode envelope = K.encode envelope' ↔ envelope = envelope' := by
  refine ⟨fun same => ?_, congrArg K.encode⟩
  have decoded := K.decode_encode envelope
  rw [same, K.decode_encode] at decoded
  exact (Except.ok.inj decoded).symm

lemma expired_encode (envelope : PayloadEnvelope) :
    expired K now (K.encode envelope) = decide (envelope.expiresAt ≤ now) := by
  simp [expired, K.decode_encode]

/-- By the index or by the envelope, a purge finds what is past its deadline. -/
theorem Sound.mem_purged (sound : T.Sound K) {key : String} : key ∈ T.purged K now ↔
    PayloadKey key ∧ ∃ envelope, T.storage.lookup key = some (K.encode envelope) ∧
      envelope.expiresAt ≤ now := by
  simp only [purged, mem_append, mem_map, mem_filter, decide_eq_true_eq,
    mem_listStateKeys, Bool.and_eq_true, Option.isNone_iff_eq_none]
  constructor
  · rintro (⟨⟨key, deadline⟩, ⟨listed, due⟩, rfl⟩ | ⟨⟨-, rest, rfl⟩, -, due⟩)
    · obtain ⟨own, payload, held⟩ := sound.indexed key deadline (mem_lookup_iff.mpr listed)
      exact ⟨own, _, held, due⟩
    · cases held : T.storage.lookup (transientPrefix ++ ":" ++ rest) with
      | none => simp [held] at due
      | some raw =>
        obtain ⟨own, envelope, rfl⟩ := sound.stored rest raw held
        exact ⟨own, envelope, rfl, by simpa [held, expired_encode] using due⟩
  · rintro ⟨own, envelope, held, due⟩
    cases known : T.expiryIndex.lookup key with
    | some deadline =>
      obtain ⟨-, payload, same⟩ := sound.indexed key deadline known
      rw [held, Option.some.injEq, encode_inj] at same
      subst same
      exact .inl ⟨⟨key, deadline⟩, ⟨mem_lookup_iff.mp known, due⟩, rfl⟩
    | none =>
      have present : key ∈ T.storage := lookup_isSome.mp (by simp [held])
      exact .inr ⟨⟨present, own.starts⟩, rfl, by simp [held, expired_encode, due]⟩

lemma nodup_listStateKeys (state : WorldState) (front : String) :
    (listStateKeys state front).Nodup :=
  (mergeSort_perm _ _).nodup_iff.mpr (state.keys_nodup.filter _)

lemma nodup_purged : (T.purged K now).Nodup := by
  refine nodup_append.mpr ⟨?_, (nodup_listStateKeys _ _).filter _, ?_⟩
  · exact T.expiryIndex.keys_nodup.sublist (filter_sublist.map Sigma.fst)
  · -- the scan of the storage passes over the keys of the index
    intro key indexed key' discovered
    obtain ⟨⟨key, deadline⟩, listed, rfl⟩ := mem_map.mp indexed
    have known := mem_lookup_iff.mpr (mem_filter.mp listed).1
    have unknown := (mem_filter.mp discovered).2
    rintro rfl
    simp [Option.mem_def.mp known] at unknown

lemma sound_new {storage : WorldState}
    (fresh : listStateKeys storage (transientPrefix ++ ":") = []) : (new storage).Sound K where
  stored rest raw held := by
    have present : transientPrefix ++ ":" ++ rest ∈ storage :=
      lookup_isSome.mp (Option.isSome_of_mem held)
    have listed := mem_listStateKeys.mpr ⟨present, rest, rfl⟩
    rw [fresh] at listed
    cases listed
  indexed key deadline known := by cases known

lemma Sound.restart (sound : T.Sound K) : (new T.storage).Sound K :=
  ⟨sound.stored, fun _ _ known => nomatch known⟩

lemma Sound.put (sound : T.Sound K) {collection commitment : String}
    (hex : isHex64 commitment = true) (payload : Bytes) (retentionSecs : Nat) :
    (T.put K now collection commitment payload retentionSecs).Sound K := by
  have own : PayloadKey (transientKey collection commitment) := ⟨_, _, hex, rfl⟩
  constructor
  · intro rest raw held
    rcases lookup_insert_eq_some.mp held with ⟨same, rfl⟩ | ⟨-, held⟩
    · exact ⟨same ▸ own, _, rfl⟩
    · exact sound.stored rest raw held
  · intro key deadline known
    rcases lookup_insert_eq_some.mp known with ⟨rfl, rfl⟩ | ⟨other, known⟩
    · exact ⟨own, payload, lookup_insert _⟩
    · obtain ⟨own', payload', held⟩ := sound.indexed key deadline known
      exact ⟨own', payload', (lookup_insert_ne other).trans held⟩

lemma Sound.get (sound : T.Sound K) {collection commitment : String}
    (hex : isHex64 commitment = true) : (T.get K now collection commitment).1.Sound K := by
  constructor
  · rw [get_storage]
    exact sound.stored
  · rw [get_storage]
    unfold TransientStore.get
    intro key deadline known
    cases held : T.storage.lookup (transientKey collection commitment) with
    | none => exact sound.indexed key deadline (by simpa [held] using known)
    | some raw =>
      obtain ⟨rest, starts⟩ := PayloadKey.starts ⟨collection, commitment, hex, rfl⟩
      obtain ⟨own, envelope, rfl⟩ := sound.stored rest raw (starts ▸ held)
      simp only [held, K.decode_encode] at known
      split at known
      · exact sound.indexed key deadline known
      · rcases lookup_insert_eq_some.mp known with ⟨rfl, rfl⟩ | ⟨-, known⟩
        · exact ⟨⟨_, _, hex, rfl⟩, envelope.payload, held⟩
        · exact sound.indexed key deadline known

lemma Sound.purgeExpired (sound : T.Sound K) : (T.purgeExpired K now).1.Sound K := by
  rw [purgeExpired_eq]
  constructor
  · intro rest raw held
    exact sound.stored rest raw (lookup_of_lookup_foldl_erase held)
  · intro key deadline known
    simp only [lookup_foldl_erase] at known ⊢
    split at known
    · cases known
    · rw [if_neg ‹_›]
      exact sound.indexed key deadline known

end TransientStore

namespace TransientCall

/-- Commitments are 64 hexadecimal digits, deadlines fit a `u64`. -/
def Proper : TransientCall → Prop
  | put now _ commitment _ retentionSecs =>
    isHex64 commitment = true ∧ now + retentionSecs < 2 ^ 64
  | get _ _ commitment => isHex64 commitment = true
  | purgeExpired _ | restart => True

def op : TransientCall → Expiring (String × String) Bytes
  | put now collection commitment payload retentionSecs =>
    .put (collection, commitment) payload (now + retentionSecs)
  | purgeExpired now => .purge now
  | get .. | restart => .idle

/-- The latest put of a collection and a commitment, with its deadline, that no purge has come to
since. -/
def Retained (calls : List TransientCall) (collection commitment : String) (payload : Bytes)
    (deadline : Nat) : Prop :=
  ∃ before after now retentionSecs, deadline = now + retentionSecs ∧
    calls = before ++ .put now collection commitment payload retentionSecs :: after ∧
    (∀ now' payload' retentionSecs',
      .put now' collection commitment payload' retentionSecs' ∉ after) ∧
    ∀ time, .purgeExpired time ∈ after → time < deadline

lemma op_eq_put {call : TransientCall} {payload : Bytes} {deadline : Nat} :
    call.op = .put (collection, commitment) payload deadline ↔
      ∃ now retentionSecs, deadline = now + retentionSecs ∧
        call = .put now collection commitment payload retentionSecs := by
  cases call <;> grind [op]

lemma op_eq_purge {call : TransientCall} {time : Nat} :
    call.op = .purge time ↔ call = .purgeExpired time := by
  cases call <;> grind [op]

lemma latest_op {calls : List TransientCall} {payload : Bytes} {deadline : Nat} :
    Expiring.Latest (calls.map op) (collection, commitment) payload deadline ↔
      Retained calls collection commitment payload deadline := by
  constructor
  · rintro ⟨before, after, cut, last, kept⟩
    obtain ⟨front, back, rfl, rfl, tail⟩ := map_eq_append_iff.mp cut
    obtain ⟨call, rest, rfl, put, rfl⟩ := map_eq_cons_iff.mp tail
    obtain ⟨now, retentionSecs, rfl, rfl⟩ := op_eq_put.mp put
    refine ⟨front, rest, now, retentionSecs, rfl, rfl, ?_, ?_⟩
    · intro now' payload' retentionSecs' member
      exact last payload' (now' + retentionSecs') (mem_map_of_mem (f := op) member)
    · intro time member
      exact kept time (mem_map_of_mem (f := op) member)
  · rintro ⟨before, after, now, retentionSecs, rfl, rfl, last, kept⟩
    refine ⟨before.map op, after.map op, by simp [op], ?_, ?_⟩
    · intro payload' deadline' member
      obtain ⟨call, listed, same⟩ := mem_map.mp member
      obtain ⟨now', retentionSecs', -, rfl⟩ := op_eq_put.mp same
      exact last now' payload' retentionSecs' listed
    · intro time member
      obtain ⟨call, listed, same⟩ := mem_map.mp member
      exact kept time (op_eq_purge.mp same ▸ listed)

/-- The storage holds, for each collection and commitment, what the history has put and not
purged. -/
structure Keeps (K : EnvelopeCodec) (calls : List TransientCall) (T : TransientStore) : Prop where
  sound : T.Sound K
  holds : ∀ collection commitment, isHex64 commitment = true →
    T.storage.lookup (transientKey collection commitment) =
      (Expiring.held (calls.map op) (collection, commitment)).map fun e => K.encode ⟨e.1, e.2⟩

variable {K : EnvelopeCodec} {calls : List TransientCall} {T : TransientStore} {storage : WorldState}

lemma Keeps.next (keeps : Keeps K calls T) {call : TransientCall} (proper : call.Proper) :
    Keeps K (calls ++ [call]) (call.next K T) := by
  have history (collection commitment : String) :
      Expiring.held ((calls ++ [call]).map op) (collection, commitment) =
        Expiring.hold (collection, commitment)
          (Expiring.held (calls.map op) (collection, commitment)) call.op := by
    rw [map_append, map_singleton, held_concat]
  cases call with
  | put now collection commitment payload retentionSecs =>
    refine ⟨keeps.sound.put proper.1 payload retentionSecs, ?_⟩
    intro collection' commitment' hex
    rw [history]
    simp only [TransientCall.next, TransientStore.put, TransientStore.recordExpiry, op,
      hold, Nat.mod_eq_of_lt proper.2]
    by_cases same : (collection, commitment) = (collection', commitment')
    · cases same
      simp
    · have other : transientKey collection' commitment' ≠ transientKey collection commitment := by
        rw [Ne, transientKey_inj hex proper.1]
        grind
      rw [lookup_insert_ne other, if_neg same, keeps.holds collection' commitment' hex]
  | get now collection commitment =>
    refine ⟨keeps.sound.get proper, ?_⟩
    intro collection' commitment' hex
    rw [history, TransientCall.next, get_storage]
    exact keeps.holds collection' commitment' hex
  | purgeExpired now =>
    refine ⟨keeps.sound.purgeExpired, ?_⟩
    intro collection commitment hex
    have entry := keeps.holds collection commitment hex
    rw [history, TransientCall.next, purgeExpired_eq]
    simp only [lookup_foldl_erase, op, hold]
    cases found : Expiring.held (calls.map op) (collection, commitment) with
    | none => simp [entry, found]
    | some e =>
      have own : PayloadKey (transientKey collection commitment) := ⟨_, _, hex, rfl⟩
      have due : transientKey collection commitment ∈ T.purged K now ↔ e.2 ≤ now := by
        simp [keeps.sound.mem_purged, entry, found, own, encode_inj]
      simp only [due, entry, found, Option.map_some, Option.filter_some, decide_eq_true_eq]
      split <;> split <;> first | rfl | omega
  | restart =>
    refine ⟨keeps.sound.restart, ?_⟩
    intro collection commitment hex
    rw [history]
    exact keeps.holds collection commitment hex

lemma keeps_run (fresh : listStateKeys storage (transientPrefix ++ ":") = [])
    (proper : ∀ call ∈ calls, call.Proper) : Keeps K calls (run K storage calls) := by
  induction calls using List.reverseRecOn with
  | nil =>
    refine ⟨sound_new fresh, ?_⟩
    intro collection commitment hex
    obtain ⟨rest, starts⟩ := PayloadKey.starts ⟨collection, commitment, hex, rfl⟩
    cases held : storage.lookup (transientKey collection commitment) with
    | none => exact held
    | some raw =>
      have present : transientKey collection commitment ∈ storage :=
        lookup_isSome.mp (by simp [held])
      have listed := mem_listStateKeys.mpr ⟨present, rest, starts⟩
      rw [fresh] at listed
      cases listed
  | append_singleton calls call ih =>
    have earlier := ih fun c member => proper c (by simp [member])
    rw [run, foldl_append]
    exact earlier.next (proper call (by simp))

section

variable (keeps : Keeps K calls T) (hex : isHex64 commitment = true)

include keeps hex

lemma Keeps.lookup_eq_some (payload : Bytes) (deadline : Nat) :
    T.storage.lookup (transientKey collection commitment) = some (K.encode ⟨payload, deadline⟩) ↔
      Retained calls collection commitment payload deadline := by
  rw [keeps.holds _ _ hex, ← latest_op, ← held_eq_some]
  cases Expiring.held (calls.map op) (collection, commitment) with
  | none => simp
  | some e => simp [encode_inj, Prod.ext_iff]

lemma Keeps.get_eq_some (time : Nat) (payload : Bytes) :
    (T.get K time collection commitment).2 = .ok (some payload) ↔
      ∃ deadline, Retained calls collection commitment payload deadline ∧ time < deadline := by
  constructor
  · intro found
    obtain ⟨raw, envelope, held, decoded, ahead, rfl, -⟩ :=
      TransientStore.get_eq_some.mp (Prod.ext rfl found)
    obtain ⟨rest, starts⟩ := PayloadKey.starts ⟨collection, commitment, hex, rfl⟩
    obtain ⟨-, envelope', rfl⟩ := keeps.sound.stored rest raw (starts ▸ held)
    rw [K.decode_encode, Except.ok.injEq] at decoded
    subst decoded
    exact ⟨_, (keeps.lookup_eq_some hex _ _).mp held, ahead⟩
  · rintro ⟨deadline, retained, ahead⟩
    exact congrArg Prod.snd (TransientStore.get_eq_some.mpr ⟨_, ⟨payload, deadline⟩,
      (keeps.lookup_eq_some hex _ _).mpr retained, K.decode_encode _, ahead, rfl, rfl⟩)

lemma Keeps.mem_purged {time : Nat} :
    transientKey collection commitment ∈ T.purged K time ↔
      ∃ payload deadline, Retained calls collection commitment payload deadline ∧
        deadline ≤ time := by
  rw [keeps.sound.mem_purged]
  constructor
  · rintro ⟨-, envelope, held, due⟩
    exact ⟨_, _, (keeps.lookup_eq_some hex _ _).mp held, due⟩
  · rintro ⟨payload, deadline, retained, due⟩
    exact ⟨⟨_, _, hex, rfl⟩, _, (keeps.lookup_eq_some hex _ _).mpr retained, due⟩

end

/-- The collections and commitments whose payload a purge removes. -/
theorem Keeps.purge (keeps : Keeps K calls T) (time : Nat) :
    ∃ gone : Finset (String × String), (T.purgeExpired K time).2 = gone.card ∧
      (∀ collection commitment, (collection, commitment) ∈ gone ↔ isHex64 commitment = true ∧
        ∃ payload deadline, Retained calls collection commitment payload deadline ∧
          deadline ≤ time) ∧
      ∀ key, (T.purgeExpired K time).1.storage.lookup key =
        if key ∈ gone.image (fun pair => transientKey pair.1 pair.2) then none
        else T.storage.lookup key := by
  -- every key that is removed spells one pair
  have named (key : String) (removed : key ∈ T.purged K time) : ∃ pair : String × String,
      isHex64 pair.2 = true ∧ key = transientKey pair.1 pair.2 := by
    obtain ⟨⟨collection, commitment, hex, rfl⟩, -⟩ := keeps.sound.mem_purged.mp removed
    exact ⟨(collection, commitment), hex, rfl⟩
  choose! pairOf spelled using named
  have distinct : ((T.purged K time).map pairOf).Nodup := by
    refine nodup_purged.map_on fun key removed key' removed' same => ?_
    rw [(spelled key removed).2, (spelled key' removed').2, same]
  refine ⟨((T.purged K time).map pairOf).toFinset, ?_, ?_, ?_⟩
  · rw [toFinset_card_of_nodup distinct, length_map]
    rfl
  · intro collection commitment
    simp only [mem_toFinset, mem_map]
    constructor
    · rintro ⟨key, removed, same⟩
      obtain ⟨hex, rfl⟩ : isHex64 commitment = true ∧ key = transientKey collection commitment := by
        simpa [same] using spelled key removed
      exact ⟨hex, (keeps.mem_purged hex).mp removed⟩
    · rintro ⟨hex, due⟩
      have removed := (keeps.mem_purged hex).mpr due
      obtain ⟨hex', same⟩ := spelled _ removed
      obtain ⟨names, commitments⟩ := (transientKey_inj hex hex').mp same
      exact ⟨_, removed, (Prod.ext names commitments).symm⟩
  · intro key
    have keys : key ∈ ((T.purged K time).map pairOf).toFinset.image
        (fun pair => transientKey pair.1 pair.2) ↔ key ∈ T.purged K time := by
      simp only [Finset.mem_image, mem_toFinset, mem_map]
      constructor
      · rintro ⟨-, ⟨key', removed, rfl⟩, rfl⟩
        rwa [← (spelled key' removed).2]
      · intro removed
        exact ⟨pairOf key, ⟨key, removed, rfl⟩, (spelled key removed).2.symm⟩
    rw [purgeExpired_eq]
    simp only [lookup_foldl_erase, keys]

end TransientCall

open TransientCall in
/-- After any history, a read returns the latest put of a collection and commitment until its
deadline, unless a purge has come to it; and a purge removes the payloads past their deadline, no
other entry, and returns how many they were. -/
theorem retention_exact (K : EnvelopeCodec) (storage : WorldState)
    (fresh : listStateKeys storage (transientPrefix ++ ":") = []) (calls : List TransientCall)
    (proper : ∀ call ∈ calls, call.Proper) :
    let T := run K storage calls
    (∀ time collection commitment payload, isHex64 commitment = true →
      ((T.get K time collection commitment).2 = .ok (some payload) ↔
        ∃ deadline, Retained calls collection commitment payload deadline ∧ time < deadline)) ∧
    ∀ time, ∃ gone : Finset (String × String),
      (T.purgeExpired K time).2 = gone.card ∧
      (∀ collection commitment, (collection, commitment) ∈ gone ↔ isHex64 commitment = true ∧
        ∃ payload deadline, Retained calls collection commitment payload deadline ∧
          deadline ≤ time) ∧
      ∀ key, (T.purgeExpired K time).1.storage.lookup key =
        if key ∈ gone.image (fun pair => transientKey pair.1 pair.2) then none
        else T.storage.lookup key := by
  have keeps : Keeps K calls (run K storage calls) := keeps_run fresh proper
  exact ⟨fun time _ _ payload hex => keeps.get_eq_some hex time payload, keeps.purge⟩

/-- A payload put before a restart is read until its deadline, past a purge that comes too early. -/
theorem retention_sample :
    let commitment := "0123456789abcdef0123456789abcdef0123456789abcdef0123456789abcdef"
    ((TransientCall.run plainEnvelopeCodec ∅ [.put 10 "farm" commitment [7] 5, .restart,
      .purgeExpired 14]).get plainEnvelopeCodec 14 "farm" commitment).2 = .ok (some [7]) := by
  intro commitment
  have hex : isHex64 commitment = true := by decide
  refine ((retention_exact plainEnvelopeCodec ∅ (by simp [listStateKeys])
    [.put 10 "farm" commitment [7] 5, .restart, .purgeExpired 14] ?_).1 14 "farm" commitment [7]
      hex).mpr ⟨15, ⟨[], [.restart, .purgeExpired 14], 10, 5, rfl, rfl, by simp, by simp⟩, by decide⟩
  simp [TransientCall.Proper, hex]

end GlassChain
