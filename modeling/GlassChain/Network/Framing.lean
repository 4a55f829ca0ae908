import GlassChain.Core.Bft
import GlassChain.Network.PrivatePayload

/-!
# Framing

A connection carries messages as JSON behind a length of four bytes. The writer refuses what exceeds
the largest size before it writes anything; the reader collects each part of a frame from whatever
chunks the bytes arrive in. So the reader returns the messages that were not refused, in order, and
a stream that ends inside a frame is a disconnect after the frames before it.
-/

namespace GlassChain

open Library List

def maxMessageSize : Nat := 16 * 1024 * 1024

/-- `serde_json` for the messages of the protocol, which loses nothing. -/
structure MessageCodec (α : Type) where
  toVec : α → Bytes
  fromSlice : Bytes → Except String α
  lossless : ∀ message, fromSlice (toVec message) = .ok message

/-- `read_exact` on the chunks that are still to arrive; `none` where the stream ends too early. -/
def readExact : List Bytes → Nat → Option (Bytes × List Bytes)
  | chunks, 0 => some ([], chunks)
  | [], _ + 1 => none
  | chunk :: chunks, n + 1 =>
    if n + 1 < chunk.length then some (chunk.take (n + 1), chunk.drop (n + 1) :: chunks)
    else (readExact chunks (n + 1 - chunk.length)).map fun (bytes, rest) => (chunk ++ bytes, rest)

lemma readExact_some {chunks rest : List Bytes} {n : Nat} {bytes : Bytes}
    (read : readExact chunks n = some (bytes, rest)) :
    chunks.flatten = bytes ++ rest.flatten ∧ bytes.length = n := by
  induction chunks generalizing n bytes with
  | nil => cases n <;> simp_all [readExact]
  | cons chunk chunks ih =>
    cases n with
    | zero => simp_all [readExact]
    | succ n =>
      rw [readExact] at read
      split at read
      · cases read
        simp [← append_assoc]
        omega
      · obtain ⟨⟨more, rest'⟩, later, same⟩ := Option.map_eq_some_iff.mp read
        cases same
        obtain ⟨bytes, length⟩ := ih later
        rw [flatten_cons, bytes, append_assoc, length_append, length]
        exact ⟨rfl, by omega⟩

lemma readExact_none {chunks : List Bytes} {n : Nat} (read : readExact chunks n = none) :
    chunks.flatten.length < n := by
  induction chunks generalizing n with
  | nil => cases n <;> simp_all [readExact]
  | cons chunk chunks ih =>
    cases n with
    | zero => simp [readExact] at read
    | succ n =>
      rw [readExact] at read
      split at read
      · cases read
      · have short := ih (Option.map_eq_none_iff.mp read)
        simp only [flatten_cons, length_append]
        omega

namespace MessageCodec

variable {α : Type} (C : MessageCodec α)

def fits (message : α) : Bool := (C.toVec message).length ≤ maxMessageSize

/-- `PeerWriter::send` on a stream that holds what was written before. -/
def send (written : Bytes) (message : α) : Bytes × Except NetworkError Unit :=
  let payload := C.toVec message
  if maxMessageSize < payload.length then
    (written, .error (.messageTooLarge payload.length maxMessageSize))
  else if 2 ^ 32 ≤ payload.length then
    (written, .error (.messageTooLarge payload.length maxMessageSize))
  else (written ++ beBytes 4 payload.length ++ payload, .ok ())

def sendAll (messages : List α) : Bytes :=
  messages.foldl (fun written message => (C.send written message).1) []

/-- `PeerReader::receive`, with the chunks that are left. -/
def receive (address : String) (chunks : List Bytes) : Except NetworkError (α × List Bytes) :=
  match readExact chunks 4 with
  | none => .error (.peerDisconnected address)
  | some (lenBuf, chunks) =>
    let len := ofBytes lenBuf
    if maxMessageSize < len then .error (.messageTooLarge len maxMessageSize)
    else match readExact chunks len with
      | none => .error (.peerDisconnected address)
      | some (buf, chunks) => match C.fromSlice buf with
        | .error e => .error (.serialization e)
        | .ok message => .ok (message, chunks)

lemma receive_ok {address : String} {chunks rest : List Bytes} {message : α}
    (received : C.receive address chunks = .ok (message, rest)) :
    rest.flatten.length < chunks.flatten.length := by
  unfold receive at received
  split at received
  · cases received
  · rename_i read
    obtain ⟨header, length⟩ := readExact_some read
    dsimp only at received
    split at received
    · cases received
    · split at received
      · cases received
      · rename_i read'
        obtain ⟨body, -⟩ := readExact_some read'
        split at received
        · cases received
        · obtain ⟨-, rfl⟩ := Prod.mk.inj (Except.ok.inj received)
          rw [header, body]
          simp
          omega

/-- The read loop: the messages up to the first error, and the error. -/
def receiveAll (address : String) (chunks : List Bytes) : List α × NetworkError :=
  match _received : C.receive address chunks with
  | .error e => ([], e)
  | .ok (message, rest) =>
    let (messages, e) := receiveAll address rest
    (message :: messages, e)
termination_by chunks.flatten.length
decreasing_by exact C.receive_ok _received

variable {C} {address : String} {chunks : List Bytes} {message : α}

lemma send_eq (written : Bytes) : (C.send written message).1 =
    written ++ if C.fits message then lengthPrefixed (C.toVec message) else [] := by
  by_cases fits : (C.toVec message).length ≤ maxMessageSize
  · have small : ¬2 ^ 32 ≤ (C.toVec message).length := by
      unfold maxMessageSize at fits
      omega
    simp only [send, MessageCodec.fits, fits, decide_true, if_true, if_neg small,
      if_neg (Nat.not_lt.mpr fits), lengthPrefixed, append_assoc]
  · simp [send, MessageCodec.fits, fits, Nat.lt_of_not_le fits]

lemma sendAll_eq (messages : List α) : C.sendAll messages =
    (messages.filter C.fits).flatMap fun message => lengthPrefixed (C.toVec message) := by
  induction messages using List.reverseRecOn with
  | nil => rfl
  | append_singleton messages message ih =>
    rw [sendAll, foldl_append]
    change (C.send (C.sendAll messages) message).1 = _
    rw [send_eq, ih]
    by_cases fits : C.fits message <;> simp [fits]

lemma ofBytes_header (fits : C.fits message = true) :
    ofBytes (beBytes 4 (C.toVec message).length) = (C.toVec message).length := by
  have small : (C.toVec message).length ≤ maxMessageSize := by simpa [MessageCodec.fits] using fits
  unfold maxMessageSize at small
  rw [ofBytes_beBytes, Nat.mod_eq_of_lt (by omega)]

lemma readExact_of_flatten {bytes rest : Bytes} (arrived : chunks.flatten = bytes ++ rest) :
    ∃ chunks', readExact chunks bytes.length = some (bytes, chunks') ∧ chunks'.flatten = rest := by
  cases read : readExact chunks bytes.length with
  | none =>
    have short := readExact_none read
    rw [arrived, length_append] at short
    omega
  | some result =>
    obtain ⟨same, length⟩ := readExact_some read
    obtain ⟨first, second⟩ := append_inj (arrived.symm.trans same) length.symm
    exact ⟨result.2, by rw [first], second.symm⟩

variable (address) in
lemma receive_frame (fits : C.fits message = true) {rest : Bytes}
    (arrived : chunks.flatten = lengthPrefixed (C.toVec message) ++ rest) :
    ∃ chunks', C.receive address chunks = .ok (message, chunks') ∧ chunks'.flatten = rest := by
  rw [lengthPrefixed, append_assoc] at arrived
  obtain ⟨chunks₁, header, arrived⟩ := readExact_of_flatten arrived
  obtain ⟨chunks₂, body, arrived⟩ := readExact_of_flatten arrived
  rw [length_beBytes] at header
  have small : ¬maxMessageSize < (C.toVec message).length := by simpa [MessageCodec.fits] using fits
  exact ⟨chunks₂, by simp [receive, header, ofBytes_header fits, small, body, C.lossless], arrived⟩

/-- A stream that ends before the end of a frame. -/
theorem receive_cut (fits : C.fits message = true) {missing : Bytes} (some_ : missing ≠ [])
    (arrived : chunks.flatten ++ missing = lengthPrefixed (C.toVec message)) :
    C.receive address chunks = .error (.peerDisconnected address) := by
  have short : chunks.flatten.length < 4 + (C.toVec message).length := by
    have := congrArg List.length arrived
    have := length_pos_iff.mpr some_
    simp [lengthPrefixed] at *
    omega
  unfold receive
  split
  · rfl
  · rename_i lenBuf chunks' read
    obtain ⟨same, length⟩ := readExact_some read
    have header : lenBuf = beBytes 4 (C.toVec message).length := by
      rw [same, append_assoc] at arrived
      exact (append_inj arrived (by simp [length])).1
    have small : ¬maxMessageSize < (C.toVec message).length := by simpa [MessageCodec.fits] using fits
    rw [header, ofBytes_header fits]
    dsimp only
    rw [if_neg small]
    split
    · rfl
    · rename_i read'
      obtain ⟨same', length'⟩ := readExact_some read'
      rw [same, same'] at short
      simp at short
      omega

lemma receiveAll_frames {messages : List α} (fits : ∀ message ∈ messages, C.fits message = true)
    {rest : Bytes} (arrived : chunks.flatten =
      (messages.flatMap fun message => lengthPrefixed (C.toVec message)) ++ rest)
    (ends : ∀ chunks : List Bytes, chunks.flatten = rest →
      C.receive address chunks = .error (.peerDisconnected address)) :
    C.receiveAll address chunks = (messages, .peerDisconnected address) := by
  induction messages generalizing chunks with
  | nil =>
    rw [receiveAll]
    split <;> simp_all
  | cons message messages ih =>
    rw [flatMap_cons, append_assoc] at arrived
    obtain ⟨chunks', received, arrived⟩ := receive_frame address (fits message (by simp)) arrived
    have later := ih (fun message member => fits message (by simp [member])) arrived
    rw [receiveAll]
    split <;> simp_all

end MessageCodec

/-- What was sent is received up to the refused messages, which write nothing; and if the stream
ends inside a frame, the messages before it are received and then the peer is disconnected. -/
theorem framing_lossless {α : Type} (C : MessageCodec α) (address : String) (messages : List α) :
    (∀ written message, C.fits message = false → C.send written message =
      (written, .error (.messageTooLarge (C.toVec message).length maxMessageSize))) ∧
    (∀ chunks : List Bytes, chunks.flatten = C.sendAll messages →
      C.receiveAll address chunks = (messages.filter C.fits, .peerDisconnected address)) ∧
    ∀ earlier message later cut missing (chunks : List Bytes),
      messages.filter C.fits = earlier ++ message :: later →
      C.sendAll [message] = cut ++ missing → missing ≠ [] →
      chunks.flatten = C.sendAll earlier ++ cut →
      C.receiveAll address chunks = (earlier, .peerDisconnected address) := by
  have keep : ∀ message ∈ messages.filter C.fits, C.fits message = true :=
    fun message member => (mem_filter.mp member).2
  refine ⟨fun written message large => ?_, fun chunks arrived => ?_,
    fun earlier message later cut missing chunks split frame some_ arrived => ?_⟩
  · have large : maxMessageSize < (C.toVec message).length := by
      simpa [MessageCodec.fits] using large
    simp [MessageCodec.send, large]
  · rw [MessageCodec.sendAll_eq, ← append_nil (List.flatMap _ _)] at arrived
    refine MessageCodec.receiveAll_frames keep arrived fun chunks nothing => ?_
    cases read : readExact chunks 4 with
    | none => simp [MessageCodec.receive, read]
    | some result =>
      obtain ⟨same, length⟩ := readExact_some read
      rw [nothing, eq_comm, append_eq_nil_iff] at same
      simp [same.1] at length
  · rw [split] at keep
    have fits := keep message (by simp)
    have earlier_ : ∀ message ∈ earlier, C.fits message = true :=
      fun message member => keep message (by simp [member])
    rw [MessageCodec.sendAll_eq, filter_eq_self.mpr earlier_] at arrived
    refine MessageCodec.receiveAll_frames earlier_ arrived fun chunks rest => ?_
    refine MessageCodec.receive_cut fits some_ ?_
    rw [rest, ← frame, MessageCodec.sendAll_eq]
    simp [fits]

def rawMessages : MessageCodec Bytes := ⟨fun bytes => bytes, .ok, fun _ => rfl⟩

/-- A message that is too large is refused between two others; a stream is cut inside of a
header. -/
theorem framing_lossless_sample :
    let large := List.replicate (maxMessageSize + 1) 0
    rawMessages.send [] large =
      ([], .error (.messageTooLarge (maxMessageSize + 1) maxMessageSize)) ∧
    rawMessages.receiveAll "peer" [rawMessages.sendAll [[7], large, [8, 9]]] =
      ([[7], [8, 9]], .peerDisconnected "peer") ∧
    rawMessages.receiveAll "peer" [rawMessages.sendAll [[7]] ++ [0, 0], [0]] =
      ([[7]], .peerDisconnected "peer") := by
  intro large
  have refused : rawMessages.fits large = false := by simp [MessageCodec.fits, rawMessages, large]
  have kept : [[7], large, [8, 9]].filter rawMessages.fits = [[7], [8, 9]] := by
    simp only [filter_cons, refused]
    rfl
  obtain ⟨refuses, receives, stops⟩ := framing_lossless rawMessages "peer" [[7], large, [8, 9]]
  refine ⟨?_, ?_, ?_⟩
  · rw [refuses [] large refused]
    simp [rawMessages, large]
  · rw [receives _ (by simp), kept]
  · exact stops [[7]] [8, 9] [] [0, 0, 0] [2, 8, 9] _ kept (by decide +kernel) (by simp) (by simp)

end GlassChain
