import Openmina.P2p.Yamux.State

/-!
# Reassembling yamux frames from chunks

Frames encoded by `into_bytes` and delivered in chunks of any size are parsed back in
order, each chunk through `extend_buffer` and `parse_frames`; between chunks the buffer
holds exactly what has arrived of the next frame. A data payload has to fit the
32-bit length of the header.
-/

namespace Openmina.P2p.Yamux

open Openmina.Codec.Bytes

set_option autoImplicit false

/-- A frame that `try_parse_frame` reads back: its payload is within the session's
limit and its length fits the header. -/
def YamuxFrame.Fits (messageSizeLimit : Limit ℕ) (frame : YamuxFrame) : Prop :=
  messageSizeLimit.exceededBy frame.len = false ∧ frame.len < 2 ^ 32

instance (messageSizeLimit : Limit ℕ) (frame : YamuxFrame) : Decidable (frame.Fits messageSizeLimit) :=
  inferInstanceAs (Decidable (_ ∧ _))

theorem intoBytes_eq_header (frame : YamuxFrame) :
    ∃ f0 f1 s0 s1 s2 s3 w0 w1 w2 w3,
      frame.intoBytes = 0 :: frame.inner.fields.1 :: f0 :: f1 :: s0 :: s1 :: s2 :: s3 ::
        w0 :: w1 :: w2 :: w3 :: frame.inner.fields.2.2 ∧
      YamuxFlags.fromBits (UInt16.ofNat (fromBeBytes [f0, f1])) = some frame.flags ∧
      UInt32.ofNat (fromBeBytes [s0, s1, s2, s3]) = frame.streamId ∧
      UInt32.ofNat (fromBeBytes [w0, w1, w2, w3]) = frame.inner.fields.2.1 := by
  obtain ⟨f0, f1, flagBytes, flagValue⟩ := toBeBytes_two frame.flags.bits.toNat
  obtain ⟨s0, s1, s2, s3, idBytes, idValue⟩ := toBeBytes_four frame.streamId.toNat
  obtain ⟨w0, w1, w2, w3, wordBytes, wordValue⟩ := toBeBytes_four frame.inner.fields.2.1.toNat
  refine ⟨f0, f1, s0, s1, s2, s3, w0, w1, w2, w3, ?_, ?_, ?_, ?_⟩
  · simp [YamuxFrame.intoBytes, flagBytes, idBytes, wordBytes]
  · have flagsSmall : frame.flags.bits.toNat < 256 ^ 2 := frame.flags.bits_lt
    rw [flagValue, Nat.mod_eq_of_lt flagsSmall, UInt16.ofNat_toNat, YamuxFlags.fromBits_bits]
  · have idSmall : frame.streamId.toNat < 256 ^ 4 := frame.streamId.toNat_lt
    rw [idValue, Nat.mod_eq_of_lt idSmall, UInt32.ofNat_toNat]
  · have wordSmall : frame.inner.fields.2.1.toNat < 256 ^ 4 := frame.inner.fields.2.1.toNat_lt
    rw [wordValue, Nat.mod_eq_of_lt wordSmall, UInt32.ofNat_toNat]

theorem parseFrame_short {messageSizeLimit : Limit ℕ} {buf : List UInt8} (short : buf.length < 12) :
    parseFrame messageSizeLimit buf = .incomplete := by
  unfold parseFrame
  split
  · simp only [List.length_cons] at short
    omega
  · rfl

theorem parseFrame_intoBytes {messageSizeLimit : Limit ℕ} {frame : YamuxFrame}
    (fits : frame.Fits messageSizeLimit) (rest : List UInt8) :
    parseFrame messageSizeLimit (frame.intoBytes ++ rest) = .frame frame frame.intoBytes.length := by
  obtain ⟨f0, f1, s0, s1, s2, s3, w0, w1, w2, w3, bytes, flagsIs, idIs, wordIs⟩ :=
    intoBytes_eq_header frame
  rw [bytes]
  obtain ⟨flags, streamId, inner⟩ := frame
  cases inner with
  | data payload =>
    -- the header carries the payload length, which fits in 32 bits
    have lengthIs : (UInt32.ofNat payload.length).toNat = payload.length := by
      have short : payload.length < 2 ^ 32 := fits.2
      rw [UInt32.toNat_ofNat', Nat.mod_eq_of_lt short]
    simp only [YamuxFrameInner.fields] at wordIs ⊢
    have withinLimit : messageSizeLimit.exceededBy payload.length = false := fits.1
    simp [parseFrame, flagsIs, idIs, wordIs, lengthIs, withinLimit]
    omega
  | windowUpdate difference =>
    simp only [YamuxFrameInner.fields] at wordIs ⊢
    simp [parseFrame, flagsIs, idIs, wordIs]
  | ping nonce =>
    simp only [YamuxFrameInner.fields] at wordIs ⊢
    simp [parseFrame, flagsIs, idIs, wordIs]
  | goAway result =>
    simp only [YamuxFrameInner.fields] at wordIs ⊢
    simp [parseFrame, flagsIs, idIs, wordIs, goAwayResult_goAwayCode]

theorem parseFrame_pending {messageSizeLimit : Limit ℕ} {frame : YamuxFrame}
    (fits : frame.Fits messageSizeLimit) {pending : List UInt8}
    (arrived : pending <+: frame.intoBytes) (short : pending.length < frame.intoBytes.length) :
    parseFrame messageSizeLimit pending = .incomplete := by
  by_cases headerShort : pending.length < 12
  · exact parseFrame_short headerShort
  obtain ⟨f0, f1, s0, s1, s2, s3, w0, w1, w2, w3, bytes, flagsIs, idIs, wordIs⟩ :=
    intoBytes_eq_header frame
  rw [List.prefix_iff_eq_take] at arrived
  rw [bytes] at arrived short
  obtain ⟨flags, streamId, inner⟩ := frame
  cases inner with
  | data payload =>
    have lengthIs : (UInt32.ofNat payload.length).toNat = payload.length := by
      have fitsHeader : payload.length < 2 ^ 32 := fits.2
      rw [UInt32.toNat_ofNat', Nat.mod_eq_of_lt fitsHeader]
    have withinLimit : messageSizeLimit.exceededBy payload.length = false := fits.1
    simp only [YamuxFrameInner.fields, List.length_cons] at wordIs short arrived
    obtain ⟨k, pendingLength⟩ : ∃ k, pending.length = k + 12 := ⟨pending.length - 12, by omega⟩
    rw [pendingLength] at short
    rw [arrived, pendingLength]
    simp only [List.take_succ_cons]
    simp [parseFrame, flagsIs, wordIs, lengthIs, withinLimit]
    omega
  | windowUpdate difference =>
    simp [YamuxFrameInner.fields] at short
    omega
  | ping nonce =>
    simp [YamuxFrameInner.fields] at short
    omega
  | goAway result =>
    simp [YamuxFrameInner.fields] at short
    omega

theorem parseFrame_of_pendingPrefix {messageSizeLimit : Limit ℕ} {rest : List YamuxFrame}
    (fits : ∀ frame ∈ rest, frame.Fits messageSizeLimit) {pending : List UInt8}
    (arrived : PendingPrefix YamuxFrame.intoBytes pending rest) :
    parseFrame messageSizeLimit pending = .incomplete := by
  cases rest with
  | nil =>
    have empty : pending = [] := arrived
    subst empty
    exact parseFrame_short (by simp)
  | cons frame rest => exact parseFrame_pending (fits frame (by simp)) arrived.1 arrived.2

namespace P2pNetworkYamuxState

theorem tryParseFrame_of_frame {self : P2pNetworkYamuxState} {offset : ℕ} {frame : YamuxFrame}
    {consumed : ℕ}
    (parsed : parseFrame self.messageSizeLimit (self.buffer.drop offset) = .frame frame consumed) :
    self.tryParseFrame offset = (some consumed, self.pushIncoming frame) := by
  simp [tryParseFrame, parsed]

theorem tryParseFrame_of_incomplete {self : P2pNetworkYamuxState} {offset : ℕ}
    (parsed : parseFrame self.messageSizeLimit (self.buffer.drop offset) = .incomplete) :
    self.tryParseFrame offset = (none, self) := by
  simp [tryParseFrame, parsed]

theorem parseFramesFrom_of_some {self next : P2pNetworkYamuxState} {offset consumed : ℕ}
    (parsed : self.tryParseFrame offset = (some consumed, next)) :
    self.parseFramesFrom offset = next.parseFramesFrom (offset + consumed) := by
  rw [parseFramesFrom]
  split
  · rename_i consumed' next' found
    rw [parsed] at found
    cases found
    rfl
  · rename_i next' found
    rw [parsed] at found
    cases found

theorem parseFramesFrom_of_none {self next : P2pNetworkYamuxState} {offset : ℕ}
    (parsed : self.tryParseFrame offset = (none, next)) :
    self.parseFramesFrom offset = (next, offset) := by
  rw [parseFramesFrom]
  split
  · rename_i consumed' next' found
    rw [parsed] at found
    cases found
  · rename_i next' found
    rw [parsed] at found
    cases found
    rfl

theorem parseFramesFrom_encoded {self : P2pNetworkYamuxState} {offset : ℕ} {done : List YamuxFrame}
    {pending : List UInt8} (fits : ∀ frame ∈ done, frame.Fits self.messageSizeLimit)
    (unread : self.buffer.drop offset = (done.map YamuxFrame.intoBytes).flatten ++ pending)
    (incomplete : parseFrame self.messageSizeLimit pending = .incomplete) :
    self.parseFramesFrom offset =
      ({ self with incoming := self.incoming ++ done },
        offset + (done.map YamuxFrame.intoBytes).flatten.length) := by
  induction done generalizing self offset with
  | nil =>
    rw [List.map_nil, List.flatten_nil, List.nil_append] at unread
    rw [parseFramesFrom_of_none (tryParseFrame_of_incomplete (unread ▸ incomplete))]
    simp
  | cons frame done ih =>
    have first : parseFrame self.messageSizeLimit (self.buffer.drop offset) =
        .frame frame frame.intoBytes.length := by
      rw [unread, List.map_cons, List.flatten_cons, List.append_assoc]
      exact parseFrame_intoBytes (fits frame (by simp)) _
    have later : (self.pushIncoming frame).buffer.drop (offset + frame.intoBytes.length) =
        (done.map YamuxFrame.intoBytes).flatten ++ pending := by
      show self.buffer.drop (offset + frame.intoBytes.length) = _
      rw [← List.drop_drop, unread, List.map_cons, List.flatten_cons, List.append_assoc,
        List.drop_left]
    have laterFit : ∀ next ∈ done, next.Fits (self.pushIncoming frame).messageSizeLimit :=
      fun next member => fits next (by simp [member])
    rw [parseFramesFrom_of_some (tryParseFrame_of_frame first), ih laterFit later incomplete]
    simp [pushIncoming, Nat.add_assoc]

theorem parseFrames_encoded {self : P2pNetworkYamuxState} {done : List YamuxFrame}
    {pending : List UInt8} (fits : ∀ frame ∈ done, frame.Fits self.messageSizeLimit)
    (buffered : self.buffer = (done.map YamuxFrame.intoBytes).flatten ++ pending)
    (incomplete : parseFrame self.messageSizeLimit pending = .incomplete) :
    self.parseFrames = { self with incoming := self.incoming ++ done, buffer := pending } := by
  have unread : self.buffer.drop 0 = (done.map YamuxFrame.intoBytes).flatten ++ pending := buffered
  simp only [parseFrames, parseFramesFrom_encoded fits unread incomplete, shiftAndCompactBuffer,
    buffered, Nat.zero_add, List.drop_left]

end P2pNetworkYamuxState

theorem length_intoBytes_pos (frame : YamuxFrame) : 0 < frame.intoBytes.length := by
  obtain ⟨f0, f1, s0, s1, s2, s3, w0, w1, w2, w3, bytes, -⟩ := intoBytes_eq_header frame
  rw [bytes]
  simp

namespace P2pNetworkYamuxState

def receive (self : P2pNetworkYamuxState) (data : List UInt8) : P2pNetworkYamuxState :=
  (self.extendBuffer data).parseFrames

/-- After `received`, a prefix of the encoding of `frames`, has been fed from `start`:
the frames that arrived whole are queued, and the buffer holds what arrived of the
next one. -/
structure Reassembling (start : P2pNetworkYamuxState) (frames : List YamuxFrame)
    (received : List UInt8) (current : P2pNetworkYamuxState) : Prop where
  split : ∃ done rest, frames = done ++ rest ∧ current.incoming = start.incoming ++ done ∧
    received = (done.map YamuxFrame.intoBytes).flatten ++ current.buffer ∧
    PendingPrefix YamuxFrame.intoBytes current.buffer rest
  messageSizeLimit_eq : current.messageSizeLimit = start.messageSizeLimit
  terminated_eq : current.terminated = start.terminated

theorem Reassembling.start {start : P2pNetworkYamuxState} (frames : List YamuxFrame)
    (empty : start.buffer = []) : Reassembling start frames [] start := by
  refine ⟨⟨[], frames, rfl, by simp, by simp [empty], ?_⟩, rfl, rfl⟩
  rw [empty]
  cases frames with
  | nil => rfl
  | cons frame frames => exact ⟨List.nil_prefix, length_intoBytes_pos frame⟩

theorem Reassembling.step {start self : P2pNetworkYamuxState} {frames : List YamuxFrame}
    {received chunk : List UInt8} (fits : ∀ frame ∈ frames, frame.Fits start.messageSizeLimit)
    (state : Reassembling start frames received self)
    (arrived : received ++ chunk <+: (frames.map YamuxFrame.intoBytes).flatten) :
    Reassembling start frames (received ++ chunk) (self.receive chunk) := by
  obtain ⟨done, rest, rfl, queued, receivedIs, pendingIs⟩ := state.split
  have more : self.buffer ++ chunk <+: (rest.map YamuxFrame.intoBytes).flatten := by
    rw [receivedIs, List.map_append, List.flatten_append, List.append_assoc] at arrived
    exact (List.prefix_append_right_inj _).mp arrived
  -- the buffer and the chunk split into whole frames and the start of the next one
  obtain ⟨done', rest', pending, rfl, buffered, pendingIs'⟩ :=
    exists_split_of_prefix YamuxFrame.intoBytes more
  have fitsLimit : ∀ frame ∈ done ++ (done' ++ rest'), frame.Fits self.messageSizeLimit := by
    rw [state.messageSizeLimit_eq]
    exact fits
  have parsed : (self.extendBuffer chunk).parseFrames =
      { self.extendBuffer chunk with incoming := self.incoming ++ done', buffer := pending } :=
    parseFrames_encoded (fun frame member => fitsLimit frame (by simp [member])) buffered
      (parseFrame_of_pendingPrefix (fun frame member => fitsLimit frame (by simp [member]))
        pendingIs')
  rw [P2pNetworkYamuxState.receive, parsed]
  refine ⟨⟨done ++ done', rest', by simp, ?_, ?_, pendingIs'⟩, ?_, ?_⟩
  · simp [queued]
  · simp [receivedIs, ← buffered]
  · simp [extendBuffer, state.messageSizeLimit_eq]
  · simp [extendBuffer, state.terminated_eq]

/-- Chunk after chunk, as long as what has arrived is a prefix of the encoded frames. -/
theorem Reassembling.receiveAll {start : P2pNetworkYamuxState} {frames : List YamuxFrame}
    (fits : ∀ frame ∈ frames, frame.Fits start.messageSizeLimit) (chunks : List (List UInt8)) :
    ∀ {received : List UInt8} {self : P2pNetworkYamuxState},
      Reassembling start frames received self →
      received ++ chunks.flatten <+: (frames.map YamuxFrame.intoBytes).flatten →
      Reassembling start frames (received ++ chunks.flatten) (chunks.foldl receive self) := by
  induction chunks with
  | nil =>
    intro received self state _
    simpa using state
  | cons chunk chunks ih =>
    intro received self state arrived
    rw [List.flatten_cons, ← List.append_assoc] at arrived ⊢
    have first : received ++ chunk <+: (frames.map YamuxFrame.intoBytes).flatten :=
      (List.prefix_append _ _).trans arrived
    exact ih (state.step fits first) arrived

theorem Reassembling.complete {start self : P2pNetworkYamuxState} {frames : List YamuxFrame}
    (state : Reassembling start frames (frames.map YamuxFrame.intoBytes).flatten self) :
    self.incoming = start.incoming ++ frames ∧ self.buffer = [] := by
  obtain ⟨done, rest, rfl, queued, receivedIs, pendingIs⟩ := state.split
  rw [List.map_append, List.flatten_append, List.append_cancel_left_eq] at receivedIs
  cases rest with
  | nil => exact ⟨by simpa using queued, pendingIs⟩
  | cons frame rest =>
    -- the buffer would hold the whole next frame, which it cannot
    have whole := congrArg List.length receivedIs
    have lacking := pendingIs.length_lt
    simp only [List.map_cons, List.flatten_cons, List.length_append] at whole
    omega

end P2pNetworkYamuxState

open P2pNetworkYamuxState in
/-- Frames whose payloads fit the limit and the 32-bit length of the header, sent in
chunks of any sizes through `extend_buffer` and `parse_frames`: the incoming queue gets
the frames in order and the session keeps running with an empty buffer; after each
chunk, the queue holds the frames that have arrived whole and the buffer what has
arrived of the next one. -/
theorem parse_frames_reassembles_chunks {start : P2pNetworkYamuxState} {frames : List YamuxFrame}
    {chunks : List (List UInt8)} (fits : ∀ frame ∈ frames, frame.Fits start.messageSizeLimit)
    (empty : start.buffer = []) (running : start.terminated = none)
    (sent : chunks.flatten = (frames.map YamuxFrame.intoBytes).flatten) :
    ((chunks.foldl receive start).incoming = start.incoming ++ frames ∧
      (chunks.foldl receive start).terminated = none ∧ (chunks.foldl receive start).buffer = []) ∧
    ∀ k, ∃ done rest, frames = done ++ rest ∧
      ((chunks.take k).foldl receive start).incoming = start.incoming ++ done ∧
      ((chunks.take k).foldl receive start).terminated = none ∧
      (chunks.take k).flatten =
        (done.map YamuxFrame.intoBytes).flatten ++ ((chunks.take k).foldl receive start).buffer ∧
      PendingPrefix YamuxFrame.intoBytes ((chunks.take k).foldl receive start).buffer rest := by
  have run : ∀ k, Reassembling start frames (chunks.take k).flatten ((chunks.take k).foldl receive start) := by
    intro k
    have arrived : (chunks.take k).flatten <+: (frames.map YamuxFrame.intoBytes).flatten := by
      rw [← sent]
      conv_rhs => rw [← List.take_append_drop k chunks]
      rw [List.flatten_append]
      exact List.prefix_append _ _
    simpa using Reassembling.receiveAll fits (chunks.take k) (Reassembling.start frames empty)
      (by simpa using arrived)
  refine ⟨?_, fun k => ?_⟩
  · have whole := run chunks.length
    rw [List.take_length, sent] at whole
    exact ⟨(whole.complete).1, whole.terminated_eq.trans running, (whole.complete).2⟩
  · obtain ⟨done, rest, split, queued, receivedIs, pendingIs⟩ := (run k).split
    exact ⟨done, rest, split, queued, (run k).terminated_eq.trans running, receivedIs, pendingIs⟩

def openedSession : P2pNetworkYamuxState :=
  ⟨.some 0x10000000, .unlimited, [], [], fun _ => none, none⟩

def sampleFrames : List YamuxFrame :=
  [⟨⟨true, false, false, false⟩, 1, .data [7, 8, 9]⟩, ⟨YamuxFlags.empty, 1, .windowUpdate 5⟩]

def sampleChunks : List (List UInt8) :=
  [[0, 0, 0, 1, 0], [0, 0, 1, 0, 0, 0, 3, 7, 8], [9, 0, 1, 0, 0], [0, 0, 0, 1, 0, 0, 0, 5]]

open P2pNetworkYamuxState in
theorem parse_frames_reassembles_chunks_split_header :
    ((sampleChunks.foldl receive openedSession).incoming = openedSession.incoming ++ sampleFrames ∧
      (sampleChunks.foldl receive openedSession).terminated = none ∧
      (sampleChunks.foldl receive openedSession).buffer = []) ∧
    ∀ k, ∃ done rest, sampleFrames = done ++ rest ∧
      ((sampleChunks.take k).foldl receive openedSession).incoming = openedSession.incoming ++ done ∧
      ((sampleChunks.take k).foldl receive openedSession).terminated = none ∧
      (sampleChunks.take k).flatten = (done.map YamuxFrame.intoBytes).flatten ++
        ((sampleChunks.take k).foldl receive openedSession).buffer ∧
      PendingPrefix YamuxFrame.intoBytes ((sampleChunks.take k).foldl receive openedSession).buffer
        rest :=
  parse_frames_reassembles_chunks (by decide) rfl rfl (by decide)

namespace P2pNetworkYamuxState

theorem tryParseFrame_incoming (self : P2pNetworkYamuxState) (offset : ℕ) :
    ∃ later, (self.tryParseFrame offset).2.incoming = self.incoming ++ later := by
  unfold tryParseFrame
  split
  · exact ⟨[_], rfl⟩
  · exact ⟨[], by simp⟩
  · exact ⟨[], by simp⟩

theorem parseFramesFrom_incoming (self : P2pNetworkYamuxState) (offset : ℕ) :
    ∃ later, (self.parseFramesFrom offset).1.incoming = self.incoming ++ later := by
  fun_induction parseFramesFrom self offset with
  | case1 self offset consumed next parsed ih =>
    obtain ⟨first, firstIs⟩ := tryParseFrame_incoming self offset
    obtain ⟨later, laterIs⟩ := ih
    rw [parsed] at firstIs
    exact ⟨first ++ later, by rw [laterIs, firstIs, List.append_assoc]⟩
  | case2 self offset next parsed =>
    obtain ⟨first, firstIs⟩ := tryParseFrame_incoming self offset
    rw [parsed] at firstIs
    exact ⟨first, firstIs⟩

end P2pNetworkYamuxState

theorem parseFrame_oversized {messageSizeLimit : Limit ℕ} (flags : YamuxFlags) (streamId : StreamId)
    {payload : List UInt8} (oversized : payload.length = 2 ^ 32) (rest : List UInt8) :
    parseFrame messageSizeLimit ((YamuxFrame.mk flags streamId (.data payload)).intoBytes ++ rest) =
      .frame ⟨flags, streamId, .data []⟩ 12 := by
  obtain ⟨f0, f1, s0, s1, s2, s3, w0, w1, w2, w3, bytes, flagsIs, idIs, wordIs⟩ :=
    intoBytes_eq_header ⟨flags, streamId, .data payload⟩
  have wrapped : UInt32.ofNat (2 ^ 32) = 0 := by decide
  have withinLimit : messageSizeLimit.exceededBy 0 = false := by
    cases messageSizeLimit <;> simp [Limit.exceededBy]
  rw [bytes]
  simp only [YamuxFrameInner.fields, oversized, wrapped, List.cons_append] at wordIs ⊢
  simp only [parseFrame, flagsIs, idIs, wordIs, ne_eq, not_true_eq_false, if_false, if_true,
    UInt32.toNat_zero, withinLimit, Bool.false_eq_true, Nat.zero_le, List.take_zero]

namespace P2pNetworkYamuxState

theorem receive_oversized {self : P2pNetworkYamuxState} (empty : self.buffer = [])
    (flags : YamuxFlags) (streamId : StreamId) {payload : List UInt8}
    (oversized : payload.length = 2 ^ 32) :
    ∃ later, (self.receive (YamuxFrame.mk flags streamId (.data payload)).intoBytes).incoming =
      self.incoming ++ ⟨flags, streamId, .data []⟩ :: later := by
  have first : (self.extendBuffer (YamuxFrame.mk flags streamId (.data payload)).intoBytes).tryParseFrame 0 =
      (some 12, (self.extendBuffer (YamuxFrame.mk flags streamId (.data payload)).intoBytes).pushIncoming
        ⟨flags, streamId, .data []⟩) := by
    apply tryParseFrame_of_frame
    have unread : (self.extendBuffer (YamuxFrame.mk flags streamId (.data payload)).intoBytes).buffer.drop 0 =
        (YamuxFrame.mk flags streamId (.data payload)).intoBytes ++ [] := by
      simp only [extendBuffer, empty, List.nil_append, List.drop_zero, List.append_nil]
    rw [unread]
    exact parseFrame_oversized flags streamId oversized []
  obtain ⟨later, laterIs⟩ := parseFramesFrom_incoming
    ((self.extendBuffer (YamuxFrame.mk flags streamId (.data payload)).intoBytes).pushIncoming
      ⟨flags, streamId, .data []⟩) (0 + 12)
  refine ⟨later, ?_⟩
  rw [P2pNetworkYamuxState.receive, parseFrames]
  simp only [parseFramesFrom_of_some first, shiftAndCompactBuffer]
  rw [laterIs]
  simp [pushIncoming, extendBuffer]

end P2pNetworkYamuxState

open P2pNetworkYamuxState in
theorem receive_oversized_ne {self : P2pNetworkYamuxState}
    (unlimited : self.messageSizeLimit = .unlimited) (empty : self.buffer = []) (flags : YamuxFlags)
    (streamId : StreamId) {payload : List UInt8} (oversized : payload.length = 2 ^ 32) :
    self.messageSizeLimit.exceededBy (YamuxFrame.mk flags streamId (.data payload)).len = false ∧
      (self.receive (YamuxFrame.mk flags streamId (.data payload)).intoBytes).incoming ≠
        self.incoming ++ [⟨flags, streamId, .data payload⟩] := by
  refine ⟨by rw [unlimited]; rfl, fun received => ?_⟩
  obtain ⟨later, laterIs⟩ := receive_oversized empty flags streamId oversized
  rw [laterIs, List.append_cancel_left_eq, List.cons.injEq, YamuxFrame.mk.injEq,
    YamuxFrameInner.data.injEq] at received
  have lengths := congrArg List.length received.1.2.2
  rw [List.length_nil, oversized] at lengths
  omega

def defaultSession : P2pNetworkYamuxState :=
  ⟨.unlimited, .unlimited, [], [], fun _ => none, none⟩

theorem oversized_frame_misparsed :
    defaultSession.messageSizeLimit.exceededBy
        (YamuxFrame.mk YamuxFlags.empty 1 (.data (List.replicate (2 ^ 32) 0))).len = false ∧
      (defaultSession.receive
          (YamuxFrame.mk YamuxFlags.empty 1 (.data (List.replicate (2 ^ 32) 0))).intoBytes).incoming ≠
        defaultSession.incoming ++ [⟨YamuxFlags.empty, 1, .data (List.replicate (2 ^ 32) 0)⟩] :=
  receive_oversized_ne rfl rfl YamuxFlags.empty 1 (List.length_replicate ..)

end Openmina.P2p.Yamux
