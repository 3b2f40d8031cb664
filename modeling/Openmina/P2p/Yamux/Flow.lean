import Openmina.P2p.Yamux.Reducer

/-!
# Flow control of an outgoing stream

The branches of the yamux reducer that send data against the peer's window, one spec
lemma each, and a run that sends a frame too long for the window, then a second one,
then receives a window update.
-/

namespace Openmina.P2p.Yamux

set_option autoImplicit false

theorem lenAsU32_data (flags : YamuxFlags) (streamId : StreamId) {data : List UInt8}
    (fitsHeader : data.length < 2 ^ 32) :
    (YamuxFrame.mk flags streamId (.data data)).lenAsU32 = UInt32.ofNat data.length := by
  show (if data.length < 2 ^ 32 then UInt32.ofNat data.length else 4294967295) = _
  rw [if_pos fitsHeader]

theorem ofNat_le_iff {n : ℕ} {window : UInt32} (fitsHeader : n < 2 ^ 32) :
    UInt32.ofNat n ≤ window ↔ n ≤ window.toNat := by
  rw [UInt32.le_iff_toNat_le, UInt32.toNat_ofNat', Nat.mod_eq_of_lt fitsHeader]

theorem lenAsU32_le_of_fits {frame : YamuxFrame} {window : UInt32} (short : frame.len < 2 ^ 32)
    (fits : frame.len ≤ window.toNat) :
    frame.lenAsU32 ≤ window ∧ (window - frame.lenAsU32).toNat = window.toNat - frame.len := by
  have lenIs : frame.lenAsU32 = UInt32.ofNat frame.len := by
    unfold YamuxFrame.lenAsU32
    rw [if_pos short]
  have below : frame.lenAsU32 ≤ window := by
    rw [lenIs, ofNat_le_iff short]
    exact fits
  refine ⟨below, ?_⟩
  rw [UInt32.toNat_sub_of_le _ _ below, lenIs, UInt32.toNat_ofNat', Nat.mod_eq_of_lt short]

namespace YamuxStreamState

@[simp] theorem sentWith_windowTheirs (stream : YamuxStreamState) (flags : YamuxFlags) :
    (stream.sentWith flags).windowTheirs = stream.windowTheirs := by
  unfold sentWith
  split <;> rfl

@[simp] theorem sentWith_pending (stream : YamuxStreamState) (flags : YamuxFlags) :
    (stream.sentWith flags).pending = stream.pending := by
  unfold sentWith
  split <;> rfl

theorem sendData_whole {stream : YamuxStreamState} (pendingOutgoingLimit : Limit ℕ)
    {frame : YamuxFrame} (fits : frame.lenAsU32 ≤ stream.windowTheirs) :
    stream.sendData pendingOutgoingLimit frame =
      ({ stream with windowTheirs := stream.windowTheirs - frame.lenAsU32 }, some frame) := by
  simp [sendData, fits]

theorem sendData_split {stream : YamuxStreamState} (flags : YamuxFlags) (streamId : StreamId)
    {data : List UInt8} (fitsHeader : data.length < 2 ^ 32)
    (short : stream.windowTheirs.toNat < data.length) :
    stream.sendData .unlimited ⟨flags, streamId, .data data⟩ =
      ({ stream with
          pending := ⟨{ flags with syn := false, ack := false }, streamId,
            .data (data.drop stream.windowTheirs.toNat)⟩ :: stream.pending,
          windowTheirs := 0 },
        some ⟨{ flags with fin := false }, streamId, .data (data.take stream.windowTheirs.toNat)⟩) := by
  have exceeds : ¬ (YamuxFrame.mk flags streamId (.data data)).lenAsU32 ≤ stream.windowTheirs := by
    rw [lenAsU32_data flags streamId fitsHeader, ofNat_le_iff fitsHeader]
    omega
  have splits : ¬ data.length ≤ stream.windowTheirs.toNat := by omega
  simp [sendData, exceeds, YamuxFrame.splitAt, splits, Limit.exceededBy]

end YamuxStreamState

theorem drainPending_of_fits {frames : List YamuxFrame} (each : ∀ frame ∈ frames, frame.len < 2 ^ 32) :
    ∀ {window : UInt32}, (frames.map YamuxFrame.len).sum ≤ window.toNat →
      drainPending window frames = (frames, []) := by
  induction frames with
  | nil => intro window _; rfl
  | cons frame frames ih =>
    intro window fits
    simp only [List.map_cons, List.sum_cons] at fits
    obtain ⟨first, left⟩ :=
      lenAsU32_le_of_fits (each frame (by simp)) (show frame.len ≤ window.toNat by omega)
    have rest : (frames.map YamuxFrame.len).sum ≤ (window - frame.lenAsU32).toNat := by
      rw [left]
      omega
    simp [drainPending, first, ih (fun frame member => each frame (by simp [member])) rest]

namespace P2pNetworkYamuxState

theorem outgoingFrame_whole {self : P2pNetworkYamuxState} {stream : YamuxStreamState}
    {frame : YamuxFrame} {data : List UInt8} (found : self.streams frame.streamId = some stream)
    (isData : frame.inner = .data data) (fits : frame.lenAsU32 ≤ stream.windowTheirs) :
    self.outgoingFrame frame =
      (self.setStream frame.streamId
        ({ stream with windowTheirs := stream.windowTheirs - frame.lenAsU32 }.sentWith frame.flags),
        [.outgoingData frame]) := by
  unfold outgoingFrame
  rw [found]
  simp only [isData, YamuxStreamState.sendData_whole _ fits]

theorem outgoingFrame_split {self : P2pNetworkYamuxState} {stream : YamuxStreamState}
    (flags : YamuxFlags) {streamId : StreamId} {data : List UInt8}
    (found : self.streams streamId = some stream) (unlimited : self.pendingOutgoingLimit = .unlimited)
    (fitsHeader : data.length < 2 ^ 32) (short : stream.windowTheirs.toNat < data.length) :
    self.outgoingFrame ⟨flags, streamId, .data data⟩ =
      (self.setStream streamId
        ({ stream with
            pending := ⟨{ flags with syn := false, ack := false }, streamId,
              .data (data.drop stream.windowTheirs.toNat)⟩ :: stream.pending,
            windowTheirs := 0 }.sentWith { flags with fin := false }),
        [.outgoingData ⟨{ flags with fin := false }, streamId,
          .data (data.take stream.windowTheirs.toNat)⟩]) := by
  unfold outgoingFrame
  simp only [found, unlimited, YamuxStreamState.sendData_split flags streamId fitsHeader short]

theorem outgoingFrame_split_closes {self : P2pNetworkYamuxState} {stream : YamuxStreamState}
    (flags : YamuxFlags) {streamId : StreamId} {data : List UInt8}
    (found : self.streams streamId = some stream) (unlimited : self.pendingOutgoingLimit = .unlimited)
    (fitsHeader : data.length < 2 ^ 32) (short : stream.windowTheirs.toNat < data.length) :
    ∃ stream' : YamuxStreamState,
      self.outgoingFrame ⟨flags, streamId, .data data⟩ =
        (self.setStream streamId stream',
          [.outgoingData ⟨{ flags with fin := false }, streamId, .data (data.take stream.windowTheirs.toNat)⟩]) ∧
      stream'.windowTheirs = 0 ∧
      stream'.pending = ⟨{ flags with syn := false, ack := false }, streamId,
        .data (data.drop stream.windowTheirs.toNat)⟩ :: stream.pending :=
  ⟨_, outgoingFrame_split flags found unlimited fitsHeader short, by simp, by simp⟩

theorem incomingFrame_windowUpdate {self : P2pNetworkYamuxState} {streamId : StreamId}
    {difference : UInt32} {rest : List YamuxFrame} {stream : YamuxStreamState}
    (incomingStreamsExceeded : Bool)
    (queued : self.incoming = ⟨YamuxFlags.empty, streamId, .windowUpdate difference⟩ :: rest)
    (found : self.streams streamId = some stream) (positive : 0 < difference) :
    self.incomingFrame true incomingStreamsExceeded =
      ({ self with incoming := rest }.setStream streamId
          { stream with
              windowTheirs := saturatingAdd stream.windowTheirs difference,
              pending := (drainPending (saturatingAdd stream.windowTheirs difference) stream.pending).2 },
        (drainPending (saturatingAdd stream.windowTheirs difference) stream.pending).1.map
          fun frame => .yamux (.outgoingFrame frame)) := by
  unfold incomingFrame receiveFrame
  simp [queued, found, positive, YamuxFlags.empty]

end P2pNetworkYamuxState

namespace P2pNetworkYamuxState

theorem reduce_outgoingFrame {self : P2pNetworkYamuxState} (running : self.terminated = none)
    (peerKnown incomingStreamsExceeded : Bool) (frame : YamuxFrame) :
    self.reduce peerKnown incomingStreamsExceeded (.outgoingFrame frame) = self.outgoingFrame frame := by
  simp [reduce, running]

theorem reduce_incomingFrame {self : P2pNetworkYamuxState} (running : self.terminated = none)
    (peerKnown incomingStreamsExceeded : Bool) :
    self.reduce peerKnown incomingStreamsExceeded .incomingFrame =
      self.incomingFrame peerKnown incomingStreamsExceeded := by
  simp [reduce, running]

end P2pNetworkYamuxState

theorem run_cons (peerKnown incomingStreamsExceeded : Bool) (fuel : ℕ) (self : P2pNetworkYamuxState)
    (action : P2pNetworkYamuxAction) (queue : List P2pNetworkYamuxAction) :
    (run peerKnown incomingStreamsExceeded (fuel + 1) self (action :: queue)).2 =
      (self.reduce peerKnown incomingStreamsExceeded action).2.filter YamuxOutput.emitted ++
        (run peerKnown incomingStreamsExceeded fuel (self.reduce peerKnown incomingStreamsExceeded action).1
          (queue ++ (self.reduce peerKnown incomingStreamsExceeded action).2.filterMap
            YamuxOutput.action?)).2 :=
  rfl

theorem run_outgoingFrame_sent {peerKnown incomingStreamsExceeded : Bool} {fuel : ℕ}
    {self self' : P2pNetworkYamuxState} {frame sent : YamuxFrame} (queue : List P2pNetworkYamuxAction)
    (running : self.terminated = none) (sends : self.outgoingFrame frame = (self', [.outgoingData sent])) :
    (run peerKnown incomingStreamsExceeded (fuel + 1) self (.outgoingFrame frame :: queue)).2 =
      .outgoingData sent :: (run peerKnown incomingStreamsExceeded fuel self' queue).2 := by
  rw [run_cons, P2pNetworkYamuxState.reduce_outgoingFrame running, sends]
  simp only [List.filter_cons, YamuxOutput.emitted_outgoingData, if_true, List.filter_nil,
    List.filterMap_cons, YamuxOutput.action?_outgoingData, List.filterMap_nil, List.append_nil,
    List.singleton_append]

/-- Data frames of one stream that together fit its window are all sent, in order, by a
run with enough fuel: each one is sent whole and leaves the rest of the window to the next. -/
theorem run_outgoingFrames_of_fits (peerKnown incomingStreamsExceeded : Bool) {streamId : StreamId} :
    ∀ {frames : List YamuxFrame} {self : P2pNetworkYamuxState} {stream : YamuxStreamState} {fuel : ℕ},
      self.terminated = none → self.streams streamId = some stream →
      (∀ frame ∈ frames, frame.streamId = streamId ∧ (∃ data, frame.inner = .data data) ∧
        frame.len < 2 ^ 32) →
      (frames.map YamuxFrame.len).sum ≤ stream.windowTheirs.toNat → frames.length ≤ fuel →
      (run peerKnown incomingStreamsExceeded fuel self (frames.map .outgoingFrame)).2 =
        frames.map .outgoingData := by
  intro frames
  induction frames with
  | nil =>
    intro self stream fuel _ _ _ _ _
    cases fuel <;> rfl
  | cons frame frames ih =>
    intro self stream fuel running found each fits enough
    obtain ⟨fuel, rfl⟩ : ∃ rest, fuel = rest + 1 := ⟨fuel - 1, by simp at enough; omega⟩
    obtain ⟨rfl, ⟨data, isData⟩, short⟩ := each frame (by simp)
    simp only [List.map_cons, List.sum_cons] at fits
    obtain ⟨below, left⟩ :=
      lenAsU32_le_of_fits short (show frame.len ≤ stream.windowTheirs.toNat by omega)
    rw [List.map_cons, List.map_cons,
      run_outgoingFrame_sent _ running (P2pNetworkYamuxState.outgoingFrame_whole found isData below)]
    congr 1
    refine ih (by simpa using running) (P2pNetworkYamuxState.setStream_streams_self _ _ _)
      (fun frame member => each frame (by simp [member])) ?_ (by simpa using enough)
    simp only [YamuxStreamState.sentWith_windowTheirs, left]
    omega

theorem saturatingAdd_zero_left (difference : UInt32) : saturatingAdd 0 difference = difference := by
  simp [saturatingAdd, difference.toNat_lt]

open P2pNetworkYamuxState in
theorem run_sends_second_before_rest {self : P2pNetworkYamuxState} {stream : YamuxStreamState}
    {streamId : StreamId} {first second : List UInt8} {difference : UInt32}
    {rest : List YamuxFrame} (incomingStreamsExceeded : Bool)
    (running : self.terminated = none) (unlimited : self.pendingOutgoingLimit = .unlimited)
    (found : self.streams streamId = some stream) (idle : stream.pending = [])
    (update : self.incoming = ⟨YamuxFlags.empty, streamId, .windowUpdate difference⟩ :: rest)
    (longer : stream.windowTheirs.toNat < first.length) (started : 0 < second.length)
    (firstFits : first.length < 2 ^ 32)
    (covers : second.length + (first.length - stream.windowTheirs.toNat) ≤ difference.toNat) :
    sentPayloads (run true incomingStreamsExceeded 5 self
      [.outgoingFrame ⟨YamuxFlags.empty, streamId, .data first⟩,
       .outgoingFrame ⟨YamuxFlags.empty, streamId, .data second⟩, .incomingFrame]).2 =
      [first.take stream.windowTheirs.toNat, [], second, first.drop stream.windowTheirs.toNat] := by
  have secondFits : second.length < 2 ^ 32 := by
    have := difference.toNat_lt
    omega
  -- the first frame: what the window takes is sent, the rest waits
  obtain ⟨stream₁, step₁, window₁, pending₁⟩ :=
    outgoingFrame_split_closes YamuxFlags.empty found unlimited firstFits longer
  rw [idle] at pending₁
  have closed : stream₁.windowTheirs.toNat < second.length := by simpa [window₁] using started
  obtain ⟨stream₂, step₂, window₂, pending₂⟩ :=
    outgoingFrame_split_closes YamuxFlags.empty (setStream_streams_self self streamId stream₁)
      (by simpa using unlimited) secondFits closed
  rw [window₁] at step₂ pending₂
  -- the window update releases both waiting frames, the second one first
  have positive : 0 < difference := by
    rw [UInt32.lt_iff_toNat_lt]
    simp only [UInt32.toNat_zero]
    omega
  have released : drainPending difference stream₂.pending = (stream₂.pending, []) := by
    apply drainPending_of_fits
    · simp [pending₂, pending₁, YamuxFrame.len]
      omega
    · simp [pending₂, pending₁, YamuxFrame.len]
      omega
  have step₃ := incomingFrame_windowUpdate incomingStreamsExceeded (by simpa using update)
    (setStream_streams_self (self.setStream streamId stream₁) streamId stream₂) positive
  rw [window₂, saturatingAdd_zero_left, released] at step₃
  have sent₃ : (run true incomingStreamsExceeded 3
      ((self.setStream streamId stream₁).setStream streamId stream₂) [.incomingFrame]).2 =
      stream₂.pending.map .outgoingData := by
    rw [run_cons, reduce_incomingFrame (by simpa using running), step₃]
    simp only [List.filter_map, List.filterMap_map, Function.comp_def, YamuxOutput.emitted_yamux,
      YamuxOutput.action?_yamux, List.filter_false, List.map_nil, List.nil_append]
    rw [← Function.comp_def, List.filterMap_eq_map]
    refine run_outgoingFrames_of_fits true incomingStreamsExceeded ?_
      (setStream_streams_self _ _ _) ?_ ?_ ?_
    · simpa using running
    · rw [pending₂, pending₁]
      simp [YamuxFrame.len]
      omega
    · simp [pending₂, pending₁, YamuxFrame.len]
      omega
    · simp [pending₂, pending₁]
  rw [run_outgoingFrame_sent _ running step₁, run_outgoingFrame_sent _ (by simpa using running) step₂,
    sent₃, pending₂, pending₁]
  simp [sentPayloads]

/-- The same run: unless the rest of the first frame commutes with the second, what the
session sends is not a prefix of what was submitted. -/
theorem window_update_breaks_prefix {self : P2pNetworkYamuxState} {stream : YamuxStreamState}
    {streamId : StreamId} {first second : List UInt8} {difference : UInt32}
    {rest : List YamuxFrame} (incomingStreamsExceeded : Bool)
    (running : self.terminated = none) (unlimited : self.pendingOutgoingLimit = .unlimited)
    (found : self.streams streamId = some stream) (idle : stream.pending = [])
    (update : self.incoming = ⟨YamuxFlags.empty, streamId, .windowUpdate difference⟩ :: rest)
    (longer : stream.windowTheirs.toNat < first.length) (started : 0 < second.length)
    (firstFits : first.length < 2 ^ 32)
    (covers : second.length + (first.length - stream.windowTheirs.toNat) ≤ difference.toNat)
    (reordered : second ++ first.drop stream.windowTheirs.toNat ≠
      first.drop stream.windowTheirs.toNat ++ second) :
    ¬ (sentPayloads (run true incomingStreamsExceeded 5 self
      [.outgoingFrame ⟨YamuxFlags.empty, streamId, .data first⟩,
       .outgoingFrame ⟨YamuxFlags.empty, streamId, .data second⟩, .incomingFrame]).2).flatten <+:
      first ++ second := by
  rw [run_sends_second_before_rest incomingStreamsExceeded running unlimited found idle update longer
    started firstFits covers]
  intro isPrefix
  -- every byte was sent, so the prefix is the whole submission
  have whole := isPrefix.eq_of_length (by simp; omega)
  simp only [List.flatten_cons, List.flatten_nil, List.append_nil, List.nil_append] at whole
  apply reordered
  refine List.append_cancel_left (?_ : first.take stream.windowTheirs.toNat ++ _ =
    first.take stream.windowTheirs.toNat ++ _)
  rw [whole, ← List.append_assoc, List.take_append_drop]

/-- A session with one stream whose peer's window holds one byte, and a window update of
ten bytes waiting for it. -/
def oneByteWindow : P2pNetworkYamuxState where
  messageSizeLimit := .unlimited
  pendingOutgoingLimit := .unlimited
  buffer := []
  incoming := [⟨YamuxFlags.empty, 1, .windowUpdate 10⟩]
  streams streamId := if streamId = 1 then some { YamuxStreamState.default with windowTheirs := 1 } else none
  terminated := none

theorem window_update_breaks_prefix_one_byte :
    ¬ (sentPayloads (run true false 5 oneByteWindow
      [.outgoingFrame ⟨YamuxFlags.empty, 1, .data [0, 0]⟩,
       .outgoingFrame ⟨YamuxFlags.empty, 1, .data [1]⟩, .incomingFrame]).2).flatten <+: [0, 0] ++ [1] :=
  window_update_breaks_prefix false rfl rfl rfl rfl rfl (by decide) (by decide) (by decide) (by decide)
    (by decide)

end Openmina.P2p.Yamux
