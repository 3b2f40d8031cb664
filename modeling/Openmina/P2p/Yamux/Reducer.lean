import Openmina.P2p.Yamux.State

/-!
# The yamux reducer

`p2p_network_yamux_reducer.rs` on the state of one session. An outgoing data frame is
sent as far as the peer's window allows, and the rest of it is put at the front of the
stream's pending frames; a window update from the peer widens the window and sends the
pending frames again. Actions the reducer dispatches to itself go to the back of the
queue of a run, the others are what the session emits. What the reducer reads of the
connection beyond the session, whether the peer is known and whether it opened too
many streams, is given with the run.
-/

namespace Openmina.P2p.Yamux

set_option autoImplicit false

def saturatingAdd (x y : UInt32) : UInt32 :=
  if x.toNat + y.toNat < 2 ^ 32 then x + y else 4294967295

def saturatingSub (x y : UInt32) : UInt32 :=
  if y ≤ x then x - y else 0

def saturatingMul (x y : UInt32) : UInt32 :=
  if x.toNat * y.toNat < 2 ^ 32 then x * y else 4294967295

/-- `YamuxPing::into_frame`. -/
def pingFrame (streamId : StreamId) (nonce : UInt32) (response : Bool) : YamuxFrame :=
  { flags :=
      if response then { YamuxFlags.empty with ack := true }
      else if streamId = 0 then { YamuxFlags.empty with syn := true } else YamuxFlags.empty,
    streamId,
    inner := .ping nonce }

inductive P2pNetworkYamuxAction
  | incomingData (data : List UInt8)
  | outgoingData (streamId : StreamId) (data : List UInt8) (flags : YamuxFlags)
  | incomingFrame
  | outgoingFrame (frame : YamuxFrame)
  | openStream (streamId : StreamId)

/-- What the reducer dispatches. -/
inductive YamuxOutput
  | yamux (action : P2pNetworkYamuxAction)
  /-- `P2pNetworkNoiseAction::OutgoingData` with the bytes of the frame. -/
  | outgoingData (frame : YamuxFrame)
  /-- `P2pNetworkSchedulerAction::Error` with `YamuxOverflow`. -/
  | yamuxOverflow (streamId : StreamId)
  /-- `P2pNetworkSchedulerAction::Error` with `StreamReset`. -/
  | streamReset (streamId : StreamId)
  /-- `P2pNetworkSelectAction::Init` for a stream. -/
  | selectInit (streamId : StreamId) (incoming : Bool)
  /-- `P2pNetworkSelectAction::IncomingData`. -/
  | selectIncomingData (streamId : StreamId) (data : List UInt8) (fin : Bool)

namespace P2pNetworkYamuxState

def setStream (self : P2pNetworkYamuxState) (streamId : StreamId) (stream : YamuxStreamState) :
    P2pNetworkYamuxState :=
  { self with streams := Function.update self.streams streamId (some stream) }

@[simp] theorem setStream_streams_self (self : P2pNetworkYamuxState) (streamId : StreamId)
    (stream : YamuxStreamState) : (self.setStream streamId stream).streams streamId = some stream := by
  simp [setStream]

@[simp] theorem setStream_incoming (self : P2pNetworkYamuxState) (streamId : StreamId)
    (stream : YamuxStreamState) : (self.setStream streamId stream).incoming = self.incoming :=
  rfl

@[simp] theorem setStream_terminated (self : P2pNetworkYamuxState) (streamId : StreamId)
    (stream : YamuxStreamState) : (self.setStream streamId stream).terminated = self.terminated :=
  rfl

@[simp] theorem setStream_pendingOutgoingLimit (self : P2pNetworkYamuxState) (streamId : StreamId)
    (stream : YamuxStreamState) :
    (self.setStream streamId stream).pendingOutgoingLimit = self.pendingOutgoingLimit :=
  rfl

end P2pNetworkYamuxState

namespace YamuxStreamState

/-- The data of `OutgoingFrame` against the peer's window: the stream afterwards and the
frame to send, nothing when the pending frames exceed the limit. -/
def sendData (stream : YamuxStreamState) (pendingOutgoingLimit : Limit ℕ) (frame : YamuxFrame) :
    YamuxStreamState × Option YamuxFrame :=
  if frame.lenAsU32 ≤ stream.windowTheirs then
    ({ stream with windowTheirs := stream.windowTheirs - frame.lenAsU32 }, some frame)
  else
    -- send what the window takes, and put the rest before everything pending
    let (kept, remaining) := frame.splitAt stream.windowTheirs.toNat
    let stream := { stream with pending := remaining.toList ++ stream.pending, windowTheirs := 0 }
    if pendingOutgoingLimit.exceededBy (stream.pending.map YamuxFrame.len).sum then (stream, none)
    else (stream, some kept)

/-- The flags of a frame sent on the stream. -/
def sentWith (stream : YamuxStreamState) (flags : YamuxFlags) : YamuxStreamState :=
  if flags.fin then { stream with writable := false }
  else { stream with established := stream.established || flags.ack,
                     synSent := stream.synSent || flags.syn }

/-- A window update we send widens our window, and the maximum with it. -/
def sentWindowUpdate (stream : YamuxStreamState) (difference : UInt32) : YamuxStreamState :=
  let windowOurs := saturatingAdd stream.windowOurs difference
  if windowOurs > stream.maxWindowSize then
    { stream with windowOurs, maxWindowSize := min windowOurs Yamux.maxWindowSize }
  else { stream with windowOurs }

end YamuxStreamState

/-- The loop of a window update: pending frames are taken while the window lasts, the
one that exhausts it included. -/
def drainPending (window : UInt32) : List YamuxFrame → List YamuxFrame × List YamuxFrame
  | [] => ([], [])
  | frame :: rest =>
    if frame.lenAsU32 ≤ window then
      let (taken, left) := drainPending (window - frame.lenAsU32) rest
      (frame :: taken, left)
    else ([frame], rest)

namespace P2pNetworkYamuxState

/-- The `OutgoingFrame` branch. -/
def outgoingFrame (self : P2pNetworkYamuxState) (frame : YamuxFrame) :
    P2pNetworkYamuxState × List YamuxOutput :=
  match self.streams frame.streamId with
  | none => (self, [])
  | some stream =>
    match frame.inner with
    | .data _ =>
      match stream.sendData self.pendingOutgoingLimit frame with
      | (stream, none) => (self.setStream frame.streamId stream, [.yamuxOverflow frame.streamId])
      | (stream, some sent) =>
        (self.setStream frame.streamId (stream.sentWith sent.flags), [.outgoingData sent])
    | .windowUpdate difference =>
      (self.setStream frame.streamId ((stream.sentWindowUpdate difference).sentWith frame.flags),
        [.outgoingData frame])
    | _ => (self.setStream frame.streamId (stream.sentWith frame.flags), [.outgoingData frame])

/-- The `OutgoingData` branch: the first frame of a stream opens or accepts it. -/
def outgoingData (self : P2pNetworkYamuxState) (streamId : StreamId) (data : List UInt8)
    (flags : YamuxFlags) : P2pNetworkYamuxState × List YamuxOutput :=
  match self.streams streamId with
  | none => (self, [])
  | some stream =>
    let flags :=
      if !stream.incoming && !stream.established && !stream.synSent then { flags with syn := true }
      else if stream.incoming && !stream.established then { flags with ack := true }
      else flags
    (self, [.yamux (.outgoingFrame ⟨flags, streamId, .data data⟩)])

/-- The state part of `IncomingFrame` for a frame taken from the queue: the session and
the pending frames a window update releases. -/
def receiveFrame (self : P2pNetworkYamuxState) (frame : YamuxFrame) :
    P2pNetworkYamuxState × List YamuxFrame :=
  let self :=
    if frame.flags.syn then self.setStream frame.streamId .newIncoming else self
  let self :=
    if frame.flags.ack then
      self.setStream frame.streamId
        { (self.streams frame.streamId).getD .default with established := true }
    else self
  match frame.inner with
  | .data _ =>
    match self.streams frame.streamId with
    | some stream =>
      (self.setStream frame.streamId
        { stream with windowOurs := saturatingSub stream.windowOurs frame.lenAsU32 }, [])
    | none => (self, [])
  | .windowUpdate difference =>
    let stream := (self.streams frame.streamId).getD .newIncoming
    let windowTheirs := saturatingAdd stream.windowTheirs difference
    let (released, pending) :=
      if difference > 0 then drainPending windowTheirs stream.pending else ([], stream.pending)
    (self.setStream frame.streamId { stream with windowTheirs, pending }, released)
  | .ping _ => (self, [])
  | .goAway result => ({ self with terminated := some (.ok result) }, [])

/-- The `IncomingFrame` branch. -/
def incomingFrame (self : P2pNetworkYamuxState) (peerKnown incomingStreamsExceeded : Bool) :
    P2pNetworkYamuxState × List YamuxOutput :=
  match self.incoming with
  | [] => (self, [])
  | frame :: incoming =>
    let (self, released) := receiveFrame { self with incoming } frame
    match self.streams frame.streamId with
    | none => (self, [])
    | some stream =>
      -- without the peer's id the released frames are not sent
      if !peerKnown then (self, [])
      else if frame.flags.rst then (self, [.streamReset frame.streamId])
      else
        let opened :=
          if frame.flags.syn && frame.streamId ≠ 0 then
            if incomingStreamsExceeded then
              [.yamux (.outgoingFrame ⟨{ YamuxFlags.empty with fin := true }, frame.streamId, .data []⟩)]
            else [.selectInit frame.streamId true]
          else []
        let answered : List YamuxOutput :=
          match frame.inner with
          | .data data =>
            (if stream.windowOurs < stream.maxWindowSize / 2 then
              [.yamux (.outgoingFrame ⟨YamuxFlags.empty, frame.streamId,
                .windowUpdate (min (saturatingMul stream.maxWindowSize 2) (1024 * 1024))⟩)]
            else []) ++ [.selectIncomingData frame.streamId data frame.flags.fin]
          | .ping nonce =>
            if frame.flags.ack then [] else [.yamux (.outgoingFrame (pingFrame frame.streamId nonce true))]
          | .windowUpdate _ => released.map fun frame => .yamux (.outgoingFrame frame)
          | .goAway _ => []
        (self, opened ++ answered)

/-- The `IncomingData` branch: one `IncomingFrame` for each queued frame. -/
def incomingData (self : P2pNetworkYamuxState) (data : List UInt8) :
    P2pNetworkYamuxState × List YamuxOutput :=
  let self := (self.extendBuffer data).parseFrames
  (self, List.replicate self.incoming.length (.yamux .incomingFrame))

def openStream (self : P2pNetworkYamuxState) (streamId : StreamId) (peerKnown : Bool) :
    P2pNetworkYamuxState × List YamuxOutput :=
  (self.setStream streamId .default, if peerKnown then [.selectInit streamId false] else [])

/-- The reducer: a terminated session ignores every action. -/
def reduce (self : P2pNetworkYamuxState) (peerKnown incomingStreamsExceeded : Bool)
    (action : P2pNetworkYamuxAction) : P2pNetworkYamuxState × List YamuxOutput :=
  if self.terminated.isSome then (self, [])
  else
    match action with
    | .incomingData data => self.incomingData data
    | .outgoingData streamId data flags => self.outgoingData streamId data flags
    | .incomingFrame => self.incomingFrame peerKnown incomingStreamsExceeded
    | .outgoingFrame frame => self.outgoingFrame frame
    | .openStream streamId => self.openStream streamId peerKnown

end P2pNetworkYamuxState

def YamuxOutput.action? : YamuxOutput → Option P2pNetworkYamuxAction
  | .yamux action => some action
  | _ => none

def YamuxOutput.emitted : YamuxOutput → Bool
  | .yamux _ => false
  | _ => true

@[simp] theorem YamuxOutput.action?_yamux (action : P2pNetworkYamuxAction) :
    (YamuxOutput.yamux action).action? = some action :=
  rfl

@[simp] theorem YamuxOutput.action?_outgoingData (frame : YamuxFrame) :
    (YamuxOutput.outgoingData frame).action? = none :=
  rfl

@[simp] theorem YamuxOutput.emitted_yamux (action : P2pNetworkYamuxAction) :
    (YamuxOutput.yamux action).emitted = false :=
  rfl

@[simp] theorem YamuxOutput.emitted_outgoingData (frame : YamuxFrame) :
    (YamuxOutput.outgoingData frame).emitted = true :=
  rfl

/-- A run of the reducer over a queue of actions, at most `fuel` of them: each action's
own dispatches join the back of the queue. The outputs that leave the session, in
order. -/
def run (peerKnown incomingStreamsExceeded : Bool) :
    ℕ → P2pNetworkYamuxState → List P2pNetworkYamuxAction → P2pNetworkYamuxState × List YamuxOutput
  | 0, self, _ => (self, [])
  | _ + 1, self, [] => (self, [])
  | fuel + 1, self, action :: queue =>
    let (self, outputs) := self.reduce peerKnown incomingStreamsExceeded action
    let (final, later) :=
      run peerKnown incomingStreamsExceeded fuel self (queue ++ outputs.filterMap YamuxOutput.action?)
    (final, outputs.filter YamuxOutput.emitted ++ later)

/-- The payloads of the data frames the session sends, in order. -/
def sentPayloads : List YamuxOutput → List (List UInt8)
  | [] => []
  | .outgoingData ⟨_, _, .data data⟩ :: rest => data :: sentPayloads rest
  | _ :: rest => sentPayloads rest

end Openmina.P2p.Yamux
