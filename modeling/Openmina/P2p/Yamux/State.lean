import Openmina.Codec.Bytes

/-!
# Yamux state and frames

`p2p_network_yamux_state.rs`: the frames of the yamux multiplexer and `into_bytes`,
`split_at`, the state of a stream, and the receiving side of a session:
`extend_buffer` appends what arrived and `parse_frames` moves every complete frame of
the buffer to the incoming queue with `try_parse_frame`. The capacity of the buffer
only chooses how `shift_and_compact_buffer` copies the unread bytes, so it is left out.
-/

namespace Openmina.P2p.Yamux

open Openmina.Codec.Bytes

set_option autoImplicit false

/-- `Limit<T>` of `p2p_config.rs`. -/
inductive Limit (α : Type)
  | some (value : α)
  | unlimited
  deriving DecidableEq

/-- `len > limit` for a `Limit<usize>`: nothing exceeds `Unlimited`. -/
def Limit.exceededBy (limit : Limit ℕ) (len : ℕ) : Bool :=
  match limit with
  | .some value => value < len
  | .unlimited => false

/-- The bits `SYN`, `ACK`, `FIN` and `RST` of `YamuxFlags`. -/
structure YamuxFlags where
  syn : Bool
  ack : Bool
  fin : Bool
  rst : Bool
  deriving DecidableEq

def YamuxFlags.empty : YamuxFlags := ⟨false, false, false, false⟩

def YamuxFlags.bits (flags : YamuxFlags) : UInt16 :=
  (if flags.syn then 1 else 0) + (if flags.ack then 2 else 0) + (if flags.fin then 4 else 0) +
    (if flags.rst then 8 else 0)

def YamuxFlags.fromBits (bits : UInt16) : Option YamuxFlags :=
  if bits < 16 then some ⟨bits &&& 1 ≠ 0, bits &&& 2 ≠ 0, bits &&& 4 ≠ 0, bits &&& 8 ≠ 0⟩
  else none

theorem YamuxFlags.fromBits_bits (flags : YamuxFlags) : fromBits flags.bits = some flags := by
  obtain ⟨syn, ack, fin, rst⟩ := flags
  cases syn <;> cases ack <;> cases fin <;> cases rst <;> decide

theorem YamuxFlags.bits_lt (flags : YamuxFlags) : flags.bits.toNat < 2 ^ 16 :=
  flags.bits.toNat_lt

inductive YamuxSessionError
  | protocol
  | internal
  deriving DecidableEq

inductive YamuxFrameInner
  | data (data : List UInt8)
  | windowUpdate (difference : UInt32)
  | ping (nonce : UInt32)
  | goAway (result : Except YamuxSessionError Unit)
  deriving DecidableEq

structure YamuxFrame where
  flags : YamuxFlags
  streamId : UInt32
  inner : YamuxFrameInner
  deriving DecidableEq

inductive YamuxFrameParseError
  | version (version : UInt8)
  | flags (bits : UInt16)
  | type (type : UInt8)
  | errorCode (code : UInt32)
  deriving DecidableEq

def goAwayCode : Except YamuxSessionError Unit → UInt32
  | .ok () => 0
  | .error .protocol => 1
  | .error .internal => 2

/-- The result a `GoAway` code stands for, if any. -/
def goAwayResult (code : UInt32) : Option (Except YamuxSessionError Unit) :=
  if code = 0 then some (.ok ())
  else if code = 1 then some (.error .protocol)
  else if code = 2 then some (.error .internal)
  else none

theorem goAwayResult_goAwayCode (result : Except YamuxSessionError Unit) :
    goAwayResult (goAwayCode result) = some result := by
  rcases result with (_ | _) | ⟨⟩ <;> rfl

/-- The type byte, the header word and the payload of a frame. -/
def YamuxFrameInner.fields : YamuxFrameInner → UInt8 × UInt32 × List UInt8
  | .data payload => (0, UInt32.ofNat payload.length, payload)
  | .windowUpdate difference => (1, difference, [])
  | .ping nonce => (2, nonce, [])
  | .goAway result => (3, goAwayCode result, [])

/-- `into_bytes`: version 0, the type, then flags, stream id and the header word in big
endian, then the payload of a data frame (its length cut to `u32`). -/
def YamuxFrame.intoBytes (self : YamuxFrame) : List UInt8 :=
  let (type, word, payload) := self.inner.fields
  [0, type] ++ toBeBytes 2 self.flags.bits.toNat ++ toBeBytes 4 self.streamId.toNat ++
    toBeBytes 4 word.toNat ++ payload

def YamuxFrame.len (self : YamuxFrame) : ℕ :=
  match self.inner with
  | .data data => data.length
  | _ => 0

/-- `len_as_u32`: the payload length, `u32::MAX` when it does not fit. -/
def YamuxFrame.lenAsU32 (self : YamuxFrame) : UInt32 :=
  if self.len < 2 ^ 32 then UInt32.ofNat self.len else 4294967295

/-- `split_at`: a data frame longer than `pos` keeps its first `pos` bytes, and the rest
goes to a new frame that takes over `FIN` and drops `SYN` and `ACK`. -/
def YamuxFrame.splitAt (self : YamuxFrame) (pos : ℕ) : YamuxFrame × Option YamuxFrame :=
  match self.inner with
  | .data data =>
    if data.length ≤ pos then (self, none)
    else
      ({ self with flags := { self.flags with fin := false }, inner := .data (data.take pos) },
        some { flags := { self.flags with syn := false, ack := false }, streamId := self.streamId,
               inner := .data (data.drop pos) })
  | _ => (self, none)

def initialWindowSize : UInt32 := 0x40000

def maxWindowSize : UInt32 := 16 * 1024 * 1024

/-- The fields of a stream that the reducer reads and writes. -/
structure YamuxStreamState where
  incoming : Bool
  synSent : Bool
  established : Bool
  writable : Bool
  windowTheirs : UInt32
  windowOurs : UInt32
  maxWindowSize : UInt32
  pending : List YamuxFrame

def YamuxStreamState.default : YamuxStreamState :=
  ⟨false, false, false, false, initialWindowSize, initialWindowSize, initialWindowSize, []⟩

def YamuxStreamState.newIncoming : YamuxStreamState :=
  { YamuxStreamState.default with incoming := true }

abbrev StreamId := UInt32

structure P2pNetworkYamuxState where
  messageSizeLimit : Limit ℕ
  pendingOutgoingLimit : Limit ℕ
  buffer : List UInt8
  incoming : List YamuxFrame
  streams : StreamId → Option YamuxStreamState
  terminated : Option (Except YamuxFrameParseError (Except YamuxSessionError Unit))

/-- What `try_parse_frame` finds at the front of the unread bytes: a frame and the
bytes it takes, too few bytes for a frame, or a malformed frame and how the session
ends. -/
inductive Parsed
  | frame (frame : YamuxFrame) (consumed : ℕ)
  | incomplete
  | failed (terminated : Except YamuxFrameParseError (Except YamuxSessionError Unit))

/-- The checks of `try_parse_frame`, in its order, on the unread bytes `buf`. -/
def parseFrame (messageSizeLimit : Limit ℕ) (buf : List UInt8) : Parsed :=
  match buf with
  | version :: type :: f0 :: f1 :: s0 :: s1 :: s2 :: s3 :: b0 :: b1 :: b2 :: b3 :: payload =>
    if version ≠ 0 then .failed (.error (.version version))
    else
      let bits := UInt16.ofNat (fromBeBytes [f0, f1])
      match YamuxFlags.fromBits bits with
      | none => .failed (.error (.flags bits))
      | some flags =>
        let streamId := UInt32.ofNat (fromBeBytes [s0, s1, s2, s3])
        let b := UInt32.ofNat (fromBeBytes [b0, b1, b2, b3])
        if type = 0 then
          let len := b.toNat
          if messageSizeLimit.exceededBy len then .failed (.ok (.error .internal))
          else if len ≤ payload.length then .frame ⟨flags, streamId, .data (payload.take len)⟩ (12 + len)
          else .incomplete
        else if type = 1 then .frame ⟨flags, streamId, .windowUpdate b⟩ 12
        else if type = 2 then .frame ⟨flags, streamId, .ping b⟩ 12
        else if type = 3 then
          match goAwayResult b with
          | some result => .frame ⟨flags, streamId, .goAway result⟩ 12
          | none => .failed (.error (.errorCode b))
        else .failed (.error (.type type))
  | _ => .incomplete

theorem parseFrame_consumed {messageSizeLimit : Limit ℕ} {buf : List UInt8} {frame : YamuxFrame}
    {consumed : ℕ} (parsed : parseFrame messageSizeLimit buf = .frame frame consumed) :
    12 ≤ consumed ∧ consumed ≤ buf.length := by
  unfold parseFrame at parsed
  split at parsed
  · rename_i version type f0 f1 s0 s1 s2 s3 b0 b1 b2 b3 payload
    simp only [List.length_cons]
    cases flagsIs : YamuxFlags.fromBits (UInt16.ofNat (fromBeBytes [f0, f1])) with
    | none =>
      simp only [flagsIs] at parsed
      split_ifs at parsed
    | some flags =>
      simp only [flagsIs] at parsed
      split_ifs at parsed <;> (try split at parsed) <;> cases parsed <;> omega
  · cases parsed

namespace P2pNetworkYamuxState

def pushIncoming (self : P2pNetworkYamuxState) (frame : YamuxFrame) : P2pNetworkYamuxState :=
  { self with incoming := self.incoming ++ [frame] }

/-- `try_parse_frame`: a complete frame at `offset` goes to the incoming queue and its
length is returned; a malformed one terminates the session. -/
def tryParseFrame (self : P2pNetworkYamuxState) (offset : ℕ) : Option ℕ × P2pNetworkYamuxState :=
  match parseFrame self.messageSizeLimit (self.buffer.drop offset) with
  | .frame frame consumed => (some consumed, self.pushIncoming frame)
  | .incomplete => (none, self)
  -- `set_err` or `set_res`
  | .failed terminated => (none, { self with terminated := some terminated })

theorem tryParseFrame_some {self next : P2pNetworkYamuxState} {offset consumed : ℕ}
    (parsed : tryParseFrame self offset = (some consumed, next)) :
    next.buffer = self.buffer ∧ 0 < consumed ∧ offset + consumed ≤ self.buffer.length := by
  unfold tryParseFrame at parsed
  split at parsed
  · rename_i frame consumed' found
    cases parsed
    have bounds := parseFrame_consumed found
    rw [List.length_drop] at bounds
    exact ⟨rfl, by omega, by omega⟩
  · cases parsed
  · cases parsed

set_option linter.unusedVariables false in
/-- The loop of `parse_frames`: parse from `offset` while frames are complete. -/
def parseFramesFrom (self : P2pNetworkYamuxState) (offset : ℕ) : P2pNetworkYamuxState × ℕ :=
  match parsed : tryParseFrame self offset with
  | (some consumed, next) => parseFramesFrom next (offset + consumed)
  | (none, next) => (next, offset)
termination_by self.buffer.length - offset
decreasing_by
  obtain ⟨same, positive, within⟩ := tryParseFrame_some parsed
  rw [same]
  omega

def shiftAndCompactBuffer (self : P2pNetworkYamuxState) (offset : ℕ) : P2pNetworkYamuxState :=
  { self with buffer := self.buffer.drop offset }

def parseFrames (self : P2pNetworkYamuxState) : P2pNetworkYamuxState :=
  let (parsed, offset) := self.parseFramesFrom 0
  parsed.shiftAndCompactBuffer offset

def extendBuffer (self : P2pNetworkYamuxState) (data : List UInt8) : P2pNetworkYamuxState :=
  { self with buffer := self.buffer ++ data }

end P2pNetworkYamuxState

end Openmina.P2p.Yamux
