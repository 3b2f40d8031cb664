import Mathlib

/-!
# Pubsub incoming data

`p2p_network_pubsub_reducer.rs`: `reduce_incoming_data` decodes one length-delimited
`pb::Rpc` from the data of a stream, joined to the client's pending buffer when it holds
the start of a message, appends the published messages to the client's incoming
messages and applies the subscriptions and control commands. Prost's decoder is a
parameter with the behaviour `LengthDelimited` states; the reducer's effects on topics
and peers are the decoded message it hands on.
-/

namespace Openmina.P2p.Pubsub

set_option autoImplicit false

/-- `decode_length_delimited` of prost as it is assumed to behave: it decodes the first
frame of its input and ignores what follows, and it fails with a "buffer underflow"
error exactly on the strict prefixes of a frame. -/
structure LengthDelimited (Rpc Error : Type) where
  encode : Rpc → List UInt8
  decode : List UInt8 → Except Error Rpc
  /-- The text of the error contains "buffer underflow". -/
  isBufferUnderflow : Error → Bool
  decode_encode_append : ∀ rpc rest, decode (encode rpc ++ rest) = .ok rpc
  decode_of_strict_prefix : ∀ rpc input, input <+: encode rpc →
    input.length < (encode rpc).length → ∃ err, decode input = .error err ∧ isBufferUnderflow err
  strict_prefix_of_underflow : ∀ input err, decode input = .error err → isBufferUnderflow err →
    ∃ rpc, input <+: encode rpc ∧ input.length < (encode rpc).length

structure P2pNetworkPubsubClientState (Message : Type) where
  buffer : List UInt8
  incomingMessages : List Message

variable {Rpc Error Message : Type}

/-- `combined_with_pending_buffer`: the new buffer and the slice to decode. With nothing
pending the slice is the data; otherwise the buffer is extended with the data and is the
slice. -/
def combinedWithPendingBuffer (buffer data : List UInt8) : List UInt8 × List UInt8 :=
  if buffer.isEmpty then (buffer, data) else (buffer ++ data, buffer ++ data)

/-- `reduce_incoming_data` for a peer with a client state: the client afterwards, and the
decoded message whose subscriptions and control commands the reducer then applies. -/
def reduceIncomingData (codec : LengthDelimited Rpc Error) (publish : Rpc → List Message)
    (client : P2pNetworkPubsubClientState Message) (data : List UInt8) :
    P2pNetworkPubsubClientState Message × Option Rpc :=
  let (buffer, slice) := combinedWithPendingBuffer client.buffer data
  let client := { client with buffer }
  match codec.decode slice with
  | .ok decoded =>
    ({ client with buffer := [], incomingMessages := client.incomingMessages ++ publish decoded },
      some decoded)
  | .error err =>
    -- the data is kept for later only when nothing was pending before it
    if codec.isBufferUnderflow err && client.buffer.isEmpty then ({ client with buffer := data }, none)
    else ({ client with buffer := [] }, none)

theorem reduceIncomingData_of_empty (codec : LengthDelimited Rpc Error) (publish : Rpc → List Message)
    {client : P2pNetworkPubsubClientState Message} (empty : client.buffer = []) (data : List UInt8) :
    reduceIncomingData codec publish client data =
      match codec.decode data with
      | .ok decoded => (⟨[], client.incomingMessages ++ publish decoded⟩, some decoded)
      | .error err => if codec.isBufferUnderflow err then (⟨data, client.incomingMessages⟩, none)
          else (⟨[], client.incomingMessages⟩, none) := by
  unfold reduceIncomingData combinedWithPendingBuffer
  rw [empty]
  simp only [List.isEmpty_nil, if_true]
  cases codec.decode data with
  | ok decoded => rfl
  | error err => by_cases underflow : codec.isBufferUnderflow err <;> simp [underflow]

/-- A data chunk holding a whole message and more: the message is decoded, and whatever
follows it, a whole second message included, is dropped with the buffer. -/
theorem incoming_data_drops_following_rpc (codec : LengthDelimited Rpc Error)
    (publish : Rpc → List Message) {client : P2pNetworkPubsubClientState Message}
    (empty : client.buffer = []) (first second : Rpc) :
    reduceIncomingData codec publish client (codec.encode first ++ codec.encode second) =
      (⟨[], client.incomingMessages ++ publish first⟩, some first) := by
  rw [reduceIncomingData_of_empty codec publish empty, codec.decode_encode_append]

/-- A message split in three: the first part is kept, but the second part, which still
does not complete it, empties the buffer. -/
theorem incoming_data_clears_second_part (codec : LengthDelimited Rpc Error)
    (publish : Rpc → List Message) {client : P2pNetworkPubsubClientState Message}
    (empty : client.buffer = []) {rpc : Rpc} {first second : List UInt8} (started : first ≠ [])
    (arrived : first ++ second <+: codec.encode rpc)
    (short : (first ++ second).length < (codec.encode rpc).length) :
    reduceIncomingData codec publish (reduceIncomingData codec publish client first).1 second =
      (⟨[], client.incomingMessages⟩, none) := by
  have firstShort : first.length < (codec.encode rpc).length := by
    simp only [List.length_append] at short
    omega
  obtain ⟨err, failed, underflow⟩ :=
    codec.decode_of_strict_prefix rpc first ((List.prefix_append _ _).trans arrived) firstShort
  obtain ⟨err', failed', underflow'⟩ := codec.decode_of_strict_prefix rpc _ arrived short
  have kept : (reduceIncomingData codec publish client first).1 = ⟨first, client.incomingMessages⟩ := by
    rw [reduceIncomingData_of_empty codec publish empty, failed]
    simp [underflow]
  rw [kept]
  unfold reduceIncomingData combinedWithPendingBuffer
  simp [List.isEmpty_iff, started, failed']

/-- A codec of one-byte messages, which has the laws of `LengthDelimited`. -/
def byteCodec : LengthDelimited UInt8 Unit where
  encode rpc := [rpc]
  decode
    | [] => .error ()
    | rpc :: _ => .ok rpc
  isBufferUnderflow _ := true
  decode_encode_append _ _ := rfl
  decode_of_strict_prefix := by
    intro rpc input _ short
    have empty : input = [] := List.eq_nil_of_length_eq_zero (by simpa using short)
    subst empty
    exact ⟨(), rfl, rfl⟩
  strict_prefix_of_underflow := by
    intro input err failed _
    cases input with
    | nil => exact ⟨0, List.nil_prefix, by simp⟩
    | cons rpc rest => cases failed

theorem incoming_data_drops_following_rpc_bytes :
    reduceIncomingData byteCodec (fun rpc => [rpc]) ⟨[], []⟩ (byteCodec.encode 1 ++ byteCodec.encode 2) =
      (⟨[], [] ++ [1]⟩, some 1) :=
  incoming_data_drops_following_rpc byteCodec (fun rpc => [rpc]) rfl 1 2

/-- A codec of three-byte frames `[0, 0, rpc]`, with the laws of `LengthDelimited`; its error
says whether the input is still a prefix of a frame. -/
def frameCodec : LengthDelimited UInt8 Bool where
  encode rpc := [0, 0, rpc]
  decode
    | first :: second :: rpc :: _ => if first = 0 ∧ second = 0 then .ok rpc else .error false
    | input => .error (input.all (· == 0))
  isBufferUnderflow underflow := underflow
  decode_encode_append _ _ := rfl
  decode_of_strict_prefix := by
    intro rpc input within short
    -- a strict prefix of `[0, 0, rpc]` is `[]`, `[0]` or `[0, 0]`
    obtain ⟨n, small, rfl⟩ : ∃ n < 3, input = [0, 0, rpc].take n :=
      ⟨input.length, short, List.prefix_iff_eq_take.mp within⟩
    interval_cases n <;> exact ⟨true, rfl, rfl⟩
  strict_prefix_of_underflow := by
    intro input err failed underflow
    match input, failed with
    | [], _ => exact ⟨0, List.nil_prefix, by simp⟩
    | [first], failed =>
      cases failed
      have zero : first = 0 := by simpa using underflow
      exact ⟨0, ⟨[0, 0], by rw [zero]; rfl⟩, by simp⟩
    | [first, second], failed =>
      cases failed
      have zeros : first = 0 ∧ second = 0 := by simpa using underflow
      exact ⟨0, ⟨[0], by rw [zeros.1, zeros.2]; rfl⟩, by simp⟩
    | first :: second :: rpc :: rest, failed =>
      simp only at failed
      split_ifs at failed
      cases failed
      simp at underflow

theorem incoming_data_clears_second_part_frames :
    [0] ≠ ([] : List UInt8) ∧ ([0] ++ [0] : List UInt8) <+: frameCodec.encode 5 ∧
      ([0] ++ [0] : List UInt8).length < (frameCodec.encode 5).length ∧
      reduceIncomingData frameCodec (fun rpc => [rpc])
          (reduceIncomingData frameCodec (fun rpc => [rpc]) (⟨[], []⟩ : P2pNetworkPubsubClientState UInt8) [0]).1
          [0] = (⟨[], []⟩, none) :=
  ⟨by decide, by decide, by decide,
    incoming_data_clears_second_part frameCodec (fun rpc => [rpc]) rfl (by decide)
      (by decide : ([0] ++ [0] : List UInt8) <+: frameCodec.encode 5) (by decide)⟩

end Openmina.P2p.Pubsub
