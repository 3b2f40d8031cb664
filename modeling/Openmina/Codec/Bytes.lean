import Mathlib

/-!
# Big-endian words and framed byte streams

A word of `width` bytes, most significant first, read back as a base-256 numeral; and
the prefixes of a stream of encoded frames: whatever has arrived of such a stream is
some whole frames followed by a strict prefix of the next one.
-/

namespace Openmina.Codec.Bytes

set_option autoImplicit false

def toBeBytes : ℕ → ℕ → List UInt8
  | 0, _ => []
  | width + 1, x => toBeBytes width (x / 256) ++ [UInt8.ofNat x]

def fromBeBytes (bytes : List UInt8) : ℕ :=
  bytes.foldl (fun acc byte => acc * 256 + byte.toNat) 0

@[simp] theorem length_toBeBytes (width x : ℕ) : (toBeBytes width x).length = width := by
  induction width generalizing x with
  | zero => rfl
  | succ width ih => simp [toBeBytes, ih]

theorem fromBeBytes_append_singleton (bytes : List UInt8) (byte : UInt8) :
    fromBeBytes (bytes ++ [byte]) = fromBeBytes bytes * 256 + byte.toNat := by
  simp [fromBeBytes, List.foldl_append]

theorem fromBeBytes_toBeBytes (width x : ℕ) :
    fromBeBytes (toBeBytes width x) = x % 256 ^ width := by
  induction width generalizing x with
  | zero => simp [toBeBytes, fromBeBytes, Nat.mod_one]
  | succ width ih =>
    have lowByte : (UInt8.ofNat x).toNat = x % 256 := by simp
    rw [toBeBytes, fromBeBytes_append_singleton, ih, lowByte, Nat.pow_succ', Nat.mod_mul]
    rw [Nat.add_comm, Nat.mul_comm]

theorem toBeBytes_two (x : ℕ) :
    ∃ b0 b1, toBeBytes 2 x = [b0, b1] ∧ fromBeBytes [b0, b1] = x % 256 ^ 2 :=
  ⟨_, _, rfl, fromBeBytes_toBeBytes 2 x⟩

theorem toBeBytes_four (x : ℕ) :
    ∃ b0 b1 b2 b3, toBeBytes 4 x = [b0, b1, b2, b3] ∧ fromBeBytes [b0, b1, b2, b3] = x % 256 ^ 4 :=
  ⟨_, _, _, _, rfl, fromBeBytes_toBeBytes 4 x⟩

section Frames

variable {α β : Type} (encode : α → List β)

def PendingPrefix (pending : List β) : List α → Prop
  | [] => pending = []
  | frame :: _ => pending <+: encode frame ∧ pending.length < (encode frame).length

theorem exists_split_of_prefix {frames : List α} {received : List β}
    (arrived : received <+: (frames.map encode).flatten) :
    ∃ done rest pending, frames = done ++ rest ∧
      received = (done.map encode).flatten ++ pending ∧ PendingPrefix encode pending rest := by
  induction frames generalizing received with
  | nil => exact ⟨[], [], [], rfl, by simpa using arrived, rfl⟩
  | cons frame frames ih =>
    rw [List.map_cons, List.flatten_cons] at arrived
    by_cases short : received.length < (encode frame).length
    · have within : received <+: encode frame :=
        List.prefix_of_prefix_length_le arrived (List.prefix_append _ _) (Nat.le_of_lt short)
      exact ⟨[], frame :: frames, received, rfl, rfl, within, short⟩
    · -- the whole first frame has arrived; the rest is a prefix of the later frames
      obtain ⟨after, rfl⟩ : encode frame <+: received :=
        List.prefix_of_prefix_length_le (List.prefix_append _ _) arrived (by omega)
      obtain ⟨done, rest, pending, rfl, rfl, pendingIs⟩ :=
        ih ((List.prefix_append_right_inj _).mp arrived)
      exact ⟨frame :: done, rest, pending, rfl, by simp, pendingIs⟩

theorem PendingPrefix.length_lt {pending : List β} {frame : α} {rest : List α}
    (pendingIs : PendingPrefix encode pending (frame :: rest)) :
    pending.length < (encode frame).length :=
  pendingIs.2

end Frames

end Openmina.Codec.Bytes
