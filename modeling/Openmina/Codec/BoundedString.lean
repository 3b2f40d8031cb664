import Mathlib
import Openmina.Codec.Bytes

/-!
# Bounded strings in `binprot`

`mina-p2p-messages/src/string.rs`: `BoundedByteString` and `BoundedCharString` are
written as a `Nat0` length followed by the bytes, and read back through
`maybe_read_in_chunks`, which switches to a loop of `CHUNK_SIZE` byte reads once the
declared length exceeds `CHUNK_SIZE`. The reader is the list of bytes not yet read, and
`read_exact` fails with an I/O error when fewer bytes are left. The `Nat0` codec of the
`binprot` crate is not part of the repository: it is a parameter, with the law that its
read inverts its write on every `u64`.

With a human-readable serde format, `BoundedByteString` is written as a string, a graphic
ASCII byte as its character and any other as `\xNN`, and read back as a
`serde_bytes::ByteBuf`, the UTF-8 bytes of the string, with no unescaping.
-/

namespace Openmina.Codec.BoundedString

open Openmina.Codec.Bytes

set_option autoImplicit false

inductive BinprotError
  /-- `read_exact` ran out of input. -/
  | unexpectedEof
  /-- `MinaStringTooLong`: "String length `actual` is greater than maximum `max`". -/
  | stringTooLong (max actual : ℕ)
  /-- An error of the `Nat0` read. -/
  | nat0
  deriving DecidableEq

/-- The `Nat0` codec of `binprot`, with the round trip that the length prefix of a string
relies on: a read of what a write gave returns the number and the rest. -/
structure Nat0Codec where
  write : ℕ → List UInt8
  read : List UInt8 → Except BinprotError (ℕ × List UInt8)
  read_write : ∀ n rest, n < 2 ^ 64 → read (write n ++ rest) = .ok (n, rest)

def chunkSize : ℕ := 5000

def minaStringMaxLength : ℕ := 100000000

def readExact (n : ℕ) (input : List UInt8) : Except BinprotError (List UInt8 × List UInt8) :=
  if n ≤ input.length then .ok (input.take n, input.drop n) else .error .unexpectedEof

/-- The `while remaining > 0` loop of `maybe_read_in_chunks`: each chunk read into the
front of `temp_buf` is appended to `buf`. -/
def readChunks (remaining : ℕ) (buf input : List UInt8) :
    Except BinprotError (List UInt8 × List UInt8) :=
  if 0 < remaining then
    let readSize := min chunkSize remaining
    match readExact readSize input with
    | .error err => .error err
    | .ok (chunk, input) => readChunks (remaining - readSize) (buf ++ chunk) input
  else .ok (buf, input)
termination_by remaining
decreasing_by
  have positive : 0 < chunkSize := by decide
  omega

/-- `maybe_read_in_chunks`: a short string is read at once; a long one into a buffer
that starts as `vec![0u8; CHUNK_SIZE]`. -/
def maybeReadInChunks (len : ℕ) (input : List UInt8) :
    Except BinprotError (List UInt8 × List UInt8) :=
  if len ≤ chunkSize then readExact len input
  else readChunks len (List.replicate chunkSize 0) input

/-- The `binprot_read` shared by both string types: the length, its bound, the bytes. -/
def readBounded (codec : Nat0Codec) (maxLength : ℕ) (input : List UInt8) :
    Except BinprotError (List UInt8 × List UInt8) := do
  let (len, input) ← codec.read input
  if len > maxLength then throw (.stringTooLong maxLength len)
  maybeReadInChunks len input

/-- The `binprot_write` shared by both string types. -/
def writeBounded (codec : Nat0Codec) (maxLength : ℕ) (bytes : List UInt8) :
    Except BinprotError (List UInt8) :=
  if bytes.length > maxLength then .error (.stringTooLong maxLength bytes.length)
  else .ok (codec.write bytes.length ++ bytes)

def BoundedByteString.binprotRead (codec : Nat0Codec) (maxLength : ℕ) (input : List UInt8) :
    Except BinprotError (List UInt8 × List UInt8) :=
  readBounded codec maxLength input

def BoundedByteString.binprotWrite (codec : Nat0Codec) (maxLength : ℕ) (bytes : List UInt8) :
    Except BinprotError (List UInt8) :=
  writeBounded codec maxLength bytes

def BoundedCharString.binprotRead (codec : Nat0Codec) (maxLength : ℕ) (input : List UInt8) :
    Except BinprotError (List UInt8 × List UInt8) :=
  readBounded codec maxLength input

def BoundedCharString.binprotWrite (codec : Nat0Codec) (maxLength : ℕ) (bytes : List UInt8) :
    Except BinprotError (List UInt8) :=
  writeBounded codec maxLength bytes

/-! ## Reading what was written -/

theorem readExact_append {n : ℕ} (bytes rest : List UInt8) (exact : bytes.length = n) :
    readExact n (bytes ++ rest) = .ok (bytes, rest) := by
  subst exact
  simp [readExact]

theorem readExact_short {n : ℕ} {input : List UInt8} (short : input.length < n) :
    readExact n input = .error .unexpectedEof := by
  simp [readExact, Nat.not_le.mpr short]

theorem readChunks_append (remaining : ℕ) (buf bytes rest : List UInt8)
    (exact : bytes.length = remaining) :
    readChunks remaining buf (bytes ++ rest) = .ok (buf ++ bytes, rest) := by
  induction remaining using Nat.strong_induction_on generalizing buf bytes with
  | _ remaining ih =>
    rw [readChunks]
    by_cases positive : 0 < remaining
    · rw [if_pos positive]
      have split : bytes ++ rest =
          bytes.take (min chunkSize remaining) ++ (bytes.drop (min chunkSize remaining) ++ rest) := by
        rw [← List.append_assoc, List.take_append_drop]
      have chunkLength : (bytes.take (min chunkSize remaining)).length = min chunkSize remaining := by
        rw [List.length_take]
        omega
      have smaller : remaining - min chunkSize remaining < remaining := by
        have : 0 < chunkSize := by decide
        omega
      have restLength : (bytes.drop (min chunkSize remaining)).length =
          remaining - min chunkSize remaining := by
        rw [List.length_drop, exact]
      dsimp only
      rw [split, readExact_append _ _ chunkLength]
      dsimp only
      rw [ih _ smaller _ _ restLength, List.append_assoc, List.take_append_drop]
    · have empty : bytes = [] := List.eq_nil_of_length_eq_zero (by omega)
      rw [if_neg positive, empty, List.append_nil, List.nil_append]

theorem maybeReadInChunks_append (bytes rest : List UInt8) :
    maybeReadInChunks bytes.length (bytes ++ rest) =
      .ok ((if bytes.length ≤ chunkSize then [] else List.replicate chunkSize 0) ++ bytes, rest) := by
  unfold maybeReadInChunks
  split_ifs with short
  · rw [readExact_append _ _ rfl, List.nil_append]
  · exact readChunks_append _ _ _ _ rfl

theorem readChunks_short (remaining : ℕ) (buf input : List UInt8) (short : input.length < remaining) :
    readChunks remaining buf input = .error .unexpectedEof := by
  induction remaining using Nat.strong_induction_on generalizing buf input with
  | _ remaining ih =>
    have positive : 0 < remaining := by omega
    rw [readChunks, if_pos positive]
    dsimp only
    by_cases chunkShort : input.length < min chunkSize remaining
    · rw [readExact_short chunkShort]
    · have smaller : remaining - min chunkSize remaining < remaining := by
        have : 0 < chunkSize := by decide
        omega
      have split : input = input.take (min chunkSize remaining) ++ input.drop (min chunkSize remaining) :=
        (List.take_append_drop _ _).symm
      have chunkLength : (input.take (min chunkSize remaining)).length = min chunkSize remaining := by
        rw [List.length_take]
        omega
      have restShort : (input.drop (min chunkSize remaining)).length < remaining - min chunkSize remaining := by
        rw [List.length_drop]
        omega
      rw [split, readExact_append _ _ chunkLength]
      exact ih _ smaller _ _ restShort

theorem maybeReadInChunks_short {len : ℕ} {input : List UInt8} (short : input.length < len) :
    maybeReadInChunks len input = .error .unexpectedEof := by
  unfold maybeReadInChunks
  split_ifs
  · exact readExact_short short
  · exact readChunks_short _ _ _ short

/-! ## The round trip -/

/-- What `binprot_read` gives back for a string it wrote: the string itself when it fits
in one chunk, and otherwise the string behind `CHUNK_SIZE` zero bytes. -/
theorem readBounded_writeBounded (codec : Nat0Codec) {maxLength : ℕ} (bytes rest : List UInt8)
    (usize : maxLength < 2 ^ 64) (fits : bytes.length ≤ maxLength) :
    ∃ encoded, writeBounded codec maxLength bytes = .ok encoded ∧
      readBounded codec maxLength (encoded ++ rest) =
        .ok ((if bytes.length ≤ chunkSize then [] else List.replicate chunkSize 0) ++ bytes, rest) := by
  refine ⟨codec.write bytes.length ++ bytes, by simp [writeBounded, Nat.not_lt.mpr fits], ?_⟩
  have lengthRead : codec.read (codec.write bytes.length ++ (bytes ++ rest)) =
      .ok (bytes.length, bytes ++ rest) := codec.read_write _ _ (by omega)
  simp only [readBounded, List.append_assoc, lengthRead, bind, Except.bind,
    if_neg (Nat.not_lt.mpr fits)]
  exact maybeReadInChunks_append bytes rest

/-- For either string type, writing a string within the bound and reading the bytes back
consumes exactly what was written but returns `CHUNK_SIZE` zero bytes before the string
once it is longer than `CHUNK_SIZE`. -/
theorem bounded_string_read_prepends_zeros (codec : Nat0Codec) {maxLength : ℕ}
    (bytes rest : List UInt8) (usize : maxLength < 2 ^ 64) (fits : bytes.length ≤ maxLength)
    (long : chunkSize < bytes.length) :
    (∃ encoded, BoundedByteString.binprotWrite codec maxLength bytes = .ok encoded ∧
      BoundedByteString.binprotRead codec maxLength (encoded ++ rest) =
        .ok (List.replicate chunkSize 0 ++ bytes, rest)) ∧
    (∃ encoded, BoundedCharString.binprotWrite codec maxLength bytes = .ok encoded ∧
      BoundedCharString.binprotRead codec maxLength (encoded ++ rest) =
        .ok (List.replicate chunkSize 0 ++ bytes, rest)) := by
  obtain ⟨encoded, written, read⟩ := readBounded_writeBounded codec bytes rest usize fits
  rw [if_neg (Nat.not_le.mpr long)] at read
  exact ⟨⟨encoded, written, read⟩, ⟨encoded, written, read⟩⟩

/-- A `Nat0` codec that satisfies the law: eight bytes, most significant first. -/
def bigEndianNat0 : Nat0Codec where
  write n := toBeBytes 8 n
  read input :=
    if 8 ≤ input.length then .ok (fromBeBytes (input.take 8), input.drop 8) else .error .nat0
  read_write n rest fits := by
    have width : (toBeBytes 8 n).length = 8 := length_toBeBytes 8 n
    simp only [List.length_append, width, Nat.le_add_right, if_true, List.take_left' width,
      List.drop_left' width, fromBeBytes_toBeBytes]
    rw [Nat.mod_eq_of_lt (by simpa using fits)]

/-- A byte string of 5001 ones, within `MINA_STRING_MAX_LENGTH`, reads back 5000 bytes
longer than it was written. -/
theorem bounded_string_read_prepends_zeros_5001 :
    ∃ encoded, BoundedByteString.binprotWrite bigEndianNat0 minaStringMaxLength
        (List.replicate 5001 1) = .ok encoded ∧
      ∃ decoded, BoundedByteString.binprotRead bigEndianNat0 minaStringMaxLength encoded =
        .ok (decoded, []) ∧ decoded.length = 10001 ∧ decoded ≠ List.replicate 5001 1 := by
  have fits : (List.replicate 5001 (1 : UInt8)).length ≤ minaStringMaxLength := by
    rw [List.length_replicate]
    decide
  have long : chunkSize < (List.replicate 5001 (1 : UInt8)).length := by
    rw [List.length_replicate]
    decide
  obtain ⟨⟨encoded, written, read⟩, -⟩ :=
    bounded_string_read_prepends_zeros bigEndianNat0 (List.replicate 5001 1) []
      (show minaStringMaxLength < 2 ^ 64 by decide) fits long
  rw [List.append_nil] at read
  have decodedLength : (List.replicate chunkSize (0 : UInt8) ++ List.replicate 5001 1).length = 10001 := by
    rw [List.length_append, List.length_replicate, List.length_replicate]
    rfl
  refine ⟨encoded, written, _, read, decodedLength, ?_⟩
  intro same
  rw [same, List.length_replicate] at decodedLength
  omega

/-! ## Human-readable serde -/

/-- A human-readable serde format, reduced to what it does with strings: it gives back
the string `serialize_str` wrote, as `serde_json` does. -/
structure HumanReadableFormat (Text : Type) where
  serializeStr : List Char → Text
  deserializeStr : Text → List Char
  deserializeStr_serializeStr : ∀ chars, deserializeStr (serializeStr chars) = chars

def isAsciiGraphic (byte : UInt8) : Bool :=
  decide (0x21 ≤ byte.toNat ∧ byte.toNat ≤ 0x7E)

def hexDigit (digit : ℕ) : Char :=
  if digit < 10 then Char.ofNat (0x30 + digit) else Char.ofNat (0x61 + digit - 10)

/-- The text `serialize` writes for one byte. -/
def escapeByte (byte : UInt8) : List Char :=
  if isAsciiGraphic byte then [Char.ofNat byte.toNat]
  else ['\\', 'x', hexDigit (byte.toNat / 16), hexDigit (byte.toNat % 16)]

def BoundedByteString.serialize {Text : Type} (format : HumanReadableFormat Text) (bytes : List UInt8) : Text :=
  format.serializeStr (bytes.flatMap escapeByte)

def BoundedByteString.deserialize {Text : Type} (format : HumanReadableFormat Text) (text : Text) : List UInt8 :=
  (format.deserializeStr text).flatMap String.utf8EncodeChar

set_option maxRecDepth 4096 in
theorem utf8_escapeByte_of_graphic (byte : UInt8) (graphic : isAsciiGraphic byte = true) :
    (escapeByte byte).flatMap String.utf8EncodeChar = [byte] := by
  revert graphic
  cases byte with
  | ofBitVec byte =>
    cases byte with
    | ofFin byte =>
      revert byte
      decide

set_option maxRecDepth 4096 in
theorem length_utf8_escapeByte_of_escaped (byte : UInt8) (escaped : isAsciiGraphic byte = false) :
    ((escapeByte byte).flatMap String.utf8EncodeChar).length = 4 := by
  revert escaped
  cases byte with
  | ofBitVec byte =>
    cases byte with
    | ofFin byte =>
      revert byte
      decide

theorem one_le_length_utf8_escapeByte (byte : UInt8) :
    1 ≤ ((escapeByte byte).flatMap String.utf8EncodeChar).length := by
  cases escaped : isAsciiGraphic byte
  · rw [length_utf8_escapeByte_of_escaped byte escaped]
    omega
  · rw [utf8_escapeByte_of_graphic byte escaped]
    rfl

theorem deserialize_serialize {Text : Type} (format : HumanReadableFormat Text) (bytes : List UInt8) :
    BoundedByteString.deserialize format (BoundedByteString.serialize format bytes) =
      bytes.flatMap fun byte => (escapeByte byte).flatMap String.utf8EncodeChar := by
  rw [BoundedByteString.deserialize, BoundedByteString.serialize, format.deserializeStr_serializeStr,
    List.flatMap_assoc]

theorem flatMap_escape_eq_self_iff (bytes : List UInt8) :
    (bytes.flatMap fun byte => (escapeByte byte).flatMap String.utf8EncodeChar) = bytes ↔
      ∀ byte ∈ bytes, isAsciiGraphic byte = true := by
  induction bytes with
  | nil => simp
  | cons byte rest ih =>
    rw [List.flatMap_cons, List.forall_mem_cons]
    by_cases graphic : isAsciiGraphic byte = true
    · rw [utf8_escapeByte_of_graphic byte graphic, List.singleton_append, List.cons_inj_right, ih]
      simp [graphic]
    · -- four bytes for one: the lengths cannot agree
      rw [Bool.not_eq_true] at graphic
      have four := length_utf8_escapeByte_of_escaped byte graphic
      have longer : rest.length ≤ (rest.flatMap fun byte => (escapeByte byte).flatMap String.utf8EncodeChar).length := by
        rw [List.length_flatMap]
        calc rest.length = (rest.map fun b => ((escapeByte b).flatMap String.utf8EncodeChar).length).length :=
              (List.length_map _).symm
          _ ≤ _ := by
            apply List.length_le_sum_of_one_le
            intro n mem
            obtain ⟨b, -, rfl⟩ := List.mem_map.mp mem
            exact one_le_length_utf8_escapeByte b
      simp only [graphic, Bool.false_eq_true, false_and, iff_false]
      intro same
      have lengths := congrArg List.length same
      rw [List.length_append, four, List.length_cons] at lengths
      omega

/-- A byte string round-trips through a human-readable format exactly when all its bytes
are graphic, and the space `[0x20]` is written as the same text as the four graphic bytes
`\x20`. -/
theorem bounded_byte_string_serde_loses_escapes {Text : Type} (format : HumanReadableFormat Text) :
    (∀ bytes, BoundedByteString.deserialize format (BoundedByteString.serialize format bytes) = bytes ↔
      ∀ byte ∈ bytes, isAsciiGraphic byte = true) ∧
    BoundedByteString.serialize format [0x20] = BoundedByteString.serialize format [0x5C, 0x78, 0x32, 0x30] := by
  refine ⟨fun bytes => ?_, ?_⟩
  · rw [deserialize_serialize]
    exact flatMap_escape_eq_self_iff bytes
  · have same : ([0x20] : List UInt8).flatMap escapeByte = ([0x5C, 0x78, 0x32, 0x30] : List UInt8).flatMap escapeByte := by
      decide
    rw [BoundedByteString.serialize, BoundedByteString.serialize, same]

end Openmina.Codec.BoundedString
