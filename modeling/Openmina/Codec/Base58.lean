import Mathlib

/-!
# Base58check of `binprot` values

`mina-p2p-messages/src/b58.rs`. `encode` writes bytes in base58check under a version
byte, and `decode` checks the version byte and returns it in front of the bytes. A value
goes to base58check through its `binprot` bytes. Two decoders read it back: the generic
`FromBase58Check` reads the value from the whole decoded vector, and
`Base58CheckOfBinProt::from_str` reads it from `[1..]`, past the version byte.

The `bs58` crate and the `binprot` codecs are not part of the repository. They are
parameters, each with the law the code relies on. `bs58` gives back the version byte
followed by the bytes, as `base58tests` checks. A `binprot` read of what a write gave
returns the value and leaves what follows. A panic is `none`.
-/

namespace Openmina.Codec.Base58

set_option autoImplicit false

/-- The base58check codec of `bs58`, with the law of `base58tests`. -/
structure Bs58 (Text DecodeError : Type) where
  encodeCheck : List UInt8 → UInt8 → Text
  decodeCheck : Text → UInt8 → Except DecodeError (List UInt8)
  decodeCheck_encodeCheck : ∀ bytes version, decodeCheck (encodeCheck bytes version) version = .ok (version :: bytes)

/-- A `binprot` codec: the read takes what it needs from the front of its input. -/
structure Binprot (T WriteError ReadError : Type) where
  write : T → Except WriteError (List UInt8)
  read : List UInt8 → Except ReadError (T × List UInt8)
  read_write : ∀ value bytes, write value = .ok bytes → ∀ rest, read (bytes ++ rest) = .ok (value, rest)

inductive FromBase58CheckError (DecodeError ReadError : Type)
  | binprot (error : ReadError)
  | base58 (error : DecodeError)

section Codec

variable {Text DecodeError T U WriteError ReadError : Type} (bs58 : Bs58 Text DecodeError)

def encode (b : List UInt8) (v : UInt8) : Text :=
  bs58.encodeCheck b v

def decode (s : Text) (v : UInt8) : Except DecodeError (List UInt8) :=
  bs58.decodeCheck s v

def toBase58check (codec : Binprot T WriteError ReadError) (versionByte : UInt8) (value : T) :
    Except WriteError Text := do
  let binprot ← codec.write value
  pure (encode bs58 binprot versionByte)

/-- `FromBase58Check::from_base58check`, which reads the value from the whole decoded
vector. -/
def fromBase58check (codec : Binprot T WriteError ReadError) (versionByte : UInt8) (b58 : Text) :
    Except (FromBase58CheckError DecodeError ReadError) T := do
  let binprot ← (decode bs58 b58 versionByte).mapError .base58
  let (binable, _) ← (codec.read binprot).mapError .binprot
  pure binable

/-- `Display` of `Base58CheckOfBinProt<T, U, V>`: the value converted to `U` and written. -/
def display (codec : Binprot U WriteError ReadError) (toU : T → U) (v : UInt8) (value : T) :
    Except WriteError Text := do
  let binprot ← codec.write (toU value)
  pure (encode bs58 binprot v)

/-- `FromStr` of `Base58CheckOfBinProt<T, U, V>`, which reads `U` from `[1..]` of the
decoded vector; the slice panics on an empty vector. -/
def fromStr (codec : Binprot U WriteError ReadError) (ofU : U → T) (v : UInt8) (s : Text) :
    Option (Except (FromBase58CheckError DecodeError ReadError) T) :=
  match decode bs58 s v with
  | .error error => some (.error (.base58 error))
  | .ok [] => none
  | .ok (_ :: binprot) => some ((codec.read binprot).map (fun read => ofU read.1) |>.mapError .binprot)

theorem decode_encode (b : List UInt8) (v : UInt8) : decode bs58 (encode bs58 b v) v = .ok (v :: b) :=
  bs58.decodeCheck_encodeCheck b v

/-- `from_base58check` of what `to_base58check` wrote reads from the version byte on. -/
theorem fromBase58check_toBase58check (codec : Binprot T WriteError ReadError) (versionByte : UInt8)
    {value : T} {bytes : List UInt8} (written : codec.write value = .ok bytes) :
    ∃ text, toBase58check bs58 codec versionByte value = .ok text ∧
      fromBase58check bs58 codec versionByte text =
        ((codec.read (versionByte :: bytes)).map Prod.fst).mapError .binprot := by
  refine ⟨encode bs58 bytes versionByte, by simp [toBase58check, written, bind, Except.bind, pure, Except.pure], ?_⟩
  simp only [fromBase58check, decode_encode, Except.mapError, bind, Except.bind]
  cases codec.read (versionByte :: bytes) <;> rfl

theorem fromStr_display (codec : Binprot U WriteError ReadError) (toU : T → U) (ofU : U → T)
    (back : ∀ value, ofU (toU value) = value) (v : UInt8) {value : T} {bytes : List UInt8}
    (written : codec.write (toU value) = .ok bytes) :
    ∃ text, display bs58 codec toU v value = .ok text ∧ fromStr bs58 codec ofU v text = some (.ok value) := by
  refine ⟨encode bs58 bytes v, by simp [display, written, bind, Except.bind, pure, Except.pure], ?_⟩
  have read := codec.read_write _ bytes written []
  rw [List.append_nil] at read
  simp [fromStr, decode_encode, read, back, Except.map, Except.mapError]

end Codec

/-- The generic decoder reads a value from the version byte on, where the wrapper's
`from_str` reads past it and gives the value back. -/
theorem base58check_generic_decoder_keeps_version_byte {Text DecodeError T WriteError ReadError : Type}
    (bs58 : Bs58 Text DecodeError) (codec : Binprot T WriteError ReadError) (versionByte : UInt8)
    (value : T) (bytes : List UInt8) (written : codec.write value = .ok bytes) :
    (∃ text, toBase58check bs58 codec versionByte value = .ok text ∧
      fromBase58check bs58 codec versionByte text =
        ((codec.read (versionByte :: bytes)).map Prod.fst).mapError .binprot) ∧
    (∃ text, display bs58 codec id versionByte value = .ok text ∧
      fromStr bs58 codec id versionByte text = some (.ok value)) :=
  ⟨fromBase58check_toBase58check bs58 codec versionByte written,
    fromStr_display bs58 codec id id (fun _ => rfl) versionByte written⟩

/-- A `bs58` that satisfies the law: the text is the version byte and the bytes. -/
def prefixBs58 : Bs58 (List UInt8) Unit where
  encodeCheck bytes version := version :: bytes
  decodeCheck text version :=
    match text with
    | first :: _ => if first = version then .ok text else .error ()
    | [] => .error ()
  decodeCheck_encodeCheck bytes version := by simp

/-- The `binprot` of `BigInt`: its 32 bytes. -/
def bigIntBinprot : Binprot (Vector UInt8 32) Unit Unit where
  write value := .ok value.toList
  read input :=
    if fits : 32 ≤ input.length then .ok (⟨(input.take 32).toArray, by simp [fits]⟩, input.drop 32)
    else .error ()
  read_write value bytes written rest := by
    cases written
    have width : value.toList.length = 32 := value.length_toList
    simp only [List.length_append, width, Nat.le_add_right, dif_pos, List.take_left' width,
      List.drop_left' width, Except.ok.injEq, Prod.mk.injEq, and_true]
    exact Vector.toArray_inj.mp (by simp [Vector.toList])

def genesisStateHash : Vector UInt8 32 :=
  #v[0xfc, 0x63, 0x06, 0x29, 0xc6, 0xa1, 0xa2, 0x37, 0xa3, 0xdc, 0x1d, 0x95, 0xfd, 0x54, 0xfb, 0xf9,
    0xcc, 0xa0, 0x62, 0x48, 0x6e, 0x9f, 0x57, 0x85, 0x2e, 0xbc, 0x64, 0xe4, 0x04, 0x2c, 0xeb, 0x3d]

/-- The value of the ignored test `binable_base58check` under version byte `0x10` reads back
as a different value: the version byte and its first 31 bytes. -/
theorem base58check_generic_decoder_keeps_version_byte_genesis :
    ((∃ text, toBase58check prefixBs58 bigIntBinprot 0x10 genesisStateHash = .ok text ∧
      fromBase58check prefixBs58 bigIntBinprot 0x10 text =
        ((bigIntBinprot.read (0x10 :: genesisStateHash.toList)).map Prod.fst).mapError .binprot) ∧
    (∃ text, display prefixBs58 bigIntBinprot id 0x10 genesisStateHash = .ok text ∧
      fromStr prefixBs58 bigIntBinprot id 0x10 text = some (.ok genesisStateHash))) ∧
    fromBase58check prefixBs58 bigIntBinprot 0x10 (encode prefixBs58 genesisStateHash.toList 0x10) =
      .ok #v[0x10, 0xfc, 0x63, 0x06, 0x29, 0xc6, 0xa1, 0xa2, 0x37, 0xa3, 0xdc, 0x1d, 0x95, 0xfd, 0x54,
        0xfb, 0xf9, 0xcc, 0xa0, 0x62, 0x48, 0x6e, 0x9f, 0x57, 0x85, 0x2e, 0xbc, 0x64, 0xe4, 0x04, 0x2c,
        0xeb] ∧
    (#v[0x10, 0xfc, 0x63, 0x06, 0x29, 0xc6, 0xa1, 0xa2, 0x37, 0xa3, 0xdc, 0x1d, 0x95, 0xfd, 0x54,
        0xfb, 0xf9, 0xcc, 0xa0, 0x62, 0x48, 0x6e, 0x9f, 0x57, 0x85, 0x2e, 0xbc, 0x64, 0xe4, 0x04, 0x2c,
        0xeb] : Vector UInt8 32) ≠ genesisStateHash :=
  ⟨base58check_generic_decoder_keeps_version_byte prefixBs58 bigIntBinprot 0x10 genesisStateHash _ rfl,
    rfl, by decide⟩

end Openmina.Codec.Base58
