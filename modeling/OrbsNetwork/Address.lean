import OrbsNetwork.BlockUtils
import OrbsNetwork.Lib.Base58
import OrbsNetwork.Lib.Hex
/-!
# Address — raw addresses, their base58 texts, transaction ids

A raw address is the network id (one byte), the version (one byte), the virtual chain id (three), the account id
(twenty) and a checksum (four).  `crc32` of the crc package and `ripemd160` and the signature check of the libraries
are parameters; `sha256` is `createHash("sha256")` of Node, as in the rest of the development.
-/
namespace Orbs

open Js

structure Crypto where
  sha256 : Bytes → Bytes
  ripemd160 : Bytes → Bytes
  /-- Of a byte string, as an unsigned 32-bit number. -/
  crc32 : Bytes → ℕ
  /-- ed25519: public key, hash, signature.  It throws on what it cannot read. -/
  verify : Bytes → Bytes → Bytes → Except Str Bool

def bs58EncodeRawAddress (rawAddress : Bytes) : Str :=
  Utf8.decode (rawAddress.take 1) ++ Hex.encode ((rawAddress.drop 1).take 1) ++ Base58.encode (rawAddress.drop 2)

/-- `none` when the base58 part throws. -/
def bs58DecodeRawAddress (base58Address : Str) : Option Bytes :=
  (Base58.decode (base58Address.drop 3)).map fun rest =>
    Utf8.encode (base58Address.take 1) ++ Hex.decode ((base58Address.drop 1).take 2) ++ rest

theorem bs58EncodeRawAddress_cons (b : UInt8) (rest : Bytes) : ∃ text, ':' ∉ text ∧
    bs58EncodeRawAddress (b :: rest) = (if b.toNat < 0x80 then Char.ofNat b.toNat else Utf8.replacement) :: text := by
  refine ⟨Hex.encode (rest.take 1) ++ Base58.encode (rest.drop 1), ?_, ?_⟩
  · have hcolon : ':' ∉ Base58.alphabet := by decide +kernel
    rw [List.mem_append, not_or]
    exact ⟨Hex.colon_not_mem _, fun h => hcolon (Base58.encode_mem _ _ h)⟩
  · unfold bs58EncodeRawAddress
    rw [List.take_succ_cons, List.take_zero, Utf8.decode_byte, List.append_assoc, List.singleton_append]
    rfl

theorem bs58EncodeRawAddress_nil : bs58EncodeRawAddress [] = [] := by
  have hutf8 : Utf8.decode [] = [] := Utf8.decode_encode []
  have hbase : Base58.encode [] = [] := by decide +kernel
  simp only [bs58EncodeRawAddress, List.take_nil, List.drop_nil, hutf8, hbase, Hex.encode, List.flatMap_nil,
    List.append_nil]

theorem bs58DecodeRawAddress_nil : bs58DecodeRawAddress [] = some [] := by
  have hbase : Base58.decode [] = some [] := by decide +kernel
  simp only [bs58DecodeRawAddress, List.take_nil, List.drop_nil, hbase, Utf8.encode, List.flatMap_nil, Hex.decode,
    Option.map_some, List.append_nil]

/-- What decoding makes of an encoded address: the first byte goes through UTF-8, the others come back. -/
theorem bs58DecodeRawAddress_encode (b : UInt8) (rest : Bytes) :
    bs58DecodeRawAddress (bs58EncodeRawAddress (b :: rest)) = some (Utf8.encode (Utf8.decode [b]) ++ rest) := by
  unfold bs58DecodeRawAddress bs58EncodeRawAddress
  rw [List.take_succ_cons, List.take_zero, Utf8.decode_byte]
  cases rest with
  | nil =>
    have henc : Base58.encode [] = [] := by decide +kernel
    have hdec : Base58.decode [] = some [] := by decide +kernel
    simp only [List.drop_succ_cons, List.drop_nil, List.take_nil, henc, Hex.encode, List.flatMap_nil, List.append_nil,
      hdec, Option.map_some, Hex.decode, List.take_succ_cons]
  | cons b1 rest =>
    simp only [List.drop_succ_cons, List.drop_zero, List.take_succ_cons, List.take_zero, Hex.encode, List.flatMap_cons,
      List.flatMap_nil, List.append_nil, Hex.byte, List.cons_append, List.nil_append, Base58.decode_encode,
      Option.map_some]
    have hhex := Hex.decode_encode [b1]
    simp only [Hex.encode, List.flatMap_cons, List.flatMap_nil, List.append_nil, Hex.byte] at hhex
    rw [hhex, List.append_assoc, List.singleton_append]

theorem bs58DecodeRawAddress_encode_iff (b : UInt8) (rest : Bytes) :
    bs58DecodeRawAddress (bs58EncodeRawAddress (b :: rest)) = some (b :: rest) ↔ b.toNat < 0x80 := by
  rw [bs58DecodeRawAddress_encode, Utf8.decode_byte, Option.some.injEq]
  by_cases hb : b.toNat < 0x80
  · rw [if_pos hb, Utf8.encode_ascii hb]
    exact iff_of_true rfl hb
  · rw [if_neg hb]
    refine iff_of_false (fun h => ?_) hb
    have hlen := congrArg List.length h
    have hthree : (Utf8.encode [Utf8.replacement]).length = 3 := by decide +kernel
    rw [List.length_append, hthree, List.length_cons] at hlen
    omega

structure Address where
  networkId : Str
  virtualChainId : Str
  accountId : Bytes
  deriving DecidableEq

namespace Address

variable (crypto : Crypto)

def calculateAccountId (publicKey : Bytes) : Bytes := crypto.ripemd160 (crypto.sha256 publicKey)

def ofPublicKey (publicKey : Bytes) (virtualChainId networkId : Str) : Address where
  networkId
  virtualChainId
  accountId := calculateAccountId crypto publicKey

def generateFullAddressNoChecksum (a : Address) : Bytes :=
  Utf8.encode a.networkId ++ [0] ++ Hex.decode a.virtualChainId ++ a.accountId

def checksum (a : Address) : ℕ := crypto.crc32 a.generateFullAddressNoChecksum

/-- `writeUInt32BE`. -/
def uint32BE (n : ℕ) : Bytes :=
  [UInt8.ofNat (n / 2 ^ 24), UInt8.ofNat (n / 2 ^ 16), UInt8.ofNat (n / 2 ^ 8), UInt8.ofNat n]

def toBuffer (a : Address) : Bytes := a.generateFullAddressNoChecksum ++ uint32BE (a.checksum crypto)

def toBase58 (a : Address) : Str := bs58EncodeRawAddress (a.toBuffer crypto)

/-- `readUInt32BE`, which throws past the end. -/
def readUInt32BE (b : Bytes) (offset : ℕ) : Except Str ℕ :=
  match b.drop offset with
  | b0 :: b1 :: b2 :: b3 :: _ => .ok (((b0.toNat * 256 + b1.toNat) * 256 + b2.toNat) * 256 + b3.toNat)
  | _ => .error "RangeError: Index out of range".toList

/-- `undefined` for an address that does not belong to the public key or whose checksum is wrong. -/
def fromBuffer (rawAddress : Bytes) (publicKey : Option Bytes) (validateChecksum : Bool) : Except Str (Option Address) := do
  let networkId := Utf8.decode (rawAddress.take 1)
  if rawAddress.length < 2 then throw "RangeError: Index out of range".toList
  let vchainId := Hex.encode ((rawAddress.drop 2).take 3)
  let accountId := (rawAddress.drop 5).take 20
  let address : Address := match publicKey with
    | some publicKey => .ofPublicKey crypto publicKey vchainId networkId
    | none => { networkId, virtualChainId := vchainId, accountId }
  if address.accountId ≠ accountId then return none
  if validateChecksum then
    let checksum ← readUInt32BE rawAddress 25
    if address.checksum crypto ≠ checksum then return none
  return some address

def createContractAddress (contractName vchainId networkId : Str) : Address :=
  .ofPublicKey crypto (crypto.sha256 (Utf8.encode contractName)) vchainId networkId

variable {crypto}

/-- An address that is accepted is the one of the bytes, and of the public key if there is one. -/
theorem fromBuffer_eq_ok {rawAddress : Bytes} {publicKey : Option Bytes} {validateChecksum : Bool} {a : Address}
    (h : fromBuffer crypto rawAddress publicKey validateChecksum = .ok (some a)) :
    a.virtualChainId = Hex.encode ((rawAddress.drop 2).take 3) ∧ a.accountId = (rawAddress.drop 5).take 20 ∧
      ∀ k ∈ publicKey, a.accountId = calculateAccountId crypto k := by
  unfold fromBuffer at h
  cases publicKey with
  | none =>
    simp only [ne_eq, not_true_eq_false, if_false] at h
    split at h
    · cases h
    split at h
    · obtain ⟨n, -, h⟩ := bind_eq_ok.1 h
      split at h <;> cases h
      exact ⟨rfl, rfl, nofun⟩
    · cases h
      exact ⟨rfl, rfl, nofun⟩
  | some k =>
    dsimp only at h
    split at h
    · cases h
    split at h
    · cases h
    rename_i hacc
    rw [ne_eq, not_not] at hacc
    have hk : ∀ k' ∈ some k, calculateAccountId crypto k = calculateAccountId crypto k' :=
      fun k' hk => congrArg _ (Option.mem_some.1 hk)
    split at h
    · obtain ⟨n, -, h⟩ := bind_eq_ok.1 h
      split at h <;> cases h
      exact ⟨rfl, hacc, hk⟩
    · cases h
      exact ⟨rfl, hacc, hk⟩

end Address

/-! ## Transaction ids -/

namespace TransactionHelper

variable (crypto : Crypto)

def calculateHash (tx : Transaction) : Bytes :=
  crypto.sha256 <| Utf8.encode <| Val.stableStringify <| .obj
    [("header".toList, .obj
      [("contractAddressBase58".toList, .str (bs58EncodeRawAddress tx.header.contractAddress)),
        ("senderAddressBase58".toList, .str (bs58EncodeRawAddress tx.header.sender)),
        ("timestamp".toList, .str tx.header.timestamp),
        ("version".toList, .ofNat tx.header.version)]),
      ("payload".toList, .str tx.payload)]

end TransactionHelper

def transactionHashToId (hash : Bytes) : Str := Hex.encode hash

def TransactionHelper.calculateTransactionId (crypto : Crypto) (tx : Transaction) : Str :=
  transactionHashToId (calculateHash crypto tx)

end Orbs
