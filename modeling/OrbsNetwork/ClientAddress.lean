import OrbsNetwork.Address
import OrbsNetwork.Lib.Radix
/-!
# ClientAddress — the addresses of the client SDKs

The native library that the JavaScript, the Android and the Python client share: bytes from hexadecimal text, base58
text from bytes, and the class `Address`, which refuses all but the main and the test network, virtual chains from
`080000` on and public keys of 32 bytes.

Its base58 loop writes what `bs58` writes (`encode_eq`), so an address has the text that the server gives its bytes
(`toString_eq`).
-/
namespace Orbs
namespace ClientSdk

open Js

/-! ## Base58 -/

/-- The inner loop: one byte into the digits, least significant first.  It goes on while there are digits below `high`
or a carry, and returns where it stopped; `none` is a carry past the end of the buffer. -/
def addByte : ℕ → ℕ → List ℕ → Option (List ℕ × ℕ)
  | _, carry, [] => if carry = 0 then some ([], 0) else none
  | high, carry, d :: ds =>
    if high = 0 ∧ carry = 0 then some (d :: ds, 0)
    else (addByte (high - 1) ((carry + 256 * d) / 58) ds).map fun r => ((carry + 256 * d) % 58 :: r.1, r.2 + 1)

/-- The size is computed in single precision, which makes no difference for fewer than `2 ^ 16` bytes. -/
def bufferSize (bytes : ℕ) : ℕ := bytes * 138 / 100 + 1

def base58Encode (data : Bytes) : Option Str :=
  if data = [] then some []
  else
    let zeroes := (data.takeWhile (· == 0)).length
    let buf := List.replicate (bufferSize (data.length - zeroes)) 0
    ((data.drop zeroes).foldlM (fun s b => addByte s.2 b.toNat s.1) (buf, 0)).map fun s =>
      List.replicate zeroes '1' ++ (s.1.reverse.dropWhile (· == 0)).map fun d => Base58.alphabet.getD d '1'

/-- The digits of `value` in a buffer; from `high` on they are zero. -/
structure Holds (size value : ℕ) (s : List ℕ × ℕ) : Prop where
  length : s.1.length = size
  digits : ∀ d ∈ s.1, d < 58
  zeros : ∀ d ∈ s.1.drop s.2, d = 0
  value : Nat.ofDigits 58 s.1 = value

theorem holds_iff {size value : ℕ} {s : List ℕ × ℕ} : Holds size value s ↔ Radix.Holds 58 size value s :=
  ⟨fun ⟨h1, h2, h3, h4⟩ => ⟨h1, h2, h3, h4⟩, fun ⟨h1, h2, h3, h4⟩ => ⟨h1, h2, h3, h4⟩⟩

theorem addByte_eq : addByte = Radix.mulAdd 256 58 := by
  funext high carry ds
  induction ds generalizing high carry with
  | nil => rfl
  | cons d ds ih =>
    unfold addByte Radix.mulAdd
    rw [ih]

theorem foldlM_addByte {size : ℕ} (data : Bytes) {s : List ℕ × ℕ} {value : ℕ} (h : Holds size value s)
    (hroom : data.foldl (fun v b => b.toNat + 256 * v) value < 58 ^ size) :
    ∃ s', data.foldlM (fun s b => addByte s.2 b.toNat s.1) s = some s' ∧
      Holds size (data.foldl (fun v b => b.toNat + 256 * v) value) s' := by
  have hfold : data.foldl (fun v b => b.toNat + 256 * v) value =
      (data.map UInt8.toNat).foldl (fun v d => d + 256 * v) value := by
    rw [List.foldl_map]
  rw [hfold] at hroom ⊢
  obtain ⟨s', hs', hholds⟩ := Radix.foldlM_mulAdd (by decide) (by decide) (data.map UInt8.toNat) (holds_iff.1 h) hroom
  refine ⟨s', ?_, holds_iff.2 hholds⟩
  rw [List.foldlM_map] at hs'
  rwa [addByte_eq]

theorem foldl_eq_ofDigitsBE (data : Bytes) :
    data.foldl (fun v b => b.toNat + 256 * v) 0 = Base58.ofDigitsBE 256 (data.map UInt8.toNat) := by
  rw [← Radix.foldl_eq_ofDigitsBE, List.foldl_map]

theorem ofDigitsBE_lt (data : Bytes) : Base58.ofDigitsBE 256 (data.map UInt8.toNat) < 256 ^ data.length := by
  have h := Base58.ofDigitsBE_lt (by decide) (Base58.toNat_lt_256 data)
  rwa [List.length_map] at h

theorem pow_lt_bufferSize (n : ℕ) : 256 ^ n < 58 ^ bufferSize n :=
  Radix.pow_lt_pow_of_ratio (by decide) (by decide) (by norm_num : 256 ^ 100 ≤ 58 ^ 138) n

/-- **The loops write what the standard encoding is.** -/
theorem base58Encode_eq (data : Bytes) : base58Encode data = some (Base58.encode data) := by
  unfold base58Encode
  split
  · rename_i hnil
    rw [hnil]
    rfl
  dsimp only
  have hdata := Base58.replicate_append_dropWhile 0 data
  have hdrop : data.drop (data.takeWhile (· == 0)).length = data.dropWhile (· == 0) := by
    have h : (data.takeWhile (· == 0) ++ data.dropWhile (· == 0)).drop (data.takeWhile (· == 0)).length =
        data.dropWhile (· == 0) := List.drop_left
    rwa [List.takeWhile_append_dropWhile] at h
  have hlength : data.length - (data.takeWhile (· == 0)).length = (data.dropWhile (· == 0)).length := by
    rw [← hdrop, List.length_drop]
  have hvalue : Base58.ofDigitsBE 256 (data.map UInt8.toNat) =
      Base58.ofDigitsBE 256 ((data.dropWhile (· == 0)).map UInt8.toNat) := by
    conv_lhs => rw [← hdata, List.map_append, List.map_replicate]
    exact Base58.ofDigitsBE_replicate_zero 256 _ _
  rw [hdrop, hlength]
  have hstart : Holds (bufferSize (data.dropWhile (· == 0)).length) 0
      (List.replicate (bufferSize (data.dropWhile (· == 0)).length) 0, 0) :=
    holds_iff.2 (Radix.holds_replicate (by decide) _)
  have hroom : (data.dropWhile (· == 0)).foldl (fun v b => b.toNat + 256 * v) 0 <
      58 ^ bufferSize (data.dropWhile (· == 0)).length := by
    rw [foldl_eq_ofDigitsBE]
    exact (ofDigitsBE_lt _).trans (pow_lt_bufferSize _)
  obtain ⟨s, hs, hholds⟩ := foldlM_addByte _ hstart hroom
  rw [hs, Option.map_some]
  have hdigits : s.1.reverse.dropWhile (· == 0) = Base58.digitsBE 58 (Base58.ofDigitsBE 256 (data.map UInt8.toNat)) := by
    rw [hvalue, ← foldl_eq_ofDigitsBE]
    exact (holds_iff.1 hholds).digitsBE (by decide)
  rw [hdigits]
  rfl

/-! ## Address -/

def MAIN_NETWORK_ID : UInt8 := 0x4d
def TEST_NETWORK_ID : UInt8 := 0x54
def VERSION : UInt8 := 0
def PUBLIC_KEY_SIZE : ℕ := 32
def VIRTUAL_CHAIN_ID_SIZE : ℕ := 3
def VIRTUAL_CHAIN_ID_MSB : UInt8 := 0x08

def isValidNetworkId (networkId : UInt8) : Bool := MAIN_NETWORK_ID = networkId || TEST_NETWORK_ID = networkId

def isValidVirtualChainId (virtualChainId : Bytes) : Bool :=
  virtualChainId.length = VIRTUAL_CHAIN_ID_SIZE && VIRTUAL_CHAIN_ID_MSB ≤ virtualChainId.headD 0

/-- An address that the constructor lets through. -/
structure Address where
  publicKey : Bytes
  virtualChainId : Bytes
  networkId : UInt8
  accountId : Bytes
  checksum : Bytes
  publicKey_size : publicKey.length = PUBLIC_KEY_SIZE
  virtualChainId_valid : isValidVirtualChainId virtualChainId = true
  networkId_valid : isValidNetworkId networkId = true

namespace Address

variable (crypto : Crypto)

def init (publicKey virtualChainId : Bytes) (networkId : UInt8) : Except Str Address :=
  if hp : publicKey.length = PUBLIC_KEY_SIZE then
    if hv : isValidVirtualChainId virtualChainId = true then
      if hn : isValidNetworkId networkId = true then
        let accountId := crypto.ripemd160 (crypto.sha256 publicKey)
        .ok { publicKey, virtualChainId, networkId, accountId
              checksum := Orbs.Address.uint32BE (crypto.crc32 ([networkId, VERSION] ++ virtualChainId ++ accountId))
              publicKey_size := hp, virtualChainId_valid := hv, networkId_valid := hn }
      else .error ("Invalid network ID: ".toList ++ [Char.ofNat networkId.toNat])
    else .error ("Invalid virtual chain ID: ".toList ++ Hex.encode virtualChainId)
  else .error ("Invalid public key length: ".toList ++ Nat.toDigits 10 publicKey.length)

def body (a : Address) : Bytes := a.virtualChainId ++ a.accountId ++ a.checksum

/-- An assertion in the base58 loop may fail. -/
def toString (a : Address) : Except Str Str :=
  match base58Encode a.body with
  | some text => .ok (Char.ofNat a.networkId.toNat :: (Hex.byte VERSION ++ text))
  | none => .error "Assertion failed: (carry == 0)".toList

def rawAddress (a : Address) : Bytes := a.networkId :: VERSION :: a.body

theorem networkId_cases (a : Address) : a.networkId = MAIN_NETWORK_ID ∨ a.networkId = TEST_NETWORK_ID := by
  have h := a.networkId_valid
  unfold isValidNetworkId at h
  rw [Bool.or_eq_true, decide_eq_true_eq, decide_eq_true_eq] at h
  exact h.imp Eq.symm Eq.symm

theorem networkId_text (a : Address) : Utf8.decode [a.networkId] = [Char.ofNat a.networkId.toNat] ∧
    Utf8.encode [Char.ofNat a.networkId.toNat] = [a.networkId] := by
  rcases a.networkId_cases with h | h
  · rw [h]
    exact ⟨Utf8.decode_encode ['M'], rfl⟩
  · rw [h]
    exact ⟨Utf8.decode_encode ['T'], rfl⟩

/-- **An address has the text that the server gives to its bytes.** -/
theorem toString_eq (a : Address) : a.toString = .ok (bs58EncodeRawAddress a.rawAddress) := by
  unfold toString
  rw [base58Encode_eq]
  unfold bs58EncodeRawAddress rawAddress
  rw [List.take_succ_cons, List.take_zero, a.networkId_text.1]
  rfl

/-- **The server reads the bytes back from the text.** -/
theorem bs58DecodeRawAddress_toString (a : Address) :
    bs58DecodeRawAddress (bs58EncodeRawAddress a.rawAddress) = some a.rawAddress := by
  have htext : bs58EncodeRawAddress a.rawAddress =
      Char.ofNat a.networkId.toNat :: '0' :: '0' :: Base58.encode a.body := by
    unfold bs58EncodeRawAddress rawAddress
    rw [List.take_succ_cons, List.take_zero, a.networkId_text.1]
    rfl
  rw [htext]
  change (Base58.decode (Base58.encode a.body)).map
    (fun rest => Utf8.encode [Char.ofNat a.networkId.toNat] ++ [VERSION] ++ rest) = _
  rw [Base58.decode_encode, a.networkId_text.2]
  rfl

end Address
end ClientSdk
end Orbs
