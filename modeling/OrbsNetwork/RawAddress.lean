import OrbsNetwork.Address
import OrbsNetwork.Lib.Sha256
/-!
# RawAddress — which raw addresses are the ones that `toBuffer` writes

`fromBuffer` checks the checksum of the address that it rebuilds, not of the bytes it was given: the version is read and
dropped, bytes after the checksum are never looked at, and a first byte that is no ASCII character comes out of its text
as three others.  So other forms of an address are accepted beside the one that `toBuffer` gives it (`toBuffer_eq_iff`).
-/
namespace Orbs

namespace Address

variable {crypto : Crypto}

/-- Twenty-nine bytes, the first of them ASCII and the second, the version, zero. -/
def Plain (rawAddress : Bytes) : Prop :=
  rawAddress.length = 29 ∧ ∃ b rest, rawAddress = b :: 0 :: rest ∧ b.toNat < 0x80

/-- The one buffer that comes back although its first byte is replaced: it begins with the replacement character. -/
def replaced : Bytes := 0xEF :: 0xBF :: ((List.replicate 14 [0xBD, 0]).flatten ++ [0xBD])

/-! ## What an accepted address is made of -/

theorem uint32BE_of_readUInt32BE {b : Bytes} {offset n : ℕ} (h : readUInt32BE b offset = .ok n) :
    uint32BE n = (b.drop offset).take 4 ∧ offset + 4 ≤ b.length := by
  rw [readUInt32BE] at h
  split at h
  case h_2 => cases h
  rename_i b0 b1 b2 b3 rest hb
  cases h
  have h0 := b0.toNat_lt
  have h1 := b1.toNat_lt
  have h2 := b2.toNat_lt
  have h3 := b3.toNat_lt
  have hlen := congrArg List.length hb
  rw [List.length_drop] at hlen
  simp only [List.length_cons] at hlen
  refine ⟨?_, by omega⟩
  have hbyte : ∀ (m : ℕ) (x : UInt8), m % 256 = x.toNat → UInt8.ofNat m = x := fun m x hm =>
    UInt8.toNat_inj.1 ((UInt8.toNat_ofNat' ).trans hm)
  rw [hb, uint32BE, hbyte _ b0 (by omega), hbyte _ b1 (by omega), hbyte _ b2 (by omega), hbyte _ b3 (by omega)]
  rfl

theorem fromBuffer_checked {rawAddress : Bytes} {publicKey : Option Bytes} {a : Address}
    (h : fromBuffer crypto rawAddress publicKey true = .ok (some a)) :
    a.networkId = Utf8.decode (rawAddress.take 1) ∧ readUInt32BE rawAddress 25 = .ok (a.checksum crypto) := by
  unfold fromBuffer at h
  cases publicKey with
  | none =>
    simp only [ne_eq, not_true_eq_false, if_false] at h
    split at h
    · cases h
    obtain ⟨n, hn, h⟩ := bind_eq_ok.1 h
    split at h <;> cases h
    rename_i hsum
    rw [not_not] at hsum
    exact ⟨rfl, hsum ▸ hn⟩
  | some k =>
    dsimp only at h
    split at h
    · cases h
    split at h
    · cases h
    obtain ⟨n, hn, h⟩ := bind_eq_ok.1 h
    split at h <;> cases h
    rename_i hsum
    rw [ne_eq, not_not] at hsum
    exact ⟨rfl, hsum ▸ hn⟩

/-- **What `toBuffer` gives an accepted address**: the bytes it came from, but for the first byte, the version and the
bytes after the checksum. -/
theorem toBuffer_of_fromBuffer {b version : UInt8} {rest : Bytes} {publicKey : Option Bytes} {a : Address}
    (h : fromBuffer crypto (b :: version :: rest) publicKey true = .ok (some a)) :
    a.toBuffer crypto = Utf8.encode (Utf8.decode [b]) ++ 0 :: rest.take 27 ∧ 27 ≤ rest.length := by
  obtain ⟨hvchain, haccount, -⟩ := fromBuffer_eq_ok h
  obtain ⟨hnetwork, hread⟩ := fromBuffer_checked h
  obtain ⟨hsum, hlen⟩ := uint32BE_of_readUInt32BE hread
  have hsplit : rest.take 27 = rest.take 3 ++ ((rest.drop 3).take 20 ++ (rest.drop 23).take 4) := by
    rw [show 27 = 3 + (20 + 4) from rfl, List.take_add, List.take_add, List.drop_drop]
  refine ⟨?_, by simpa using hlen⟩
  rw [toBuffer, generateFullAddressNoChecksum, hsum, hnetwork, hvchain, haccount, Hex.decode_encode, hsplit]
  simp

/-- A list that is a pair before itself is that pair over and over. -/
theorem eq_repeat {α : Type} {x y : α} : ∀ (n : ℕ) {l : List α}, l = x :: y :: l.take (2 * n + 1) →
    l = (List.replicate (n + 1) [x, y]).flatten ++ [x]
  | 0, l, h => by
    obtain ⟨z, rest, rfl⟩ : ∃ z rest, l = z :: rest := ⟨_, _, h⟩
    rw [List.take_succ_cons, List.take_zero, List.cons.injEq] at h
    rw [h.2, h.1]
    rfl
  | n + 1, l, h => by
    obtain ⟨r, rfl⟩ : ∃ r, l = x :: y :: r := ⟨_, h⟩
    rw [show 2 * (n + 1) + 1 = 2 * n + 1 + 1 + 1 by omega, List.take_succ_cons, List.take_succ_cons, List.cons.injEq,
      List.cons.injEq] at h
    rw [eq_repeat n h.2.2]
    rfl

theorem encode_decode_of_not_ascii {b : UInt8} (hb : ¬ b.toNat < 0x80) :
    Utf8.encode (Utf8.decode [b]) = [0xEF, 0xBF, 0xBD] := by
  rw [Utf8.decode_byte, if_neg hb]
  decide +kernel

/-- **`toBuffer` gives an accepted address its bytes back exactly when they are plain**, or the one other buffer that
comes back; the checksum of that one is not the CRC-32 of its address. -/
theorem toBuffer_eq_iff {rawAddress : Bytes} {publicKey : Option Bytes} {a : Address}
    (h : fromBuffer crypto rawAddress publicKey true = .ok (some a)) :
    a.toBuffer crypto = rawAddress ↔ Plain rawAddress ∨ rawAddress = replaced := by
  obtain ⟨-, hread⟩ := fromBuffer_checked h
  have hlen := (uint32BE_of_readUInt32BE hread).2
  obtain ⟨b, version, rest, rfl⟩ : ∃ b version rest, rawAddress = b :: version :: rest := by
    match rawAddress, hlen with
    | b :: version :: rest, _ => exact ⟨b, version, rest, rfl⟩
  obtain ⟨hbuffer, hrest⟩ := toBuffer_of_fromBuffer h
  rw [hbuffer]
  by_cases hb : b.toNat < 0x80
  · rw [Utf8.decode_byte, if_pos hb, Utf8.encode_ascii hb, List.singleton_append, List.cons.injEq, List.cons.injEq,
      List.take_eq_self_iff]
    constructor
    · rintro ⟨-, rfl, hle⟩
      refine .inl ⟨?_, b, rest, rfl, hb⟩
      rw [List.length_cons, List.length_cons]
      omega
    · rintro (⟨hlen, b', rest', heq, -⟩ | heq)
      · cases heq
        rw [List.length_cons, List.length_cons] at hlen
        exact ⟨rfl, rfl, by omega⟩
      · cases heq
        exact absurd hb (by decide)
  · rw [encode_decode_of_not_ascii hb]
    constructor
    · intro heq
      simp only [List.cons_append, List.nil_append, List.cons.injEq] at heq
      obtain ⟨rfl, rfl, heq⟩ := heq
      have hrep := eq_repeat 13 heq.symm
      exact .inr (by rw [hrep]; rfl)
    · rintro (⟨-, b', rest', heq, hb'⟩ | heq)
      · cases heq
        exact absurd hb' hb
      · cases heq
        rfl

/-! ## One address in two forms -/

/-- A library whose `crc32` is right for the address below. -/
def checksumCrypto : Crypto where
  sha256 := Sha256.hash
  ripemd160 _ := []
  crc32 _ := 0x0b4af4d2
  verify _ _ _ := .ok true

/-- The address of a public key on the virtual chain `640ed3` of the main network, with a version byte. -/
def versioned (version : UInt8) : Bytes :=
  0x4d :: version :: Hex.decode "640ed3c13052d8208230a58ab363708c08e78f1125f4880b4af4d2".toList

def versionedAddress : Address where
  networkId := "M".toList
  virtualChainId := "640ed3".toList
  accountId := Hex.decode "c13052d8208230a58ab363708c08e78f1125f488".toList

theorem fromBuffer_versioned : ∀ version ∈ [(0 : UInt8), 1],
    fromBuffer checksumCrypto (versioned version) none true = .ok (some versionedAddress) := by
  decide +kernel

theorem toBuffer_eq_iff_versioned : versionedAddress.toBuffer checksumCrypto = versioned 0 ↔
    Plain (versioned 0) ∨ versioned 0 = replaced :=
  toBuffer_eq_iff (fromBuffer_versioned 0 (by decide))

/-- **The version byte is not looked at**: the address is accepted with version 1 too, as what it is with version 0, and
its two forms have different texts. -/
theorem versioned_accepted : fromBuffer checksumCrypto (versioned 1) none true = .ok (some versionedAddress) ∧
    fromBuffer checksumCrypto (versioned 0) none true = .ok (some versionedAddress) ∧
    versionedAddress.toBuffer checksumCrypto ≠ versioned 1 ∧
    bs58EncodeRawAddress (versioned 1) ≠ bs58EncodeRawAddress (versioned 0) :=
  ⟨fromBuffer_versioned 1 (by decide), fromBuffer_versioned 0 (by decide), by decide +kernel, by decide +kernel⟩

end Address
end Orbs
