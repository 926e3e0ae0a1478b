import OrbsNetwork.Address
import OrbsNetwork.Lib.JsCanonical
import OrbsNetwork.Lib.Sha256
/-!
# TransactionId — which transactions an id identifies

The id is the hash of a canonical text, and the text has everything of the header and the payload; but of an address it
has the base58 form, whose first character is the first byte read as UTF-8.  All bytes from `0x80` on read as one and
the same character there, so a transaction shares its id with others exactly when one of its addresses begins with such
a byte (`identified_iff`).
-/
namespace Orbs

open Js

/-- A transaction as it comes off the wire. -/
abbrev WireTransaction := { tx : Transaction // tx.header.version < 2 ^ 32 }

/-- The address is empty or begins with an ASCII byte. -/
def AsciiAddress (rawAddress : Bytes) : Prop := ∀ b ∈ rawAddress.head?, b.toNat < 0x80

theorem asciiAddress_cons {b : UInt8} (hb : b.toNat < 0x80) (rest : Bytes) : AsciiAddress (b :: rest) := by
  intro b' hb'
  cases hb'
  exact hb

theorem bs58EncodeRawAddress_replaced {b c : UInt8} (hb : ¬ b.toNat < 0x80) (hc : ¬ c.toNat < 0x80) (rest : Bytes) :
    bs58EncodeRawAddress (b :: rest) = bs58EncodeRawAddress (c :: rest) := by
  simp only [bs58EncodeRawAddress, List.take_succ_cons, List.take_zero, List.drop_succ_cons, Utf8.decode_byte,
    if_neg hb, if_neg hc]

/-- **An address shares its text with another one exactly when it does not begin with an ASCII byte.** -/
theorem asciiAddress_iff (rawAddress : Bytes) : AsciiAddress rawAddress ↔
    ∀ other, bs58EncodeRawAddress rawAddress = bs58EncodeRawAddress other → rawAddress = other := by
  cases rawAddress with
  | nil =>
    refine iff_of_true nofun fun other h => ?_
    cases other with
    | nil => rfl
    | cons b rest =>
      obtain ⟨text, -, htext⟩ := bs58EncodeRawAddress_cons b rest
      rw [bs58EncodeRawAddress_nil, htext] at h
      cases h
  | cons b rest =>
    constructor
    · intro hb other h
      have hb : b.toNat < 0x80 := hb b rfl
      have hdec := (bs58DecodeRawAddress_encode_iff b rest).2 hb
      cases other with
      | nil =>
        rw [h, bs58EncodeRawAddress_nil, bs58DecodeRawAddress_nil, Option.some.injEq] at hdec
        exact hdec.symm
      | cons c rest' =>
        by_cases hc : c.toNat < 0x80
        · rw [h, (bs58DecodeRawAddress_encode_iff c rest').2 hc, Option.some.injEq] at hdec
          exact hdec.symm
        · obtain ⟨text, -, htext⟩ := bs58EncodeRawAddress_cons b rest
          obtain ⟨text', -, htext'⟩ := bs58EncodeRawAddress_cons c rest'
          rw [htext, htext', if_pos hb, if_neg hc, List.cons.injEq] at h
          exact absurd h.1 (Utf8.ofNat_ne_replacement hb)
    · intro h b' hb'
      cases hb'
      by_contra hb
      obtain ⟨c, hc, hne⟩ : ∃ c : UInt8, ¬ c.toNat < 0x80 ∧ b ≠ c := by
        by_cases hb80 : b = 0x80
        · exact ⟨0x81, by decide, by rw [hb80]; decide⟩
        · exact ⟨0x80, by decide, hb80⟩
      have heq := h (c :: rest) (bs58EncodeRawAddress_replaced hb hc rest)
      exact hne (List.cons.inj heq).1

/-! ## The hashed text -/

namespace TransactionHelper

/-- The object that `calculateHash` stringifies: the addresses' texts, the timestamp, the version and the payload. -/
def hashedCodec : Codec ((Str × Str × Str × ℕ × Unit) × Str × Unit) :=
  .record (.cons "header".toList
      (.record (.cons "contractAddressBase58".toList .str <| .cons "senderAddressBase58".toList .str <|
        .cons "timestamp".toList .str <| .cons "version".toList .nat .nil) id id (fun _ => rfl) (by decide) (by decide)) <|
    .cons "payload".toList .str .nil) id id (fun _ => rfl) (by decide) (by decide)

theorem canonical_hashedCodec : hashedCodec.Canonical :=
  .record (.cons (by decide)
      (.record (.cons (by decide) .str <| .cons (by decide) .str <| .cons (by decide) .str <|
        .cons (by decide) .nat .nil) _ _ _) <|
    .cons (by decide) .str .nil) _ _ _

def hashedFields (tx : Transaction) : (Str × Str × Str × ℕ × Unit) × Str × Unit :=
  ((bs58EncodeRawAddress tx.header.contractAddress, bs58EncodeRawAddress tx.header.sender, tx.header.timestamp,
    tx.header.version, ()), tx.payload, ())

def hashedBytes (tx : Transaction) : Bytes := Utf8.encode (hashedCodec.enc (hashedFields tx)).stableStringify

theorem calculateHash_eq (crypto : Crypto) (tx : Transaction) :
    calculateHash crypto tx = crypto.sha256 (hashedBytes tx) := rfl

theorem inRange_hashedFields (tx : WireTransaction) : hashedCodec.InRange (hashedFields tx.1) := by
  have hv : tx.1.header.version ≤ 2 ^ 53 := by
    have := tx.2
    omega
  exact ⟨⟨trivial, trivial, trivial, hv, trivial⟩, trivial, trivial⟩

/-- **The hashed bytes say everything but what the texts of the addresses leave out.** -/
theorem hashedFields_of_hashedBytes {tx tx' : WireTransaction} (h : hashedBytes tx.1 = hashedBytes tx'.1) :
    hashedFields tx.1 = hashedFields tx'.1 :=
  canonical_hashedCodec.stableStringify_inj (inRange_hashedFields tx) (inRange_hashedFields tx') (Utf8.encode_injective h)

/-- No transaction with another header or payload has this transaction's id. -/
def Identified (crypto : Crypto) (tx : WireTransaction) : Prop :=
  ∀ tx' : WireTransaction, calculateTransactionId crypto tx.1 = calculateTransactionId crypto tx'.1 →
    tx.1.header = tx'.1.header ∧ tx.1.payload = tx'.1.payload

theorem calculateTransactionId_congr {crypto : Crypto} {tx tx' : Transaction} (h : hashedFields tx = hashedFields tx') :
    calculateTransactionId crypto tx = calculateTransactionId crypto tx' := by
  rw [calculateTransactionId, calculateTransactionId, calculateHash_eq, calculateHash_eq, hashedBytes, hashedBytes, h]

/-- **A transaction is identified by its id exactly when neither of its addresses begins with a byte from `0x80` on.** -/
theorem identified_iff (crypto : Crypto) (hsha : Function.Injective crypto.sha256) (tx : WireTransaction) :
    Identified crypto tx ↔ AsciiAddress tx.1.header.sender ∧ AsciiAddress tx.1.header.contractAddress := by
  constructor
  · intro h
    refine ⟨(asciiAddress_iff _).2 fun other heq => ?_, (asciiAddress_iff _).2 fun other heq => ?_⟩
    · obtain ⟨⟨header, payload, signatureData⟩, hv⟩ := tx
      have hid := h ⟨⟨{ header with sender := other }, payload, signatureData⟩, hv⟩
        (calculateTransactionId_congr (by simp only [hashedFields, heq]))
      exact congrArg TransactionHeader.sender hid.1
    · obtain ⟨⟨header, payload, signatureData⟩, hv⟩ := tx
      have hid := h ⟨⟨{ header with contractAddress := other }, payload, signatureData⟩, hv⟩
        (calculateTransactionId_congr (by simp only [hashedFields, heq]))
      exact congrArg TransactionHeader.contractAddress hid.1
  · rintro ⟨hsender, hcontract⟩ tx' hid
    have hbytes := hsha (Hex.encode_injective hid)
    have hfields := hashedFields_of_hashedBytes hbytes
    simp only [hashedFields, Prod.mk.injEq, and_true] at hfields
    obtain ⟨⟨hc, hs, ht, hv⟩, hp⟩ := hfields
    refine ⟨?_, hp⟩
    rw [TransactionHeader.mk.injEq]
    exact ⟨hv, (asciiAddress_iff _).1 hsender _ hs, ht, (asciiAddress_iff _).1 hcontract _ hc⟩

/-- A transfer from a sender to a contract. -/
def transferFrom (sender : Bytes) : WireTransaction where
  val := { header := { version := 0, sender, timestamp := "1530000000000".toList, contractAddress := [0x54, 0, 0] }
           payload := "transfer".toList, signatureData := none }
  property := Nat.two_pow_pos 32

/-- SHA-256 on the bytes of one transaction, and one-to-one. -/
def cryptoOn (tx : WireTransaction) : Crypto where
  sha256 := Equiv.swap (hashedBytes tx.1) (Sha256.hash (hashedBytes tx.1))
  ripemd160 _ := []
  crc32 _ := 0
  verify _ _ _ := .ok true

theorem identified_transfer : Identified (cryptoOn (transferFrom [0x54, 0])) (transferFrom [0x54, 0]) :=
  (identified_iff _ (Equiv.injective _) _).2 ⟨asciiAddress_cons (by decide) _, asciiAddress_cons (by decide) _⟩

/-- **Transfers share their id when the first bytes of their senders are no ASCII characters.** -/
theorem transfers_share_id : Function.Injective (cryptoOn (transferFrom [0x80, 0])).sha256 ∧
    calculateTransactionId (cryptoOn (transferFrom [0x80, 0])) (transferFrom [0x80, 0]).1 =
      calculateTransactionId (cryptoOn (transferFrom [0x80, 0])) (transferFrom [0x81, 0]).1 ∧
    (transferFrom [0x80, 0]).1.header ≠ (transferFrom [0x81, 0]).1.header := by
  refine ⟨Equiv.injective _, calculateTransactionId_congr ?_, by decide⟩
  have htext : bs58EncodeRawAddress [0x80, 0] = bs58EncodeRawAddress [0x81, 0] :=
    bs58EncodeRawAddress_replaced (by decide) (by decide) [0]
  simp only [hashedFields, transferFrom, htext]

end TransactionHelper
end Orbs
