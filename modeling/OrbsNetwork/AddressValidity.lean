import OrbsNetwork.Base58Decode
import OrbsNetwork.TransactionPool
/-!
# AddressValidity — the texts that the native library takes for addresses

`Address::IsValid` takes a text of forty bytes apart: the network id, two characters of version, and base58.  What it
accepts has the body of an address that the class writes, in the only text that the body has; but the version is read as
a number is, so other characters than `00` pass as version 0 (`isText_iff`).
-/
namespace Orbs
namespace ClientSdk

open Js

/-! ## Utils -/

def isSpace (b : UInt8) : Bool := b = 0x20 || 0x09 ≤ b && b ≤ 0x0d

def isDigit (b : UInt8) : Bool := 0x30 ≤ b && b ≤ 0x39

/-- The number that the leading digits write; without one it is zero. -/
def leadingDigits (s : Bytes) : ℤ := (s.takeWhile isDigit).foldl (fun v b => 10 * v + (b.toNat - 0x30)) 0

/-- `FromString<int>`: what `>>` reads after white space, held in the range of an `int`.  At the end of the string
nothing is read, and the result is what was in `value`, which is not initialized. -/
def fromString (value : ℤ) (str : Bytes) : ℤ :=
  match str.dropWhile isSpace with
  | [] => value
  | b :: rest =>
    let v := if b = 0x2d then -leadingDigits rest else if b = 0x2b then leadingDigits rest else leadingDigits (b :: rest)
    max (-2 ^ 31) (min v (2 ^ 31 - 1))

/-- The characters of a string: one for each byte. -/
def chars (s : Bytes) : Str := s.map fun b => Char.ofNat b.toNat

namespace Address

def ACCOUNT_ID_SIZE : ℕ := 20
def CHECKSUM_SIZE : ℕ := 4
def ADDRESS_LENGTH : ℕ := 40

variable (crypto : Crypto)

def isValidVersion (version : UInt8) : Bool := 0 = version

/-- The version that two characters stand for. -/
def readVersion (value : ℤ) (str : Bytes) : UInt8 := UInt8.ofNat (fromString value str % 256).toNat

/-- The checks of `IsValid` after the base58 part is decoded. -/
def isValidBody (networkId version : UInt8) (decoded : Bytes) : Bool :=
  if decoded.length ≠ VIRTUAL_CHAIN_ID_SIZE + ACCOUNT_ID_SIZE + CHECKSUM_SIZE then false
  else if !isValidVirtualChainId (decoded.take VIRTUAL_CHAIN_ID_SIZE) then false
  else
    let rawAddress := [networkId, version] ++ decoded.take (decoded.length - CHECKSUM_SIZE)
    decoded.drop (decoded.length - CHECKSUM_SIZE) = Orbs.Address.uint32BE (crypto.crc32 rawAddress)

/-- `none` is a failed assertion in the base58 loop. -/
def isValid (value : ℤ) (address : Bytes) : Option Bool :=
  if address.length ≠ ADDRESS_LENGTH then some false
  else
    let networkId := address.headD 0
    if !isValidNetworkId networkId then some false
    else
      let version := readVersion value ((address.drop 1).take 2)
      if !isValidVersion version then some false
      else (base58Decode (chars (address.drop 3))).map fun
        | .error _ => false
        | .ok decoded => isValidBody crypto networkId version decoded

/-! ## What the class writes -/

/-- The account id has its size, and the checksum is the one of the bytes before it. -/
structure Complete (a : Address) : Prop where
  accountId_size : a.accountId.length = ACCOUNT_ID_SIZE
  checksum_eq : a.checksum = Orbs.Address.uint32BE (crypto.crc32 ([a.networkId, VERSION] ++ a.virtualChainId ++ a.accountId))

/-- A string that `ToString` writes. -/
def IsText (address : Bytes) : Prop :=
  ∃ a : Address, Complete crypto a ∧ ∃ text, a.toString = .ok text ∧ address = Utf8.encode text

/-- The text of an address, with two characters in the place of the version. -/
def spelt (a : Address) (version : Bytes) : Bytes := a.networkId :: (version ++ Utf8.encode (Base58.encode a.body))

variable {crypto}

theorem ascii_alphabet : ∀ c ∈ Base58.alphabet, c.toNat < 0x80 :=
  List.forall_iff_forall_mem.1 (by decide +kernel)

theorem encode_text (v : Bytes) : Utf8.encode (Base58.encode v) = (Base58.encode v).map fun c => UInt8.ofNat c.toNat :=
  Utf8.encode_eq_map fun c hc => ascii_alphabet c (Base58.encode_mem v c hc)

theorem chars_encode (v : Bytes) : chars (Utf8.encode (Base58.encode v)) = Base58.encode v := by
  rw [encode_text, chars, List.map_map]
  conv_rhs => rw [← List.map_id (Base58.encode v)]
  apply List.map_congr_left
  intro c hc
  have hlt := ascii_alphabet c (Base58.encode_mem v c hc)
  rw [Function.comp_apply, UInt8.toNat_ofNat_of_lt' (Nat.lt_trans hlt (by decide)), Char.ofNat_toNat]
  rfl

theorem toNat_ofNat (b : UInt8) : (Char.ofNat b.toNat).toNat = b.toNat := by
  have h : ∀ n < 256, (Char.ofNat n).toNat = n := by decide +kernel
  exact h b.toNat b.toNat_lt

/-- The bytes of a string from its characters. -/
theorem encode_of_chars {s v : Bytes} (h : chars s = Base58.encode v) : Utf8.encode (Base58.encode v) = s := by
  rw [encode_text, ← h, chars, List.map_map]
  conv_rhs => rw [← List.map_id s]
  apply List.map_congr_left
  intro b _
  rw [Function.comp_apply, toNat_ofNat, UInt8.ofNat_toNat]
  rfl

theorem toString_eq_spelt (a : Address) :
    ∃ text, a.toString = .ok text ∧ Utf8.encode text = a.spelt [0x30, 0x30] := by
  unfold toString
  rw [base58Encode_eq]
  refine ⟨_, rfl, ?_⟩
  have hcons : ∀ s : Str, Utf8.encode (Char.ofNat a.networkId.toNat :: s) = a.networkId :: Utf8.encode s := by
    intro s
    rw [← List.singleton_append, Utf8.encode_append, a.networkId_text.2, List.singleton_append]
  rw [hcons, Utf8.encode_append]
  rfl

theorem isText_iff_spelt {address : Bytes} :
    IsText crypto address ↔ ∃ a : Address, Complete crypto a ∧ address = a.spelt [0x30, 0x30] := by
  constructor
  · rintro ⟨a, ha, text, htext, rfl⟩
    obtain ⟨text', htext', hspelt⟩ := a.toString_eq_spelt
    rw [htext] at htext'
    cases htext'
    exact ⟨a, ha, hspelt⟩
  · rintro ⟨a, ha, rfl⟩
    obtain ⟨text, htext, hspelt⟩ := a.toString_eq_spelt
    exact ⟨a, ha, text, htext, hspelt.symm⟩

/-! ## The length of a text -/

theorem length_text {body : Bytes} (hlen : body.length = 27) (hfirst : VIRTUAL_CHAIN_ID_MSB ≤ body.headD 0) :
    (Base58.encode body).length = 37 := by
  cases body with
  | nil => cases hlen
  | cons b rest =>
    have hb : 8 ≤ b.toNat := hfirst
    have hrest : rest.length = 26 := Nat.succ.inj hlen
    have hne : b ≠ 0 := by
      rintro rfl
      exact absurd hb (by decide)
    apply Base58.length_encode hne
    · rw [hrest]
      calc 58 ^ 36 ≤ 8 * 256 ^ 26 := by norm_num
        _ ≤ b.toNat * 256 ^ 26 := Nat.mul_le_mul_right _ hb
    · rw [hrest]
      norm_num

theorem Complete.length_checksum {a : Address} (h : Complete crypto a) : a.checksum.length = CHECKSUM_SIZE := by
  rw [h.checksum_eq]
  rfl

theorem length_virtualChainId (a : Address) : a.virtualChainId.length = VIRTUAL_CHAIN_ID_SIZE := by
  have h := a.virtualChainId_valid
  unfold isValidVirtualChainId at h
  rw [Bool.and_eq_true, decide_eq_true_eq] at h
  exact h.1

theorem Complete.length_body {a : Address} (h : Complete crypto a) : a.body.length = 27 := by
  unfold body
  rw [List.length_append, List.length_append, a.length_virtualChainId, h.accountId_size, h.length_checksum]
  rfl

theorem Complete.length_text {a : Address} (h : Complete crypto a) : (Base58.encode a.body).length = 37 := by
  apply Address.length_text h.length_body
  have hv := a.virtualChainId_valid
  have hlen := a.length_virtualChainId
  unfold isValidVirtualChainId at hv
  rw [Bool.and_eq_true, decide_eq_true_eq, decide_eq_true_eq] at hv
  unfold body
  cases hc : a.virtualChainId with
  | nil =>
    rw [hc] at hlen
    cases hlen
  | cons b rest =>
    rw [hc] at hv
    exact hv.2

/-! ## What is accepted -/

/-- **The text of a body is its only text**: none of the other texts that decode to it is as long. -/
theorem eq_of_base58Decode {rest decoded : Bytes} (h : base58Decode (chars rest) = some (.ok decoded))
    (hrest : rest.length = 37) (hlen : decoded.length = 27) (hfirst : VIRTUAL_CHAIN_ID_MSB ≤ decoded.headD 0) :
    rest = Utf8.encode (Base58.encode decoded) := by
  by_cases hs : ∀ c ∈ trimSpaces (chars rest), c ∈ Base58.alphabet
  · obtain ⟨bytes, hok, hbytes⟩ := base58Decode_of_mem hs
    rw [h, Option.some.injEq, Except.ok.injEq] at hok
    subst hok
    have hencode := Base58.encode_decode hs hbytes
    have hfull : trimSpaces (chars rest) = chars rest := by
      apply (trimSpaces_sublist _).eq_of_length
      rw [← hencode, length_text hlen hfirst, chars, List.length_map, hrest]
    exact (encode_of_chars (hfull.symm.trans hencode.symm)).symm
  · obtain ⟨e, herror⟩ := base58Decode_of_not_mem hs
    rw [h] at herror
    cases herror

theorem isValidBody_iff {networkId version : UInt8} {decoded : Bytes} :
    isValidBody crypto networkId version decoded = true ↔ decoded.length = 27 ∧
      isValidVirtualChainId (decoded.take 3) = true ∧
      decoded.drop 23 = Orbs.Address.uint32BE (crypto.crc32 ([networkId, version] ++ decoded.take 23)) := by
  unfold isValidBody
  by_cases hlen : decoded.length = 27
  · have hdata : decoded.length - CHECKSUM_SIZE = 23 := by
      rw [hlen]
      rfl
    have hsize : decoded.length = VIRTUAL_CHAIN_ID_SIZE + ACCOUNT_ID_SIZE + CHECKSUM_SIZE := hlen
    rw [if_neg (not_not.2 hsize), hdata]
    by_cases hchain : isValidVirtualChainId (decoded.take 3) = true
    · simp [hlen, hchain, VIRTUAL_CHAIN_ID_SIZE]
    · simp [hchain, VIRTUAL_CHAIN_ID_SIZE]
  · have hsize : decoded.length ≠ VIRTUAL_CHAIN_ID_SIZE + ACCOUNT_ID_SIZE + CHECKSUM_SIZE := hlen
    simp [hlen, hsize]

theorem isValid_eq_true {value : ℤ} {address : Bytes} : isValid crypto value address = some true ↔
    address.length = ADDRESS_LENGTH ∧ isValidNetworkId (address.headD 0) = true ∧
      readVersion value ((address.drop 1).take 2) = VERSION ∧
      ∃ decoded, base58Decode (chars (address.drop 3)) = some (.ok decoded) ∧
        isValidBody crypto (address.headD 0) VERSION decoded = true := by
  unfold isValid
  by_cases hlen : address.length = ADDRESS_LENGTH
  · by_cases hid : isValidNetworkId (address.headD 0) = true
    · by_cases hversion : readVersion value ((address.drop 1).take 2) = VERSION
      · have hvalid : isValidVersion VERSION = true := rfl
        simp only [hlen, hid, hversion, hvalid, true_and, ne_eq, not_true_eq_false, if_false, Bool.not_true,
          Bool.false_eq_true, Option.map_eq_some_iff]
        constructor
        · rintro ⟨r, h, hr⟩
          cases r with
          | error e => cases hr
          | ok decoded => exact ⟨decoded, h, hr⟩
        · rintro ⟨decoded, h, hr⟩
          exact ⟨_, h, hr⟩
      · have hvalid : isValidVersion (readVersion value ((address.drop 1).take 2)) = false := by
          rw [isValidVersion, decide_eq_false_iff_not]
          exact fun h => hversion h.symm
        simp only [hlen, hid, hversion, hvalid, true_and, ne_eq, not_true_eq_false, if_false, if_true, Bool.not_true,
          Bool.not_false, Bool.false_eq_true, Option.some.injEq, false_and]
    · rw [Bool.not_eq_true] at hid
      simp only [hlen, hid, ne_eq, not_true_eq_false, if_false, if_true, Bool.not_false, Bool.false_eq_true,
        Option.some.injEq, false_and, and_false]
  · simp [hlen]

theorem isValid_spelt {a : Address} (ha : Complete crypto a) {value : ℤ} {version : Bytes} (hlen : version.length = 2)
    (hversion : readVersion value version = VERSION) : isValid crypto value (a.spelt version) = some true := by
  have htext : (Utf8.encode (Base58.encode a.body)).length = 37 := by
    rw [encode_text, List.length_map, ha.length_text]
  have htake : ((a.spelt version).drop 1).take 2 = version := by
    unfold spelt
    rw [List.drop_succ_cons, List.drop_zero, ← hlen, List.take_left]
  have hdrop : (a.spelt version).drop 3 = Utf8.encode (Base58.encode a.body) := by
    unfold spelt
    rw [List.drop_succ_cons, ← hlen, List.drop_left]
  have hsize : (a.virtualChainId ++ a.accountId).length = 23 := by
    rw [List.length_append, a.length_virtualChainId, ha.accountId_size]
    rfl
  rw [isValid_eq_true, htake, hdrop, chars_encode, base58Decode_encode]
  refine ⟨?_, a.networkId_valid, hversion, a.body, rfl, ?_⟩
  · unfold spelt
    rw [List.length_cons, List.length_append, hlen, htext]
    rfl
  rw [isValidBody_iff]
  unfold body
  refine ⟨ha.length_body, ?_, ?_⟩
  · rw [List.append_assoc, ← VIRTUAL_CHAIN_ID_SIZE, ← a.length_virtualChainId, List.take_left]
    exact a.virtualChainId_valid
  · rw [← hsize, List.drop_left, List.take_left, ha.checksum_eq, List.append_assoc]
    rfl

/-- **What is accepted**: the text of an address, with any two characters that are read as the version. -/
theorem isValid_iff {value : ℤ} {address : Bytes} : isValid crypto value address = some true ↔
    ∃ a : Address, Complete crypto a ∧ ∃ version : Bytes, version.length = 2 ∧ readVersion value version = VERSION ∧
      address = a.spelt version := by
  constructor
  · intro h
    obtain ⟨hlength, hid, hversion, decoded, hdecode, hdecoded⟩ := isValid_eq_true.1 h
    obtain ⟨networkId, v1, v2, rest, rfl⟩ : ∃ networkId v1 v2 rest, address = networkId :: v1 :: v2 :: rest := by
      match address, hlength with
      | networkId :: v1 :: v2 :: rest, _ => exact ⟨networkId, v1, v2, rest, rfl⟩
    have hrest : rest.length = 37 := Nat.succ.inj (Nat.succ.inj (Nat.succ.inj hlength))
    obtain ⟨hlen, hchain, hchecksum⟩ := isValidBody_iff.1 hdecoded
    have hfirst : VIRTUAL_CHAIN_ID_MSB ≤ decoded.headD 0 := by
      unfold isValidVirtualChainId at hchain
      rw [Bool.and_eq_true, decide_eq_true_eq, decide_eq_true_eq] at hchain
      cases decoded with
      | nil => cases hlen
      | cons b bs => exact hchain.2
    -- No key has to be behind the account id for the text to be one that the class writes.
    let a : Address :=
      { publicKey := List.replicate PUBLIC_KEY_SIZE 0, virtualChainId := decoded.take 3, networkId
        accountId := (decoded.drop 3).take 20, checksum := decoded.drop 23
        publicKey_size := List.length_replicate, virtualChainId_valid := hchain, networkId_valid := hid }
    have hdata : decoded.take 23 = a.virtualChainId ++ a.accountId := List.take_add (i := 3) (j := 20)
    have hbody : a.body = decoded := by
      change a.virtualChainId ++ a.accountId ++ decoded.drop 23 = decoded
      rw [← hdata, List.take_append_drop]
    refine ⟨a, ⟨?_, ?_⟩, [v1, v2], rfl, hversion, ?_⟩
    · change ((decoded.drop 3).take 20).length = 20
      rw [List.length_take, List.length_drop, hlen]
      rfl
    · rw [List.append_assoc, ← hdata]
      exact hchecksum
    · unfold spelt
      rw [hbody, ← eq_of_base58Decode hdecode hrest hlen hfirst]
      rfl
  · rintro ⟨a, ha, version, hlen, hversion, rfl⟩
    exact isValid_spelt ha hlen hversion

theorem version_of_isText {address : Bytes} (h : IsText crypto address) : (address.drop 1).take 2 = [0x30, 0x30] := by
  obtain ⟨a, -, rfl⟩ := isText_iff_spelt.1 h
  rfl

/-- The text of an address with other characters in the place of the version that are read as the version. -/
def Misspelt (crypto : Crypto) (value : ℤ) (address : Bytes) : Prop :=
  ∃ text version : Bytes, IsText crypto text ∧ version.length = 2 ∧ version ≠ [0x30, 0x30] ∧
    readVersion value version = VERSION ∧ address = text.take 1 ++ version ++ text.drop 3

theorem misspelt_iff {value : ℤ} {address : Bytes} : Misspelt crypto value address ↔ ∃ a : Address, Complete crypto a ∧
    ∃ version : Bytes, version.length = 2 ∧ version ≠ [0x30, 0x30] ∧ readVersion value version = VERSION ∧
      address = a.spelt version := by
  constructor
  · rintro ⟨text, version, htext, hlen, hne, hversion, rfl⟩
    obtain ⟨a, ha, rfl⟩ := isText_iff_spelt.1 htext
    exact ⟨a, ha, version, hlen, hne, hversion, rfl⟩
  · rintro ⟨a, ha, version, hlen, hne, hversion, rfl⟩
    exact ⟨_, version, isText_iff_spelt.2 ⟨a, ha, rfl⟩, hlen, hne, hversion, rfl⟩

/-- **What is accepted is a text of the class, unless its version is misspelt.** -/
theorem isText_iff (crypto : Crypto) (value : ℤ) (address : Bytes) :
    (isValid crypto value address = some true → IsText crypto address) ↔ ¬ Misspelt crypto value address := by
  rw [misspelt_iff]
  constructor
  · rintro h ⟨a, ha, version, hlen, hne, hversion, rfl⟩
    apply hne
    have hzeros := version_of_isText (h (isValid_spelt ha hlen hversion))
    unfold spelt at hzeros
    rwa [List.drop_succ_cons, List.drop_zero, ← hlen, List.take_left] at hzeros
  · intro h hvalid
    obtain ⟨a, ha, version, hlen, hversion, rfl⟩ := isValid_iff.1 hvalid
    by_cases hzeros : version = [0x30, 0x30]
    · rw [hzeros]
      exact isText_iff_spelt.2 ⟨a, ha, rfl⟩
    · exact absurd ⟨a, ha, version, hlen, hzeros, hversion, rfl⟩ h

/-- RIPEMD-160 as it is on the key below. -/
def sampleCrypto : Crypto where
  sha256 := Sha256.hash
  ripemd160 _ := Hex.decode "c13052d8208230a58ab363708c08e78f1125f488".toList
  crc32 := TransactionPool.crc32
  verify _ _ _ := .ok true

/-- **Letters in the place of the version are accepted.** -/
theorem isValid_letters :
    isValid sampleCrypto 0 (Utf8.encode "MxxEXMPnnaWFqRyVxWdhYCgGzpnaL4qBy4N3Qqa1".toList) = some true ∧
      ¬ IsText sampleCrypto (Utf8.encode "MxxEXMPnnaWFqRyVxWdhYCgGzpnaL4qBy4N3Qqa1".toList) := by
  refine ⟨by decide +kernel, fun h => ?_⟩
  have hversion := version_of_isText h
  revert hversion
  decide +kernel

/-! ## What the class writes is accepted, and is what the server writes -/

theorem isValidNetworkId_of {networkId : UInt8} (h : networkId = MAIN_NETWORK_ID ∨ networkId = TEST_NETWORK_ID) :
    isValidNetworkId networkId = true := by
  rcases h with rfl | rfl <;> rfl

theorem isValidVirtualChainId_of {virtualChainId : Bytes} (hlen : virtualChainId.length = VIRTUAL_CHAIN_ID_SIZE)
    (hfirst : ∀ b ∈ virtualChainId.head?, VIRTUAL_CHAIN_ID_MSB ≤ b) : isValidVirtualChainId virtualChainId = true := by
  cases virtualChainId with
  | nil => cases hlen
  | cons b rest =>
    unfold isValidVirtualChainId
    rw [Bool.and_eq_true, decide_eq_true_eq, decide_eq_true_eq]
    exact ⟨hlen, hfirst b rfl⟩

variable {publicKey virtualChainId : Bytes} {networkId : UInt8}

theorem init_eq_ok (hp : publicKey.length = PUBLIC_KEY_SIZE) (hv : isValidVirtualChainId virtualChainId = true)
    (hn : isValidNetworkId networkId = true) : ∃ a, init crypto publicKey virtualChainId networkId = .ok a ∧
      a.publicKey = publicKey ∧ a.virtualChainId = virtualChainId ∧ a.networkId = networkId ∧
      a.accountId = crypto.ripemd160 (crypto.sha256 publicKey) ∧
      a.checksum =
        Orbs.Address.uint32BE (crypto.crc32 ([a.networkId, VERSION] ++ a.virtualChainId ++ a.accountId)) := by
  unfold init
  rw [dif_pos hp, dif_pos hv, dif_pos hn]
  exact ⟨_, rfl, rfl, rfl, rfl, rfl, rfl⟩

/-- **Every address that is created is valid.** -/
theorem isValid_created (hp : publicKey.length = PUBLIC_KEY_SIZE) (hlen : virtualChainId.length = VIRTUAL_CHAIN_ID_SIZE)
    (hfirst : ∀ b ∈ virtualChainId.head?, VIRTUAL_CHAIN_ID_MSB ≤ b)
    (hn : networkId = MAIN_NETWORK_ID ∨ networkId = TEST_NETWORK_ID)
    (haccount : (crypto.ripemd160 (crypto.sha256 publicKey)).length = ACCOUNT_ID_SIZE) :
    ∃ a text, init crypto publicKey virtualChainId networkId = .ok a ∧
      a.accountId.length = ACCOUNT_ID_SIZE ∧ a.checksum.length = CHECKSUM_SIZE ∧
      a.toString = .ok text ∧ text.length = ADDRESS_LENGTH ∧
      ∀ value, isValid crypto value (Utf8.encode text) = some true := by
  obtain ⟨a, ha, -, -, -, haccountId, hchecksum⟩ :=
    init_eq_ok hp (isValidVirtualChainId_of hlen hfirst) (isValidNetworkId_of hn)
  have hcomplete : Complete crypto a := ⟨by rw [haccountId, haccount], hchecksum⟩
  obtain ⟨text, htext, hspelt⟩ := a.toString_eq_spelt
  have hlength : text.length = ADDRESS_LENGTH := by
    unfold toString at htext
    rw [base58Encode_eq] at htext
    cases htext
    rw [List.length_cons, List.length_append, hcomplete.length_text]
    rfl
  refine ⟨a, text, ha, hcomplete.accountId_size, hcomplete.length_checksum, htext, hlength, fun value => ?_⟩
  rw [hspelt]
  exact isValid_spelt hcomplete rfl rfl

def sampleKey : Bytes := Hex.decode "8d41d055d00459be37f749da2caf87bd4ced6fafa335b1f2142e0f44501b2c65".toList

theorem isValid_created_sample : ∃ a text, init sampleCrypto sampleKey [0x64, 0x0e, 0xd3] MAIN_NETWORK_ID = .ok a ∧
    a.accountId.length = ACCOUNT_ID_SIZE ∧ a.checksum.length = CHECKSUM_SIZE ∧
    a.toString = .ok text ∧ text.length = ADDRESS_LENGTH ∧
    ∀ value, isValid sampleCrypto value (Utf8.encode text) = some true :=
  isValid_created (by decide +kernel) rfl (by decide +kernel) (.inl rfl) (by decide +kernel)

/-- **The client and the server give an address the same text.** -/
theorem toString_eq_toBase58 {virtualChainId : Str} (hp : publicKey.length = PUBLIC_KEY_SIZE)
    (hlen : (Hex.decode virtualChainId).length = VIRTUAL_CHAIN_ID_SIZE)
    (hfirst : ∀ b ∈ (Hex.decode virtualChainId).head?, VIRTUAL_CHAIN_ID_MSB ≤ b)
    (hn : networkId = MAIN_NETWORK_ID ∨ networkId = TEST_NETWORK_ID) :
    ∃ a, init crypto publicKey (Hex.decode virtualChainId) networkId = .ok a ∧
      a.toString = .ok ((Orbs.Address.ofPublicKey crypto publicKey virtualChainId
        [Char.ofNat networkId.toNat]).toBase58 crypto) := by
  obtain ⟨a, ha, -, hvirtualChainId, hnetworkId, haccountId, hchecksum⟩ :=
    init_eq_ok hp (isValidVirtualChainId_of hlen hfirst) (isValidNetworkId_of hn)
  refine ⟨a, ha, ?_⟩
  have hfull : (Orbs.Address.ofPublicKey crypto publicKey virtualChainId
      [Char.ofNat networkId.toNat]).generateFullAddressNoChecksum =
        [a.networkId, VERSION] ++ a.virtualChainId ++ a.accountId := by
    unfold Orbs.Address.ofPublicKey Orbs.Address.generateFullAddressNoChecksum
    rw [← hnetworkId, a.networkId_text.2, ← hvirtualChainId, haccountId]
    rfl
  rw [toString_eq]
  unfold Orbs.Address.toBase58 Orbs.Address.toBuffer Orbs.Address.checksum
  rw [hfull, ← hchecksum]
  unfold rawAddress body
  simp only [List.append_assoc, List.cons_append, List.nil_append]

theorem toString_eq_toBase58_sample :
    ∃ a, init sampleCrypto sampleKey (Hex.decode "640ed3".toList) TEST_NETWORK_ID = .ok a ∧
      a.toString = .ok ((Orbs.Address.ofPublicKey sampleCrypto sampleKey "640ed3".toList
        [Char.ofNat TEST_NETWORK_ID.toNat]).toBase58 sampleCrypto) :=
  toString_eq_toBase58 (by decide +kernel) (by decide +kernel) (by decide +kernel) (.inr rfl)

end Address
end ClientSdk
end Orbs
