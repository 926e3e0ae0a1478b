import OrbsNetwork.OrbsClient
import OrbsNetwork.Lib.JsonWriter
/-!
# ClientRequests — the text that each client signs

The Android client writes the fields with Gson, the Python client with `json.dumps`; the JavaScript client and the
server with json-stable-stringify.  The addresses, the timestamp and the keys have no character that any of them
escapes.  A payload has the same text for all of them exactly if it keeps to the printable ASCII characters and the
control characters, without the five that Gson escapes for HTML (`sameText_iff`).
-/
namespace Orbs
namespace ClientRequests

open Js

/-- The time value of a `Date`, in milliseconds, which all clients take from the clock. -/
abbrev Timestamp := { t : ℤ // |t| ≤ 8640000000000000 }

/-! ## Escapes -/

/-- `\uXXXX` of a code unit. -/
def unicodeEscape (n : ℕ) : Str :=
  ['\\', 'u', Nat.digitChar (n / 4096 % 16), Nat.digitChar (n / 256 % 16), Nat.digitChar (n / 16 % 16),
    Nat.digitChar (n % 16)]

/-- `htmlSafe`, the default of Gson, escapes the first five; the two line separators are escaped always. -/
def gsonEscaped (c : Char) : Bool := "<>&='".toList.contains c || c.toNat = 0x2028 || c.toNat = 0x2029

def gsonEscape (c : Char) : Str := if gsonEscaped c then unicodeEscape c.toNat else Json.escape c

/-- `ensure_ascii`, the default of `json.dumps`: all but the characters from space to `~`, as code units. -/
def pythonEscape (c : Char) : Str :=
  if c.toNat ≤ 0x7e then Json.escape c
  else if c.toNat < 0x10000 then unicodeEscape c.toNat
  else unicodeEscape (0xd800 + (c.toNat - 0x10000) / 0x400) ++ unicodeEscape (0xdc00 + (c.toNat - 0x10000) % 0x400)

/-! ## Texts -/

/-- `generateTransactionRequest` of the Android client, with the fields in the order of
`OrbsStableTransactionRequestSerializer`. -/
def androidText (senderAddress contractAddress : ClientSdk.Address) (payload : Str) (timestamp : Timestamp) :
    Except Str Str := do
  let header := Json.obj
    [("contractAddressBase58".toList, .str (← contractAddress.toString)),
      ("senderAddressBase58".toList, .str (← senderAddress.toString)),
      ("timestamp".toList, .str (Number.decimal timestamp)),
      ("version".toList, .num (.ofNat 0))]
  return Json.write gsonEscape (.obj [("header".toList, header), ("payload".toList, .str payload)])

/-- `generate_transaction_request` of the Python client, with `sort_keys`. -/
def pythonText (senderAddress contractAddress : ClientSdk.Address) (payload : Str) (timestamp : Timestamp) :
    Except Str Str := do
  let header := Json.obj
    [("version".toList, .num (.ofNat 0)),
      ("senderAddressBase58".toList, .str (← senderAddress.toString)),
      ("timestamp".toList, .str (Number.decimal timestamp)),
      ("contractAddressBase58".toList, .str (← contractAddress.toString))]
  return Json.write pythonEscape (Val.sortKeys (.obj [("header".toList, header), ("payload".toList, .str payload)]))

/-- The JavaScript client at that time. -/
def javaScriptText (senderAddress contractAddress : ClientSdk.Address) (payload : Str) (timestamp : Timestamp) :
    Except Str Str :=
  OrbsClient.hashedText senderAddress contractAddress payload (.ofRat (timestamp : ℤ))

/-- `TransactionHelper.calculateHash` on the transaction with these fields. -/
def serverText (senderAddress contractAddress : ClientSdk.Address) (payload : Str) (timestamp : Timestamp)
    (signatureData : Option TransactionSignatureData) : Except Str Str :=
  TransactionAdmission.hashedText <| Transaction.codec.enc
    { header := { version := 0, sender := senderAddress.rawAddress, timestamp := Number.decimal timestamp
                  contractAddress := contractAddress.rawAddress }
      payload, signatureData }

/-- The fields in the order of their names. -/
def requestJson (contractAddressBase58 senderAddressBase58 timestamp payload : Str) : Json := .obj
  [("header".toList, .obj
    [("contractAddressBase58".toList, .str contractAddressBase58),
      ("senderAddressBase58".toList, .str senderAddressBase58),
      ("timestamp".toList, .str timestamp), ("version".toList, .num (.ofNat 0))]),
    ("payload".toList, .str payload)]

def textBy (escape : Char → Str) (senderAddress contractAddress : ClientSdk.Address) (payload : Str)
    (timestamp : Timestamp) : Str :=
  Json.write escape (requestJson (bs58EncodeRawAddress contractAddress.rawAddress)
    (bs58EncodeRawAddress senderAddress.rawAddress) (Number.decimal timestamp) payload)

section
variable (senderAddress contractAddress : ClientSdk.Address) (payload : Str) (timestamp : Timestamp)

theorem androidText_eq : androidText senderAddress contractAddress payload timestamp =
    .ok (textBy gsonEscape senderAddress contractAddress payload timestamp) := by
  unfold androidText
  rw [senderAddress.toString_eq, contractAddress.toString_eq]
  rfl

theorem pythonText_eq : pythonText senderAddress contractAddress payload timestamp =
    .ok (textBy pythonEscape senderAddress contractAddress payload timestamp) := by
  unfold pythonText
  rw [senderAddress.toString_eq, contractAddress.toString_eq]
  rfl

theorem stableStringify_requestHeader (senderAddressBase58 contractAddressBase58 time : Str) :
    Val.stableStringify (.obj [("header".toList, OrbsClient.requestHeader senderAddressBase58 contractAddressBase58 time),
      ("payload".toList, .str payload)]) =
        Json.write Json.escape (requestJson contractAddressBase58 senderAddressBase58 time payload) := by
  rw [Json.write_escape]
  rfl

theorem javaScriptText_eq : javaScriptText senderAddress contractAddress payload timestamp =
    .ok (textBy Json.escape senderAddress contractAddress payload timestamp) := by
  have htime : (Number.ofRat (timestamp : ℤ)).toString = Number.decimal timestamp :=
    Number.toString_intCast (timestamp.2.trans (by norm_num))
  unfold javaScriptText
  rw [OrbsClient.hashedText_eq, htime, stableStringify_requestHeader]
  rfl

theorem serverText_eq (signatureData : Option TransactionSignatureData) :
    serverText senderAddress contractAddress payload timestamp signatureData =
      .ok (textBy Json.escape senderAddress contractAddress payload timestamp) := by
  unfold textBy
  rw [Json.write_escape]
  rfl

end

/-! ## Characters that no client escapes -/

/-- The characters of the keys, the addresses and the timestamps. -/
def isPlain (c : Char) : Bool := c.isAlphanum || c = '-'

/-- A writer that keeps the plain characters. -/
def KeepsPlain (escape : Char → Str) : Prop := ∀ c, isPlain c = true → escape c = [c]

theorem toNat_lt_of_isPlain {c : Char} (h : isPlain c = true) : c.toNat < 128 := by
  change ((decide (c.val ≥ 'A'.val ∧ c.val ≤ 'Z'.val) || (decide (c.val ≥ 'a'.val) && decide (c.val ≤ 'z'.val))) ||
    (decide (c.val ≥ '0'.val) && decide (c.val ≤ '9'.val)) || decide (c = '-')) = true at h
  simp only [Bool.or_eq_true, Bool.and_eq_true, decide_eq_true_eq, ge_iff_le, UInt32.le_iff_toNat_le] at h
  rcases h with ((h | h) | h) | rfl
  · exact h.2.trans_lt (by decide)
  · exact h.2.trans_lt (by decide)
  · exact h.2.trans_lt (by decide)
  · decide

theorem keepsPlain_of_ascii {escape : Char → Str}
    (h : ∀ n < 128, isPlain (Char.ofNat n) = true → escape (Char.ofNat n) = [Char.ofNat n]) : KeepsPlain escape := by
  intro c hc
  have hn := h c.toNat (toNat_lt_of_isPlain hc)
  rw [Char.ofNat_toNat] at hn
  exact hn hc

theorem keepsPlain_escape : KeepsPlain Json.escape := keepsPlain_of_ascii (by decide +kernel)

theorem keepsPlain_gsonEscape : KeepsPlain gsonEscape := keepsPlain_of_ascii (by decide +kernel)

theorem keepsPlain_pythonEscape : KeepsPlain pythonEscape := keepsPlain_of_ascii (by decide +kernel)

theorem isPlain_address (a : ClientSdk.Address) : ∀ c ∈ bs58EncodeRawAddress a.rawAddress, isPlain c = true := by
  have hid : isPlain 'M' = true ∧ isPlain 'T' = true := by decide
  have hversion : (Hex.encode [ClientSdk.VERSION]).all isPlain = true := by decide +kernel
  have halphabet : Base58.alphabet.all isPlain = true := by decide +kernel
  rw [List.all_eq_true] at hversion halphabet
  intro c hc
  unfold bs58EncodeRawAddress ClientSdk.Address.rawAddress at hc
  rw [List.take_succ_cons, List.take_zero, a.networkId_text.1] at hc
  rcases List.mem_append.1 hc with hc | hc
  · rcases List.mem_append.1 hc with hc | hc
    · rw [List.mem_singleton.1 hc]
      rcases a.networkId_cases with h | h
      · rw [h]
        exact hid.1
      · rw [h]
        exact hid.2
    · exact hversion c hc
  · exact halphabet c (Base58.encode_mem _ c hc)

theorem isPlain_decimal (t : ℤ) : ∀ c ∈ Number.decimal t, isPlain c = true := by
  have hdigits : ∀ c ∈ Nat.toDigits 10 t.natAbs, isPlain c = true := by
    intro c hc
    have hdigit := Number.toDigits_isDigit _ c hc
    unfold isPlain Char.isAlphanum
    rw [hdigit, Bool.or_true, Bool.true_or]
  intro c hc
  unfold Number.decimal at hc
  split at hc
  · rcases List.mem_cons.1 hc with rfl | hc
    · rfl
    · exact hdigits c hc
  · exact hdigits c hc

/-! ## Payloads -/

theorem textBy_eq_iff {e f : Char → Str} (he : KeepsPlain e) (hf : KeepsPlain f)
    (senderAddress contractAddress : ClientSdk.Address) (payload : Str) (timestamp : Timestamp) :
    textBy e senderAddress contractAddress payload timestamp = textBy f senderAddress contractAddress payload timestamp ↔
      payload.flatMap e = payload.flatMap f := by
  have hkept : ∀ s : Str, (∀ c ∈ s, isPlain c = true) → s.flatMap e = s ∧ s.flatMap f = s :=
    fun s hs => ⟨Json.flatMap_of_kept fun c hc => he c (hs c hc), Json.flatMap_of_kept fun c hc => hf c (hs c hc)⟩
  have hname : ∀ s : Str, s.all isPlain = true → s.flatMap e = s ∧ s.flatMap f = s :=
    fun s hs => hkept s (List.all_eq_true.1 hs)
  have hheader := hname "header".toList (by decide)
  have hpayload := hname "payload".toList (by decide)
  have hcontract := hname "contractAddressBase58".toList (by decide)
  have hsender := hname "senderAddressBase58".toList (by decide)
  have htime := hname "timestamp".toList (by decide)
  have hversion := hname "version".toList (by decide)
  have hcontractText := hkept _ (isPlain_address contractAddress)
  have hsenderText := hkept _ (isPlain_address senderAddress)
  have htimeText := hkept _ (isPlain_decimal timestamp)
  unfold textBy requestJson
  simp only [Json.write, Json.writeMembers, Json.writeString, hheader, hpayload, hcontract, hsender, htime, hversion,
    hcontractText, hsenderText, htimeText, List.cons.injEq, true_and, List.append_cancel_left_eq,
    List.append_cancel_right_eq, List.cons_append, List.append_assoc]

theorem escape_of_printable {c : Char} (h32 : 32 ≤ c.toNat) (hq : c ≠ '"') (hb : c ≠ '\\') : Json.escape c = [c] := by
  unfold Json.escape
  rw [if_neg hq, if_neg hb, if_neg (by omega), if_neg (by omega), if_neg (by omega), if_neg (by omega),
    if_neg (by omega), if_neg (by omega)]

/-- Another escape begins with a backslash where ECMAScript keeps the character. -/
theorem differs_of_unicodeEscape {c : Char} {escaped : Str} (h : ∃ n rest, escaped = unicodeEscape n ++ rest)
    (h32 : 32 ≤ c.toNat) (hq : c ≠ '"') (hb : c ≠ '\\') :
    ∃ a as b bs, escaped = a :: as ∧ Json.escape c = b :: bs ∧ a ≠ b := by
  obtain ⟨n, rest, rfl⟩ := h
  exact ⟨_, _, c, [], rfl, escape_of_printable h32 hq hb, Ne.symm hb⟩

theorem gsonEscape_cases (c : Char) : gsonEscaped c = false ∧ gsonEscape c = Json.escape c ∨
    gsonEscaped c = true ∧ ∃ a as b bs, gsonEscape c = a :: as ∧ Json.escape c = b :: bs ∧ a ≠ b := by
  cases h : gsonEscaped c with
  | false => exact .inl ⟨rfl, by rw [gsonEscape, h]; rfl⟩
  | true =>
    have hescape : gsonEscape c = unicodeEscape c.toNat ++ [] := by
      rw [gsonEscape, h, List.append_nil]
      rfl
    have hc : 32 ≤ c.toNat ∧ c ≠ '"' ∧ c ≠ '\\' := by
      simp only [gsonEscaped, Bool.or_eq_true, decide_eq_true_eq, List.contains_iff_mem] at h
      rcases h with (h | h) | h
      · have hfive : "<>&='".toList.all (fun c => decide (32 ≤ c.toNat ∧ c ≠ '"' ∧ c ≠ '\\')) = true := by decide
        exact of_decide_eq_true (List.all_eq_true.1 hfive c h)
      · refine ⟨by omega, ?_, ?_⟩ <;> rintro rfl <;> exact absurd h (by decide)
      · refine ⟨by omega, ?_, ?_⟩ <;> rintro rfl <;> exact absurd h (by decide)
    exact .inr ⟨rfl, differs_of_unicodeEscape ⟨_, _, hescape⟩ hc.1 hc.2.1 hc.2.2⟩

theorem pythonEscape_cases (c : Char) : c.toNat ≤ 0x7e ∧ pythonEscape c = Json.escape c ∨
    0x7e < c.toNat ∧ ∃ a as b bs, pythonEscape c = a :: as ∧ Json.escape c = b :: bs ∧ a ≠ b := by
  by_cases h : c.toNat ≤ 0x7e
  · exact .inl ⟨h, if_pos h⟩
  · have hescape : ∃ n rest, pythonEscape c = unicodeEscape n ++ rest := by
      unfold pythonEscape
      rw [if_neg h]
      split
      · exact ⟨_, [], (List.append_nil _).symm⟩
      · exact ⟨_, _, rfl⟩
    have hq : c ≠ '"' := by
      rintro rfl
      exact h (by decide)
    have hb : c ≠ '\\' := by
      rintro rfl
      exact h (by decide)
    exact .inr ⟨not_le.1 h, differs_of_unicodeEscape hescape (by omega) hq hb⟩

/-- A character that no client escapes in its own way. -/
def Portable (c : Char) : Prop := c.toNat ≤ 0x7e ∧ c ∉ "<>&='".toList

theorem portable_iff (c : Char) : Portable c ↔ gsonEscape c = Json.escape c ∧ pythonEscape c = Json.escape c := by
  have hne : ∀ {s : Str}, (∃ a as b bs, s = a :: as ∧ Json.escape c = b :: bs ∧ a ≠ b) → s ≠ Json.escape c := by
    rintro s ⟨a, as, b, bs, hs, hc, hab⟩ h
    rw [hs, hc] at h
    exact hab (List.cons.inj h).1
  have hgson : gsonEscape c = Json.escape c ↔ gsonEscaped c = false := by
    rcases gsonEscape_cases c with ⟨h, heq⟩ | ⟨h, hdiff⟩
    · exact iff_of_true heq h
    · exact iff_of_false (hne hdiff) (by rw [h]; decide)
  have hpython : pythonEscape c = Json.escape c ↔ c.toNat ≤ 0x7e := by
    rcases pythonEscape_cases c with ⟨h, heq⟩ | ⟨h, hdiff⟩
    · exact iff_of_true heq h
    · exact iff_of_false (hne hdiff) (not_le.2 h)
  rw [hgson, hpython]
  simp only [Portable, gsonEscaped, Bool.or_eq_false_iff, decide_eq_false_iff_not, List.contains_eq_mem]
  constructor
  · rintro ⟨h, hfive⟩
    exact ⟨⟨⟨hfive, by omega⟩, by omega⟩, h⟩
  · rintro ⟨⟨⟨hfive, -⟩, -⟩, h⟩
    exact ⟨h, hfive⟩

theorem flatMap_gsonEscape_iff (payload : Str) :
    payload.flatMap gsonEscape = payload.flatMap Json.escape ↔ ∀ c ∈ payload, gsonEscape c = Json.escape c :=
  Json.flatMap_eq_iff fun c => (gsonEscape_cases c).imp And.right And.right

theorem flatMap_pythonEscape_iff (payload : Str) :
    payload.flatMap pythonEscape = payload.flatMap Json.escape ↔ ∀ c ∈ payload, pythonEscape c = Json.escape c :=
  Json.flatMap_eq_iff fun c => (pythonEscape_cases c).imp And.right And.right

/-- **All clients sign the text that the server verifies, exactly for the portable payloads.** -/
theorem sameText_iff (senderAddress contractAddress : ClientSdk.Address) (payload : Str) (timestamp : Timestamp)
    (signatureData : Option TransactionSignatureData) :
    (androidText senderAddress contractAddress payload timestamp =
        javaScriptText senderAddress contractAddress payload timestamp ∧
      pythonText senderAddress contractAddress payload timestamp =
        javaScriptText senderAddress contractAddress payload timestamp ∧
      javaScriptText senderAddress contractAddress payload timestamp =
        serverText senderAddress contractAddress payload timestamp signatureData) ↔ ∀ c ∈ payload, Portable c := by
  rw [androidText_eq, pythonText_eq, javaScriptText_eq, serverText_eq, Except.ok.injEq, Except.ok.injEq,
    textBy_eq_iff keepsPlain_gsonEscape keepsPlain_escape, textBy_eq_iff keepsPlain_pythonEscape keepsPlain_escape,
    flatMap_gsonEscape_iff, flatMap_pythonEscape_iff]
  constructor
  · rintro ⟨hgson, hpython, -⟩ c hc
    exact (portable_iff c).2 ⟨hgson c hc, hpython c hc⟩
  · intro h
    exact ⟨fun c hc => ((portable_iff c).1 (h c hc)).1, fun c hc => ((portable_iff c).1 (h c hc)).2, rfl⟩

def sampleAddress : ClientSdk.Address where
  publicKey := Hex.decode "ea4a6c63e29c520abef5507b132ec5f9954776aebebe7b92421eea691446d22c".toList
  virtualChainId := [0x64, 0x0e, 0xd3]
  networkId := ClientSdk.TEST_NETWORK_ID
  accountId := Hex.decode "057a79bbe10e1f772ec7a783a7060d30edfd53ae".toList
  checksum := [0xb9, 0x31, 0x6c, 0x87]
  publicKey_size := by decide +kernel
  virtualChainId_valid := by decide
  networkId_valid := by decide

def sampleTime : Timestamp := ⟨1536000000000, by decide⟩

/-- **An ampersand has another text on Android, an accent one in Python.** -/
theorem differentText : androidText sampleAddress sampleAddress "salt & pepper".toList sampleTime ≠
      javaScriptText sampleAddress sampleAddress "salt & pepper".toList sampleTime ∧
    pythonText sampleAddress sampleAddress "café".toList sampleTime ≠
      javaScriptText sampleAddress sampleAddress "café".toList sampleTime := by
  constructor
  · rw [androidText_eq, javaScriptText_eq, Ne, Except.ok.injEq, textBy_eq_iff keepsPlain_gsonEscape keepsPlain_escape]
    decide +kernel
  · rw [pythonText_eq, javaScriptText_eq, Ne, Except.ok.injEq, textBy_eq_iff keepsPlain_pythonEscape keepsPlain_escape]
    decide +kernel

end ClientRequests
end Orbs
