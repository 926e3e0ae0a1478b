import OrbsNetwork.ClientAddress
import OrbsNetwork.TransactionAdmission
/-!
# OrbsClient — a transaction from the JavaScript client to the HTTP API

The client hashes the texts of its addresses; the handler of `/public/sendTransaction` turns them into bytes, and the
hash of the transaction it builds turns the bytes into texts again, with the fields written in another order.  Both
hash the same text (`hashedText_request`).
-/
namespace Orbs

open Js TransactionAdmission

/-! ## The client -/

namespace OrbsClient

structure KeyPair where
  publicKey : Str
  sign : Bytes → Bytes

def requestHeader (senderAddressBase58 contractAddressBase58 timestamp : Str) : Val := .obj
  [("version".toList, .ofNat 0), ("senderAddressBase58".toList, .str senderAddressBase58),
    ("timestamp".toList, .str timestamp), ("contractAddressBase58".toList, .str contractAddressBase58)]

/-- The text that `generateTransactionRequest` hashes. -/
def hashedText (senderAddress contractAddress : ClientSdk.Address) (payload : Str) (timestamp : Number) :
    Except Str Str := do
  let header := requestHeader (← senderAddress.toString) (← contractAddress.toString) timestamp.toString
  return Val.stableStringify (.obj [("header".toList, header), ("payload".toList, .str payload)])

def generateTransactionRequest (sha256 : Bytes → Bytes) (keyPair : KeyPair)
    (senderAddress contractAddress : ClientSdk.Address) (payload : Str) (timestamp : Number) : Except Str Val := do
  let header := requestHeader (← senderAddress.toString) (← contractAddress.toString) timestamp.toString
  let txHash := sha256 (Utf8.encode (← hashedText senderAddress contractAddress payload timestamp))
  return .obj
    [("header".toList, header), ("payload".toList, .str payload),
      ("signatureData".toList, .obj
        [("publicKeyHex".toList, .str keyPair.publicKey),
          ("signatureHex".toList, .str (Hex.encode (keyPair.sign txHash)))])]

/-- The body of the HTTP request. -/
def requestBody (request : Val) : Bytes := Utf8.encode request.stringify

end OrbsClient

/-! ## The handler -/

namespace PublicApiHTTPService

/-- `_.get(object, path)`. -/
def getPath (object : Option Val) (path : List Str) : Option Val :=
  path.foldl (fun v key => match v with
    | some (.obj l) => Val.get l key
    | _ => none) object

/-- `bs58DecodeRawAddress` on a member of the body.  Only texts are followed: no client sends anything else. -/
def decodeAddress : Option Val → Except Str Bytes
  | some (.str base58Address) => match bs58DecodeRawAddress base58Address with
    | some rawAddress => .ok rawAddress
    | none => .error "Error: Non-base58 character".toList
  | _ => .error "TypeError: base58Address.slice is not a function".toList

/-- `Buffer.from(v, "hex")` on a member of the body, with texts only again. -/
def fromHex : Option Val → Except Str Bytes
  | some (.str text) => .ok (Hex.decode text)
  | _ => .error "TypeError: First argument must be a string".toList

def signatureData (body : Val) : Except Str (Option Val) := do
  let data ← property (some body) "signatureData".toList
  if truthy data then
    let publicKey ← fromHex (getPath body ["signatureData".toList, "publicKeyHex".toList])
    let signature ← fromHex (getPath body ["signatureData".toList, "signatureHex".toList])
    return some (.obj [("publicKey".toList, .buffer publicKey), ("signature".toList, .buffer signature)])
  else return data

/-- The transaction that the handler of `/public/sendTransaction` builds. -/
def transactionOf (body : Val) : Except Str Val := do
  let sender ← decodeAddress (getPath body ["header".toList, "senderAddressBase58".toList])
  let contractAddress ← decodeAddress (getPath body ["header".toList, "contractAddressBase58".toList])
  let header := defined
    [("version".toList, getPath body ["header".toList, "version".toList]),
      ("sender".toList, some (.buffer sender)),
      ("timestamp".toList, getPath body ["header".toList, "timestamp".toList]),
      ("contractAddress".toList, some (.buffer contractAddress))]
  return defined
    [("header".toList, some header), ("payload".toList, getPath body ["payload".toList]),
      ("signatureData".toList, ← signatureData body)]

def handleSendTransaction (requestBody : Bytes) : Except Str Val :=
  match parseJsonWithBuffers (Utf8.decode requestBody) with
  | some body => transactionOf body
  | none => .error "SyntaxError: Unexpected token in JSON".toList

end PublicApiHTTPService

/-! ## From one to the other -/

namespace OrbsClient

open PublicApiHTTPService

theorem hashedText_eq (senderAddress contractAddress : ClientSdk.Address) (payload : Str) (timestamp : Number) :
    hashedText senderAddress contractAddress payload timestamp = .ok (Val.stableStringify (.obj
      [("header".toList, requestHeader (bs58EncodeRawAddress senderAddress.rawAddress)
          (bs58EncodeRawAddress contractAddress.rawAddress) timestamp.toString),
        ("payload".toList, .str payload)])) := by
  unfold hashedText
  rw [senderAddress.toString_eq, contractAddress.toString_eq]
  rfl

/-- The body of a request. -/
def requestOf (senderAddressBase58 contractAddressBase58 timestamp payload publicKeyHex signatureHex : Str) : Val := .obj
  [("header".toList, requestHeader senderAddressBase58 contractAddressBase58 timestamp), ("payload".toList, .str payload),
    ("signatureData".toList, .obj
      [("publicKeyHex".toList, .str publicKeyHex), ("signatureHex".toList, .str signatureHex)])]

theorem generateTransactionRequest_eq (sha256 : Bytes → Bytes) (keyPair : KeyPair)
    (senderAddress contractAddress : ClientSdk.Address) (payload : Str) (timestamp : Number) :
    ∃ signatureHex, generateTransactionRequest sha256 keyPair senderAddress contractAddress payload timestamp =
      .ok (requestOf (bs58EncodeRawAddress senderAddress.rawAddress) (bs58EncodeRawAddress contractAddress.rawAddress)
        timestamp.toString payload keyPair.publicKey signatureHex) := by
  unfold generateTransactionRequest
  rw [senderAddress.toString_eq, contractAddress.toString_eq, hashedText_eq]
  exact ⟨_, rfl⟩

theorem proper_requestOf (senderAddressBase58 contractAddressBase58 timestamp payload publicKeyHex signatureHex : Str) :
    (requestOf senderAddressBase58 contractAddressBase58 timestamp payload publicKeyHex signatureHex).Proper := by
  have hheader : (requestHeader senderAddressBase58 contractAddressBase58 timestamp).Proper := by
    have hkeys : ["version".toList, "senderAddressBase58".toList, "timestamp".toList,
        "contractAddressBase58".toList].Nodup ∧ ∀ k ∈ ["version".toList, "senderAddressBase58".toList,
        "timestamp".toList, "contractAddressBase58".toList], Val.Named k := by decide
    refine .obj hkeys.1 hkeys.2 fun p hp => ?_
    simp only [List.mem_cons, List.not_mem_nil, or_false] at hp
    rcases hp with rfl | rfl | rfl | rfl
    · exact Val.proper_ofNat (Nat.zero_le _)
    · exact .str _
    · exact .str _
    · exact .str _
  have hdata : (Val.obj [("publicKeyHex".toList, .str publicKeyHex), ("signatureHex".toList, .str signatureHex)]).Proper := by
    have hkeys : ["publicKeyHex".toList, "signatureHex".toList].Nodup ∧
        ∀ k ∈ ["publicKeyHex".toList, "signatureHex".toList], Val.Named k := by decide
    refine .obj hkeys.1 hkeys.2 fun p hp => ?_
    simp only [List.mem_cons, List.not_mem_nil, or_false] at hp
    rcases hp with rfl | rfl
    · exact .str _
    · exact .str _
  have hkeys : ["header".toList, "payload".toList, "signatureData".toList].Nodup ∧
      ∀ k ∈ ["header".toList, "payload".toList, "signatureData".toList], Val.Named k := by decide
  refine .obj hkeys.1 hkeys.2 fun p hp => ?_
  simp only [List.mem_cons, List.not_mem_nil, or_false] at hp
  rcases hp with rfl | rfl | rfl
  · exact hheader
  · exact .str _
  · exact hdata

/-- The transaction of a request, where the addresses can be read. -/
theorem transactionOf_requestOf {senderAddressBase58 contractAddressBase58 : Str} {sender contractAddress : Bytes}
    (hs : bs58DecodeRawAddress senderAddressBase58 = some sender)
    (hc : bs58DecodeRawAddress contractAddressBase58 = some contractAddress)
    (timestamp payload publicKeyHex signatureHex : Str) :
    transactionOf (requestOf senderAddressBase58 contractAddressBase58 timestamp payload publicKeyHex signatureHex) =
      .ok (Transaction.codec.enc {
        header := { version := 0, sender, timestamp, contractAddress }
        payload
        signatureData := some { publicKey := Hex.decode publicKeyHex, signature := Hex.decode signatureHex } }) := by
  have hsender : decodeAddress (some (.str senderAddressBase58)) = .ok sender := by
    simp only [decodeAddress, hs]
  have hcontract : decodeAddress (some (.str contractAddressBase58)) = .ok contractAddress := by
    simp only [decodeAddress, hc]
  change (decodeAddress (some (.str senderAddressBase58)) >>= _) = _
  rw [hsender]
  change (decodeAddress (some (.str contractAddressBase58)) >>= _) = _
  rw [hcontract]
  rfl

/-- **The client signs what the server verifies**: the text that the client hashes is the text that is hashed for the
transaction that the handler builds from the request. -/
theorem hashedText_request (sha256 : Bytes → Bytes) (keyPair : KeyPair)
    (senderAddress contractAddress : ClientSdk.Address) (payload : Str) (timestamp : Number) :
    ∃ text request transaction, hashedText senderAddress contractAddress payload timestamp = .ok text ∧
      generateTransactionRequest sha256 keyPair senderAddress contractAddress payload timestamp = .ok request ∧
      handleSendTransaction (requestBody request) = .ok transaction ∧
      TransactionAdmission.hashedText transaction = .ok text := by
  obtain ⟨signatureHex, hrequest⟩ :=
    generateTransactionRequest_eq sha256 keyPair senderAddress contractAddress payload timestamp
  have htransaction := transactionOf_requestOf senderAddress.bs58DecodeRawAddress_toString
    contractAddress.bs58DecodeRawAddress_toString timestamp.toString payload keyPair.publicKey signatureHex
  have hhandled : handleSendTransaction (requestBody (requestOf (bs58EncodeRawAddress senderAddress.rawAddress)
      (bs58EncodeRawAddress contractAddress.rawAddress) timestamp.toString payload keyPair.publicKey signatureHex)) =
        transactionOf (requestOf (bs58EncodeRawAddress senderAddress.rawAddress)
          (bs58EncodeRawAddress contractAddress.rawAddress) timestamp.toString payload keyPair.publicKey
          signatureHex) := by
    unfold handleSendTransaction requestBody
    rw [Utf8.decode_encode, parseJsonWithBuffers_stringify (proper_requestOf _ _ _ _ _ _)]
  -- the fields come in another order on the two sides, and the stable text has them in one
  have hsame : TransactionAdmission.hashedText (Transaction.codec.enc {
      header := { version := 0, sender := senderAddress.rawAddress, timestamp := timestamp.toString,
                  contractAddress := contractAddress.rawAddress }
      payload
      signatureData := some { publicKey := Hex.decode keyPair.publicKey, signature := Hex.decode signatureHex } }) =
        .ok (Val.stableStringify (.obj
          [("header".toList, requestHeader (bs58EncodeRawAddress senderAddress.rawAddress)
              (bs58EncodeRawAddress contractAddress.rawAddress) timestamp.toString),
            ("payload".toList, .str payload)])) := by
    rfl
  exact ⟨_, _, _, hashedText_eq senderAddress contractAddress payload timestamp, hrequest, hhandled.trans htransaction,
    hsame⟩

end OrbsClient
end Orbs
