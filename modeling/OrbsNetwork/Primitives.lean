import OrbsNetwork.Lib.JsCodec
/-!
# Primitives — the messages of `blocks.proto` and `transactions.proto`

A `uint32` is a JavaScript number, so heights and versions are unbounded here and `Block.Typed` states the range of the
wire format.  A `uint64` (the timestamp) is a decimal string.  The signature data of a block or a transaction may be
absent.
-/
namespace Orbs

open Js

abbrev Bytes := List UInt8

structure TransactionHeader where
  version : ℕ
  sender : Bytes
  timestamp : Str
  contractAddress : Bytes
  deriving DecidableEq

structure TransactionSignatureData where
  publicKey : Bytes
  signature : Bytes
  deriving DecidableEq

structure Transaction where
  header : TransactionHeader
  payload : Str
  signatureData : Option TransactionSignatureData
  deriving DecidableEq

structure TransactionReceipt where
  txHash : Bytes
  success : Bool
  deriving DecidableEq

structure TransactionEntry where
  txHash : Bytes
  transaction : Transaction
  deriving DecidableEq

structure ModifiedStateKey where
  contractAddress : Bytes
  key : Str
  value : Str
  deriving DecidableEq

structure BlockHeader where
  version : ℕ
  prevBlockHash : Bytes
  height : ℕ
  deriving DecidableEq

structure BlockBody where
  transactions : List Transaction
  transactionReceipts : List TransactionReceipt
  stateDiff : List ModifiedStateKey
  deriving DecidableEq

structure BlockSignatureData where
  signature : Bytes
  signatory : Str
  deriving DecidableEq

structure Block where
  header : BlockHeader
  body : BlockBody
  signatureData : Option BlockSignatureData
  deriving DecidableEq

/-- Every `uint32` of the block is one. -/
structure Block.Typed (b : Block) : Prop where
  version : b.header.version < 2 ^ 32
  height : b.header.height < 2 ^ 32
  transactions : ∀ tx ∈ b.body.transactions, tx.header.version < 2 ^ 32

/-- A block as it comes off the wire. -/
abbrev WireBlock := { b : Block // b.Typed }

/-! ## JavaScript objects -/

def TransactionHeader.codec : Codec TransactionHeader :=
  .record (.cons "version".toList .nat <| .cons "sender".toList .bytes <| .cons "timestamp".toList .str <|
      .cons "contractAddress".toList .bytes .nil)
    (fun h => (h.version, h.sender, h.timestamp, h.contractAddress, ()))
    (fun (version, sender, timestamp, contractAddress, ()) => { version, sender, timestamp, contractAddress })
    (fun _ => rfl) (by decide) (by decide)

def TransactionSignatureData.codec : Codec TransactionSignatureData :=
  .record (.cons "publicKey".toList .bytes <| .cons "signature".toList .bytes .nil)
    (fun s => (s.publicKey, s.signature, ())) (fun (publicKey, signature, ()) => { publicKey, signature })
    (fun _ => rfl) (by decide) (by decide)

def Transaction.codec : Codec Transaction :=
  .record (.cons "header".toList TransactionHeader.codec <| .cons "payload".toList .str <|
      .cons "signatureData".toList (.nullable TransactionSignatureData.codec nofun) .nil)
    (fun t => (t.header, t.payload, t.signatureData, ()))
    (fun (header, payload, signatureData, ()) => { header, payload, signatureData })
    (fun _ => rfl) (by decide) (by decide)

def TransactionReceipt.codec : Codec TransactionReceipt :=
  .record (.cons "txHash".toList .bytes <| .cons "success".toList .bool .nil)
    (fun r => (r.txHash, r.success, ())) (fun (txHash, success, ()) => { txHash, success })
    (fun _ => rfl) (by decide) (by decide)

def ModifiedStateKey.codec : Codec ModifiedStateKey :=
  .record (.cons "contractAddress".toList .bytes <| .cons "key".toList .str <| .cons "value".toList .str .nil)
    (fun m => (m.contractAddress, m.key, m.value, ()))
    (fun (contractAddress, key, value, ()) => { contractAddress, key, value })
    (fun _ => rfl) (by decide) (by decide)

def BlockHeader.codec : Codec BlockHeader :=
  .record (.cons "version".toList .nat <| .cons "prevBlockHash".toList .bytes <| .cons "height".toList .nat .nil)
    (fun h => (h.version, h.prevBlockHash, h.height, ()))
    (fun (version, prevBlockHash, height, ()) => { version, prevBlockHash, height })
    (fun _ => rfl) (by decide) (by decide)

def BlockBody.codec : Codec BlockBody :=
  .record (.cons "transactions".toList (.list Transaction.codec) <|
      .cons "transactionReceipts".toList (.list TransactionReceipt.codec) <|
      .cons "stateDiff".toList (.list ModifiedStateKey.codec) .nil)
    (fun b => (b.transactions, b.transactionReceipts, b.stateDiff, ()))
    (fun (transactions, transactionReceipts, stateDiff, ()) => { transactions, transactionReceipts, stateDiff })
    (fun _ => rfl) (by decide) (by decide)

def BlockSignatureData.codec : Codec BlockSignatureData :=
  .record (.cons "signature".toList .bytes <| .cons "signatory".toList .str .nil)
    (fun s => (s.signature, s.signatory, ())) (fun (signature, signatory, ()) => { signature, signatory })
    (fun _ => rfl) (by decide) (by decide)

def Block.codec : Codec Block :=
  .record (.cons "header".toList BlockHeader.codec <| .cons "body".toList BlockBody.codec <|
      .cons "signatureData".toList (.nullable BlockSignatureData.codec nofun) .nil)
    (fun b => (b.header, b.body, b.signatureData, ()))
    (fun (header, body, signatureData, ()) => { header, body, signatureData })
    (fun _ => rfl) (by decide) (by decide)

theorem Transaction.inRange {tx : Transaction} (h : tx.header.version < 2 ^ 32) : Transaction.codec.InRange tx := by
  refine ⟨⟨(show tx.header.version ≤ 2 ^ 53 by omega), trivial, trivial, trivial, trivial⟩, trivial, ?_, trivial⟩
  rcases tx with ⟨header, payload, _ | s⟩
  · trivial
  · exact ⟨trivial, trivial, trivial⟩

theorem BlockBody.inRange {b : BlockBody} (h : ∀ tx ∈ b.transactions, tx.header.version < 2 ^ 32) :
    BlockBody.codec.InRange b :=
  ⟨fun tx htx => Transaction.inRange (h tx htx), fun _ _ => ⟨trivial, trivial, trivial⟩,
    fun _ _ => ⟨trivial, trivial, trivial, trivial⟩, trivial⟩

theorem Block.Typed.inRange {b : Block} (h : b.Typed) : Block.codec.InRange b := by
  have hv : b.header.version ≤ 2 ^ 53 := by have := h.version; omega
  have hh : b.header.height ≤ 2 ^ 53 := by have := h.height; omega
  refine ⟨⟨hv, trivial, hh, trivial⟩, BlockBody.inRange h.transactions, ?_, trivial⟩
  rcases b with ⟨header, body, _ | s⟩
  · trivial
  · exact ⟨trivial, trivial, trivial⟩

end Orbs
