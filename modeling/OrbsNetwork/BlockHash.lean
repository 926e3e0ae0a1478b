import OrbsNetwork.BlockUtils
import OrbsNetwork.Lib.JsCanonical
/-!
# BlockHash — the block hash commits to the header and the body

`calculateBlockHash` gives SHA-256 the stable text of the header and then that of the body, with nothing between them.
The codecs of both are canonical, and the text of the body begins with a brace; so the bytes are those of one header and
one body only.  The signature data is not among them.
-/
namespace Orbs

open Js

theorem TransactionHeader.canonical : TransactionHeader.codec.Canonical :=
  .record (.cons (by decide) .nat <| .cons (by decide) .bytes <| .cons (by decide) .str <|
    .cons (by decide) .bytes .nil) _ _ _

theorem TransactionSignatureData.canonical : TransactionSignatureData.codec.Canonical :=
  .record (.cons (by decide) .bytes <| .cons (by decide) .bytes .nil) _ _ _

theorem Transaction.canonical : Transaction.codec.Canonical :=
  .record (.cons (by decide) TransactionHeader.canonical <| .cons (by decide) .str <|
    .cons (by decide) (.nullable TransactionSignatureData.canonical _) .nil) _ _ _

theorem TransactionReceipt.canonical : TransactionReceipt.codec.Canonical :=
  .record (.cons (by decide) .bytes <| .cons (by decide) .bool .nil) _ _ _

theorem ModifiedStateKey.canonical : ModifiedStateKey.codec.Canonical :=
  .record (.cons (by decide) .bytes <| .cons (by decide) .str <| .cons (by decide) .str .nil) _ _ _

theorem BlockHeader.canonical : BlockHeader.codec.Canonical :=
  .record (.cons (by decide) .nat <| .cons (by decide) .bytes <| .cons (by decide) .nat .nil) _ _ _

theorem BlockBody.canonical : BlockBody.codec.Canonical :=
  .record (.cons (by decide) (.list Transaction.canonical) <|
    .cons (by decide) (.list TransactionReceipt.canonical) <|
    .cons (by decide) (.list ModifiedStateKey.canonical) .nil) _ _ _

/-- What `calculateBlockHash` feeds to SHA-256. -/
def hashedStream (block : Block) : Bytes :=
  Utf8.encode (BlockHeader.codec.enc block.header).stableStringify
    ++ Utf8.encode (BlockBody.codec.enc block.body).stableStringify

theorem calculateBlockHash_eq (sha256 : Bytes → Bytes) (block : Block) :
    calculateBlockHash sha256 block = sha256 (hashedStream block) := rfl

/-- **Blocks that feed the same bytes to SHA-256 have the same header and the same body.** -/
theorem header_body_of_hashedStream (b b' : WireBlock) (h : hashedStream b.1 = hashedStream b'.1) :
    b.1.header = b'.1.header ∧ b.1.body = b'.1.body := by
  have htext : (BlockHeader.codec.enc b.1.header).stableStringify ++ (BlockBody.codec.enc b.1.body).stableStringify =
      (BlockHeader.codec.enc b'.1.header).stableStringify ++ (BlockBody.codec.enc b'.1.body).stableStringify := by
    apply Utf8.encode_injective
    rw [Utf8.encode_append, Utf8.encode_append]
    exact h
  have hr := b.2.inRange
  have hr' := b'.2.inRange
  obtain ⟨hheader, hbody⟩ := BlockHeader.canonical.stableStringify_append_inj hr.1 hr'.1 (Val.numberEnd_obj _)
    (Val.numberEnd_obj _) htext
  exact ⟨hheader, BlockBody.canonical.stableStringify_inj hr.2.1 hr'.2.1 hbody⟩

/-- Two transactions, of which the first is signed and the second failed. -/
def sampleBody : BlockBody where
  transactions := [
    { header := { version := 0, sender := [0x54, 0, 1], timestamp := "1536000000000".toList, contractAddress := [0x54, 0, 2] }
      payload := "\x7b\"method\":\"transfer\",\"args\":[\"ann\",1.5]\x7d".toList
      signatureData := some { publicKey := [7, 8], signature := [9] } },
    { header := { version := 1, sender := [0x4d, 0, 3], timestamp := "0".toList, contractAddress := [] }
      payload := "é\n".toList
      signatureData := none }]
  transactionReceipts := [{ txHash := [0xaa], success := true }, { txHash := [0xbb], success := false }]
  stateDiff := [{ contractAddress := [0x54, 0, 2], key := "balances.ann".toList, value := "1.5".toList }]

def sampleBlock (signatureData : Option BlockSignatureData) : WireBlock where
  val := { header := { version := 0, prevBlockHash := [0x0f, 0xff], height := 3 }, body := sampleBody, signatureData }
  property := ⟨Nat.two_pow_pos 32, (by decide : 3 < 2 ^ 32),
    (by decide : ∀ tx ∈ sampleBody.transactions, tx.header.version < 2 ^ 32)⟩

theorem header_body_of_hashedStream_sampleBlock :
    (sampleBlock none).1.header = (sampleBlock (some { signature := [1], signatory := "node1".toList })).1.header ∧
      (sampleBlock none).1.body = (sampleBlock (some { signature := [1], signatory := "node1".toList })).1.body :=
  header_body_of_hashedStream (sampleBlock none) (sampleBlock (some { signature := [1], signatory := "node1".toList })) rfl

end Orbs
