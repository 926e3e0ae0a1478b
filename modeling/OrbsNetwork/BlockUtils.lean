import OrbsNetwork.JsonBuffer
import OrbsNetwork.Primitives
import OrbsNetwork.Lib.HashChain
/-!
# BlockUtils — the hash of a block, new blocks, signatures

`sha256` is `createHash("sha256")` of Node, a parameter of everything that hashes.  So are the signature primitives of
Node's crypto inside `KeyManager`: they take the text of a key and may throw on one they cannot read.  Signatures pass
through base64 text in both directions, which is the identity on bytes and is left out.
-/
namespace Orbs

open Js

structure KeyManager where
  /-- `createSign("sha256")` with the text of a private key. -/
  signObject : Str → Bytes → Except Str Bytes
  /-- `createVerify("sha256")` with the text of a public key. -/
  verifyObject : Str → Bytes → Bytes → Except Str Bool
  publicKeys : List (Str × Str)
  privateKey : Option Str

namespace KeyManager

def getPublicKey (km : KeyManager) (publicKeyName : Str) : Except Str Str :=
  match km.publicKeys.find? fun p => p.1 = publicKeyName with
  | some p => .ok p.2
  | none => .error ("Error: No public key found: ".toList ++ publicKeyName)

def sign (km : KeyManager) (object : Bytes) : Except Str Bytes :=
  match km.privateKey with
  | some key => km.signObject key object
  | none => .error "Error: Private key not found".toList

def verify (km : KeyManager) (object signature : Bytes) (publicKeyName : Str) : Except Str Bool := do
  km.verifyObject (← km.getPublicKey publicKeyName) object signature

end KeyManager

theorem bind_eq_ok {α β : Type} {x : Except Str α} {f : α → Except Str β} {b : β} :
    x >>= f = .ok b ↔ ∃ a, x = .ok a ∧ f a = .ok b := by
  cases x with
  | error e => exact ⟨nofun, nofun⟩
  | ok a => exact ⟨fun h => ⟨a, rfl, h⟩, fun ⟨_, ha, h⟩ => by cases ha; exact h⟩

section
variable (sha256 : Bytes → Bytes)

def calculateBlockHash (block : Block) : Bytes :=
  sha256 (Utf8.encode (BlockHeader.codec.enc block.header).stableStringify
    ++ Utf8.encode (BlockBody.codec.enc block.body).stableStringify)

def buildBlock (header : BlockHeader) (body : BlockBody) : Block :=
  { header, body, signatureData := some { signature := [], signatory := "none".toList } }

def buildNextBlock (body : BlockBody) (prevBlock : Option Block) : Block :=
  match prevBlock with
  | some prev =>
    buildBlock { version := 0, prevBlockHash := calculateBlockHash sha256 prev, height := prev.header.height + 1 } body
  | none => buildBlock { version := 0, prevBlockHash := [], height := 0 } body

def signBlock (block : Block) (keyManager : KeyManager) (nodeName : Str) : Except Str Block := do
  let signature ← keyManager.sign (calculateBlockHash sha256 block)
  pure { block with signatureData := some { signature, signatory := nodeName } }

/-- The text of an error is what its `toString` gives. -/
def verifyBlockSignature (block : Block) (keyManager : Option KeyManager) : Except Str Bool :=
  match block.signatureData, keyManager with
  | none, _ => .error "TypeError: Cannot read property 'signature' of null".toList
  | some _, none => .error "TypeError: Cannot read property 'SIGNATURE_ENCODING' of undefined".toList
  | some data, some km => km.verify (calculateBlockHash sha256 block) data.signature data.signatory

/-- What a block shows to the chain. -/
def blockView : HashChain.View Block Bytes where
  height b := b.header.height
  prev b := b.header.prevBlockHash
  hash := calculateBlockHash sha256

theorem typed_buildNextBlock {body : BlockBody} {prev : Block} (hh : prev.header.height + 1 < 2 ^ 32)
    (ht : ∀ tx ∈ body.transactions, tx.header.version < 2 ^ 32) : (buildNextBlock sha256 body (some prev)).Typed :=
  ⟨Nat.two_pow_pos 32, hh, ht⟩

/-- **A block built on `prev` follows it.** -/
theorem next_buildNextBlock (body : BlockBody) (prev : Block) :
    (blockView sha256).Next prev (buildNextBlock sha256 body (some prev)) := ⟨rfl, rfl⟩

theorem signBlock_eq_ok {block signed : Block} {keyManager : KeyManager} {nodeName : Str}
    (h : signBlock sha256 block keyManager nodeName = .ok signed) :
    signed.header = block.header ∧ signed.body = block.body := by
  obtain ⟨signature, -, h⟩ := bind_eq_ok.1 h
  cases h
  exact ⟨rfl, rfl⟩

end
end Orbs
