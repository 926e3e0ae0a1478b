import OrbsNetwork.BlockUtils
/-!
# BlockStorage — the persisted chain

The LevelDB database maps the text of a key to the text of a value: a put writes the text of a number, or the JSON of
a block, and a get reads it back.  Under `last` it holds the height of the last block, and under every height that
block.  The operations return their result together with the storage they leave behind, so a rejected promise still
shows what was written before it.
-/
namespace Orbs

open Js

abbrev LevelDB := Str → Option Str

namespace LevelDB

def empty : LevelDB := fun _ => none

def put (db : LevelDB) (key value : Str) : LevelDB := fun k => if k = key then some value else db k

def get (db : LevelDB) (key : Str) : Except Str Str :=
  match db key with
  | some value => .ok value
  | none => .error ("NotFoundError: Key not found in database [".toList ++ key ++ "]".toList)

@[simp] theorem put_same (db : LevelDB) (key value : Str) : db.put key value key = some value := if_pos rfl

theorem put_ne (db : LevelDB) {key k : Str} (value : Str) (h : k ≠ key) : db.put key value k = db k := if_neg h

end LevelDB

def heightText : ℤ → Str
  | .ofNat n => Nat.toDigits 10 n
  | .negSucc n => '-' :: Nat.toDigits 10 (n + 1)

def blockText (block : Block) : Str := (Block.codec.enc block).stringify

structure BlockStorageConfig where
  verifySignature : Bool
  keyManager : Option KeyManager

def BlockStorageConfig.unsigned : BlockStorageConfig := { verifySignature := false, keyManager := none }

structure BlockStorage where
  lastBlock : Option Block
  db : LevelDB

namespace BlockStorage

def LAST_BLOCK_HEIGHT_KEY : Str := "last".toList

def opened (db : LevelDB) : BlockStorage := { lastBlock := none, db }

def readBlock (db : LevelDB) (key : Str) : Except Str Block :=
  match db.get key with
  | .ok text =>
    match (parseJsonWithBuffers text).bind Block.codec.dec with
    | some block => .ok block
    | none => .error "SyntaxError: Unexpected token in JSON".toList
  | .error e => .error e

def getBlock (s : BlockStorage) (height : ℤ) : Except Str Block := readBlock s.db (heightText height)

def putBlock (db : LevelDB) (block : Block) : LevelDB := db.put (heightText block.header.height) (blockText block)

/-- The blocks above `fromLastBlockHeight`, at most `limit` of them. -/
def getBlocks (s : BlockStorage) (fromLastBlockHeight limit : ℤ) : Except Str (List Block) :=
  match s.lastBlock with
  | none => .error "ReferenceError: Block Storage not initiailized".toList
  | some lastBlock =>
    let lastBlockHeight := if fromLastBlockHeight + limit ≥ lastBlock.header.height then (lastBlock.header.height : ℤ)
      else fromLastBlockHeight + limit
    (List.range (lastBlockHeight - fromLastBlockHeight).toNat).mapM fun (k : ℕ) =>
      s.getBlock (fromLastBlockHeight + k + 1)

def hasNewBlocks (s : BlockStorage) (fromLastBlockHeight : ℤ) : Except Str Bool :=
  match s.lastBlock with
  | none => .error "TypeError: Cannot read property 'header' of undefined".toList
  | some lastBlock => .ok (decide (lastBlock.header.height > fromLastBlockHeight))

section
variable (sha256 : Bytes → Bytes)

def generateGenesisBlock : Block :=
  buildNextBlock sha256 { transactions := [], transactionReceipts := [], stateDiff := [] } none

/-- The key of the last block; a database without one is started from the genesis block. -/
def lastOrGenesis (db : LevelDB) : Str × LevelDB :=
  match db LAST_BLOCK_HEIGHT_KEY with
  | some last => (last, db)
  | none =>
    let genesisBlock := generateGenesisBlock sha256
    let height := heightText genesisBlock.header.height
    (height, putBlock (db.put LAST_BLOCK_HEIGHT_KEY height) genesisBlock)

def load (s : BlockStorage) : Except Str Unit × BlockStorage :=
  let (last, db) := lastOrGenesis sha256 s.db
  match readBlock db last with
  | .ok block => (.ok (), { lastBlock := some block, db })
  | .error e => (.error e, { s with db })

variable (config : BlockStorageConfig)

def verifySigned (block : Block) : Except Str Unit :=
  if config.verifySignature then
    match verifyBlockSignature sha256 block config.keyManager with
    | .error e => .error ("Invalid block signature: ".toList ++ e)
    | .ok true => .ok ()
    | .ok false => .error ("Invalid block signature: ".toList ++ (BlockHeader.codec.enc block.header).stringify
        ++ " was not signed by ".toList ++ (block.signatureData.map BlockSignatureData.signatory).getD [])
  else .ok ()

def verifyNewBlock (lastBlock : Option Block) (block : Block) : Except Str Unit := do
  verifySigned sha256 config block
  if block.header.version ≠ 0 then
    throw ("Invalid block version: ".toList ++ heightText block.header.version ++ "!".toList)
  match lastBlock with
  | none => throw "Cannot read property 'header' of undefined".toList
  | some lastBlock =>
    if block.header.height ≠ lastBlock.header.height + 1 then
      throw ("Invalid block height of block: ".toList ++ (BlockHeader.codec.enc block.header).stringify
        ++ "! Should have been ".toList ++ heightText (lastBlock.header.height + 1))
    let lastBlockHash := calculateBlockHash sha256 lastBlock
    if block.header.prevBlockHash ≠ lastBlockHash then
      throw ("Invalid prev block hash of block: ".toList ++ (BlockHeader.codec.enc block.header).stringify
        ++ "! Should have been ".toList ++ (Val.buffer lastBlockHash).stringify)

/-- `addBlock` when nothing else runs meanwhile; `reported` is the transaction pool's answer. -/
def addBlock (reported : Except Str Unit) (block : Block) (s : BlockStorage) : Except Str Unit × BlockStorage :=
  match verifyNewBlock sha256 config s.lastBlock block with
  | .error e => (.error e, s)
  | .ok () =>
    let db := putBlock (s.db.put LAST_BLOCK_HEIGHT_KEY (heightText block.header.height)) block
    match reported with
    | .error e => (.error e, { s with db })
    | .ok () => (.ok (), { lastBlock := some block, db })

/-! ## Keys and texts -/

theorem heightText_natCast (n : ℕ) : heightText n = Nat.toDigits 10 n := rfl

theorem heightText_inj {m n : ℕ} (h : heightText m = heightText n) : m = n := by
  rw [heightText_natCast, heightText_natCast] at h
  rw [← Number.digitsVal_toDigits m, h, Number.digitsVal_toDigits]

theorem heightText_ne_last (n : ℕ) : heightText n ≠ LAST_BLOCK_HEIGHT_KEY := by
  intro h
  have hd := Number.toDigits_isDigit n 'l'
  rw [heightText_natCast] at h
  rw [h] at hd
  exact absurd (hd (by decide)) (by decide)

theorem blockText_parses {block : Block} (h : block.Typed) :
    (parseJsonWithBuffers (blockText block)).bind Block.codec.dec = some block := by
  rw [blockText, parseJsonWithBuffers_stringify (Block.codec.proper block h.inRange), Option.bind_some,
    Block.codec.dec_enc block h.inRange]

/-- **What `putBlock` wrote, `getBlock` reads.** -/
theorem readBlock_of_text {db : LevelDB} {key : Str} {block : Block} (h : block.Typed)
    (hk : db key = some (blockText block)) : readBlock db key = .ok block := by
  rw [readBlock, LevelDB.get, hk]
  dsimp only
  rw [blockText_parses h]

theorem generateGenesisBlock_typed : (generateGenesisBlock sha256).Typed :=
  ⟨Nat.two_pow_pos 32, Nat.two_pow_pos 32, nofun⟩

/-! ## Verification -/

variable {sha256 config}

/-- **Verification accepts exactly the signed blocks of version 0 that follow the last block.** -/
theorem verifyNewBlock_eq_ok {lastBlock block : Block} :
    verifyNewBlock sha256 config (some lastBlock) block = .ok () ↔
      verifySigned sha256 config block = .ok () ∧ block.header.version = 0
        ∧ (blockView sha256).Next lastBlock block := by
  rw [verifyNewBlock]
  cases hs : verifySigned sha256 config block with
  | error e => simp [bind, Except.bind]
  | ok u =>
    simp only [bind, Except.bind, true_and, HashChain.View.Next, blockView, throw, throwThe, MonadExceptOf.throw, pure,
      Except.pure]
    split_ifs with h1 h2 h3
    · simp [h1]
    · simp [h2]
    · simp [h3]
    · push Not at h1 h2 h3
      simp [h1, h2, h3]

end
end BlockStorage
end Orbs
