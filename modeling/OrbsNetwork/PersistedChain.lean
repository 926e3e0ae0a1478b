import OrbsNetwork.BlockStorage
import OrbsNetwork.Lib.Sha256
/-!
# PersistedChain — the database holds a hash chain

`Holds db c`: the database has the chain `c` of well-typed blocks and nothing else, block `i` as JSON text under the
text of `i` and the height of the tip under `last`.  `load` on such a database gives the storage whose `lastBlock` is
the tip, and an accepted `addBlock` is `Chain.push`; so the block storage refines the abstract chain, and a restart
is invisible.
-/
namespace Orbs
namespace BlockStorage

open Js HashChain

variable {sha256 : Bytes → Bytes} {config : BlockStorageConfig}

theorem load_of_some {db : LevelDB} {last : Str} {b : Block} (hl : db LAST_BLOCK_HEIGHT_KEY = some last)
    (hr : readBlock db last = .ok b) : load sha256 (opened db) = (.ok (), { lastBlock := some b, db }) := by
  simp only [load, lastOrGenesis, opened, hl, hr]

/-- The database that `load` makes of one without a last block. -/
def genesisDb (sha256 : Bytes → Bytes) (db : LevelDB) : LevelDB :=
  putBlock (db.put LAST_BLOCK_HEIGHT_KEY (heightText (0 : ℕ))) (generateGenesisBlock sha256)

theorem load_of_none {db : LevelDB} {b : Block} (hl : db LAST_BLOCK_HEIGHT_KEY = none)
    (hr : readBlock (genesisDb sha256 db) (heightText (0 : ℕ)) = .ok b) :
    load sha256 (opened db) = (.ok (), { lastBlock := some b, db := genesisDb sha256 db }) := by
  have hlast : lastOrGenesis sha256 db = (heightText (0 : ℕ), genesisDb sha256 db) := by
    rw [lastOrGenesis, hl]
    rfl
  simp only [load, opened, hlast, hr]

/-- A chain from this network's genesis block. -/
abbrev BlockChain (sha256 : Bytes → Bytes) := Chain (blockView sha256) (generateGenesisBlock sha256)

/-- The database has the blocks of the chain, and no other. -/
structure Holds (db : LevelDB) (c : BlockChain sha256) : Prop where
  last : db LAST_BLOCK_HEIGHT_KEY = some (heightText c.rest.length)
  block : ∀ i : ℕ, db (heightText i) = c.blocks[i]?.map blockText
  typed : ∀ b ∈ c.blocks, b.Typed

/-- The storage is quiet on the chain. -/
structure Represents (s : BlockStorage) (c : BlockChain sha256) : Prop where
  lastBlock : s.lastBlock = some c.tip
  db : Holds s.db c

theorem height_eq (c : BlockChain sha256) {i : ℕ} {b : Block} (h : c.blocks[i]? = some b) : b.header.height = i :=
  (c.height_of_getElem? h).trans (Nat.zero_add i)

theorem height_tip (c : BlockChain sha256) : c.tip.header.height = c.rest.length := height_eq c c.getElem?_tip

theorem height_of_next {c : BlockChain sha256} {b : Block} (hn : (blockView sha256).Next c.tip b) :
    b.header.height = c.blocks.length := by
  rw [Chain.length_blocks, ← height_tip c]
  exact hn.1

namespace Holds

variable {db : LevelDB} {c : BlockChain sha256}

theorem readBlock_eq (h : Holds db c) {i : ℕ} {b : Block} (hb : c.blocks[i]? = some b) :
    readBlock db (heightText i) = .ok b :=
  readBlock_of_text (h.typed b (List.mem_of_getElem? hb)) (by rw [h.block, hb]; rfl)

theorem push (h : Holds db c) {b : Block} (hb : b.Typed) (hn : (blockView sha256).Next c.tip b) :
    Holds (putBlock (db.put LAST_BLOCK_HEIGHT_KEY (heightText b.header.height)) b) (c.push b hn) := by
  have hh := height_of_next hn
  refine ⟨?_, fun i => ?_, fun d hd => ?_⟩
  · rw [putBlock, LevelDB.put_ne _ _ (heightText_ne_last _).symm, LevelDB.put_same, hh, Chain.rest_push,
      List.length_append]
    rfl
  · rw [Chain.blocks_push, putBlock]
    rcases eq_or_ne i c.blocks.length with rfl | hi
    · rw [hh, LevelDB.put_same, List.getElem?_concat_length]
      rfl
    · have hk : heightText i ≠ heightText b.header.height := fun he => hi ((heightText_inj he).trans hh)
      rw [LevelDB.put_ne _ _ hk, LevelDB.put_ne _ _ (heightText_ne_last _), h.block]
      rcases lt_or_gt_of_ne hi with hlt | hgt
      · rw [List.getElem?_append_left hlt]
      · rw [List.getElem?_eq_none (by omega), List.getElem?_eq_none (by simp at hgt ⊢; omega)]
  · rw [Chain.blocks_push, List.mem_append, List.mem_singleton] at hd
    rcases hd with hd | rfl
    · exact h.typed d hd
    · exact hb

/-- **A storage opened on the database of a chain loads its tip.** -/
theorem load_eq (h : Holds db c) : load sha256 (opened db) = (.ok (), { lastBlock := some c.tip, db }) :=
  load_of_some h.last (h.readBlock_eq c.getElem?_tip)

end Holds

theorem holds_genesis : Holds (genesisDb sha256 .empty) (Chain.nil : BlockChain sha256) := by
  have hh : (generateGenesisBlock sha256).header.height = 0 := rfl
  refine ⟨?_, fun i => ?_, fun d hd => ?_⟩
  · rw [genesisDb, putBlock, LevelDB.put_ne _ _ (heightText_ne_last _).symm, LevelDB.put_same]
    rfl
  · rw [genesisDb, putBlock, hh]
    rcases i with _ | i
    · exact LevelDB.put_same _ _ _
    · have hk : heightText (i + 1 : ℕ) ≠ heightText (0 : ℕ) := fun he => by cases heightText_inj he
      rw [LevelDB.put_ne _ _ hk, LevelDB.put_ne _ _ (heightText_ne_last _)]
      rfl
  · rw [List.mem_singleton.1 hd]
    exact generateGenesisBlock_typed sha256

/-- **`load` on an empty database starts the chain of the genesis block alone.** -/
theorem load_empty (sha256 : Bytes → Bytes) : (load sha256 (opened .empty)).1 = .ok () ∧
    Represents (load sha256 (opened .empty)).2 (Chain.nil : BlockChain sha256) := by
  rw [load_of_none rfl (holds_genesis.readBlock_eq (i := 0) rfl)]
  exact ⟨rfl, rfl, holds_genesis⟩

/-- `addBlock` as an atomic operation on the chain alone: `none` is a rejected block. -/
def append (config : BlockStorageConfig) (c : BlockChain sha256) (b : Block) : Option (BlockChain sha256) :=
  match h : verifyNewBlock sha256 config (some c.tip) b with
  | .ok () => some (c.push b (verifyNewBlock_eq_ok.1 h).2.2)
  | .error _ => none

theorem append_eq_some {c d : BlockChain sha256} {b : Block} (h : append config c b = some d) :
    ∃ hn, d = c.push b hn := by
  unfold append at h
  split at h
  · cases h
    exact ⟨_, rfl⟩
  · cases h

theorem append_prefix {c d : BlockChain sha256} {b : Block} (h : append config c b = some d) : c.blocks <+: d.blocks := by
  obtain ⟨hn, rfl⟩ := append_eq_some h
  exact List.prefix_append _ _

theorem verify_of_append {c d : BlockChain sha256} {b : Block} (h : append config c b = some d) :
    verifyNewBlock sha256 config (some c.tip) b = .ok () := by
  unfold append at h
  split at h
  · assumption
  · cases h

theorem append_of_ok {c : BlockChain sha256} {b : Block} (h : verifyNewBlock sha256 config (some c.tip) b = .ok ()) :
    append config c b = some (c.push b (verifyNewBlock_eq_ok.1 h).2.2) := by
  unfold append
  split
  · rfl
  · rename_i e he
    rw [h] at he
    cases he

theorem append_of_error {c : BlockChain sha256} {b : Block} {e : Str}
    (h : verifyNewBlock sha256 config (some c.tip) b = .error e) : append config c b = none := by
  unfold append
  split
  · rename_i hok
    rw [h] at hok
    cases hok
  · rfl

/-- **`addBlock` on a quiet storage is `append` on its chain**: it stores the longer chain, or throws and changes
nothing. -/
theorem addBlock_spec (config : BlockStorageConfig) {s : BlockStorage} {c : BlockChain sha256} (h : Represents s c)
    (b : WireBlock) :
    (∃ d, append config c b.1 = some d ∧ (addBlock sha256 config (.ok ()) b s).1 = .ok () ∧
      Represents (addBlock sha256 config (.ok ()) b s).2 d) ∨
    append config c b.1 = none ∧ ∃ e, addBlock sha256 config (.ok ()) b s = (.error e, s) := by
  rw [addBlock, h.lastBlock]
  cases hv : verifyNewBlock sha256 config (some c.tip) b with
  | error e => exact .inr ⟨append_of_error hv, e, rfl⟩
  | ok u =>
    have hn := (verifyNewBlock_eq_ok.1 hv).2.2
    exact .inl ⟨_, append_of_ok hv, rfl, by rw [Chain.tip_push], h.db.push b.2 hn⟩

/-- `getBlocks` on the chain alone. -/
def blocksAbove (c : BlockChain sha256) (fromLastBlockHeight limit : ℕ) : List Block :=
  (c.rest.drop fromLastBlockHeight).take limit

theorem mapM_ok {α : Type} {f : ℕ → Except Str α} : ∀ {l : List ℕ} {as : List α},
    l.map f = as.map .ok → l.mapM f = .ok as
  | [], [], _ => rfl
  | n :: l, a :: as, h => by
    rw [List.map_cons, List.map_cons, List.cons.injEq] at h
    rw [List.mapM_cons, h.1, mapM_ok h.2]
    rfl

/-- **`getBlocks` reads the blocks above a height from the chain.** -/
theorem getBlocks_eq {s : BlockStorage} {c : BlockChain sha256} (h : Represents s c) (fromLastBlockHeight limit : ℕ) :
    s.getBlocks fromLastBlockHeight limit = .ok (blocksAbove c fromLastBlockHeight limit) := by
  rw [getBlocks, h.lastBlock]
  refine mapM_ok (List.ext_getElem ?_ fun k h1 h2 => ?_)
  · rw [height_tip]
    simp only [List.length_map, List.length_range, blocksAbove, List.length_take, List.length_drop]
    split_ifs <;> omega
  · rw [List.getElem_map, List.getElem_map, List.getElem_range]
    have hk : k < (blocksAbove c fromLastBlockHeight limit).length := by rwa [List.length_map] at h2
    have hlim : k < limit := by
      rw [blocksAbove, List.length_take] at hk
      omega
    have hb : c.blocks[fromLastBlockHeight + k + 1]? = some (blocksAbove c fromLastBlockHeight limit)[k] := by
      rw [← List.getElem?_eq_getElem hk]
      change c.rest[fromLastBlockHeight + k]? = _
      rw [blocksAbove, List.getElem?_take_of_lt hlim, List.getElem?_drop]
    exact h.db.readBlock_eq hb

/-- The calls of `addBlock`, one after the other. -/
def addBlocks (sha256 : Bytes → Bytes) (config : BlockStorageConfig) (s : BlockStorage) (bs : List WireBlock) :
    BlockStorage :=
  bs.foldl (fun s (b : WireBlock) => (addBlock sha256 config (.ok ()) b.1 s).2) s

theorem represents_addBlocks (config : BlockStorageConfig) {s : BlockStorage} {c : BlockChain sha256}
    (h : Represents s c) (bs : List WireBlock) :
    ∃ d : BlockChain sha256, Represents (addBlocks sha256 config s bs) d := by
  induction bs generalizing s c with
  | nil => exact ⟨c, h⟩
  | cons b bs ih =>
    rw [addBlocks, List.foldl_cons]
    rcases addBlock_spec config h b with ⟨d, -, -, hr⟩ | ⟨-, e, he⟩
    · exact ih hr
    · rw [he]
      exact ih h

/-- The persisted chain of a storage, and what a restart makes of it. -/
structure Persisted (sha256 : Bytes → Bytes) (config : BlockStorageConfig) (s : BlockStorage) (last : Block) : Prop where
  lastBlock : s.lastBlock = some last
  lastHeight : s.db LAST_BLOCK_HEIGHT_KEY = some (heightText last.header.height)
  lastStored : s.getBlock last.header.height = .ok last
  stored : ∀ i : ℕ, i ≤ last.header.height → ∃ b, s.db (heightText i) = some (blockText b) ∧ s.getBlock i = .ok b ∧
    b.header.height = i
  linked : ∀ i : ℕ, i < last.header.height → ∃ b d, s.getBlock i = .ok b ∧ s.getBlock (i + 1 : ℕ) = .ok d ∧
    d.header.prevBlockHash = calculateBlockHash sha256 b
  nothingAbove : ∀ i : ℕ, last.header.height < i → s.db (heightText i) = none
  rejected : ∀ (b : WireBlock) e, (addBlock sha256 config (.ok ()) b s).1 = .error e →
    (addBlock sha256 config (.ok ()) b s).2 = s
  loads : (load sha256 (opened s.db)).1 = .ok ()
  reloadedLast : (load sha256 (opened s.db)).2.lastBlock = some last
  reloadedBlocks : ∀ fromLastBlockHeight limit : ℤ,
    (load sha256 (opened s.db)).2.getBlocks fromLastBlockHeight limit = s.getBlocks fromLastBlockHeight limit
  reloadedAccepts : ∀ b : WireBlock,
    (addBlock sha256 config (.ok ()) b (load sha256 (opened s.db)).2).1 = (addBlock sha256 config (.ok ()) b s).1

theorem Represents.persisted {s : BlockStorage} {c : BlockChain sha256} (h : Represents s c) :
    Persisted sha256 config s c.tip := by
  have hl : load sha256 (opened s.db) = (.ok (), s) := by
    rw [h.db.load_eq, ← h.lastBlock]
  have hget : ∀ {i : ℕ} {b : Block}, c.blocks[i]? = some b → s.getBlock i = .ok b := fun hb => h.db.readBlock_eq hb
  have hmem : ∀ {i : ℕ}, i ≤ c.rest.length → ∃ b, c.blocks[i]? = some b := fun hi =>
    ⟨_, List.getElem?_eq_getElem (by rw [Chain.length_blocks]; omega)⟩
  refine
    { lastBlock := h.lastBlock
      lastHeight := by rw [height_tip]; exact h.db.last
      lastStored := by rw [height_tip]; exact hget c.getElem?_tip
      stored := fun i hi => ?_
      linked := fun i hi => ?_
      nothingAbove := fun i hi => ?_
      rejected := fun b e he => ?_
      loads := by rw [hl]
      reloadedLast := by rw [hl]; exact h.lastBlock
      reloadedBlocks := fun _ _ => by rw [hl]
      reloadedAccepts := fun _ => by rw [hl] }
  · rw [height_tip] at hi
    obtain ⟨b, hb⟩ := hmem hi
    exact ⟨b, by rw [h.db.block, hb]; rfl, hget hb, height_eq c hb⟩
  · rw [height_tip] at hi
    obtain ⟨b, hb⟩ := hmem hi.le
    obtain ⟨d, hd⟩ := hmem hi
    exact ⟨b, d, hget hb, hget hd, c.prev_of_getElem? hb hd⟩
  · rw [height_tip] at hi
    rw [h.db.block, List.getElem?_eq_none (by rw [Chain.length_blocks]; omega)]
    rfl
  · rcases addBlock_spec config h b with ⟨d, -, hok, -⟩ | ⟨-, e', he'⟩
    · rw [hok] at he
      cases he
    · rw [he']

/-- **The persisted chain is the chain, across restarts**: after any `addBlock` calls, accepted or not, on a storage
loaded from an empty database. -/
theorem persisted_addBlocks (sha256 : Bytes → Bytes) (config : BlockStorageConfig) (bs : List WireBlock) :
    (load sha256 (opened .empty)).1 = .ok () ∧
      ∃ last, Persisted sha256 config (addBlocks sha256 config (load sha256 (opened .empty)).2 bs) last := by
  obtain ⟨hok, hr⟩ := load_empty sha256
  obtain ⟨d, hd⟩ := represents_addBlocks config hr bs
  exact ⟨hok, d.tip, hd.persisted⟩

/-- A block on top of genesis, with one receipt per byte. -/
def firstBlock (receipts : Bytes) : WireBlock :=
  ⟨buildNextBlock Sha256.hash
    { transactions := [], transactionReceipts := receipts.map fun r => { txHash := [r], success := true }, stateDiff := [] }
    (some (generateGenesisBlock Sha256.hash)), typed_buildNextBlock _ (by decide) nofun⟩

/-- An empty block on top of `prev`. -/
def emptyBlock (prev : WireBlock) (h : prev.1.header.height + 1 < 2 ^ 32) : WireBlock :=
  ⟨buildNextBlock Sha256.hash { transactions := [], transactionReceipts := [], stateDiff := [] } (some prev.1),
    typed_buildNextBlock _ h nofun⟩

def secondBlock : WireBlock := emptyBlock (firstBlock []) (by decide)

theorem verify_emptyBlock (prev : WireBlock) (h : prev.1.header.height + 1 < 2 ^ 32) :
    verifyNewBlock Sha256.hash .unsigned (some prev.1) (emptyBlock prev h).1 = .ok () := by
  rw [verifyNewBlock_eq_ok]
  exact ⟨rfl, rfl, rfl, rfl⟩

end BlockStorage
end Orbs
