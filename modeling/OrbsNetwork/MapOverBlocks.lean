import OrbsNetwork.PersistedChain
import OrbsNetwork.Lib.Paging
/-!
# MapOverBlocks — the walk over the blocks of a growing chain

`mapOverBlocks` asks the block storage for page after page and moves its cursor on by the page limit, while `getBlocks`
cuts the page at the last block of the moment.  When the chain grows past the end of a short page before the next
request, the blocks in between are never passed: the walk is complete exactly when no page comes after a short one
(`passesAll_iff`).
-/
namespace Orbs
namespace MapOverBlocks

open Js BlockStorage HashChain

/-- `limit || 5000`. -/
def scrollLimit : Option ℕ → ℕ
  | some (limit + 1) => limit + 1
  | _ => 5000

theorem scrollLimit_pos (limit : Option ℕ) : 0 < scrollLimit limit := by
  unfold scrollLimit
  split
  · exact Nat.succ_pos _
  · norm_num

section
variable {σ : Type}

/-- The next `fuel` turns of the loop, and whether it has ended.  `blockStorage` is the storage as it is at one request
after the other. -/
def scroll (SCROLL_LIMIT : ℕ) (mapFunction : σ → Block → Except Str σ) :
    ℕ → (ℕ → BlockStorage) → ℕ → σ → Except Str (σ × Bool)
  | 0, _, _, s => .ok (s, false)
  | fuel + 1, blockStorage, blockHeight, s => do
    let blocks ← (blockStorage 0).getBlocks blockHeight SCROLL_LIMIT
    if blocks.isEmpty then return (s, true)
    let s ← blocks.foldlM mapFunction s
    scroll SCROLL_LIMIT mapFunction fuel (fun i => blockStorage (i + 1)) (blockHeight + SCROLL_LIMIT) s

def mapOverBlocks (blockStorage : ℕ → BlockStorage) (lastBlockHeight : ℕ) (mapFunction : σ → Block → Except Str σ)
    (limit : Option ℕ) (fuel : ℕ) (s : σ) : Except Str (σ × Bool) :=
  scroll (scrollLimit limit) mapFunction fuel blockStorage lastBlockHeight s

end

variable {sha256 : Bytes → Bytes}

/-- A block storage that only appends: quiet on a chain at each request, and on a longer one at a later request. -/
structure Growing (sha256 : Bytes → Bytes) where
  storage : ℕ → BlockStorage
  chain : ℕ → BlockChain sha256
  represents : ∀ i, Represents (storage i) (chain i)
  grows : ∀ i, (chain i).blocks <+: (chain (i + 1)).blocks

namespace Growing

def tail (g : Growing sha256) : Growing sha256 where
  storage i := g.storage (i + 1)
  chain i := g.chain (i + 1)
  represents i := g.represents (i + 1)
  grows i := g.grows (i + 1)

/-- The height of the last block at each request. -/
def lastHeight (g : Growing sha256) (i : ℕ) : ℕ := (g.chain i).tip.header.height

theorem lastHeight_eq (g : Growing sha256) (i : ℕ) : g.lastHeight i = (g.chain i).rest.length := height_tip _

theorem monotone_lastHeight (g : Growing sha256) : Monotone g.lastHeight := by
  refine monotone_nat_of_le_succ fun i => ?_
  have hlen := (g.grows i).length_le
  rw [Chain.length_blocks, Chain.length_blocks] at hlen
  rw [lastHeight_eq, lastHeight_eq]
  omega

end Growing

def heights (blocks : List Block) : List ℕ := blocks.map fun block => block.header.height

/-- A `mapFunction` that keeps the blocks it is passed. -/
def keep (passed : List Block) (block : Block) : Except Str (List Block) := .ok (passed ++ [block])

theorem foldlM_keep : ∀ (blocks passed : List Block), blocks.foldlM keep passed = .ok (passed ++ blocks)
  | [], passed => by rw [List.append_nil]; rfl
  | block :: blocks, passed => by
    have := foldlM_keep blocks (passed ++ [block])
    rw [List.append_assoc, List.singleton_append] at this
    exact this

theorem heights_blocksAbove (c : BlockChain sha256) (fromLastBlockHeight limit : ℕ) :
    heights (blocksAbove c fromLastBlockHeight limit) = Paging.page limit c.rest.length fromLastBlockHeight := by
  unfold heights blocksAbove Paging.page
  refine List.ext_getElem ?_ fun k h1 h2 => ?_
  · rw [List.length_map, List.length_take, List.length_drop, List.length_range']
  · rw [List.length_map, List.length_take, List.length_drop] at h1
    have hk : c.blocks[fromLastBlockHeight + k + 1]? = some c.rest[fromLastBlockHeight + k] :=
      List.getElem?_eq_getElem (l := c.rest) (by omega)
    rw [List.getElem_map, List.getElem_take, List.getElem_drop, height_eq c hk, List.getElem_range']
    omega

/-- **The heights that are passed are those of the walk over the last heights.** -/
theorem scroll_eq (limit : ℕ) : ∀ (fuel : ℕ) (g : Growing sha256) (blockHeight : ℕ) (passed : List Block),
    ∃ blocks, scroll limit keep fuel g.storage blockHeight passed =
        .ok (passed ++ blocks, (Paging.walk limit fuel g.lastHeight blockHeight).2) ∧
      heights blocks = (Paging.walk limit fuel g.lastHeight blockHeight).1 := by
  intro fuel
  induction fuel with
  | zero =>
    intro g blockHeight passed
    exact ⟨[], by rw [List.append_nil]; rfl, rfl⟩
  | succ fuel ih =>
    intro g blockHeight passed
    have hpage : heights (blocksAbove (g.chain 0) blockHeight limit) =
        Paging.page limit (g.lastHeight 0) blockHeight := by
      rw [heights_blocksAbove, g.lastHeight_eq]
    have hempty : (Paging.page limit (g.lastHeight 0) blockHeight).isEmpty =
        (blocksAbove (g.chain 0) blockHeight limit).isEmpty := by
      rw [← hpage, heights, List.isEmpty_map]
    rw [scroll, getBlocks_eq (g.represents 0), Paging.walk, hempty]
    by_cases he : (blocksAbove (g.chain 0) blockHeight limit).isEmpty = true
    · rw [if_pos he]
      refine ⟨[], ?_, rfl⟩
      rw [List.append_nil]
      exact if_pos he
    · rw [if_neg he]
      obtain ⟨blocks, hs, hh⟩ := ih g.tail (blockHeight + limit) (passed ++ blocksAbove (g.chain 0) blockHeight limit)
      refine ⟨blocksAbove (g.chain 0) blockHeight limit ++ blocks, ?_, ?_⟩
      · rw [List.append_assoc] at hs
        refine Eq.trans ?_ hs
        change (if (blocksAbove (g.chain 0) blockHeight limit).isEmpty = true then Except.ok (passed, true)
          else (blocksAbove (g.chain 0) blockHeight limit).foldlM keep passed >>= fun s =>
            scroll limit keep fuel g.tail.storage (blockHeight + limit) s) = _
        rw [if_neg he, foldlM_keep]
        rfl
      · rw [heights, List.map_append, ← heights, ← heights, hpage, hh]
        rfl

/-! ## Completeness -/

/-- The blocks that are passed in the first turns of the loop, and whether it has ended. -/
def passed (g : Growing sha256) (lastBlockHeight : ℕ) (limit : Option ℕ) (fuel : ℕ) : Except Str (List Block × Bool) :=
  mapOverBlocks g.storage lastBlockHeight keep limit fuel []

/-- At every turn, the heights that were passed are `lastBlockHeight + 1` and those after it, each once; and at some turn
they have come to the height that was the last one at the first request. -/
structure PassesAll (g : Growing sha256) (lastBlockHeight : ℕ) (limit : Option ℕ) : Prop where
  consecutive : ∀ fuel, ∃ blocks ended n, passed g lastBlockHeight limit fuel = .ok (blocks, ended) ∧
    heights blocks = List.range' (lastBlockHeight + 1) n
  reaches : ∃ fuel blocks ended n, passed g lastBlockHeight limit fuel = .ok (blocks, ended) ∧
    heights blocks = List.range' (lastBlockHeight + 1) n ∧ g.lastHeight 0 ≤ lastBlockHeight + n

theorem passed_eq (g : Growing sha256) (lastBlockHeight : ℕ) (limit : Option ℕ) (fuel : ℕ) :
    ∃ blocks ended, passed g lastBlockHeight limit fuel = .ok (blocks, ended) ∧
      heights blocks = (Paging.walk (scrollLimit limit) fuel g.lastHeight lastBlockHeight).1 := by
  obtain ⟨blocks, hs, hh⟩ := scroll_eq (scrollLimit limit) fuel g lastBlockHeight []
  exact ⟨blocks, _, hs, hh⟩

theorem passesAll_iff_consecutive (g : Growing sha256) (lastBlockHeight : ℕ) (limit : Option ℕ) :
    PassesAll g lastBlockHeight limit ↔ Paging.Consecutive (scrollLimit limit) g.lastHeight lastBlockHeight := by
  have hwalk : ∀ {fuel n}, (∃ blocks ended, passed g lastBlockHeight limit fuel = .ok (blocks, ended) ∧
      heights blocks = List.range' (lastBlockHeight + 1) n) ↔
      (Paging.walk (scrollLimit limit) fuel g.lastHeight lastBlockHeight).1 = List.range' (lastBlockHeight + 1) n := by
    intro fuel n
    obtain ⟨blocks, ended, hp, hh⟩ := passed_eq g lastBlockHeight limit fuel
    rw [← hh]
    constructor
    · rintro ⟨blocks', ended', hp', hh'⟩
      rw [hp] at hp'
      cases hp'
      exact hh'
    · exact fun h => ⟨blocks, ended, hp, h⟩
  constructor
  · intro h
    constructor
    · intro fuel
      obtain ⟨blocks, ended, n, hb⟩ := h.consecutive fuel
      exact ⟨n, hwalk.1 ⟨blocks, ended, hb⟩⟩
    · obtain ⟨fuel, blocks, ended, n, hp, hh, hlast⟩ := h.reaches
      exact ⟨fuel, n, hwalk.1 ⟨blocks, ended, hp, hh⟩, hlast⟩
  · intro h
    constructor
    · intro fuel
      obtain ⟨n, hn⟩ := h.heights fuel
      obtain ⟨blocks, ended, hb⟩ := hwalk.2 hn
      exact ⟨blocks, ended, n, hb⟩
    · obtain ⟨fuel, n, hn, hlast⟩ := h.reaches
      obtain ⟨blocks, ended, hp, hh⟩ := hwalk.2 hn
      exact ⟨fuel, blocks, ended, n, hp, hh, hlast⟩

/-- **The walk passes all blocks exactly when no page comes after a short one.** -/
theorem passesAll_iff (g : Growing sha256) (lastBlockHeight : ℕ) (limit : Option ℕ) :
    PassesAll g lastBlockHeight limit ↔ Paging.ShortIsLast (scrollLimit limit) g.lastHeight lastBlockHeight := by
  rw [passesAll_iff_consecutive, Paging.consecutive_iff (scrollLimit_pos limit) g.monotone_lastHeight]

/-! ## A chain of empty blocks -/

def emptyBody : BlockBody := { transactions := [], transactionReceipts := [], stateDiff := [] }

/-- The chain of `n` empty blocks on top of genesis. -/
def emptyChain (sha256 : Bytes → Bytes) : ℕ → BlockChain sha256
  | 0 => .nil
  | n + 1 => (emptyChain sha256 n).push (buildNextBlock sha256 emptyBody (some (emptyChain sha256 n).tip))
      (next_buildNextBlock sha256 emptyBody _)

/-- What `addBlock` writes for it. -/
def emptyChainDb (sha256 : Bytes → Bytes) : ℕ → LevelDB
  | 0 => genesisDb sha256 .empty
  | n + 1 => putBlock ((emptyChainDb sha256 n).put LAST_BLOCK_HEIGHT_KEY
      (heightText (emptyChain sha256 (n + 1)).tip.header.height)) (emptyChain sha256 (n + 1)).tip

def emptyChainStorage (sha256 : Bytes → Bytes) (n : ℕ) : BlockStorage where
  lastBlock := some (emptyChain sha256 n).tip
  db := emptyChainDb sha256 n

theorem length_emptyChain (n : ℕ) : (emptyChain sha256 n).rest.length = n := by
  induction n with
  | zero => rfl
  | succ n ih => rw [emptyChain, Chain.rest_push, List.length_append, ih, List.length_singleton]

theorem holds_emptyChainDb {n : ℕ} (hn : n < 2 ^ 32) : Holds (emptyChainDb sha256 n) (emptyChain sha256 n) := by
  induction n with
  | zero => exact holds_genesis
  | succ n ih =>
    rw [emptyChainDb, emptyChain, Chain.tip_push]
    refine (ih (by omega)).push (typed_buildNextBlock sha256 ?_ ?_) (next_buildNextBlock sha256 emptyBody _)
    · rw [height_tip, length_emptyChain]
      exact hn
    · intro tx htx
      cases htx

theorem emptyChain_prefix (n k : ℕ) : (emptyChain sha256 n).blocks <+: (emptyChain sha256 (n + k)).blocks := by
  induction k with
  | zero => exact List.prefix_rfl
  | succ k ih =>
    rw [← Nat.add_assoc, emptyChain, Chain.blocks_push]
    exact ih.trans (List.prefix_append _ _)

/-- One block at the first request, three from the second on. -/
def twoMore (sha256 : Bytes → Bytes) : Growing sha256 where
  storage i := emptyChainStorage sha256 (if i = 0 then 1 else 3)
  chain i := emptyChain sha256 (if i = 0 then 1 else 3)
  represents i := ⟨rfl, holds_emptyChainDb (by split_ifs <;> norm_num)⟩
  grows i := by
    rw [if_neg (Nat.succ_ne_zero i)]
    by_cases h : i = 0
    · rw [if_pos h]
      exact emptyChain_prefix 1 2
    · rw [if_neg h]

/-- **With pages of two, the second block is skipped.** -/
theorem twoMore_gap : ¬ PassesAll (twoMore Sha256.hash) 0 (some 2) := by
  have hlast : ∀ i, (twoMore Sha256.hash).lastHeight i = if i = 0 then 1 else 3 := by
    intro i
    rw [Growing.lastHeight_eq, twoMore]
    exact length_emptyChain _
  rw [passesAll_iff_consecutive, Paging.consecutive_iff (scrollLimit_pos _) (Growing.monotone_lastHeight _)]
  intro h
  have := h 0 (fun j hj => by rw [Nat.le_zero.1 hj, hlast]; decide) (by rw [hlast]; decide)
  rw [hlast] at this
  exact absurd this (by decide)

end MapOverBlocks
end Orbs
