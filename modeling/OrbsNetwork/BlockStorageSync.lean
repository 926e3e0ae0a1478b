import OrbsNetwork.BlockStorageFailures
import OrbsNetwork.BlockStorageService
import OrbsNetwork.Lib.Tower
/-!
# BlockStorageSync — the queue of blocks from a peer

`appendBlocks` empties the queue from its end, keeps of every height the first block that comes out (so the one that
came last), sorts by height, and offers each block to the storage; what `addBlock` throws is logged and forgotten.  The
stored chain is a `Tower` to which the queue is drained (`backs_appendBlocks`).

Blocks of one valid chain that joins the stored one extend it by their longest run (`appends_longest_run`).  Of two
different blocks with one height only the later one has a chance, so the outcome depends on the order of arrival exactly
when a block that could be appended has a rival (`anyOrder_iff`).
-/
namespace Orbs

open Js BlockStorage HashChain

structure BlockStorageSync where
  blockStorage : BlockStorage
  queue : List WireBlock
  /-- The node it is syncing with. -/
  node : Option Str

namespace BlockStorage.Answers

def allOk : Answers := { last := .ok (), block := .ok (), report := .ok () }

def isOk (answers : Answers) : Bool := answers.last.isOk && answers.block.isOk && answers.report.isOk

end BlockStorage.Answers

namespace BlockStorageSync

open BlockStorageService (uniqByHeight sortByHeight)

/-- The constructor. -/
def create (blockStorage : BlockStorage) : BlockStorageSync := { blockStorage, queue := [], node := none }

@[simp] theorem blockStorage_create (blockStorage : BlockStorage) : (create blockStorage).blockStorage = blockStorage := rfl

def onReceiveBlock (s : BlockStorageSync) (block : WireBlock) : BlockStorageSync :=
  { s with queue := s.queue ++ [block] }

/-- Source and destination after every element has been popped from the one and pushed to the other. -/
def copyArray {α : Type} (source destination : List α) : List α × List α := ([], destination ++ source.reverse)

section
variable (sha256 : Bytes → Bytes) (config : BlockStorageConfig)

/-- `appendBlocks` when nothing else runs meanwhile; `answers` has what the database and the transaction pool answer
to the `addBlock` of a block. -/
def appendBlocks (answers : WireBlock → Answers) (s : BlockStorageSync) : BlockStorageSync :=
  let (queue, data) := copyArray s.queue []
  let uniqueBlocks := uniqByHeight data
  let sortedBlocks := sortByHeight uniqueBlocks
  { s with
    queue
    blockStorage := sortedBlocks.foldl (fun blockStorage block =>
      (addBlockAnswered sha256 config (answers block) block.1 blockStorage).2) s.blockStorage }

end

def noFailure : WireBlock → Answers := fun _ => .allOk

variable {sha256 : Bytes → Bytes} {config : BlockStorageConfig}

/-- The stored chain, as what the blocks of a queue are put on. -/
def chainTower (sha256 : Bytes → Bytes) (config : BlockStorageConfig) (answers : WireBlock → Answers) :
    Tower (BlockChain sha256) WireBlock Block where
  items c := c.rest
  item b := b.1
  rank b := b.1.header.height
  accept c b := if (answers b).isOk then append config c b.1 else none
  item_injective := Subtype.val_injective
  rank_eq h := by
    split_ifs at h
    obtain ⟨hn, -⟩ := append_eq_some h
    exact height_of_next hn
  items_eq h := by
    split_ifs at h
    obtain ⟨hn, rfl⟩ := append_eq_some h
    rfl

theorem accept_noFailure (c : BlockChain sha256) (b : WireBlock) :
    (chainTower sha256 config noFailure).accept c b = append config c b.1 := rfl

theorem height_chainTower (answers : WireBlock → Answers) (c : BlockChain sha256) :
    (chainTower sha256 config answers).height c = c.tip.header.height := (height_tip c).symm

/-! ## The storage follows the chain -/

/-- The storage answers from the blocks of the chain, whatever else a failed `addBlock` has left in its database. -/
structure Backs (s : BlockStorage) (c : BlockChain sha256) : Prop where
  lastBlock : s.lastBlock = some c.tip
  block : ∀ {i : ℕ} {b : Block}, c.blocks[i]? = some b → s.getBlock i = .ok b

theorem Backs.of_represents {s : BlockStorage} {c : BlockChain sha256} (h : Represents s c) : Backs s c :=
  ⟨h.lastBlock, fun hb => h.db.readBlock_eq hb⟩

theorem getBlock_congr {s s' : BlockStorage} {i : ℕ} (h : s'.db (heightText i) = s.db (heightText i)) :
    s'.getBlock i = s.getBlock i := by
  rw [getBlock, getBlock, readBlock, readBlock, LevelDB.get, LevelDB.get, h]

/-- Writes to `last` and above the chain go unnoticed. -/
theorem Backs.write {s : BlockStorage} {c : BlockChain sha256} (h : Backs s c) {db : LevelDB}
    (hdb : ∀ i : ℕ, i < c.blocks.length → db (heightText i) = s.db (heightText i)) :
    Backs { lastBlock := some c.tip, db } c := by
  refine ⟨rfl, fun {i b} hb => ?_⟩
  obtain ⟨hi, -⟩ := List.getElem?_eq_some_iff.1 hb
  rw [getBlock_congr (s := s) (hdb i hi)]
  exact h.block hb

theorem Backs.push {s : BlockStorage} {c : BlockChain sha256} (h : Backs s c) {b : WireBlock}
    (hn : (blockView sha256).Next c.tip b.1) :
    Backs { lastBlock := some b.1
            db := putBlock (s.db.put LAST_BLOCK_HEIGHT_KEY (heightText b.1.header.height)) b.1 } (c.push b.1 hn) := by
  refine ⟨by rw [Chain.tip_push], fun {i d} hd => ?_⟩
  have hh := height_of_next hn
  rw [Chain.blocks_push] at hd
  rcases eq_or_ne i c.blocks.length with rfl | hi
  · rw [List.getElem?_concat_length] at hd
    cases hd
    refine readBlock_of_text b.2 ?_
    dsimp only
    rw [putBlock, hh, LevelDB.put_same]
  · obtain ⟨hlen, -⟩ := List.getElem?_eq_some_iff.1 hd
    rw [List.length_append, List.length_singleton] at hlen
    rw [List.getElem?_append_left (by omega)] at hd
    rw [getBlock_congr (s := s)]
    · exact h.block hd
    · dsimp only
      rw [putBlock, LevelDB.put_ne _ _ fun he => hi ((heightText_inj he).trans hh),
        LevelDB.put_ne _ _ (heightText_ne_last i)]

variable (config) in
/-- **`addBlock` on a storage that backs a chain**: it is accepted by the chain, or leaves the chain as it was. -/
theorem backs_addBlock {s : BlockStorage} {c : BlockChain sha256} (h : Backs s c) (answers : WireBlock → Answers)
    (b : WireBlock) : Backs (addBlockAnswered sha256 config (answers b) b.1 s).2
      (((chainTower sha256 config answers).accept c b).getD c) := by
  have haccept : (chainTower sha256 config answers).accept c b =
      if (answers b).isOk then append config c b.1 else none := rfl
  rw [haccept, addBlockAnswered, h.lastBlock]
  cases hv : verifyNewBlock sha256 config (some c.tip) b.1 with
  | error e =>
    rw [append_of_error hv, ite_self]
    exact h
  | ok u =>
    have hn := (verifyNewBlock_eq_ok.1 hv).2.2
    have hlow : ∀ i : ℕ, i < c.blocks.length → heightText i ≠ heightText b.1.header.height := fun i hi he =>
      hi.ne ((heightText_inj he).trans (height_of_next hn))
    rw [append_of_ok hv]
    obtain ⟨last, written, report⟩ := answers b
    cases last with
    | error e => exact h
    | ok u =>
      cases written with
      | error e => exact h.write fun i _ => LevelDB.put_ne _ _ (heightText_ne_last i)
      | ok u =>
        cases report with
        | error e =>
          refine h.write fun i hi => ?_
          rw [putBlock, LevelDB.put_ne _ _ (hlow i hi), LevelDB.put_ne _ _ (heightText_ne_last i)]
        | ok u => exact h.push hn

variable (config) in
/-- **`appendBlocks` drains the queue to the stored chain**, the block that came last first. -/
theorem backs_appendBlocks {s : BlockStorageSync} {c : BlockChain sha256} (h : Backs s.blockStorage c)
    (answers : WireBlock → Answers) : Backs (appendBlocks sha256 config answers s).blockStorage
      ((chainTower sha256 config answers).drain c s.queue.reverse) :=
  List.foldl_rel h fun b _ _ _ hb => backs_addBlock config hb answers b

variable (config) in
theorem represents_appendBlocks {s : BlockStorageSync} {c : BlockChain sha256} (h : Represents s.blockStorage c) :
    Represents (appendBlocks sha256 config noFailure s).blockStorage
      ((chainTower sha256 config noFailure).drain c s.queue.reverse) := by
  refine List.foldl_rel h fun b _ storage d hd => ?_
  rw [accept_noFailure]
  rcases addBlock_spec config hd b with ⟨e, he, -, hr⟩ | ⟨hnone, e, he⟩
  · rw [he]
    exact hr
  · rw [hnone]
    change Represents (addBlock sha256 config (.ok ()) b.1 storage).2 d
    rw [he]
    exact hd

/-! ## A run of the service -/

section
open BlockStorageService (State Caller step)

/-- **An accepted block runs through its four pieces.** -/
theorem run_accepted {s : State} {i : ℕ} {block : WireBlock} {rest : List WireBlock}
    (h : s.callers[i]? = some { flight := none, rest := block :: rest })
    (hv : verifyNewBlock sha256 config s.blockStorage.lastBlock block.1 = .ok ()) :
    Lts.run (step sha256 config) s [.call i, .put i, .put i, .report i (.ok ())] = some { s with
      blockStorage := (addBlockAnswered sha256 config .allOk block.1 s.blockStorage).2
      callers := s.callers.set i { flight := none, rest } } := by
  obtain ⟨hi, -⟩ := List.getElem?_eq_some_iff.1 h
  have hset : ∀ (callers : List Caller) (c : Caller), i < callers.length → (callers.set i c)[i]? = some c :=
    fun _ _ hi => List.getElem?_set_self hi
  simp only [Lts.run, step, h, hv, BlockStorageService.setCaller, Option.bind_some, hset _ _ hi, List.set_set,
    addBlockAnswered, Answers.allOk]

theorem run_rejected {s : State} {i : ℕ} {block : WireBlock} {rest : List WireBlock} {e : Str}
    (h : s.callers[i]? = some { flight := none, rest := block :: rest })
    (hv : verifyNewBlock sha256 config s.blockStorage.lastBlock block.1 = .error e) :
    Lts.run (step sha256 config) s [.call i] = some { s with
      blockStorage := (addBlockAnswered sha256 config .allOk block.1 s.blockStorage).2
      callers := s.callers.set i { flight := none, rest } } := by
  simp only [Lts.run, step, h, hv, BlockStorageService.setCaller, Option.bind_some, addBlockAnswered]

variable (sha256 config) in
/-- **A caller that runs alone leaves what `addBlock`, one block after the other, leaves.** -/
theorem exists_run_caller (blocks : List WireBlock) {s : State} {i : ℕ}
    (h : s.callers[i]? = some { flight := none, rest := blocks }) :
    ∃ as, Lts.run (step sha256 config) s as = some { s with
      blockStorage := blocks.foldl (fun blockStorage block =>
        (addBlockAnswered sha256 config .allOk block.1 blockStorage).2) s.blockStorage
      callers := s.callers.set i { flight := none, rest := [] } } := by
  induction blocks generalizing s with
  | nil =>
    obtain ⟨hi, hc⟩ := List.getElem?_eq_some_iff.1 h
    refine ⟨[], congrArg some ?_⟩
    rw [List.foldl_nil, ← hc, List.set_getElem_self]
  | cons block blocks ih =>
    obtain ⟨hi, -⟩ := List.getElem?_eq_some_iff.1 h
    obtain ⟨first, hfirst⟩ : ∃ as, Lts.run (step sha256 config) s as = some { s with
        blockStorage := (addBlockAnswered sha256 config .allOk block.1 s.blockStorage).2
        callers := s.callers.set i { flight := none, rest := blocks } } := by
      cases hv : verifyNewBlock sha256 config s.blockStorage.lastBlock block.1 with
      | error e => exact ⟨_, run_rejected h hv⟩
      | ok u => exact ⟨_, run_accepted h hv⟩
    obtain ⟨rest, hrest⟩ := ih (s := { s with
      blockStorage := (addBlockAnswered sha256 config .allOk block.1 s.blockStorage).2
      callers := s.callers.set i { flight := none, rest := blocks } }) (List.getElem?_set_self hi)
    refine ⟨first ++ rest, ?_⟩
    rw [Lts.run_append, hfirst, Option.bind_some, hrest]
    dsimp only
    rw [List.set_set, List.foldl_cons]

/-- **`appendBlocks` is a run of the service**, the one in which its caller runs alone. -/
theorem exists_run_appendBlocks {s : State} (hs : s.callers = []) :
    ∃ as s', Lts.run (step sha256 config) (BlockStorageService.appendBlocks s) as = some s' ∧
      { blockStorage := s'.blockStorage, queue := s'.queue, node := s'.node } =
        appendBlocks sha256 config noFailure
          { blockStorage := s.blockStorage, queue := s.queue, node := s.node } := by
  have hcaller : (BlockStorageService.appendBlocks s).callers[0]? =
      some { flight := none, rest := sortByHeight (uniqByHeight s.queue.reverse) } := by
    rw [BlockStorageService.appendBlocks, hs]
    rfl
  obtain ⟨as, has⟩ := exists_run_caller sha256 config _ hcaller
  exact ⟨as, _, has, rfl⟩

end

/-! ## Blocks of one chain -/

/-- Every block passes verification on top of the one before it. -/
def ValidChain (sha256 : Bytes → Bytes) (config : BlockStorageConfig) (source : List WireBlock) : Prop :=
  source.IsChain fun a b => verifyNewBlock sha256 config (some a.1) b.1 = .ok ()

/-- The source extends or overlaps the stored chain: if it has a block just above the last one, that block follows it. -/
def Joins (config : BlockStorageConfig) (c : BlockChain sha256) (source : List WireBlock) : Prop :=
  ∀ b ∈ source, b.1.header.height = c.tip.header.height + 1 → verifyNewBlock sha256 config (some c.tip) b.1 = .ok ()

theorem ValidChain.height_add {source : List WireBlock} (h : ValidChain sha256 config source) (i : ℕ) :
    ∀ k (hk : i + k < source.length), source[i + k].1.header.height = source[i].1.header.height + k
  | 0, _ => rfl
  | k + 1, hk => by
    have hn := (verifyNewBlock_eq_ok.1 (List.isChain_iff_getElem.1 h (i + k) hk)).2.2.1
    have ih := h.height_add i k (by omega)
    exact hn.trans (congrArg Nat.succ ih)

/-- In a valid chain the block of the next height follows. -/
theorem ValidChain.verify_of_mem {source : List WireBlock} (h : ValidChain sha256 config source) {a b : WireBlock}
    (ha : a ∈ source) (hb : b ∈ source) (hh : b.1.header.height = a.1.header.height + 1) :
    verifyNewBlock sha256 config (some a.1) b.1 = .ok () := by
  obtain ⟨i, hi, rfl⟩ := List.getElem_of_mem ha
  obtain ⟨j, hj, rfl⟩ := List.getElem_of_mem hb
  rcases le_total i j with hij | hij
  · obtain ⟨k, rfl⟩ := Nat.exists_eq_add_of_le hij
    rw [h.height_add i k hj] at hh
    obtain rfl : k = 1 := by omega
    exact List.isChain_iff_getElem.1 h i hj
  · obtain ⟨k, rfl⟩ := Nat.exists_eq_add_of_le hij
    rw [h.height_add j k hi] at hh
    omega

/-- A source that begins on top of the stored chain extends it. -/
theorem joins_of_follows {c : BlockChain sha256} {b : WireBlock} {source : List WireBlock}
    (h : ValidChain sha256 config (b :: source)) (hb : verifyNewBlock sha256 config (some c.tip) b.1 = .ok ()) :
    Joins config c (b :: source) := by
  intro d hd hh
  obtain ⟨k, hk, rfl⟩ := List.getElem_of_mem hd
  have hheight := h.height_add 0 k (by simpa using hk)
  have hnext : b.1.header.height = c.tip.header.height + 1 := (verifyNewBlock_eq_ok.1 hb).2.2.1
  simp only [Nat.zero_add, List.getElem_cons_zero] at hheight
  obtain rfl : k = 0 := by omega
  exact hb

/-- A source that has the last block overlaps the stored chain. -/
theorem joins_of_tip_mem {c : BlockChain sha256} {source : List WireBlock} (h : ValidChain sha256 config source)
    {last : WireBlock} (hl : last ∈ source) (ht : last.1 = c.tip) : Joins config c source := by
  intro b hb hh
  rw [← ht] at hh ⊢
  exact h.verify_of_mem hl hb hh

theorem tip_of_built {c d : BlockChain sha256} {answers : WireBlock → Answers} {blocks : List WireBlock}
    (h : (chainTower sha256 config answers).Built blocks c d) : d = c ∨ ∃ b ∈ blocks, b.1 = d.tip := by
  rcases Relation.ReflTransGen.cases_tail h with rfl | ⟨e, -, b, hb, he⟩
  · exact .inl rfl
  · refine .inr ⟨b, hb, ?_⟩
    change (if (answers b).isOk then append config e b.1 else none) = some d at he
    split_ifs at he
    obtain ⟨hn, rfl⟩ := append_eq_some he
    rw [Chain.tip_push]

/-- The chain has been extended by the longest run of consecutive heights above its last one that `received` has. -/
structure ExtendedByLongestRun (c d : BlockChain sha256) (received added : List WireBlock) : Prop where
  blocks : d.blocks = c.blocks ++ added.map Subtype.val
  fromReceived : ∀ b ∈ added, b ∈ received
  heights : added.map (fun b => b.1.header.height) = List.range' (c.tip.header.height + 1) added.length
  longest : ∀ b ∈ received, b.1.header.height ≠ c.tip.header.height + added.length + 1

theorem queue_onReceiveBlock (received : List WireBlock) (s : BlockStorageSync) :
    received.foldl onReceiveBlock s = { s with queue := s.queue ++ received } := by
  induction received generalizing s with
  | nil => rw [List.foldl_nil, List.append_nil]
  | cons b received ih => rw [List.foldl_cons, ih, onReceiveBlock, List.append_assoc, List.singleton_append]

/-- **Sync appends everything it can**: blocks of one valid chain that joins the stored one, received in any order, with
repetitions and gaps, extend the stored chain by their longest run, and by nothing else. -/
theorem appends_longest_run {s : BlockStorage} {c : BlockChain sha256} (h : Represents s c)
    {source received : List WireBlock} (hv : ValidChain sha256 config source) (hj : Joins config c source)
    (hr : ∀ b ∈ received, b ∈ source) :
    (appendBlocks sha256 config noFailure (received.foldl onReceiveBlock (create s))).queue = [] ∧
      ∃ (d : BlockChain sha256) (added : List WireBlock),
        Represents (appendBlocks sha256 config noFailure (received.foldl onReceiveBlock (create s))).blockStorage d ∧
          ExtendedByLongestRun c d received added := by
  rw [queue_onReceiveBlock]
  refine ⟨rfl, (chainTower sha256 config noFailure).drain c received.reverse, ?_⟩
  have haccept : ∀ d, (chainTower sha256 config noFailure).Built received.reverse c d → ∀ b ∈ received.reverse,
      (chainTower sha256 config noFailure).rank b = (chainTower sha256 config noFailure).height d + 1 →
      ((chainTower sha256 config noFailure).accept d b).isSome = true := by
    intro d hd b hb hh
    have hsource := hr b (List.mem_reverse.1 hb)
    rw [height_chainTower] at hh
    have hok : verifyNewBlock sha256 config (some d.tip) b.1 = .ok () := by
      rcases tip_of_built hd with rfl | ⟨last, hlast, ht⟩
      · exact hj b hsource hh
      · rw [← ht] at hh ⊢
        exact hv.verify_of_mem (hr last (List.mem_reverse.1 hlast)) hsource hh
    rw [accept_noFailure, append_of_ok hok]
    rfl
  obtain ⟨added, hitems, hmem, hrank, hlongest⟩ := Tower.exists_longest_run haccept
  rw [height_chainTower] at hrank hlongest
  refine ⟨added, ?_, ?_, fun b hb => List.mem_reverse.1 (hmem b hb), hrank,
    fun b hb => hlongest b (List.mem_reverse.2 hb)⟩
  · exact represents_appendBlocks config (s := { create s with queue := received }) h
  · exact congrArg (generateGenesisBlock sha256 :: ·) hitems

theorem verify_firstBlock (receipts : Bytes) :
    verifyNewBlock Sha256.hash .unsigned (some (Chain.nil : BlockChain Sha256.hash).tip) (firstBlock receipts).1 = .ok () := by
  rw [verifyNewBlock_eq_ok]
  exact ⟨rfl, rfl, rfl, rfl⟩

def thirdBlock : WireBlock := emptyBlock secondBlock (by decide)

def fourthBlock : WireBlock := emptyBlock thirdBlock (by decide)

theorem validChain_fourthBlock :
    ValidChain Sha256.hash .unsigned [firstBlock [], secondBlock, thirdBlock, fourthBlock] :=
  .cons_cons (verify_emptyBlock _ _) (.cons_cons (verify_emptyBlock _ _) (.cons_cons (verify_emptyBlock _ _) (.singleton _)))

/-- The third block is missing, and the second comes twice. -/
def withGap : List WireBlock := [fourthBlock, secondBlock, firstBlock [], secondBlock]

theorem heights_withGap : withGap.map (fun b => b.1.header.height) = [4, 2, 1, 2] := rfl

/-- The longest run ends below the gap. -/
theorem ExtendedByLongestRun.length_withGap {d : BlockChain Sha256.hash} {added : List WireBlock}
    (h : ExtendedByLongestRun Chain.nil d withGap added) : added.length = 2 := by
  have hreceived : ∀ n, n ∈ withGap.map (fun b => b.1.header.height) ↔ n = 4 ∨ n = 2 ∨ n = 1 := by
    intro n
    rw [heights_withGap]
    simp only [List.mem_cons, List.not_mem_nil, or_false]
    tauto
  have hend : added.length + 1 ∉ withGap.map fun b => b.1.header.height := by
    intro hm
    obtain ⟨b, hb, hheight⟩ := List.mem_map.1 hm
    exact h.longest b hb (hheight.trans (congrArg (· + 1) (Nat.zero_add _).symm))
  have hrun : ∀ n, 1 ≤ n → n ≤ added.length → n ∈ withGap.map fun b => b.1.header.height := by
    intro n hle hlength
    have hm : n ∈ added.map fun b => b.1.header.height := by
      rw [h.heights]
      exact List.mem_range'_1.2 ⟨hle, by change n < 0 + 1 + added.length; omega⟩
    obtain ⟨b, hb, hheight⟩ := List.mem_map.1 hm
    exact List.mem_map.2 ⟨b, h.fromReceived b hb, hheight⟩
  rw [hreceived] at hend
  by_contra hne
  have h3 := (hreceived 3).1 (hrun 3 (by omega) (by omega))
  omega

theorem appends_longest_run_withGap :
    ∃ (d : BlockChain Sha256.hash) (added : List WireBlock),
      Represents (appendBlocks Sha256.hash .unsigned noFailure
        (withGap.foldl onReceiveBlock (create (load Sha256.hash (opened .empty)).2))).blockStorage d ∧
      ExtendedByLongestRun Chain.nil d withGap added ∧ added.length = 2 := by
  have hjoins := joins_of_follows validChain_fourthBlock (verify_firstBlock [])
  have hmem : ∀ b ∈ withGap, b ∈ [firstBlock [], secondBlock, thirdBlock, fourthBlock] := by
    intro b hb
    simp only [withGap, List.mem_cons, List.not_mem_nil, or_false] at hb ⊢
    tauto
  obtain ⟨-, d, added, hd, h⟩ := appends_longest_run (load_empty Sha256.hash).2 validChain_fourthBlock hjoins hmem
  exact ⟨d, added, hd, h, h.length_withGap⟩

/-! ## The order of arrival -/

/-- What can be built on the stored chain with blocks of the queue, each verifying on top of the one before. -/
def Built (config : BlockStorageConfig) (blocks : List WireBlock) : BlockChain sha256 → BlockChain sha256 → Prop :=
  Relation.ReflTransGen fun c d => ∃ b ∈ blocks, append config c b.1 = some d

/-- A block of the queue that verifies on such a chain is the only one of its height in the queue. -/
def Unrivalled (config : BlockStorageConfig) (c : BlockChain sha256) (blocks : List WireBlock) : Prop :=
  ∀ d, Built config blocks c d → ∀ b ∈ blocks, verifyNewBlock sha256 config (some d.tip) b.1 = .ok () →
    ∀ b' ∈ blocks, b'.1.header.height = b.1.header.height → b' = b

def SameChain (sha256 : Bytes → Bytes) (s s' : BlockStorage) : Prop :=
  ∃ c : BlockChain sha256, Represents s c ∧ Represents s' c

theorem isSome_append_iff {c : BlockChain sha256} {b : Block} :
    (append config c b).isSome = true ↔ verifyNewBlock sha256 config (some c.tip) b = .ok () := by
  constructor
  · intro h
    obtain ⟨d, hd⟩ := Option.isSome_iff_exists.1 h
    exact verify_of_append hd
  · intro h
    rw [append_of_ok h]
    rfl

theorem unrivalled_chainTower {c : BlockChain sha256} {blocks : List WireBlock} :
    (chainTower sha256 config noFailure).Unrivalled c blocks ↔ Unrivalled config c blocks := by
  refine forall_congr' fun d => imp_congr Iff.rfl (forall_congr' fun b => imp_congr Iff.rfl ?_)
  rw [accept_noFailure, isSome_append_iff]
  rfl

theorem blockText_injective {a b : Block} (ha : a.Typed) (hb : b.Typed) (h : blockText a = blockText b) : a = b := by
  have hp := blockText_parses ha
  rw [h, blockText_parses hb] at hp
  exact (Option.some_inj.1 hp).symm

/-- A storage holds one chain. -/
theorem represents_unique {s : BlockStorage} {c d : BlockChain sha256} (hc : Represents s c) (hd : Represents s d) :
    c = d := by
  have hlen : c.rest.length = d.rest.length := by
    have hlast := hc.db.last
    rw [hd.db.last] at hlast
    exact (heightText_inj (Option.some_inj.1 hlast)).symm
  have hblocks : c.blocks = d.blocks := by
    refine List.ext_getElem (congrArg Nat.succ hlen) fun i h₁ h₂ => ?_
    have htext := hc.db.block i
    rw [hd.db.block, List.getElem?_eq_getElem h₁, List.getElem?_eq_getElem h₂] at htext
    exact (blockText_injective (hd.db.typed _ (List.getElem_mem h₂)) (hc.db.typed _ (List.getElem_mem h₁))
      (Option.some_inj.1 htext)).symm
  exact Chain.ext (List.cons.inj hblocks).2

theorem sameChain_iff {s : BlockStorageSync} {c : BlockChain sha256} (h : Represents s.blockStorage c)
    (q₁ q₂ : List WireBlock) :
    SameChain sha256 (appendBlocks sha256 config noFailure { s with queue := q₁ }).blockStorage
        (appendBlocks sha256 config noFailure { s with queue := q₂ }).blockStorage ↔
      (chainTower sha256 config noFailure).drain c q₁.reverse =
        (chainTower sha256 config noFailure).drain c q₂.reverse := by
  have h₁ := represents_appendBlocks config (s := { s with queue := q₁ }) h
  have h₂ := represents_appendBlocks config (s := { s with queue := q₂ }) h
  constructor
  · rintro ⟨d, hd₁, hd₂⟩
    exact (represents_unique h₁ hd₁).trans (represents_unique h₂ hd₂).symm
  · intro he
    rw [← he] at h₂
    exact ⟨_, h₁, h₂⟩

/-- **Sync leaves the same chain for every order of arrival exactly when no block that could be appended has a rival**,
another block of its height. -/
theorem anyOrder_iff {s : BlockStorageSync} {c : BlockChain sha256} (h : Represents s.blockStorage c)
    (blocks : List WireBlock) :
    (∀ q₁ q₂ : List WireBlock, q₁.Perm blocks → q₂.Perm blocks →
      SameChain sha256 (appendBlocks sha256 config noFailure { s with queue := q₁ }).blockStorage
        (appendBlocks sha256 config noFailure { s with queue := q₂ }).blockStorage) ↔
      Unrivalled config c blocks := by
  rw [← unrivalled_chainTower, ← Tower.drain_unique_iff]
  constructor
  · intro hs l₁ l₂ h₁ h₂
    have hsame := (sameChain_iff h l₁.reverse l₂.reverse).1
      (hs _ _ ((List.reverse_perm l₁).trans h₁) ((List.reverse_perm l₂).trans h₂))
    rwa [List.reverse_reverse, List.reverse_reverse] at hsame
  · intro hd q₁ q₂ h₁ h₂
    exact (sameChain_iff h q₁ q₂).2 (hd _ _ ((List.reverse_perm q₁).trans h₁) ((List.reverse_perm q₂).trans h₂))

/-- A sync whose storage has the genesis block alone. -/
def genesisSync : BlockStorageSync := create (load Sha256.hash (opened .empty)).2

theorem represents_genesisSync : Represents genesisSync.blockStorage (Chain.nil : BlockChain Sha256.hash) := by
  have h := (load_empty Sha256.hash).2
  rwa [← blockStorage_create (load Sha256.hash (opened .empty)).2] at h

theorem unrivalled_twoBlocks :
    Unrivalled .unsigned (Chain.nil : BlockChain Sha256.hash) [firstBlock [], secondBlock] := by
  have h₁ : (firstBlock []).1.header.height = 1 := rfl
  have h₂ : secondBlock.1.header.height = 2 := rfl
  intro d _ b hb _ b' hb' hh
  simp only [List.mem_cons, List.not_mem_nil, or_false] at hb hb'
  rcases hb with rfl | rfl
  · rcases hb' with rfl | rfl
    · rfl
    · rw [h₁, h₂] at hh
      cases hh
  · rcases hb' with rfl | rfl
    · rw [h₁, h₂] at hh
      cases hh
    · rfl

theorem anyOrder_twoBlocks : SameChain Sha256.hash
    (appendBlocks Sha256.hash .unsigned noFailure
      { genesisSync with queue := [firstBlock [], secondBlock] }).blockStorage
    (appendBlocks Sha256.hash .unsigned noFailure
      { genesisSync with queue := [secondBlock, firstBlock []] }).blockStorage :=
  (anyOrder_iff represents_genesisSync _).2 unrivalled_twoBlocks _ _ (.refl _) (.swap _ _ _)

/-- A block of the height of `firstBlock []` whose version nobody accepts. -/
def badBlock : WireBlock :=
  ⟨{ (firstBlock []).1 with header := { (firstBlock []).1.header with version := 1 } },
    (by decide : 1 < 2 ^ 32), (firstBlock []).2.height, (firstBlock []).2.transactions⟩

theorem append_badBlock (c : BlockChain Sha256.hash) : append .unsigned c badBlock.1 = none := by
  rw [Option.eq_none_iff_forall_ne_some]
  intro d hd
  have hversion : (1 : ℕ) = 0 := (verifyNewBlock_eq_ok.1 (verify_of_append hd)).2.1
  cases hversion

/-- **A bad block that comes after a good one of its height keeps it out**; the other way round the good one is stored. -/
theorem badBlock_first_or_last : ¬ SameChain Sha256.hash
    (appendBlocks Sha256.hash .unsigned noFailure { genesisSync with queue := [badBlock, firstBlock []] }).blockStorage
    (appendBlocks Sha256.hash .unsigned noFailure
      { genesisSync with queue := [firstBlock [], badBlock] }).blockStorage := by
  have hrank : badBlock.1.header.height = (firstBlock []).1.header.height := rfl
  have hfirst : ([badBlock, firstBlock []] : List WireBlock).reverse = [firstBlock [], badBlock] := rfl
  have hlast : ([firstBlock [], badBlock] : List WireBlock).reverse = [badBlock, firstBlock []] := rfl
  rw [sameChain_iff represents_genesisSync, hfirst, hlast, Tower.drain_pair _ hrank, Tower.drain_pair _ hrank.symm,
    accept_noFailure, accept_noFailure, append_badBlock, append_of_ok (verify_firstBlock [])]
  intro h
  have hlen := congrArg (fun c => c.rest.length) h
  cases hlen

end BlockStorageSync
end Orbs
