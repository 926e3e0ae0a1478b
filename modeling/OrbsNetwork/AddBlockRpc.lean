import OrbsNetwork.BlockStorageSync
/-!
# AddBlockRpc — when the `addBlock` of the service says that the block is stored

While the service is not syncing, `addBlock` passes the block to the storage and its error to the caller.  While it is,
the block joins the queue, the queue is drained, and the call resolves whatever became of the block.  So a call that
resolves means a stored block exactly when the service is not syncing, or the block was stored before, or the queue has
what is missing between the stored chain and the block (`resolved_means_stored_iff`).
-/
namespace Orbs
namespace BlockStorageSync

open Js BlockStorage HashChain StateTransition

def isSyncing (s : BlockStorageSync) : Bool := s.node.isSome

def on (s : BlockStorageSync) (node : Str) : BlockStorageSync := { s with node := some node }

@[simp] theorem blockStorage_on (s : BlockStorageSync) (node : Str) : (s.on node).blockStorage = s.blockStorage := rfl

/-- `addBlock` of the service when nothing else runs meanwhile. -/
def addBlock (sha256 : Bytes → Bytes) (config : BlockStorageConfig) (answers : WireBlock → Answers) (block : WireBlock)
    (s : BlockStorageSync) : Except Str Unit × BlockStorageSync :=
  if s.isSyncing then (.ok (), appendBlocks sha256 config answers (onReceiveBlock s block))
  else
    let (result, blockStorage) := addBlockAnswered sha256 config (answers block) block.1 s.blockStorage
    (result, { s with blockStorage })

/-- The storage has the block at its height, and its last block is not below. -/
def Stored (s : BlockStorage) (block : Block) : Prop :=
  s.getBlock block.header.height = .ok block ∧ ∃ last, s.lastBlock = some last ∧ block.header.height ≤ last.header.height

/-- Of the queued blocks with a height the one that came last. -/
def newest (queue : List WireBlock) (height : ℕ) : Option WireBlock :=
  queue.reverse.find? fun b => b.1.header.height = height

variable {sha256 : Bytes → Bytes} {config : BlockStorageConfig}

/-- The queued blocks lead from one chain to the other: of every height the newest one verifies on top of the one before
it, and is written without failure. -/
def Leads (config : BlockStorageConfig) (answers : WireBlock → Answers) (queue : List WireBlock) :
    BlockChain sha256 → BlockChain sha256 → Prop :=
  Relation.ReflTransGen fun c d => ∃ b, newest queue (c.tip.header.height + 1) = some b ∧ (answers b).isOk = true ∧
    append config c b.1 = some d

theorem stored_iff {s : BlockStorage} {c : BlockChain sha256} (h : Backs s c) (block : Block) :
    Stored s block ↔ block ∈ c.blocks := by
  constructor
  · rintro ⟨hget, last, hl, hle⟩
    rw [h.lastBlock, Option.some_inj] at hl
    rw [← hl, height_tip] at hle
    have hlt : block.header.height < c.blocks.length := Nat.lt_succ_of_le hle
    rw [h.block (List.getElem?_eq_getElem hlt), Except.ok.injEq] at hget
    exact hget ▸ List.getElem_mem hlt
  · intro hmem
    obtain ⟨i, hi⟩ := List.mem_iff_getElem?.1 hmem
    obtain ⟨hlt, -⟩ := List.getElem?_eq_some_iff.1 hi
    have hheight := height_eq c hi
    rw [Stored, hheight]
    refine ⟨h.block hi, c.tip, h.lastBlock, ?_⟩
    rw [height_tip]
    exact Nat.le_of_lt_succ hlt

theorem accept_eq_some {answers : WireBlock → Answers} {c d : BlockChain sha256} {b : WireBlock} :
    (chainTower sha256 config answers).accept c b = some d ↔ (answers b).isOk = true ∧ append config c b.1 = some d := by
  change (if (answers b).isOk then append config c b.1 else none) = some d ↔ _
  by_cases h : (answers b).isOk = true
  · rw [if_pos h]
    exact (and_iff_right h).symm
  · rw [if_neg h]
    exact iff_of_false nofun fun hd => h hd.1

theorem leads_iff_reaches {answers : WireBlock → Answers} {queue : List WireBlock} {c d : BlockChain sha256} :
    Leads config answers queue c d ↔ Reaches ((chainTower sha256 config answers).climb queue.reverse) c d := by
  have hstep : ∀ c d : BlockChain sha256, (∃ b, newest queue (c.tip.header.height + 1) = some b ∧
      (answers b).isOk = true ∧ append config c b.1 = some d) ↔
      d ∈ (chainTower sha256 config answers).climb queue.reverse c := by
    intro c d
    rw [Option.mem_def, Tower.climb_eq_some, height_chainTower]
    exact exists_congr fun b => and_congr Iff.rfl accept_eq_some.symm
  exact ⟨Relation.ReflTransGen.mono (fun c d => (hstep c d).1) _ _,
    Relation.ReflTransGen.mono (fun c d => (hstep c d).2) _ _⟩

theorem isSome_accept_iff {answers : WireBlock → Answers} {c : BlockChain sha256} {b : WireBlock} :
    ((chainTower sha256 config answers).accept c b).isSome = true ↔
      (answers b).isOk = true ∧ verifyNewBlock sha256 config (some c.tip) b.1 = .ok () := by
  rw [Option.isSome_iff_exists, ← isSome_append_iff, Option.isSome_iff_exists]
  constructor
  · rintro ⟨d, hd⟩
    exact ⟨(accept_eq_some.1 hd).1, d, (accept_eq_some.1 hd).2⟩
  · rintro ⟨hok, d, hd⟩
    exact ⟨d, accept_eq_some.2 ⟨hok, hd⟩⟩

/-- **What the sync stores**: the block is on the chain that `appendBlocks` leaves if it was before, or if the queue
leads to it. -/
theorem stored_appendBlocks_iff {s : BlockStorageSync} {c : BlockChain sha256} (h : Backs s.blockStorage c)
    (answers : WireBlock → Answers) (block : WireBlock) :
    Stored (appendBlocks sha256 config answers (onReceiveBlock s block)).blockStorage block.1 ↔
      block.1 ∈ c.blocks ∨ ∃ d, Leads config answers s.queue c d ∧ (answers block).isOk = true ∧
        verifyNewBlock sha256 config (some d.tip) block.1 = .ok () := by
  have hback := backs_appendBlocks config (s := onReceiveBlock s block) h answers
  have hqueue : (onReceiveBlock s block).queue.reverse = block :: s.queue.reverse := List.reverse_concat
  rw [hqueue] at hback
  have hdrain := Tower.mem_items_drain_cons (T := chainTower sha256 config answers) c s.queue.reverse block
  rw [stored_iff hback]
  change block.1 ∈ generateGenesisBlock sha256 :: _ ↔ block.1 ∈ generateGenesisBlock sha256 :: _ ∨ _
  rw [List.mem_cons, List.mem_cons, or_assoc]
  refine or_congr Iff.rfl (hdrain.trans (or_congr Iff.rfl (exists_congr fun d => ?_)))
  rw [leads_iff_reaches, isSome_accept_iff]

/-- **A block that the storage adds without an error is accepted by the chain.** -/
theorem accept_of_resolved {s : BlockStorage} {c : BlockChain sha256} (h : Backs s c) {answers : WireBlock → Answers}
    {block : WireBlock} (hok : (addBlockAnswered sha256 config (answers block) block.1 s).1 = .ok ()) :
    ((chainTower sha256 config answers).accept c block).isSome = true := by
  rw [isSome_accept_iff, ← h.lastBlock]
  unfold addBlockAnswered at hok
  generalize answers block = a at hok ⊢
  cases hv : verifyNewBlock sha256 config s.lastBlock block.1 with
  | error e =>
    rw [hv] at hok
    cases hok
  | ok u =>
    refine ⟨?_, rfl⟩
    rw [hv] at hok
    obtain ⟨last, written, report⟩ := a
    cases last with
    | error e => cases hok
    | ok u =>
      cases written with
      | error e => cases hok
      | ok u =>
        cases report with
        | error e => cases hok
        | ok u => rfl

/-- **A call of `addBlock` that resolves means a stored block exactly when** the service is not syncing, the block was
stored before, or the queue leads to it. -/
theorem resolved_means_stored_iff {s : BlockStorageSync} {c : BlockChain sha256} (h : Backs s.blockStorage c)
    (answers : WireBlock → Answers) (block : WireBlock) :
    ((addBlock sha256 config answers block s).1 = .ok () →
        Stored (addBlock sha256 config answers block s).2.blockStorage block.1) ↔
      s.node = none ∨ block.1 ∈ c.blocks ∨ ∃ d, Leads config answers s.queue c d ∧ (answers block).isOk = true ∧
        verifyNewBlock sha256 config (some d.tip) block.1 = .ok () := by
  rw [addBlock, isSyncing]
  cases hnode : s.node with
  | some node =>
    rw [Option.isSome_some, if_pos rfl, stored_appendBlocks_iff h]
    simp
  | none =>
    rw [Option.isSome_none, if_neg Bool.false_ne_true]
    refine iff_of_true (fun hok => ?_) (.inl rfl)
    have hback := backs_addBlock config h answers block
    dsimp only at hok ⊢
    obtain ⟨d, hd⟩ := Option.isSome_iff_exists.1 (accept_of_resolved h hok)
    rw [hd, Option.getD_some] at hback
    obtain ⟨hn, rfl⟩ := append_eq_some (accept_eq_some.1 hd).2
    rw [stored_iff hback, Chain.blocks_push]
    exact List.mem_append_right _ List.mem_cons_self

/-- A service on the genesis block that is syncing with a peer. -/
def syncing : BlockStorageSync := genesisSync.on "node2".toList

theorem backs_syncing : Backs syncing.blockStorage (Chain.nil : BlockChain Sha256.hash) := by
  rw [syncing, blockStorage_on]
  exact .of_represents represents_genesisSync

theorem resolved_means_stored_firstBlock :
    Stored (addBlock Sha256.hash .unsigned noFailure (firstBlock []) syncing).2.blockStorage (firstBlock []).1 :=
  (resolved_means_stored_iff backs_syncing noFailure (firstBlock [])).2
    (.inr (.inr ⟨Chain.nil, .refl, rfl, verify_firstBlock []⟩)) rfl

/-- **While the service is syncing, a block that does not fit is lost and its `addBlock` resolves.** -/
theorem secondBlock_resolved_not_stored :
    ¬ ((addBlock Sha256.hash .unsigned noFailure secondBlock syncing).1 = .ok () →
      Stored (addBlock Sha256.hash .unsigned noFailure secondBlock syncing).2.blockStorage secondBlock.1) := by
  have hheight : secondBlock.1.header.height = 2 := rfl
  have hgenesis : (Chain.nil : BlockChain Sha256.hash).tip.header.height = 0 := rfl
  have hresolves : addBlock Sha256.hash .unsigned noFailure secondBlock syncing =
    (.ok (), appendBlocks Sha256.hash .unsigned noFailure (onReceiveBlock syncing secondBlock)) := rfl
  rw [hresolves, stored_appendBlocks_iff backs_syncing]
  intro h
  rcases h rfl with hmem | ⟨d, hd, -, hv⟩
  · rw [List.mem_singleton.1 hmem] at hheight
    cases hheight
  · have hnil : d = Chain.nil := by
      rcases Relation.ReflTransGen.cases_head hd with rfl | ⟨e, ⟨b, hb, -⟩, -⟩
      · rfl
      · cases hb
    have hnext : secondBlock.1.header.height = d.tip.header.height + 1 := (verifyNewBlock_eq_ok.1 hv).2.2.1
    rw [hnil, hheight, hgenesis] at hnext
    cases hnext

end BlockStorageSync
end Orbs
