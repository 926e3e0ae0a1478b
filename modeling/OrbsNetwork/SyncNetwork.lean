import OrbsNetwork.SyncPeer
import OrbsNetwork.SendNewBlocks
import OrbsNetwork.BlockStorageSync
import OrbsNetwork.Lib.Soup
/-!
# SyncNetwork — block storages that sync with one another

Every node runs the block storage service: it adds blocks that the consensus hands it and blocks that its peers send, answers
its peers' questions, and may be restarted from its database at any point.  The gossip may lose a message, repeat it,
delay it or deliver it to somebody else.

As long as all blocks that the consensus hands to any node are of one chain, all nodes hold that chain: whatever block a
database answers for a height is the chain's, and under its last block a node has all of them (`agreement`).  That needs
no care about how the `addBlock`s of a node overlap, which does break a node's storage when there are two chains.
-/
namespace Orbs
namespace SyncNetwork

open Js BlockStorage HashChain
open BlockStorageSync (Backs)

structure Packet where
  fromAddress : Str
  recipient : Option Str
  messageType : Str
  buffer : Bytes

/-- A call of `onSendNewBlocks` that awaits `getBlocks`: the height of the last block it has read, the one it stops at. -/
structure Serving where
  fromAddress : Str
  height : ℕ
  lastBlockHeight : ℕ
  blocks : List Block

structure Node where
  peer : SyncPeer.State
  servings : List Serving
  /-- The responses that it has sent. -/
  replies : List Packet

structure NodeConfig where
  blockStorage : BlockStorageConfig
  service : SendNewBlocks.BlockStorageServiceConfig

inductive Work where
  /-- A timer, an RPC, or something that the service awaits. -/
  | peer (a : SyncPeer.Action)
  /-- A `getBlocks` goes on. -/
  | read (i : ℕ)
  | restart

namespace Node

def blockStorage (n : Node) : BlockStorage := n.peer.service.blockStorage

end Node

/-! ## Messages -/

def write {α : Type} (codec : Codec α) (payload : α) : Bytes := Utf8.encode (codec.enc payload).stringify

def read {α : Type} (codec : Codec α) (buffer : Bytes) : Option α :=
  (parseJsonWithBuffers (Utf8.decode buffer)).bind codec.dec

def heightCodec : Codec ℕ :=
  .record (.cons "blockHeight".toList .nat .nil) (fun blockHeight => (blockHeight, ())) (fun (blockHeight, ()) => blockHeight)
    (fun _ => rfl) (by decide) (by decide)

def hasNewBlocksCodec : Codec Bool :=
  .record (.cons "hasNewBlocks".toList .bool .nil) (fun hasNewBlocks => (hasNewBlocks, ()))
    (fun (hasNewBlocks, ()) => hasNewBlocks) (fun _ => rfl) (by decide) (by decide)

def hasNewBlocksResponse (nodeName recipient : Str) (hasNewBlocks : Bool) : Packet where
  fromAddress := nodeName
  recipient := some recipient
  messageType := "HasNewBlocksResponse".toList
  buffer := write hasNewBlocksCodec hasNewBlocks

def sendNewBlocksResponse (nodeName recipient : Str) (blocks : List Block) : Packet where
  fromAddress := nodeName
  recipient := some recipient
  messageType := "SendNewBlocksResponse".toList
  buffer := write SendNewBlocks.payloadCodec blocks

def Node.sent (nodeName : Str) (n : Node) : List Packet :=
  n.peer.requests.map (fun r => { fromAddress := nodeName, recipient := r.message.recipient
                                  messageType := r.message.messageType, buffer := r.message.buffer }) ++
    n.peer.broadcasts.map (fun m => { fromAddress := nodeName, recipient := none
                                      messageType := m.messageType, buffer := m.buffer }) ++ n.replies

instance (block : Block) : Decidable block.Typed :=
  decidable_of_iff (block.header.version < 2 ^ 32 ∧ block.header.height < 2 ^ 32 ∧
    ∀ tx ∈ block.body.transactions, tx.header.version < 2 ^ 32)
    ⟨fun h => ⟨h.1, h.2.1, h.2.2⟩, fun h => ⟨h.version, h.height, h.transactions⟩⟩

def wire (block : Block) : Option WireBlock := if h : block.Typed then some ⟨block, h⟩ else none

section
variable (sha256 : Bytes → Bytes) (config : Str → NodeConfig)

/-- `gossipMessageReceived`.  What it sends after an `await` counts as sent at once, since the gossip may delay it. -/
def receive (nodeName : Str) (n : Node) (packet : Packet) : Node :=
  let { fromAddress, messageType, .. } := packet
  if messageType = "HasNewBlocksMessage".toList then
    if fromAddress = nodeName then n
    else
      match read heightCodec packet.buffer with
      | none => n
      | some blockHeight =>
        match n.blockStorage.hasNewBlocks blockHeight with
        | .error _ => n
        | .ok hasNewBlocks => { n with replies := n.replies ++ [hasNewBlocksResponse nodeName fromAddress hasNewBlocks] }
  else if messageType = "HasNewBlocksResponse".toList then
    match parseJsonWithBuffers (Utf8.decode packet.buffer) with
    | none => n
    | some payload =>
      match SyncPeer.step sha256 (config nodeName).blockStorage n.peer (.onHasNewBlocksResponse fromAddress payload) with
      -- a handler waits: the message comes in later, when it is delivered again
      | none => n
      | some peer => { n with peer }
  else if messageType = "SendNewBlocks".toList then
    match read heightCodec packet.buffer, n.blockStorage.lastBlock with
    | some blockHeight, some lastBlock =>
      let limit := (config nodeName).service.batchSize * (config nodeName).service.batchSize
      let lastBlockHeight := if blockHeight + limit ≥ lastBlock.header.height then lastBlock.header.height
        else blockHeight + limit
      { n with servings := n.servings ++ [{ fromAddress, height := blockHeight, lastBlockHeight, blocks := [] }] }
    | _, _ => n
  else if messageType = "SendNewBlocksResponse".toList then
    match (read SendNewBlocks.payloadCodec packet.buffer).bind fun blocks => blocks.mapM wire with
    | none => n
    | some blocks =>
      match SyncPeer.step sha256 (config nodeName).blockStorage n.peer (.other (.onSendNewBlocksResponse blocks)) with
      | none => n
      | some peer => { n with peer }
  else n

/-- The batches of an answer. -/
def batches (service : SendNewBlocks.BlockStorageServiceConfig) (blocks : List Block) : List (List Block) :=
  (chunk blocks service.batchSize).take service.batchesPerInterval

/-- What no message is the cause of. -/
def isOwn : SyncPeer.Action → Bool
  | .onHasNewBlocksResponse _ _ | .other (.onSendNewBlocksResponse _) => false
  | _ => true

def work (nodeName : Str) (n : Node) : Work → Option Node
  | .peer a =>
    if isOwn a then
      (SyncPeer.step sha256 (config nodeName).blockStorage n.peer a).map fun peer => { n with peer }
    else none
  | .read i =>
    match n.servings[i]? with
    | none => none
    | some s =>
      if s.height < s.lastBlockHeight then
        match n.blockStorage.getBlock (s.height + 1 : ℕ) with
        | .ok block => some { n with
            servings := n.servings.set i { s with height := s.height + 1, blocks := s.blocks ++ [block] } }
        | .error _ => some { n with servings := n.servings.eraseIdx i }
      else some { n with
        servings := n.servings.eraseIdx i
        replies := n.replies ++
          (batches (config nodeName).service s.blocks).map (sendNewBlocksResponse nodeName s.fromAddress) }
  -- What has been sent may still arrive.
  | .restart => some { n with
      peer := { SyncPeer.start (load sha256 (opened n.blockStorage.db)).2 with
        requests := n.peer.requests, broadcasts := n.peer.broadcasts }
      servings := [] }

def network : Soup Str Node Packet Work where
  work := work sha256 config
  receive := receive sha256 config
  sent := Node.sent

end

abbrev Network := Str → Node

abbrev Action := Soup.Action Str Work

def Node.start (blockStorage : BlockStorage) : Node :=
  { peer := SyncPeer.start blockStorage, servings := [], replies := [] }

/-! ## What one node keeps -/

/-- The database has the block of the chain under its height. -/
def Stored (P : BlockChain sha256) (db : LevelDB) (i : ℕ) : Prop :=
  ∃ b, P.blocks[i]? = some b ∧ db (heightText i) = some (blockText b)

/-- The database has blocks of the chain only, and all of them below the height that `last` names. -/
structure DbOn (P : BlockChain sha256) (db : LevelDB) : Prop where
  block : ∀ {i : ℕ} {text : Str}, db (heightText i) = some text → ∃ b, P.blocks[i]? = some b ∧ text = blockText b
  last : ∃ k, db LAST_BLOCK_HEIGHT_KEY = some (heightText (k : ℕ)) ∧ k < P.blocks.length ∧ ∀ i < k, Stored P db i

structure StorageOn (P : BlockChain sha256) (s : BlockStorage) : Prop where
  db : DbOn P s.db
  lastBlock : ∀ b ∈ s.lastBlock, ∃ k, P.blocks[k]? = some b ∧ ∀ i ≤ k, Stored P s.db i

structure CallerOn (P : BlockChain sha256) (db : LevelDB) (c : BlockStorageService.Caller) : Prop where
  rest : ∀ b ∈ c.rest, b.1 ∈ P.blocks
  flight : ∀ f ∈ c.flight, ∃ k, P.blocks[k]? = some f.block.1 ∧ (∀ i < k, Stored P db i) ∧
    (f.phase = .wroteBlock → Stored P db k)

structure ServiceOn (P : BlockChain sha256) (s : BlockStorageService.State) : Prop where
  storage : StorageOn P s.blockStorage
  queue : ∀ b ∈ s.queue, b.1 ∈ P.blocks
  callers : ∀ c ∈ s.callers, CallerOn P s.blockStorage.db c

variable {sha256 : Bytes → Bytes} {P : BlockChain sha256} {db db' : LevelDB}

theorem stored_put_last {value : Str} {i : ℕ} : Stored P (db.put LAST_BLOCK_HEIGHT_KEY value) i ↔ Stored P db i := by
  unfold Stored
  rw [LevelDB.put_ne _ _ (heightText_ne_last i)]

theorem stored_putBlock {b : Block} {k : ℕ} (hb : P.blocks[k]? = some b) : Stored P (putBlock db b) k := by
  refine ⟨b, hb, ?_⟩
  rw [putBlock, height_eq P hb, LevelDB.put_same]

theorem Stored.putBlock {b : Block} {k i : ℕ} (hb : P.blocks[k]? = some b) (h : Stored P db i) :
    Stored P (putBlock db b) i := by
  rcases eq_or_ne i k with rfl | hi
  · exact stored_putBlock hb
  · obtain ⟨d, hd, ht⟩ := h
    refine ⟨d, hd, ?_⟩
    rw [BlockStorage.putBlock, height_eq P hb, LevelDB.put_ne _ _ fun he => hi (heightText_inj he)]
    exact ht

theorem CallerOn.mono {c : BlockStorageService.Caller} (h : CallerOn P db c) (hdb : ∀ i, Stored P db i → Stored P db' i) :
    CallerOn P db' c := by
  refine ⟨h.rest, fun f hf => ?_⟩
  obtain ⟨k, hk, hbelow, hwrote⟩ := h.flight f hf
  exact ⟨k, hk, fun i hi => hdb i (hbelow i hi), fun hp => hdb k (hwrote hp)⟩

theorem DbOn.put_last (h : DbOn P db) {k : ℕ} (hk : k < P.blocks.length) (hbelow : ∀ i < k, Stored P db i) :
    DbOn P (db.put LAST_BLOCK_HEIGHT_KEY (heightText k)) := by
  refine ⟨fun {i text} ht => ?_, k, LevelDB.put_same _ _ _, hk, fun i hi => stored_put_last.2 (hbelow i hi)⟩
  rw [LevelDB.put_ne _ _ (heightText_ne_last i)] at ht
  exact h.block ht

theorem DbOn.putBlock (h : DbOn P db) {b : Block} {k : ℕ} (hb : P.blocks[k]? = some b) :
    DbOn P (BlockStorage.putBlock db b) := by
  constructor
  · intro i text ht
    rcases eq_or_ne i k with rfl | hi
    · rw [BlockStorage.putBlock, height_eq P hb, LevelDB.put_same] at ht
      exact ⟨b, hb, (Option.some.inj ht).symm⟩
    · rw [BlockStorage.putBlock, height_eq P hb, LevelDB.put_ne _ _ fun he => hi (heightText_inj he)] at ht
      exact h.block ht
  · obtain ⟨m, hm, hlt, hbelow⟩ := h.last
    refine ⟨m, ?_, hlt, fun i hi => (hbelow i hi).putBlock hb⟩
    rw [BlockStorage.putBlock, LevelDB.put_ne _ _ (heightText_ne_last _).symm]
    exact hm

/-- A storage whose database has more blocks. -/
theorem StorageOn.write {s : BlockStorage} (h : StorageOn P s) (hdb : DbOn P db')
    (hmono : ∀ i, Stored P s.db i → Stored P db' i) : StorageOn P { s with db := db' } := by
  refine ⟨hdb, fun b hb => ?_⟩
  obtain ⟨k, hk, hstored⟩ := h.lastBlock b hb
  exact ⟨k, hk, fun i hi => hmono i (hstored i hi)⟩

theorem typed_readBlock {b : Block} {i : ℕ} (hP : ∀ b ∈ P.blocks, b.Typed) (hdb : DbOn P db)
    (h : readBlock db (heightText i) = .ok b) : P.blocks[i]? = some b ∧ Stored P db i := by
  have hget := h
  rw [readBlock, LevelDB.get] at hget
  cases ht : db (heightText i) with
  | none =>
    rw [ht] at hget
    cases hget
  | some text =>
    obtain ⟨d, hd, rfl⟩ := hdb.block ht
    have hd' := readBlock_of_text (hP d (List.mem_of_getElem? hd)) ht
    rw [h] at hd'
    cases hd'
    exact ⟨hd, _, hd, ht⟩

/-- **Restarted from its database**, the storage has its last block, or none if the database has no such block. -/
theorem storageOn_load (hP : ∀ b ∈ P.blocks, b.Typed) (h : DbOn P db) : StorageOn P (load sha256 (opened db)).2 ∧
    (load sha256 (opened db)).2.db = db := by
  obtain ⟨k, hk, -, hbelow⟩ := h.last
  rw [load, lastOrGenesis]
  simp only [opened, hk]
  cases hr : readBlock db (heightText k) with
  | error e =>
    refine ⟨⟨h, fun b hb => ?_⟩, rfl⟩
    cases hb
  | ok b =>
    obtain ⟨hb, hs⟩ := typed_readBlock hP h hr
    refine ⟨⟨h, fun d hd => ?_⟩, rfl⟩
    cases hd
    refine ⟨k, hb, fun i hi => ?_⟩
    rcases Nat.lt_or_eq_of_le hi with hlt | rfl
    · exact hbelow i hlt
    · exact hs

theorem not_verifyNewBlock_none {config : BlockStorageConfig} {block : Block} :
    verifyNewBlock sha256 config none block ≠ .ok () := by
  rw [verifyNewBlock]
  cases verifySigned sha256 config block with
  | error e =>
    intro h
    cases h
  | ok u =>
    intro h
    simp only [bind, Except.bind] at h
    split_ifs at h

/-- What the consensus hands to a node, and what a message brings it, are blocks of the chain. -/
def FromChain (P : BlockChain sha256) : BlockStorageService.Action → Prop
  | .addBlock block => block.1 ∈ P.blocks
  | .onSendNewBlocksResponse blocks => ∀ b ∈ blocks, b.1 ∈ P.blocks
  | _ => True

theorem ServiceOn.appendBlocks {s : BlockStorageService.State} (h : ServiceOn P s) :
    ServiceOn P (BlockStorageService.appendBlocks s) := by
  refine ⟨h.storage, fun b hb => absurd hb List.not_mem_nil, fun c hc => ?_⟩
  rcases List.mem_append.1 hc with hc | hc
  · exact h.callers c hc
  · rw [List.mem_singleton.1 hc]
    refine ⟨fun b hb => h.queue b ?_, fun f hf => by cases hf⟩
    rw [BlockStorageService.sortByHeight, List.mem_insertionSort] at hb
    exact List.mem_reverse.1 (mem_of_mem_uniqBy hb)

/-- A caller that is where the others may see it. -/
theorem ServiceOn.setCaller {s : BlockStorageService.State} (h : ServiceOn P s) {b : BlockStorage} (hb : StorageOn P b)
    (hmono : ∀ i, Stored P s.blockStorage.db i → Stored P b.db i) {i : ℕ} {c : BlockStorageService.Caller}
    (hc : CallerOn P b.db c) : ServiceOn P (BlockStorageService.setCaller { s with blockStorage := b } i c) := by
  refine ⟨hb, h.queue, fun d hd => ?_⟩
  rcases List.mem_or_eq_of_mem_set hd with hd | rfl
  · exact (h.callers d hd).mono hmono
  · exact hc

variable {config : BlockStorageConfig}

/-- A block of the chain that is verified after one is the one above it. -/
theorem next_of_verify {last : Block} {k : ℕ} (hk : P.blocks[k]? = some last) {block : WireBlock}
    (hb : block.1 ∈ P.blocks) (hv : verifyNewBlock sha256 config (some last) block = .ok ()) :
    P.blocks[k + 1]? = some block.1 := by
  obtain ⟨j, hj⟩ := List.mem_iff_getElem?.1 hb
  rw [verifyNewBlock_eq_ok] at hv
  have hheight : block.1.header.height = last.header.height + 1 := hv.2.2.1
  rw [height_eq P hj, height_eq P hk] at hheight
  rwa [← hheight]

/-- **One piece of work of a service**: what is stored stays, and no block comes to it but blocks of the chain. -/
theorem serviceOn_step {s s' : BlockStorageService.State} {a : BlockStorageService.Action} (hs : ServiceOn P s)
    (hg : FromChain P a) (h : BlockStorageService.step sha256 config s a = some s') :
    ServiceOn P s' ∧ ∀ i, Stored P s.blockStorage.db i → Stored P s'.blockStorage.db i := by
  cases a with
  | addBlock block =>
    rw [BlockStorageService.step] at h
    split at h <;> cases h
    · refine ⟨ServiceOn.appendBlocks ⟨hs.storage, fun b hb => ?_, hs.callers⟩, fun i hi => hi⟩
      rcases List.mem_append.1 hb with hb | hb
      · exact hs.queue b hb
      · rw [List.mem_singleton.1 hb]
        exact hg
    · refine ⟨⟨hs.storage, hs.queue, fun c hc => ?_⟩, fun i hi => hi⟩
      rcases List.mem_append.1 hc with hc | hc
      · exact hs.callers c hc
      · rw [List.mem_singleton.1 hc]
        refine ⟨fun b hb => ?_, fun f hf => by cases hf⟩
        rw [List.mem_singleton.1 hb]
        exact hg
  | pollForNewBlocks =>
    cases h
    exact ⟨ServiceOn.appendBlocks ⟨hs.storage, hs.queue, hs.callers⟩, fun i hi => hi⟩
  | onSendNewBlocksResponse blocks =>
    cases h
    refine ⟨⟨hs.storage, fun b hb => ?_, hs.callers⟩, fun i hi => hi⟩
    exact (List.mem_append.1 hb).elim (hs.queue b) (hg b)
  | onHasNewBlocksResponse fromAddress hasNewBlocks =>
    rw [BlockStorageService.step] at h
    split at h <;> cases h <;> exact ⟨⟨hs.storage, hs.queue, hs.callers⟩, fun i hi => hi⟩
  | call i =>
    rw [BlockStorageService.step] at h
    split at h
    case h_2 => cases h
    rename_i block rest hi
    have hc := hs.callers _ (List.mem_of_getElem? hi)
    have hrest : ∀ b ∈ rest, b.1 ∈ P.blocks := fun b hb => hc.rest b (List.mem_cons_of_mem _ hb)
    split at h <;> cases h
    · rename_i hv
      refine ⟨hs.setCaller hs.storage (fun i hi => hi) ⟨hrest, fun f hf => ?_⟩, fun i hi => hi⟩
      cases hf
      cases hl : s.blockStorage.lastBlock with
      | none =>
        rw [hl] at hv
        exact absurd hv not_verifyNewBlock_none
      | some last =>
        rw [hl] at hv
        obtain ⟨k, hk, hstored⟩ := hs.storage.lastBlock last hl
        have hnext := next_of_verify hk (hc.rest block List.mem_cons_self) hv
        exact ⟨k + 1, hnext, fun i hi => hstored i (Nat.le_of_lt_succ hi), fun hp => by cases hp⟩
    · exact ⟨hs.setCaller hs.storage (fun i hi => hi) ⟨hrest, fun f hf => by cases hf⟩, fun i hi => hi⟩
  | put i =>
    rw [BlockStorageService.step] at h
    split at h
    · rename_i block rest hi
      cases h
      have hc := hs.callers _ (List.mem_of_getElem? hi)
      obtain ⟨k, hk, hbelow, -⟩ := hc.flight _ rfl
      have hmono : ∀ i, Stored P s.blockStorage.db i →
          Stored P (s.blockStorage.db.put LAST_BLOCK_HEIGHT_KEY (heightText block.1.header.height)) i :=
        fun i hi => stored_put_last.2 hi
      refine ⟨hs.setCaller (hs.storage.write ?_ hmono) hmono ⟨hc.rest, fun f hf => ?_⟩, hmono⟩
      · rw [height_eq P hk]
        exact hs.storage.db.put_last (List.getElem?_eq_some_iff.1 hk).1 hbelow
      · cases hf
        exact ⟨k, hk, fun i hi => hmono i (hbelow i hi), fun hp => by cases hp⟩
    · rename_i block rest hi
      cases h
      have hc := hs.callers _ (List.mem_of_getElem? hi)
      obtain ⟨k, hk, hbelow, -⟩ := hc.flight _ rfl
      have hmono : ∀ i, Stored P s.blockStorage.db i → Stored P (putBlock s.blockStorage.db block) i :=
        fun i hi => hi.putBlock hk
      refine ⟨hs.setCaller (hs.storage.write (hs.storage.db.putBlock hk) hmono) hmono ⟨hc.rest, fun f hf => ?_⟩, hmono⟩
      cases hf
      exact ⟨k, hk, fun i hi => hmono i (hbelow i hi), fun _ => stored_putBlock hk⟩
    · cases h
  | report i reported =>
    rw [BlockStorageService.step] at h
    split at h
    case h_2 => cases h
    rename_i block rest hi
    have hc := hs.callers _ (List.mem_of_getElem? hi)
    have hrest : CallerOn P s.blockStorage.db { flight := none, rest } := ⟨hc.rest, fun f hf => by cases hf⟩
    split at h <;> cases h
    · obtain ⟨k, hk, hbelow, hwrote⟩ := hc.flight _ rfl
      have hstorage : StorageOn P { s.blockStorage with lastBlock := some block.1 } := by
        refine ⟨hs.storage.db, fun b hb => ?_⟩
        cases hb
        refine ⟨k, hk, fun i hi => ?_⟩
        rcases Nat.lt_or_eq_of_le hi with hlt | rfl
        · exact hbelow i hlt
        · exact hwrote rfl
      exact ⟨hs.setCaller hstorage (fun i hi => hi) hrest, fun i hi => hi⟩
    · exact ⟨hs.setCaller hs.storage (fun i hi => hi) hrest, fun i hi => hi⟩

/-- What an action of a peer brings it. -/
def FromChainPeer (P : BlockChain sha256) : SyncPeer.Action → Prop
  | .other a => FromChain P a
  | _ => True

/-- The messages that a peer sends have no blocks. -/
structure Asks (s : SyncPeer.State) : Prop where
  requests : ∀ r ∈ s.requests, r.message.messageType = "SendNewBlocks".toList
  broadcasts : ∀ m ∈ s.broadcasts, m.messageType = "HasNewBlocksMessage".toList

theorem peerOn_step {s s' : SyncPeer.State} {a : SyncPeer.Action} (hs : ServiceOn P s.service) (ha : Asks s)
    (hg : FromChainPeer P a) (h : SyncPeer.step sha256 config s a = some s') :
    ServiceOn P s'.service ∧ Asks s' ∧
      ∀ i, Stored P s.service.blockStorage.db i → Stored P s'.service.blockStorage.db i := by
  have hnode : ∀ node, ServiceOn P { s.service with node } := fun node => ⟨hs.storage, hs.queue, hs.callers⟩
  cases a with
  | onHasNewBlocksResponse fromAddress payload =>
    rw [SyncPeer.step] at h
    split at h
    · cases h
    split at h
    · cases h
      exact ⟨hs, ha, fun i hi => hi⟩
    all_goals
      split at h <;> cases h
      · exact ⟨hnode _, ⟨ha.requests, ha.broadcasts⟩, fun i hi => hi⟩
      · exact ⟨hs, ha, fun i hi => hi⟩
  | handlerAnswered =>
    rw [SyncPeer.step] at h
    split at h
    · cases h
    dsimp only at h
    split at h <;> cases h
    · exact ⟨hs, ⟨ha.requests, ha.broadcasts⟩, fun i hi => hi⟩
    · refine ⟨hs, ⟨fun r hr => ?_, ha.broadcasts⟩, fun i hi => hi⟩
      rcases List.mem_append.1 hr with hr | hr
      · exact ha.requests r hr
      · rw [List.mem_singleton.1 hr]
        rfl
  | pollForNewBlocks =>
    rw [SyncPeer.step] at h
    split at h <;> cases h
    exact ⟨(hnode none).appendBlocks, ⟨ha.requests, ha.broadcasts⟩, fun i hi => hi⟩
  | pollAppended j =>
    rw [SyncPeer.step] at h
    split at h
    · split at h
      · dsimp only at h
        split at h <;> cases h
        · exact ⟨hs, ⟨ha.requests, ha.broadcasts⟩, fun i hi => hi⟩
        · refine ⟨hs, ⟨ha.requests, fun m hm => ?_⟩, fun i hi => hi⟩
          rcases List.mem_append.1 hm with hm | hm
          · exact ha.broadcasts m hm
          · rw [List.mem_singleton.1 hm]
            rfl
      · cases h
    · cases h
  | other a =>
    rw [SyncPeer.step] at h
    split at h
    · obtain ⟨service, ht, rfl⟩ := Option.map_eq_some_iff.1 h
      obtain ⟨hs', hmono⟩ := serviceOn_step hs hg ht
      exact ⟨hs', ⟨ha.requests, ha.broadcasts⟩, hmono⟩
    · cases h

/-- The blocks of a message are of the chain. -/
def PacketOn (P : BlockChain sha256) (p : Packet) : Prop :=
  p.messageType = "SendNewBlocksResponse".toList →
    ∀ blocks, read SendNewBlocks.payloadCodec p.buffer = some blocks → ∀ b ∈ blocks, b ∈ P.blocks

structure NodeOn (P : BlockChain sha256) (n : Node) : Prop where
  service : ServiceOn P n.peer.service
  asks : Asks n.peer
  servings : ∀ s ∈ n.servings, ∀ b ∈ s.blocks, b ∈ P.blocks
  replies : ∀ p ∈ n.replies, PacketOn P p

theorem read_write {α : Type} (codec : Codec α) {a : α} (h : codec.InRange a) : read codec (write codec a) = some a := by
  rw [read, write, Utf8.decode_encode, parseJsonWithBuffers_stringify (codec.proper a h), Option.bind_some,
    codec.dec_enc a h]

theorem inRange_payload {blocks : List Block} (h : ∀ b ∈ blocks, b.Typed) : SendNewBlocks.payloadCodec.InRange blocks :=
  ⟨fun b hb => (h b hb).inRange, trivial⟩

theorem packetOn_sendNewBlocksResponse (hP : ∀ b ∈ P.blocks, b.Typed) {blocks : List Block} (h : ∀ b ∈ blocks, b ∈ P.blocks)
    (nodeName recipient : Str) : PacketOn P (sendNewBlocksResponse nodeName recipient blocks) := by
  intro _ read hread
  rw [sendNewBlocksResponse, read_write _ (inRange_payload fun b hb => hP b (h b hb))] at hread
  cases hread
  exact h

theorem packetOn_hasNewBlocksResponse (nodeName recipient : Str) (hasNewBlocks : Bool) :
    PacketOn P (hasNewBlocksResponse nodeName recipient hasNewBlocks) := by
  intro ht
  have hne : "HasNewBlocksResponse".toList ≠ "SendNewBlocksResponse".toList := by decide
  exact absurd ht hne

theorem packetOn_sent {nodeName : Str} {n : Node} (h : NodeOn P n) : ∀ p ∈ n.sent nodeName, PacketOn P p := by
  intro p hp
  rcases List.mem_append.1 hp with hp | hp
  · rcases List.mem_append.1 hp with hp | hp
    · obtain ⟨r, hr, rfl⟩ := List.mem_map.1 hp
      intro ht
      have := ((h.asks.requests r hr).symm.trans ht : "SendNewBlocks".toList = _)
      exact absurd this (by decide)
    · obtain ⟨m, hm, rfl⟩ := List.mem_map.1 hp
      intro ht
      have := ((h.asks.broadcasts m hm).symm.trans ht : "HasNewBlocksMessage".toList = _)
      exact absurd this (by decide)
  · exact h.replies p hp

theorem val_of_mapM_wire : ∀ {blocks : List Block} {wires : List WireBlock}, blocks.mapM wire = some wires →
    ∀ b ∈ wires, b.1 ∈ blocks
  | [], _, h, b, hb => by
    cases h
    cases hb
  | block :: blocks, wires, h, b, hb => by
    rw [List.mapM_cons] at h
    obtain ⟨w, hw, h⟩ := Option.bind_eq_some_iff.1 h
    obtain ⟨ws, hws, h⟩ := Option.bind_eq_some_iff.1 h
    cases h
    rw [wire] at hw
    split_ifs at hw
    cases hw
    rcases List.mem_cons.1 hb with rfl | hb
    · exact List.mem_cons_self
    · exact List.mem_cons_of_mem _ (val_of_mapM_wire hws b hb)

theorem mem_of_mem_batches {service : SendNewBlocks.BlockStorageServiceConfig} {blocks batch : List Block}
    (h : batch ∈ batches service blocks) : ∀ b ∈ batch, b ∈ blocks := by
  have hchunk := List.mem_of_mem_take h
  unfold chunk at hchunk
  split_ifs at hchunk
  · cases hchunk
  · obtain ⟨i, -, rfl⟩ := List.mem_map.1 hchunk
    exact fun b hb => List.mem_of_mem_drop (List.mem_of_mem_take hb)

section
variable {config : Str → NodeConfig} {nodeName : Str} {n n' : Node}

theorem NodeOn.withPeer (h : NodeOn P n) {a : SyncPeer.Action} {peer : SyncPeer.State} (hg : FromChainPeer P a)
    (hp : SyncPeer.step sha256 (config nodeName).blockStorage n.peer a = some peer) : NodeOn P { n with peer } := by
  obtain ⟨hs, ha, -⟩ := peerOn_step h.service h.asks hg hp
  exact ⟨hs, ha, h.servings, h.replies⟩

theorem NodeOn.withReplies (h : NodeOn P n) {replies : List Packet} (hr : ∀ p ∈ replies, PacketOn P p) :
    NodeOn P { n with replies := n.replies ++ replies } :=
  ⟨h.service, h.asks, h.servings, fun p hp => (List.mem_append.1 hp).elim (h.replies p) (hr p)⟩

theorem NodeOn.withServings (h : NodeOn P n) {servings : List Serving}
    (hs : ∀ s ∈ servings, ∀ b ∈ s.blocks, b ∈ P.blocks) : NodeOn P { n with servings } :=
  ⟨h.service, h.asks, hs, h.replies⟩

/-- **A message about the chain**, delivered to whomever. -/
theorem nodeOn_receive {packet : Packet} (h : NodeOn P n) (hp : PacketOn P packet) :
    NodeOn P (receive sha256 config nodeName n packet) ∧
      ∀ i, Stored P n.blockStorage.db i → Stored P (receive sha256 config nodeName n packet).blockStorage.db i := by
  unfold receive
  dsimp only
  split_ifs with h1 h2 h3 h4 h5
  · exact ⟨h, fun i hi => hi⟩
  · split
    · exact ⟨h, fun i hi => hi⟩
    split
    · exact ⟨h, fun i hi => hi⟩
    · refine ⟨h.withReplies fun p hp => ?_, fun i hi => hi⟩
      rw [List.mem_singleton.1 hp]
      exact packetOn_hasNewBlocksResponse _ _ _
  · split
    · exact ⟨h, fun i hi => hi⟩
    rename_i payload _
    have hg : FromChainPeer P (.onHasNewBlocksResponse packet.fromAddress payload) := trivial
    split
    · exact ⟨h, fun i hi => hi⟩
    · rename_i peer hpeer
      exact ⟨h.withPeer hg hpeer, (peerOn_step h.service h.asks hg hpeer).2.2⟩
  · split
    · refine ⟨h.withServings fun s hs => ?_, fun i hi => hi⟩
      rcases List.mem_append.1 hs with hs | hs
      · exact h.servings s hs
      · rw [List.mem_singleton.1 hs]
        exact fun b hb => absurd hb List.not_mem_nil
    · exact ⟨h, fun i hi => hi⟩
  · split
    · exact ⟨h, fun i hi => hi⟩
    rename_i blocks hblocks
    obtain ⟨read, hread, hwires⟩ := Option.bind_eq_some_iff.1 hblocks
    have hg : FromChainPeer P (.other (.onSendNewBlocksResponse blocks)) := fun b hb =>
      hp h5 read hread b.1 (val_of_mapM_wire hwires b hb)
    split
    · exact ⟨h, fun i hi => hi⟩
    · rename_i peer hpeer
      exact ⟨h.withPeer hg hpeer, (peerOn_step h.service h.asks hg hpeer).2.2⟩
  · exact ⟨h, fun i hi => hi⟩

/-- The consensus hands blocks of the chain to the node. -/
def Honest (P : BlockChain sha256) (_ : Str) (_ : Node) : Work → Prop
  | .peer a => FromChainPeer P a
  | _ => True

/-- **A piece of work of a node.** -/
theorem nodeOn_work (hP : ∀ b ∈ P.blocks, b.Typed) {a : Work} (h : NodeOn P n) (hg : Honest P nodeName n a)
    (hw : work sha256 config nodeName n a = some n') :
    NodeOn P n' ∧ ∀ i, Stored P n.blockStorage.db i → Stored P n'.blockStorage.db i := by
  cases a with
  | peer a =>
    rw [work] at hw
    split at hw
    · obtain ⟨peer, hpeer, rfl⟩ := Option.map_eq_some_iff.1 hw
      exact ⟨h.withPeer hg hpeer, (peerOn_step h.service h.asks hg hpeer).2.2⟩
    · cases hw
  | read i =>
    rw [work] at hw
    split at hw
    · cases hw
    rename_i s hs
    have hrest : ∀ r ∈ n.servings.eraseIdx i, ∀ b ∈ r.blocks, b ∈ P.blocks := fun r hr =>
      h.servings r (List.mem_of_mem_eraseIdx hr)
    have hblocks := h.servings s (List.mem_of_getElem? hs)
    split at hw
    · split at hw <;> cases hw
      · rename_i block hblock
        refine ⟨h.withServings fun r hr => ?_, fun i hi => hi⟩
        rcases List.mem_or_eq_of_mem_set hr with hr | rfl
        · exact h.servings r hr
        · intro b hb
          rcases List.mem_append.1 hb with hb | hb
          · exact hblocks b hb
          · rw [List.mem_singleton.1 hb]
            exact List.mem_of_getElem? (typed_readBlock hP h.service.storage.db hblock).1
      · exact ⟨h.withServings hrest, fun i hi => hi⟩
    · cases hw
      refine ⟨(h.withServings hrest).withReplies fun p hp => ?_, fun i hi => hi⟩
      obtain ⟨batch, hbatch, rfl⟩ := List.mem_map.1 hp
      exact packetOn_sendNewBlocksResponse hP (fun b hb => hblocks b (mem_of_mem_batches hbatch b hb)) _ _
  | restart =>
    cases hw
    obtain ⟨hstorage, hdb⟩ := storageOn_load hP h.service.storage.db
    refine ⟨⟨⟨hstorage, fun b hb => absurd hb List.not_mem_nil, fun c hc => absurd hc List.not_mem_nil⟩,
      ⟨h.asks.requests, h.asks.broadcasts⟩, fun s hs => absurd hs List.not_mem_nil, h.replies⟩, fun i hi => ?_⟩
    change Stored P (load sha256 (opened n.blockStorage.db)).2.db i
    unfold Node.blockStorage at hi ⊢
    rw [hdb]
    exact hi

end

/-! ## Agreement -/

/-- The chain up to a height. -/
def upTo (P : BlockChain sha256) (k : ℕ) : BlockChain sha256 where
  rest := P.rest.take k
  linked := by
    rw [← List.take_succ_cons]
    exact P.linked.take _

theorem blocks_upTo (P : BlockChain sha256) (k : ℕ) : (upTo P k).blocks = P.blocks.take (k + 1) := by
  rw [Chain.blocks, Chain.blocks, List.take_succ_cons, upTo]

theorem tip_upTo {k : ℕ} {b : Block} (h : P.blocks[k]? = some b) : (upTo P k).tip = b := by
  obtain ⟨hk, -⟩ := List.getElem?_eq_some_iff.1 h
  have htip := (upTo P k).getElem?_tip
  rw [blocks_upTo, List.getElem?_take_of_lt (by rw [upTo, List.length_take]; omega)] at htip
  rw [Chain.length_blocks] at hk
  rw [upTo, List.length_take, Nat.min_eq_left (by omega), h] at htip
  exact (Option.some.inj htip).symm

theorem getBlock_of_stored (hP : ∀ b ∈ P.blocks, b.Typed) {s : BlockStorage} {i : ℕ} {b : Block} (hb : P.blocks[i]? = some b)
    (h : Stored P s.db i) : s.getBlock i = .ok b := by
  obtain ⟨d, hd, ht⟩ := h
  cases hb.symm.trans hd
  exact readBlock_of_text (hP b (List.mem_of_getElem? hb)) ht

/-- A storage has the chain up to its last block. -/
theorem StorageOn.backs (hP : ∀ b ∈ P.blocks, b.Typed) {s : BlockStorage} (h : StorageOn P s) {last : Block}
    (hl : s.lastBlock = some last) : ∃ c : BlockChain sha256, c.blocks <+: P.blocks ∧ c.tip = last ∧ Backs s c := by
  obtain ⟨k, hk, hstored⟩ := h.lastBlock last hl
  refine ⟨upTo P k, ?_, tip_upTo hk, by rw [hl, tip_upTo hk], fun {i b} hb => ?_⟩
  · rw [blocks_upTo]
    exact List.take_prefix _ _
  · rw [blocks_upTo] at hb
    have hi : i < k + 1 := by
      obtain ⟨hi, -⟩ := List.getElem?_eq_some_iff.1 hb
      rw [List.length_take] at hi
      omega
    rw [List.getElem?_take_of_lt hi] at hb
    exact getBlock_of_stored hP hb (hstored i (Nat.le_of_lt_succ hi))

theorem getElem?_of_blocks_prefix {c : BlockChain sha256} (hc : c.blocks <+: P.blocks) {i : ℕ} {b : Block}
    (h : c.blocks[i]? = some b) : P.blocks[i]? = some b := by
  obtain ⟨hi, rfl⟩ := List.getElem?_eq_some_iff.1 h
  exact List.prefix_iff_getElem?.1 hc i hi

theorem storageOn_of_represents {s : BlockStorage} {c : BlockChain sha256} (h : Represents s c)
    (hc : c.blocks <+: P.blocks) : StorageOn P s := by
  have hstored : ∀ {i : ℕ}, i ≤ c.rest.length → Stored P s.db i := by
    intro i hi
    have hget := List.getElem?_eq_getElem (l := c.blocks) (i := i) (by rw [Chain.length_blocks]; omega)
    refine ⟨_, getElem?_of_blocks_prefix hc hget, ?_⟩
    rw [h.db.block, hget]
    rfl
  have hlen := hc.length_le
  rw [Chain.length_blocks] at hlen
  refine ⟨⟨fun {i text} ht => ?_, c.rest.length, h.db.last, hlen, fun i hi => hstored hi.le⟩, fun b hb => ?_⟩
  · rw [h.db.block] at ht
    obtain ⟨b, hb, rfl⟩ := Option.map_eq_some_iff.1 ht
    exact ⟨b, getElem?_of_blocks_prefix hc hb, rfl⟩
  · rw [h.lastBlock] at hb
    cases hb
    exact ⟨c.rest.length, getElem?_of_blocks_prefix hc c.getElem?_tip, fun i hi => hstored hi⟩

variable {config : Str → NodeConfig}

theorem nodeOn_start {b : BlockStorage} (h : StorageOn P b) : NodeOn P (Node.start b) where
  service := ⟨h, fun _ hb => absurd hb List.not_mem_nil, fun _ hc => absurd hc List.not_mem_nil⟩
  asks := ⟨fun _ hr => absurd hr List.not_mem_nil, fun _ hm => absurd hm List.not_mem_nil⟩
  servings _ hs := absurd hs List.not_mem_nil
  replies _ hp := absurd hp List.not_mem_nil

/-- No node loses a block. -/
def Keeps (P : BlockChain sha256) (s s' : Network) : Prop :=
  ∀ name i, Stored P (s name).blockStorage.db i → Stored P (s' name).blockStorage.db i

theorem keeps_update {s : Network} {node : Str} {n : Node}
    (h : ∀ i, Stored P (s node).blockStorage.db i → Stored P n.blockStorage.db i) :
    Keeps P s (Function.update s node n) :=
  Soup.forall_update (I := fun name (n : Node) => ∀ i, Stored P (s name).blockStorage.db i → Stored P n.blockStorage.db i)
    (fun _ _ hi => hi) h

/-- **A step of the network** keeps all nodes on the chain, and loses no block. -/
theorem network_step (hP : ∀ b ∈ P.blocks, b.Typed) {s s' : Network} {a : Action} (hs : ∀ name, NodeOn P (s name))
    (hg : Soup.Guard (Honest P) s a) (h : (network sha256 config).step s a = some s') :
    (∀ name, NodeOn P (s' name)) ∧ Keeps P s s' := by
  refine ⟨Soup.inv_step (fun name n a n' hn hg hw => (nodeOn_work hP hn hg hw).1)
    (fun name n p hn hp => (nodeOn_receive hn hp).1) (fun name n p hn => packetOn_sent hn p) hs hg h, ?_⟩
  cases a with
  | work node a =>
    obtain ⟨t, ht, rfl⟩ := Soup.step_work.1 h
    exact keeps_update (nodeOn_work hP (hs node) hg ht).2
  | deliver sender receiver k =>
    obtain ⟨packet, hp, rfl⟩ := Soup.step_deliver.1 h
    exact keeps_update (nodeOn_receive (hs receiver) (packetOn_sent (hs sender) packet (List.mem_of_getElem? hp))).2

/-- Every node starts on a chain that it has loaded, a part of the chain. -/
def Started (P : BlockChain sha256) (s : Network) : Prop :=
  ∀ name, ∃ (b : BlockStorage) (c : BlockChain sha256), s name = Node.start b ∧ Represents b c ∧ c.blocks <+: P.blocks

theorem nodeOn_of_started {s : Network} (h : Started P s) (name : Str) : NodeOn P (s name) := by
  obtain ⟨b, c, hb, hr, hc⟩ := h name
  rw [hb]
  exact nodeOn_start (storageOn_of_represents hr hc)

/-- **The nodes agree**: in a run in which the consensus hands blocks of one chain to the nodes, every node that has a last
block has the chain up to it, and what its database answers for a height is the block of the chain, then and ever after.
Messages may be lost, repeated, delayed and misdirected, `addBlock`s may overlap, and nodes may crash. -/
theorem agreement (hP : ∀ b ∈ P.blocks, b.Typed) {s t u : Network} {as bs : List Action} (h0 : Started P s)
    (hg : Lts.Meets (network sha256 config).step (Soup.Guard (Honest P)) s (as ++ bs))
    (ht : Lts.run (network sha256 config).step s as = some t) (hu : Lts.run (network sha256 config).step t bs = some u)
    (name : Str) :
    (∀ last, (t name).blockStorage.lastBlock = some last →
      ∃ c : BlockChain sha256, c.blocks <+: P.blocks ∧ c.tip = last ∧ Backs (t name).blockStorage c) ∧
    ∀ (i : ℕ) b, (t name).blockStorage.getBlock i = .ok b →
      P.blocks[i]? = some b ∧ (u name).blockStorage.getBlock i = .ok b := by
  obtain ⟨hg, hg'⟩ := Lts.meets_append hg ht
  have hinv : ∀ s a s', (∀ name, NodeOn P (s name)) → Soup.Guard (Honest P) s a →
      (network sha256 config).step s a = some s' → ∀ name, NodeOn P (s' name) := fun s a s' hs hg h =>
    (network_step hP hs hg h).1
  have htOn := Lts.run_inv hinv (nodeOn_of_started h0) hg ht
  refine ⟨fun last hl => (htOn name).service.storage.backs hP hl, fun i b hb => ?_⟩
  obtain ⟨hPb, hstored⟩ := typed_readBlock hP (htOn name).service.storage.db hb
  refine ⟨hPb, getBlock_of_stored hP hPb ?_⟩
  exact Lts.run_rel (R := Keeps P) (fun _ _ _ hi => hi) (fun h h' name i hi => h' name i (h name i hi)) hinv
    (fun s a s' hs hg h => (network_step hP hs hg h).2) htOn hg' hu name i hstored

/-! ## Two nodes and two blocks -/

def twoBlockChain : BlockChain Sha256.hash :=
  (Chain.nil.push (firstBlock []).1 (verifyNewBlock_eq_ok.1 (BlockStorageSync.verify_firstBlock [])).2.2).push
    secondBlock.1 (by
      rw [Chain.tip_push]
      exact (verifyNewBlock_eq_ok.1 (verify_emptyBlock _ _)).2.2)

def sampleConfig : Str → NodeConfig := fun _ =>
  { blockStorage := .unsigned, service := { batchSize := 5, batchesPerInterval := 5 } }

def freshNetwork : Network := fun _ => Node.start (load Sha256.hash (opened .empty)).2

def node1 : Str := "node1".toList

def node2 : Str := "node2".toList

def add (i : ℕ) (block : WireBlock) : List Work :=
  [.peer (.other (.addBlock block)), .peer (.other (.call i)), .peer (.other (.put i)), .peer (.other (.put i)),
    .peer (.other (.report i (.ok ())))]

/-- A node crashes before it has reported a block, and polls after its restart. -/
def crash : List Work :=
  (add 0 (firstBlock [])).take 4 ++ [.restart, .peer .pollForNewBlocks, .peer (.pollAppended 0)]

/-- The consensus hands both blocks to the first node and one to the second, which crashes.  The first node answers the
poll of the second, and the answer arrives. -/
def handBlocks : List Action :=
  (add 0 (firstBlock []) ++ add 1 secondBlock).map (.work node1) ++ crash.map (.work node2) ++
    [.deliver node2 node1 0, .deliver node1 node2 0]

theorem blocks_twoBlockChain : twoBlockChain.blocks =
    [generateGenesisBlock Sha256.hash, (firstBlock []).1, secondBlock.1] := rfl

theorem typed_twoBlockChain : ∀ b ∈ twoBlockChain.blocks, b.Typed := by
  intro b hb
  rw [blocks_twoBlockChain] at hb
  simp only [List.mem_cons, List.not_mem_nil, or_false] at hb
  rcases hb with rfl | rfl | rfl
  · exact generateGenesisBlock_typed _
  · exact (firstBlock []).2
  · exact secondBlock.2

theorem started_freshNetwork : Started twoBlockChain freshNetwork := fun _ =>
  ⟨_, Chain.nil, rfl, (load_empty Sha256.hash).2, List.prefix_append _ _⟩

theorem honest_add (name : Str) (n : Node) (i : ℕ) {block : WireBlock} (h : block.1 ∈ twoBlockChain.blocks) :
    ∀ a ∈ add i block, Honest twoBlockChain name n a := by
  intro a ha
  simp only [add, List.mem_cons, List.not_mem_nil, or_false] at ha
  rcases ha with rfl | rfl | rfl | rfl | rfl
  · exact h
  all_goals trivial

theorem first_mem_twoBlockChain : (firstBlock []).1 ∈ twoBlockChain.blocks := List.mem_cons_of_mem _ List.mem_cons_self

theorem second_mem_twoBlockChain : secondBlock.1 ∈ twoBlockChain.blocks :=
  List.mem_cons_of_mem _ (List.mem_cons_of_mem _ List.mem_cons_self)

theorem honest_crash (name : Str) (n : Node) : ∀ a ∈ crash, Honest twoBlockChain name n a := by
  intro a ha
  rcases List.mem_append.1 ha with ha | ha
  · exact honest_add name n 0 first_mem_twoBlockChain a (List.mem_of_mem_take ha)
  simp only [List.mem_cons, List.not_mem_nil, or_false] at ha
  rcases ha with rfl | rfl | rfl
  all_goals trivial

theorem honest_handBlocks (s : Network) :
    Lts.Meets (network Sha256.hash sampleConfig).step (Soup.Guard (Honest twoBlockChain)) s handBlocks := by
  refine Lts.meets_of_mem (Lts.meets_of_forall (fun _ _ => trivial) handBlocks s) fun t x hx (_ : True) => ?_
  rw [handBlocks, List.mem_append, List.mem_append] at hx
  rcases hx with (hx | hx) | hx
  · obtain ⟨a, ha, rfl⟩ := List.mem_map.1 hx
    rcases List.mem_append.1 ha with ha | ha
    · exact honest_add node1 (t node1) 0 first_mem_twoBlockChain a ha
    · exact honest_add node1 (t node1) 1 second_mem_twoBlockChain a ha
  · obtain ⟨a, ha, rfl⟩ := List.mem_map.1 hx
    exact honest_crash node2 (t node2) a ha
  · simp only [List.mem_cons, List.not_mem_nil, or_false] at hx
    rcases hx with rfl | rfl
    all_goals trivial

def heightAt (t : Network) (name : Str) : Option ℕ := (t name).blockStorage.lastBlock.map fun b => b.header.height

theorem run_handBlocks : ((Lts.run (network Sha256.hash sampleConfig).step freshNetwork handBlocks).map fun t =>
    (heightAt t node1, heightAt t node2, (t node2).peer.service.node)) = some (some 2, some 1, some node1) := by
  decide +kernel

theorem agreement_handBlocks : ∃ t last, Lts.run (network Sha256.hash sampleConfig).step freshNetwork handBlocks = some t ∧
    (t node2).blockStorage.lastBlock = some last ∧ last.header.height = 1 ∧ (t node2).peer.service.node = some node1 ∧
    ∃ c : BlockChain Sha256.hash, c.blocks <+: twoBlockChain.blocks ∧ c.tip = last ∧ Backs (t node2).blockStorage c := by
  obtain ⟨t, ht, hf⟩ := Option.map_eq_some_iff.1 run_handBlocks
  obtain ⟨-, hf⟩ := Prod.mk.inj hf
  obtain ⟨hheights, hnode⟩ := Prod.mk.inj hf
  obtain ⟨last, hlast, hheight⟩ := Option.map_eq_some_iff.1 hheights
  have hg := honest_handBlocks freshNetwork
  rw [← List.append_nil handBlocks] at hg
  exact ⟨t, last, ht, hlast, hheight, hnode,
    (agreement typed_twoBlockChain started_freshNetwork hg ht rfl _).1 last hlast⟩

end SyncNetwork
end Orbs
