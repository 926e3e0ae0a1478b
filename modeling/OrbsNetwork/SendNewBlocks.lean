import OrbsNetwork.Lib.Chunk
import OrbsNetwork.MapOverBlocks
/-!
# SendNewBlocks — the blocks that a peer gets when it asks for more

A peer that is behind asks for the blocks above a height, and gets them as JSON in messages of `batchSize` blocks, at
most `batchesPerInterval` of them.  The service reads no more than `batchSize * batchSize` blocks for an answer.  So the
messages have the next `batchSize * batchesPerInterval` blocks exactly when there are no more batches than blocks in a
batch, or no more blocks than it reads (`sendsWindow_iff`).
-/
namespace Orbs
namespace SendNewBlocks

open Js BlockStorage HashChain

structure BlockStorageServiceConfig where
  batchSize : ℕ
  batchesPerInterval : ℕ

structure UnicastMessage where
  recipient : Str
  broadcastGroup : Str
  messageType : Str
  buffer : Bytes
  immediate : Bool

/-- The payload of a `SendNewBlocksResponse`. -/
def payloadCodec : Codec (List Block) :=
  .record (.cons "blocks".toList (.list Block.codec) .nil) (fun blocks => (blocks, ())) (fun (blocks, ()) => blocks)
    (fun _ => rfl) (by decide) (by decide)

/-- The answer to a request of the blocks above `blockHeight`: the messages, in the order in which they are sent. -/
def onSendNewBlocks (config : BlockStorageServiceConfig) (s : BlockStorage) (fromAddress : Str) (blockHeight : ℕ) :
    Except Str (List UnicastMessage) := do
  let blocks ← s.getBlocks blockHeight ((config.batchSize * config.batchSize : ℕ) : ℤ)
  let batches := (chunk blocks config.batchSize).take config.batchesPerInterval
  return batches.map fun blocks =>
    { recipient := fromAddress
      broadcastGroup := "blockStorage".toList
      messageType := "SendNewBlocksResponse".toList
      buffer := Utf8.encode (payloadCodec.enc blocks).stringify
      immediate := true }

/-- The blocks that the receiver of a message reads from it. -/
def UnicastMessage.blocks (message : UnicastMessage) : Option (List Block) :=
  (parseJsonWithBuffers (Utf8.decode message.buffer)).bind payloadCodec.dec

/-- The messages go to the peer that asked, have at most `batchSize` blocks each, and together the stored blocks above
`blockHeight` up to the last one or to `batchSize * batchesPerInterval` of them. -/
structure SendsWindow (config : BlockStorageServiceConfig) (s : BlockStorage) (lastHeight : ℕ) (fromAddress : Str)
    (blockHeight : ℕ) (messages : List UnicastMessage) (batches : List (List Block)) : Prop where
  sent : onSendNewBlocks config s fromAddress blockHeight = .ok messages
  addressed : ∀ m ∈ messages, m.recipient = fromAddress ∧ m.messageType = "SendNewBlocksResponse".toList
  read : messages.map UnicastMessage.blocks = batches.map some
  small : ∀ batch ∈ batches, batch.length ≤ config.batchSize
  window : batches.flatten.map .ok = (List.range' (blockHeight + 1)
    (min lastHeight (blockHeight + config.batchSize * config.batchesPerInterval) - blockHeight)).map fun i : ℕ =>
      s.getBlock i

variable {sha256 : Bytes → Bytes}

theorem blocksAbove_take (c : BlockChain sha256) (h m n : ℕ) :
    (blocksAbove c h m).take n = blocksAbove c h (min n m) := List.take_take

theorem length_blocksAbove (c : BlockChain sha256) (h limit : ℕ) :
    (blocksAbove c h limit).length = min limit (c.tip.header.height - h) := by
  rw [blocksAbove, List.length_take, List.length_drop, height_tip]

/-- The stored blocks of the heights above `h` are those of the chain. -/
theorem map_getBlock_range' {s : BlockStorage} {c : BlockChain sha256} (hc : Represents s c) (h limit : ℕ) :
    (List.range' (h + 1) (min c.tip.header.height (h + limit) - h)).map (fun i : ℕ => s.getBlock i) =
      (blocksAbove c h limit).map .ok := by
  refine List.ext_getElem ?_ fun k h₁ h₂ => ?_
  · rw [List.length_map, List.length_map, List.length_range', length_blocksAbove]
    omega
  · rw [List.length_map] at h₂
    have hlimit : k < limit := by
      rw [length_blocksAbove] at h₂
      omega
    have hb : c.blocks[h + 1 + k]? = some (blocksAbove c h limit)[k] := by
      rw [← List.getElem?_eq_getElem h₂, Nat.add_right_comm]
      change c.rest[h + k]? = _
      rw [blocksAbove, List.getElem?_take_of_lt hlimit, List.getElem?_drop]
    rw [List.getElem_map, List.getElem_map, List.getElem_range', Nat.one_mul]
    exact hc.db.readBlock_eq hb

def message (fromAddress : Str) (batch : List Block) : UnicastMessage where
  recipient := fromAddress
  broadcastGroup := "blockStorage".toList
  messageType := "SendNewBlocksResponse".toList
  buffer := Utf8.encode (payloadCodec.enc batch).stringify
  immediate := true

/-- **The receiver reads the blocks that were sent.** -/
theorem blocks_message {batch : List Block} (h : ∀ b ∈ batch, b.Typed) (fromAddress : Str) :
    (message fromAddress batch).blocks = some batch := by
  have hrange : payloadCodec.InRange batch := ⟨fun b hb => (h b hb).inRange, trivial⟩
  rw [UnicastMessage.blocks, message, Utf8.decode_encode, parseJsonWithBuffers_stringify (payloadCodec.proper _ hrange),
    Option.bind_some, payloadCodec.dec_enc _ hrange]

theorem map_blocks_message (batches : List (List Block)) (h : ∀ batch ∈ batches, ∀ b ∈ batch, b.Typed)
    (fromAddress : Str) : (batches.map (message fromAddress)).map UnicastMessage.blocks = batches.map some := by
  rw [List.map_map]
  exact List.map_congr_left fun batch hb => blocks_message (h batch hb) fromAddress

/-- The batches of an answer. -/
def batches (config : BlockStorageServiceConfig) (c : BlockChain sha256) (blockHeight : ℕ) : List (List Block) :=
  (chunk (blocksAbove c blockHeight (config.batchSize * config.batchSize)) config.batchSize).take
    config.batchesPerInterval

theorem onSendNewBlocks_eq {s : BlockStorage} {c : BlockChain sha256} (h : Represents s c)
    (config : BlockStorageServiceConfig) (fromAddress : Str) (blockHeight : ℕ) :
    onSendNewBlocks config s fromAddress blockHeight = .ok ((batches config c blockHeight).map (message fromAddress)) := by
  rw [onSendNewBlocks, getBlocks_eq h]
  rfl

theorem flatten_batches {config : BlockStorageServiceConfig} (hb : 0 < config.batchSize) (c : BlockChain sha256)
    (blockHeight : ℕ) : (batches config c blockHeight).flatten =
      blocksAbove c blockHeight (config.batchSize * min config.batchesPerInterval config.batchSize) := by
  rw [batches, flatten_take_chunk _ hb, blocksAbove_take, Nat.mul_comm config.batchesPerInterval,
    Nat.mul_min_mul_left]

theorem typed_of_mem_batches {s : BlockStorage} {c : BlockChain sha256} (h : Represents s c)
    {config : BlockStorageServiceConfig} (hb : 0 < config.batchSize) {blockHeight : ℕ} {batch : List Block}
    (hbatch : batch ∈ batches config c blockHeight) {b : Block} (hmem : b ∈ batch) : b.Typed := by
  have hflat : b ∈ (batches config c blockHeight).flatten := List.mem_flatten_of_mem hbatch hmem
  rw [flatten_batches hb] at hflat
  exact h.db.typed b (List.mem_cons_of_mem _ (List.mem_of_mem_drop (List.mem_of_mem_take hflat)))

/-- Two windows are the same when neither has room for more blocks than the other has. -/
theorem blocksAbove_eq_iff (c : BlockChain sha256) (h : ℕ) {m n : ℕ} (hmn : m ≤ n) :
    blocksAbove c h m = blocksAbove c h n ↔ m = n ∨ c.tip.header.height ≤ h + m := by
  constructor
  · intro he
    have hlen := congrArg List.length he
    rw [length_blocksAbove, length_blocksAbove] at hlen
    omega
  · rintro (rfl | hle)
    · rfl
    · have hrest : (c.rest.drop h).length ≤ m := by
        rw [List.length_drop, ← height_tip]
        omega
      rw [blocksAbove, blocksAbove, List.take_of_length_le hrest, List.take_of_length_le (hrest.trans hmn)]

theorem mul_min_eq_or_iff {a b h t : ℕ} (ha : 0 < a) :
    (a * min b a = a * b ∨ t ≤ h + a * min b a) ↔ (b ≤ a ∨ t ≤ h + a * a) := by
  rcases le_or_gt b a with hba | hab
  · rw [Nat.min_eq_left hba]
    exact iff_of_true (.inl rfl) (.inl hba)
  · rw [Nat.min_eq_right hab.le]
    have hne : a * a ≠ a * b := (Nat.mul_lt_mul_of_pos_left hab ha).ne
    exact or_congr (iff_of_false hne hab.not_ge) Iff.rfl

/-- An answer has the next window of the chain when what the service reads for it has. -/
theorem exists_sendsWindow_iff {s : BlockStorage} {c : BlockChain sha256} (h : Represents s c)
    {config : BlockStorageServiceConfig} (hb : 0 < config.batchSize) (fromAddress : Str) (blockHeight : ℕ) :
    (∃ messages batches, SendsWindow config s c.tip.header.height fromAddress blockHeight messages batches) ↔
      blocksAbove c blockHeight (config.batchSize * min config.batchesPerInterval config.batchSize) =
        blocksAbove c blockHeight (config.batchSize * config.batchesPerInterval) := by
  have hread := map_blocks_message (batches config c blockHeight)
    (fun _ hbatch _ hmem => typed_of_mem_batches h hb hbatch hmem) fromAddress
  have hok := Function.Injective.list_map (f := Except.ok (ε := Str) (α := Block)) fun _ _ he => Except.ok.inj he
  rw [← flatten_batches hb]
  constructor
  · rintro ⟨messages, sent, hs⟩
    have hsent := hs.sent
    rw [onSendNewBlocks_eq h, Except.ok.injEq] at hsent
    have hsame : batches config c blockHeight = sent := by
      have hr := hs.read
      rw [← hsent, hread] at hr
      exact List.map_injective_iff.2 (Option.some_injective _) hr
    have hwindow := hs.window
    rw [map_getBlock_range' h] at hwindow
    rw [hsame]
    exact hok hwindow
  · intro hwindow
    refine ⟨_, batches config c blockHeight, onSendNewBlocks_eq h config fromAddress blockHeight, ?_, hread, ?_, ?_⟩
    · intro m hm
      obtain ⟨batch, -, rfl⟩ := List.mem_map.1 hm
      exact ⟨rfl, rfl⟩
    · exact fun batch hbatch => length_le_of_mem_chunk (List.mem_of_mem_take hbatch)
    · rw [map_getBlock_range' h, hwindow]

/-- **An answer has the next window of the chain exactly when** there are no more batches than blocks in a batch, or the
service reads up to the last block. -/
theorem sendsWindow_iff {s : BlockStorage} {c : BlockChain sha256} (h : Represents s c)
    {config : BlockStorageServiceConfig} (hb : 0 < config.batchSize) (fromAddress : Str) (blockHeight : ℕ) :
    (∃ messages batches, SendsWindow config s c.tip.header.height fromAddress blockHeight messages batches) ↔
      config.batchesPerInterval ≤ config.batchSize ∨
        c.tip.header.height ≤ blockHeight + config.batchSize * config.batchSize := by
  have hle : config.batchSize * min config.batchesPerInterval config.batchSize ≤
      config.batchSize * config.batchesPerInterval := Nat.mul_le_mul_left _ (Nat.min_le_left _ _)
  rw [exists_sendsWindow_iff h hb, blocksAbove_eq_iff c blockHeight hle, mul_min_eq_or_iff hb]

/-- Empty blocks, as `MapOverBlocks` has them. -/
theorem represents_emptyChain (n : ℕ) (hn : n < 2 ^ 32) :
    Represents (MapOverBlocks.emptyChainStorage sha256 n) (MapOverBlocks.emptyChain sha256 n) :=
  ⟨rfl, MapOverBlocks.holds_emptyChainDb hn⟩

theorem height_emptyChain (n : ℕ) : (MapOverBlocks.emptyChain sha256 n).tip.header.height = n := by
  rw [height_tip, MapOverBlocks.length_emptyChain]

theorem sendsWindow_fiveByFive : ∃ messages batches,
    SendsWindow { batchSize := 5, batchesPerInterval := 5 } (MapOverBlocks.emptyChainStorage Sha256.hash 30)
      (MapOverBlocks.emptyChain Sha256.hash 30).tip.header.height "node2".toList 3 messages batches :=
  (sendsWindow_iff (represents_emptyChain 30 (by decide)) (by decide) _ _).2 (.inl le_rfl)

/-- **With two batches of one block, only one block is sent.** -/
theorem oneByTwo_short : ¬ ∃ messages batches,
    SendsWindow { batchSize := 1, batchesPerInterval := 2 } (MapOverBlocks.emptyChainStorage Sha256.hash 2)
      (MapOverBlocks.emptyChain Sha256.hash 2).tip.header.height "node2".toList 0 messages batches := by
  rw [exists_sendsWindow_iff (represents_emptyChain 2 (by decide)) (by decide), blocksAbove_eq_iff _ _ (by decide),
    height_emptyChain]
  decide

end SendNewBlocks
end Orbs
