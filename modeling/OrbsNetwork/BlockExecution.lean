import OrbsNetwork.BlockCommit
import OrbsNetwork.StateStorage
import OrbsNetwork.Lib.AskProg
/-!
# BlockExecution — the virtual machine on a state storage that moves

`processTransactionSet` reads the state storage one key at a time, and the storage may replay new blocks between two
reads: its answers come from different moments.  A block that the block storage accepts in the end was nevertheless
executed on one state, that of the chain below it (`isolated`).  A read sees no less than the chain at its start, which
held the block that was built on, and no more than the chain at its end; and a chain that has gone on in between refuses
the block.

So the committed transactions, one after another, give the committed receipts and the replayed state (`sequential_chain`).
-/
namespace Orbs

open Js HashChain

namespace StateStorage

open BlockStorage

variable {sha256 : Bytes → Bytes}

/-- A read keeps what it was asked, and when. -/
theorem reads_setRead {s : State sha256} {i : ℕ} {startHeight : ℕ} {contractAddress : Bytes} {keys : List Str}
    {phase phase' : ReadPhase} (hi : s.reads[i]? = some { startHeight, contractAddress, keys, phase }) {j : ℕ} {r : Read}
    (hr : s.reads[j]? = some r) :
    ∃ p, (s.setRead i { startHeight, contractAddress, keys, phase := phase' }).reads[j]? = some { r with phase := p } := by
  change ∃ p, (s.reads.set i _)[j]? = _
  by_cases h : i = j
  · subst h
    cases hi.symm.trans hr
    obtain ⟨hlt, -⟩ := List.getElem?_eq_some_iff.1 hr
    exact ⟨phase', by rw [List.getElem?_set_self hlt]⟩
  · exact ⟨r.phase, by rw [List.getElem?_set_ne h, hr]⟩

/-- **What a step leaves as it was**: the chain, unless it adds a block, and the reads but for how far they are. -/
theorem step_frame {config : BlockStorageConfig} {s s' : State sha256} {a : Action} (h : step config s a = some s') :
    (s'.chain = s.chain ∨ ∃ block, a = .addBlock block ∧ append config s.chain block = some s'.chain) ∧
      ∀ (j : ℕ) (r : Read), s.reads[j]? = some r → ∃ p, s'.reads[j]? = some { r with phase := p } := by
  have same : ∀ (j : ℕ) (r : Read), s.reads[j]? = some r → ∃ p, s.reads[j]? = some { r with phase := p } :=
    fun j r hr => ⟨r.phase, hr⟩
  cases a with
  | addBlock block =>
    cases h
    refine ⟨?_, same⟩
    cases hc : append config s.chain block with
    | none => exact .inl rfl
    | some c => exact .inr ⟨block, rfl, hc⟩
  | pollBlockStorage =>
    cases h
    exact ⟨.inl rfl, same⟩
  | getBlocks i =>
    rw [step] at h
    split at h
    case h_2 => cases h
    split at h <;> cases h <;> exact ⟨.inl rfl, same⟩
  | getBlocksFailed i | nextPage i =>
    rw [step] at h
    split at h <;> cases h
    exact ⟨.inl rfl, same⟩
  | syncNextBlock i =>
    rw [step] at h
    split at h
    case h_2 => cases h
    split at h <;> cases h
    · rename_i t ht
      rw [syncNextBlock] at ht
      split at ht <;> cases ht
      exact ⟨.inl rfl, same⟩
    · exact ⟨.inl rfl, same⟩
  | readKeys contractAddress keys =>
    cases h
    refine ⟨.inl rfl, fun j r hr => ⟨r.phase, ?_⟩⟩
    obtain ⟨hlt, -⟩ := List.getElem?_eq_some_iff.1 hr
    exact (List.getElem?_append_left hlt).trans hr
  | getLastBlock i | getLastBlockFailed i | waitForBlockState i | getMany i =>
    rw [step] at h
    split at h
    case h_2 => cases h
    rename_i hi
    cases h
    exact ⟨.inl rfl, fun j r hr => reads_setRead hi hr⟩

end StateStorage

namespace BlockExecution

open VirtualMachine BlockStorage BlockBuilder
open BlockCommit (modifiedStateKey)

/-! ## The virtual machine as a program that asks -/

abbrev Asks := AskProg StateCacheKey (Option Str)

def processTransaction (code : ContractCode) (request : CallRequest) (c : StateCache) :
    Asks (Except ContractError Unit × StateCache) :=
  AskProg.ofProg (fun (c : StateCache) key => c.get { contractAddress := request.contractAddress, key })
    (fun c key value => c.set { contractAddress := request.contractAddress, key } value)
    (fun key => { contractAddress := request.contractAddress, key }) (code request) c

def processOne (code : ContractCode) (stateCache : StateCache) (entry : TransactionEntry) :
    Asks (Except ContractError (Bool × StateCache)) :=
  processTransaction code entry.request stateCache.fork >>= fun r => pure <|
    match r with
    | (.ok _, transactionScopeStateCache) =>
      match transactionScopeStateCache.getModifiedKeys with
      | some modifiedKeys => .ok (true, stateCache.merge modifiedKeys)
      | none => .error base58Error
    | (.error err, _) => if err.expected then .ok (false, stateCache) else .error err

def processEach (code : ContractCode) : StateCache → List TransactionEntry →
    Asks (Except ContractError (List TransactionReceipt × StateCache))
  | c, [] => pure (.ok ([], c))
  | c, entry :: entries => processOne code c entry >>= fun
    | .error err => pure (.error err)
    | .ok (success, c) => processEach code c entries >>= fun
      | .error err => pure (.error err)
      | .ok (receipts, c) => pure (.ok ({ txHash := entry.txHash, success } :: receipts, c))

abbrev Output := Except ContractError (List TransactionReceipt × List (StateCacheKey × Option Str))

def processTransactionSet (code : ContractCode) (orderedTransactions : List TransactionEntry) : Asks Output :=
  processEach code .empty orderedTransactions >>= fun r => pure <|
    match r with
    | .error err => .error err
    | .ok (transactionReceipts, stateCache) =>
      match stateCache.getModifiedKeys with
      | some stateDiff => .ok (transactionReceipts, stateDiff)
      | none => .error base58Error

theorem answerBy_processTransaction (code : ContractCode) (stateStorage : KeyValues) (request : CallRequest)
    (c : StateCache) : (processTransaction code request c).answerBy stateStorage =
      VirtualMachine.processTransaction code stateStorage request c :=
  AskProg.answerBy_ofProg stateStorage (accessor stateStorage request.contractAddress) (fun _ _ => rfl) _ _

theorem answerBy_processOne (code : ContractCode) (stateStorage : KeyValues) (c : StateCache) (entry : TransactionEntry) :
    (processOne code c entry).answerBy stateStorage = VirtualMachine.processOne code stateStorage c entry := by
  rw [processOne, AskProg.answerBy_bind, AskProg.answerBy_pure, answerBy_processTransaction]
  rfl

theorem answerBy_processEach (code : ContractCode) (stateStorage : KeyValues) : ∀ (entries : List TransactionEntry)
    (c : StateCache), (processEach code c entries).answerBy stateStorage =
      VirtualMachine.processEach (VirtualMachine.processOne code stateStorage) c entries := by
  intro entries
  induction entries with
  | nil => exact fun c => rfl
  | cons entry entries ih =>
    intro c
    rw [processEach, VirtualMachine.processEach, AskProg.answerBy_bind, answerBy_processOne]
    cases VirtualMachine.processOne code stateStorage c entry with
    | error err => rfl
    | ok r =>
      obtain ⟨success, c'⟩ := r
      dsimp only
      rw [AskProg.answerBy_bind, ih]
      cases VirtualMachine.processEach (VirtualMachine.processOne code stateStorage) c' entries with
      | error err => rfl
      | ok r => rfl

/-- **Answered from one state, the program is the virtual machine on that state.** -/
theorem answerBy_processTransactionSet (code : ContractCode) (stateStorage : KeyValues) (entries : List TransactionEntry) :
    (processTransactionSet code entries).answerBy stateStorage =
      VirtualMachine.processTransactionSet code stateStorage entries := by
  rw [processTransactionSet, AskProg.answerBy_bind, AskProg.answerBy_pure, answerBy_processEach]
  rfl

/-! ## Builds over the state storage -/

/-- A call of `buildBlockFromPendingTransactions`, from the moment it has the pending transactions. -/
structure Build where
  lastBlock : Block
  transactionEntries : List TransactionEntry
  /-- What is left of `processTransactionSet`. -/
  rest : Asks Output
  /-- The call of `readKeys` that it awaits. -/
  awaited : Option ℕ

structure State (sha256 : Bytes → Bytes) where
  storage : StateStorage.State sha256
  builds : List Build

inductive Action where
  /-- What the storages do by themselves, blocks from other nodes included. -/
  | storage (a : StateStorage.Action)
  | processTransactionSet (lastBlock : Block) (transactionEntries : List TransactionEntry)
  /-- A build asks for a key, which its cache does not hold. -/
  | readKeys (i : ℕ)
  /-- A build gets what its read returned; a read that fails ends the build. -/
  | answer (i : ℕ)
  /-- The block of a build comes to the block storage. -/
  | addBlock (i : ℕ)

section
variable (sha256 : Bytes → Bytes) (code : ContractCode) (config : BlockBuilderConfig) (storage : BlockStorageConfig)

def Build.block (b : Build) : Option Block :=
  match b.rest with
  | .pure (.ok (transactionReceipts, stateDiff)) =>
    match buildBlockFromPendingTransactions sha256 config (some b.lastBlock)
        { getAllPendingTransactions := .ok b.transactionEntries
          processTransactionSet := .ok (transactionReceipts, stateDiff.map modifiedStateKey) } with
    | .ok block => block
    | .error _ => none
  | _ => none

variable {sha256}

def step (s : State sha256) : Action → Option (State sha256)
  | .storage a => (StateStorage.step storage s.storage a).map fun t => { s with storage := t }
  | .processTransactionSet lastBlock transactionEntries =>
    let rest := processTransactionSet code (transactionEntries.take config.blockSizeLimit)
    some { s with builds := s.builds ++ [{ lastBlock, transactionEntries, rest, awaited := none }] }
  | .readKeys i => match s.builds[i]? with
    | some { lastBlock, transactionEntries, rest := .ask key next, awaited := none } =>
      (StateStorage.step storage s.storage (.readKeys key.contractAddress [key.key])).map fun t =>
        let awaited := some s.storage.reads.length
        { storage := t
          builds := s.builds.set i { lastBlock, transactionEntries, rest := .ask key next, awaited } }
    | _ => none
  | .answer i => match s.builds[i]? with
    | some { lastBlock, transactionEntries, rest := .ask key next, awaited := some j } =>
      match (s.storage.reads[j]?).map StateStorage.Read.phase with
      | some (.returned values) =>
        let rest := next (values.get key.key)
        some { s with builds := s.builds.set i { lastBlock, transactionEntries, rest, awaited := none } }
      | _ => none
    | _ => none
  | .addBlock i => match (s.builds[i]?).bind (Build.block sha256 config) with
    | some block => (StateStorage.step storage s.storage (.addBlock block)).map fun t => { s with storage := t }
    | none => none

def start (chain : BlockChain sha256) : State sha256 := { storage := StateStorage.start chain, builds := [] }

/-- A block is built on one that the storage holds. -/
def OnChain (s : State sha256) : Action → Prop
  | .processTransactionSet lastBlock _ => lastBlock ∈ s.storage.chain.blocks
  | _ => True

end

/-- What the keys hold after the blocks. -/
def stateAfter (blocks : List Block) : KeyValues := fun key =>
  StateStorage.valueAfter blocks key.contractAddress key.key

section
variable {sha256 : Bytes → Bytes} {code : ContractCode} {config : BlockBuilderConfig} {storage : BlockStorageConfig}

/-- As long as the chain ends with the block that is built on, the answers so far are those of the state after it. -/
structure Build.Isolated (code : ContractCode) (config : BlockBuilderConfig) (t : StateStorage.State sha256) (b : Build) :
    Prop where
  stored : b.lastBlock ∈ t.chain.blocks
  answered : t.chain.tip.header.height = b.lastBlock.header.height →
    b.rest.answerBy (stateAfter t.chain.rest) = VirtualMachine.processTransactionSet code (stateAfter t.chain.rest)
      (b.transactionEntries.take config.blockSizeLimit)
  awaited : ∀ j, b.awaited = some j → ∃ key next r, b.rest = .ask key next ∧ t.reads[j]? = some r ∧
    b.lastBlock.header.height ≤ r.startHeight ∧ r.contractAddress = key.contractAddress ∧ r.keys = [key.key]

structure Inv (code : ContractCode) (config : BlockBuilderConfig) (s : State sha256) : Prop where
  storage : StateStorage.Inv s.storage
  builds : ∀ b ∈ s.builds, b.Isolated code config s.storage

theorem height_tip (c : BlockChain sha256) : c.tip.header.height = c.rest.length := by
  have := height_eq c c.getElem?_tip
  omega

theorem height_le_of_mem {c : BlockChain sha256} {b : Block} (h : b ∈ c.blocks) : b.header.height ≤ c.rest.length := by
  obtain ⟨i, hi⟩ := List.mem_iff_getElem?.1 h
  obtain ⟨hlt, -⟩ := List.getElem?_eq_some_iff.1 hi
  have := height_eq c hi
  rw [Chain.length_blocks] at hlt
  omega

theorem Build.Isolated.step {t t' : StateStorage.State sha256} {a : StateStorage.Action} {b : Build}
    (h : b.Isolated code config t) (ht : StateStorage.step storage t a = some t') : b.Isolated code config t' := by
  obtain ⟨hchain, hreads⟩ := StateStorage.step_frame ht
  have hawaited : ∀ j, b.awaited = some j → ∃ key next r, b.rest = .ask key next ∧ t'.reads[j]? = some r ∧
      b.lastBlock.header.height ≤ r.startHeight ∧ r.contractAddress = key.contractAddress ∧ r.keys = [key.key] := by
    intro j hj
    obtain ⟨key, next, r, hrest, hr, hs, ha, hk⟩ := h.awaited j hj
    obtain ⟨p, hp⟩ := hreads j r hr
    exact ⟨key, next, _, hrest, hp, hs, ha, hk⟩
  rcases hchain with hc | ⟨block, -, hc⟩
  · exact ⟨hc ▸ h.stored, hc ▸ h.answered, hawaited⟩
  · obtain ⟨hn, hd⟩ := append_eq_some hc
    have hle := height_le_of_mem h.stored
    refine ⟨( append_prefix hc).subset h.stored, fun he => ?_, hawaited⟩
    -- The chain has gone on, past the block that is built on.
    rw [height_tip, hd, Chain.rest_push, List.length_append, List.length_singleton] at he
    omega

theorem isolated_begin {t : StateStorage.State sha256} {lastBlock : Block} (h : lastBlock ∈ t.chain.blocks)
    (transactionEntries : List TransactionEntry) : Build.Isolated code config t
      { lastBlock, transactionEntries, awaited := none
        rest := processTransactionSet code (transactionEntries.take config.blockSizeLimit) } where
  stored := h
  answered _ := answerBy_processTransactionSet code _ _
  awaited _ hj := by cases hj

/-- **A read that began on the last block answers for it**, while the chain has not gone on. -/
theorem Build.Isolated.answer {t : StateStorage.State sha256} (ht : StateStorage.Inv t) {lastBlock : Block}
    {transactionEntries : List TransactionEntry} {key : StateCacheKey} {next : Option Str → Asks Output} {j : ℕ}
    (h : Build.Isolated code config t { lastBlock, transactionEntries, rest := .ask key next, awaited := some j })
    {values : JsMap Str Str} (hv : (t.reads[j]?).map StateStorage.Read.phase = some (.returned values)) :
    Build.Isolated code config t
      { lastBlock, transactionEntries, rest := next (values.get key.key), awaited := none } where
  stored := h.stored
  answered he := by
    obtain ⟨key', next', r, hrest, hr, hs, ha, hk⟩ := h.awaited j rfl
    cases hrest
    rw [hr] at hv
    have hsound := ht.reads r (List.mem_of_getElem? hr)
    rw [StateStorage.Read.Sound, Option.some.inj hv] at hsound
    obtain ⟨k, hsk, hkl, hget⟩ := hsound
    -- The moment the answer is from is neither before nor after the last block.
    have hk' : t.chain.rest.take k = t.chain.rest := by
      dsimp only at hs he
      rw [height_tip] at he
      exact List.take_of_length_le (by omega)
    have hanswer : values.get key.key = stateAfter t.chain.rest key := by
      rw [hget, hk, if_pos (List.mem_singleton.2 rfl), ha, hk']
      rfl
    dsimp only
    rw [← h.answered he]
    exact (AskProg.answerBy_ask _ hanswer next).symm
  awaited _ hj := by cases hj

theorem Build.Isolated.readKeys {t t' : StateStorage.State sha256} {lastBlock : Block}
    {transactionEntries : List TransactionEntry} {key : StateCacheKey} {next : Option Str → Asks Output}
    (h : Build.Isolated code config t { lastBlock, transactionEntries, rest := .ask key next, awaited := none })
    (ht : StateStorage.step storage t (.readKeys key.contractAddress [key.key]) = some t') :
    Build.Isolated code config t'
      { lastBlock, transactionEntries, rest := .ask key next, awaited := some t.reads.length } := by
  cases ht
  refine ⟨h.stored, h.answered, fun j hj => ?_⟩
  cases hj
  refine ⟨key, next, _, rfl, List.getElem?_concat_length, ?_, rfl, rfl⟩
  dsimp only
  rw [height_tip]
  exact height_le_of_mem h.stored

/-- **Every step keeps the builds isolated.** -/
theorem step_inv {s s' : State sha256} {a : Action} (hs : Inv code config s) (hg : OnChain s a)
    (h : step code config storage s a = some s') : Inv code config s' := by
  cases a with
  | storage a =>
    obtain ⟨t, ht, rfl⟩ := Option.map_eq_some_iff.1 h
    exact ⟨StateStorage.step_inv hs.storage ht, fun b hb => (hs.builds b hb).step ht⟩
  | processTransactionSet lastBlock transactionEntries =>
    cases h
    refine ⟨hs.storage, fun b hb => ?_⟩
    rcases List.mem_append.1 hb with hb | hb
    · exact hs.builds b hb
    · rw [List.mem_singleton.1 hb]
      exact isolated_begin hg transactionEntries
  | readKeys i =>
    rw [step] at h
    split at h
    case h_2 => cases h
    rename_i lastBlock transactionEntries key next hi
    obtain ⟨t, ht, rfl⟩ := Option.map_eq_some_iff.1 h
    refine ⟨StateStorage.step_inv hs.storage ht, fun b hb => ?_⟩
    rcases List.mem_or_eq_of_mem_set hb with hb | rfl
    · exact (hs.builds b hb).step ht
    · exact (hs.builds _ (List.mem_of_getElem? hi)).readKeys ht
  | answer i =>
    rw [step] at h
    split at h
    case h_2 => cases h
    rename_i lastBlock transactionEntries key next j hi
    split at h
    case h_2 => cases h
    rename_i values hv
    cases h
    refine ⟨hs.storage, fun b hb => ?_⟩
    rcases List.mem_or_eq_of_mem_set hb with hb | rfl
    · exact hs.builds b hb
    · exact (hs.builds _ (List.mem_of_getElem? hi)).answer hs.storage hv
  | addBlock i =>
    rw [step] at h
    split at h
    case h_2 => cases h
    obtain ⟨t, ht, rfl⟩ := Option.map_eq_some_iff.1 h
    exact ⟨StateStorage.step_inv hs.storage ht, fun b hb => (hs.builds b hb).step ht⟩

theorem inv_start (c : BlockChain sha256) : Inv code config (start c) := ⟨StateStorage.inv_start c, nofun⟩

/-- The block carries what the virtual machine makes of its transactions on the state. -/
def ExecutedOn (code : ContractCode) (s : KeyValues) (entries : List TransactionEntry) (block : Block) : Prop :=
  ∃ transactionReceipts stateDiff,
    VirtualMachine.processTransactionSet code s entries = .ok (transactionReceipts, stateDiff) ∧
    block.body = { transactions := entries.map TransactionEntry.transaction, transactionReceipts
                   stateDiff := stateDiff.map modifiedStateKey }

theorem block_eq_some {b : Build} {block : Block} (h : b.block sha256 config = some block) :
    block.header.height = b.lastBlock.header.height + 1 ∧ ∃ transactionReceipts stateDiff,
      b.rest = .pure (.ok (transactionReceipts, stateDiff)) ∧
      block.body = { transactions := (b.transactionEntries.take config.blockSizeLimit).map TransactionEntry.transaction
                     transactionReceipts, stateDiff := stateDiff.map modifiedStateKey } := by
  rw [Build.block] at h
  split at h
  case h_2 => cases h
  rename_i transactionReceipts stateDiff hrest
  split at h
  case h_2 => cases h
  rename_i built hb
  cases h
  refine ⟨(next_of_build hb).1, transactionReceipts, stateDiff, hrest, ?_⟩
  unfold buildBlockFromPendingTransactions at hb
  obtain ⟨entries, he, hb⟩ := bind_eq_ok.1 hb
  cases he
  dsimp only at hb
  split at hb
  · cases hb
  obtain ⟨r, hr, hb⟩ := bind_eq_ok.1 hb
  cases hr
  obtain ⟨signed, hsigned, hb⟩ := bind_eq_ok.1 hb
  cases hb
  exact BlockCommit.body_signIfConfigured hsigned

theorem Inv.executedOn {s : State sha256} (hs : Inv code config s) {i : ℕ} {b : Build} (hb : s.builds[i]? = some b)
    {block : Block} (hblock : b.block sha256 config = some block) {d : BlockChain sha256}
    (hadd : append storage s.storage.chain block = some d) :
    ExecutedOn code (stateAfter s.storage.chain.rest) (b.transactionEntries.take config.blockSizeLimit) block := by
  obtain ⟨hheight, transactionReceipts, stateDiff, hrest, hbody⟩ := block_eq_some hblock
  obtain ⟨hn, -⟩ := append_eq_some hadd
  have hanswered := (hs.builds b (List.mem_of_getElem? hb)).answered (Nat.succ.inj (hn.1.symm.trans hheight))
  rw [hrest] at hanswered
  exact ⟨transactionReceipts, stateDiff, hanswered.symm, hbody⟩

/-- **A block that the storage accepts was executed on the state that the chain below it leaves**, whatever the storages
did between the reads of the virtual machine. -/
theorem isolated {c : BlockChain sha256} {as : List Action} {s : State sha256}
    (hg : Lts.Meets (step code config storage) OnChain (start c) as)
    (hr : Lts.run (step code config storage) (start c) as = some s) {i : ℕ} {b : Build} (hb : s.builds[i]? = some b)
    {block : Block} (hblock : b.block sha256 config = some block) {d : BlockChain sha256}
    (hadd : append storage s.storage.chain block = some d) :
    ExecutedOn code (stateAfter s.storage.chain.rest) (b.transactionEntries.take config.blockSizeLimit) block :=
  (Lts.run_inv (fun _ _ _ => step_inv) (inv_start c) hg hr).executedOn hb hblock hadd

/-! ## The whole chain -/

/-- The transactions of a block with their hashes, as they went to the virtual machine. -/
def entriesOf (block : Block) : List TransactionEntry :=
  List.zipWith (fun receipt transaction => { txHash := receipt.txHash, transaction }) block.body.transactionReceipts
    block.body.transactions

/-- Every block was executed on the state that the blocks below it leave. -/
def Executed (code : ContractCode) (blocks : List Block) : Prop :=
  ∀ below block above, blocks = below ++ block :: above → ∃ entries, ExecutedOn code (stateAfter below) entries block

/-- Besides, a block that comes from another node was executed there as it would have been here. -/
def Honest (code : ContractCode) (storage : BlockStorageConfig) (s : State sha256) : Action → Prop
  | .storage (.addBlock block) => (append storage s.storage.chain block).isSome = true →
    ∃ entries, ExecutedOn code (stateAfter s.storage.chain.rest) entries block
  | a => OnChain s a

theorem executed_concat {blocks : List Block} {block : Block} : Executed code (blocks ++ [block]) ↔
    Executed code blocks ∧ ∃ entries, ExecutedOn code (stateAfter blocks) entries block := by
  constructor
  · intro h
    refine ⟨fun below b above he => h below b (above ++ [block]) ?_, h blocks block [] rfl⟩
    rw [he, List.append_assoc, List.cons_append]
  · rintro ⟨h, hblock⟩ below b above he
    rcases List.eq_nil_or_concat above with rfl | ⟨l, c, rfl⟩
    · obtain ⟨rfl, hb⟩ := List.append_inj' he rfl
      cases hb
      exact hblock
    · rw [List.concat_eq_append, ← List.cons_append, ← List.append_assoc] at he
      exact h below b l (List.append_inj' he rfl).1

theorem onChain_of_honest {s : State sha256} {a : Action} (h : Honest code storage s a) : OnChain s a := by
  cases a with
  | processTransactionSet lastBlock transactionEntries => exact h
  | storage a => trivial
  | readKeys i | answer i | addBlock i => trivial

theorem chain_addBlock {t t' : StateStorage.State sha256} {block : Block}
    (ht : StateStorage.step storage t (.addBlock block) = some t') :
    t'.chain = t.chain ∨ append storage t.chain block = some t'.chain := by
  rcases (StateStorage.step_frame ht).1 with hc | ⟨_, hb, hc⟩
  · exact .inl hc
  · cases hb
    exact .inr hc

theorem executed_append {c d : BlockChain sha256} {block : Block} (h : Executed code c.rest)
    (hadd : append storage c block = some d) (hblock : ∃ entries, ExecutedOn code (stateAfter c.rest) entries block) :
    Executed code d.rest := by
  obtain ⟨hn, rfl⟩ := append_eq_some hadd
  exact executed_concat.2 ⟨h, hblock⟩

/-- **An honest step adds only what was executed on the chain.** -/
theorem executed_step {s s' : State sha256} {a : Action} (hs : Inv code config s) (hx : Executed code s.storage.chain.rest)
    (hg : Honest code storage s a) (h : step code config storage s a = some s') :
    Executed code s'.storage.chain.rest := by
  cases a with
  | storage a =>
    obtain ⟨t, ht, rfl⟩ := Option.map_eq_some_iff.1 h
    rcases (StateStorage.step_frame ht).1 with hc | ⟨block, rfl, hc⟩
    · exact hc ▸ hx
    · exact executed_append hx hc (hg (Option.isSome_iff_exists.2 ⟨_, hc⟩))
  | processTransactionSet lastBlock transactionEntries =>
    cases h
    exact hx
  | readKeys i =>
    rw [step] at h
    split at h
    case h_2 => cases h
    obtain ⟨t, ht, rfl⟩ := Option.map_eq_some_iff.1 h
    cases ht
    exact hx
  | answer i =>
    rw [step] at h
    split at h
    case h_2 => cases h
    split at h
    case h_2 => cases h
    cases h
    exact hx
  | addBlock i =>
    rw [step] at h
    split at h
    case h_2 => cases h
    rename_i block hi
    obtain ⟨t, ht, rfl⟩ := Option.map_eq_some_iff.1 h
    obtain ⟨b, hb, hblock⟩ := Option.bind_eq_some_iff.1 hi
    rcases chain_addBlock ht with hc | hc
    · exact hc ▸ hx
    · exact executed_append hx hc ⟨_, hs.executedOn hb hblock hc⟩

theorem txHash_of_processTransactionSet {s : KeyValues} {entries : List TransactionEntry}
    {receipts : List TransactionReceipt} {stateDiff : List (StateCacheKey × Option Str)}
    (h : VirtualMachine.processTransactionSet code s entries = .ok (receipts, stateDiff)) :
    receipts.map TransactionReceipt.txHash = entries.map TransactionEntry.txHash := by
  unfold VirtualMachine.processTransactionSet at h
  split at h
  · cases h
  rename_i c heach
  split at h <;> cases h
  exact txHash_of_processEach heach

/-- The transactions of a block are the ones it was executed with. -/
theorem entriesOf_eq {s : KeyValues} {entries : List TransactionEntry} {block : Block}
    (h : ExecutedOn code s entries block) : entriesOf block = entries := by
  obtain ⟨receipts, stateDiff, hset, hbody⟩ := h
  have hhashes := txHash_of_processTransactionSet hset
  rw [entriesOf, hbody]
  dsimp only
  clear hset hbody
  induction entries generalizing receipts with
  | nil => simp
  | cons entry entries ih =>
    cases receipts with
    | nil => cases hhashes
    | cons receipt receipts =>
      rw [List.map_cons, List.map_cons, List.cons.injEq] at hhashes
      rw [List.map_cons, List.zipWith_cons_cons, ih receipts hhashes.2, hhashes.1]

/-- Code that stores strings makes a difference of strings. -/
theorem isSome_stateDiff {s : KeyValues} {entries : List TransactionEntry}
    (hw : AllWithin plain strings code s entries) {receipts : List TransactionReceipt}
    {stateDiff : List (StateCacheKey × Option Str)}
    (h : VirtualMachine.processTransactionSet code s entries = .ok (receipts, stateDiff)) :
    ∀ d ∈ stateDiff, d.2.isSome = true := by
  rw [VirtualMachine.processTransactionSet] at h
  have hmarked : StateCache.Marked .empty := by
    intro k v hk
    cases hk
  rcases processEach_sim views_empty hmarked (allWithin_overlay hw).1 with ⟨err, h1, -⟩ | ⟨receipts', c, t, h1, -, hc, -⟩
  · rw [h1] at h
    cases h
  · obtain ⟨items, hi, hof, -⟩ := hc.getModifiedKeys
    rw [h1] at h
    dsimp only at h
    rw [hi] at h
    cases h
    exact fun d hd => (hof d hd).1.2

/-- The state storage and the key-value state take a difference of strings alike. -/
theorem getSync_applyStateDiff : ∀ {stateDiff : List (StateCacheKey × Option Str)} {m : StateStorage.InMemoryKVStore}
    {s : KeyValues}, (∀ d ∈ stateDiff, d.2.isSome = true) →
    (∀ key : StateCacheKey, m.getSync key.contractAddress key.key = s key) → ∀ key : StateCacheKey,
      (StateStorage.applyStateDiff m (stateDiff.map modifiedStateKey)).getSync key.contractAddress key.key =
        applyStateDiff s stateDiff key := by
  intro stateDiff
  induction stateDiff with
  | nil => exact fun _ hm => hm
  | cons d stateDiff ih =>
    intro m s hd hm
    refine ih (fun d' hd' => hd d' (List.mem_cons_of_mem _ hd')) fun key => ?_
    obtain ⟨v, hv⟩ := Option.isSome_iff_exists.1 (hd d List.mem_cons_self)
    have hiff : key.contractAddress = d.1.contractAddress ∧ key.key = d.1.key ↔ key = d.1 := by
      rw [StateCacheKey.mk.injEq]
    dsimp only [modifiedStateKey]
    rw [StateStorage.InMemoryKVStore.getSync_setSync, hm, Function.update_apply, hv, Option.getD_some]
    simp only [hiff]

theorem stateAfter_concat {blocks : List Block} {block : Block} {stateDiff : List (StateCacheKey × Option Str)}
    (hd : ∀ d ∈ stateDiff, d.2.isSome = true) (hbody : block.body.stateDiff = stateDiff.map modifiedStateKey) :
    stateAfter (blocks ++ [block]) = applyStateDiff (stateAfter blocks) stateDiff := by
  funext key
  rw [stateAfter, ← StateStorage.getSync_replay, StateStorage.replay_concat, hbody]
  exact getSync_applyStateDiff hd (fun key => StateStorage.getSync_replay blocks key.contractAddress key.key) key

/-- **Blocks executed one on the other are the transactions one after another.** -/
theorem sequential_of_executed {blocks : List Block} (h : Executed code blocks)
    (hw : AllWithin plain strings code (fun _ => none) (blocks.flatMap entriesOf)) :
    sequential plain code (fun _ => none) (blocks.flatMap entriesOf) =
      .ok (blocks.flatMap fun block => block.body.transactionReceipts, stateAfter blocks) := by
  induction blocks using List.reverseRecOn with
  | nil => rfl
  | append_singleton blocks block ih =>
    obtain ⟨hblocks, entries, hblock⟩ := executed_concat.1 h
    rw [List.flatMap_append, List.flatMap_singleton] at hw ⊢
    have hseq := ih hblocks (Lts.meets_append_left hw)
    have hlast := (Lts.meets_append hw (run_of_sequential hseq)).2
    rw [entriesOf_eq hblock] at hlast ⊢
    obtain ⟨receipts, stateDiff, hset, hbody⟩ := hblock
    have heq := processTransactionSet_eq hlast
    rw [hset] at heq
    rw [sequential_append, hseq]
    dsimp only
    rw [← heq, List.flatMap_append, List.flatMap_singleton,
      stateAfter_concat (isSome_stateDiff hlast hset) (congrArg BlockBody.stateDiff hbody), hbody]
    rfl

/-- **What a node has replayed is the committed transactions run one at a time**, from the empty state: the receipts are
those of that run, and so is what the state storage holds at its height. -/
theorem sequential_chain {as : List Action} {s : State sha256}
    (hg : Lts.Meets (step code config storage) (Honest code storage)
      (start (Chain.nil : BlockChain sha256)) as)
    (hr : Lts.run (step code config storage) (start Chain.nil) as = some s)
    (hw : AllWithin plain strings code (fun _ => none) (s.storage.chain.rest.flatMap entriesOf)) :
    ∀ blocks, blocks <+: s.storage.chain.rest →
      sequential plain code (fun _ => none) (blocks.flatMap entriesOf) =
          .ok (blocks.flatMap fun block => block.body.transactionReceipts, stateAfter blocks) ∧
        (blocks.length = s.storage.lastBlockHeight →
          ∀ key : StateCacheKey, s.storage.kvstore.getSync key.contractAddress key.key = stateAfter blocks key) := by
  have hinv : Inv code config s ∧ Executed code s.storage.chain.rest := by
    refine Lts.run_inv (I := fun s => Inv code config s ∧ Executed code s.storage.chain.rest)
      (fun s a s' hs hga h => ?_) ⟨inv_start _, fun below _ above he => ?_⟩ hg hr
    · exact ⟨step_inv hs.1 (onChain_of_honest hga) h, executed_step hs.1 hs.2 hga h⟩
    · exact absurd he.symm (List.append_ne_nil_of_right_ne_nil below (List.cons_ne_nil _ _))
  obtain ⟨hs, hx⟩ := hinv
  rintro blocks ⟨above, habove⟩
  rw [← habove] at hx hw
  rw [List.flatMap_append] at hw
  refine ⟨sequential_of_executed (fun below block l he => ?_) (Lts.meets_append_left hw), fun hl key => ?_⟩
  · exact hx below block (l ++ above) (by rw [he, List.append_assoc, List.cons_append])
  · rw [hs.storage.kvstore, ← habove, ← hl, List.take_left, StateStorage.getSync_replay]
    rfl

end

/-! ## A block that is built and stored -/

/-- A build reads its one key, and its block is stored and replayed. -/
def buildAndStore : List Action :=
  [.processTransactionSet (generateGenesisBlock Sha256.hash) [appenderEntry "a"], .readKeys 0,
    .storage (.getLastBlock 0), .storage (.waitForBlockState 0), .storage (.getMany 0), .answer 0, .addBlock 0,
    .storage .pollBlockStorage, .storage (.getBlocks 0), .storage (.syncNextBlock 0)]

theorem honest_buildAndStore : Lts.Meets (step appender builderConfig .unsigned) (Honest appender .unsigned)
    (start (Chain.nil : BlockChain Sha256.hash)) buildAndStore :=
  ⟨List.mem_cons_self, fun s _ => Lts.meets_of_mem (Lts.meets_of_forall (G := fun _ _ => True) (fun _ _ => trivial) _ s)
    fun s a ha _ => by
      simp only [List.mem_cons, List.not_mem_nil, or_false] at ha
      rcases ha with rfl | rfl | rfl | rfl | rfl | rfl | rfl | rfl | rfl <;> trivial⟩

theorem run_buildAndStore : ((Lts.run (step appender builderConfig .unsigned) (start Chain.nil)
    buildAndStore).map fun s : State Sha256.hash =>
      (s.storage.lastBlockHeight, s.storage.chain.rest.length,
        decide (AllWithin plain strings appender (fun _ => none) (s.storage.chain.rest.flatMap entriesOf)))) =
      some (1, 1, true) := by
  decide +kernel

theorem sequential_chain_buildAndStore : ∃ s : State Sha256.hash,
    Lts.run (step appender builderConfig .unsigned) (start Chain.nil) buildAndStore = some s ∧
      s.storage.lastBlockHeight = 1 ∧
      sequential plain appender (fun _ => none) (s.storage.chain.rest.flatMap entriesOf) =
        .ok (s.storage.chain.rest.flatMap fun block => block.body.transactionReceipts, stateAfter s.storage.chain.rest) ∧
      ∀ key : StateCacheKey, s.storage.kvstore.getSync key.contractAddress key.key = stateAfter s.storage.chain.rest key := by
  obtain ⟨s, hs, he⟩ := Option.map_eq_some_iff.1 run_buildAndStore
  simp only [Prod.mk.injEq, decide_eq_true_eq] at he
  obtain ⟨hheight, hlength, hw⟩ := he
  obtain ⟨hseq, hstore⟩ := sequential_chain honest_buildAndStore hs hw _ List.prefix_rfl
  exact ⟨s, hs, hheight, hseq, hstore (hlength.trans hheight.symm)⟩

theorem isolated_buildAndStore : ∃ (s : State Sha256.hash) (block : Block) (d : BlockChain Sha256.hash),
    Lts.run (step appender builderConfig .unsigned) (start Chain.nil) (buildAndStore.take 6) = some s ∧
      append .unsigned s.storage.chain block = some d ∧
      ExecutedOn appender (stateAfter s.storage.chain.rest) [appenderEntry "a"] block := by
  have hrun : ((Lts.run (step appender builderConfig .unsigned) (start Chain.nil) (buildAndStore.take 6)).bind
      fun s : State Sha256.hash => (s.builds[0]?).bind fun b => (b.block Sha256.hash builderConfig).bind fun block =>
        (append .unsigned s.storage.chain block).map fun _ => b.transactionEntries) =
      some [appenderEntry "a"] := by
    decide +kernel
  obtain ⟨s, hs, hrun⟩ := Option.bind_eq_some_iff.1 hrun
  obtain ⟨b, hb, hrun⟩ := Option.bind_eq_some_iff.1 hrun
  obtain ⟨block, hblock, hrun⟩ := Option.bind_eq_some_iff.1 hrun
  obtain ⟨d, hd, he⟩ := Option.map_eq_some_iff.1 hrun
  have hg : Lts.Meets (step appender builderConfig .unsigned) OnChain (start Chain.nil) (buildAndStore.take 6) :=
    Lts.meets_of_mem (@Lts.meets_append_left _ _ _ _ _ _ (buildAndStore.drop 6) honest_buildAndStore)
      fun _ _ _ => onChain_of_honest
  have hx := isolated hg hs hb hblock hd
  rw [he] at hx
  exact ⟨s, block, d, hs, hd, hx⟩

end BlockExecution
end Orbs
