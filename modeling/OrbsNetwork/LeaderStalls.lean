import OrbsNetwork.LeaderQueue
import OrbsNetwork.Processor
/-!
# LeaderStalls — what stops a leader

The builder asks the storage for the last block once, and learns of later ones only when a commit of its own succeeds.
Once the storage has got a block by sync that the builder does not know of, everything that it builds is too low, so no
commit of its own succeeds any more (`stale_forever`).

The virtual machine gives up a whole block when one of its transactions fails unexpectedly, and the transaction stays in
the pool.  One that no contract is registered for, or that calls no method, therefore holds up all that is behind it,
and whatever would share a block with it, until it expires (`poisoned`).
-/
namespace Orbs

open Js

/-! ## A stale builder -/

namespace BlockBuilder
open BlockStorage HashChain

variable {sha256 : Bytes → Bytes} {config : BlockBuilderConfig} {storage : BlockStorageConfig} {s s' : State sha256}

/-- A call that works with a block below `height`, or has handed one on that is at most `height` high. -/
def Phase.Low (height : ℕ) : Phase → Prop
  | .fetching | .fetched _ => False
  | .building block => ∃ b, block = some b ∧ b.header.height < height
  | .handed block => block.header.height ≤ height
  | .ended => True

/-- The builder's last block is below `height`, which the storage has reached, and so is all that it has under way. -/
structure Stale (lastBlock : Block) (height : ℕ) (s : State sha256) : Prop where
  cached : s.lastBlock = some lastBlock
  low : lastBlock.header.height < height
  chain : ∃ c, s.chain = some c ∧ height ≤ c.tip.header.height
  builds : ∀ b ∈ s.builds, b.phase.Low height
  commits : ∀ c ∈ s.commits, c.block.header.height ≤ height ∧ c.phase ≠ .answered true

/-- What is committed was built here, and the storage tells when it refuses it.  The storage may sync as it likes. -/
def OwnCommits (s : State sha256) : Action sha256 → Prop
  | .commitBlock block => block ∈ s.handed
  | .addBlock _ => s.isSyncing = false
  | _ => True

namespace Stale
variable {lastBlock : Block} {height : ℕ}

theorem handed_le (hi : Stale lastBlock height s) {block : Block} (hb : block ∈ s.handed) :
    block.header.height ≤ height := by
  obtain ⟨b, hb, hp⟩ := List.mem_filterMap.1 hb
  have h := hi.builds b hb
  cases hphase : b.phase with
  | handed block' =>
    rw [hphase] at h hp
    cases hp
    exact h
  | _ => rw [hphase] at hp; cases hp

theorem setChain (hi : Stale lastBlock height s) {c : BlockChain sha256} (hc : height ≤ c.tip.header.height) :
    Stale lastBlock height (s.setChain c) where
  cached := hi.cached
  low := hi.low
  chain := ⟨c, rfl, hc⟩
  builds := fun b hb => by
    obtain ⟨b', hb', rfl⟩ := List.mem_map.1 hb
    rw [Build.observe_phase]
    exact hi.builds b' hb'
  commits := hi.commits

theorem setBuild (hi : Stale lastBlock height s) {i : ℕ} {b : Build} (hb : b.phase.Low height) :
    Stale lastBlock height (s.setBuild i b) where
  cached := hi.cached
  low := hi.low
  chain := hi.chain
  builds := fun b' hb' => by
    rcases List.mem_or_eq_of_mem_set hb' with hold | rfl
    · exact hi.builds b' hold
    · exact hb
  commits := hi.commits

theorem setCommit (hi : Stale lastBlock height s) {j : ℕ} {c : Commit}
    (hc : c.block.header.height ≤ height ∧ c.phase ≠ .answered true) : Stale lastBlock height (s.setCommit j c) where
  cached := hi.cached
  low := hi.low
  chain := hi.chain
  builds := hi.builds
  commits := fun c' hc' => by
    rcases List.mem_or_eq_of_mem_set hc' with hold | rfl
    · exact hi.commits c' hold
    · exact hc

/-- Nothing that is at most `height` high follows the storage's last block. -/
theorem refused (hi : Stale lastBlock height s) {block : Block} (hb : block.header.height ≤ height) :
    (s.chain.bind fun c => append storage c block) = none := by
  obtain ⟨c, hc, hle⟩ := hi.chain
  rw [hc, Option.bind_some]
  cases ha : append storage c block with
  | none => rfl
  | some d =>
    have := (tip_of_append ha).2
    omega

end Stale

theorem stale_step {lastBlock : Block} {height : ℕ} {a : Action sha256} (hi : Stale lastBlock height s)
    (hg : OwnCommits s a) (h : step config storage s a = some s') : Stale lastBlock height s' := by
  cases a with
  | load c =>
    obtain ⟨c', hc, -⟩ := hi.chain
    simp only [step, hc] at h
    cases h
  | appendBlocks block =>
    obtain ⟨c, hc, hle⟩ := hi.chain
    simp only [step, hc, Option.map_some] at h
    cases ha : append storage c block with
    | none =>
      rw [ha] at h
      cases h
      exact hi
    | some d =>
      rw [ha] at h
      cases h
      obtain ⟨htip, hh⟩ := tip_of_append ha
      refine hi.setChain ?_
      rw [htip]
      omega
  | setSyncing isSyncing =>
    cases h
    exact ⟨hi.cached, hi.low, hi.chain, hi.builds, hi.commits⟩
  | start =>
    cases h
    exact ⟨hi.cached, hi.low, hi.chain, hi.builds, hi.commits⟩
  | stop =>
    cases h
    exact ⟨hi.cached, hi.low, hi.chain, hi.builds, hi.commits⟩
  | appendNextBlock =>
    simp only [step, hi.cached] at h
    cases h
    refine ⟨rfl, hi.low, hi.chain, fun b hb => ?_, hi.commits⟩
    rcases List.mem_append.1 hb with hold | hnew
    · exact hi.builds b hold
    · rw [List.mem_singleton.1 hnew]
      exact ⟨lastBlock, rfl, hi.low⟩
  | getLastBlock i =>
    rw [step] at h
    split at h <;> cases h
    rename_i hb
    exact (hi.builds _ (List.mem_of_getElem? hb)).elim
  | fetched i =>
    rw [step] at h
    split at h <;> cases h
    rename_i hb
    exact (hi.builds _ (List.mem_of_getElem? hb)).elim
  | build i answers =>
    rw [step] at h
    split at h
    case h_2 => cases h
    rename_i tips last hb
    obtain ⟨last, rfl, hlt⟩ := hi.builds _ (List.mem_of_getElem? hb)
    split at h
    · rename_i built hbuild
      cases h
      refine hi.setBuild ?_
      change built.header.height ≤ height
      have hn : built.header.height = last.header.height + 1 := (next_of_build hbuild).1
      omega
    · cases h
      exact Stale.setBuild (s := { s with polling := true })
        ⟨hi.cached, hi.low, hi.chain, hi.builds, hi.commits⟩ trivial
    · cases h
      exact Stale.setBuild (s := { s with polling := true })
        ⟨hi.cached, hi.low, hi.chain, hi.builds, hi.commits⟩ trivial
  | commitBlock block =>
    cases h
    refine ⟨hi.cached, hi.low, hi.chain, hi.builds, fun c hc => ?_⟩
    rcases List.mem_append.1 hc with hold | hnew
    · exact hi.commits c hold
    · rw [List.mem_singleton.1 hnew]
      exact ⟨hi.handed_le hg, fun h => by cases h⟩
  | addBlock j =>
    rw [step] at h
    split at h
    case h_2 => cases h
    rename_i block hj
    have hle := (hi.commits _ (List.mem_of_getElem? hj)).1
    rw [hi.refused hle] at h
    cases h
    refine hi.setCommit ⟨hle, ?_⟩
    rw [show s.isSyncing = false from hg]
    exact fun h => by cases h
  | committed j =>
    rw [step] at h
    split at h <;> cases h
    rename_i block resolved hj
    obtain ⟨hle, hne⟩ := hi.commits _ (List.mem_of_getElem? hj)
    obtain rfl : resolved = false := Bool.eq_false_iff.2 fun hr => hne (congrArg _ hr)
    exact Stale.setCommit (s := { s with lastBlock := s.lastBlock })
      ⟨hi.cached, hi.low, hi.chain, hi.builds, hi.commits⟩ ⟨hle, fun h => by cases h⟩

/-- The builder has the block that it had, none of its commits has succeeded, and the storage takes nothing of what it
has built. -/
structure Stuck (storage : BlockStorageConfig) (lastBlock : Block) (s : State sha256) : Prop where
  cached : s.lastBlock = some lastBlock
  commits : ∀ c ∈ s.commits, c.phase ≠ .answered true
  handed : ∀ block ∈ s.handed, (s.chain.bind fun c => append storage c block) = none

def Phase.isLow (height : ℕ) : Phase → Bool
  | .building (some b) => b.header.height < height
  | .handed block => block.header.height ≤ height
  | .ended => true
  | _ => false

theorem low_of_isLow {height : ℕ} {phase : Phase} (h : phase.isLow height = true) : phase.Low height := by
  cases phase with
  | building block =>
    cases block with
    | none => cases h
    | some b => exact ⟨b, rfl, of_decide_eq_true h⟩
  | handed block => exact (of_decide_eq_true h : block.header.height ≤ height)
  | ended => trivial
  | fetching | fetched block => cases h

def isStale (height : ℕ) (s : State sha256) : Bool :=
  (s.lastBlock.any fun b => b.header.height < height) && (s.chain.any fun c => height ≤ c.tip.header.height) &&
    (s.builds.all fun b => b.phase.isLow height) && s.commits.isEmpty

theorem stale_of_isStale {height : ℕ} (h : isStale height s = true) : ∃ lastBlock, Stale lastBlock height s := by
  rw [isStale, Bool.and_eq_true, Bool.and_eq_true, Bool.and_eq_true, Option.any_eq_true, Option.any_eq_true,
    List.all_eq_true, List.isEmpty_iff] at h
  obtain ⟨⟨⟨⟨b, hb, hlow⟩, c, hc, hle⟩, hbuilds⟩, hcommits⟩ := h
  refine ⟨b, hb, of_decide_eq_true hlow, ⟨c, hc, of_decide_eq_true hle⟩, fun b hb => low_of_isLow (hbuilds b hb),
    fun c hc => ?_⟩
  rw [hcommits] at hc
  cases hc

def ownCommits (s : State sha256) : Action sha256 → Bool
  | .commitBlock block => block ∈ s.handed
  | .addBlock _ => !s.isSyncing
  | _ => true

theorem ownCommits_of_check {a : Action sha256} (h : ownCommits s a = true) : OwnCommits s a := by
  cases a with
  | commitBlock block => exact (of_decide_eq_true h : block ∈ s.handed)
  | addBlock j => exact (by simpa [ownCommits] using h : s.isSyncing = false)
  | _ => trivial

/-- The block is committed, and a new one built with the same transaction. -/
def commitAndBuild (block : Block) : List (Action Sha256.hash) :=
  [.commitBlock block, .addBlock 0, .committed 0, .appendNextBlock, .build 2 oneTransaction]

structure StaleSample where
  before : State Sha256.hash
  block : Block
  after : State Sha256.hash

def staleSample : Option StaleSample :=
  (Lts.run (step builderConfig .unsigned) init staleCache).bind fun before =>
  before.handed.head?.bind fun block =>
  (Lts.run (Lts.guarded (step builderConfig .unsigned) ownCommits) before (commitAndBuild block)).map fun after =>
    { before, block, after }

theorem staleSample_eq_some {r : StaleSample} (h : staleSample = some r) :
    Lts.run (step builderConfig .unsigned) init staleCache = some r.before ∧
      Lts.run (Lts.guarded (step builderConfig .unsigned) ownCommits) r.before (commitAndBuild r.block) = some r.after := by
  unfold staleSample at h
  obtain ⟨before, hb, h⟩ := Option.bind_eq_some_iff.1 h
  obtain ⟨block, -, h⟩ := Option.bind_eq_some_iff.1 h
  obtain ⟨after, ha, rfl⟩ := Option.map_eq_some_iff.1 h
  exact ⟨hb, ha⟩

theorem run_staleSample : (staleSample.map fun r => (isStale 1 r.before, r.after.handed.length)) = some (true, 2) := by
  decide +kernel

end BlockBuilder

/-! ## A transaction that fails unexpectedly -/

namespace VirtualMachine

theorem processEach_eq_ok {σ : Type} {one : σ → TransactionEntry → Except ContractError (Bool × σ)} :
    ∀ {entries : List TransactionEntry} {s s' : σ} {receipts : List TransactionReceipt},
      processEach one s entries = .ok (receipts, s') → ∀ entry ∈ entries, ∃ t r, one t entry = .ok r := by
  intro entries
  induction entries with
  | nil =>
    intro s s' receipts _ entry h
    cases h
  | cons e entries ih =>
    intro s s' receipts h entry hm
    rw [processEach] at h
    split at h
    · cases h
    rename_i success t hone
    split at h
    · cases h
    rename_i receipts' t' heach
    rcases List.mem_cons.1 hm with rfl | hm
    · exact ⟨s, _, hone⟩
    · exact ih heach entry hm

/-- **A set is not processed when the code of one of its transactions throws at once**, and not as expected. -/
theorem processTransactionSet_of_throw {code : ContractCode} (stateStorage : KeyValues)
    {entries : List TransactionEntry} {entry : TransactionEntry} {e : ContractError} (hm : entry ∈ entries) (hc : code entry.request = .throw e)
    (he : e.expected = false) : ∃ err, processTransactionSet code stateStorage entries = .error err := by
  unfold processTransactionSet
  cases heach : processEach (processOne code stateStorage) .empty entries with
  | error err => exact ⟨err, rfl⟩
  | ok r =>
    obtain ⟨t, r', hone⟩ := processEach_eq_ok heach entry hm
    rw [processOne, processTransaction, hc, StateProg.exec] at hone
    dsimp only at hone
    rw [he] at hone
    cases hone

end VirtualMachine

namespace HardCodedSmartContractProcessor

/-- No contract is registered under its address, or its payload is no call. -/
def Malformed (registry : JsMap Str Contract) (request : CallRequest) : Prop :=
  HardCodedSmartContractRegistry.getContractByRawAddress registry request.contractAddress = none ∨
    ∃ e, parseCall request.payload = .error e

theorem expected_of_parseCall {payload : Str} {e : ContractError} (h : parseCall payload = .error e) :
    e.expected = false := by
  unfold parseCall at h
  split at h
  · cases h
    rfl
  · cases h
    rfl
  · split at h
    · cases h
      rfl
    · cases h
      rfl
    · split at h
      · cases h
      · cases h
        rfl
      · cases h
        rfl

theorem throw_of_malformed {registry : JsMap Str Contract} {request : CallRequest} (h : Malformed registry request) :
    ∃ e, processMethod registry request = .throw e ∧ e.expected = false := by
  unfold processMethod
  cases hc : HardCodedSmartContractRegistry.getContractByRawAddress registry request.contractAddress with
  | none => exact ⟨_, rfl, rfl⟩
  | some contract =>
    obtain ⟨e, he⟩ := h.resolve_left (by rw [hc]; exact Option.some_ne_none contract)
    dsimp only
    rw [he]
    exact ⟨e, rfl, expected_of_parseCall he⟩

end HardCodedSmartContractProcessor

namespace LeaderNode
open BlockStorage HashChain TransactionPool HardCodedSmartContractProcessor
open BlockBuilder (Source)
open BlockCommit (ids answers)

/-- The virtual machine runs hard-coded contracts, for which what is pending under `txid` is malformed. -/
def Malformed {sha256 : Bytes → Bytes} (txid : Str) (s : State sha256) : Action sha256 → Prop
  | .build _ code _ => ∃ registry, code = processMethod registry ∧ ∀ tx, s.pool.pending.get txid = some tx →
    HardCodedSmartContractProcessor.Malformed registry
      { sender := tx.header.sender, payload := tx.payload, contractAddress := tx.header.contractAddress }
  | _ => True

section
variable {crypto : Crypto} {cfg : NodeConfig crypto} {c₀ c : BlockChain crypto.sha256} {s s' : State crypto.sha256}
  {txid : Str}

/-- `txid` is among those that the next block would take, and nothing but `handed` has been built. -/
structure Blocked (cfg : NodeConfig crypto) (txid : Str) (handed : List Block) (s : State crypto.sha256) : Prop where
  waits : txid ∈ s.pool.pending.keys
  ahead : (s.pool.pending.ahead txid).length < cfg.builder.blockSizeLimit
  built : s.builder.handed = handed

/-- **A build that would take a malformed transaction builds nothing.** -/
theorem build_malformed {p : Pools} {registry : JsMap Str Contract} {stateStorage : KeyValues} {lastBlock : Option Block}
    {block : Block} {tx : Transaction} (hw : txid ∈ p.pendingTransactions.keys.take cfg.builder.blockSizeLimit)
    (hp : p.pendingTransactions.get txid = some tx) (hm : HardCodedSmartContractProcessor.Malformed registry
      { sender := tx.header.sender, payload := tx.payload, contractAddress := tx.header.contractAddress }) :
    BlockBuilder.buildBlockFromPendingTransactions crypto.sha256 cfg.builder lastBlock
      (answers (processMethod registry) stateStorage cfg.builder p) ≠ .ok (some block) := by
  intro h
  have hentry : { txHash := Hex.decode txid, transaction := tx : TransactionEntry } ∈
      p.getAllPendingTransactions.take cfg.builder.blockSizeLimit := by
    unfold Pools.getAllPendingTransactions
    rw [← List.map_take]
    rw [JsMap.keys, ← List.map_take] at hw
    obtain ⟨⟨k, v⟩, hkv, rfl⟩ := List.mem_map.1 hw
    have hv := JsMap.get_eq_some_iff.2 (List.mem_of_mem_take hkv)
    rw [hp] at hv
    cases hv
    exact List.mem_map.2 ⟨_, hkv, rfl⟩
  obtain ⟨e, hthrow, he⟩ := throw_of_malformed hm
  obtain ⟨err, herr⟩ := VirtualMachine.processTransactionSet_of_throw stateStorage hentry hthrow he
  unfold BlockBuilder.buildBlockFromPendingTransactions at h
  obtain ⟨entries, hentries, h⟩ := bind_eq_ok.1 h
  cases hentries
  dsimp only at h
  split_ifs at h
  · cases h
  obtain ⟨r, hr, -⟩ := bind_eq_ok.1 h
  simp only [answers, herr] at hr
  cases hr

variable {handed : List Block}

theorem blocked_pool {a : TransactionPool.Action} (hi : Inv cfg c₀ c s) (hb : Blocked cfg txid handed s)
    (h : step cfg s (.pool a) = some s') :
    Blocked cfg txid handed s' ∨ txid ∉ s'.pool.pending.keys ∧ Left cfg txid s' := by
  obtain ⟨ha, pool, hp, rfl⟩ := step_pool h
  by_cases hw : txid ∈ pool.pending.keys
  · exact .inl ⟨hw, (ahead_client ha hp hb.waits hw).length_le.trans_lt hb.ahead, hb.built⟩
  · exact .inr ⟨hw, .inr (expired_of_client hi.pool.ids ha hp hb.waits hw)⟩

theorem blocked_build {i : ℕ} {code : ContractCode} {stateStorage : KeyValues} (hb : Blocked cfg txid handed s)
    (hg : Malformed txid s (.build i code stateStorage)) (h : step cfg s (.build i code stateStorage) = some s') :
    Blocked cfg txid handed s' := by
  obtain ⟨builder, hbuild, rfl⟩ := step_build h
  obtain ⟨-, -, -, -, tips, lastBlock, -, hh⟩ := BlockBuilder.step_build hbuild
  refine ⟨hb.waits, hb.ahead, ?_⟩
  rcases hh with hsame | ⟨block, hbuilt, -⟩
  · exact hsame.trans hb.built
  obtain ⟨registry, rfl, hmal⟩ := hg
  obtain ⟨tx, hp⟩ := JsMap.get_of_mem_keys hb.waits
  have htake : txid ∈ s.pool.pending.keys.take cfg.builder.blockSizeLimit := by
    refine (JsMap.take_ahead hb.waits cfg.builder.blockSizeLimit).resolve_right ?_
    rintro ⟨-, hle⟩
    exact absurd hb.ahead (Nat.not_lt.2 hle)
  exact absurd hbuilt (build_malformed htake hp (hmal tx hp))

theorem blocked_clear (hi : Inv cfg c₀ c s) (hb : Blocked cfg txid handed s) (h : step cfg s .clear = some s') :
    Blocked cfg txid handed s' ∨ txid ∉ s'.pool.pending.keys ∧ Left cfg txid s' := by
  obtain ⟨source, block, own, pool, ha, hp, rfl⟩ := step_clear h
  obtain ⟨hkeys, hahead⟩ := cleared_of_adding txid hi ha hp
  by_cases hw : txid ∈ ids crypto block
  · refine .inr ⟨?_, .inl ⟨_, rfl, hw⟩⟩
    change txid ∉ pool.pending.keys
    rw [hkeys, List.mem_filter]
    exact fun h => of_decide_eq_true h.2 hw
  · refine .inl ⟨?_, ?_, hb.built⟩
    · change txid ∈ pool.pending.keys
      rw [hkeys, List.mem_filter]
      exact ⟨hb.waits, decide_eq_true hw⟩
    · change (pool.pending.ahead txid).length < _
      rw [hahead hw]
      exact (List.length_filter_le _ _).trans_lt hb.ahead

theorem blocked_step {a : Action crypto.sha256} (hi : Inv cfg c₀ c s) (hb : Blocked cfg txid handed s)
    (hg : Malformed txid s a) (h : step cfg s a = some s') :
    Blocked cfg txid handed s' ∨ txid ∉ s'.pool.pending.keys ∧ Left cfg txid s' := by
  cases a with
  | pool a => exact blocked_pool hi hb h
  | builder a =>
    obtain ⟨ha, builder, hs, rfl⟩ := step_builder h
    obtain ⟨-, hh, -⟩ := BlockBuilder.step_control ha hs
    exact .inl ⟨hb.waits, hb.ahead, hh.trans hb.built⟩
  | build i code stateStorage => exact .inl (blocked_build hb hg h)
  | addBlock source =>
    obtain ⟨-, block, c', hblock, hc, ⟨-, rfl⟩ | ⟨-, builder, hs, rfl⟩⟩ := step_addBlock h
    · exact .inl ⟨hb.waits, hb.ahead, hb.built⟩
    · obtain ⟨-, hh⟩ := BlockBuilder.step_answer hblock hc hs
      exact .inl ⟨hb.waits, hb.ahead, hh.trans hb.built⟩
  | mark =>
    obtain ⟨source, block, own, pool, -, hp, rfl⟩ := step_mark h
    have hpend := pending_mark hp
    exact .inl ⟨hpend ▸ hb.waits, hpend ▸ hb.ahead, hb.built⟩
  | clear => exact blocked_clear hi hb h
  | land =>
    obtain ⟨source, block, own, builder, ha, hs, rfl⟩ := step_land h
    obtain ⟨-, hh⟩ := BlockBuilder.step_answer (hi.adding _ ha).asked hi.chain hs
    exact .inl ⟨hb.waits, hb.ahead, hh.trans hb.built⟩

/-- **A run builds nothing until `txid` leaves.** -/
theorem blocked_run : ∀ {as : List (Action crypto.sha256)} {s s' : State crypto.sha256}
    {c : BlockChain crypto.sha256}, Inv cfg c₀ c s → Blocked cfg txid handed s →
    Lts.Meets (step cfg) (Orderly cfg c₀) s as → Lts.Meets (step cfg) (Malformed txid) s as →
    Lts.run (step cfg) s as = some s' →
    Blocked cfg txid handed s' ∨ ∃ bs t, bs <+: as ∧ Lts.run (step cfg) s bs = some t ∧
      txid ∉ t.pool.pending.keys ∧ Left cfg txid t := by
  intro as
  induction as with
  | nil =>
    intro s s' c _ hb _ _ hr
    cases hr
    exact .inl hb
  | cons a as ih =>
    intro s s' c hi hb hg hm hr
    obtain ⟨t, ht, hr⟩ := Lts.run_cons hr
    obtain ⟨d, hd⟩ := inv_step hi hg.1 ht
    rcases blocked_step hi hb hm.1 ht with hbt | hleft
    · rcases ih hd hbt (hg.2 t ht) (hm.2 t ht) hr with hend | ⟨bs, u, hbs, hu, hleft⟩
      · exact .inl hend
      · refine .inr ⟨a :: bs, u, (List.prefix_cons_inj a).2 hbs, ?_, hleft⟩
        rw [Lts.run, ht]
        exact hu
    · refine .inr ⟨[a], t, ⟨as, rfl⟩, ?_, hleft⟩
      rw [Lts.run, ht]
      rfl

end

/-- The first build, with no contract registered. -/
def buildNone : List (Action sampleCrypto.sha256) :=
  [.builder .appendNextBlock, .builder (.getLastBlock 0), .builder (.fetched 0),
    .build 0 (processMethod .empty) fun _ => none]

structure Stop where
  waiting : State sampleCrypto.sha256
  after : State sampleCrypto.sha256

def stop : Option Stop :=
  (runOrderly (start sampleTime Chain.nil) (submit sampleTransaction)).bind fun waiting =>
  (runOrderly waiting buildNone).map fun after => { waiting, after }

theorem stop_eq_some {r : Stop} (h : stop = some r) :
    runOrderly (start sampleTime Chain.nil) (submit sampleTransaction) = some r.waiting ∧
      runOrderly r.waiting buildNone = some r.after := by
  unfold stop at h
  obtain ⟨waiting, hw, h⟩ := Option.bind_eq_some_iff.1 h
  obtain ⟨after, ha, rfl⟩ := Option.map_eq_some_iff.1 h
  exact ⟨hw, ha⟩

theorem malformed_buildNone {txid : Str} {s : State sampleCrypto.sha256} :
    Lts.Meets (step nodeConfig) (Malformed txid) s buildNone := by
  refine Lts.meets_of_mem (Lts.meets_of_forall (G := fun _ _ => True) (fun _ _ => trivial) _ _) fun s a ha _ => ?_
  simp only [buildNone, List.mem_cons, List.not_mem_nil, or_false] at ha
  rcases ha with rfl | rfl | rfl | rfl
  · trivial
  · trivial
  · trivial
  · exact ⟨.empty, rfl, fun _ _ => .inl rfl⟩

theorem run_stop : (stop.map fun r => (r.waiting.pool.pending.keys.length, r.after.pool.pending.keys.length)) =
    some (1, 1) := by
  decide +kernel

end LeaderNode
end Orbs
