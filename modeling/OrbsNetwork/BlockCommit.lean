import OrbsNetwork.BlockBuilder
import OrbsNetwork.TransactionPool
import OrbsNetwork.VirtualMachine
/-!
# BlockCommit — from the pending pool into a block and out of the pool

A transaction goes from the pending pool to the virtual machine under its hash, comes back in a receipt with that hash
and leaves the pool under the hexadecimal text of it.  `answers` joins the pool, the virtual machine and the block
builder; the transactions of a block are identified by their ids throughout.
-/
namespace Orbs
namespace BlockCommit

open Js BlockBuilder TransactionPool
open TransactionHelper (calculateHash calculateTransactionId)

/-- A modified key as it stands in a block; an undefined value is an empty field there. -/
def modifiedStateKey (d : StateCacheKey × Option Str) : ModifiedStateKey where
  contractAddress := d.1.contractAddress
  key := d.1.key
  value := d.2.getD []

def answers (code : ContractCode) (stateStorage : KeyValues) (config : BlockBuilderConfig) (p : Pools) : Answers where
  getAllPendingTransactions := .ok p.getAllPendingTransactions
  processTransactionSet :=
    match VirtualMachine.processTransactionSet code stateStorage
        (p.getAllPendingTransactions.take config.blockSizeLimit) with
    | .ok (transactionReceipts, stateDiff) => .ok (transactionReceipts, stateDiff.map modifiedStateKey)
    | .error err => .error err.message

/-! ## The pending pool -/

/-- Every pending transaction stands under its id. -/
def Ids (crypto : Crypto) (p : Pools) : Prop :=
  ∀ txid tx, p.pendingTransactions.get txid = some tx → calculateTransactionId crypto tx = txid

section
variable {cfg : Config}

theorem ids_step {s s' : State} {a : Action} (hi : Ids cfg.crypto s.pools) (h : step cfg s a = some s') :
    Ids cfg.crypto s'.pools := by
  cases a with
  | addNewPendingTransaction tx | newTransaction tx =>
    rcases step_request h with rfl | hr
    · exact hi
    · obtain ⟨-, -, -, rfl⟩ := request_eq_ok hr
      exact hi
  | validated i f =>
    obtain ⟨a, -, rfl | ⟨-, rfl⟩⟩ := step_validated h
    · exact hi
    · intro txid tx hp
      unfold store Pools.setPending at hp
      dsimp only at hp
      rw [JsMap.get_set] at hp
      split_ifs at hp with ht
      · cases hp
        exact ht.symm
      · exact hi txid tx hp
  | markCommittedTransactions m =>
    cases h
    exact hi
  | clearCommitted j =>
    simp only [TransactionPool.step] at h
    split at h
    · cases h
    · cases h
      exact fun txid tx hp => hi txid tx ((JsMap.get_foldl_delete _).1 hp).1
  | cleanupPending =>
    cases h
    exact fun txid tx hp => hi txid tx (JsMap.get_of_get_filter hp)
  | cleanupCommitted =>
    cases h
    exact hi
  | tick now =>
    simp only [TransactionPool.step] at h
    split_ifs at h
    cases h
    exact hi

theorem ids_of_run {now : Time} {as : List Action} {s : State} (h : Lts.run (step cfg) (start now) as = some s) :
    Ids cfg.crypto s.pools := by
  have h0 : Ids cfg.crypto (start now).pools := nofun
  exact Lts.run_inv' (I := fun s => Ids cfg.crypto s.pools) (fun _ _ _ hi hs => ids_step hi hs) h0 h

theorem txHash_pending {p : Pools} (hi : Ids cfg.crypto p) :
    p.getAllPendingTransactions.map TransactionEntry.txHash =
      p.getAllPendingTransactions.map fun entry => calculateHash cfg.crypto entry.transaction := by
  unfold Pools.getAllPendingTransactions
  rw [List.map_map, List.map_map]
  refine List.map_congr_left fun e he => ?_
  have hid := hi e.1 e.2 (JsMap.get_eq_some_iff.2 he)
  change Hex.decode e.1 = calculateHash cfg.crypto e.2
  rw [← hid, calculateTransactionId, transactionHashToId, Hex.decode_encode]

theorem ids_pending {p : Pools} (hi : Ids cfg.crypto p) :
    (p.getAllPendingTransactions.map fun entry => calculateTransactionId cfg.crypto entry.transaction) =
      p.pendingTransactions.keys := by
  unfold Pools.getAllPendingTransactions JsMap.keys
  rw [List.map_map]
  exact List.map_congr_left fun e he => hi e.1 e.2 (JsMap.get_eq_some_iff.2 he)

/-! ## The block -/

variable {sha256 : Bytes → Bytes} {config : BlockBuilderConfig} {code : ContractCode} {stateStorage : KeyValues}

/-- A signature changes nothing else of a block. -/
theorem body_signIfConfigured {block signed : Block} (h : signIfConfigured sha256 config block = .ok signed) :
    signed.body = block.body := by
  unfold signIfConfigured at h
  split_ifs at h
  · split at h
    · exact (signBlock_eq_ok sha256 h).2
    · cases h
  · cases h
    rfl

/-- **What a built block is made of**: the first entries of the pool, and the receipts of the virtual machine for
them. -/
theorem build_eq_ok {p : Pools} {lastBlock : Option Block} {block : Block}
    (h : buildBlockFromPendingTransactions sha256 config lastBlock (answers code stateStorage config p) =
      .ok (some block)) :
    block.body.transactions =
        (p.getAllPendingTransactions.take config.blockSizeLimit).map TransactionEntry.transaction ∧
      block.body.transactionReceipts.map TransactionReceipt.txHash =
        (p.getAllPendingTransactions.take config.blockSizeLimit).map TransactionEntry.txHash := by
  unfold buildBlockFromPendingTransactions at h
  obtain ⟨entries, he, h⟩ := bind_eq_ok.1 h
  cases he
  dsimp only at h
  split_ifs at h
  · cases h
  obtain ⟨⟨receipts, stateDiff⟩, hvm, h⟩ := bind_eq_ok.1 h
  obtain ⟨signed, hs, h⟩ := bind_eq_ok.1 h
  cases h
  rw [body_signIfConfigured hs]
  have hbody : ∀ body, (buildNextBlock sha256 body lastBlock).body = body := by
    intro body
    unfold buildNextBlock
    split <;> rfl
  rw [hbody]
  refine ⟨rfl, ?_⟩
  change (match VirtualMachine.processTransactionSet code stateStorage _ with
    | .ok (transactionReceipts, stateDiff) => Except.ok (transactionReceipts, stateDiff.map modifiedStateKey)
    | .error err => .error err.message) = .ok (receipts, stateDiff) at hvm
  split at hvm
  · rename_i receipts' diff hset
    cases hvm
    unfold VirtualMachine.processTransactionSet at hset
    split at hset
    · cases hset
    · rename_i receipts' stateCache heach
      split at hset
      · cases hset
        exact VirtualMachine.txHash_of_processEach heach
      · cases hset
  · cases hvm

def ids (crypto : Crypto) (block : Block) : List Str := block.body.transactions.map (calculateTransactionId crypto)

theorem txHash_receipts {p : Pools} {lastBlock : Option Block} {block : Block} (hi : Ids cfg.crypto p)
    (h : buildBlockFromPendingTransactions sha256 config lastBlock (answers code stateStorage config p) =
      .ok (some block)) :
    block.body.transactionReceipts.map TransactionReceipt.txHash =
      block.body.transactions.map (calculateHash cfg.crypto) := by
  obtain ⟨ht, hr⟩ := build_eq_ok h
  rw [hr, ht, List.map_take, txHash_pending hi, ← List.map_take, List.map_map]
  rfl

theorem ids_receipts {p : Pools} {lastBlock : Option Block} {block : Block} (hi : Ids cfg.crypto p)
    (h : buildBlockFromPendingTransactions sha256 config lastBlock (answers code stateStorage config p) =
      .ok (some block)) :
    (block.body.transactionReceipts.map fun r => transactionHashToId r.txHash) = ids cfg.crypto block := by
  have hr := congrArg (List.map transactionHashToId) (txHash_receipts hi h)
  rw [List.map_map, List.map_map] at hr
  exact hr

theorem nodup_ids {p : Pools} {lastBlock : Option Block} {block : Block} (hi : Ids cfg.crypto p)
    (h : buildBlockFromPendingTransactions sha256 config lastBlock (answers code stateStorage config p) =
      .ok (some block)) : (ids cfg.crypto block).Nodup := by
  have hkeys := p.pendingTransactions.keys_nodup
  rw [← ids_pending hi] at hkeys
  have htake := hkeys.sublist (List.take_sublist config.blockSizeLimit _)
  rw [← List.map_take] at htake
  unfold ids
  rw [(build_eq_ok h).1, List.map_map]
  exact htake

/-! ## Admissions -/

def accepted (cfg : Config) (s : TransactionPool.State) : TransactionPool.Action → List Transaction
  | .validated i isSubscriptionValid => match s.admissions[i]? with
    | some a => match TransactionValidator.validate cfg.crypto cfg.options isSubscriptionValid a.transaction with
      | .ok true => [a.transaction]
      | _ => []
    | none => []
  | _ => []

def admitted (cfg : Config) : TransactionPool.State → List TransactionPool.Action → List Transaction
  | _, [] => []
  | s, a :: as => accepted cfg s a ++ match TransactionPool.step cfg s a with
    | some s' => admitted cfg s' as
    | none => []

def Further : TransactionPool.Action → Prop
  | .addNewPendingTransaction _ | .newTransaction _ | .validated _ _ | .tick _ => True
  | _ => False

def addPending (crypto : Crypto) (m : JsMap Str Transaction) (tx : Transaction) : JsMap Str Transaction :=
  m.set (calculateTransactionId crypto tx) tx

theorem accepted_of_valid {s : TransactionPool.State} {i : ℕ} {f : Str → Except Str Bool} {a : TransactionPool.Admission}
    (ha : s.admissions[i]? = some a)
    (hv : TransactionValidator.validate cfg.crypto cfg.options f a.transaction = .ok true) :
    accepted cfg s (.validated i f) = [a.transaction] := by
  simp only [accepted, ha, hv]

theorem accepted_of_not_valid {s : TransactionPool.State} {i : ℕ} {f : Str → Except Str Bool}
    {a : TransactionPool.Admission} (ha : s.admissions[i]? = some a)
    (hv : TransactionValidator.validate cfg.crypto cfg.options f a.transaction ≠ .ok true) :
    accepted cfg s (.validated i f) = [] := by
  cases hres : TransactionValidator.validate cfg.crypto cfg.options f a.transaction with
  | error e => simp only [accepted, ha, hres]
  | ok valid =>
    cases valid with
    | true => exact absurd hres hv
    | false => simp only [accepted, ha, hres]

/-- **A step between build and report** admits what it accepts, and leaves the committed pool and the reports alone. -/
theorem further_step {s s' : TransactionPool.State} {a : TransactionPool.Action} (hg : Further a)
    (h : TransactionPool.step cfg s a = some s') :
    s'.pools.committedTransactions = s.pools.committedTransactions ∧ s'.marks = s.marks ∧
      s'.pools.pendingTransactions = (accepted cfg s a).foldl (addPending cfg.crypto) s.pools.pendingTransactions := by
  cases a with
  | addNewPendingTransaction tx | newTransaction tx =>
    rcases step_request h with rfl | hr
    · exact ⟨rfl, rfl, rfl⟩
    · obtain ⟨-, -, -, rfl⟩ := request_eq_ok hr
      exact ⟨rfl, rfl, rfl⟩
  | validated i f =>
    cases ha : s.admissions[i]? with
    | none =>
      simp only [TransactionPool.step, ha] at h
      cases h
    | some a =>
      by_cases hv : TransactionValidator.validate cfg.crypto cfg.options f a.transaction = .ok true
      · rw [accepted_of_valid ha hv]
        simp only [TransactionPool.step, ha, hv] at h
        cases h
        exact ⟨rfl, rfl, rfl⟩
      · rw [accepted_of_not_valid ha hv]
        rcases step_validated h with ⟨a', ha', rfl | ⟨hv', -⟩⟩
        · exact ⟨rfl, rfl, rfl⟩
        · rw [ha, Option.some.injEq] at ha'
          exact absurd (ha' ▸ hv') hv
  | tick now =>
    simp only [TransactionPool.step] at h
    split_ifs at h
    cases h
    exact ⟨rfl, rfl, rfl⟩
  | markCommittedTransactions m => exact hg.elim
  | clearCommitted j => exact hg.elim
  | cleanupPending => exact hg.elim
  | cleanupCommitted => exact hg.elim

/-- **A run between build and report.** -/
theorem further_run : ∀ {as : List TransactionPool.Action} {s s' : TransactionPool.State},
    (∀ a ∈ as, Further a) → Lts.run (TransactionPool.step cfg) s as = some s' →
    s'.pools.committedTransactions = s.pools.committedTransactions ∧ s'.marks = s.marks ∧
      s'.pools.pendingTransactions = (admitted cfg s as).foldl (addPending cfg.crypto) s.pools.pendingTransactions := by
  intro as
  induction as with
  | nil =>
    intro s s' _ hr
    cases hr
    exact ⟨rfl, rfl, rfl⟩
  | cons a as ih =>
    intro s s' hg hr
    rw [List.forall_mem_cons] at hg
    obtain ⟨t, ht, hr⟩ := Lts.run_cons hr
    obtain ⟨hc, hm, hp⟩ := further_step hg.1 ht
    obtain ⟨hc', hm', hp'⟩ := ih hg.2 hr
    have hadm : admitted cfg s (a :: as) = accepted cfg s a ++ admitted cfg t as := by
      simp only [admitted, ht]
    refine ⟨hc'.trans hc, hm'.trans hm, ?_⟩
    rw [hadm, hp', hp, List.foldl_append]

theorem get_foldl_addPending (crypto : Crypto) (l : List Transaction) (m : JsMap Str Transaction) (txid : Str) :
    (∃ tx ∈ l, calculateTransactionId crypto tx = txid ∧ (l.foldl (addPending crypto) m).get txid = some tx) ∨
      (∀ tx ∈ l, calculateTransactionId crypto tx ≠ txid) ∧ (l.foldl (addPending crypto) m).get txid = m.get txid :=
  JsMap.get_foldl_set (calculateTransactionId crypto) id l m txid

/-! ## The report -/

/-- The pool before a block was built and after it was reported. -/
structure Settled (crypto : Crypto) (config : BlockBuilderConfig) (before : Pools) (block : Block)
    (admitted : List Transaction) (after : Pools) : Prop where
  size : block.body.transactions.length ≤ config.blockSizeLimit
  receipts : block.body.transactionReceipts.map TransactionReceipt.txHash =
    block.body.transactions.map (calculateHash crypto)
  pending : ∀ txid, after.pendingTransactions.has txid = true ↔ txid ∉ ids crypto block ∧
    (before.pendingTransactions.has txid = true ∨ ∃ tx ∈ admitted, calculateTransactionId crypto tx = txid)
  /-- Nothing else is pending. -/
  origin : ∀ txid tx, after.pendingTransactions.get txid = some tx →
    before.pendingTransactions.get txid = some tx ∨ tx ∈ admitted ∧ calculateTransactionId crypto tx = txid
  committed : ∀ (i : ℕ) tx receipt, block.body.transactions[i]? = some tx →
    block.body.transactionReceipts[i]? = some receipt →
    after.getTransactionStatus (calculateTransactionId crypto tx) = (.committed, some receipt)

theorem get_cleared {crypto : Crypto} {block : Block} {m : JsMap Str Transaction}
    (hids : (block.body.transactionReceipts.map fun r => transactionHashToId r.txHash) = ids crypto block)
    {txid : Str} {tx : Transaction} :
    (block.body.transactionReceipts.foldl (fun m r => m.delete (transactionHashToId r.txHash)) m).get txid = some tx ↔
      m.get txid = some tx ∧ txid ∉ ids crypto block := by
  rw [JsMap.get_foldl_delete, ← hids, List.mem_map]
  refine and_congr_right fun _ => ?_
  constructor
  · rintro h ⟨r, hr, he⟩
    exact h r hr he
  · rintro h r hr he
    exact h ⟨r, hr, he⟩

/-- The committed pool after a report has the receipt of each transaction of the block. -/
theorem get_committed {crypto : Crypto} {block : Block} {now : Time} {m : JsMap Str CommittedTransaction}
    (hids : (block.body.transactionReceipts.map fun r => transactionHashToId r.txHash) = ids crypto block)
    (hnd : (ids crypto block).Nodup) {i : ℕ} {tx : Transaction} {receipt : TransactionReceipt}
    (ht : block.body.transactions[i]? = some tx) (hr : block.body.transactionReceipts[i]? = some receipt) :
    ∃ e, (block.body.transactionReceipts.foldl (fun m r =>
      m.set (transactionHashToId r.txHash) { entryTimestamp := now, receipt := r }) m).get
        (calculateTransactionId crypto tx) = some e ∧ e.receipt = receipt := by
  have hkey : transactionHashToId receipt.txHash = calculateTransactionId crypto tx := by
    have h : (block.body.transactionReceipts.map fun r => transactionHashToId r.txHash)[i]? = (ids crypto block)[i]? := by
      rw [hids]
    unfold ids at h
    rw [List.getElem?_map, List.getElem?_map, ht, hr] at h
    exact Option.some.inj h
  rcases JsMap.get_foldl_set (fun r : TransactionReceipt => transactionHashToId r.txHash)
    (fun receipt => { entryTimestamp := now, receipt : CommittedTransaction }) block.body.transactionReceipts m
    (calculateTransactionId crypto tx) with ⟨r, hmem, hk, hg⟩ | ⟨hne, -⟩
  · refine ⟨_, hg, ?_⟩
    rw [← hids] at hnd
    exact List.inj_on_of_nodup_map hnd hmem (List.mem_of_getElem? hr) (hk.trans hkey.symm)
  · exact absurd hkey (hne receipt (List.mem_of_getElem? hr))

theorem settled_of_pools {before after : Pools} {lastBlock : Option Block} {block : Block} {now : Time}
    {l : List Transaction} (hi : Ids cfg.crypto before)
    (hb : buildBlockFromPendingTransactions sha256 config lastBlock (answers code stateStorage config before) =
      .ok (some block))
    (hp : after.pendingTransactions = block.body.transactionReceipts.foldl
      (fun m r => m.delete (transactionHashToId r.txHash)) (l.foldl (addPending cfg.crypto) before.pendingTransactions))
    (hc : after.committedTransactions = block.body.transactionReceipts.foldl (fun m r =>
      m.set (transactionHashToId r.txHash) { entryTimestamp := now, receipt := r }) before.committedTransactions) :
    Settled cfg.crypto config before block l after := by
  have hids := ids_receipts hi hb
  have hget : ∀ txid tx, after.pendingTransactions.get txid = some tx ↔
      (l.foldl (addPending cfg.crypto) before.pendingTransactions).get txid = some tx ∧ txid ∉ ids cfg.crypto block := by
    intro txid tx
    rw [hp]
    exact get_cleared hids
  have hfold := get_foldl_addPending cfg.crypto l before.pendingTransactions
  constructor
  · rw [(build_eq_ok hb).1, List.length_map]
    exact List.length_take_le _ _
  · exact txHash_receipts hi hb
  · intro txid
    constructor
    · intro h
      obtain ⟨tx, htx⟩ := Option.isSome_iff_exists.1 h
      obtain ⟨hl, hn⟩ := (hget txid tx).1 htx
      refine ⟨hn, ?_⟩
      rcases hfold txid with ⟨tx', hmem, hid, -⟩ | ⟨-, hold⟩
      · exact .inr ⟨tx', hmem, hid⟩
      · rw [hold] at hl
        exact .inl (Option.isSome_iff_exists.2 ⟨tx, hl⟩)
    · rintro ⟨hn, h⟩
      have hsome : ∃ tx, (l.foldl (addPending cfg.crypto) before.pendingTransactions).get txid = some tx := by
        rcases hfold txid with ⟨tx, -, -, hg⟩ | ⟨hne, hold⟩
        · exact ⟨tx, hg⟩
        · rcases h with h | ⟨tx, hmem, hid⟩
          · rw [hold]
            exact Option.isSome_iff_exists.1 h
          · exact absurd hid (hne tx hmem)
      obtain ⟨tx, htx⟩ := hsome
      exact Option.isSome_iff_exists.2 ⟨tx, (hget txid tx).2 ⟨htx, hn⟩⟩
  · intro txid tx h
    obtain ⟨hl, -⟩ := (hget txid tx).1 h
    rcases hfold txid with ⟨tx', hmem, hid, hg⟩ | ⟨-, hold⟩
    · rw [hg] at hl
      cases hl
      exact .inr ⟨hmem, hid⟩
    · rw [hold] at hl
      exact .inl hl
  · intro i tx receipt ht hr
    have hmem : calculateTransactionId cfg.crypto tx ∈ ids cfg.crypto block :=
      List.mem_map_of_mem (List.mem_of_getElem? ht)
    have hnone : after.pendingTransactions.has (calculateTransactionId cfg.crypto tx) = false := by
      unfold JsMap.has
      rw [Option.isSome_eq_false_iff, Option.isNone_iff_eq_none, Option.eq_none_iff_forall_ne_some]
      exact fun tx' h => ((hget _ tx').1 h).2 hmem
    obtain ⟨e, he, hrec⟩ := get_committed hids (nodup_ids hi hb) ht hr
    rw [← hc] at he
    simp only [Pools.getTransactionStatus, hnone, he, hrec, Bool.false_eq_true, if_false]

/-- **Committing a block settles exactly its own transactions**: from any state of the service, a block is built from the
pending pool, further transactions are admitted, the block is reported, and some more are admitted between the two
pieces of the report. -/
theorem settled {now : Time} {as0 as1 as2 : List TransactionPool.Action} {s s1 s2 s3 s4 : TransactionPool.State}
    {lastBlock : Option Block} {block : Block} (h0 : Lts.run (TransactionPool.step cfg) (start now) as0 = some s)
    (hb : buildBlockFromPendingTransactions sha256 config lastBlock (answers code stateStorage config s.pools) =
      .ok (some block))
    (hg1 : ∀ a ∈ as1, Further a)
    (h1 : Lts.run (TransactionPool.step cfg) s as1 = some s1)
    (hm : TransactionPool.step cfg s1 (.markCommittedTransactions block.body.transactionReceipts) = some s2)
    (hg2 : ∀ a ∈ as2, Further a)
    (h2 : Lts.run (TransactionPool.step cfg) s2 as2 = some s3)
    (hc : TransactionPool.step cfg s3 (.clearCommitted s.marks.length) = some s4) :
    Settled cfg.crypto config s.pools block (admitted cfg s as1 ++ admitted cfg s2 as2) s4.pools := by
  obtain ⟨hc1, hm1, hp1⟩ := further_run hg1 h1
  obtain ⟨hc2, hm2, hp2⟩ := further_run hg2 h2
  have hmarked : s2.pools = s1.pools.addCommittedTransactions s1.now block.body.transactionReceipts ∧
      s2.marks = s1.marks ++ [block.body.transactionReceipts] := by
    cases hm
    exact ⟨rfl, rfl⟩
  -- the report in flight is the block's
  have hmark : s3.marks[s.marks.length]? = some block.body.transactionReceipts := by
    rw [hm2, hmarked.2, hm1, List.getElem?_concat_length]
  simp only [TransactionPool.step, hmark] at hc
  rw [← Option.some.inj hc]
  refine settled_of_pools (ids_of_run h0) hb ?_ (?_ : _ = block.body.transactionReceipts.foldl (fun m r =>
    m.set (transactionHashToId r.txHash) { entryTimestamp := s1.now, receipt := r }) s.pools.committedTransactions)
  · change block.body.transactionReceipts.foldl (fun m r => m.delete (transactionHashToId r.txHash))
      s3.pools.pendingTransactions = _
    rw [hp2, hmarked.1, List.foldl_append, ← hp1]
    rfl
  · change s3.pools.committedTransactions = _
    rw [hc2, hmarked.1, ← hc1]
    rfl

end

/-- Builds of at most one transaction, not signed. -/
def oneAtATime : BlockBuilderConfig where
  sign := false
  keyManager := none
  nodeName := []
  blockSizeLimit := 1

/-- A transaction is admitted, a block is built with it, another one is admitted, and the block is reported. -/
structure Sample where
  before : TransactionPool.State
  block : Block
  reported : TransactionPool.State
  marked : TransactionPool.State
  after : TransactionPool.State

def addSample : List TransactionPool.Action :=
  [.addNewPendingTransaction sampleTransaction, .validated 0 fun _ => .ok true]

def addAnother : List TransactionPool.Action :=
  [.newTransaction { sampleTransaction with payload := "another".toList }, .validated 0 fun _ => .ok true]

def sampleAnswers (p : Pools) : Answers := answers VirtualMachine.appender (fun _ => none) oneAtATime p

def sample : Option Sample :=
  (Lts.run (TransactionPool.step (sampleConfig 30000)) (start sampleTime) addSample).bind fun s =>
  match buildBlockFromPendingTransactions Sha256.hash oneAtATime none (sampleAnswers s.pools) with
  | .ok (some block) =>
    (Lts.run (TransactionPool.step (sampleConfig 30000)) s addAnother).bind fun s1 =>
    (TransactionPool.step (sampleConfig 30000) s1 (.markCommittedTransactions block.body.transactionReceipts)).bind
      fun s2 => (TransactionPool.step (sampleConfig 30000) s2 (.clearCommitted s.marks.length)).map fun s4 =>
        { before := s, block, reported := s1, marked := s2, after := s4 }
  | _ => none

theorem sample_eq_some {r : Sample} (h : sample = some r) :
    Lts.run (TransactionPool.step (sampleConfig 30000)) (start sampleTime) addSample = some r.before ∧
      buildBlockFromPendingTransactions Sha256.hash oneAtATime none (sampleAnswers r.before.pools) =
        .ok (some r.block) ∧
      Lts.run (TransactionPool.step (sampleConfig 30000)) r.before addAnother = some r.reported ∧
      TransactionPool.step (sampleConfig 30000) r.reported
        (.markCommittedTransactions r.block.body.transactionReceipts) = some r.marked ∧
      TransactionPool.step (sampleConfig 30000) r.marked (.clearCommitted r.before.marks.length) = some r.after := by
  unfold sample at h
  obtain ⟨s, hs, h⟩ := Option.bind_eq_some_iff.1 h
  split at h
  · rename_i block hb
    obtain ⟨s1, h1, h⟩ := Option.bind_eq_some_iff.1 h
    obtain ⟨s2, h2, h⟩ := Option.bind_eq_some_iff.1 h
    obtain ⟨s4, h4, rfl⟩ := Option.map_eq_some_iff.1 h
    exact ⟨hs, hb, h1, h2, h4⟩
  · cases h

theorem run_sample : (sample.map fun r => (r.block.body.transactions, r.after.pools.pendingTransactions.size)) =
    some ([sampleTransaction], 1) := by
  decide +kernel

theorem settled_sample : ∃ r, sample = some r ∧ r.block.body.transactions = [sampleTransaction] ∧
    Settled sampleCrypto oneAtATime r.before.pools r.block
      (admitted (sampleConfig 30000) r.before addAnother ++ admitted (sampleConfig 30000) r.marked []) r.after.pools := by
  obtain ⟨r, hr, hf⟩ := Option.map_eq_some_iff.1 run_sample
  obtain ⟨hs, hb, h1, h2, h4⟩ := sample_eq_some hr
  refine ⟨r, hr, (Prod.mk.inj hf).1, ?_⟩
  exact settled hs hb (by simp [addAnother, Further]) h1 h2 (by simp) rfl h4

end BlockCommit
end Orbs
