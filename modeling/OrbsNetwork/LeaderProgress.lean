import OrbsNetwork.LeaderQueue
/-!
# LeaderProgress — a leader that is not stale empties its pool

A builder that works on the storage's last block can, by steps of the node alone, build, commit and report one block after
another until nothing is pending.  The blocks have what was pending, in the order in which it came (`drains`).
-/
namespace Orbs

open Js

namespace BlockBuilder
open BlockStorage HashChain

variable {sha256 : Bytes → Bytes} {config : BlockBuilderConfig} {storage : BlockStorageConfig}

/-- The storage accepts what the builder signs. -/
def Trusted (sha256 : Bytes → Bytes) (config : BlockBuilderConfig) (storage : BlockStorageConfig) : Prop :=
  ∀ block, ∃ signed, signIfConfigured sha256 config block = .ok signed ∧ verifySigned sha256 storage signed = .ok ()

/-- **A trusted builder that has something to build, builds what follows the storage's last block.** -/
theorem build_of_entries (ht : Trusted sha256 config storage) (c : BlockChain sha256) (answers : Answers)
    {entries : List TransactionEntry} {r : List TransactionReceipt × List ModifiedStateKey}
    (he : answers.getAllPendingTransactions = .ok entries) (hne : entries.take config.blockSizeLimit ≠ [])
    (hr : answers.processTransactionSet = .ok r) :
    ∃ block d, buildBlockFromPendingTransactions sha256 config (some c.tip) answers = .ok (some block) ∧
      append storage c block = some d := by
  obtain ⟨signed, hs, hv⟩ := ht (buildNextBlock sha256
    { transactions := (entries.take config.blockSizeLimit).map TransactionEntry.transaction
      transactionReceipts := r.1, stateDiff := r.2 } (some c.tip))
  have hhead := signIfConfigured_eq_ok hs
  refine ⟨signed, _, ?_, append_of_ok (verifyNewBlock_eq_ok.2 ⟨hv, ?_, ?_⟩)⟩
  · unfold buildBlockFromPendingTransactions
    rw [he]
    change (if (entries.take config.blockSizeLimit).length = 0 then _ else _) = _
    rw [if_neg fun h => hne (List.length_eq_zero_iff.1 h), hr]
    change (signIfConfigured sha256 config _ >>= fun block => pure (some block)) = _
    rw [hs]
    rfl
  · rw [hhead]
    rfl
  · have hn := next_buildNextBlock sha256
      { transactions := (entries.take config.blockSizeLimit).map TransactionEntry.transaction
        transactionReceipts := r.1, stateDiff := r.2 } c.tip
    simp only [HashChain.View.Next, blockView] at hn ⊢
    rw [hhead]
    exact hn

/-- A call of `appendNextBlock` has begun. -/
def State.calling (s : State sha256) (b : Build) : State sha256 := { s with polling := false, builds := s.builds ++ [b] }

variable {s : State sha256} {c : BlockChain sha256}

theorem builds_calling (s : State sha256) (b : Build) : (s.calling b).builds[s.builds.length]? = some b :=
  List.getElem?_concat_length

theorem setBuild_calling (s : State sha256) (b b' : Build) : (s.calling b).setBuild s.builds.length b' = s.calling b' := by
  unfold State.setBuild State.calling
  rw [List.set_append_right _ _ le_rfl, Nat.sub_self, List.set_cons_zero]

theorem call_of_none (hc : s.chain = some c) (hl : s.lastBlock = none) :
    step config storage s .appendNextBlock = some (s.calling { tips := [c.tip], phase := .fetching }) := by
  simp only [step, hc, hl, State.calling, Option.map_some, Option.toList_some]

theorem call_of_some {block : Block} (hc : s.chain = some c) (hl : s.lastBlock = some block) :
    step config storage s .appendNextBlock =
      some (s.calling { tips := [c.tip], phase := .building (some block) }) := by
  simp only [step, hc, hl, State.calling, Option.map_some, Option.toList_some]

theorem getLastBlock_calling {tips : List Block} (hc : s.chain = some c) :
    step config storage (s.calling { tips, phase := .fetching }) (.getLastBlock s.builds.length) =
      some (s.calling { tips, phase := .fetched (some c.tip) }) := by
  have hchain : (s.calling { tips, phase := .fetching }).chain = some c := hc
  simp only [step, builds_calling, setBuild_calling, hchain, Option.map_some]

theorem fetched_calling {tips : List Block} {block : Option Block} :
    step config storage (s.calling { tips, phase := .fetched block }) (.fetched s.builds.length) =
      some (State.calling { s with lastBlock := block } { tips, phase := .building block }) := by
  simp only [step, builds_calling, Option.some.injEq]
  exact setBuild_calling { s with lastBlock := block } _ _

end BlockBuilder

namespace LeaderNode
open BlockStorage HashChain TransactionPool
open BlockBuilder (Source Trusted)
open BlockCommit (ids answers)

section
variable {crypto : Crypto} (cfg : NodeConfig crypto) (code : ContractCode) (state : BlockChain crypto.sha256 → KeyValues)

/-- What the node does by itself: the virtual machine runs `code` on the state of the node's chain, and the storage is
asked for blocks that were built here and follow its last one. -/
def Own (s : State crypto.sha256) : Action crypto.sha256 → Prop
  | .pool _ => False
  | .build _ code' stateStorage => code' = code ∧ ∀ c, s.builder.chain = some c → stateStorage = state c
  | .addBlock source => ∃ j block, source = .commit j ∧ source.block? s.builder = some block ∧
    block ∈ s.builder.handed ∧ ∀ c, s.builder.chain = some c → append cfg.storage c block ≠ none
  | _ => True

/-- The virtual machine can process any of the pending transactions in one block, if only all of them fail as expected. -/
def Processable (p : Pools) : Prop :=
  ∀ c entries, entries.Sublist p.getAllPendingTransactions →
    ∃ r, VirtualMachine.processTransactionSet code (state c) entries = .ok r

variable {cfg code state} {c₀ c d : BlockChain crypto.sha256} {s t u : State crypto.sha256}

theorem orderly_of_own {a : Action crypto.sha256} (h : Own cfg code state s a) : Orderly cfg c₀ s a := by
  cases a with
  | pool a => exact h.elim
  | addBlock source =>
    obtain ⟨j, block, rfl, hb, hm, hd⟩ := h
    refine ⟨fun _ b c hb' hc hn => absurd hn ?_, fun b c hb' _ _ => .inl ?_⟩
    · rw [hb] at hb'
      cases hb'
      exact hd c hc
    · rw [hb] at hb'
      cases hb'
      exact hm
  | _ => trivial

theorem inv_reaches (hi : Inv cfg c₀ c s) (h : Lts.Reaches (step cfg) (Own cfg code state) s t)
    (ht : t.builder.chain = some d) : Inv cfg c₀ d t := by
  have hinv : ∃ d, Inv cfg c₀ d t :=
    h.inv (I := fun s => ∃ c, Inv cfg c₀ c s) (fun _ _ _ hi hg h => hi.elim fun _ hi => inv_step hi (orderly_of_own hg) h)
      ⟨c, hi⟩
  obtain ⟨d', hd⟩ := hinv
  rw [hd.chain] at ht
  cases ht
  exact hd

theorem reaches_builder {a : BlockBuilder.Action crypto.sha256} {builder : BlockBuilder.State crypto.sha256}
    (ha : a.isControl = true) (h : BlockBuilder.step cfg.builder cfg.storage s.builder a = some builder) :
    Lts.Reaches (step cfg) (Own cfg code state) s { s with builder } := by
  refine Lts.reaches_of_step (a := .builder a) trivial ?_
  rw [step, if_pos ha, h]
  rfl

/-! ## One block -/

/-- A call of `appendNextBlock` that is about to build on the storage's last block. -/
structure Building (c : BlockChain crypto.sha256) (i : ℕ) (s t : State crypto.sha256) : Prop where
  pool : t.pool = s.pool
  idle : t.adding = none
  chain : t.builder.chain = some c
  cached : t.builder.lastBlock = some c.tip
  building : ∃ tips, t.builder.builds[i]? = some { tips, phase := .building (some c.tip) }

/-- **A builder that is not stale gets to build on the last block.** -/
theorem reaches_building (hn : s.adding = none) (hc : s.builder.chain = some c)
    (hl : s.builder.lastBlock = none ∨ s.builder.lastBlock = some c.tip) :
    ∃ i t, Lts.Reaches (step cfg) (Own cfg code state) s t ∧ Building c i s t := by
  refine ⟨s.builder.builds.length, ?_⟩
  rcases hl with hl | hl
  · refine ⟨_, (reaches_builder rfl (BlockBuilder.call_of_none hc hl)).trans
      ((reaches_builder rfl (BlockBuilder.getLastBlock_calling hc)).trans
        (reaches_builder rfl BlockBuilder.fetched_calling)), ?_⟩
    exact { pool := rfl, idle := hn, chain := hc, cached := rfl, building := ⟨_, BlockBuilder.builds_calling _ _⟩ }
  · refine ⟨_, reaches_builder rfl (BlockBuilder.call_of_some hc hl), ?_⟩
    exact { pool := rfl, idle := hn, chain := hc, cached := hl, building := ⟨_, BlockBuilder.builds_calling _ _⟩ }

/-- A block that was built here, whose commit the storage is about to run. -/
structure Committing (cfg : NodeConfig crypto) (c d : BlockChain crypto.sha256) (block : Block) (j : ℕ)
    (s t : State crypto.sha256) : Prop where
  pool : t.pool = s.pool
  idle : t.adding = none
  chain : t.builder.chain = some c
  follows : append cfg.storage c block = some d
  handed : block ∈ t.builder.handed
  sent : t.builder.commits[j]? = some { block, phase := .sent }

theorem mem_handed_set {b : BlockBuilder.State crypto.sha256} {i : ℕ} {tips : List Block} {block : Block}
    (hi : i < b.builds.length) : block ∈ (b.setBuild i { tips, phase := .handed block }).handed :=
  List.mem_filterMap.2 ⟨_, List.mem_iff_getElem?.2 ⟨i, List.getElem?_set_self hi⟩, rfl⟩

/-- **What is pending gets built and committed.** -/
theorem reaches_committing (ht : Trusted crypto.sha256 cfg.builder cfg.storage) {i : ℕ} (hb : Building c i s t)
    (hp : Processable code state t.pool.pools)
    (hne : t.pool.pending.keys.take cfg.builder.blockSizeLimit ≠ []) :
    ∃ block d j u, Lts.Reaches (step cfg) (Own cfg code state) t u ∧ Committing cfg c d block j t u ∧
      BlockBuilder.buildBlockFromPendingTransactions crypto.sha256 cfg.builder (some c.tip)
        (answers code (state c) cfg.builder t.pool.pools) = .ok (some block) := by
  have hentries : t.pool.pools.getAllPendingTransactions.take cfg.builder.blockSizeLimit ≠ [] := by
    intro h
    refine hne ?_
    unfold Pools.getAllPendingTransactions at h
    rw [← List.map_take, List.map_eq_nil_iff] at h
    unfold State.pending JsMap.keys
    rw [← List.map_take, h]
    rfl
  obtain ⟨r, hr⟩ := hp c _ (List.take_sublist cfg.builder.blockSizeLimit _)
  obtain ⟨block, d, hbuild, hd⟩ := BlockBuilder.build_of_entries ht c
    (answers code (state c) cfg.builder t.pool.pools) rfl hentries
    (r := (r.1, r.2.map BlockCommit.modifiedStateKey)) (by simp only [answers, hr])
  obtain ⟨tips, hi⟩ := hb.building
  have hstep : step cfg t (.build i code (state c)) = some { t with
      builder := t.builder.setBuild i { tips, phase := .handed block } } := by
    simp only [step, BlockBuilder.step, hi, hbuild, Option.map_some]
  have hown : Own cfg code state t (.build i code (state c)) := by
    refine ⟨rfl, fun c' hc' => ?_⟩
    rw [hb.chain] at hc'
    cases hc'
    rfl
  refine ⟨block, d, t.builder.commits.length, _, (Lts.reaches_of_step hown hstep).trans
    (reaches_builder (a := .commitBlock block) rfl rfl), ?_, hbuild⟩
  exact {
    pool := rfl
    idle := hb.idle
    chain := hb.chain
    follows := hd
    handed := mem_handed_set (List.getElem?_eq_some_iff.1 hi).1
    sent := List.getElem?_concat_length }

/-- The storage has the block, the pool has been told, and the builder knows. -/
structure Committed (d : BlockChain crypto.sha256) (block : Block) (s t : State crypto.sha256) : Prop where
  idle : t.adding = none
  chain : t.builder.chain = some d
  cached : t.builder.lastBlock = some block
  pools : t.pool.pools.pendingTransactions = (s.pool.pools.clearCommittedTransactionsFromPendingPool
    block.body.transactionReceipts).pendingTransactions

/-- **A block that was verified is reported, and lands.** -/
theorem reaches_landed {block : Block} {j : ℕ} {own : Bool} {pool pool' : TransactionPool.State}
    {builder : BlockBuilder.State crypto.sha256}
    (hm : TransactionPool.step cfg.pool t.pool (.markCommittedTransactions block.body.transactionReceipts) = some pool)
    (hc : TransactionPool.step cfg.pool pool (.clearCommitted 0) = some pool')
    (hb : BlockBuilder.step cfg.builder cfg.storage t.builder (.addBlock j) = some builder) :
    Lts.Reaches (step cfg) (Own cfg code state)
      { t with adding := some { source := .commit j, block, own, stage := .verified } }
      { t with
        pool := pool', builder, adding := none
        served := if own then t.served + 1 else t.served } := by
  have hmark : step cfg { t with adding := some { source := .commit j, block, own, stage := .verified } } .mark =
      some { t with pool, adding := some { source := .commit j, block, own, stage := .marked } } := by
    simp only [step, hm, Option.map_some]
  have hclear : step cfg { t with pool, adding := some { source := .commit j, block, own, stage := .marked } } .clear =
      some { t with pool := pool', adding := some { source := .commit j, block, own, stage := .cleared } } := by
    simp only [step, hc, Option.map_some]
  have hland : step cfg { t with pool := pool', adding := some { source := .commit j, block, own, stage := .cleared } }
      .land = some { t with
        pool := pool', builder, adding := none
        served := if own then t.served + 1 else t.served } := by
    simp only [step, Source.answer, hb, Option.map_some]
  exact (Lts.reaches_of_step trivial hmark).trans ((Lts.reaches_of_step trivial hclear).trans
    (Lts.reaches_of_step (a := .land) trivial hland))

/-- **A commit goes through.** -/
theorem reaches_committed {block : Block} {j : ℕ} (hi : Inv cfg c₀ c t) (hc : Committing cfg c d block j s t) :
    ∃ u, Lts.Reaches (step cfg) (Own cfg code state) t u ∧ Committed d block t u := by
  have hb : (Source.commit j).block? t.builder = some block := by
    simp only [Source.block?, hc.sent]
  have hown : Own cfg code state t (.addBlock (.commit j)) := by
    refine ⟨j, block, rfl, hb, hc.handed, fun c' hc' => ?_⟩
    rw [hc.chain] at hc'
    cases hc'
    rw [hc.follows]
    exact Option.some_ne_none d
  have hadd : step cfg t (.addBlock (.commit j)) = some { t with
      adding := some { source := .commit j, block, own := block ∈ t.builder.handed, stage := .verified } } := by
    simp only [step, hc.idle, hb, hc.chain, hc.follows]
  -- the report
  obtain ⟨pool, hmark⟩ : ∃ pool, TransactionPool.step cfg.pool t.pool
      (.markCommittedTransactions block.body.transactionReceipts) = some pool := ⟨_, rfl⟩
  have hmarks : pool.marks = [block.body.transactionReceipts] := by
    cases hmark
    change t.pool.marks ++ _ = _
    rw [hi.marks, inFlight, hc.idle]
    rfl
  have hclear : TransactionPool.step cfg.pool pool (.clearCommitted 0) = some { pool with
      pools := pool.pools.clearCommittedTransactionsFromPendingPool block.body.transactionReceipts
      marks := [] } := by
    simp only [TransactionPool.step, hmarks, List.getElem?_cons_zero, List.eraseIdx_cons_zero]
  -- the storage's answer, and the builder that gets it
  have hanswer : BlockBuilder.step cfg.builder cfg.storage t.builder (.addBlock j) =
      some ((t.builder.setChain d).setCommit j { block, phase := .answered true }) := by
    simp only [BlockBuilder.step, hc.sent, hc.chain, Option.bind_some, hc.follows]
  have hj : ((t.builder.setChain d).setCommit j { block, phase := .answered true }).commits[j]? =
      some { block, phase := .answered true } :=
    List.getElem?_set_self (List.getElem?_eq_some_iff.1 hc.sent).1
  have hcommitted : BlockBuilder.step cfg.builder cfg.storage
      ((t.builder.setChain d).setCommit j { block, phase := .answered true }) (.committed j) =
      some (BlockBuilder.State.setCommit
        { (t.builder.setChain d).setCommit j { block, phase := .answered true } with lastBlock := some block } j
        { block, phase := .done }) := by
    simp only [BlockBuilder.step, hj, if_true]
  refine ⟨_, (Lts.reaches_of_step hown hadd).trans ((reaches_landed hmark hclear hanswer).trans
    (reaches_builder rfl hcommitted)), rfl, rfl, rfl, ?_⟩
  have hpend := pending_mark hmark
  change pool.pools.pendingTransactions = t.pool.pools.pendingTransactions at hpend
  change (pool.pools.clearCommittedTransactionsFromPendingPool _).pendingTransactions = _
  unfold Pools.clearCommittedTransactionsFromPendingPool
  rw [hpend]

/-! ## One block after another -/

/-- The builder is not stale, nothing is being added, and the virtual machine can process what is pending. -/
structure Ready (cfg : NodeConfig crypto) (code : ContractCode) (state : BlockChain crypto.sha256 → KeyValues)
    (c₀ c : BlockChain crypto.sha256) (s : State crypto.sha256) : Prop where
  inv : Inv cfg c₀ c s
  idle : s.adding = none
  fresh : s.builder.lastBlock = none ∨ s.builder.lastBlock = some c.tip
  processable : Processable code state s.pool.pools

theorem Processable.of_sublist {p p' : Pools} (h : Processable code state p)
    (hs : p'.pendingTransactions.entries.Sublist p.pendingTransactions.entries) : Processable code state p' :=
  fun c entries he => h c entries (he.trans (hs.map _))

/-- **One more block** takes what has been pending longest. -/
theorem ready_next (ht : Trusted crypto.sha256 cfg.builder cfg.storage) (hlimit : 0 < cfg.builder.blockSizeLimit)
    (hs : Ready cfg code state c₀ c s) (hne : s.pool.pending.keys ≠ []) :
    ∃ block d t, Lts.Reaches (step cfg) (Own cfg code state) s t ∧ Ready cfg code state c₀ d t ∧
      append cfg.storage c block = some d ∧
      ids crypto block = s.pool.pending.keys.take cfg.builder.blockSizeLimit ∧
      t.pool.pending.keys = s.pool.pending.keys.drop cfg.builder.blockSizeLimit := by
  obtain ⟨i, t, hst, hb⟩ : ∃ i t, Lts.Reaches (step cfg) (Own cfg code state) s t ∧ Building c i s t :=
    reaches_building hs.idle hs.inv.chain hs.fresh
  have htake : t.pool.pending.keys.take cfg.builder.blockSizeLimit ≠ [] := by
    rw [hb.pool]
    intro h
    rcases List.take_eq_nil_iff.1 h with h | h
    · omega
    · exact hne h
  obtain ⟨block, d, j, u, htu, hc, hbuild⟩ := reaches_committing ht hb (hb.pool ▸ hs.processable) htake
  have hu := inv_reaches hs.inv (hst.trans htu) hc.chain
  obtain ⟨v, huv, hv⟩ : ∃ v, Lts.Reaches (step cfg) (Own cfg code state) u v ∧ Committed d block u v :=
    reaches_committed hu hc
  have hsv := (hst.trans htu).trans huv
  have hpool : u.pool = s.pool := hc.pool.trans hb.pool
  have hids : ids crypto block = s.pool.pending.keys.take cfg.builder.blockSizeLimit := by
    rw [hb.pool] at hbuild
    exact ids_of_build hs.inv.pool.ids hbuild
  have hpools := hv.pools
  rw [hpool] at hpools
  refine ⟨block, d, v, hsv, ?_, hc.follows, hids, ?_⟩
  · exact {
      inv := inv_reaches hs.inv hsv hv.chain
      idle := hv.idle
      fresh := .inr (by rw [hv.cached, (BlockBuilder.tip_of_append hc.follows).1])
      processable := hs.processable.of_sublist (hpools ▸ JsMap.entries_foldl_delete_sublist _ _ _) }
  · have hreceipts := (hu.handed block hc.handed).made.receipts
    have hkeys := JsMap.keys_foldl_delete (fun r : TransactionReceipt => transactionHashToId r.txHash)
      block.body.transactionReceipts s.pool.pools.pendingTransactions
    rw [hreceipts, hids] at hkeys
    rw [State.pending, hpools]
    exact hkeys.trans (JsMap.filter_take_eq_drop s.pool.pools.pendingTransactions.keys_nodup _)

theorem added_trans {e : BlockChain crypto.sha256} {block : Block} {storage : BlockStorageConfig}
    (h : append storage c block = some d) (he : d.rest <+: e.rest) : added c e = block :: added d e := by
  obtain ⟨l, hl⟩ := he
  unfold added
  rw [← hl, BlockBuilder.rest_of_append h, List.drop_left, List.append_assoc, List.drop_left]
  rfl

/-- What a node can do by itself with what is pending: put it all on its chain, in its order. -/
structure Drained (cfg : NodeConfig crypto) (code : ContractCode) (state : BlockChain crypto.sha256 → KeyValues)
    (c : BlockChain crypto.sha256) (s u : State crypto.sha256) : Prop where
  reaches : Lts.Reaches (step cfg) (Own cfg code state) s u
  empty : u.pool.pending.keys = []
  added : ∃ d, u.builder.chain = some d ∧ c.rest <+: d.rest ∧
    (added c d).flatMap (ids crypto) = s.pool.pending.keys

theorem drained_of_ready (ht : Trusted crypto.sha256 cfg.builder cfg.storage) (hlimit : 0 < cfg.builder.blockSizeLimit)
    (n : ℕ) : ∀ {s : State crypto.sha256} {c : BlockChain crypto.sha256}, s.pool.pending.keys.length ≤ n →
      Ready cfg code state c₀ c s → ∃ u, Drained cfg code state c s u := by
  induction n with
  | zero =>
    intro s c hn hs
    have hnil := List.length_eq_zero_iff.1 (Nat.le_zero.1 hn)
    refine ⟨s, .refl s, hnil, c, hs.inv.chain, List.prefix_rfl, ?_⟩
    rw [added_self, hnil]
    rfl
  | succ n ih =>
    intro s c hn hs
    by_cases hnil : s.pool.pending.keys = []
    · refine ⟨s, .refl s, hnil, c, hs.inv.chain, List.prefix_rfl, ?_⟩
      rw [added_self, hnil]
      rfl
    obtain ⟨block, d, t, hst, htr, hd, hids, hkeys⟩ := ready_next ht hlimit hs hnil
    have hpos := List.length_pos_iff.2 hnil
    obtain ⟨u, hu⟩ := ih (by rw [hkeys, List.length_drop]; omega) htr
    obtain ⟨e, he, hde, hadded⟩ := hu.added
    have hce : c.rest <+: e.rest := by
      refine List.IsPrefix.trans ?_ hde
      rw [BlockBuilder.rest_of_append hd]
      exact List.prefix_append _ _
    refine ⟨u, hst.trans hu.reaches, hu.empty, e, he, hce, ?_⟩
    rw [added_trans hd hde, List.flatMap_cons, hids, hadded, hkeys, List.take_append_drop]

end

def emptyState : BlockChain sampleCrypto.sha256 → KeyValues := fun _ _ => none

/-- Nothing has been built or added yet, and the virtual machine can process any of the transactions that are pending. -/
def waits (s : State sampleCrypto.sha256) : Bool :=
  s.adding.isNone && s.builder.lastBlock.isNone && s.pool.pools.getAllPendingTransactions.sublists.all fun entries =>
    (VirtualMachine.processTransactionSet VirtualMachine.appender (fun _ => none) entries).toBool

theorem processable_of_waits {s : State sampleCrypto.sha256} (h : waits s = true) :
    Processable VirtualMachine.appender emptyState s.pool.pools := by
  rw [waits, Bool.and_eq_true, List.all_eq_true] at h
  intro c entries hs
  have hok := h.2 entries (List.mem_sublists.2 hs)
  cases hr : VirtualMachine.processTransactionSet VirtualMachine.appender (fun _ => none) entries with
  | ok r => exact ⟨r, hr⟩
  | error e =>
    rw [hr] at hok
    cases hok

def submitBoth : List (Action sampleCrypto.sha256) := submit sampleTransaction ++ submit anotherTransaction

theorem run_submitBoth : ((runOrderly (start sampleTime Chain.nil) submitBoth).map fun s =>
    (waits s, s.pool.pools.getAllPendingTransactions.length)) = some (true, 2) := by
  decide +kernel

end LeaderNode
end Orbs
