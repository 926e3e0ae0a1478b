import OrbsNetwork.LeaderNode
import OrbsNetwork.Lib.JsMapOrder
/-!
# LeaderQueue — no pending transaction starves

The pool is a queue: a build takes the transactions that have been pending longest, and new ones go behind.  A block that
was built here removes, when it is added, either a given transaction or as many that are ahead of it as a block may
have.  All but one of the blocks that are added while it waits were built while it waited (`served_in_turn`).
-/
namespace Orbs

open Js

/-! ## The pool -/

namespace TransactionPool

def State.pending (s : State) : JsMap Str Transaction := s.pools.pendingTransactions

variable {cfg : Config} {s s' : State} {txid : Str}

/-- **Nothing overtakes a pending transaction.** -/
theorem ahead_client {a : Action} (ha : a.isClient = true) (h : step cfg s a = some s') (hs : txid ∈ s.pending.keys)
    (hs' : txid ∈ s'.pending.keys) : (s'.pending.ahead txid).Sublist (s.pending.ahead txid) := by
  cases a with
  | addNewPendingTransaction tx | newTransaction tx =>
    rcases step_request h with rfl | hr
    · exact List.Sublist.refl _
    · obtain ⟨-, -, -, rfl⟩ := request_eq_ok hr
      exact List.Sublist.refl _
  | validated i f =>
    obtain ⟨a, -, rfl | ⟨-, rfl⟩⟩ := step_validated h
    · exact List.Sublist.refl _
    · change ((s.pending.set _ _).ahead txid).Sublist _
      rw [JsMap.ahead_set hs]
  | markCommittedTransactions m => cases ha
  | clearCommitted j => cases ha
  | cleanupPending =>
    cases h
    exact JsMap.ahead_sublist (JsMap.keys_filter_sublist _ _) hs'
  | cleanupCommitted =>
    cases h
    exact List.Sublist.refl _
  | tick now =>
    rw [step] at h
    split_ifs at h
    cases h
    exact List.Sublist.refl _

/-- **A client's step removes a pending transaction only when it has expired.** -/
theorem expired_of_client {a : Action} (hi : BlockCommit.Ids cfg.crypto s.pools) (ha : a.isClient = true)
    (h : step cfg s a = some s') (hs : txid ∈ s.pending.keys) (hs' : txid ∉ s'.pending.keys) :
    ∃ tx, TransactionHelper.calculateTransactionId cfg.crypto tx = txid ∧
      BaseTransactionPool.isTransactionExpired cfg.pendingLifespan s'.now tx = true := by
  cases a with
  | addNewPendingTransaction tx | newTransaction tx =>
    rcases step_request h with rfl | hr
    · exact absurd hs hs'
    · obtain ⟨-, -, -, rfl⟩ := request_eq_ok hr
      exact absurd hs hs'
  | validated i f =>
    obtain ⟨a, -, rfl | ⟨-, rfl⟩⟩ := step_validated h
    · exact absurd hs hs'
    · refine absurd ?_ hs'
      change txid ∈ (s.pending.set _ _).keys
      rw [JsMap.keys_set]
      split_ifs
      · exact hs
      · exact List.mem_append_left _ hs
  | markCommittedTransactions m => cases ha
  | clearCommitted j => cases ha
  | cleanupPending =>
    cases h
    obtain ⟨tx, hp⟩ := JsMap.get_of_mem_keys hs
    refine ⟨tx, hi txid tx hp, ?_⟩
    by_contra hx
    refine hs' (JsMap.has_iff.1 (Option.isSome_iff_exists.2 ⟨tx, ?_⟩))
    exact JsMap.get_filter_of_pos hp (by simpa using hx)
  | cleanupCommitted =>
    cases h
    exact absurd hs hs'
  | tick now =>
    rw [step] at h
    split_ifs at h
    cases h
    exact absurd hs hs'

theorem pending_mark {m : List TransactionReceipt} (h : step cfg s (.markCommittedTransactions m) = some s') :
    s'.pending = s.pending := by
  cases h
  rfl

theorem keys_clear {j : ℕ} {m : List TransactionReceipt} (hm : s.marks[j]? = some m)
    (h : step cfg s (.clearCommitted j) = some s') :
    s'.pending.keys = s.pending.keys.filter fun txid => txid ∉ m.map fun r => transactionHashToId r.txHash := by
  obtain ⟨m', hm', rfl⟩ := step_clear h
  rw [hm] at hm'
  cases hm'
  exact (JsMap.keys_foldl_delete (fun r : TransactionReceipt => transactionHashToId r.txHash) m s.pending).trans
    (List.filter_congr fun k _ => decide_eq_decide.2 Iff.rfl)

theorem ahead_clear {j : ℕ} {m : List TransactionReceipt} (hm : s.marks[j]? = some m)
    (h : step cfg s (.clearCommitted j) = some s') (hx : txid ∉ m.map fun r => transactionHashToId r.txHash) :
    s'.pending.ahead txid =
      (s.pending.ahead txid).filter fun k => k ∉ m.map fun r => transactionHashToId r.txHash := by
  obtain ⟨m', hm', rfl⟩ := step_clear h
  rw [hm] at hm'
  cases hm'
  exact (JsMap.ahead_foldl_delete (fun r : TransactionReceipt => transactionHashToId r.txHash) hx).trans
    (List.filter_congr fun k _ => decide_eq_decide.2 Iff.rfl)

end TransactionPool

/-! ## The node -/

namespace LeaderNode
open BlockStorage HashChain TransactionPool
open BlockBuilder (Source)
open BlockCommit (ids answers)

section
variable {crypto : Crypto} {cfg : NodeConfig crypto}

/-- The places that `n` blocks have. -/
def places {crypto : Crypto} (cfg : NodeConfig crypto) (n : ℕ) : ℕ := n * cfg.builder.blockSizeLimit

theorem places_succ (n : ℕ) : places cfg (n + 1) = places cfg n + cfg.builder.blockSizeLimit := Nat.succ_mul _ _

/-- A block that is added takes `txid` out of the pool, or leaves at most `bound` places before it. -/
def Serves {crypto : Crypto} (cfg : NodeConfig crypto) (txid : Str) (bound : ℕ) (s : State crypto.sha256) (block : Block) : Prop :=
  txid ∈ ids crypto block ∨
    ((s.pool.pending.ahead txid).filter fun k => k ∉ ids crypto block).length + places cfg (s.served + 1) ≤ bound

/-- `txid` waits: with `bound` places it is reached, whichever of the blocks built on the last one is added next. -/
structure Queued {crypto : Crypto} (cfg : NodeConfig crypto) (txid : Str) (bound : ℕ) (c : BlockChain crypto.sha256)
    (s : State crypto.sha256) : Prop where
  waits : txid ∈ s.pool.pending.keys
  ahead : (s.pool.pending.ahead txid).length + places cfg s.served ≤ bound
  next : ∀ block ∈ s.builder.handed, block.header.height = c.tip.header.height + 1 → Serves cfg txid bound s block
  adding : ∀ a, s.adding = some a → a.own = true → Serves cfg txid bound s a.block
  cleared : ∀ a, s.adding = some a → a.own = true → a.stage = .cleared →
    (s.pool.pending.ahead txid).length + places cfg (s.served + 1) ≤ bound

/-- It has left the pool: it is in the block that is being added, or it has expired. -/
def Left {crypto : Crypto} (cfg : NodeConfig crypto) (txid : Str) (s : State crypto.sha256) : Prop :=
  (∃ a, s.adding = some a ∧ txid ∈ ids crypto a.block) ∨
    ∃ tx, TransactionHelper.calculateTransactionId crypto tx = txid ∧
      BaseTransactionPool.isTransactionExpired cfg.pool.pendingLifespan s.pool.now tx = true

variable {c₀ c : BlockChain crypto.sha256} {s s' : State crypto.sha256} {txid : Str} {bound : ℕ}

theorem Serves.of_ahead {block : Block} (h : Serves cfg txid bound s block)
    (hs : (s'.pool.pending.ahead txid).Sublist (s.pool.pending.ahead txid)) (hn : s'.served = s.served) :
    Serves cfg txid bound s' block := by
  refine h.imp_right fun h => ?_
  rw [hn]
  exact (Nat.add_le_add_right (hs.filter _).length_le _).trans h

theorem queued_pool {a : TransactionPool.Action} (hi : Inv cfg c₀ c s) (hq : Queued cfg txid bound c s)
    (h : step cfg s (.pool a) = some s') :
    Queued cfg txid bound c s' ∨ txid ∉ s'.pool.pending.keys ∧ Left cfg txid s' := by
  obtain ⟨ha, pool, hp, rfl⟩ := step_pool h
  by_cases hw : txid ∈ pool.pending.keys
  · have hs := ahead_client ha hp hq.waits hw
    left
    exact {
      waits := hw
      ahead := (Nat.add_le_add_right hs.length_le _).trans hq.ahead
      next := fun block hb hh => (hq.next block hb hh).of_ahead hs rfl
      adding := fun a ha ho => (hq.adding a ha ho).of_ahead hs rfl
      cleared := fun a ha ho hc => (Nat.add_le_add_right hs.length_le _).trans (hq.cleared a ha ho hc) }
  · exact .inr ⟨hw, .inr (expired_of_client hi.pool.ids ha hp hq.waits hw)⟩

theorem queued_builder {a : BlockBuilder.Action crypto.sha256} (hq : Queued cfg txid bound c s)
    (h : step cfg s (.builder a) = some s') : Queued cfg txid bound c s' := by
  obtain ⟨ha, builder, hb, rfl⟩ := step_builder h
  obtain ⟨-, hh, -⟩ := BlockBuilder.step_control ha hb
  exact {
    waits := hq.waits
    ahead := hq.ahead
    next := fun block hm => hq.next block (hh ▸ hm)
    adding := hq.adding
    cleared := hq.cleared }

/-- **A build takes `txid` or fills its block with what is ahead of it.** -/
theorem serves_of_build {block : Block} (hq : Queued cfg txid bound c s)
    (hids : ids crypto block = s.pool.pending.keys.take cfg.builder.blockSizeLimit) :
    Serves cfg txid bound s block := by
  rcases JsMap.take_ahead hq.waits cfg.builder.blockSizeLimit with ht | ⟨ht, hle⟩
  · exact .inl (hids ▸ ht)
  right
  rw [hids, ht]
  have hlen : ((s.pool.pending.ahead txid).filter fun k =>
      k ∉ (s.pool.pending.ahead txid).take cfg.builder.blockSizeLimit).length ≤
        (s.pool.pending.ahead txid).length - cfg.builder.blockSizeLimit :=
    JsMap.length_filter_le_sub fun k hk => decide_eq_false (not_not_intro hk)
  have := hq.ahead
  rw [places_succ]
  omega

theorem queued_build {i : ℕ} {code : ContractCode} {stateStorage : KeyValues} (hi : Inv cfg c₀ c s)
    (hq : Queued cfg txid bound c s) (h : step cfg s (.build i code stateStorage) = some s') :
    Queued cfg txid bound c s' := by
  obtain ⟨builder, hb, rfl⟩ := step_build h
  obtain ⟨-, -, -, -, tips, lastBlock, -, hh⟩ := BlockBuilder.step_build hb
  refine {
    waits := hq.waits
    ahead := hq.ahead
    next := fun block hm hheight => ?_
    adding := hq.adding
    cleared := hq.cleared }
  rcases hh with hsame | ⟨built, hbuild, hmem⟩
  · exact hq.next block (hsame ▸ hm) hheight
  rcases hmem block hm with hold | rfl
  · exact hq.next block hold hheight
  · exact (serves_of_build hq (ids_of_build hi.pool.ids hbuild)).of_ahead (List.Sublist.refl _) rfl

theorem queued_addBlock {source : Source} (hi : Inv cfg c₀ c s) (hq : Queued cfg txid bound c s)
    (h : step cfg s (.addBlock source) = some s') : Queued cfg txid bound c s' := by
  obtain ⟨hn, block, c', hb, hc, ⟨⟨d, hd⟩, rfl⟩ | ⟨hd, builder, hs, rfl⟩⟩ := step_addBlock h
  · rw [hi.chain] at hc
    cases hc
    refine {
      waits := hq.waits
      ahead := hq.ahead
      next := hq.next
      adding := fun a ha ho => ?_
      cleared := fun a ha _ hst => ?_ }
    · cases ha
      exact hq.next block (of_decide_eq_true ho) (BlockBuilder.tip_of_append hd).2
    · cases ha
      cases hst
  · obtain ⟨-, hh⟩ := BlockBuilder.step_answer hb hc hs
    exact {
      waits := hq.waits
      ahead := hq.ahead
      next := fun b hm => hq.next b (hh ▸ hm)
      adding := hq.adding
      cleared := hq.cleared }

theorem queued_mark (hq : Queued cfg txid bound c s) (h : step cfg s .mark = some s') : Queued cfg txid bound c s' := by
  obtain ⟨source, block, own, pool, ha, hp, rfl⟩ := step_mark h
  have hpend := pending_mark hp
  refine {
    waits := hpend ▸ hq.waits
    ahead := hpend ▸ hq.ahead
    next := fun b hm hh => (hq.next b hm hh).of_ahead (by rw [hpend]) rfl
    adding := fun a hadd ho => ?_
    cleared := fun a hadd _ hst => ?_ }
  · cases hadd
    exact (hq.adding _ ha ho).of_ahead (by rw [hpend]) rfl
  · cases hadd
    cases hst

/-- **The report of a block** takes out of the pool what the block has. -/
theorem cleared_of_adding (txid : Str) {source : Source} {block : Block} {own : Bool} {pool : TransactionPool.State}
    (hi : Inv cfg c₀ c s) (ha : s.adding = some { source, block, own, stage := .marked })
    (hp : TransactionPool.step cfg.pool s.pool (.clearCommitted 0) = some pool) :
    pool.pending.keys = s.pool.pending.keys.filter (fun k => k ∉ ids crypto block) ∧
      (txid ∉ ids crypto block →
        pool.pending.ahead txid = (s.pool.pending.ahead txid).filter fun k => k ∉ ids crypto block) := by
  have hadd := hi.adding _ ha
  have hm : s.pool.marks[0]? = some block.body.transactionReceipts := by
    rw [hi.marks, inFlight, ha]
    rfl
  rw [← hadd.fit.made.receipts]
  exact ⟨keys_clear hm hp, ahead_clear hm hp⟩

/-- A report takes `txid` out of the pool, or what the block has of those ahead of it. -/
theorem queued_clear (hi : Inv cfg c₀ c s) (hq : Queued cfg txid bound c s) (h : step cfg s .clear = some s') :
    Queued cfg txid bound c s' ∨ txid ∉ s'.pool.pending.keys ∧ Left cfg txid s' := by
  obtain ⟨source, block, own, pool, ha, hp, rfl⟩ := step_clear h
  obtain ⟨hkeys, hahead⟩ := cleared_of_adding txid hi ha hp
  by_cases hw : txid ∈ ids crypto block
  · right
    refine ⟨?_, .inl ⟨_, rfl, hw⟩⟩
    change txid ∉ pool.pending.keys
    rw [hkeys, List.mem_filter]
    exact fun h => of_decide_eq_true h.2 hw
  left
  have hs : (pool.pending.ahead txid).Sublist (s.pool.pending.ahead txid) := by
    rw [hahead hw]
    exact List.filter_sublist
  refine {
    waits := ?_
    ahead := (Nat.add_le_add_right hs.length_le _).trans hq.ahead
    next := fun b hm hh => (hq.next b hm hh).of_ahead hs rfl
    adding := fun a hadd ho => ?_
    cleared := fun a hadd ho _ => ?_ }
  · change txid ∈ pool.pending.keys
    rw [hkeys, List.mem_filter]
    exact ⟨hq.waits, decide_eq_true hw⟩
  · cases hadd
    exact (hq.adding _ ha ho).of_ahead hs rfl
  · cases hadd
    rcases hq.adding _ ha ho with ht | hle
    · exact absurd ht hw
    · change (pool.pending.ahead txid).length + _ ≤ bound
      rw [hahead hw]
      exact hle

/-- **A block that lands** has taken its places. -/
theorem queued_land (hi : Inv cfg c₀ c s) (hq : Queued cfg txid bound c s) (h : step cfg s .land = some s') :
    ∃ d, s'.builder.chain = some d ∧ Queued cfg txid bound d s' := by
  obtain ⟨source, block, own, builder, ha, hs, rfl⟩ := step_land h
  have hadd := hi.adding _ ha
  obtain ⟨d, hd⟩ := hadd.follows
  obtain ⟨hchain, hh⟩ := BlockBuilder.step_answer hadd.asked hi.chain hs
  rw [hd] at hchain
  have htip := BlockBuilder.tip_of_append hd
  refine ⟨d, hchain, {
    waits := hq.waits
    ahead := ?_
    next := fun b hm hheight => ?_
    adding := fun a ha => by cases ha
    cleared := fun a ha => by cases ha }⟩
  · cases own with
    | false => exact hq.ahead
    | true => exact hq.cleared _ ha rfl rfl
  · have := hi.grounded.handed (hh ▸ hm)
    rw [htip.1, htip.2] at hheight
    omega

theorem queued_step {a : Action crypto.sha256} (hi : Inv cfg c₀ c s) (hq : Queued cfg txid bound c s)
    (hg : Orderly cfg c₀ s a) (h : step cfg s a = some s') :
    (∃ d, Inv cfg c₀ d s' ∧ Queued cfg txid bound d s') ∨ txid ∉ s'.pool.pending.keys ∧ Left cfg txid s' := by
  cases a with
  | pool a => exact (queued_pool hi hq h).imp_left fun hq => ⟨c, inv_pool hi hg h, hq⟩
  | builder a => exact .inl ⟨c, inv_builder hi h, queued_builder hq h⟩
  | build i code stateStorage => exact .inl ⟨c, inv_build hi h, queued_build hi hq h⟩
  | addBlock source => exact .inl ⟨c, inv_addBlock hi hg h, queued_addBlock hi hq h⟩
  | mark => exact .inl ⟨c, inv_mark hi h, queued_mark hq h⟩
  | clear => exact (queued_clear hi hq h).imp_left fun hq => ⟨c, inv_clear hi h, hq⟩
  | land =>
    obtain ⟨-, d, -, -, -, hd⟩ := inv_land hi h
    obtain ⟨d', hc, hq⟩ := queued_land hi hq h
    rw [hd.chain] at hc
    cases hc
    exact .inl ⟨d, hd, hq⟩

/-- **A run keeps `txid` in the queue until it leaves.** -/
theorem queued_run : ∀ {as : List (Action crypto.sha256)} {s s' : State crypto.sha256}
    {c : BlockChain crypto.sha256}, Inv cfg c₀ c s → Queued cfg txid bound c s →
    Lts.Meets (step cfg) (Orderly cfg c₀) s as → Lts.run (step cfg) s as = some s' →
    (∃ d, Queued cfg txid bound d s') ∨ ∃ bs t, bs <+: as ∧ Lts.run (step cfg) s bs = some t ∧
      txid ∉ t.pool.pending.keys ∧ Left cfg txid t := by
  intro as
  induction as with
  | nil =>
    intro s s' c hi hq _ hr
    cases hr
    exact .inl ⟨c, hq⟩
  | cons a as ih =>
    intro s s' c hi hq hg hr
    obtain ⟨t, ht, hr⟩ := Lts.run_cons hr
    rcases queued_step hi hq hg.1 ht with ⟨d, hd, hqd⟩ | hleft
    · rcases ih hd hqd (hg.2 t ht) hr with hend | ⟨bs, u, hbs, hu, hleft⟩
      · exact .inl hend
      · refine .inr ⟨a :: bs, u, (List.prefix_cons_inj a).2 hbs, ?_, hleft⟩
        rw [Lts.run, ht]
        exact hu
    · refine .inr ⟨[a], t, ⟨as, rfl⟩, ?_, hleft⟩
      rw [Lts.run, ht]
      rfl

end

end LeaderNode
end Orbs
