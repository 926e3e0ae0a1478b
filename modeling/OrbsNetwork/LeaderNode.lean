import OrbsNetwork.BlockCommit
/-!
# LeaderNode — a transaction pool, a block builder and a block storage

The node of a leader: clients and gossip fill the pool, the builder takes blocks from it onto the last block that it knows
of, the consensus commits them, and the storage, before a block becomes its last one, reports it to the pool.  The
storage also adds blocks of other nodes.  All of this overlaps, except that the storage adds one block at a time.

A build learns the last block first and reads the pool then, so nothing that it takes is in that block or in one below.
A block that lands meanwhile makes the built one too low, and the storage refuses it.  So no transaction gets into two
blocks (`exactly_once`).
-/
namespace Orbs

open Js

/-! ## The pool: what was reported is not pending for long -/

namespace TransactionPool
open TransactionHelper (calculateTransactionId)

/-- What runs in the pool besides a report. -/
def Action.isClient : Action → Bool
  | .markCommittedTransactions _ | .clearCommitted _ => false
  | _ => true

/-- No request carries a transaction that its report does not outlive, and no validator takes so long that it accepts a
transaction whose report has come and gone. -/
def Prompt (cfg : Config) (s : State) : Action → Prop
  | .validated i isSubscriptionValid => ∀ a, s.admissions[i]? = some a →
    TransactionValidator.validate cfg.crypto cfg.options isSubscriptionValid a.transaction = .ok true →
    s.reported.has (calculateTransactionId cfg.crypto a.transaction) = true →
    ∃ m ∈ s.marks, Reports m (calculateTransactionId cfg.crypto a.transaction)
  | a => OutlivedByReport cfg s a

variable {cfg : Config} {s s' : State}

theorem outlivedByReport_of_prompt {a : Action} (h : Prompt cfg s a) : OutlivedByReport cfg s a := by
  cases a with
  | validated i f => trivial
  | _ => exact h

theorem step_client {a : Action} (ha : a.isClient = true) (h : step cfg s a = some s') :
    s'.marks = s.marks ∧ s'.reported = s.reported := by
  cases a with
  | addNewPendingTransaction tx | newTransaction tx =>
    rcases step_request h with rfl | hr
    · exact ⟨rfl, rfl⟩
    · obtain ⟨-, -, -, rfl⟩ := request_eq_ok hr
      exact ⟨rfl, rfl⟩
  | validated i f =>
    obtain ⟨a, -, rfl | ⟨-, rfl⟩⟩ := step_validated h
    · exact ⟨rfl, rfl⟩
    · exact ⟨rfl, rfl⟩
  | markCommittedTransactions m => cases ha
  | clearCommitted j => cases ha
  | cleanupPending =>
    cases h
    exact ⟨rfl, rfl⟩
  | cleanupCommitted =>
    cases h
    exact ⟨rfl, rfl⟩
  | tick now =>
    rw [step] at h
    split_ifs at h
    cases h
    exact ⟨rfl, rfl⟩

theorem has_reported_mark {m : List TransactionReceipt} (h : step cfg s (.markCommittedTransactions m) = some s')
    (txid : Str) : s'.reported.has txid = true ↔ Reports m txid ∨ s.reported.has txid = true := by
  cases h
  rcases JsMap.get_foldl_set (fun r : TransactionReceipt => transactionHashToId r.txHash) (fun _ => s.now) m s.reported
    txid with ⟨r, hm, ht, hg⟩ | ⟨hne, hg⟩
  · exact iff_of_true (by simp [JsMap.has, hg]) (.inl ⟨r, hm, ht⟩)
  · have hr : ¬ Reports m txid := by
      rintro ⟨r, hm, ht⟩
      exact hne r hm ht
    simp only [JsMap.has, hg, hr, false_or]

theorem step_clear {j : ℕ} (h : step cfg s (.clearCommitted j) = some s') : ∃ m, s.marks[j]? = some m ∧
    s' = { s with
      pools := s.pools.clearCommittedTransactionsFromPendingPool m
      marks := s.marks.eraseIdx j } := by
  rw [step] at h
  split at h
  · cases h
  · rename_i m hm
    cases h
    exact ⟨m, hm, rfl⟩

/-- Every pending transaction stands under its id; one that was reported has a report in flight, which is about to delete
it. -/
structure Reported (cfg : Config) (s : State) : Prop where
  remembered : Remembered cfg s
  ids : BlockCommit.Ids cfg.crypto s.pools
  covered : ∀ txid tx, s.pools.pendingTransactions.get txid = some tx → s.reported.has txid = true →
    ∃ m ∈ s.marks, Reports m txid

theorem reported_start (now : Time) : Reported cfg (start now) where
  remembered := remembered_start now
  ids := fun txid tx h => by cases h
  covered := fun txid tx h => by cases h

/-- A step keeps a report in flight over every pending transaction that was reported. -/
theorem covered_reported {a : Action} (hi : Reported cfg s) (hg : Prompt cfg s a) (h : step cfg s a = some s')
    {txid : Str} {tx : Transaction} (hp : s'.pools.pendingTransactions.get txid = some tx)
    (hr : s'.reported.has txid = true) : ∃ m ∈ s'.marks, Reports m txid := by
  cases a with
  | addNewPendingTransaction tx | newTransaction tx =>
    rcases step_request h with rfl | hreq
    · exact hi.covered txid _ hp hr
    · obtain ⟨-, -, -, rfl⟩ := request_eq_ok hreq
      exact hi.covered txid _ hp hr
  | validated i f =>
    obtain ⟨a, ha, rfl | ⟨hv, rfl⟩⟩ := step_validated h
    · exact hi.covered txid tx hp hr
    · rw [store, Pools.setPending, JsMap.get_set] at hp
      split_ifs at hp with ht
      · subst ht
        exact hg a ha hv hr
      · exact hi.covered txid tx hp hr
  | markCommittedTransactions m =>
    have hmark := (has_reported_mark h txid).1 hr
    cases h
    rcases hmark with hm | hold
    · exact ⟨m, List.mem_append_right _ List.mem_cons_self, hm⟩
    · obtain ⟨m', hm', hrep⟩ := hi.covered txid tx hp hold
      exact ⟨m', List.mem_append_left _ hm', hrep⟩
  | clearCommitted j =>
    obtain ⟨m, hm, rfl⟩ := step_clear h
    obtain ⟨hp, hne⟩ := (JsMap.get_foldl_delete _).1 hp
    obtain ⟨m', hm', hrep⟩ := hi.covered txid tx hp hr
    refine ⟨m', ?_, hrep⟩
    obtain ⟨i, hi'⟩ := List.mem_iff_getElem?.1 hm'
    refine List.mem_eraseIdx_iff_getElem?.2 ⟨i, ?_, hi'⟩
    rintro rfl
    rw [hm] at hi'
    cases hi'
    obtain ⟨r, hr, he⟩ := hrep
    exact hne r hr he
  | cleanupPending =>
    cases h
    exact hi.covered txid tx (JsMap.get_of_get_filter hp) hr
  | cleanupCommitted =>
    cases h
    exact hi.covered txid tx hp hr
  | tick now =>
    rw [step] at h
    split_ifs at h
    cases h
    exact hi.covered txid tx hp hr

theorem reported_step {a : Action} (hi : Reported cfg s) (hg : Prompt cfg s a) (h : step cfg s a = some s') :
    Reported cfg s' where
  remembered := remembered_step hi.remembered (outlivedByReport_of_prompt hg) h
  ids := BlockCommit.ids_step hi.ids h
  covered := fun _ _ hp hr => covered_reported hi hg h hp hr

end TransactionPool

/-! ## The builder: no block is built above what the storage takes -/

namespace BlockBuilder
open BlockStorage HashChain

variable {sha256 : Bytes → Bytes} {config : BlockBuilderConfig} {storage : BlockStorageConfig} {s s' : State sha256}

def Phase.block? : Phase → Option Block
  | .handed block => some block
  | _ => none

/-- The blocks that `newBlockBuildCallback` has been given. -/
def State.handed (s : State sha256) : List Block := s.builds.filterMap fun b => b.phase.block?

theorem handed_setChain (s : State sha256) (c : BlockChain sha256) : (s.setChain c).handed = s.handed := by
  unfold State.handed State.setChain
  rw [List.filterMap_map]
  refine List.filterMap_congr fun b _ => ?_
  rw [Function.comp, Build.observe_phase]

theorem mem_handed_setBuild {i : ℕ} {b : Build} {block : Block} (h : block ∈ (s.setBuild i b).handed) :
    b.phase.block? = some block ∨ block ∈ s.handed := by
  obtain ⟨b', hb', hp⟩ := List.mem_filterMap.1 h
  rcases List.mem_or_eq_of_mem_set hb' with hold | rfl
  · exact .inr (List.mem_filterMap.2 ⟨b', hold, hp⟩)
  · exact .inl hp

/-- A call that goes on without handing a block on. -/
theorem handed_setBuild {i : ℕ} {b b' : Build} (hi : s.builds[i]? = some b) (hb : b'.phase.block? = b.phase.block?) :
    (s.setBuild i b').handed = s.handed := by
  have hmap : (s.builds.set i b').map (fun b => b.phase.block?) = s.builds.map fun b => b.phase.block? := by
    rw [List.map_set, hb]
    obtain ⟨hlt, rfl⟩ := List.getElem?_eq_some_iff.1 hi
    refine List.ext_getElem (List.length_set) fun j hj hj' => ?_
    rw [List.getElem_set]
    split_ifs with hij
    · subst hij
      rw [List.getElem_map]
    · rfl
  have hid (l : List Build) : l.filterMap (fun b => b.phase.block?) = (l.map fun b => b.phase.block?).filterMap id := by
    rw [List.filterMap_map, Function.id_comp]
  unfold State.handed State.setBuild
  rw [hid, hmap, ← hid]

theorem handed_begin {b : Build} (hb : b.phase.block? = none) (polling : Bool) :
    State.handed { s with polling, builds := s.builds ++ [b] } = s.handed := by
  unfold State.handed
  have hnil : [b].filterMap (fun b => b.phase.block?) = [] := List.filterMap_cons_none hb
  rw [List.filterMap_append, hnil, List.append_nil]

/-- The steps that neither build nor add a block. -/
def Action.isControl : Action sha256 → Bool
  | .load _ | .appendBlocks _ | .build _ _ | .addBlock _ => false
  | _ => true

/-- **A control step** keeps the chain, what was handed on, and the commits that the storage has not yet run. -/
theorem step_control {a : Action sha256} (ha : a.isControl = true) (h : step config storage s a = some s') :
    s'.chain = s.chain ∧ s'.handed = s.handed ∧
      ∀ (j : ℕ) block, s.commits[j]? = some { block, phase := .sent } →
        s'.commits[j]? = some { block, phase := .sent } := by
  cases a with
  | load c => cases ha
  | appendBlocks block => cases ha
  | build i answers => cases ha
  | addBlock j => cases ha
  | setSyncing isSyncing =>
    cases h
    exact ⟨rfl, rfl, fun _ _ hj => hj⟩
  | start =>
    cases h
    exact ⟨rfl, rfl, fun _ _ hj => hj⟩
  | stop =>
    cases h
    exact ⟨rfl, rfl, fun _ _ hj => hj⟩
  | appendNextBlock =>
    cases h
    refine ⟨rfl, handed_begin ?_ true, fun _ _ hj => hj⟩
    dsimp only
    split <;> rfl
  | getLastBlock i =>
    rw [step] at h
    split at h <;> cases h
    rename_i hi
    exact ⟨rfl, handed_setBuild hi rfl, fun _ _ hj => hj⟩
  | fetched i =>
    rw [step] at h
    split at h <;> cases h
    rename_i hi
    exact ⟨rfl, handed_setBuild hi rfl, fun _ _ hj => hj⟩
  | commitBlock block =>
    cases h
    refine ⟨rfl, rfl, fun j b hj => ?_⟩
    exact List.getElem?_append_left (List.getElem?_eq_some_iff.1 hj).1 ▸ hj
  | committed i =>
    rw [step] at h
    split at h <;> cases h
    rename_i hi
    refine ⟨rfl, rfl, fun j b hj => ?_⟩
    have hne : i ≠ j := by
      rintro rfl
      rw [hi] at hj
      cases hj
    exact (List.getElem?_set_ne hne).trans hj

/-- **A build** changes nothing else, and hands on at most one block, built on the last block that it works with. -/
theorem step_build {i : ℕ} {answers : Answers} (h : step config storage s (.build i answers) = some s') :
    s'.chain = s.chain ∧ s'.commits = s.commits ∧ s'.lastBlock = s.lastBlock ∧ s'.isSyncing = s.isSyncing ∧
      ∃ tips lastBlock, s.builds[i]? = some { tips, phase := .building lastBlock } ∧
        (s'.handed = s.handed ∨ ∃ built,
          buildBlockFromPendingTransactions sha256 config lastBlock answers = .ok (some built) ∧
          ∀ block ∈ s'.handed, block ∈ s.handed ∨ block = built) := by
  rw [step] at h
  split at h
  case h_2 => cases h
  rename_i tips lastBlock hi
  split at h
  · rename_i built hbuild
    cases h
    refine ⟨rfl, rfl, rfl, rfl, tips, lastBlock, hi, .inr ⟨built, hbuild, fun block hb => ?_⟩⟩
    rcases mem_handed_setBuild hb with hb | hb
    · cases hb
      exact .inr rfl
    · exact .inl hb
  · cases h
    exact ⟨rfl, rfl, rfl, rfl, tips, lastBlock, hi, .inl (handed_setBuild hi rfl)⟩
  · cases h
    exact ⟨rfl, rfl, rfl, rfl, tips, lastBlock, hi, .inl (handed_setBuild hi rfl)⟩

/-! ### Heights -/

/-- A call works with a block that is at most `height` high. -/
def Phase.Below (height : ℕ) : Phase → Prop
  | .fetched block | .building block => ∃ b, block = some b ∧ b.header.height ≤ height
  | .handed block => block.header.height ≤ height + 1
  | _ => True

theorem Phase.Below.mono {height height' : ℕ} {phase : Phase} (h : phase.Below height) (hle : height ≤ height') :
    phase.Below height' := by
  cases phase with
  | fetched block | building block =>
    obtain ⟨b, hb, hh⟩ := h
    exact ⟨b, hb, hh.trans hle⟩
  | handed block =>
    change block.header.height ≤ height + 1 at h
    change block.header.height ≤ height' + 1
    omega
  | fetching | ended => trivial

/-- The builder knows of no block above the storage's last one. -/
structure Grounded (height : ℕ) (s : State sha256) : Prop where
  lastBlock : ∀ block, s.lastBlock = some block → block.header.height ≤ height
  builds : ∀ b ∈ s.builds, b.phase.Below height
  commits : ∀ c ∈ s.commits, c.phase = .answered true → c.block.header.height ≤ height

namespace Grounded
variable {height : ℕ}

theorem mono {height' : ℕ} (hi : Grounded height s) (hle : height ≤ height') : Grounded height' s where
  lastBlock := fun block h => (hi.lastBlock block h).trans hle
  builds := fun b hb => (hi.builds b hb).mono hle
  commits := fun c hc h => (hi.commits c hc h).trans hle

theorem setChain (hi : Grounded height s) (c : BlockChain sha256) : Grounded height (s.setChain c) where
  lastBlock := hi.lastBlock
  builds := fun b hb => by
    obtain ⟨b', hb', rfl⟩ := List.mem_map.1 hb
    rw [Build.observe_phase]
    exact hi.builds b' hb'
  commits := hi.commits

theorem setBuild (hi : Grounded height s) {i : ℕ} {b : Build} (hb : b.phase.Below height) :
    Grounded height (s.setBuild i b) where
  lastBlock := hi.lastBlock
  builds := fun b' hb' => by
    rcases List.mem_or_eq_of_mem_set hb' with hold | rfl
    · exact hi.builds b' hold
    · exact hb
  commits := hi.commits

theorem setCommit (hi : Grounded height s) {j : ℕ} {c : Commit}
    (hc : c.phase = .answered true → c.block.header.height ≤ height) : Grounded height (s.setCommit j c) where
  lastBlock := hi.lastBlock
  builds := hi.builds
  commits := fun c' hc' h => by
    rcases List.mem_or_eq_of_mem_set hc' with hold | rfl
    · exact hi.commits c' hold h
    · exact hc h

theorem handed (hi : Grounded height s) {block : Block} (hb : block ∈ s.handed) : block.header.height ≤ height + 1 := by
  obtain ⟨b, hb, hp⟩ := List.mem_filterMap.1 hb
  have h := hi.builds b hb
  cases hphase : b.phase with
  | handed block' =>
    rw [hphase] at h hp
    cases hp
    exact h
  | _ => rw [hphase] at hp; cases hp

end Grounded

variable {c : BlockChain sha256}

theorem grounded_control {a : Action sha256} (hi : Grounded c.tip.header.height s) (hc : s.chain = some c)
    (ha : a.isControl = true) (h : step config storage s a = some s') : Grounded c.tip.header.height s' := by
  cases a with
  | load c => cases ha
  | appendBlocks block => cases ha
  | build i answers => cases ha
  | addBlock j => cases ha
  | setSyncing isSyncing =>
    cases h
    exact ⟨hi.lastBlock, hi.builds, hi.commits⟩
  | start =>
    cases h
    exact ⟨hi.lastBlock, hi.builds, hi.commits⟩
  | stop =>
    cases h
    exact ⟨hi.lastBlock, hi.builds, hi.commits⟩
  | appendNextBlock =>
    cases h
    refine ⟨hi.lastBlock, fun b hb => ?_, hi.commits⟩
    rcases List.mem_append.1 hb with hold | hnew
    · exact hi.builds b hold
    · rw [List.mem_singleton.1 hnew]
      cases hl : s.lastBlock with
      | none => trivial
      | some block => exact ⟨block, rfl, hi.lastBlock block hl⟩
  | getLastBlock i =>
    rw [step] at h
    split at h <;> cases h
    exact hi.setBuild ⟨c.tip, by rw [hc]; rfl, le_rfl⟩
  | fetched i =>
    rw [step] at h
    split at h <;> cases h
    rename_i tips block hb
    obtain ⟨b, rfl, hh⟩ := hi.builds _ (List.mem_of_getElem? hb)
    refine Grounded.setBuild (s := { s with lastBlock := some b }) ⟨fun block hl => ?_, hi.builds, hi.commits⟩ ⟨b, rfl, hh⟩
    cases hl
    exact hh
  | commitBlock block =>
    cases h
    refine ⟨hi.lastBlock, hi.builds, fun c' hc' hp => ?_⟩
    rcases List.mem_append.1 hc' with hold | hnew
    · exact hi.commits c' hold hp
    · rw [List.mem_singleton.1 hnew] at hp
      cases hp
  | committed j =>
    rw [step] at h
    split at h <;> cases h
    rename_i block resolved hj
    have hres : resolved = true → block.header.height ≤ c.tip.header.height := by
      rintro rfl
      exact hi.commits _ (List.mem_of_getElem? hj) rfl
    refine Grounded.setCommit (s := { s with lastBlock := if resolved then some block else s.lastBlock })
      ⟨fun b hl => ?_, hi.builds, hi.commits⟩ (fun hp => by cases hp)
    cases resolved with
    | true =>
      cases hl
      exact hres rfl
    | false => exact hi.lastBlock b hl

theorem grounded_build {height i : ℕ} {answers : Answers} (hi : Grounded height s)
    (h : step config storage s (.build i answers) = some s') : Grounded height s' := by
  rw [step] at h
  split at h
  case h_2 => cases h
  rename_i tips lastBlock hb
  obtain ⟨last, rfl, hh⟩ := hi.builds _ (List.mem_of_getElem? hb)
  split at h
  · rename_i built hbuild
    cases h
    refine hi.setBuild ?_
    change built.header.height ≤ height + 1
    have hn : built.header.height = last.header.height + 1 := (next_of_build hbuild).1
    omega
  · cases h
    exact Grounded.setBuild (s := { s with polling := true }) ⟨hi.lastBlock, hi.builds, hi.commits⟩ trivial
  · cases h
    exact Grounded.setBuild (s := { s with polling := true }) ⟨hi.lastBlock, hi.builds, hi.commits⟩ trivial

/-! ### The storage's answer -/

/-- What the storage is asked to add: the block of a commit, or one that came from a peer. -/
inductive Source where
  | commit (j : ℕ)
  | sync (block : Block)

def Source.block? (s : State sha256) : Source → Option Block
  | .commit j => match s.commits[j]? with
    | some { block, phase := .sent } => some block
    | _ => none
  | .sync block => some block

/-- The step in which the storage is done with it. -/
def Source.answer : Source → Action sha256
  | .commit j => .addBlock j
  | .sync block => .appendBlocks block

theorem commit_of_block? {j : ℕ} {block : Block} (h : (Source.commit j).block? s = some block) :
    s.commits[j]? = some { block, phase := .sent } := by
  unfold Source.block? at h
  dsimp only at h
  split at h
  · rename_i hj
    cases h
    exact hj
  · cases h

theorem block?_congr {source : Source} {block : Block} (h : source.block? s = some block)
    (hs : ∀ (j : ℕ) block, s.commits[j]? = some { block, phase := .sent } →
      s'.commits[j]? = some { block, phase := .sent }) : source.block? s' = some block := by
  cases source with
  | commit j =>
    have hj := hs j block (commit_of_block? h)
    simp only [Source.block?, hj]
  | sync b => exact h

/-- **The storage answers** with the chain that has the block, or with the one it had. -/
theorem step_answer {source : Source} {block : Block} (hb : source.block? s = some block) (hc : s.chain = some c)
    (h : step config storage s source.answer = some s') :
    s'.chain = some ((append storage c block).getD c) ∧ s'.handed = s.handed := by
  cases source with
  | commit j =>
    simp only [Source.answer, step, commit_of_block? hb, hc, Option.bind_some] at h
    cases ha : append storage c block with
    | none =>
      rw [ha] at h
      cases h
      exact ⟨hc, rfl⟩
    | some d =>
      rw [ha] at h
      cases h
      exact ⟨rfl, handed_setChain s d⟩
  | sync b =>
    cases hb
    simp only [Source.answer, step, hc, Option.map_some] at h
    cases ha : append storage c block with
    | none =>
      rw [ha] at h
      cases h
      exact ⟨hc, rfl⟩
    | some d =>
      rw [ha] at h
      cases h
      exact ⟨rfl, handed_setChain s d⟩

/-- No commit is of a block above the last one that the storage cannot take and, as it syncs, does not refuse. -/
def Source.Told (storage : BlockStorageConfig) (s : State sha256) : Source → Prop
  | .commit j => s.isSyncing = true → ∀ block c, (Source.commit j).block? s = some block → s.chain = some c →
    append storage c block = none → block.header.height ≤ c.tip.header.height
  | .sync _ => True

theorem tip_of_append {d : BlockChain sha256} {block : Block} (h : append storage c block = some d) :
    d.tip = block ∧ block.header.height = c.tip.header.height + 1 := by
  obtain ⟨hn, rfl⟩ := append_eq_some h
  exact ⟨c.tip_push block hn, hn.1⟩

theorem rest_of_append {d : BlockChain sha256} {block : Block} (h : append storage c block = some d) :
    d.rest = c.rest ++ [block] := by
  obtain ⟨hn, rfl⟩ := append_eq_some h
  rfl

theorem grounded_answer {source : Source} {block : Block} (hi : Grounded c.tip.header.height s)
    (hg : source.Told storage s) (hb : source.block? s = some block) (hc : s.chain = some c)
    (h : step config storage s source.answer = some s') :
    Grounded ((append storage c block).getD c).tip.header.height s' := by
  cases source with
  | commit j =>
    simp only [Source.answer, step, commit_of_block? hb, hc, Option.bind_some] at h
    cases ha : append storage c block with
    | none =>
      rw [ha] at h
      cases h
      exact hi.setCommit fun hp => hg (CommitPhase.answered.inj hp) block c hb hc ha
    | some d =>
      rw [ha] at h
      cases h
      obtain ⟨htip, hh⟩ := tip_of_append ha
      change Grounded d.tip.header.height _
      rw [htip]
      exact Grounded.setCommit ((hi.mono (by omega)).setChain d) fun _ => le_rfl
  | sync b =>
    cases hb
    simp only [Source.answer, step, hc, Option.map_some] at h
    cases ha : append storage c block with
    | none =>
      rw [ha] at h
      cases h
      exact hi
    | some d =>
      rw [ha] at h
      cases h
      obtain ⟨htip, hh⟩ := tip_of_append ha
      change Grounded d.tip.header.height _
      rw [htip]
      exact (hi.mono (by omega)).setChain d

end BlockBuilder

/-! ## The node -/

namespace LeaderNode
open BlockStorage HashChain TransactionPool
open BlockBuilder (Source Grounded)
open BlockCommit (ids answers)

/-- How a node is built, but for the cryptography, which all nodes have in common. -/
structure NodeConfig (crypto : Crypto) where
  options : TransactionValidatorOptions
  pendingLifespan : Option Number
  committedLifespan : Option Number
  builder : BlockBuilder.BlockBuilderConfig
  storage : BlockStorageConfig

abbrev NodeConfig.pool {crypto : Crypto} (cfg : NodeConfig crypto) : TransactionPool.Config where
  crypto
  options := cfg.options
  pendingLifespan := cfg.pendingLifespan
  committedLifespan := cfg.committedLifespan

/-- How far `addBlock` has come: the block is verified and written; the pool has begun its report; the report is done. -/
inductive Stage where
  | verified
  | marked
  | cleared

structure Adding where
  source : Source
  block : Block
  /-- A ghost: the block was built here. -/
  own : Bool
  stage : Stage

structure State (sha256 : Bytes → Bytes) where
  pool : TransactionPool.State
  builder : BlockBuilder.State sha256
  /-- The `addBlock` that is under way. -/
  adding : Option Adding
  /-- A ghost: how many blocks of its own builder the storage has added. -/
  served : ℕ

inductive Action (sha256 : Bytes → Bytes) where
  | pool (a : TransactionPool.Action)
  | builder (a : BlockBuilder.Action sha256)
  /-- A build gets the pending transactions, which the virtual machine then processes. -/
  | build (i : ℕ) (code : ContractCode) (stateStorage : KeyValues)
  | addBlock (source : Source)
  | mark
  | clear
  /-- The last block is replaced. -/
  | land

def Action.isAddBlock {sha256 : Bytes → Bytes} : Action sha256 → Bool
  | .addBlock _ => true
  | _ => false

/-- The node has just loaded its chain. -/
def start {sha256 : Bytes → Bytes} (now : Time) (c : BlockChain sha256) : State sha256 where
  pool := TransactionPool.start now
  builder := { (BlockBuilder.init : BlockBuilder.State sha256) with chain := some c }
  adding := none
  served := 0

section
variable {crypto : Crypto} (cfg : NodeConfig crypto)

def step (s : State crypto.sha256) : Action crypto.sha256 → Option (State crypto.sha256)
  | .pool a =>
    if a.isClient then (TransactionPool.step cfg.pool s.pool a).map fun pool => { s with pool } else none
  | .builder a =>
    if a.isControl then
      (BlockBuilder.step cfg.builder cfg.storage s.builder a).map fun builder => { s with builder }
    else none
  | .build i code stateStorage =>
    (BlockBuilder.step cfg.builder cfg.storage s.builder
      (.build i (answers code stateStorage cfg.builder s.pool.pools))).map fun builder => { s with builder }
  | .addBlock source =>
    match s.adding, source.block? s.builder, s.builder.chain with
    | none, some block, some c =>
      match append cfg.storage c block with
      | some _ => some { s with adding := some { source, block, own := block ∈ s.builder.handed, stage := .verified } }
      | none => (BlockBuilder.step cfg.builder cfg.storage s.builder source.answer).map fun builder => { s with builder }
    | _, _, _ => none
  | .mark =>
    match s.adding with
    | some { source, block, own, stage := .verified } =>
      (TransactionPool.step cfg.pool s.pool (.markCommittedTransactions block.body.transactionReceipts)).map fun pool =>
        { s with pool, adding := some { source, block, own, stage := .marked } }
    | _ => none
  | .clear =>
    match s.adding with
    | some { source, block, own, stage := .marked } =>
      (TransactionPool.step cfg.pool s.pool (.clearCommitted 0)).map fun pool =>
        { s with pool, adding := some { source, block, own, stage := .cleared } }
    | _ => none
  | .land =>
    match s.adding with
    | some { source, own, stage := .cleared, .. } =>
      (BlockBuilder.step cfg.builder cfg.storage s.builder source.answer).map fun builder =>
        { s with
          builder, adding := none
          served := if own then s.served + 1 else s.served }
    | _ => none

end

/-! ### What each step does -/

section
variable {crypto : Crypto} {cfg : NodeConfig crypto} {s s' : State crypto.sha256}

theorem step_pool {a : TransactionPool.Action} (h : step cfg s (.pool a) = some s') :
    a.isClient = true ∧ ∃ pool, TransactionPool.step cfg.pool s.pool a = some pool ∧ s' = { s with pool } := by
  rw [step] at h
  split_ifs at h with ha
  obtain ⟨pool, hp, rfl⟩ := Option.map_eq_some_iff.1 h
  exact ⟨ha, pool, hp, rfl⟩

theorem step_builder {a : BlockBuilder.Action crypto.sha256} (h : step cfg s (.builder a) = some s') :
    a.isControl = true ∧ ∃ builder, BlockBuilder.step cfg.builder cfg.storage s.builder a = some builder ∧
      s' = { s with builder } := by
  rw [step] at h
  split_ifs at h with ha
  obtain ⟨builder, hb, rfl⟩ := Option.map_eq_some_iff.1 h
  exact ⟨ha, builder, hb, rfl⟩

theorem step_build {i : ℕ} {code : ContractCode} {stateStorage : KeyValues}
    (h : step cfg s (.build i code stateStorage) = some s') :
    ∃ builder, BlockBuilder.step cfg.builder cfg.storage s.builder
      (.build i (answers code stateStorage cfg.builder s.pool.pools)) = some builder ∧ s' = { s with builder } := by
  obtain ⟨builder, hb, rfl⟩ := Option.map_eq_some_iff.1 h
  exact ⟨builder, hb, rfl⟩

/-- **A block is verified** while no other is being added, **or refused**. -/
theorem step_addBlock {source : Source} (h : step cfg s (.addBlock source) = some s') :
    s.adding = none ∧ ∃ block c, source.block? s.builder = some block ∧ s.builder.chain = some c ∧
      ((∃ d, append cfg.storage c block = some d) ∧ s' = { s with
        adding := some { source, block, own := block ∈ s.builder.handed, stage := .verified } } ∨
        append cfg.storage c block = none ∧ ∃ builder,
          BlockBuilder.step cfg.builder cfg.storage s.builder source.answer = some builder ∧ s' = { s with builder }) := by
  rw [step] at h
  split at h
  case h_2 => cases h
  rename_i block c ha hb hc
  refine ⟨ha, block, c, hb, hc, ?_⟩
  split at h
  · rename_i d hd
    cases h
    exact .inl ⟨⟨d, hd⟩, rfl⟩
  · rename_i hd
    obtain ⟨builder, hs, rfl⟩ := Option.map_eq_some_iff.1 h
    exact .inr ⟨hd, builder, hs, rfl⟩

theorem step_mark (h : step cfg s .mark = some s') :
    ∃ source block own pool, s.adding = some { source, block, own, stage := .verified } ∧
      TransactionPool.step cfg.pool s.pool (.markCommittedTransactions block.body.transactionReceipts) = some pool ∧
      s' = { s with pool, adding := some { source, block, own, stage := .marked } } := by
  rw [step] at h
  split at h
  case h_2 => cases h
  rename_i source block own ha
  obtain ⟨pool, hp, rfl⟩ := Option.map_eq_some_iff.1 h
  exact ⟨source, block, own, pool, ha, hp, rfl⟩

theorem step_clear (h : step cfg s .clear = some s') :
    ∃ source block own pool, s.adding = some { source, block, own, stage := .marked } ∧
      TransactionPool.step cfg.pool s.pool (.clearCommitted 0) = some pool ∧
      s' = { s with pool, adding := some { source, block, own, stage := .cleared } } := by
  rw [step] at h
  split at h
  case h_2 => cases h
  rename_i source block own ha
  obtain ⟨pool, hp, rfl⟩ := Option.map_eq_some_iff.1 h
  exact ⟨source, block, own, pool, ha, hp, rfl⟩

theorem step_land (h : step cfg s .land = some s') :
    ∃ source block own builder, s.adding = some { source, block, own, stage := .cleared } ∧
      BlockBuilder.step cfg.builder cfg.storage s.builder source.answer = some builder ∧
      s' = { s with
        builder, adding := none
        served := if own then s.served + 1 else s.served } := by
  rw [step] at h
  split at h
  case h_2 => cases h
  rename_i source block own ha
  obtain ⟨builder, hb, rfl⟩ := Option.map_eq_some_iff.1 h
  exact ⟨source, block, own, builder, ha, hb, rfl⟩

end

/-! ## Exactly once -/

/-- The receipts of a block are those of its transactions, and no transaction is in it twice. -/
structure Made (crypto : Crypto) (block : Block) : Prop where
  receipts : (block.body.transactionReceipts.map fun r => transactionHashToId r.txHash) = ids crypto block
  nodup : (ids crypto block).Nodup

theorem Made.reports_iff {crypto : Crypto} {block : Block} (h : Made crypto block) (txid : Str) :
    Reports block.body.transactionReceipts txid ↔ txid ∈ ids crypto block := by
  rw [← h.receipts, List.mem_map]
  rfl

/-- What the chain has above the one that the node began with. -/
def added {sha256 : Bytes → Bytes} (c₀ c : BlockChain sha256) : List Block := c.rest.drop c₀.rest.length

theorem added_self {sha256 : Bytes → Bytes} (c : BlockChain sha256) : added c c = [] := List.drop_length

theorem added_append {sha256 : Bytes → Bytes} {storage : BlockStorageConfig} {c₀ c d : BlockChain sha256} {block : Block}
    (hc : c₀.rest <+: c.rest) (h : append storage c block = some d) : added c₀ d = added c₀ c ++ [block] := by
  unfold added
  rw [BlockBuilder.rest_of_append h, List.drop_append_of_le_length hc.length_le]

/-- A block that was built from the pool of a node whose storage had chain `c`: its transactions are in no lower block. -/
structure Fit (crypto : Crypto) (c₀ c : BlockChain crypto.sha256) (block : Block) : Prop where
  made : Made crypto block
  fresh : ∀ b ∈ added c₀ c, b.header.height < block.header.height → ∀ txid ∈ ids crypto block, txid ∉ ids crypto b

theorem height_le_of_mem_added {sha256 : Bytes → Bytes} {c₀ c : BlockChain sha256} {b : Block} (h : b ∈ added c₀ c) :
    b.header.height ≤ c.tip.header.height := by
  obtain ⟨i, hi⟩ := List.mem_iff_getElem?.1 (List.mem_cons_of_mem (generateGenesisBlock sha256) (List.mem_of_mem_drop h))
  have hlt := (List.getElem?_eq_some_iff.1 hi).1
  rw [List.length_cons] at hlt
  rw [height_eq c hi, height_tip]
  omega

/-- **What follows the last block has nothing that the chain has.** -/
theorem Fit.disjoint {crypto : Crypto} {c₀ c : BlockChain crypto.sha256} {block : Block} (h : Fit crypto c₀ c block)
    (hh : block.header.height = c.tip.header.height + 1) {txid : Str} (ht : txid ∈ ids crypto block) :
    txid ∉ (added c₀ c).flatMap (ids crypto) := by
  intro hm
  obtain ⟨b, hb, hm⟩ := List.mem_flatMap.1 hm
  have := height_le_of_mem_added hb
  exact h.fresh b hb (by omega) txid ht hm

theorem Fit.append {crypto : Crypto} {storage : BlockStorageConfig} {c₀ c d : BlockChain crypto.sha256}
    {block b : Block} (h : Fit crypto c₀ c b) (hc : c₀.rest <+: c.rest) (hd : append storage c block = some d)
    (hh : b.header.height ≤ c.tip.header.height + 1) : Fit crypto c₀ d b where
  made := h.made
  fresh := fun b' hb' hlt txid ht => by
    rw [added_append hc hd, List.mem_append, List.mem_singleton] at hb'
    rcases hb' with hold | rfl
    · exact h.fresh b' hold hlt txid ht
    · have := (BlockBuilder.tip_of_append hd).2
      omega

/-- The pool's clients and validator are prompt, the storage tells what it does with a commit, and what it accepts was
built here or at a node like this one. -/
def Orderly {crypto : Crypto} (cfg : NodeConfig crypto) (c₀ : BlockChain crypto.sha256) (s : State crypto.sha256) :
    Action crypto.sha256 → Prop
  | .pool a => Prompt cfg.pool s.pool a
  | .addBlock source => source.Told cfg.storage s.builder ∧
    ∀ block c, source.block? s.builder = some block → s.builder.chain = some c → append cfg.storage c block ≠ none →
      block ∈ s.builder.handed ∨ Fit crypto c₀ c block
  | _ => True

def inFlight {sha256 : Bytes → Bytes} (s : State sha256) : List (List TransactionReceipt) :=
  match s.adding with
  | some { block, stage := .marked, .. } => [block.body.transactionReceipts]
  | _ => []

section
variable {crypto : Crypto} {cfg : NodeConfig crypto}

/-- The storage can still take the block that it is adding; once its report has begun, the pool knows its
transactions. -/
structure Adding.Sound {crypto : Crypto} (cfg : NodeConfig crypto) (c₀ c : BlockChain crypto.sha256)
    (s : State crypto.sha256) (a : Adding) : Prop where
  asked : a.source.block? s.builder = some a.block
  follows : ∃ d, append cfg.storage c a.block = some d
  fit : Fit crypto c₀ c a.block
  reported : a.stage ≠ .verified → ∀ txid ∈ ids crypto a.block, s.pool.reported.has txid = true

structure Inv {crypto : Crypto} (cfg : NodeConfig crypto) (c₀ c : BlockChain crypto.sha256) (s : State crypto.sha256) :
    Prop where
  chain : s.builder.chain = some c
  longer : c₀.rest <+: c.rest
  pool : Reported cfg.pool s.pool
  marks : s.pool.marks = inFlight s
  grounded : Grounded c.tip.header.height s.builder
  handed : ∀ block ∈ s.builder.handed, Fit crypto c₀ c block
  adding : ∀ a, s.adding = some a → a.Sound cfg c₀ c s
  reported : ∀ txid ∈ (added c₀ c).flatMap (ids crypto), s.pool.reported.has txid = true
  nodup : ((added c₀ c).flatMap (ids crypto)).Nodup

variable {c₀ c : BlockChain crypto.sha256} {s s' : State crypto.sha256}

theorem inv_start (now : Time) : Inv cfg c₀ c₀ (start now c₀) where
  chain := rfl
  longer := List.prefix_rfl
  pool := reported_start now
  marks := rfl
  grounded :=
    { lastBlock := fun block h => by cases h
      builds := fun b h => by cases h
      commits := fun b h => by cases h }
  handed := fun block h => by cases h
  adding := fun a h => by cases h
  reported := fun txid h => by
    rw [added_self] at h
    cases h
  nodup := by
    rw [added_self]
    exact .nil

theorem inv_pool {a : TransactionPool.Action} (hi : Inv cfg c₀ c s) (hg : Prompt cfg.pool s.pool a)
    (h : step cfg s (.pool a) = some s') : Inv cfg c₀ c s' := by
  obtain ⟨ha, pool, hp, rfl⟩ := step_pool h
  obtain ⟨hm, hr⟩ := step_client ha hp
  exact {
    chain := hi.chain
    longer := hi.longer
    pool := reported_step hi.pool hg hp
    marks := hm.trans hi.marks
    grounded := hi.grounded
    handed := hi.handed
    adding := fun a ha =>
      { hi.adding a ha with
        reported := fun hs txid ht => by
          rw [hr]
          exact (hi.adding a ha).reported hs txid ht }
    reported := fun txid ht => by
      rw [hr]
      exact hi.reported txid ht
    nodup := hi.nodup }

theorem inv_builder {a : BlockBuilder.Action crypto.sha256} (hi : Inv cfg c₀ c s)
    (h : step cfg s (.builder a) = some s') : Inv cfg c₀ c s' := by
  obtain ⟨ha, builder, hb, rfl⟩ := step_builder h
  obtain ⟨hc, hh, hs⟩ := BlockBuilder.step_control ha hb
  exact {
    hi with
    chain := hc.trans hi.chain
    grounded := BlockBuilder.grounded_control hi.grounded hi.chain ha hb
    handed := fun block hm => hi.handed block (hh ▸ hm)
    adding := fun a ha =>
      { hi.adding a ha with asked := BlockBuilder.block?_congr (hi.adding a ha).asked hs } }

theorem mem_inFlight {m : List TransactionReceipt} (h : m ∈ inFlight s) :
    ∃ a, s.adding = some a ∧ a.block.body.transactionReceipts = m := by
  unfold inFlight at h
  split at h
  · rename_i ha
    exact ⟨_, ha, (List.mem_singleton.1 h).symm⟩
  · cases h

theorem ids_of_build {p : Pools} {code : ContractCode} {stateStorage : KeyValues} {lastBlock : Option Block}
    {block : Block} (hi : BlockCommit.Ids cfg.pool.crypto p)
    (h : BlockBuilder.buildBlockFromPendingTransactions crypto.sha256 cfg.builder lastBlock
      (answers code stateStorage cfg.builder p) = .ok (some block)) :
    ids crypto block = p.pendingTransactions.keys.take cfg.builder.blockSizeLimit := by
  unfold ids
  rw [(BlockCommit.build_eq_ok h).1, ← BlockCommit.ids_pending hi, List.map_map, ← List.map_take]
  rfl

/-- **A build takes nothing that the chain has**, though it may take what is about to be reported. -/
theorem inv_build {i : ℕ} {code : ContractCode} {stateStorage : KeyValues} (hi : Inv cfg c₀ c s)
    (h : step cfg s (.build i code stateStorage) = some s') : Inv cfg c₀ c s' := by
  obtain ⟨builder, hb, rfl⟩ := step_build h
  obtain ⟨hc, hcm, -, -, tips, lastBlock, -, hh⟩ := BlockBuilder.step_build hb
  refine {
    hi with
    chain := hc.trans hi.chain
    grounded := BlockBuilder.grounded_build hi.grounded hb
    handed := fun block hm => ?_
    adding := fun a ha =>
      { hi.adding a ha with
        asked := BlockBuilder.block?_congr (hi.adding a ha).asked fun j b hj => by rwa [hcm] } }
  rcases hh with hsame | ⟨built, hbuild, hmem⟩
  · exact hi.handed block (hsame ▸ hm)
  rcases hmem block hm with hold | rfl
  · exact hi.handed block hold
  refine ⟨⟨BlockCommit.ids_receipts hi.pool.ids hbuild, BlockCommit.nodup_ids hi.pool.ids hbuild⟩,
    fun b hb _ txid ht hmem => ?_⟩
  have hchain := List.mem_flatMap.2 ⟨b, hb, hmem⟩
  rw [ids_of_build hi.pool.ids hbuild] at ht
  obtain ⟨tx, hp⟩ := JsMap.get_of_mem_keys (List.mem_of_mem_take ht)
  obtain ⟨m, hm, hrep⟩ := hi.pool.covered txid tx hp (hi.reported txid hchain)
  rw [hi.marks] at hm
  obtain ⟨a, ha, rfl⟩ := mem_inFlight hm
  have hadd := hi.adding a ha
  obtain ⟨d, hd⟩ := hadd.follows
  exact hadd.fit.disjoint (BlockBuilder.tip_of_append hd).2 ((hadd.fit.made.reports_iff txid).1 hrep) hchain

theorem inv_addBlock {source : Source} (hi : Inv cfg c₀ c s) (hg : Orderly cfg c₀ s (.addBlock source))
    (h : step cfg s (.addBlock source) = some s') : Inv cfg c₀ c s' := by
  obtain ⟨hn, block, c', hb, hc, ⟨⟨d, hd⟩, rfl⟩ | ⟨hd, builder, hs, rfl⟩⟩ := step_addBlock h
  · rw [hi.chain] at hc
    cases hc
    have hq : inFlight s = [] := by
      unfold inFlight
      rw [hn]
    refine {
      hi with
      marks := hi.marks.trans hq
      adding := fun a ha => ?_ }
    cases ha
    refine {
      asked := hb, follows := ⟨d, hd⟩
      fit := ?_, reported := fun hv => absurd rfl hv }
    rcases hg.2 block c hb hi.chain (by rw [hd]; exact Option.some_ne_none d) with hown | hfit
    · exact hi.handed block hown
    · exact hfit
  · rw [hi.chain] at hc
    cases hc
    obtain ⟨hchain, hh⟩ := BlockBuilder.step_answer hb hi.chain hs
    have hground := BlockBuilder.grounded_answer hi.grounded hg.1 hb hi.chain hs
    rw [hd] at hchain hground
    exact {
      hi with
      chain := hchain
      grounded := hground
      handed := fun b hm => hi.handed b (hh ▸ hm)
      adding := fun a ha => by rw [hn] at ha; cases ha }

theorem inv_mark (hi : Inv cfg c₀ c s) (h : step cfg s .mark = some s') : Inv cfg c₀ c s' := by
  obtain ⟨source, block, own, pool, ha, hp, rfl⟩ := step_mark h
  have hadd := hi.adding _ ha
  have hq : inFlight s = [] := by
    unfold inFlight
    rw [ha]
  have hrep := has_reported_mark hp
  refine {
    hi with
    pool := reported_step (a := .markCommittedTransactions _) hi.pool trivial hp
    marks := ?_
    adding := fun a ha => ?_
    reported := fun txid ht => (hrep txid).2 (.inr (hi.reported txid ht)) }
  · cases hp
    change s.pool.marks ++ [block.body.transactionReceipts] = [block.body.transactionReceipts]
    rw [hi.marks, hq, List.nil_append]
  · cases ha
    exact {
      hadd with
      reported := fun _ txid ht => (hrep txid).2 (.inl ((hadd.fit.made.reports_iff txid).2 ht)) }

theorem inv_clear (hi : Inv cfg c₀ c s) (h : step cfg s .clear = some s') : Inv cfg c₀ c s' := by
  obtain ⟨source, block, own, pool, ha, hp, rfl⟩ := step_clear h
  have hadd := hi.adding _ ha
  have hq : inFlight s = [block.body.transactionReceipts] := by
    unfold inFlight
    rw [ha]
  have hpool := reported_step (a := .clearCommitted 0) hi.pool trivial hp
  obtain ⟨m, hm, rfl⟩ := TransactionPool.step_clear hp
  refine {
    hi with
    pool := hpool
    marks := ?_
    adding := fun a ha => ?_ }
  · change s.pool.marks.eraseIdx 0 = []
    rw [hi.marks, hq]
    rfl
  · cases ha
    exact { hadd with reported := fun _ => hadd.reported (fun h => by cases h) }

/-- **A block that lands** makes all that was built before it too low. -/
theorem inv_land (hi : Inv cfg c₀ c s) (h : step cfg s .land = some s') :
    ∃ a d, s.adding = some a ∧ append cfg.storage c a.block = some d ∧ s'.adding = none ∧ Inv cfg c₀ d s' := by
  obtain ⟨source, block, own, builder, ha, hs, rfl⟩ := step_land h
  have hadd := hi.adding _ ha
  obtain ⟨d, hd⟩ := hadd.follows
  obtain ⟨hchain, hh⟩ := BlockBuilder.step_answer hadd.asked hi.chain hs
  have hground := BlockBuilder.grounded_answer hi.grounded ?_ hadd.asked hi.chain hs
  rw [hd] at hchain hground
  have hq : inFlight s = [] := by
    unfold inFlight
    rw [ha]
  refine ⟨_, d, ha, hd, rfl, {
    hi with
    chain := hchain
    longer := ?_
    marks := hi.marks.trans hq
    grounded := hground
    handed := fun b hm => (hi.handed b (hh ▸ hm)).append hi.longer hd (hi.grounded.handed (hh ▸ hm))
    adding := fun a ha => by cases ha
    reported := fun txid ht => ?_
    nodup := ?_ }⟩
  · rw [BlockBuilder.rest_of_append hd]
    exact hi.longer.trans (List.prefix_append _ _)
  · rw [added_append hi.longer hd, List.flatMap_append, List.mem_append] at ht
    rcases ht with ht | ht
    · exact hi.reported txid ht
    · rw [List.flatMap_singleton] at ht
      exact hadd.reported (fun h => by cases h) txid ht
  · rw [added_append hi.longer hd, List.flatMap_append, List.flatMap_singleton]
    refine List.nodup_append.2 ⟨hi.nodup, hadd.fit.made.nodup, fun a ha b hb hab => ?_⟩
    rw [hab] at ha
    exact hadd.fit.disjoint (BlockBuilder.tip_of_append hd).2 hb ha
  · cases source with
    | sync b => trivial
    | commit j =>
      intro _ b c' hb hc hn
      rw [hadd.asked] at hb
      cases hb
      rw [hi.chain] at hc
      cases hc
      rw [hd] at hn
      cases hn

theorem inv_step {a : Action crypto.sha256} (hi : Inv cfg c₀ c s) (hg : Orderly cfg c₀ s a)
    (h : step cfg s a = some s') : ∃ d, Inv cfg c₀ d s' := by
  cases a with
  | pool a => exact ⟨c, inv_pool hi hg h⟩
  | builder a => exact ⟨c, inv_builder hi h⟩
  | build i code stateStorage => exact ⟨c, inv_build hi h⟩
  | addBlock source => exact ⟨c, inv_addBlock hi hg h⟩
  | mark => exact ⟨c, inv_mark hi h⟩
  | clear => exact ⟨c, inv_clear hi h⟩
  | land =>
    obtain ⟨-, d, -, -, -, hd⟩ := inv_land hi h
    exact ⟨d, hd⟩

theorem inv_run {now : Time} {as : List (Action crypto.sha256)}
    (hg : Lts.Meets (step cfg) (Orderly cfg c₀) (start now c₀) as) (hr : Lts.run (step cfg) (start now c₀) as = some s) :
    ∃ c, Inv cfg c₀ c s :=
  Lts.run_inv (I := fun s => ∃ c, Inv cfg c₀ c s) (fun _ _ _ hi hg h => hi.elim fun _ hi => inv_step hi hg h)
    ⟨c₀, inv_start now⟩ hg hr

end

/-- What the node has put on the chain that it began with. -/
structure Once (crypto : Crypto) (c₀ c : BlockChain crypto.sha256) (s : State crypto.sha256) : Prop where
  longer : c₀.rest <+: c.rest
  nodup : ((added c₀ c).flatMap (ids crypto)).Nodup
  /-- Between two blocks nothing is pending that the chain has. -/
  settled : s.adding = none → ∀ txid ∈ (added c₀ c).flatMap (ids crypto),
    s.pool.pools.pendingTransactions.has txid = false

theorem once_of_inv {crypto : Crypto} {cfg : NodeConfig crypto} {c₀ c : BlockChain crypto.sha256}
    {s : State crypto.sha256} (hi : Inv cfg c₀ c s) : Once crypto c₀ c s := by
  refine ⟨hi.longer, hi.nodup, fun hn txid ht => ?_⟩
  rw [Bool.eq_false_iff]
  intro hp
  obtain ⟨tx, hp⟩ := Option.isSome_iff_exists.1 hp
  obtain ⟨m, hm, -⟩ := hi.pool.covered txid tx hp (hi.reported txid ht)
  have hq : inFlight s = [] := by
    unfold inFlight
    rw [hn]
  rw [hi.marks, hq] at hm
  cases hm

def nodeConfig : NodeConfig sampleCrypto where
  options := (sampleConfig 30000).options
  pendingLifespan := (sampleConfig 30000).pendingLifespan
  committedLifespan := (sampleConfig 30000).committedLifespan
  builder := BlockCommit.oneAtATime
  storage := .unsigned

def submit (transaction : Transaction) : List (Action sampleCrypto.sha256) :=
  [.pool (.addNewPendingTransaction transaction), .pool (.validated 0 fun _ => .ok true)]

def build (i : ℕ) : Action sampleCrypto.sha256 := .build i VirtualMachine.appender fun _ => none

/-- The first build fetches the last block. -/
def buildFirst : List (Action sampleCrypto.sha256) :=
  [.builder .appendNextBlock, .builder (.getLastBlock 0), .builder (.fetched 0), build 0]

def commit (j : ℕ) (block : Block) : List (Action sampleCrypto.sha256) :=
  [.builder (.commitBlock block), .addBlock (.commit j), .mark, .clear, .land, .builder (.committed j)]

def prompt (cfg : TransactionPool.Config) (s : TransactionPool.State) : TransactionPool.Action → Bool
  | .validated i _ => match s.admissions[i]? with
    | some a => !s.reported.has (TransactionHelper.calculateTransactionId cfg.crypto a.transaction)
    | none => true
  | a => outlivedByReport cfg s a

theorem prompt_of_check {cfg : TransactionPool.Config} {s : TransactionPool.State} {a : TransactionPool.Action}
    (h : prompt cfg s a = true) : Prompt cfg s a := by
  cases a with
  | validated i f =>
    intro a ha _ hr
    simp [prompt, ha, hr] at h
  | addNewPendingTransaction tx => exact outlivedByReport_of_check (a := .addNewPendingTransaction tx) h
  | newTransaction tx => exact outlivedByReport_of_check (a := .newTransaction tx) h
  | _ => trivial

def orderly {crypto : Crypto} (cfg : NodeConfig crypto) (s : State crypto.sha256) : Action crypto.sha256 → Bool
  | .pool a => prompt cfg.pool s.pool a
  | .addBlock source => !s.builder.isSyncing && (source.block? s.builder).all fun block => block ∈ s.builder.handed
  | _ => true

theorem orderly_of_check {crypto : Crypto} {cfg : NodeConfig crypto} {c₀ : BlockChain crypto.sha256}
    {s : State crypto.sha256} {a : Action crypto.sha256}
    (h : orderly cfg s a = true) : Orderly cfg c₀ s a := by
  cases a with
  | pool a => exact prompt_of_check h
  | addBlock source =>
    rw [orderly, Bool.and_eq_true, Bool.not_eq_true'] at h
    refine ⟨?_, fun block c hb _ _ => ?_⟩
    · cases source with
      | commit j =>
        intro hsync
        rw [h.1] at hsync
        cases hsync
      | sync b => trivial
    · rw [hb] at h
      exact .inl (of_decide_eq_true h.2)
  | _ => trivial

/-- A run of orderly steps. -/
def runOrderly (s : State sampleCrypto.sha256) (as : List (Action sampleCrypto.sha256)) :
    Option (State sampleCrypto.sha256) :=
  Lts.run (Lts.guarded (step nodeConfig) (orderly nodeConfig)) s as

theorem of_runOrderly {s s' : State sampleCrypto.sha256} {as : List (Action sampleCrypto.sha256)}
    (h : runOrderly s as = some s') :
    Lts.run (step nodeConfig) s as = some s' ∧ Lts.Meets (step nodeConfig) (Orderly nodeConfig Chain.nil) s as :=
  Lts.of_guarded (fun _ _ => orderly_of_check) h

theorem runOrderly_append {s t u : State sampleCrypto.sha256}
    {as bs : List (Action sampleCrypto.sha256)} (h : runOrderly s as = some t) (ht : runOrderly t bs = some u) :
    runOrderly s (as ++ bs) = some u := by
  unfold runOrderly at h ht ⊢
  rw [Lts.run_append, h]
  exact ht

def thenSecond (first : Block) : List (Action sampleCrypto.sha256) :=
  commit 0 first ++ submit anotherTransaction ++ [.builder .appendNextBlock, build 1]

structure TwoBlocks where
  first : Block
  second : Block
  waiting : State sampleCrypto.sha256
  after : State sampleCrypto.sha256

def TwoBlocks.actions (r : TwoBlocks) : List (Action sampleCrypto.sha256) :=
  buildFirst ++ (thenSecond r.first ++ commit 1 r.second)

def twoBlocks : Option TwoBlocks :=
  (runOrderly (start sampleTime Chain.nil) (submit sampleTransaction)).bind fun waiting =>
  (runOrderly waiting buildFirst).bind fun s =>
  s.builder.handed.head?.bind fun first =>
  (runOrderly s (thenSecond first)).bind fun t =>
  t.builder.handed[1]?.bind fun second =>
  (runOrderly t (commit 1 second)).map fun after => { first, second, waiting, after }

theorem twoBlocks_eq_some {r : TwoBlocks} (h : twoBlocks = some r) :
    runOrderly (start sampleTime Chain.nil) (submit sampleTransaction) = some r.waiting ∧
      runOrderly r.waiting r.actions = some r.after := by
  unfold twoBlocks at h
  obtain ⟨waiting, hw, h⟩ := Option.bind_eq_some_iff.1 h
  obtain ⟨s, hs, h⟩ := Option.bind_eq_some_iff.1 h
  obtain ⟨first, -, h⟩ := Option.bind_eq_some_iff.1 h
  obtain ⟨t, ht, h⟩ := Option.bind_eq_some_iff.1 h
  obtain ⟨second, -, h⟩ := Option.bind_eq_some_iff.1 h
  obtain ⟨after, ha, rfl⟩ := Option.map_eq_some_iff.1 h
  exact ⟨hw, runOrderly_append hs (runOrderly_append ht ha)⟩

theorem run_twoBlocks : (twoBlocks.map fun r =>
    (r.waiting.served, r.after.served, r.waiting.pool.pools.pendingTransactions.keys.length)) = some (0, 2, 1) := by
  decide +kernel

end LeaderNode
end Orbs
