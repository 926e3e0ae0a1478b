import OrbsNetwork.PersistedChain
import OrbsNetwork.Lib.Lts
/-!
# BlockBuilder — building on the last block

The builder keeps the last block in a field of its own, fetched once from the block storage and replaced after each
`commitBlock` that resolved.  `step` interleaves the calls of `appendNextBlock` and `commitBlock` at their awaits with
what the storage does meanwhile: it loads, it gets blocks from peers, and while it is syncing its `addBlock` resolves
whether or not the block was stored.

`Fresh` says where the cached block is not stale; in runs that stay there every block that is handed on is built on a
block that the storage held as its last one during the call (`handed_on_tip`).
-/
namespace Orbs
namespace BlockBuilder

open Js BlockStorage HashChain

structure BlockBuilderConfig where
  sign : Bool
  keyManager : Option KeyManager
  nodeName : Str
  blockSizeLimit : ℕ

/-- The answers of the transaction pool and of the virtual machine to one build. -/
structure Answers where
  getAllPendingTransactions : Except Str (List TransactionEntry)
  processTransactionSet : Except Str (List TransactionReceipt × List ModifiedStateKey)

section
variable (sha256 : Bytes → Bytes) (config : BlockBuilderConfig)

def signIfConfigured (block : Block) : Except Str Block :=
  if config.sign then
    match config.keyManager with
    | some keyManager => signBlock sha256 block keyManager config.nodeName
    | none => .error "TypeError: Cannot read property 'sign' of undefined".toList
  else .ok block

/-- `undefined`, the inner `none`, when there is nothing to build. -/
def buildBlockFromPendingTransactions (lastBlock : Option Block) (answers : Answers) : Except Str (Option Block) := do
  let transactionEntries ← answers.getAllPendingTransactions
  let transactionEntriesCap := transactionEntries.take config.blockSizeLimit
  if transactionEntriesCap.length = 0 then
    pure none
  else do
    let (transactionReceipts, stateDiff) ← answers.processTransactionSet
    let block ← signIfConfigured sha256 config (buildNextBlock sha256
      { transactions := transactionEntriesCap.map TransactionEntry.transaction, transactionReceipts, stateDiff }
      lastBlock)
    pure (some block)

end

/-- Where a call of `appendNextBlock` is. -/
inductive Phase where
  /-- It awaits `getLastBlock`, which the storage has not yet run. -/
  | fetching
  /-- The answer of `getLastBlock` is on its way. -/
  | fetched (block : Option Block)
  /-- It awaits the pool and the virtual machine. -/
  | building (lastBlock : Option Block)
  /-- `newBlockBuildCallback` has the block. -/
  | handed (block : Block)
  /-- It found nothing to build, or threw. -/
  | ended

/-- A call of `appendNextBlock`, and the last blocks that the storage has held since it began. -/
structure Build where
  tips : List Block
  phase : Phase

/-- How far a call of `commitBlock` has come; the storage's answer is whether `addBlock` resolved. -/
inductive CommitPhase where
  | sent
  | answered (resolved : Bool)
  | done

structure Commit where
  block : Block
  phase : CommitPhase

structure State (sha256 : Bytes → Bytes) where
  /-- The chain of the block storage; none before `load` is done. -/
  chain : Option (BlockChain sha256)
  /-- The storage service is syncing with a peer. -/
  isSyncing : Bool
  lastBlock : Option Block
  polling : Bool
  builds : List Build
  commits : List Commit

inductive Action (sha256 : Bytes → Bytes) where
  | load (chain : BlockChain sha256)
  /-- The storage appends a block that it got from a peer. -/
  | appendBlocks (block : Block)
  | setSyncing (isSyncing : Bool)
  | start
  | stop
  | appendNextBlock
  /-- The storage answers a call's `getLastBlock`. -/
  | getLastBlock (i : ℕ)
  /-- A call gets that answer. -/
  | fetched (i : ℕ)
  /-- The pool and the virtual machine have answered a call. -/
  | build (i : ℕ) (answers : Answers)
  | commitBlock (block : Block)
  /-- The storage runs the `addBlock` of a commit. -/
  | addBlock (j : ℕ)
  /-- A commit gets the storage's answer. -/
  | committed (j : ℕ)

variable {sha256 : Bytes → Bytes}

def Phase.live : Phase → Bool
  | .handed _ => false
  | .ended => false
  | _ => true

def Build.observe (tip : Block) (b : Build) : Build :=
  if b.phase.live then { b with tips := b.tips ++ [tip] } else b

namespace State

def setChain (s : State sha256) (c : BlockChain sha256) : State sha256 :=
  { s with chain := some c, builds := s.builds.map (Build.observe c.tip) }

def setBuild (s : State sha256) (i : ℕ) (b : Build) : State sha256 := { s with builds := s.builds.set i b }

def setCommit (s : State sha256) (j : ℕ) (c : Commit) : State sha256 := { s with commits := s.commits.set j c }

end State

def step (config : BlockBuilderConfig) (storage : BlockStorageConfig) (s : State sha256) :
    Action sha256 → Option (State sha256)
  | .load chain => match s.chain with
    | none => some (s.setChain chain)
    | some _ => none
  | .appendBlocks block => s.chain.map fun c =>
    match append storage c block with
    | some d => s.setChain d
    | none => s
  | .setSyncing isSyncing => some { s with isSyncing }
  | .start => some { s with polling := true }
  | .stop => some { s with polling := false }
  | .appendNextBlock =>
    let phase := match s.lastBlock with
      | none => Phase.fetching
      | some block => .building (some block)
    some { s with polling := false, builds := s.builds ++ [{ tips := (s.chain.map Chain.tip).toList, phase }] }
  | .getLastBlock i => match s.builds[i]? with
    | some { tips, phase := .fetching } => some (s.setBuild i { tips, phase := .fetched (s.chain.map Chain.tip) })
    | _ => none
  | .fetched i => match s.builds[i]? with
    | some { tips, phase := .fetched block } =>
      some (State.setBuild { s with lastBlock := block } i { tips, phase := .building block })
    | _ => none
  | .build i answers => match s.builds[i]? with
    | some { tips, phase := .building lastBlock } =>
      match buildBlockFromPendingTransactions sha256 config lastBlock answers with
      | .ok (some block) => some (s.setBuild i { tips, phase := .handed block })
      | .ok none => some (State.setBuild { s with polling := true } i { tips, phase := .ended })
      | .error _ => some (State.setBuild { s with polling := true } i { tips, phase := .ended })
    | _ => none
  | .commitBlock block => some { s with commits := s.commits ++ [{ block, phase := .sent }] }
  | .addBlock j => match s.commits[j]? with
    | some { block, phase := .sent } =>
      match s.chain.bind fun c => append storage c block with
      | some d => some ((s.setChain d).setCommit j { block, phase := .answered true })
      -- `appendBlocks` swallows the error, so `addBlock` resolves while the service is syncing.
      | none => some (s.setCommit j { block, phase := .answered s.isSyncing })
    | _ => none
  | .committed j => match s.commits[j]? with
    | some { block, phase := .answered resolved } =>
      some (State.setCommit { s with lastBlock := if resolved then some block else s.lastBlock } j { block, phase := .done })
    | _ => none

def init : State sha256 :=
  { chain := none, isSyncing := false, lastBlock := none, polling := false, builds := [], commits := [] }

/-- A block that was handed on is one above, and names the hash of, one of the blocks `tips`. -/
def Phase.OnTip (sha256 : Bytes → Bytes) (tips : List Block) : Phase → Prop
  | .handed block => ∃ tip ∈ tips,
    block.header.height = tip.header.height + 1 ∧ block.header.prevBlockHash = calculateBlockHash sha256 tip
  | _ => True

instance (tips : List Block) : DecidablePred (Phase.OnTip sha256 tips)
  | .handed block => inferInstanceAs (Decidable (∃ tip ∈ tips,
    block.header.height = tip.header.height + 1 ∧ block.header.prevBlockHash = calculateBlockHash sha256 tip))
  | .fetching | .fetched _ | .building _ | .ended => .isTrue trivial

/-- Every block handed to `newBlockBuildCallback` is built on a block that the storage held as its last one during the
call. -/
def HandedOnTip (s : State sha256) : Prop := ∀ b ∈ s.builds, b.phase.OnTip sha256 b.tips

instance (s : State sha256) : Decidable (HandedOnTip s) :=
  inferInstanceAs (Decidable (∀ b ∈ s.builds, b.phase.OnTip sha256 b.tips))

/-- Where the builder does not work on a stale block: `appendNextBlock` begins with the storage's last block in the
cache, or with none, and `getLastBlock` is answered by a storage that has loaded. -/
def Fresh (s : State sha256) : Action sha256 → Prop
  | .appendNextBlock => s.lastBlock = none ∨ ∃ c, s.chain = some c ∧ s.lastBlock = some c.tip
  | .getLastBlock _ => ∃ c, s.chain = some c
  | _ => True

/-! ## What one build does -/

variable {config : BlockBuilderConfig} {storage : BlockStorageConfig}

theorem signIfConfigured_eq_ok {block signed : Block} (h : signIfConfigured sha256 config block = .ok signed) :
    signed.header = block.header := by
  rw [signIfConfigured] at h
  split at h
  · split at h
    · exact (signBlock_eq_ok sha256 h).1
    · cases h
  · cases h
    rfl

/-- **A built block follows the block it was built on.** -/
theorem next_of_build {last block : Block} {answers : Answers}
    (h : buildBlockFromPendingTransactions sha256 config (some last) answers = .ok (some block)) :
    (blockView sha256).Next last block := by
  obtain ⟨entries, -, h⟩ := bind_eq_ok.1 h
  dsimp only at h
  split at h
  · cases h
  obtain ⟨⟨receipts, stateDiff⟩, -, h⟩ := bind_eq_ok.1 h
  obtain ⟨signed, hs, h⟩ := bind_eq_ok.1 h
  cases h
  have hh := signIfConfigured_eq_ok hs
  have hn := fun body => next_buildNextBlock sha256 body last
  simp only [HashChain.View.Next, blockView] at hn ⊢
  rw [hh]
  exact hn _

/-! ## The invariant of fresh runs -/

/-- The block a call works with is one of the last blocks the storage has held since it began. -/
def Build.Sound (sha256 : Bytes → Bytes) (b : Build) : Prop :=
  match b.phase with
  | .fetched block => ∃ tip ∈ b.tips, block = some tip
  | .building lastBlock => ∃ tip ∈ b.tips, lastBlock = some tip
  | .handed block => ∃ tip ∈ b.tips, (blockView sha256).Next tip block
  | _ => True

def Build.SeesTip (chain : Option (BlockChain sha256)) (b : Build) : Prop :=
  b.phase.live = true → ∀ c, chain = some c → c.tip ∈ b.tips

structure Inv (s : State sha256) : Prop where
  sound : ∀ b ∈ s.builds, b.Sound sha256
  seesTip : ∀ b ∈ s.builds, b.SeesTip s.chain

theorem Build.observe_phase (tip : Block) (b : Build) : (b.observe tip).phase = b.phase := by
  rw [Build.observe]
  split <;> rfl

theorem Build.tips_subset_observe (tip : Block) (b : Build) : b.tips ⊆ (b.observe tip).tips := by
  rw [Build.observe]
  split
  · exact List.subset_append_left _ _
  · exact fun _ h => h

theorem Build.Sound.observe {b : Build} (h : b.Sound sha256) (tip : Block) : (b.observe tip).Sound sha256 := by
  unfold Build.Sound at h ⊢
  rw [Build.observe_phase]
  have hs := b.tips_subset_observe tip
  split <;> simp only [*] at h ⊢
  · obtain ⟨t, ht, h⟩ := h
    exact ⟨t, hs ht, h⟩
  · obtain ⟨t, ht, h⟩ := h
    exact ⟨t, hs ht, h⟩
  · obtain ⟨t, ht, h⟩ := h
    exact ⟨t, hs ht, h⟩

namespace Inv

variable {s : State sha256}

theorem setChain (h : Inv s) (c : BlockChain sha256) : Inv (s.setChain c) := by
  refine ⟨fun b hb => ?_, fun b hb => ?_⟩
  · obtain ⟨a, ha, rfl⟩ := List.mem_map.1 hb
    exact (h.sound a ha).observe c.tip
  · obtain ⟨a, -, rfl⟩ := List.mem_map.1 hb
    intro hl d hd
    cases hd
    rw [Build.observe_phase] at hl
    rw [Build.observe, if_pos hl]
    simp

theorem setBuild (h : Inv s) {i : ℕ} {b : Build} (hb : b.Sound sha256) (ht : b.SeesTip s.chain) :
    Inv (s.setBuild i b) := by
  refine ⟨fun a ha => ?_, fun a ha => ?_⟩
  · rcases List.mem_or_eq_of_mem_set ha with ha | rfl
    · exact h.sound a ha
    · exact hb
  · rcases List.mem_or_eq_of_mem_set ha with ha | rfl
    · exact h.seesTip a ha
    · exact ht

theorem begin (h : Inv s) {b : Build} (hb : b.Sound sha256) (ht : b.tips = (s.chain.map Chain.tip).toList) :
    Inv { s with polling := false, builds := s.builds ++ [b] } := by
  refine ⟨fun a ha => ?_, fun a ha => ?_⟩
  · rcases List.mem_append.1 ha with ha | ha
    · exact h.sound a ha
    · rw [List.mem_singleton.1 ha]
      exact hb
  · rcases List.mem_append.1 ha with ha | ha
    · exact h.seesTip a ha
    · rw [List.mem_singleton.1 ha]
      intro _ c hc
      change s.chain = some c at hc
      rw [ht, hc]
      simp

end Inv

/-- **One fresh step keeps every call on the storage's blocks.** -/
theorem step_inv {s s' : State sha256} {a : Action sha256} (hs : Inv s) (hg : Fresh s a)
    (h : step config storage s a = some s') : Inv s' := by
  cases a with
  | load chain =>
    rw [step] at h
    split at h <;> cases h
    exact hs.setChain chain
  | appendBlocks block =>
    obtain ⟨c, -, rfl⟩ := Option.map_eq_some_iff.1 h
    split
    · exact hs.setChain _
    · exact hs
  | setSyncing isSyncing =>
    cases h
    exact ⟨hs.sound, hs.seesTip⟩
  | start =>
    cases h
    exact ⟨hs.sound, hs.seesTip⟩
  | stop =>
    cases h
    exact ⟨hs.sound, hs.seesTip⟩
  | appendNextBlock =>
    cases h
    refine hs.begin ?_ rfl
    rcases hg with hl | ⟨c, hc, hl⟩
    · rw [hl]
      trivial
    · rw [hl]
      exact ⟨c.tip, by rw [hc]; simp, rfl⟩
  | getLastBlock i =>
    rw [step] at h
    split at h <;> cases h
    rename_i tips hi
    obtain ⟨c, hc⟩ := hg
    have hsee := hs.seesTip _ (List.mem_of_getElem? hi)
    refine hs.setBuild ⟨c.tip, hsee rfl c hc, by rw [hc]; rfl⟩ fun _ => hsee rfl
  | fetched i =>
    rw [step] at h
    split at h <;> cases h
    rename_i tips block hi
    have hb := List.mem_of_getElem? hi
    have hsound := hs.sound _ hb
    have hsee := hs.seesTip _ hb rfl
    exact Inv.setBuild (s := { s with lastBlock := block }) ⟨hs.sound, hs.seesTip⟩ hsound fun _ => hsee
  | build i answers =>
    rw [step] at h
    split at h
    case h_2 => cases h
    rename_i tips last hi
    have hb := List.mem_of_getElem? hi
    obtain ⟨tip, ht, rfl⟩ := hs.sound _ hb
    split at h <;> cases h
    · rename_i block hblock
      exact hs.setBuild ⟨tip, ht, next_of_build hblock⟩ nofun
    · exact Inv.setBuild (s := { s with polling := true }) ⟨hs.sound, hs.seesTip⟩ trivial nofun
    · exact Inv.setBuild (s := { s with polling := true }) ⟨hs.sound, hs.seesTip⟩ trivial nofun
  | commitBlock block =>
    cases h
    exact ⟨hs.sound, hs.seesTip⟩
  | addBlock j =>
    rw [step] at h
    split at h
    case h_2 => cases h
    split at h <;> cases h
    · exact ⟨(hs.setChain _).sound, (hs.setChain _).seesTip⟩
    · exact ⟨hs.sound, hs.seesTip⟩
  | committed j =>
    rw [step] at h
    split at h <;> cases h
    exact ⟨hs.sound, hs.seesTip⟩

/-- The steps of the builder itself: no commit, and nothing that the storage does. -/
def Action.isBuilding : Action sha256 → Bool
  | .start | .stop | .appendNextBlock | .getLastBlock _ | .fetched _ | .build _ _ => true
  | _ => false

/-- **Building changes neither the stored chain nor the commits.** -/
theorem step_isBuilding {s s' : State sha256} {a : Action sha256} (ha : a.isBuilding = true)
    (h : step config storage s a = some s') : s'.chain = s.chain ∧ s'.commits = s.commits := by
  cases a <;> cases ha <;> rw [step] at h
  case start => cases h; exact ⟨rfl, rfl⟩
  case stop => cases h; exact ⟨rfl, rfl⟩
  case appendNextBlock => cases h; exact ⟨rfl, rfl⟩
  case getLastBlock =>
    split at h <;> cases h
    exact ⟨rfl, rfl⟩
  case fetched =>
    split at h <;> cases h
    exact ⟨rfl, rfl⟩
  case build =>
    split at h
    · split at h <;> cases h <;> exact ⟨rfl, rfl⟩
    · cases h

/-- **The builder builds on the tip**: in a run whose every step is fresh, each block that was handed on follows a
block that the storage held as its last one during the call. -/
theorem handed_on_tip {as : List (Action sha256)} {s : State sha256}
    (hg : Lts.Meets (step config storage) Fresh init as) (hs : Lts.run (step config storage) init as = some s) :
    HandedOnTip s := by
  have h0 : Inv (init : State sha256) := ⟨fun _ hb => (List.not_mem_nil hb).elim, fun _ hb => (List.not_mem_nil hb).elim⟩
  have hi : Inv s := Lts.run_inv (fun _ _ _ hi hg h => step_inv hi hg h) h0 hg hs
  intro b hb
  have hb := hi.sound b hb
  unfold Build.Sound at hb
  split at hb <;> simp only [*, Phase.OnTip]
  exact hb

/-! ## A run that builds, and one on a stale cache -/

def builderConfig : BlockBuilderConfig := { sign := false, keyManager := none, nodeName := [], blockSizeLimit := 2000 }

/-- The pool has one transaction, which changes nothing. -/
def oneTransaction : Answers where
  getAllPendingTransactions := .ok [{ txHash := [], transaction :=
    { header := { version := 0, sender := [], timestamp := [], contractAddress := [] }, payload := [],
      signatureData := none } }]
  processTransactionSet := .ok ([], [])

def emptyPool : Answers where
  getAllPendingTransactions := .ok []
  processTransactionSet := .ok ([], [])

/-- What the builder makes of `oneTransaction` on genesis. -/
def builtOnGenesis : Block :=
  buildNextBlock Sha256.hash
    { transactions := [{ header := { version := 0, sender := [], timestamp := [], contractAddress := [] }, payload := []
                         signatureData := none }]
      transactionReceipts := [], stateDiff := [] } (some (generateGenesisBlock Sha256.hash))

/-- The builder fetches genesis, builds on it, commits, and builds on what it has cached then. -/
def buildTwice : List (Action Sha256.hash) :=
  [.load Chain.nil, .appendNextBlock, .getLastBlock 0, .fetched 0, .build 0 oneTransaction, .commitBlock builtOnGenesis,
    .addBlock 0, .committed 0, .appendNextBlock, .build 1 oneTransaction]

def fresh (s : State sha256) : Action sha256 → Bool
  | .appendNextBlock => s.lastBlock.isNone || s.chain.any fun c => s.lastBlock = some c.tip
  | .getLastBlock _ => s.chain.isSome
  | _ => true

theorem fresh_of_check {s : State sha256} {a : Action sha256} (h : fresh s a = true) : Fresh s a := by
  cases a with
  | appendNextBlock =>
    rcases Bool.or_eq_true_iff.1 h with hn | hc
    · exact .inl (Option.isNone_iff_eq_none.1 hn)
    · obtain ⟨c, hc, ht⟩ := (Option.any_eq_true _ _).1 hc
      exact .inr ⟨c, hc, of_decide_eq_true ht⟩
  | getLastBlock i => exact Option.isSome_iff_exists.1 h
  | _ => trivial

def Phase.height : Phase → Option ℕ
  | .handed block => some block.header.height
  | _ => none

theorem run_buildTwice : ((Lts.run (Lts.guarded (step builderConfig .unsigned) fresh) init buildTwice).map
    fun s => s.builds.map fun b => b.phase.height) = some [some 1, some 2] := by
  decide +kernel

theorem handed_on_buildTwice : ∃ s, Lts.run (step builderConfig .unsigned) init buildTwice = some s ∧
    (s.builds.map fun b => b.phase.height) = [some 1, some 2] ∧ HandedOnTip s := by
  obtain ⟨s, hs, hb⟩ := Option.map_eq_some_iff.1 run_buildTwice
  obtain ⟨hrun, hg⟩ := Lts.of_guarded (fun _ _ => fresh_of_check) hs
  exact ⟨s, hrun, hb, handed_on_tip hg hrun⟩

/-- The builder has cached genesis; the storage gets a block from a peer, and the next build is on genesis again. -/
def staleCache : List (Action Sha256.hash) :=
  [.load Chain.nil, .appendNextBlock, .getLastBlock 0, .fetched 0, .build 0 emptyPool, .appendBlocks (firstBlock []).1,
    .appendNextBlock, .build 1 oneTransaction]

theorem run_staleCache : ((Lts.run (step builderConfig .unsigned) init staleCache).map
    fun s => decide (HandedOnTip s)) = some false := by
  decide +kernel

/-- **A cached last block goes stale when the storage syncs**: the builder hands on a block beside the stored one. -/
theorem stale_cache_off_tip : ∃ s, Lts.run (step builderConfig .unsigned) init staleCache = some s ∧
    ¬ HandedOnTip s := by
  obtain ⟨s, hs, hb⟩ := Option.map_eq_some_iff.1 run_staleCache
  exact ⟨s, hs, of_decide_eq_false hb⟩

end BlockBuilder
end Orbs
