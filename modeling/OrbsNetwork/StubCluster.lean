import OrbsNetwork.StubConsensus
import OrbsNetwork.BlockBuilder
/-!
# StubCluster — one leader and its followers

The leader's heartbeat ticks, its block builds and its commits overlap at their awaits; the followers append what
`CommitBlock` messages bring them.  A message that was sent stays in the network for ever, so it may be received late,
out of order, again, or never.  Each node's block storage is atomic: one `addBlock` is one `append` on its chain.

The leader broadcasts a block it has built whether or not its own storage took it.  In runs in which the storage does
take every block the leader built, each follower's chain is a prefix of the leader's (`followers_prefix`).
-/
namespace Orbs
namespace StubCluster

open BlockStorage HashChain StubConsensus

inductive Message where
  | commitBlock (block : Block)
  | myLastBlockHeight (follower : ℕ) (height : ℕ)

structure ClusterConfig where
  stub : StubConsensusConfig
  builder : BlockBuilder.BlockBuilderConfig
  leaderStorage : BlockStorageConfig
  followerStorage : ℕ → BlockStorageConfig

structure State (sha256 : Bytes → Bytes) where
  leader : BlockBuilder.State sha256
  /-- Heartbeat ticks whose `getLastBlock` the storage has answered. -/
  ticks : List Block
  lastBlockHeightByNodeName : JsMap ℕ ℕ
  followers : List (BlockChain sha256)
  /-- Followers whose `reportMyLastBlock` is under way. -/
  reports : List ℕ
  net : List Message

inductive Action where
  /-- The storage answers the `getLastBlock` of a new heartbeat tick. -/
  | heartbeat
  /-- A heartbeat tick gets that answer. -/
  | tick (i : ℕ)
  /-- The timer of the block builder fires. -/
  | poll
  | getLastBlock (i : ℕ)
  | fetched (i : ℕ)
  | build (i : ℕ) (answers : BlockBuilder.Answers)
  /-- The leader's storage runs the `addBlock` of a commit. -/
  | addBlock (j : ℕ)
  /-- A commit gets the storage's answer, and the block is broadcast. -/
  | committed (j : ℕ)
  /-- A follower receives a message of the network. -/
  | receive (follower : ℕ) (k : ℕ)
  | reportMyLastBlock (follower : ℕ)
  /-- The leader receives a message of the network. -/
  | leaderReceives (k : ℕ)

variable {sha256 : Bytes → Bytes}

/-- `onNewBlockBuild`: a block that a build hands on is committed at once. -/
def onNewBlockBuild (config : ClusterConfig) (i : ℕ) (leader : BlockBuilder.State sha256) :
    Option (BlockBuilder.State sha256) :=
  match leader.builds[i]? with
  | some { tips := _, phase := .handed block } =>
    BlockBuilder.step config.builder config.leaderStorage leader (.commitBlock block)
  | _ => some leader

def step (config : ClusterConfig) (s : State sha256) : Action → Option (State sha256)
  | .heartbeat => match s.leader.chain with
    | some c => some { s with ticks := s.ticks ++ [c.tip] }
    | none => none
  | .tick i => match s.ticks[i]? with
    | some block =>
      let s := { s with ticks := s.ticks.eraseIdx i }
      match onLeaderHeartbeatTick config.stub s.lastBlockHeightByNodeName (.ok (some block)) with
      | .start => (BlockBuilder.step config.builder config.leaderStorage s.leader .start).map fun leader => { s with leader }
      | .broadcastCommitBlock block => some { s with net := s.net ++ [.commitBlock block] }
      | .nothing => some s
    | none => none
  | .poll => if s.leader.polling then
      (BlockBuilder.step config.builder config.leaderStorage s.leader .appendNextBlock).map fun leader => { s with leader }
    else none
  | .getLastBlock i => (BlockBuilder.step config.builder config.leaderStorage s.leader (.getLastBlock i)).map fun leader =>
      { s with leader }
  | .fetched i => (BlockBuilder.step config.builder config.leaderStorage s.leader (.fetched i)).map fun leader =>
      { s with leader }
  | .build i answers => ((BlockBuilder.step config.builder config.leaderStorage s.leader (.build i answers)).bind
      (onNewBlockBuild config i)).map fun leader => { s with leader }
  | .addBlock j => (BlockBuilder.step config.builder config.leaderStorage s.leader (.addBlock j)).map fun leader =>
      { s with leader }
  -- `onCommitted` swallows the error of a rejected commit, so the broadcast follows in any case.
  | .committed j => match s.leader.commits[j]? with
    | some { block, phase := _ } =>
      (BlockBuilder.step config.builder config.leaderStorage s.leader (.committed j)).map fun leader =>
        { s with leader, net := s.net ++ [.commitBlock block] }
    | none => none
  | .receive f k => match s.followers[f]?, s.net[k]? with
    | some c, some (.commitBlock block) =>
      some { s with followers := s.followers.set f ((append (config.followerStorage f) c block).getD c)
                    reports := f :: s.reports }
    | _, _ => none
  | .reportMyLastBlock f => if f ∈ s.reports then
      (s.followers[f]?).map fun c =>
        { s with reports := s.reports.erase f, net := s.net ++ [.myLastBlockHeight f c.tip.header.height] }
    else none
  | .leaderReceives k => match s.net[k]? with
    | some (.myLastBlockHeight f height) =>
      some { s with lastBlockHeightByNodeName := s.lastBlockHeightByNodeName.set f height }
    | _ => none

def start (n : ℕ) : State sha256 where
  leader := { (BlockBuilder.init : BlockBuilder.State sha256) with chain := some Chain.nil }
  ticks := []
  lastBlockHeightByNodeName := .empty
  followers := List.replicate n Chain.nil
  reports := []
  net := []

/-- Where the leader commits what it broadcasts: its storage takes each block that it built, or has that block. -/
def Commits (config : ClusterConfig) (s : State sha256) : Action → Prop
  | .addBlock j => ∀ commit c, s.leader.commits[j]? = some commit → s.leader.chain = some c →
      verifyNewBlock sha256 config.leaderStorage (some c.tip) commit.block = .ok () ∨ commit.block ∈ c.blocks
  | _ => True

/-! ## The invariant: what is broadcast is in the leader's chain -/

variable {config : ClusterConfig}

structure Inv (c : BlockChain sha256) (s : State sha256) : Prop where
  chain : s.leader.chain = some c
  net : ∀ block, .commitBlock block ∈ s.net → block ∈ c.blocks
  ticks : ∀ block ∈ s.ticks, block ∈ c.blocks
  commits : ∀ m ∈ s.leader.commits, m.phase = .sent ∨ m.block ∈ c.blocks
  followers : ∀ f ∈ s.followers, f.blocks <+: c.blocks

theorem append_of_mem {storage : BlockStorageConfig} {c f d : BlockChain sha256} {block : Block}
    (hp : f.blocks <+: c.blocks) (hb : block ∈ c.blocks) (hd : append storage f block = some d) :
    d.blocks <+: c.blocks := by
  obtain ⟨hn, rfl⟩ := append_eq_some hd
  obtain ⟨i, hi⟩ := List.mem_iff_getElem?.1 hb
  -- The block that follows the follower's tip has the index of that place in the leader's chain.
  have hidx : i = f.blocks.length := by
    have h1 : block.header.height = f.tip.header.height + 1 := hn.1
    rw [height_eq c hi, height_tip] at h1
    rw [Chain.length_blocks, h1]
  subst hidx
  obtain ⟨rest, hrest⟩ := hp
  rw [← hrest, List.getElem?_append_right le_rfl, Nat.sub_self] at hi
  cases rest with
  | nil => cases hi
  | cons b rest =>
    cases hi
    exact ⟨rest, by rw [Chain.blocks_push, ← hrest, List.append_assoc]; rfl⟩

namespace Inv

variable {s : State sha256} {c : BlockChain sha256}

theorem setLeader (h : Inv c s) {leader : BlockBuilder.State sha256} (hc : leader.chain = s.leader.chain)
    (hm : ∀ m ∈ leader.commits, m.phase = .sent ∨ m.block ∈ c.blocks) : Inv c { s with leader } :=
  ⟨hc.trans h.chain, h.net, h.ticks, hm, h.followers⟩

theorem building (h : Inv c s) {a : BlockBuilder.Action sha256} (ha : a.isBuilding = true)
    {leader : BlockBuilder.State sha256}
    (hs : BlockBuilder.step config.builder config.leaderStorage s.leader a = some leader) : Inv c { s with leader } := by
  obtain ⟨hc, hm⟩ := BlockBuilder.step_isBuilding ha hs
  exact h.setLeader hc (by rw [hm]; exact h.commits)

theorem onNewBlockBuild (h : Inv c s) {i : ℕ} {leader : BlockBuilder.State sha256}
    (hs : StubCluster.onNewBlockBuild config i s.leader = some leader) : Inv c { s with leader } := by
  unfold StubCluster.onNewBlockBuild at hs
  split at hs <;> cases hs
  · refine h.setLeader rfl fun m hm => ?_
    rcases List.mem_append.1 hm with hm | hm
    · exact h.commits m hm
    · rw [List.mem_singleton.1 hm]
      exact .inl rfl
  · exact h

theorem send (h : Inv c s) {block : Block} (hb : block ∈ c.blocks) :
    Inv c { s with net := s.net ++ [.commitBlock block] } := by
  refine ⟨h.chain, fun b hm => ?_, h.ticks, h.commits, h.followers⟩
  rcases List.mem_append.1 hm with hm | hm
  · exact h.net b hm
  · cases List.mem_singleton.1 hm
    exact hb

theorem addBlock (h : Inv c s) {j : ℕ} (hg : Commits config s (.addBlock j)) {leader : BlockBuilder.State sha256}
    (hs : BlockBuilder.step config.builder config.leaderStorage s.leader (.addBlock j) = some leader) :
    ∃ d, Inv d { s with leader } := by
  rw [BlockBuilder.step] at hs
  split at hs
  case h_2 => cases hs
  rename_i block hj
  split at hs <;> cases hs
  · rename_i d hd
    rw [h.chain, Option.bind_some] at hd
    have hp := append_prefix hd
    obtain ⟨hn, rfl⟩ := append_eq_some hd
    refine ⟨_, rfl, fun b hb => hp.subset (h.net b hb), fun b hb => hp.subset (h.ticks b hb), fun m hm => ?_,
      fun f hf => (h.followers f hf).trans hp⟩
    rcases List.mem_or_eq_of_mem_set hm with hm | rfl
    · exact (h.commits m hm).imp_right fun hb => hp.subset hb
    · exact .inr (by simp)
  · rename_i hd
    refine ⟨c, h.chain, h.net, h.ticks, fun m hm => ?_, h.followers⟩
    rcases List.mem_or_eq_of_mem_set hm with hm | rfl
    · exact h.commits m hm
    · rcases hg _ c hj h.chain with hv | hb
      · rw [h.chain, Option.bind_some, append_of_ok hv] at hd
        cases hd
      · exact .inr hb

end Inv

/-- **One step of a leader that commits what it broadcasts** keeps everything it broadcast in its chain. -/
theorem step_inv {s s' : State sha256} {a : Action} {c : BlockChain sha256} (hs : Inv c s) (hg : Commits config s a)
    (h : step config s a = some s') : ∃ d, Inv d s' := by
  cases a with
  | heartbeat =>
    rw [step, hs.chain] at h
    cases h
    refine ⟨c, hs.chain, hs.net, fun b hb => ?_, hs.commits, hs.followers⟩
    rcases List.mem_append.1 hb with hb | hb
    · exact hs.ticks b hb
    · rw [List.mem_singleton.1 hb]
      exact c.tip_mem
  | tick i =>
    rw [step] at h
    split at h
    case h_2 => cases h
    rename_i block hi
    have hmem := hs.ticks block (List.mem_of_getElem? hi)
    have hs' : Inv c { s with ticks := s.ticks.eraseIdx i } :=
      ⟨hs.chain, hs.net, fun b hb => hs.ticks b (List.mem_of_mem_eraseIdx hb), hs.commits, hs.followers⟩
    dsimp only at h
    split at h
    · obtain ⟨leader, hl, rfl⟩ := Option.map_eq_some_iff.1 h
      exact ⟨c, hs'.building rfl hl⟩
    · rename_i b hb
      cases h
      obtain rfl : block = b := by
        rw [onLeaderHeartbeatTick] at hb
        split at hb <;> cases hb
        rfl
      exact ⟨c, hs'.send hmem⟩
    · cases h
      exact ⟨c, hs'⟩
  | poll =>
    rw [step] at h
    split at h
    · obtain ⟨leader, hl, rfl⟩ := Option.map_eq_some_iff.1 h
      exact ⟨c, hs.building rfl hl⟩
    · cases h
  | getLastBlock i =>
    obtain ⟨leader, hl, rfl⟩ := Option.map_eq_some_iff.1 h
    exact ⟨c, hs.building rfl hl⟩
  | fetched i =>
    obtain ⟨leader, hl, rfl⟩ := Option.map_eq_some_iff.1 h
    exact ⟨c, hs.building rfl hl⟩
  | build i answers =>
    obtain ⟨leader, hl, rfl⟩ := Option.map_eq_some_iff.1 h
    obtain ⟨built, hb, hl⟩ := Option.bind_eq_some_iff.1 hl
    exact ⟨c, (hs.building rfl hb).onNewBlockBuild hl⟩
  | addBlock j =>
    obtain ⟨leader, hl, rfl⟩ := Option.map_eq_some_iff.1 h
    exact hs.addBlock hg hl
  | committed j =>
    rw [step] at h
    split at h
    case h_2 => cases h
    rename_i block phase hj
    obtain ⟨leader, hl, rfl⟩ := Option.map_eq_some_iff.1 h
    rw [BlockBuilder.step] at hl
    split at hl <;> cases hl
    rename_i block' resolved hj'
    rw [hj'] at hj
    cases hj
    have hb : block ∈ c.blocks := (hs.commits _ (List.mem_of_getElem? hj')).resolve_left (by simp)
    have hsent : ∀ m ∈ s.leader.commits.set j { block, phase := .done }, m.phase = .sent ∨ m.block ∈ c.blocks := by
      intro m hm
      rcases List.mem_or_eq_of_mem_set hm with hm | rfl
      · exact hs.commits m hm
      · exact .inr hb
    have hl : Inv c { s with leader := { s.leader with
        lastBlock := if resolved then some block else s.leader.lastBlock
        commits := s.leader.commits.set j { block, phase := .done } } } := hs.setLeader rfl hsent
    exact ⟨c, hl.send hb⟩
  | receive f k =>
    rw [step] at h
    split at h <;> cases h
    rename_i chain block hf hk
    refine ⟨c, hs.chain, hs.net, hs.ticks, hs.commits, fun d hd => ?_⟩
    have hp := hs.followers _ (List.mem_of_getElem? hf)
    rcases List.mem_or_eq_of_mem_set hd with hd | rfl
    · exact hs.followers d hd
    · cases ha : append (config.followerStorage f) chain block with
      | none => exact hp
      | some d => exact append_of_mem hp (hs.net block (List.mem_of_getElem? hk)) ha
  | reportMyLastBlock f =>
    rw [step] at h
    split at h
    case isFalse => cases h
    obtain ⟨chain, -, rfl⟩ := Option.map_eq_some_iff.1 h
    refine ⟨c, hs.chain, fun b hb => ?_, hs.ticks, hs.commits, hs.followers⟩
    rcases List.mem_append.1 hb with hb | hb
    · exact hs.net b hb
    · cases List.mem_singleton.1 hb
  | leaderReceives k =>
    rw [step] at h
    split at h <;> cases h
    exact ⟨c, hs.chain, hs.net, hs.ticks, hs.commits, hs.followers⟩

theorem inv_start (n : ℕ) : Inv (Chain.nil : BlockChain sha256) (start n) where
  chain := rfl
  net _ h := (List.not_mem_nil h).elim
  ticks _ h := (List.not_mem_nil h).elim
  commits _ h := (List.not_mem_nil h).elim
  followers f h := by rw [(List.mem_replicate.1 h).2]

/-- Every follower's chain is a prefix of the leader's. -/
def Agree (s : State sha256) : Prop :=
  ∃ c, s.leader.chain = some c ∧ ∀ f ∈ s.followers, f.blocks <+: c.blocks

/-- **The followers agree with the leader**: in a run in which the leader's storage takes every block that the leader
built, each follower's stored chain is a prefix of the leader's. -/
theorem followers_prefix {n : ℕ} {as : List Action} {s : State sha256}
    (hg : Lts.Meets (step config) (Commits config) (start n : State sha256) as)
    (hs : Lts.run (step config) (start n) as = some s) : Agree s := by
  have hi : ∃ c, Inv c s := Lts.run_inv (I := fun s => ∃ c, Inv c s)
    (fun _ _ _ ⟨_, hi⟩ hg h => step_inv hi hg h) ⟨_, inv_start n⟩ hg hs
  obtain ⟨c, hi⟩ := hi
  exact ⟨c, hi.chain, hi.followers⟩

/-! ## A leader with one follower -/

def oneFollower : ClusterConfig where
  stub := { clusterSize := 2, acceptableUnsyncedNodes := 1 }
  builder := BlockBuilder.builderConfig
  leaderStorage := .unsigned
  followerStorage _ := .unsigned

def pending (payload : Js.Str) : BlockBuilder.Answers where
  getAllPendingTransactions := .ok [{ txHash := [], transaction :=
    { header := { version := 0, sender := [], timestamp := [], contractAddress := [] }, payload,
      signatureData := none } }]
  processTransactionSet := .ok ([], [])

def agrees (s : State sha256) : Bool :=
  match s.leader.chain with
  | some c => s.followers.all fun f => f.blocks.isPrefixOf c.blocks
  | none => false

theorem Agree.agrees {s : State sha256} (h : Agree s) : agrees s = true := by
  obtain ⟨c, hc, hf⟩ := h
  rw [StubCluster.agrees, hc, List.all_eq_true]
  exact fun f hm => List.isPrefixOf_iff_prefix.2 (hf f hm)

def oneBlock : List Action :=
  [.heartbeat, .tick 0, .poll, .getLastBlock 0, .fetched 0, .build 0 (pending []), .addBlock 0, .committed 0,
    .receive 0 0, .reportMyLastBlock 0, .leaderReceives 1]

def commits (config : ClusterConfig) (s : State sha256) : Action → Bool
  | .addBlock j => match s.leader.commits[j]?, s.leader.chain with
    | some m, some c => (append config.leaderStorage c m.block).isSome
    | _, _ => true
  | _ => true

theorem commits_of_commits {s : State sha256} {a : Action} (h : commits config s a = true) : Commits config s a := by
  cases a with
  | addBlock j =>
    intro m c hm hc
    simp only [commits, hm, hc] at h
    obtain ⟨d, hd⟩ := Option.isSome_iff_exists.1 h
    exact .inl (verify_of_append hd)
  | _ => trivial

theorem checks_oneBlock : Lts.checks (step oneFollower) (commits oneFollower) (start 1 : State Sha256.hash) oneBlock = true ∧
    ((Lts.run (step oneFollower) (start 1 : State Sha256.hash) oneBlock).map
      fun s => s.followers.map fun f => f.rest.length) = some [1] := by
  decide +kernel

theorem followers_prefix_oneBlock : ∃ s : State Sha256.hash, Lts.run (step oneFollower) (start 1) oneBlock = some s ∧
    (s.followers.map fun f => f.rest.length) = [1] ∧ Agree s := by
  obtain ⟨s, hs, hf⟩ := Option.map_eq_some_iff.1 checks_oneBlock.2
  exact ⟨s, hs, hf, followers_prefix (Lts.meets_of_checks (fun _ _ h => commits_of_commits h) checks_oneBlock.1) hs⟩

/-- While the first block is being built, another heartbeat starts a second build on the same last block. -/
def twoBuilds : List Action :=
  [.heartbeat, .tick 0, .poll, .getLastBlock 0, .fetched 0, .heartbeat, .tick 0, .poll, .build 0 (pending []),
    .build 1 (pending ['1']), .addBlock 0, .committed 0, .addBlock 1, .committed 1, .receive 0 1]

theorem run_twoBuilds : ((Lts.run (step oneFollower) (start 1 : State Sha256.hash) twoBuilds).map agrees) =
    some false := by
  decide +kernel

/-- **The leader broadcasts a block that its storage rejected**, and the follower stores it. -/
theorem rejected_block_stored : ∃ s : State Sha256.hash, Lts.run (step oneFollower) (start 1) twoBuilds = some s ∧
    ¬ Agree s := by
  obtain ⟨s, hs, ha⟩ := Option.map_eq_some_iff.1 run_twoBuilds
  refine ⟨s, hs, fun h => ?_⟩
  rw [h.agrees] at ha
  cases ha

end StubCluster
end Orbs
