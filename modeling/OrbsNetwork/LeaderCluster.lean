import OrbsNetwork.LeaderNode
import OrbsNetwork.BenchmarkConsensus
/-!
# LeaderCluster — successive leaders on one log

Every node has a pool of its own, and any of them may lead, two at a time if the consensus cannot tell.  A leader hands
the blocks that it builds to the consensus, which puts them on a log; every node asks its storage to add the blocks of
the log in turn, the last one of a batch once more with the next batch, and gets others by sync from its peers.

A client's transaction is gossiped to every pool, and a block that was built on an older one is on the log beside one
that took its place.  All nodes still hold one chain, the one of a walk over the log, and no transaction is in two
blocks of it, whichever leaders built them (`logged_once`).
-/
namespace Orbs
namespace LeaderCluster

open Js BlockStorage HashChain
open BlockBuilder (Source)
open BlockCommit (ids)
open BenchmarkConsensus (walk walk_concat take_succ_eq take_append_of_le)
open LeaderNode (NodeConfig Fit Once added)
open TransactionPool (sampleCrypto sampleTransaction sampleTime)

structure State (ι : Type) (sha256 : Bytes → Bytes) where
  node : ι → LeaderNode.State sha256
  /-- The committed log. -/
  log : List WireBlock
  /-- How far on the log a node's storage has been asked. -/
  asked : ι → ℕ

inductive Action (ι : Type) (sha256 : Bytes → Bytes) where
  | node (i : ι) (a : LeaderNode.Action sha256)
  /-- A block that a leader has built gets onto the log. -/
  | append (i : ι) (block : WireBlock)
  /-- A node asks its storage to add entry `m` of the log. -/
  | commit (i : ι) (m j : ℕ)
  /-- A block of the storage of node `j` is sent to that of node `i`. -/
  | sync (i j : ι) (block : Block)

/-- The nodes have loaded the same chain. -/
def start {ι : Type} {sha256 : Bytes → Bytes} (now : ι → Time) (c₀ : BlockChain sha256) : State ι sha256 where
  node := fun i => LeaderNode.start (now i) c₀
  log := []
  asked := fun _ => 0

section
variable {ι : Type} [DecidableEq ι] {crypto : Crypto} (cfg : ι → NodeConfig crypto)

def step (s : State ι crypto.sha256) : Action ι crypto.sha256 → Option (State ι crypto.sha256)
  | .node i a =>
    if a.isAddBlock then none
    else (LeaderNode.step (cfg i) (s.node i) a).map fun n => { s with node := Function.update s.node i n }
  | .append i block => if block.1 ∈ (s.node i).builder.handed then some { s with log := s.log ++ [block] } else none
  | .commit i m j =>
    if m ≤ s.asked i ∧ (Source.commit j).block? (s.node i).builder = s.log[m]?.map Subtype.val then
      (LeaderNode.step (cfg i) (s.node i) (.addBlock (.commit j))).map fun n =>
        { s with node := Function.update s.node i n, asked := Function.update s.asked i (max (s.asked i) (m + 1)) }
    else none
  | .sync i j block =>
    if (s.node j).builder.chain.any fun c => block ∈ c.rest then
      (LeaderNode.step (cfg i) (s.node i) (.addBlock (.sync block))).map fun n =>
        { s with node := Function.update s.node i n }
    else none

/-- The pools are prompt, and no storage swallows a commit that it will not take. -/
def Orderly (c₀ : BlockChain crypto.sha256) (s : State ι crypto.sha256) : Action ι crypto.sha256 → Prop
  | .node i a => LeaderNode.Orderly (cfg i) c₀ (s.node i) a
  | .commit i _ j => (Source.commit j).Told (cfg i).storage (s.node i).builder
  | _ => True

end

/-! ## The chain of the log -/

section
variable {crypto : Crypto} {storage : BlockStorageConfig} {c₀ c d : BlockChain crypto.sha256}

theorem walk_longer (c₀ : BlockChain crypto.sha256) (log : List WireBlock) : c₀.rest <+: (walk storage c₀ log).rest := by
  induction log using List.reverseRecOn with
  | nil => exact List.prefix_rfl
  | append_singleton log e ih =>
    rw [walk_concat]
    cases h : append storage (walk storage c₀ log) e.1 with
    | none => exact ih
    | some d =>
      rw [Option.getD_some, BlockBuilder.rest_of_append h]
      exact ih.trans (List.prefix_append _ _)

theorem walk_append (c₀ : BlockChain crypto.sha256) (log log' : List WireBlock) :
    walk storage c₀ (log ++ log') = walk storage (walk storage c₀ log) log' := List.foldl_append

theorem walk_mono {log log' : List WireBlock} (h : log <+: log') :
    (walk storage c₀ log).rest <+: (walk storage c₀ log').rest := by
  obtain ⟨l, rfl⟩ := h
  rw [walk_append]
  exact walk_longer _ l

theorem chain_eq_of_le (h : c.rest <+: d.rest) (hl : d.rest.length ≤ c.rest.length) : c = d :=
  Chain.ext (h.eq_of_length (Nat.le_antisymm h.length_le hl))

theorem added_mono (c₀ : BlockChain crypto.sha256) (h : c.rest <+: d.rest) : added c₀ c <+: added c₀ d := by
  obtain ⟨l, hl⟩ := h
  unfold added
  rw [← hl, List.drop_append]
  exact List.prefix_append _ _

/-- What fits a chain fits a shorter one. -/
theorem fit_shorter {b : Block} (h : Fit crypto c₀ d b) (hp : c.rest <+: d.rest) : Fit crypto c₀ c b where
  made := h.made
  fresh := fun b' hb' => h.fresh b' ((added_mono c₀ hp).subset hb')

theorem height_of_added {i : ℕ} {b : Block} (h : (added c₀ c)[i]? = some b) :
    b.header.height = c₀.rest.length + i + 1 := by
  unfold added at h
  rw [List.getElem?_drop] at h
  exact height_eq c (i := c₀.rest.length + i + 1) h

/-- What fits a chain on which, or in which, it is built fits a longer one. -/
theorem fit_longer {b : Block} (h : Fit crypto c₀ c b) (h₀ : c₀.rest <+: c.rest) (hp : c.rest <+: d.rest)
    (hh : b.header.height ≤ c.rest.length + 1) : Fit crypto c₀ d b where
  made := h.made
  fresh := fun b' hb' hlt => by
    obtain ⟨i, hi⟩ := List.mem_iff_getElem?.1 hb'
    have hheight := height_of_added hi
    have hlen : i < (added c₀ c).length := by
      unfold added
      rw [List.length_drop]
      have := h₀.length_le
      omega
    refine h.fresh b' (List.mem_iff_getElem?.2 ⟨i, ?_⟩) hlt
    obtain ⟨l, hl⟩ := added_mono c₀ hp
    rw [← hl, List.getElem?_append_left hlen] at hi
    exact hi

/-- Every entry of a log was built on the chain of the log before it, or on one of the blocks of it. -/
def Built (crypto : Crypto) (storage : BlockStorageConfig) (c₀ : BlockChain crypto.sha256) (log : List WireBlock) : Prop :=
  ∀ m e, log[m]? = some e →
    e.1.header.height ≤ (walk storage c₀ (log.take m)).rest.length + 1 ∧ Fit crypto c₀ (walk storage c₀ (log.take m)) e.1

theorem built_concat {log : List WireBlock} {e : WireBlock} : Built crypto storage c₀ (log ++ [e]) ↔
    Built crypto storage c₀ log ∧ e.1.header.height ≤ (walk storage c₀ log).rest.length + 1 ∧
      Fit crypto c₀ (walk storage c₀ log) e.1 := by
  constructor
  · refine fun h => ⟨fun m e' hm => ?_, ?_⟩
    · have hlt := (List.getElem?_eq_some_iff.1 hm).1
      have := h m e' ((List.getElem?_append_left hlt).trans hm)
      rwa [take_append_of_le _ _ hlt.le] at this
    · have := h log.length e List.getElem?_concat_length
      rwa [List.take_left] at this
  · rintro ⟨hb, he⟩ m e' hm
    rcases Nat.lt_or_ge m log.length with hlt | hge
    · rw [take_append_of_le _ _ hlt.le]
      exact hb m e' ((List.getElem?_append_left hlt).symm.trans hm)
    · obtain rfl : m = log.length := by
        have := (List.getElem?_eq_some_iff.1 hm).1
        rw [List.length_append, List.length_singleton] at this
        omega
      rw [List.getElem?_concat_length] at hm
      cases hm
      rwa [List.take_left]

/-- What a walk over a built log puts on a chain. -/
structure Walked (crypto : Crypto) (c₀ c : BlockChain crypto.sha256) : Prop where
  fit : ∀ b ∈ added c₀ c, Fit crypto c₀ c b
  nodup : ((added c₀ c).flatMap (ids crypto)).Nodup

/-- **The chain of a built log has no transaction twice.** -/
theorem walked_of_built {log : List WireBlock} (h : Built crypto storage c₀ log) :
    Walked crypto c₀ (walk storage c₀ log) := by
  induction log using List.reverseRecOn with
  | nil =>
    have hnil : added c₀ (walk storage c₀ []) = [] := LeaderNode.added_self c₀
    refine ⟨fun b hb => ?_, ?_⟩
    · rw [hnil] at hb
      cases hb
    · rw [hnil]
      exact .nil
  | append_singleton log e ih =>
    obtain ⟨hb, -, hfit⟩ := built_concat.1 h
    have hw := ih hb
    rw [walk_concat]
    cases ha : append storage (walk storage c₀ log) e.1 with
    | none => exact hw
    | some d =>
      rw [Option.getD_some]
      have h₀ : c₀.rest <+: (walk storage c₀ log).rest := walk_longer c₀ log
      have hadd := LeaderNode.added_append h₀ ha
      have htip := (BlockBuilder.tip_of_append ha).2
      rw [height_tip] at htip
      have hlonger : ∀ b, Fit crypto c₀ (walk storage c₀ log) b →
          b.header.height ≤ (walk storage c₀ log).rest.length + 1 → Fit crypto c₀ d b := by
        intro b hfit hh
        refine hfit.append h₀ ha ?_
        rwa [height_tip]
      refine ⟨fun b hm => ?_, ?_⟩
      · rw [hadd, List.mem_append, List.mem_singleton] at hm
        rcases hm with hold | rfl
        · have := LeaderNode.height_le_of_mem_added hold
          rw [height_tip] at this
          exact hlonger b (hw.fit b hold) (by omega)
        · exact hlonger e.1 hfit (by omega)
      · rw [hadd, List.flatMap_append, List.flatMap_singleton]
        refine List.nodup_append.2 ⟨hw.nodup, hfit.made.nodup, fun a ha' b hb' hab => ?_⟩
        rw [hab] at ha'
        exact hfit.disjoint (BlockBuilder.tip_of_append ha).2 hb' ha'

end

/-! ## The nodes -/

section
variable {ι : Type} [DecidableEq ι] {crypto : Crypto} {cfg : ι → NodeConfig crypto} {storage : BlockStorageConfig}
  {c₀ c : BlockChain crypto.sha256}

/-- The chain with the block that is being added. -/
def soon {sha256 : Bytes → Bytes} (c : BlockChain sha256) (n : LeaderNode.State sha256) : List Block :=
  c.rest ++ (n.adding.map LeaderNode.Adding.block).toList

theorem soon_of_none {n : LeaderNode.State crypto.sha256} (h : n.adding = none) : soon c n = c.rest := by
  unfold soon
  rw [h, Option.map_none, Option.toList_none, List.append_nil]

/-- **All steps but `addBlock`** leave what a node will soon have. -/
theorem soon_step {cfg : NodeConfig crypto} {n n' : LeaderNode.State crypto.sha256} {a : LeaderNode.Action crypto.sha256}
    (hi : LeaderNode.Inv cfg c₀ c n) (hg : LeaderNode.Orderly cfg c₀ n a) (ha : a.isAddBlock = false)
    (h : LeaderNode.step cfg n a = some n') : ∃ d, LeaderNode.Inv cfg c₀ d n' ∧ soon d n' = soon c n := by
  cases a with
  | pool a =>
    refine ⟨c, LeaderNode.inv_pool hi hg h, ?_⟩
    obtain ⟨-, pool, -, rfl⟩ := LeaderNode.step_pool h
    rfl
  | builder a =>
    refine ⟨c, LeaderNode.inv_builder hi h, ?_⟩
    obtain ⟨-, builder, -, rfl⟩ := LeaderNode.step_builder h
    rfl
  | build i code stateStorage =>
    refine ⟨c, LeaderNode.inv_build hi h, ?_⟩
    obtain ⟨builder, -, rfl⟩ := LeaderNode.step_build h
    rfl
  | addBlock source => cases ha
  | mark =>
    refine ⟨c, LeaderNode.inv_mark hi h, ?_⟩
    obtain ⟨source, block, own, pool, hadd, -, rfl⟩ := LeaderNode.step_mark h
    unfold soon
    rw [hadd]
    rfl
  | clear =>
    refine ⟨c, LeaderNode.inv_clear hi h, ?_⟩
    obtain ⟨source, block, own, pool, hadd, -, rfl⟩ := LeaderNode.step_clear h
    unfold soon
    rw [hadd]
    rfl
  | land =>
    obtain ⟨a, d, ha, hd, hn, hi'⟩ := LeaderNode.inv_land hi h
    refine ⟨d, hi', ?_⟩
    rw [soon_of_none hn, BlockBuilder.rest_of_append hd]
    unfold soon
    rw [ha]
    rfl

/-- A node has, or is adding, all that the entries that it was asked for give, and nothing that the log does not give. -/
structure NodeInv (cfg : NodeConfig crypto) (storage : BlockStorageConfig) (c₀ c : BlockChain crypto.sha256)
    (log : List WireBlock) (asked : ℕ) (n : LeaderNode.State crypto.sha256) : Prop where
  node : LeaderNode.Inv cfg c₀ c n
  ahead : (walk storage c₀ (log.take asked)).rest <+: soon c n
  behind : soon c n <+: (walk storage c₀ log).rest
  asked : asked ≤ log.length

structure Inv (cfg : ι → NodeConfig crypto) (storage : BlockStorageConfig) (c₀ : BlockChain crypto.sha256)
    (s : State ι crypto.sha256) : Prop where
  nodes : ∀ i, ∃ c, NodeInv (cfg i) storage c₀ c s.log (s.asked i) (s.node i)
  built : Built crypto storage c₀ s.log

omit [DecidableEq ι] in
theorem inv_start (now : ι → Time) : Inv cfg storage c₀ (start now c₀) where
  nodes := fun i => ⟨c₀, {
    node := LeaderNode.inv_start (now i)
    ahead := by
      rw [soon_of_none rfl]
      exact List.prefix_rfl
    behind := by
      rw [soon_of_none rfl]
      exact List.prefix_rfl
    asked := le_rfl }⟩
  built := fun m e h => by cases h

theorem NodeInv.le_behind {cfg : NodeConfig crypto} {log : List WireBlock} {asked : ℕ}
    {n : LeaderNode.State crypto.sha256} (hi : NodeInv cfg storage c₀ c log asked n) :
    c.rest <+: (walk storage c₀ log).rest :=
  (List.prefix_append _ _).trans hi.behind

theorem inv_append {s s' : State ι crypto.sha256} {i : ι} {block : WireBlock} (hi : Inv cfg storage c₀ s)
    (h : step cfg s (.append i block) = some s') : Inv cfg storage c₀ s' := by
  simp only [step] at h
  split_ifs at h with hb
  cases h
  obtain ⟨c, hc⟩ := hi.nodes i
  have hheight := hc.node.grounded.handed hb
  rw [height_tip] at hheight
  have hbehind := hc.le_behind
  refine ⟨fun j => ?_, built_concat.2 ⟨hi.built, ?_, ?_⟩⟩
  · obtain ⟨d, hd⟩ := hi.nodes j
    refine ⟨d, hd.node, ?_, ?_, ?_⟩
    · rw [take_append_of_le _ _ hd.asked]
      exact hd.ahead
    · exact hd.behind.trans (walk_mono (List.prefix_append _ _))
    · rw [List.length_append]
      exact Nat.le_add_right_of_le hd.asked
  · have := hbehind.length_le
    omega
  · exact fit_longer (hc.node.handed _ hb) hc.node.longer hbehind hheight

/-- One node has taken a step. -/
theorem inv_update {s : State ι crypto.sha256} {i : ι} {n : LeaderNode.State crypto.sha256} {asked : ℕ}
    (hi : Inv cfg storage c₀ s) (hn : ∃ d, NodeInv (cfg i) storage c₀ d s.log asked n) :
    Inv cfg storage c₀
      { s with node := Function.update s.node i n, asked := Function.update s.asked i asked } where
  nodes := fun j => by
    dsimp only
    by_cases hj : j = i
    · subst hj
      rw [Function.update_self, Function.update_self]
      exact hn
    · rw [Function.update_of_ne hj, Function.update_of_ne hj]
      exact hi.nodes j
  built := hi.built

theorem inv_update_node {s : State ι crypto.sha256} {i : ι} {n : LeaderNode.State crypto.sha256}
    (hi : Inv cfg storage c₀ s) (hn : ∃ d, NodeInv (cfg i) storage c₀ d s.log (s.asked i) n) :
    Inv cfg storage c₀ { s with node := Function.update s.node i n } := by
  have h := inv_update hi hn
  rwa [Function.update_eq_self] at h

theorem inv_node {s s' : State ι crypto.sha256} {i : ι} {a : LeaderNode.Action crypto.sha256}
    (hi : Inv cfg storage c₀ s) (hg : LeaderNode.Orderly (cfg i) c₀ (s.node i) a)
    (h : step cfg s (.node i a) = some s') : Inv cfg storage c₀ s' := by
  simp only [step] at h
  split_ifs at h with ha
  obtain ⟨n, hn, rfl⟩ := Option.map_eq_some_iff.1 h
  obtain ⟨c, hc⟩ := hi.nodes i
  obtain ⟨d, hd, hsoon⟩ := soon_step hc.node hg (Bool.eq_false_iff.2 ha) hn
  exact inv_update_node hi ⟨d, hd, hsoon ▸ hc.ahead, hsoon ▸ hc.behind, hc.asked⟩

/-- **A node that asks its storage for an entry**: the entry is the next block of the log's chain, or it is refused. -/
theorem nodeInv_commit {cfg : NodeConfig crypto} {log : List WireBlock} {asked m j : ℕ} {e : WireBlock}
    {n n' : LeaderNode.State crypto.sha256} (hs : cfg.storage = storage) (hb : Built crypto storage c₀ log)
    (hi : NodeInv cfg storage c₀ c log asked n) (hm : m ≤ asked) (he : log[m]? = some e)
    (hsource : (Source.commit j).block? n.builder = some e.1) (hg : (Source.commit j).Told cfg.storage n.builder)
    (h : LeaderNode.step cfg n (.addBlock (.commit j)) = some n') :
    NodeInv cfg storage c₀ c log (max asked (m + 1)) n' := by
  subst hs
  have hlt := (List.getElem?_eq_some_iff.1 he).1
  obtain ⟨hheight, hfit⟩ := hb m e he
  obtain ⟨hn, block, c', hblock, hc, hcases⟩ := LeaderNode.step_addBlock h
  rw [hsource] at hblock
  cases hblock
  rw [hi.node.chain] at hc
  cases hc
  have hsoon := soon_of_none (c := c) hn
  have hahead := hi.ahead
  rw [hsoon] at hahead
  have hwalk : (walk cfg.storage c₀ (log.take m)).rest <+: c.rest :=
    (walk_mono (List.take_prefix_take_left hm)).trans hahead
  have hnext : walk cfg.storage c₀ (log.take (m + 1)) =
      (append cfg.storage (walk cfg.storage c₀ (log.take m)) e.1).getD (walk cfg.storage c₀ (log.take m)) := by
    rw [take_succ_eq he, walk_concat]
  -- what is accepted was built on this very chain
  have hsame : ∀ d, append cfg.storage c e.1 = some d → c = walk cfg.storage c₀ (log.take m) := by
    intro d hd
    have htip := (BlockBuilder.tip_of_append hd).2
    rw [height_tip] at htip
    exact (chain_eq_of_le hwalk (by omega)).symm
  have hinv : LeaderNode.Inv cfg c₀ c n' := by
    refine LeaderNode.inv_addBlock hi.node ⟨hg, fun block c' hblock hc hne => .inr ?_⟩ h
    rw [hsource] at hblock
    cases hblock
    rw [hi.node.chain] at hc
    cases hc
    obtain ⟨d, hd⟩ := Option.ne_none_iff_exists'.1 hne
    rw [hsame d hd]
    exact hfit
  have hlog : (walk cfg.storage c₀ (log.take (m + 1))).rest <+: (walk cfg.storage c₀ log).rest :=
    walk_mono <| List.take_prefix (m + 1) log
  rcases hcases with ⟨⟨d, hd⟩, rfl⟩ | ⟨hd, builder, -, rfl⟩
  · have hd' : walk cfg.storage c₀ (log.take (m + 1)) = d := by
      rw [hnext, ← hsame d hd, hd, Option.getD_some]
    have hrest := BlockBuilder.rest_of_append hd
    have hmax : max asked (m + 1) = m + 1 := by
      refine max_eq_right (Nat.le_of_not_lt fun hlt => ?_)
      have hle := ((walk_mono (List.take_prefix_take_left hlt.le)).trans hahead).length_le
      rw [hd', hrest, List.length_append, List.length_singleton] at hle
      omega
    refine ⟨hinv, ?_, ?_, max_le hi.asked hlt⟩
    · rw [hmax, hd', hrest]
      exact List.prefix_rfl
    · rw [hd', hrest] at hlog
      exact hlog
  · refine ⟨hinv, ?_, hi.behind, max_le hi.asked hlt⟩
    change _ <+: soon c n
    rcases Nat.lt_or_ge m asked with hlt | hge
    · rw [max_eq_left hlt]
      exact hi.ahead
    rw [max_eq_right (by omega), hsoon, hnext]
    rw [hnext] at hlog
    cases ha : append cfg.storage (walk cfg.storage c₀ (log.take m)) e.1 with
    | none => exact hwalk
    | some d =>
      rw [ha] at hlog
      refine List.prefix_of_prefix_length_le hlog hi.le_behind ?_
      rw [Option.getD_some, BlockBuilder.rest_of_append ha, List.length_append, List.length_singleton]
      refine Nat.succ_le_of_lt (Nat.lt_of_le_of_ne hwalk.length_le fun hlen => ?_)
      rw [chain_eq_of_le hwalk hlen.ge, hd] at ha
      cases ha

/-- **A node that gets a block from a peer**: it is the next block of the log's chain, or it is refused. -/
theorem nodeInv_sync {cfg : NodeConfig crypto} {log : List WireBlock} {asked : ℕ} {block : Block}
    {n n' : LeaderNode.State crypto.sha256} (hb : Built crypto storage c₀ log)
    (hi : NodeInv cfg storage c₀ c log asked n) (hmem : block ∈ (walk storage c₀ log).rest)
    (h : LeaderNode.step cfg n (.addBlock (.sync block)) = some n') : NodeInv cfg storage c₀ c log asked n' := by
  obtain ⟨hn, block', c', hblock, hc, hcases⟩ := LeaderNode.step_addBlock h
  cases hblock
  rw [hi.node.chain] at hc
  cases hc
  have hsoon := soon_of_none (c := c) hn
  have hbehind := hi.le_behind
  -- the block stands in the log's chain right above the node's
  have hnext : ∀ d, append cfg.storage c block = some d →
      (walk storage c₀ log).rest[c.rest.length]? = some block := by
    intro d hd
    have htip := (BlockBuilder.tip_of_append hd).2
    obtain ⟨i, hi⟩ := List.mem_iff_getElem?.1 hmem
    have hheight := height_eq (walk storage c₀ log) (i := i + 1) hi
    rw [height_tip, hheight] at htip
    rwa [Nat.succ.inj htip] at hi
  have hg : LeaderNode.Orderly cfg c₀ n (.addBlock (.sync block)) := by
    refine ⟨trivial, fun block' c' hblock hc hne => .inr ?_⟩
    cases hblock
    rw [hi.node.chain] at hc
    cases hc
    obtain ⟨d, hd⟩ := Option.ne_none_iff_exists'.1 hne
    refine fit_shorter ((walked_of_built hb).fit block ?_) hbehind
    refine List.mem_iff_getElem?.2 ⟨c.rest.length - c₀.rest.length, ?_⟩
    unfold added
    rw [List.getElem?_drop, Nat.add_sub_cancel' hi.node.longer.length_le]
    exact hnext d hd
  have hinv := LeaderNode.inv_addBlock hi.node hg h
  rcases hcases with ⟨⟨d, hd⟩, rfl⟩ | ⟨hd, builder, -, rfl⟩
  · refine ⟨hinv, ?_, ?_, hi.asked⟩
    · change _ <+: c.rest ++ [block]
      rw [← hsoon]
      exact hi.ahead.trans (List.prefix_append _ _)
    · change c.rest ++ [block] <+: _
      obtain ⟨l, hl⟩ := hbehind
      have hget := hnext d hd
      rw [← hl, List.getElem?_append_right le_rfl, Nat.sub_self] at hget
      rw [← hl]
      cases l with
      | nil => cases hget
      | cons b l =>
        cases hget
        exact ⟨l, by rw [List.append_assoc]; rfl⟩
  · exact ⟨hinv, hi.ahead, hi.behind, hi.asked⟩

theorem inv_step (hs : ∀ i, (cfg i).storage = storage) {s s' : State ι crypto.sha256} {a : Action ι crypto.sha256}
    (hi : Inv cfg storage c₀ s) (hg : Orderly cfg c₀ s a) (h : step cfg s a = some s') : Inv cfg storage c₀ s' := by
  cases a with
  | node i a => exact inv_node hi hg h
  | append i block => exact inv_append hi h
  | commit i m j =>
    simp only [step] at h
    split_ifs at h with hm
    obtain ⟨n, hn, rfl⟩ := Option.map_eq_some_iff.1 h
    obtain ⟨c, hc⟩ := hi.nodes i
    obtain ⟨e, he⟩ : ∃ e, s.log[m]? = some e := by
      cases he : s.log[m]? with
      | none =>
        obtain ⟨-, block, -, hblock, -⟩ := LeaderNode.step_addBlock hn
        rw [hm.2, he] at hblock
        cases hblock
      | some e => exact ⟨e, rfl⟩
    rw [he] at hm
    exact inv_update hi ⟨c, nodeInv_commit (hs i) hi.built hc hm.1 he hm.2 hg hn⟩
  | sync i j block =>
    simp only [step] at h
    split_ifs at h with hm
    obtain ⟨n, hn, rfl⟩ := Option.map_eq_some_iff.1 h
    obtain ⟨c, hc⟩ := hi.nodes i
    obtain ⟨d, hd⟩ := hi.nodes j
    rw [hd.node.chain, Option.any_some, decide_eq_true_eq] at hm
    exact inv_update_node hi ⟨c, nodeInv_sync hi.built hc (hd.le_behind.subset hm) hn⟩

end

/-- What the nodes hold are beginnings of the one chain that the log gives, which has every transaction at most once; each
pool is done with what is on its own node's chain. -/
structure OneHistory {ι : Type} {crypto : Crypto} (storage : BlockStorageConfig) (c₀ : BlockChain crypto.sha256)
    (s : State ι crypto.sha256) : Prop where
  nodup : ((added c₀ (walk storage c₀ s.log)).flatMap (ids crypto)).Nodup
  nodes : ∀ i, ∃ c, (s.node i).builder.chain = some c ∧ c.rest <+: (walk storage c₀ s.log).rest ∧
    Once crypto c₀ c (s.node i)

def orderly (cfg : Bool → NodeConfig crypto) (s : State Bool crypto.sha256) : Action Bool crypto.sha256 → Bool
  | .node i a => LeaderNode.orderly (cfg i) (s.node i) a
  | .commit i _ _ => !(s.node i).builder.isSyncing
  | _ => true

theorem orderly_of_check {cfg : Bool → NodeConfig crypto} {c₀ : BlockChain crypto.sha256} {s : State Bool crypto.sha256}
    {a : Action Bool crypto.sha256} (h : orderly cfg s a = true) : Orderly cfg c₀ s a := by
  cases a with
  | node i a => exact LeaderNode.orderly_of_check h
  | commit i m j =>
    intro hsync
    rw [orderly, hsync] at h
    cases h
  | append i block => trivial
  | sync i j block => trivial

def runOrderly (s : State Bool sampleCrypto.sha256) (as : List (Action Bool sampleCrypto.sha256)) :
    Option (State Bool sampleCrypto.sha256) :=
  Lts.run (Lts.guarded (step fun _ => LeaderNode.nodeConfig) (orderly fun _ => LeaderNode.nodeConfig)) s as

def wire (block : Block) : Option WireBlock :=
  if h : block.header.version < 2 ^ 32 ∧ block.header.height < 2 ^ 32 ∧
      ∀ tx ∈ block.body.transactions, tx.header.version < 2 ^ 32 then
    some ⟨block, h.1, h.2.1, h.2.2⟩
  else none

/-- One node builds a block with a transaction that both have. -/
def lead : List (Action Bool sampleCrypto.sha256) :=
  (LeaderNode.submit sampleTransaction).map (.node true) ++
    (LeaderNode.submit sampleTransaction ++ LeaderNode.buildFirst).map (.node false)

def store (i : Bool) : List (Action Bool sampleCrypto.sha256) :=
  [.node i .mark, .node i .clear, .node i .land]

/-- The block gets onto the log; the leader commits it, and the other node gets it by sync before the log comes to it. -/
def replicate (block : WireBlock) : List (Action Bool sampleCrypto.sha256) :=
  [.append false block, .node false (.builder (.commitBlock block.1)), .commit false 0 0] ++ store false ++
    [.sync true false block.1] ++ store true ++ [.node true (.builder (.commitBlock block.1)), .commit true 0 0]

structure Sample where
  block : WireBlock
  after : State Bool sampleCrypto.sha256

def sample : Option Sample :=
  (runOrderly (start (fun _ => sampleTime) Chain.nil) lead).bind fun s =>
  (s.node false).builder.handed.head?.bind fun block => (wire block).bind fun block =>
  (runOrderly s (replicate block)).map fun after => { block, after }

theorem sample_eq_some {r : Sample} (h : sample = some r) :
    runOrderly (start (fun _ => sampleTime) Chain.nil) (lead ++ replicate r.block) = some r.after := by
  unfold sample at h
  obtain ⟨s, hs, h⟩ := Option.bind_eq_some_iff.1 h
  obtain ⟨block, -, h⟩ := Option.bind_eq_some_iff.1 h
  obtain ⟨wired, -, h⟩ := Option.bind_eq_some_iff.1 h
  obtain ⟨after, ha, rfl⟩ := Option.map_eq_some_iff.1 h
  unfold runOrderly at hs ha ⊢
  rw [Lts.run_append, hs]
  exact ha

theorem run_sample : (sample.map fun r => (r.block.1.body.transactions.length,
    [false, true].map fun i => ((r.after.node i).builder.chain.map fun c => c.rest.length))) =
      some (1, [some 1, some 1]) := by
  decide +kernel

end LeaderCluster
end Orbs
