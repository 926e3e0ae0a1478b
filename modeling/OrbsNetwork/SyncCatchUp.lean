import OrbsNetwork.SyncNetwork
/-!
# SyncCatchUp — a node that is behind can always catch up

Whatever the network has been through, polls of a node and messages between it and a peer are enough to bring it to the
peer's height: no handler that still waits, no block that is still queued or under way, and no message that comes late can
get in the way of it (`catch_up`).

One round is a poll that asks, the peer's answer, the request for blocks, the peer's batches, and a poll that appends them.
-/
namespace Orbs
namespace SyncNetwork

open Js BlockStorage HashChain

/-- The actions of a round. -/
def isSync : Work → Bool
  | .peer .handlerAnswered | .peer .pollForNewBlocks | .peer (.pollAppended _) => true
  | .peer (.other a) =>
    match a with
    | .call _ | .put _ | .report _ (.ok ()) => true
    | _ => false
  | .read _ => true
  | _ => false

/-- Those that the two nodes take. -/
def Between (a b : Str) : Action → Prop
  | .work node w => (node = a ∨ node = b) ∧ isSync w = true
  | .deliver sender receiver _ => sender = a ∧ receiver = b ∨ sender = b ∧ receiver = a

/-- The node's verification accepts the chain. -/
def Accepts (config : BlockStorageConfig) (P : BlockChain sha256) : Prop :=
  ∀ (k : ℕ) last b, P.blocks[k]? = some last → P.blocks[k + 1]? = some b →
    verifyNewBlock sha256 config (some last) b = .ok ()

variable {sha256 : Bytes → Bytes} {P : BlockChain sha256}

/-! ## Appending -/

/-- The pieces of an `addBlock`. -/
def Adds : BlockStorageService.Action → Prop
  | .call _ | .put _ => True
  | .report _ reported => reported = .ok ()
  | _ => False

/-- The last block is the chain's at a height. -/
def LastAt (P : BlockChain sha256) (s : BlockStorage) (k : ℕ) : Prop := ∃ last, s.lastBlock = some last ∧ P.blocks[k]? = some last

section
open BlockStorageService

variable {config : BlockStorageConfig} {s : State} {i k : ℕ} {block : WireBlock} {rest : List WireBlock}

theorem getElem?_setCaller {c d : Caller} (h : s.callers[i]? = some c) : (setCaller s i d).callers[i]? = some d := by
  obtain ⟨hi, -⟩ := List.getElem?_eq_some_iff.1 h
  exact List.getElem?_set_self hi

/-- The caller adds its next block, if it verifies. -/
theorem leads_addBlock (hi : s.callers[i]? = some { flight := none, rest := block :: rest })
    (hv : verifyNewBlock sha256 config s.blockStorage.lastBlock block = .ok ()) :
    ∃ t, Lts.Leads (step sha256 config) Adds s t ∧ t.callers[i]? = some { flight := none, rest } ∧
      t.blockStorage.lastBlock = some block.1 ∧ t.queue = s.queue ∧ t.node = s.node := by
  let s₁ := setCaller s i { flight := some { block, phase := .verified }, rest }
  let db₁ := s.blockStorage.db.put LAST_BLOCK_HEIGHT_KEY (heightText block.1.header.height)
  let s₂ := setCaller { s₁ with blockStorage := { s.blockStorage with db := db₁ } } i
    { flight := some { block, phase := .wroteLast }, rest }
  let s₃ := setCaller { s₂ with blockStorage := { s.blockStorage with db := putBlock db₁ block } } i
    { flight := some { block, phase := .wroteBlock }, rest }
  let s₄ := setCaller { s₃ with blockStorage := { s₃.blockStorage with lastBlock := some block.1 } } i
    { flight := none, rest }
  have h₁ : s₁.callers[i]? = some { flight := some { block, phase := .verified }, rest } := getElem?_setCaller hi
  have h₂ : s₂.callers[i]? = some { flight := some { block, phase := .wroteLast }, rest } := getElem?_setCaller h₁
  have h₃ : s₃.callers[i]? = some { flight := some { block, phase := .wroteBlock }, rest } := getElem?_setCaller h₂
  have hcall : step sha256 config s (.call i) = some s₁ := by
    rw [step, hi]
    dsimp only
    rw [hv]
  have hlast : step sha256 config s₁ (.put i) = some s₂ := by
    rw [step, h₁]
    rfl
  have hblock : step sha256 config s₂ (.put i) = some s₃ := by
    rw [step, h₂]
    rfl
  have hreport : step sha256 config s₃ (.report i (.ok ())) = some s₄ := by
    rw [step, h₃]
  refine ⟨s₄, ?_, getElem?_setCaller h₃, rfl, rfl, rfl⟩
  exact (Lts.leads_of_step (by trivial) hcall).trans ((Lts.leads_of_step (by trivial) hlast).trans
    ((Lts.leads_of_step (by trivial) hblock).trans (Lts.leads_of_step (a := .report i (.ok ())) rfl hreport)))

/-- The caller drops its next block. -/
theorem leads_dropBlock {e : Str} (hi : s.callers[i]? = some { flight := none, rest := block :: rest })
    (hv : verifyNewBlock sha256 config s.blockStorage.lastBlock block = .error e) :
    Lts.Leads (step sha256 config) Adds s (setCaller s i { flight := none, rest }) := by
  refine Lts.leads_of_step (a := .call i) trivial ?_
  rw [step, hi]
  dsimp only
  rw [hv]

theorem fromChain_of_adds {a : BlockStorageService.Action} (h : Adds a) : FromChain P a := by
  cases a with
  | addBlock | onSendNewBlocksResponse => cases h
  | pollForNewBlocks | onHasNewBlocksResponse | call | put | report => trivial

/-- **A caller adds its blocks**: it comes past every block that is next in the chain. -/
theorem leads_drain (hacc : Accepts config P) : ∀ {rest : List WireBlock} {s : State} {k : ℕ}, ServiceOn P s →
    s.callers[i]? = some { flight := none, rest } → LastAt P s.blockStorage k →
    ∃ t k', Lts.Leads (step sha256 config) Adds s t ∧ t.callers[i]? = some { flight := none, rest := [] } ∧
      t.queue = s.queue ∧ t.node = s.node ∧ LastAt P t.blockStorage k' ∧ k ≤ k' ∧
      ∀ b ∈ rest, P.blocks[k + 1]? = some b.1 → k + 1 ≤ k' := by
  intro rest
  induction rest with
  | nil => exact fun {s k} hs hi hk => ⟨s, k, .refl s, hi, rfl, rfl, hk, le_rfl, fun b hb => absurd hb List.not_mem_nil⟩
  | cons block rest ih =>
    intro s k hs hi hk
    obtain ⟨last, hl, hPk⟩ := hk
    have hinv : ∀ s a s', ServiceOn P s → Adds a → step sha256 config s a = some s' → ServiceOn P s' :=
      fun s a s' hs ha h => (serviceOn_step hs (fromChain_of_adds ha) h).1
    cases hv : verifyNewBlock sha256 config s.blockStorage.lastBlock block with
    | ok u =>
      obtain ⟨t, ht, hti, htl, htq, htn⟩ := leads_addBlock hi hv
      rw [hl] at hv
      have hnext := next_of_verify hPk ((hs.callers _ (List.mem_of_getElem? hi)).rest block List.mem_cons_self) hv
      obtain ⟨u, k', hu, hui, huq, hun, huk, hk', -⟩ := ih (ht.inv hinv hs) hti ⟨block.1, htl, hnext⟩
      exact ⟨u, k', ht.trans hu, hui, huq.trans htq, hun.trans htn, huk, by omega, fun _ _ _ => hk'⟩
    | error e =>
      have ht := leads_dropBlock hi hv
      obtain ⟨u, k', hu, hui, huq, hun, huk, hk', hnext⟩ := ih (ht.inv hinv hs) (getElem?_setCaller hi) ⟨last, hl, hPk⟩
      refine ⟨u, k', ht.trans hu, hui, huq, hun, huk, hk', fun b hb hPb => ?_⟩
      rcases List.mem_cons.1 hb with rfl | hb
      · have hok := hacc k last b.1 hPk hPb
        rw [← hl, hv] at hok
        cases hok
      · exact hnext b hb hPb

end

/-! ## The pieces of a round -/

section
variable {config : Str → NodeConfig} {nodeName : Str} {n : Node} {k : ℕ}

theorem leads_sync {n' : Node} {a : Work} (ha : isSync a = true) (h : work sha256 config nodeName n a = some n') :
    Lts.Leads (work sha256 config nodeName) (isSync · = true) n n' :=
  Lts.leads_of_step ha h

theorem work_peer {a : SyncPeer.Action} {peer : SyncPeer.State} (ha : isOwn a = true)
    (h : SyncPeer.step sha256 (config nodeName).blockStorage n.peer a = some peer) :
    work sha256 config nodeName n (.peer a) = some { n with peer } := by
  rw [work, if_pos ha, h]
  rfl

theorem leads_service {service : BlockStorageService.State}
    (h : Lts.Leads (BlockStorageService.step sha256 (config nodeName).blockStorage) Adds n.peer.service service) :
    Lts.Leads (work sha256 config nodeName) (isSync · = true) n { n with peer := { n.peer with service } } := by
  refine h.embed (f := fun service => { n with peer := { n.peer with service } }) fun t a t' ha ht => ?_
  refine ⟨.peer (.other a), ?_, ?_⟩
  · cases a with
    | report i reported =>
      cases ha
      rfl
    | call | put => rfl
    | addBlock | pollForNewBlocks | onSendNewBlocksResponse | onHasNewBlocksResponse => cases ha
  · cases a with
    | call | put | report =>
      refine work_peer rfl ?_
      rw [SyncPeer.step, if_pos (by rfl), ht]
      rfl
    | addBlock | pollForNewBlocks | onSendNewBlocksResponse | onHasNewBlocksResponse => cases ha

/-- Of the queued blocks that are next in the chain one is appended. -/
theorem exists_mem_appendBlocks {s : BlockStorageService.State} (hs : ServiceOn P s) {b : WireBlock} (hb : b ∈ s.queue)
    (hPb : P.blocks[k]? = some b.1) :
    ∃ b' ∈ BlockStorageService.sortByHeight (BlockStorageService.uniqByHeight s.queue.reverse), P.blocks[k]? = some b'.1 := by
  have hsome : (s.queue.reverse.find? fun c : WireBlock => c.1.header.height = b.1.header.height).isSome = true :=
    List.find?_isSome.2 ⟨b, List.mem_reverse.2 hb, decide_eq_true rfl⟩
  obtain ⟨b', hb'⟩ := Option.isSome_iff_exists.1 hsome
  have hheight : b'.1.header.height = b.1.header.height := by simpa using List.find?_some hb'
  refine ⟨b', ?_, ?_⟩
  · rw [BlockStorageService.sortByHeight, List.mem_insertionSort]
    refine mem_uniqBy.2 ?_
    rw [← hb', hheight]
  · obtain ⟨j, hj⟩ := List.mem_iff_getElem?.1 (hs.queue b' (List.mem_reverse.1 (List.mem_of_find?_eq_some hb')))
    rw [height_eq P hj, height_eq P hPb] at hheight
    rwa [← hheight]

variable (sha256 config nodeName n) in
/-- A handler that waits goes on. -/
theorem leads_handlerAnswered : ∃ n', Lts.Leads (work sha256 config nodeName) (isSync · = true) n n' ∧
    n'.peer.waiting = none ∧ n'.peer.service = n.peer.service := by
  cases hw : n.peer.waiting with
  | none => exact ⟨n, .refl n, hw, rfl⟩
  | some handler =>
    have hstep : ∃ peer, SyncPeer.step sha256 (config nodeName).blockStorage n.peer .handlerAnswered = some peer ∧
        peer.waiting = none ∧ peer.service = n.peer.service := by
      rw [SyncPeer.step, hw]
      dsimp only
      cases handler.lastBlock with
      | none => exact ⟨_, rfl, rfl, rfl⟩
      | some block => exact ⟨_, rfl, rfl, rfl⟩
    obtain ⟨peer, hpeer, hnone, hservice⟩ := hstep
    exact ⟨{ n with peer }, leads_sync rfl (work_peer rfl hpeer), hnone, hservice⟩

variable (config nodeName) in
/-- **A poll** appends what is queued, and asks the others whether they have more. -/
theorem leads_poll (hacc : Accepts (config nodeName).blockStorage P) (hn : ServiceOn P n.peer.service)
    (hk : LastAt P n.blockStorage k) : ∃ n' k', Lts.Leads (work sha256 config nodeName) (isSync · = true) n n' ∧
      n'.peer.service.node = none ∧ n'.peer.waiting = none ∧ LastAt P n'.blockStorage k' ∧ k ≤ k' ∧
      (∀ b ∈ n.peer.service.queue, P.blocks[k + 1]? = some b.1 → k + 1 ≤ k') ∧
      SyncPeer.hasNewBlocksMessage k' ∈ n'.peer.broadcasts := by
  obtain ⟨n₀, hidle, hwaiting, hsame⟩ := leads_handlerAnswered sha256 config nodeName n
  let i := n₀.peer.service.callers.length
  let j := n₀.peer.polls.length
  let service := BlockStorageService.appendBlocks { n₀.peer.service with node := none }
  let n₁ : Node := { n₀ with peer := { n₀.peer with service, polls := n₀.peer.polls ++ [.appending i] } }
  have hpoll : work sha256 config nodeName n₀ (.peer .pollForNewBlocks) = some n₁ := by
    refine work_peer rfl ?_
    rw [SyncPeer.step, if_neg (by rw [hwaiting]; exact Bool.false_ne_true)]
  have hservice : ServiceOn P service := by
    rw [← hsame] at hn
    exact ServiceOn.appendBlocks ⟨hn.storage, hn.queue, hn.callers⟩
  have hk₁ : LastAt P service.blockStorage k := by
    change LastAt P n₀.peer.service.blockStorage k
    rwa [hsame]
  obtain ⟨service', k', hdrain, hcaller, -, hnode, hk', hle, hnext⟩ :=
    leads_drain (i := i) hacc hservice (List.getElem?_concat_length) hk₁
  obtain ⟨last, hlast, hPlast⟩ := hk'
  let n₂ : Node := { n₁ with peer := { n₁.peer with service := service' } }
  let n₃ : Node := { n₂ with peer := { n₂.peer with
    polls := n₂.peer.polls.set j .ended
    broadcasts := n₂.peer.broadcasts ++ [SyncPeer.hasNewBlocksMessage last.header.height] } }
  have happended : work sha256 config nodeName n₂ (.peer (.pollAppended j)) = some n₃ := by
    refine work_peer rfl ?_
    rw [SyncPeer.step, show n₂.peer.polls[j]? = some (.appending i) from List.getElem?_concat_length]
    dsimp only
    rw [show n₂.peer.service.callers[i]? = _ from hcaller]
    dsimp only
    rw [show n₂.peer.service.blockStorage.lastBlock = _ from hlast]
  refine ⟨n₃, k', ?_, hnode, hwaiting, ⟨last, hlast, hPlast⟩, hle, fun b hb hPb => ?_, ?_⟩
  · exact hidle.trans ((leads_sync rfl hpoll).trans ((leads_service hdrain).trans (leads_sync rfl happended)))
  · obtain ⟨b', hb', hPb'⟩ := exists_mem_appendBlocks hn hb hPb
    rw [← hsame] at hb'
    exact hnext b' hb' hPb'
  · rw [← height_eq P hPlast]
    exact List.mem_append_right _ (List.mem_singleton.2 rfl)

/-- What a node broadcasts it has sent. -/
theorem broadcast_mem_sent {m : SyncPeer.BroadcastMessage} (h : m ∈ n.peer.broadcasts) :
    { fromAddress := nodeName, recipient := none, messageType := m.messageType, buffer := m.buffer } ∈
      n.sent nodeName :=
  List.mem_append_left _ (List.mem_append_right _ (List.mem_map_of_mem h))

theorem request_mem_sent {r : SyncPeer.Request} (h : r ∈ n.peer.requests) :
    { fromAddress := nodeName, recipient := r.message.recipient, messageType := r.message.messageType
      buffer := r.message.buffer } ∈ n.sent nodeName :=
  List.mem_append_left _ (List.mem_append_left _ (List.mem_map_of_mem h))

theorem reply_mem_sent {p : Packet} (h : p ∈ n.replies) : p ∈ n.sent nodeName := List.mem_append_right _ h

theorem read_heightBuffer {blockHeight : ℕ} (h : blockHeight < 2 ^ 32) :
    read heightCodec (SyncPeer.heightBuffer blockHeight) = some blockHeight :=
  read_write heightCodec (show heightCodec.InRange blockHeight from ⟨(show blockHeight ≤ 2 ^ 53 by omega), trivial⟩)

/-- **A peer that has more answers so.** -/
theorem receive_hasNewBlocksMessage {asker : Str} {K : ℕ} (hne : asker ≠ nodeName) (hK : LastAt P n.blockStorage K)
    (hlt : k < K) (hk : k < 2 ^ 32) {recipient : Option Str} :
    receive sha256 config nodeName n { fromAddress := asker, recipient, messageType := "HasNewBlocksMessage".toList
                                       buffer := SyncPeer.heightBuffer k } =
      { n with replies := n.replies ++ [hasNewBlocksResponse nodeName asker true] } := by
  obtain ⟨last, hl, hPlast⟩ := hK
  have hmore : (last.header.height : ℤ) > k := by
    rw [height_eq P hPlast]
    exact_mod_cast hlt
  unfold receive
  dsimp only
  rw [if_pos rfl, if_neg hne, read_heightBuffer hk]
  dsimp only
  rw [hasNewBlocks, hl]
  dsimp only
  rw [decide_eq_true hmore]

/-- **The node starts to sync with the peer.** -/
theorem receive_hasNewBlocksResponse {peer recipient : Str} (hnode : n.peer.service.node = none)
    (hwaiting : n.peer.waiting = none) :
    receive sha256 config nodeName n (hasNewBlocksResponse peer recipient true) =
      { n with peer := { n.peer with
        service := { n.peer.service with node := some peer }
        waiting := some { fromAddress := peer, lastBlock := n.blockStorage.lastBlock } } } := by
  have hpayload : parseJsonWithBuffers (Utf8.decode (write hasNewBlocksCodec true)) = some (hasNewBlocksCodec.enc true) := by
    rw [write, Utf8.decode_encode]
    exact parseJsonWithBuffers_stringify (hasNewBlocksCodec.proper true ⟨trivial, trivial⟩)
  have htrue : SyncPeer.hasNewBlocks (hasNewBlocksCodec.enc true) = .ok true := rfl
  unfold receive hasNewBlocksResponse
  dsimp only
  rw [if_neg (by decide), if_pos rfl, hpayload]
  dsimp only
  rw [SyncPeer.step, hwaiting, htrue, if_neg (by decide)]
  dsimp only
  rw [if_pos hnode]
  rfl

variable (sha256 config nodeName) in
/-- The handler asks the peer for the blocks above the last one. -/
theorem work_handlerAnswered {peer : Str} {last : Block} (hnode : n.peer.service.node = some peer)
    (hw : n.peer.waiting = some { fromAddress := peer, lastBlock := some last }) :
    ∃ n', work sha256 config nodeName n (.peer .handlerAnswered) = some n' ∧
      n'.peer.service = n.peer.service ∧
      { fromAddress := peer, message := SyncPeer.sendNewBlocks (some peer) last.header.height } ∈ n'.peer.requests := by
  have hstep : SyncPeer.step sha256 (config nodeName).blockStorage n.peer .handlerAnswered =
      some { n.peer with
        waiting := none
        requests := n.peer.requests ++ [{
          fromAddress := peer, message := SyncPeer.sendNewBlocks n.peer.service.node last.header.height }] } := by
    rw [SyncPeer.step, hw]
  refine ⟨_, work_peer rfl hstep, rfl, ?_⟩
  rw [← hnode]
  exact List.mem_append_right _ (List.mem_singleton.2 rfl)

/-- **The peer starts to read the blocks.** -/
theorem receive_sendNewBlocks {asker : Str} {last : Block} (hl : n.blockStorage.lastBlock = some last) (hk : k < 2 ^ 32)
    {recipient : Option Str} :
    receive sha256 config nodeName n { fromAddress := asker, recipient, messageType := "SendNewBlocks".toList
                                       buffer := SyncPeer.heightBuffer k } =
      let limit := (config nodeName).service.batchSize * (config nodeName).service.batchSize
      { n with servings := n.servings ++ [{
        fromAddress := asker, height := k
        lastBlockHeight := if k + limit ≥ last.header.height then last.header.height else k + limit
        blocks := [] }] } := by
  unfold receive
  dsimp only
  rw [if_neg (by decide), if_neg (by decide), if_pos rfl, read_heightBuffer hk, hl]

/-- **`getBlocks` reads the stored blocks**, one after the other. -/
theorem leads_reads (hP : ∀ b ∈ P.blocks, b.Typed) {i : ℕ} : ∀ {d : ℕ} {n : Node} {s : Serving}, n.servings[i]? = some s →
    s.lastBlockHeight = s.height + d → (∀ j ≤ s.lastBlockHeight, Stored P n.blockStorage.db j) →
    ∃ n', Lts.Leads (work sha256 config nodeName) (isSync · = true) n n' ∧ n'.peer = n.peer ∧
      n'.servings[i]? = some { s with
        height := s.lastBlockHeight, blocks := s.blocks ++ (P.blocks.drop (s.height + 1)).take d } := by
  intro d
  induction d with
  | zero =>
    intro n s hi hd _
    refine ⟨n, .refl n, rfl, ?_⟩
    obtain ⟨fromAddress, height, lastBlockHeight, blocks⟩ := s
    cases (hd : lastBlockHeight = height)
    rw [List.take_zero, List.append_nil]
    exact hi
  | succ d ih =>
    intro n s hi hd hstored
    obtain ⟨b, hPb, ht⟩ := hstored (s.height + 1) (by omega)
    let s' : Serving := { s with height := s.height + 1, blocks := s.blocks ++ [b] }
    have hget : n.blockStorage.getBlock (s.height + 1 : ℕ) = .ok b := getBlock_of_stored hP hPb ⟨b, hPb, ht⟩
    have hread : work sha256 config nodeName n (.read i) = some { n with servings := n.servings.set i s' } := by
      rw [work, hi]
      dsimp only
      rw [if_pos (by omega), hget]
    obtain ⟨hlt, -⟩ := List.getElem?_eq_some_iff.1 hi
    obtain ⟨n', hleads, hpeer, hi'⟩ := @ih { n with servings := n.servings.set i s' } s' (List.getElem?_set_self hlt)
      (by change s.lastBlockHeight = s.height + 1 + d; omega) hstored
    refine ⟨n', (leads_sync rfl hread).trans hleads, hpeer, ?_⟩
    have hdrop : P.blocks.drop (s.height + 1) = b :: P.blocks.drop (s.height + 1 + 1) := by
      obtain ⟨hlen, rfl⟩ := List.getElem?_eq_some_iff.1 hPb
      exact List.drop_eq_getElem_cons hlen
    rw [hi', hdrop, List.take_succ_cons, List.append_cons]

variable (config nodeName) in
/-- **The batches that are sent have the next block first.** -/
theorem leads_serving (hP : ∀ b ∈ P.blocks, b.Typed) (hsize : 0 < (config nodeName).service.batchSize)
    (hinterval : 0 < (config nodeName).service.batchesPerInterval) {servings : List Serving} {s : Serving} {next : Block}
    (hs : n.servings = servings ++ [s]) (hblocks : s.blocks = []) (hlt : s.height < s.lastBlockHeight)
    (hstored : ∀ j ≤ s.lastBlockHeight, Stored P n.blockStorage.db j) (hnext : P.blocks[s.height + 1]? = some next) :
    ∃ n' batch, Lts.Leads (work sha256 config nodeName) (isSync · = true) n n' ∧ n'.peer = n.peer ∧
      sendNewBlocksResponse nodeName s.fromAddress batch ∈ n'.replies ∧ (∀ b ∈ batch, b ∈ P.blocks) ∧ next ∈ batch := by
  obtain ⟨d, hd⟩ := Nat.exists_eq_add_of_lt hlt
  have hi : n.servings[servings.length]? = some s := by
    rw [hs]
    exact List.getElem?_concat_length
  obtain ⟨n₁, hleads, hpeer, hi₁⟩ := leads_reads (d := d + 1) hP hi hd hstored
  rw [hblocks, List.nil_append] at hi₁
  generalize hread : (P.blocks.drop (s.height + 1)).take (d + 1) = blocks at hi₁
  have hall : ∀ b ∈ blocks, b ∈ P.blocks := by
    rw [← hread]
    exact fun b hb => List.mem_of_mem_drop (List.mem_of_mem_take hb)
  have hfirst : ∃ rest, blocks = next :: rest := by
    obtain ⟨hlen, rfl⟩ := List.getElem?_eq_some_iff.1 hnext
    rw [← hread, List.drop_eq_getElem_cons hlen, List.take_succ_cons]
    exact ⟨_, rfl⟩
  obtain ⟨rest, hfirst⟩ := hfirst
  have hsend : next ∈ (batches (config nodeName).service blocks).flatten := by
    rw [batches, flatten_take_chunk _ hsize, hfirst, List.take_cons (Nat.mul_pos hinterval hsize)]
    exact List.mem_cons_self
  obtain ⟨batch, hbatch, hmem⟩ := List.mem_flatten.1 hsend
  have hsent : work sha256 config nodeName n₁ (.read servings.length) = some { n₁ with
      servings := n₁.servings.eraseIdx servings.length
      replies := n₁.replies ++
        (batches (config nodeName).service blocks).map (sendNewBlocksResponse nodeName s.fromAddress) } := by
    rw [work, hi₁]
    dsimp only
    rw [if_neg (lt_irrefl _)]
  refine ⟨_, batch, hleads.trans (leads_sync rfl hsent), hpeer, ?_, fun b hb => hall b (mem_of_mem_batches hbatch b hb),
    hmem⟩
  exact List.mem_append_right _ (List.mem_map_of_mem hbatch)

theorem mapM_wire : ∀ {blocks : List Block}, (∀ b ∈ blocks, b.Typed) →
    ∃ wires : List WireBlock, blocks.mapM wire = some wires ∧ wires.map Subtype.val = blocks
  | [], _ => ⟨[], rfl, rfl⟩
  | b :: blocks, h => by
    obtain ⟨wires, hw, hmap⟩ := mapM_wire fun d hd => h d (List.mem_cons_of_mem _ hd)
    have hb := h b List.mem_cons_self
    refine ⟨⟨b, hb⟩ :: wires, ?_, ?_⟩
    · rw [List.mapM_cons, wire, dif_pos hb, hw]
      rfl
    · rw [List.map_cons, hmap]

/-- **The node queues what it gets.** -/
theorem receive_sendNewBlocksResponse {peer recipient : Str} {blocks : List Block} (h : ∀ b ∈ blocks, b.Typed) :
    ∃ wires : List WireBlock, wires.map Subtype.val = blocks ∧
      receive sha256 config nodeName n (sendNewBlocksResponse peer recipient blocks) =
        { n with peer := { n.peer with service := { n.peer.service with queue := n.peer.service.queue ++ wires } } } := by
  obtain ⟨wires, hw, hmap⟩ := mapM_wire h
  refine ⟨wires, hmap, ?_⟩
  unfold receive sendNewBlocksResponse
  dsimp only
  rw [if_neg (by decide), if_neg (by decide), if_neg (by decide), if_pos rfl, read_write _ (inRange_payload h),
    Option.bind_some, hw]
  rfl

end

/-! ## Rounds -/

section
variable {config : Str → NodeConfig} {a b : Str} {s : Network} {n n' m m' : Node} {k K : ℕ}

/-- The network with the two nodes as they are. -/
def pair (s : Network) (a b : Str) (n m : Node) : Network := fun name => if name = a then n else if name = b then m else s name

theorem pair_left : pair s a b n m a = n := if_pos rfl

theorem pair_right (h : a ≠ b) : pair s a b n m b = m := by
  rw [pair, if_neg h.symm, if_pos rfl]

theorem pair_self : pair s a b (s a) (s b) = s := by
  funext name
  unfold pair
  split_ifs with ha hb
  · rw [ha]
  · rw [hb]
  · rfl

theorem update_pair_left : Function.update (pair s a b n m) a n' = pair s a b n' m := by
  funext name
  unfold pair
  by_cases ha : name = a
  · rw [ha, Function.update_self, if_pos rfl]
  · rw [Function.update_of_ne ha, if_neg ha, if_neg ha]

theorem update_pair_right (h : a ≠ b) : Function.update (pair s a b n m) b m' = pair s a b n m' := by
  funext name
  unfold pair
  by_cases hb : name = b
  · rw [hb, Function.update_self, if_neg h.symm, if_pos rfl]
  · rw [Function.update_of_ne hb]
    split_ifs <;> rfl

theorem pair_pair : pair (pair s a b n m) a b n' m' = pair s a b n' m' := by
  funext name
  unfold pair
  split_ifs <;> rfl

theorem leads_left (h : Lts.Leads (work sha256 config a) (isSync · = true) n n') :
    Lts.Leads (network sha256 config).step (Between a b) (pair s a b n m) (pair s a b n' m) := by
  rw [← pair_left (s := s) (a := a) (b := b) (n := n) (m := m)] at h
  have := Soup.leads_work (S := network sha256 config) (A := Between a b) (fun w hw => ⟨.inl rfl, hw⟩) h
  rwa [update_pair_left] at this

theorem leads_right (hne : a ≠ b) (h : Lts.Leads (work sha256 config b) (isSync · = true) m m') :
    Lts.Leads (network sha256 config).step (Between a b) (pair s a b n m) (pair s a b n m') := by
  rw [← pair_right (s := s) (n := n) (m := m) hne] at h
  have := Soup.leads_work (S := network sha256 config) (A := Between a b) (fun w hw => ⟨.inr rfl, hw⟩) h
  rwa [update_pair_right hne] at this

theorem leads_deliver_right (hne : a ≠ b) {packet : Packet} (h : packet ∈ n.sent a) :
    Lts.Leads (network sha256 config).step (Between a b) (pair s a b n m)
      (pair s a b n (receive sha256 config b m packet)) := by
  rw [← pair_left (s := s) (a := a) (b := b) (n := n) (m := m)] at h
  have := Soup.leads_deliver (S := network sha256 config) (A := Between a b) (fun k => .inl ⟨rfl, rfl⟩) h
  rwa [update_pair_right hne, pair_right hne] at this

theorem leads_deliver_left (hne : a ≠ b) {packet : Packet} (h : packet ∈ m.sent b) :
    Lts.Leads (network sha256 config).step (Between a b) (pair s a b n m)
      (pair s a b (receive sha256 config a n packet) m) := by
  rw [← pair_right (s := s) (n := n) (m := m) hne] at h
  have := Soup.leads_deliver (S := network sha256 config) (A := Between a b) (fun k => .inr ⟨rfl, rfl⟩) h
  rwa [update_pair_left, pair_left] at this

theorem honest_of_isSync {nodeName : Str} {w : Work} (h : isSync w = true) : Honest P nodeName n w := by
  cases w with
  | peer w =>
    cases w with
    | other a =>
      cases a with
      | addBlock | onSendNewBlocksResponse => cases h
      | pollForNewBlocks | onHasNewBlocksResponse | call | put | report => trivial
    | onHasNewBlocksResponse | handlerAnswered | pollForNewBlocks | pollAppended => trivial
  | read | restart => trivial

/-- **What the two nodes do keeps all nodes on the chain.** -/
theorem nodeOn_between (hP : ∀ b ∈ P.blocks, b.Typed) {s' : Network} (hs : ∀ name, NodeOn P (s name))
    (h : Lts.Leads (network sha256 config).step (Between a b) s s') : ∀ name, NodeOn P (s' name) := by
  refine h.inv (I := fun s => ∀ name, NodeOn P (s name)) (fun s w s' hs hw ht => ?_) hs
  refine (network_step hP hs ?_ ht).1
  cases w with
  | work node w => exact @honest_of_isSync _ _ (s node) node w hw.2
  | deliver => trivial

theorem lt_of_lastAt (hP : ∀ b ∈ P.blocks, b.Typed) {storage : BlockStorage} (h : LastAt P storage k) : k < 2 ^ 32 := by
  obtain ⟨last, -, hPk⟩ := h
  rw [← height_eq P hPk]
  exact (hP last (List.mem_of_getElem? hPk)).height

variable (config s) in
/-- **The peer's answer, and the request**: the peer comes to read the blocks above the node's last one. -/
theorem leads_request (hP : ∀ b ∈ P.blocks, b.Typed) (hne : a ≠ b) (hnone : n.peer.service.node = none)
    (hwaiting : n.peer.waiting = none) (hk : LastAt P n.blockStorage k) (hbroadcast : SyncPeer.hasNewBlocksMessage k ∈ n.peer.broadcasts)
    (hK : LastAt P m.blockStorage K) (hlt : k < K) :
    ∃ n' m' servings, Lts.Leads (network sha256 config).step (Between a b) (pair s a b n m) (pair s a b n' m') ∧
      n'.blockStorage = n.blockStorage ∧ m'.peer = m.peer ∧ m'.servings = servings ++ [{
        fromAddress := a, height := k
        lastBlockHeight := min K (k + (config b).service.batchSize * (config b).service.batchSize), blocks := [] }] := by
  have hklt := lt_of_lastAt hP hk
  obtain ⟨last, hlast, hPlast⟩ := id hk
  -- The peer has more, and the node starts to sync with it.
  let m₁ : Node := { m with replies := m.replies ++ [hasNewBlocksResponse b a true] }
  have hm₁ : receive sha256 config b m
      { fromAddress := a, recipient := none, messageType := "HasNewBlocksMessage".toList
        buffer := SyncPeer.heightBuffer k } = m₁ := receive_hasNewBlocksMessage hne hK hlt hklt
  have hanswers : Lts.Leads (network sha256 config).step (Between a b) (pair s a b n m) (pair s a b n m₁) := by
    rw [← hm₁]
    exact leads_deliver_right hne (broadcast_mem_sent hbroadcast)
  let n₁ : Node := { n with peer := { n.peer with
    service := { n.peer.service with node := some b }
    waiting := some { fromAddress := b, lastBlock := some last } } }
  have hn₁ : receive sha256 config a n (hasNewBlocksResponse b a true) = n₁ := by
    rw [receive_hasNewBlocksResponse hnone hwaiting, hlast]
  have hstarts : Lts.Leads (network sha256 config).step (Between a b) (pair s a b n m₁) (pair s a b n₁ m₁) := by
    rw [← hn₁]
    exact leads_deliver_left hne (reply_mem_sent (List.mem_append_right _ (List.mem_singleton.2 rfl)))
  -- The handler goes on, and its request arrives.
  have hnode : n₁.peer.service.node = some b := rfl
  obtain ⟨n₂, hwork, hservice, hrequest⟩ := work_handlerAnswered sha256 config a hnode rfl
  have hrequests : Lts.Leads (network sha256 config).step (Between a b) (pair s a b n₁ m₁) (pair s a b n₂ m₁) :=
    leads_left (leads_sync rfl hwork)
  obtain ⟨lastK, hlK, hPK⟩ := hK
  let m₂ : Node := { m₁ with servings := m₁.servings ++ [{
    fromAddress := a, height := k
    lastBlockHeight := min K (k + (config b).service.batchSize * (config b).service.batchSize), blocks := [] }] }
  have hm₂ : receive sha256 config b m₁
      { fromAddress := a, recipient := some b, messageType := "SendNewBlocks".toList
        buffer := SyncPeer.heightBuffer k } = m₂ := by
    rw [receive_sendNewBlocks (n := m₁) hlK hklt, height_eq P hPK]
    rfl
  have hserves : Lts.Leads (network sha256 config).step (Between a b) (pair s a b n₂ m₁) (pair s a b n₂ m₂) := by
    rw [height_eq P hPlast] at hrequest
    rw [← hm₂]
    exact leads_deliver_right hne (request_mem_sent hrequest)
  refine ⟨n₂, m₂, m.servings, hanswers.trans (hstarts.trans (hrequests.trans hserves)), ?_, rfl, rfl⟩
  rw [Node.blockStorage, hservice]
  rfl

/-- **One round**: the node that is behind comes at least one block further. -/
theorem leads_round (hP : ∀ b ∈ P.blocks, b.Typed) (hne : a ≠ b) (hacc : Accepts (config a).blockStorage P)
    (hsize : 0 < (config b).service.batchSize) (hinterval : 0 < (config b).service.batchesPerInterval)
    (hs : ∀ name, NodeOn P (s name)) (hk : LastAt P (s a).blockStorage k) (hK : LastAt P (s b).blockStorage K)
    (hlt : k < K) :
    ∃ n m k', Lts.Leads (network sha256 config).step (Between a b) s (pair s a b n m) ∧
      LastAt P n.blockStorage k' ∧ m.blockStorage = (s b).blockStorage ∧ k < k' := by
  obtain ⟨n₁, k₁, hpoll, hnone, hwaiting, hk₁, hle, -, hbroadcast⟩ := leads_poll config a hacc (hs a).service hk
  have hpolls : Lts.Leads (network sha256 config).step (Between a b) s (pair s a b n₁ (s b)) := by
    have := leads_left (s := s) (b := b) (m := s b) hpoll
    rwa [pair_self] at this
  rcases Nat.lt_or_ge k₁ K with hlt₁ | hge
  swap
  · exact ⟨n₁, s b, k₁, hpolls, hk₁, rfl, by omega⟩
  obtain ⟨n₂, m₂, servings, hrequest, hn₂, hm₂, hservings⟩ :=
    leads_request config s hP hne hnone hwaiting hk₁ hbroadcast hK hlt₁
  -- The peer has the blocks up to its last one.
  obtain ⟨lastK, hlK, hPK⟩ := hK
  obtain ⟨K', hPK', hstored⟩ := (hs b).service.storage.lastBlock lastK hlK
  obtain rfl : K' = K := (height_eq P hPK').symm.trans (height_eq P hPK)
  have hstored₂ : ∀ j ≤ min K' (k₁ + (config b).service.batchSize * (config b).service.batchSize),
      Stored P m₂.blockStorage.db j := by
    intro j hj
    rw [Node.blockStorage, hm₂]
    exact hstored j (hj.trans (min_le_left _ _))
  obtain ⟨next, hnext, -⟩ := hstored (k₁ + 1) hlt₁
  have hsquare : 0 < (config b).service.batchSize * (config b).service.batchSize := Nat.mul_pos hsize hsize
  obtain ⟨m₃, batch, hreads, hm₃, hreply, hbatch, hmem⟩ := leads_serving config b hP hsize hinterval hservings rfl
    (lt_min hlt₁ (Nat.lt_add_of_pos_right hsquare)) hstored₂ hnext
  -- The batch that has the next block arrives.
  obtain ⟨wires, hwires, hn₃⟩ := @receive_sendNewBlocksResponse sha256 config a n₂ b a batch fun d hd => hP d (hbatch d hd)
  have hbatches : Lts.Leads (network sha256 config).step (Between a b) (pair s a b n₂ m₃)
      (pair s a b (receive sha256 config a n₂ (sendNewBlocksResponse b a batch)) m₃) :=
    leads_deliver_left hne (reply_mem_sent hreply)
  have hleads := hpolls.trans (hrequest.trans ((leads_right hne hreads).trans hbatches))
  have hOn := nodeOn_between hP hs hleads a
  rw [pair_left] at hOn
  have hk₃ : LastAt P (receive sha256 config a n₂ (sendNewBlocksResponse b a batch)).blockStorage k₁ := by
    rw [hn₃]
    change LastAt P n₂.blockStorage k₁
    rwa [hn₂]
  obtain ⟨n₄, k₄, hpoll₄, -, -, hk₄, -, hqueued, -⟩ := leads_poll config a hacc hOn.service hk₃
  obtain ⟨w, hw, rfl⟩ := List.mem_map.1 (hwires ▸ hmem)
  have hnext₄ := hqueued w (by rw [hn₃]; exact List.mem_append_right _ hw) hnext
  refine ⟨n₄, m₃, k₄, hleads.trans (leads_left hpoll₄), hk₄, ?_, by omega⟩
  rw [Node.blockStorage, hm₃, hm₂]
  rfl

variable (config s) in
/-- **Round after round**, until the node has the peer's blocks. -/
theorem leads_peer (hP : ∀ b ∈ P.blocks, b.Typed) (hne : a ≠ b) (hacc : Accepts (config a).blockStorage P)
    (hsize : 0 < (config b).service.batchSize) (hinterval : 0 < (config b).service.batchesPerInterval)
    (hK : LastAt P (s b).blockStorage K) : ∀ {d k : ℕ} {n m : Node}, (∀ name, NodeOn P (pair s a b n m name)) →
    LastAt P n.blockStorage k → m.blockStorage = (s b).blockStorage → K ≤ k + d →
    ∃ n' m' k', Lts.Leads (network sha256 config).step (Between a b) (pair s a b n m) (pair s a b n' m') ∧
      LastAt P n'.blockStorage k' ∧ m'.blockStorage = (s b).blockStorage ∧ K ≤ k' := by
  intro d
  induction d with
  | zero => exact fun {k n m} _ hk hm hle => ⟨n, m, k, .refl _, hk, hm, hle⟩
  | succ d ih =>
    intro k n m hs hk hm hle
    rcases Nat.lt_or_ge k K with hlt | hge
    swap
    · exact ⟨n, m, k, .refl _, hk, hm, hge⟩
    have hk' : LastAt P (pair s a b n m a).blockStorage k := by rwa [pair_left]
    have hK' : LastAt P (pair s a b n m b).blockStorage K := by rwa [pair_right hne, hm]
    obtain ⟨n₁, m₁, k₁, hround, hk₁, hm₁, hlt₁⟩ := leads_round hP hne hacc hsize hinterval hs hk' hK' hlt
    rw [pair_pair] at hround
    rw [pair_right hne, hm] at hm₁
    obtain ⟨n₂, m₂, k₂, hrest, hk₂, hm₂, hle₂⟩ := ih (nodeOn_between hP hs hround) hk₁ hm₁ (by omega)
    exact ⟨n₂, m₂, k₂, hround.trans hrest, hk₂, hm₂, hle₂⟩

theorem exists_lastAt (hn : NodeOn P n) (h : n.blockStorage.lastBlock.isSome = true) : ∃ k, LastAt P n.blockStorage k := by
  obtain ⟨last, hl⟩ := Option.isSome_iff_exists.1 h
  obtain ⟨k, hk, -⟩ := hn.service.storage.lastBlock last hl
  exact ⟨k, last, hl, hk⟩

/-- Under its last block a node has the chain. -/
theorem getBlock_of_lastAt (hP : ∀ b ∈ P.blocks, b.Typed) (hn : NodeOn P n) (hk : LastAt P n.blockStorage k) {i : ℕ}
    (hi : i ≤ k) : ∃ d, P.blocks[i]? = some d ∧ n.blockStorage.getBlock i = .ok d := by
  obtain ⟨last, hl, hPk⟩ := hk
  obtain ⟨k', hPk', hstored⟩ := hn.service.storage.lastBlock last hl
  obtain rfl : k' = k := (height_eq P hPk').symm.trans (height_eq P hPk)
  have hi := hstored i hi
  obtain ⟨d, hd, -⟩ := id hi
  exact ⟨d, hd, getBlock_of_stored hP hd hi⟩

/-- The nodes catch up one after the other, and the peer's storage stays as it is. -/
theorem leads_followers (hP : ∀ b ∈ P.blocks, b.Typed) (hsize : 0 < (config b).service.batchSize)
    (hinterval : 0 < (config b).service.batchesPerInterval) : ∀ {followers : List Str} {t : Network},
    (∀ a ∈ followers, Accepts (config a).blockStorage P) → (∀ name, NodeOn P (t name)) →
    LastAt P (t b).blockStorage K → (∀ a ∈ followers, (t a).blockStorage.lastBlock.isSome = true) →
    ∃ u, Lts.Leads (network sha256 config).step (fun x => ∃ a ∈ followers, a ≠ b ∧ Between a b x) t u ∧
      (u b).blockStorage = (t b).blockStorage ∧ (∀ a ∈ followers, ∃ k, LastAt P (u a).blockStorage k ∧ K ≤ k) ∧
      ∀ name, name ∉ followers → name ≠ b → u name = t name := by
  intro followers
  induction followers with
  | nil => exact fun {t} _ _ _ _ => ⟨t, .refl t, rfl, fun a ha => absurd ha List.not_mem_nil, fun _ _ _ => rfl⟩
  | cons a followers ih =>
    intro t hacc ht hK hloaded
    have hacc' := fun c hc => hacc c (List.mem_cons_of_mem _ hc)
    have hmono : ∀ x, (∃ c ∈ followers, c ≠ b ∧ Between c b x) → ∃ c ∈ a :: followers, c ≠ b ∧ Between c b x := by
      rintro x ⟨c, hc, hx⟩
      exact ⟨c, List.mem_cons_of_mem _ hc, hx⟩
    by_cases hab : a = b
    · obtain ⟨u, hu, hub, hcaught, hother⟩ := ih hacc' ht hK fun c hc => hloaded c (List.mem_cons_of_mem _ hc)
      refine ⟨u, hu.mono hmono, hub, fun c hc => ?_, fun name hname => hother name fun hm => hname (List.mem_cons_of_mem _ hm)⟩
      rcases List.mem_cons.1 hc with rfl | hc
      · refine ⟨K, ?_, le_rfl⟩
        rwa [hab, hub]
      · exact hcaught c hc
    obtain ⟨k, hk⟩ := exists_lastAt (ht a) (hloaded a List.mem_cons_self)
    have hself : ∀ name, NodeOn P (pair t a b (t a) (t b) name) := by rwa [pair_self]
    obtain ⟨n, m, k', hpeer, hk', hm, hle⟩ := leads_peer config t hP hab (hacc a List.mem_cons_self) hsize hinterval hK
      hself hk rfl (Nat.le_add_left K k)
    rw [pair_self] at hpeer
    let t₁ := pair t a b n m
    have ht₁a : t₁ a = n := pair_left
    have ht₁b : (t₁ b).blockStorage = (t b).blockStorage := by
      change (pair t a b n m b).blockStorage = _
      rw [pair_right hab, hm]
    have ht₁ : ∀ c, c ≠ a → c ≠ b → t₁ c = t c := fun c ha hb => (if_neg ha).trans (if_neg hb)
    have hloaded₁ : ∀ c ∈ followers, (t₁ c).blockStorage.lastBlock.isSome = true := by
      intro c hc
      by_cases ha : c = a
      · obtain ⟨last, hl, -⟩ := hk'
        rw [ha, ht₁a, hl]
        rfl
      · by_cases hb : c = b
        · have := hloaded c (List.mem_cons_of_mem _ hc)
          rwa [hb, ht₁b, ← hb]
        · rw [ht₁ c ha hb]
          exact hloaded c (List.mem_cons_of_mem _ hc)
    obtain ⟨u, hu, hub, hcaught, hother⟩ := ih hacc' (nodeOn_between hP ht hpeer) (by rwa [ht₁b]) hloaded₁
    have hfirst := hpeer.mono (B := fun x => ∃ c ∈ a :: followers, c ≠ b ∧ Between c b x) fun x hx =>
      ⟨a, List.mem_cons_self, hab, hx⟩
    refine ⟨u, hfirst.trans (hu.mono hmono), hub.trans ht₁b, fun c hc => ?_, fun name hname hb => ?_⟩
    · by_cases hmem : c ∈ followers
      · exact hcaught c hmem
      · obtain rfl : c = a := (List.mem_cons.1 hc).resolve_right hmem
        refine ⟨k', ?_, hle⟩
        rwa [hother c hmem hab, pair_left]
    · rw [List.mem_cons, not_or] at hname
      exact (hother name hname.2 hb).trans (ht₁ name hname.1 hb)

/-- **The network can always converge**: from wherever a run has brought it, polls and messages alone, without a new block
and without a restart, bring any nodes that have loaded to the height of any peer, with the peer's blocks. -/
theorem catch_up (hP : ∀ b ∈ P.blocks, b.Typed) {s t : Network} {as : List Action} (h0 : Started P s)
    (hg : Lts.Meets (network sha256 config).step (Soup.Guard (Honest P)) s as)
    (ht : Lts.run (network sha256 config).step s as = some t) {last : Block}
    (hlast : (t b).blockStorage.lastBlock = some last) (hsize : 0 < (config b).service.batchSize)
    (hinterval : 0 < (config b).service.batchesPerInterval) {followers : List Str}
    (hacc : ∀ a ∈ followers, Accepts (config a).blockStorage P)
    (hloaded : ∀ a ∈ followers, (t a).blockStorage.lastBlock.isSome = true) :
    ∃ u, Lts.Leads (network sha256 config).step (fun x => ∃ a ∈ followers, a ≠ b ∧ Between a b x) t u ∧
      ∀ a ∈ followers, (∃ l, (u a).blockStorage.lastBlock = some l ∧ last.header.height ≤ l.header.height) ∧
        ∀ i : ℕ, i ≤ last.header.height →
          (u a).blockStorage.getBlock i = (t b).blockStorage.getBlock i ∧
          ∃ d, (t b).blockStorage.getBlock i = .ok d := by
  have hinv : ∀ s a s', (∀ name, NodeOn P (s name)) → Soup.Guard (Honest P) s a →
      (network sha256 config).step s a = some s' → ∀ name, NodeOn P (s' name) := fun s a s' hs hg h =>
    (network_step hP hs hg h).1
  have htOn := Lts.run_inv hinv (nodeOn_of_started h0) hg ht
  obtain ⟨K, hPK, -⟩ := (htOn b).service.storage.lastBlock last hlast
  have hK : LastAt P (t b).blockStorage K := ⟨last, hlast, hPK⟩
  obtain ⟨u, hu, -, hcaught, -⟩ := leads_followers hP hsize hinterval hacc htOn hK hloaded
  have huOn : ∀ name, NodeOn P (u name) := by
    refine hu.inv (I := fun s => ∀ name, NodeOn P (s name)) (fun s x s' hs hx h => ?_) htOn
    obtain ⟨a, -, -, hx⟩ := hx
    exact nodeOn_between hP hs (Lts.leads_of_step hx h)
  refine ⟨u, hu, fun a ha => ?_⟩
  obtain ⟨k, hk, hle⟩ := hcaught a ha
  rw [height_eq P hPK]
  refine ⟨?_, fun i hi => ?_⟩
  · obtain ⟨l, hl, hPk⟩ := id hk
    exact ⟨l, hl, by rwa [height_eq P hPk]⟩
  · obtain ⟨d, hd, hget⟩ := getBlock_of_lastAt hP (huOn a) hk (hi.trans hle)
    obtain ⟨e, he, hget'⟩ := getBlock_of_lastAt hP (htOn b) hK hi
    cases hd.symm.trans he
    exact ⟨hget.trans hget'.symm, d, hget'⟩

end

theorem accepts_twoBlockChain : Accepts .unsigned twoBlockChain := by
  intro k last b hk hb
  rw [blocks_twoBlockChain] at hk hb
  rcases k with _ | _ | k
  · cases hk
    cases hb
    exact BlockStorageSync.verify_firstBlock []
  · cases hk
    cases hb
    exact verify_emptyBlock _ _
  · cases hb

theorem catch_up_handBlocks : ∃ t u, Lts.run (network Sha256.hash sampleConfig).step freshNetwork handBlocks = some t ∧
    heightAt t node2 = some 1 ∧
    Lts.Leads (network Sha256.hash sampleConfig).step (fun x => ∃ a ∈ [node2], a ≠ node1 ∧ Between a node1 x) t u ∧
    ∃ l, (u node2).blockStorage.lastBlock = some l ∧ 2 ≤ l.header.height := by
  obtain ⟨t, ht, hf⟩ := Option.map_eq_some_iff.1 run_handBlocks
  obtain ⟨h₁, hf⟩ := Prod.mk.inj hf
  obtain ⟨h₂, -⟩ := Prod.mk.inj hf
  obtain ⟨last, hlast, hheight⟩ := Option.map_eq_some_iff.1 h₁
  obtain ⟨stored, hstored, -⟩ := Option.map_eq_some_iff.1 h₂
  obtain ⟨u, hu, hcaught⟩ := catch_up typed_twoBlockChain started_freshNetwork (honest_handBlocks _) ht hlast (by decide)
    (by decide) (fun _ _ => accepts_twoBlockChain) fun a ha => by
      rw [List.mem_singleton.1 ha, hstored]
      rfl
  obtain ⟨l, hl, hle⟩ := (hcaught _ List.mem_cons_self).1
  exact ⟨t, u, ht, h₂, hu, l, hl, by omega⟩

end SyncNetwork
end Orbs
