import OrbsNetwork.BlockStorageService
import OrbsNetwork.Lib.JsObject
import OrbsNetwork.Lib.JsonWriter
/-!
# SyncPeer — the peer that is asked for blocks

A node that hears of a peer with more blocks starts to sync with it, awaits its own last block, and asks for the blocks
above that one.  Whom it asks it reads back from `BlockStorageSync` after the await.  `getLastBlock` returns a field, so its
promise is resolved when it is awaited: the handler goes on before the next message and the next tick of a timer come in,
and only other work that is under way can come between.

None of that work touches whom the node is syncing with, so every request goes to the peer whose response made its handler
start (`addressed`).
-/
namespace Orbs
namespace SyncPeer

open Js BlockStorage

/-- What `gossip.unicastMessage` is given; without a recipient it sends to all clients. -/
structure UnicastMessage where
  recipient : Option Str
  broadcastGroup : Str
  messageType : Str
  buffer : Bytes
  immediate : Bool

structure BroadcastMessage where
  broadcastGroup : Str
  messageType : Str
  buffer : Bytes
  immediate : Bool

/-- A call of `onHasNewBlocksResponse` that has started to sync and awaits `getLastBlock`. -/
structure Handler where
  fromAddress : Str
  lastBlock : Option Block

/-- Where a call of `pollForNewBlocks` is. -/
inductive Poll where
  /-- It awaits `appendBlocks`. -/
  | appending (caller : ℕ)
  | ended

/-- A `SendNewBlocks` message; `fromAddress` is a ghost, the peer whose response made the handler start to sync. -/
structure Request where
  fromAddress : Str
  message : UnicastMessage

structure State where
  service : BlockStorageService.State
  /-- The handler that has started to sync and has yet to go on. -/
  waiting : Option Handler
  polls : List Poll
  requests : List Request
  broadcasts : List BroadcastMessage

inductive Action where
  | onHasNewBlocksResponse (fromAddress : Str) (payload : Val)
  /-- The handler goes on. -/
  | handlerAnswered
  | pollForNewBlocks
  /-- The `appendBlocks` of a poll returns.  The poll then reads the last block and sends its message. -/
  | pollAppended (j : ℕ)
  /-- A piece of work that has no part in whom the service is syncing with. -/
  | other (a : BlockStorageService.Action)

/-- `payload.hasNewBlocks`, as a condition. -/
def hasNewBlocks (payload : Val) : Except Str Bool := (property (some payload) "hasNewBlocks".toList).map truthy

def heightBuffer (blockHeight : ℕ) : Bytes :=
  Utf8.encode (Val.obj [("blockHeight".toList, .ofNat blockHeight)]).stringify

def sendNewBlocks (recipient : Option Str) (blockHeight : ℕ) : UnicastMessage where
  recipient
  broadcastGroup := "blockStorage".toList
  messageType := "SendNewBlocks".toList
  buffer := heightBuffer blockHeight
  immediate := true

def hasNewBlocksMessage (blockHeight : ℕ) : BroadcastMessage where
  broadcastGroup := "blockStorage".toList
  messageType := "HasNewBlocksMessage".toList
  buffer := heightBuffer blockHeight
  immediate := true

def isOther : BlockStorageService.Action → Bool
  | .pollForNewBlocks | .onHasNewBlocksResponse _ _ => false
  | _ => true

section
variable (sha256 : Bytes → Bytes) (config : BlockStorageConfig)

def step (s : State) : Action → Option State
  | .onHasNewBlocksResponse fromAddress payload =>
    -- a message waits until the event before it is over
    if s.waiting.isSome then none
    else
      match hasNewBlocks payload with
      | .error _ => some s
      | .ok false =>
        if s.service.node = some fromAddress then some { s with service := { s.service with node := none } } else some s
      | .ok true =>
        if s.service.node = none then
          let handler := { fromAddress, lastBlock := s.service.blockStorage.lastBlock }
          some { s with service := { s.service with node := some fromAddress }, waiting := some handler }
        else some s
  | .handlerAnswered =>
    match s.waiting with
    | none => none
    | some handler =>
      let rest := { s with waiting := none }
      match handler.lastBlock with
      | none => some rest
      | some block =>
        let message := sendNewBlocks s.service.node block.header.height
        some { rest with requests := s.requests ++ [{ fromAddress := handler.fromAddress, message }] }
  | .pollForNewBlocks =>
    -- and so does a timer
    if s.waiting.isSome then none
    else some { s with
      service := BlockStorageService.appendBlocks { s.service with node := none }
      polls := s.polls ++ [.appending s.service.callers.length] }
  | .pollAppended j =>
    match s.polls[j]? with
    | some (.appending caller) =>
      match s.service.callers[caller]? with
      | some { flight := none, rest := [] } =>
        let rest := { s with polls := s.polls.set j .ended }
        match s.service.blockStorage.lastBlock with
        | none => some rest
        | some block => some { rest with broadcasts := s.broadcasts ++ [hasNewBlocksMessage block.header.height] }
      | _ => none
    | _ => none
  | .other a =>
    if isOther a then (BlockStorageService.step sha256 config s.service a).map fun service => { s with service }
    else none

end

def start (blockStorage : BlockStorage) : State where
  service := BlockStorageService.start blockStorage
  waiting := none
  polls := []
  requests := []
  broadcasts := []

/-! ## What a step does to the syncing -/

/-- What a handler sends when it goes on. -/
def Handler.request (handler : Handler) (node : Option Str) : Option Request :=
  handler.lastBlock.map fun block =>
    { fromAddress := handler.fromAddress, message := sendNewBlocks node block.header.height }

variable {sha256 : Bytes → Bytes} {config : BlockStorageConfig} {s s' : State}

/-- The other work of the service leaves alone whom it is syncing with. -/
theorem node_of_other {t t' : BlockStorageService.State} {a : BlockStorageService.Action} (ho : isOther a = true)
    (h : BlockStorageService.step sha256 config t a = some t') : t'.node = t.node := by
  cases a with
  | addBlock block =>
    rw [BlockStorageService.step] at h
    split at h <;> cases h <;> rfl
  | pollForNewBlocks | onHasNewBlocksResponse fromAddress b => cases ho
  | onSendNewBlocksResponse blocks =>
    cases h
    rfl
  | call i =>
    rw [BlockStorageService.step] at h
    split at h
    · split at h <;> cases h <;> rfl
    · cases h
  | put i =>
    rw [BlockStorageService.step] at h
    split at h <;> cases h <;> rfl
  | report i reported =>
    rw [BlockStorageService.step] at h
    split at h
    · split at h <;> cases h <;> rfl
    · cases h

/-- **A step starts to sync, ends the syncing, sends a request, or has no part in it.**  It starts and ends the syncing only
when no handler waits. -/
theorem step_cases {a : Action} (h : step sha256 config s a = some s') :
    (∃ fromAddress payload, a = .onHasNewBlocksResponse fromAddress payload ∧ hasNewBlocks payload = .ok true ∧
      s.waiting = none ∧ s.service.node = none ∧
      s' = { s with
        service := { s.service with node := some fromAddress }
        waiting := some { fromAddress, lastBlock := s.service.blockStorage.lastBlock } }) ∨
    (s.waiting = none ∧ (∃ b, BlockStorageService.step sha256 config s.service b = some s'.service) ∧
      s'.service.node = none ∧ s'.waiting = none ∧ s'.requests = s.requests) ∨
    (∃ handler, a = .handlerAnswered ∧ s.waiting = some handler ∧
      s' = { s with waiting := none, requests := s.requests ++ (handler.request s.service.node).toList }) ∨
    ((s'.service = s.service ∨
        ∃ b, isOther b = true ∧ BlockStorageService.step sha256 config s.service b = some s'.service) ∧
      s'.waiting = s.waiting ∧ s'.requests = s.requests) := by
  cases a with
  | onHasNewBlocksResponse fromAddress payload =>
    rw [step] at h
    split at h
    · cases h
    rename_i hw
    have hnone : s.waiting = none := Option.not_isSome_iff_eq_none.1 hw
    split at h <;> rename_i hb
    · cases h
      exact .inr (.inr (.inr ⟨.inl rfl, rfl, rfl⟩))
    · split at h <;> cases h <;> rename_i hn
      · refine .inr (.inl ⟨hnone, ⟨.onHasNewBlocksResponse fromAddress false, ?_⟩, rfl, hnone, rfl⟩)
        rw [BlockStorageService.step, if_neg Bool.false_ne_true, if_pos hn]
      · exact .inr (.inr (.inr ⟨.inl rfl, rfl, rfl⟩))
    · split at h <;> cases h <;> rename_i hn
      · exact .inl ⟨fromAddress, payload, rfl, hb, hnone, hn, rfl⟩
      · exact .inr (.inr (.inr ⟨.inl rfl, rfl, rfl⟩))
  | handlerAnswered =>
    rw [step] at h
    split at h
    · cases h
    rename_i handler hw
    refine .inr (.inr (.inl ⟨handler, rfl, hw, ?_⟩))
    dsimp only at h
    rw [Handler.request]
    split at h
    · rename_i hl
      cases h
      rw [hl, Option.map_none, Option.toList_none, List.append_nil]
    · rename_i block hl
      cases h
      rw [hl, Option.map_some, Option.toList_some]
  | pollForNewBlocks =>
    rw [step] at h
    split at h <;> cases h
    rename_i hw
    have hnone : s.waiting = none := Option.not_isSome_iff_eq_none.1 hw
    exact .inr (.inl ⟨hnone, ⟨.pollForNewBlocks, rfl⟩, rfl, hnone, rfl⟩)
  | pollAppended j =>
    rw [step] at h
    split at h
    · split at h
      · dsimp only at h
        split at h <;> cases h <;> exact .inr (.inr (.inr ⟨.inl rfl, rfl, rfl⟩))
      · cases h
    · cases h
  | other a =>
    rw [step] at h
    split at h
    · rename_i ho
      obtain ⟨t, ht, rfl⟩ := Option.map_eq_some_iff.1 h
      exact .inr (.inr (.inr ⟨.inr ⟨a, ho, ht⟩, rfl, rfl⟩))
    · cases h

/-- The service is one of `BlockStorageService`, however the handlers and the polls go on. -/
theorem service_of_step {a : Action} (h : step sha256 config s a = some s') :
    s'.service = s.service ∨ ∃ b, BlockStorageService.step sha256 config s.service b = some s'.service := by
  obtain ⟨fromAddress, payload, rfl, -, -, hn, rfl⟩ | ⟨-, hb, -⟩ | ⟨handler, rfl, -, rfl⟩ | ⟨hs, -⟩ := step_cases h
  · refine .inr ⟨.onHasNewBlocksResponse fromAddress true, ?_⟩
    rw [BlockStorageService.step, if_pos rfl, hn, Option.none_or]
  · exact .inr hb
  · exact .inl rfl
  · rcases hs with hs | ⟨b, -, hb⟩
    · exact .inl hs
    · exact .inr ⟨b, hb⟩

/-- A run of the handlers and the polls is one of the service. -/
theorem exists_run_service {as : List Action} (hr : Lts.run (step sha256 config) s as = some s') :
    ∃ bs, Lts.run (BlockStorageService.step sha256 config) s.service bs = some s'.service :=
  Lts.exists_run_of_follows (f := State.service) (fun _ _ _ h => service_of_step h) hr

/-! ## The peer that is asked -/

/-- The peer has said that it has more blocks. -/
def Offered (as : List Action) (peer : Str) : Prop :=
  ∃ payload, .onHasNewBlocksResponse peer payload ∈ as ∧ hasNewBlocks payload = .ok true

/-- Every request goes to the peer whose response made its handler start to sync. -/
def Addressed (as : List Action) (s : State) : Prop :=
  ∀ r ∈ s.requests, r.message.recipient = some r.fromAddress ∧ Offered as r.fromAddress

/-- The node is syncing with the peer that made the waiting handler start. -/
structure Inv (as : List Action) (s : State) : Prop where
  waiting : ∀ handler ∈ s.waiting, s.service.node = some handler.fromAddress ∧ Offered as handler.fromAddress
  addressed : Addressed as s

theorem mem_request {handler : Handler} {node : Option Str} {r : Request} (h : r ∈ (handler.request node).toList) :
    r.fromAddress = handler.fromAddress ∧ r.message.recipient = node := by
  rw [Option.mem_toList, Handler.request] at h
  obtain ⟨block, -, rfl⟩ := Option.map_eq_some_iff.1 h
  exact ⟨rfl, rfl⟩

theorem inv_start (as : List Action) (blockStorage : BlockStorage) : Inv as (start blockStorage) where
  waiting := fun _ h => by cases h
  addressed := fun _ h => by cases h

theorem inv_step {as : List Action} (hi : Inv as s) {a : Action} (ha : a ∈ as)
    (h : step sha256 config s a = some s') : Inv as s' := by
  obtain ⟨fromAddress, payload, rfl, hb, -, -, rfl⟩ | ⟨-, -, -, hw, hq⟩ | ⟨handler, rfl, hw, rfl⟩ | ⟨hs, hw, hq⟩ :=
    step_cases h
  · refine ⟨fun handler hm => ?_, hi.addressed⟩
    cases hm
    exact ⟨rfl, payload, ha, hb⟩
  · refine ⟨fun handler hm => ?_, fun r hr => hi.addressed r (hq ▸ hr)⟩
    rw [hw] at hm
    cases hm
  · refine ⟨fun _ hm => absurd hm (Option.not_mem_none _), fun r hr => ?_⟩
    rcases List.mem_append.1 hr with hr | hr
    · exact hi.addressed r hr
    · obtain ⟨hfrom, hrecipient⟩ := mem_request hr
      rw [hrecipient, hfrom]
      exact hi.waiting handler hw
  · refine ⟨fun handler hm => ?_, fun r hr => hi.addressed r (hq ▸ hr)⟩
    have hnode : s'.service.node = s.service.node := by
      rcases hs with hs | ⟨b, ho, hb⟩
      · rw [hs]
      · exact node_of_other ho hb
    rw [hnode]
    exact hi.waiting handler (hw ▸ hm)

/-- **Sync requests go to the peer that offered blocks**, whatever messages and polls come in and however they interleave. -/
theorem addressed {blockStorage : BlockStorage} {as : List Action}
    (hr : Lts.run (step sha256 config) (start blockStorage) as = some s) : Addressed as s := by
  have hmem : Lts.Meets (step sha256 config) (fun _ a => a ∈ as) (start blockStorage) as :=
    Lts.meets_of_mem (Lts.meets_of_forall (fun _ _ => trivial) as _) fun _ _ ha (_ : True) => ha
  exact (Lts.run_inv (fun _ _ _ hi ha h => inv_step hi ha h) (inv_start as blockStorage) hmem hr).addressed

/-! ## A run with two peers -/

/-- The genesis storage. -/
def fresh : State := start (load Sha256.hash (opened .empty)).2

def offer (more : Bool) : Val := .obj [("hasNewBlocks".toList, .bool more)]

/-- A poll ends the syncing with the first peer, and the second one has no more blocks when the first offers again. -/
def twoPeers : List Action :=
  [.onHasNewBlocksResponse "node1".toList (offer true), .handlerAnswered, .pollForNewBlocks,
    .onHasNewBlocksResponse "node2".toList (offer true), .pollAppended 0, .handlerAnswered,
    .onHasNewBlocksResponse "node2".toList (offer false), .onHasNewBlocksResponse "node1".toList (offer true),
    .handlerAnswered]

def recipients (s : State) : List (Str × Option Str) := s.requests.map fun r => (r.fromAddress, r.message.recipient)

theorem run_twoPeers : ((Lts.run (step Sha256.hash .unsigned) fresh twoPeers).map fun s =>
    (recipients s, s.broadcasts.length)) =
      some ([("node1".toList, some "node1".toList), ("node2".toList, some "node2".toList),
        ("node1".toList, some "node1".toList)], 1) := by
  decide +kernel

theorem addressed_twoPeers : ∃ s, Lts.run (step Sha256.hash .unsigned) fresh twoPeers = some s ∧
    recipients s = [("node1".toList, some "node1".toList), ("node2".toList, some "node2".toList),
      ("node1".toList, some "node1".toList)] ∧ Addressed twoPeers s := by
  obtain ⟨s, hs, hf⟩ := Option.map_eq_some_iff.1 run_twoPeers
  exact ⟨s, hs, congrArg Prod.fst hf, addressed hs⟩

end SyncPeer
end Orbs
