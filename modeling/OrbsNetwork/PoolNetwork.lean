import OrbsNetwork.BlockCommit
import OrbsNetwork.TransactionAdmission
import OrbsNetwork.TransactionId
import OrbsNetwork.Lib.Soup
import Mathlib.Data.List.Perm.Subperm
/-!
# PoolNetwork — transaction pools that gossip

Every node has a transaction pool of its own, with its own clock, lifespans and answers of the subscription manager.  A
pool broadcasts a transaction that a client has sent it when it has stored it, and stores one that it gets by gossip
without sending it on.  The gossip may lose a message, repeat it, delay it or deliver it to somebody else.

Nothing is pending anywhere that a client has not sent to some node, and there are no more broadcasts than requests of
clients (`accounted`).  Messages alone can bring every transaction that was ever broadcast into every pool that does
not refuse it (`spreads`).
-/
namespace Orbs
namespace PoolNetwork

open Js TransactionPool
open TransactionHelper (calculateTransactionId)

/-- A message to the broadcast group of the pools. -/
structure Packet where
  messageType : Str
  buffer : Bytes

/-- `broadcastTransactionToOtherNodes`. -/
def broadcastTransaction (transaction : Transaction) : Packet where
  messageType := "newTransaction".toList
  buffer := TransactionAdmission.message (Transaction.codec.enc transaction)

/-- What `gossipMessageReceived` reads from a message. -/
def Packet.transaction (packet : Packet) : Option Transaction :=
  (TransactionAdmission.newTransaction packet.messageType packet.buffer).bind Transaction.codec.dec

def isRequest : TransactionPool.Action → Bool
  | .addNewPendingTransaction _ | .newTransaction _ => true
  | _ => false

inductive Work where
  | addNewPendingTransaction (transaction : WireTransaction)
  /-- What is no request. -/
  | pool (a : TransactionPool.Action)

section
variable {ν : Type} (cfg : ν → Config)

def work (node : ν) (s : State) : Work → Option State
  | .addNewPendingTransaction transaction => step (cfg node) s (.addNewPendingTransaction transaction.1)
  | .pool a => if isRequest a then none else step (cfg node) s a

def receive (node : ν) (s : State) (packet : Packet) : State :=
  match packet.transaction with
  | some transaction => orElse s (request (cfg node) s transaction false)
  | none => s

def network : Soup ν State Packet Work where
  work := work cfg
  receive := receive cfg
  sent := fun _ s => s.broadcasts.map broadcastTransaction

end

theorem transaction_broadcast (tx : WireTransaction) : (broadcastTransaction tx.1).transaction = some tx.1 := by
  have hr := Transaction.inRange tx.2
  unfold Packet.transaction broadcastTransaction
  rw [TransactionAdmission.newTransaction_message (Transaction.codec.proper tx.1 hr), Option.bind_some,
    Transaction.codec.dec_enc tx.1 hr]

/-- A broadcast comes as a request. -/
theorem receive_broadcast {ν : Type} (cfg : ν → Config) (node : ν) (s : State) {tx : Transaction}
    (h : tx.header.version < 2 ^ 32) :
    (network cfg).receive node s (broadcastTransaction tx) = orElse s (request (cfg node) s tx false) := by
  have hread := transaction_broadcast ⟨tx, h⟩
  dsimp only at hread
  unfold network
  dsimp only
  rw [receive, hread]

/-! ## What one pool does -/

/-- The validator accepts it, if the subscription manager does. -/
def Valid (cfg : Config) (tx : Transaction) : Prop :=
  ∃ f, TransactionValidator.validate cfg.crypto cfg.options f tx = .ok true

/-- A step of a pool that was offered `offered`, with whether it came from a client. -/
structure Accounts (cfg : Config) (offered : Option (Transaction × Bool)) (s s' : State) : Prop where
  pending : ∀ txid tx, s'.pools.pendingTransactions.get txid = some tx →
    s.pools.pendingTransactions.get txid = some tx ∨
      Valid cfg tx ∧ ∃ a ∈ s.admissions, a.transaction = tx ∧ (a.broadcast = true → tx ∈ s'.broadcasts)
  admissions : ∀ a ∈ s'.admissions, a ∈ s.admissions ∨ offered = some (a.transaction, a.broadcast)
  broadcasts : ∀ tx ∈ s'.broadcasts, tx ∈ s.broadcasts ∨
    Valid cfg tx ∧ ∃ a ∈ s.admissions, a.transaction = tx ∧ a.broadcast = true
  kept : s.broadcasts <+: s'.broadcasts

theorem Accounts.refl {cfg : Config} (offered : Option (Transaction × Bool)) (s : State) : Accounts cfg offered s s where
  pending := fun _ _ h => .inl h
  admissions := fun _ h => .inl h
  broadcasts := fun _ h => .inl h
  kept := List.prefix_rfl

theorem accounts_request {cfg : Config} {s : State} (tx : Transaction) (broadcast : Bool) :
    Accounts cfg (some (tx, broadcast)) s (orElse s (request cfg s tx broadcast)) := by
  rcases step_request (s := s) rfl with h | h
  · rw [h]
    exact .refl _ s
  · obtain ⟨-, -, -, hs⟩ := request_eq_ok h
    rw [hs]
    refine ⟨fun _ _ h => .inl h, fun a ha => ?_, fun _ h => .inl h, List.prefix_rfl⟩
    rcases List.mem_append.1 ha with hold | hnew
    · exact .inl hold
    · rw [List.mem_singleton.1 hnew]
      exact .inr rfl

/-- A step that is no request: the validator has answered, or nothing comes in. -/
theorem step_cases {cfg : Config} {s s' : State} {a : TransactionPool.Action} (ha : isRequest a = false)
    (h : step cfg s a = some s') :
    (∃ i f a, s.admissions[i]? = some a ∧
      (s' = { s with admissions := s.admissions.eraseIdx i } ∨
        TransactionValidator.validate cfg.crypto cfg.options f a.transaction = .ok true ∧
        s' = store cfg { s with admissions := s.admissions.eraseIdx i } a)) ∨
      s'.admissions = s.admissions ∧ s'.broadcasts = s.broadcasts ∧
        ∀ txid tx, s'.pools.pendingTransactions.get txid = some tx → s.pools.pendingTransactions.get txid = some tx := by
  cases a with
  | addNewPendingTransaction tx | newTransaction tx => cases ha
  | validated i f =>
    obtain ⟨a, hi, hs⟩ := step_validated h
    exact .inl ⟨i, f, a, hi, hs⟩
  | markCommittedTransactions m =>
    cases h
    exact .inr ⟨rfl, rfl, fun _ _ h => h⟩
  | clearCommitted j =>
    rw [step] at h
    split at h <;> cases h
    exact .inr ⟨rfl, rfl, fun _ _ h => ((JsMap.get_foldl_delete _).1 h).1⟩
  | cleanupPending =>
    cases h
    exact .inr ⟨rfl, rfl, fun _ _ h => JsMap.get_of_get_filter h⟩
  | cleanupCommitted =>
    cases h
    exact .inr ⟨rfl, rfl, fun _ _ h => h⟩
  | tick now =>
    rw [step] at h
    split_ifs at h
    cases h
    exact .inr ⟨rfl, rfl, fun _ _ h => h⟩

theorem accounts_step {cfg : Config} {s s' : State} {a : TransactionPool.Action} (ha : isRequest a = false)
    (h : step cfg s a = some s') : Accounts cfg none s s' := by
  obtain ⟨i, f, a, hi, hs⟩ | ⟨hadmissions, hbroadcasts, hpending⟩ := step_cases ha h
  · have hmem := List.mem_of_getElem? hi
    rcases hs with rfl | ⟨hv, rfl⟩
    · exact ⟨fun _ _ h => .inl h, fun a ha => .inl (List.mem_of_mem_eraseIdx ha), fun _ h => .inl h, List.prefix_rfl⟩
    refine ⟨fun txid tx hp => ?_, fun a ha => .inl (List.mem_of_mem_eraseIdx ha), fun tx ht => ?_, ?_⟩
    · unfold store Pools.setPending at hp
      dsimp only at hp
      rw [JsMap.get_set] at hp
      split_ifs at hp with ht
      · cases hp
        refine .inr ⟨⟨f, hv⟩, a, hmem, rfl, fun hb => ?_⟩
        rw [store, if_pos hb]
        exact List.mem_append_right _ List.mem_cons_self
      · exact .inl hp
    · rw [store] at ht
      dsimp only at ht
      split_ifs at ht with hb
      · rcases List.mem_append.1 ht with hold | hnew
        · exact .inl hold
        · rw [List.mem_singleton.1 hnew]
          exact .inr ⟨⟨f, hv⟩, a, hmem, rfl, hb⟩
      · exact .inl ht
    · rw [store]
      dsimp only
      split_ifs
      · exact List.prefix_append _ _
      · exact List.prefix_rfl
  · refine ⟨fun txid tx hp => .inl (hpending txid tx hp), fun a ha => .inl ?_, fun tx ht => .inl ?_, ?_⟩
    · rwa [← hadmissions]
    · rwa [← hbroadcasts]
    · rw [hbroadcasts]

/-! ## Requests and broadcasts -/

/-- The clients' transactions that wait for the validator. -/
def waiting (s : State) : List Transaction := (s.admissions.filter fun a => a.broadcast).map Admission.transaction

/-- What a pool has taken from its clients: it has broadcast it, or may still do so. -/
def taken (s : State) : List Transaction := s.broadcasts ++ waiting s

theorem taken_request (cfg : Config) (s : State) (tx : Transaction) (broadcast : Bool) :
    taken (orElse s (request cfg s tx broadcast)) = taken s ∨
      taken (orElse s (request cfg s tx broadcast)) = taken s ++ if broadcast then [tx] else [] := by
  rcases step_request (s := s) rfl with h | h
  · rw [h]
    exact .inl rfl
  · obtain ⟨-, -, -, hs⟩ := request_eq_ok h
    rw [hs]
    right
    unfold taken waiting
    rw [List.filter_append, List.map_append, List.append_assoc]
    cases broadcast <;> rfl

theorem waiting_eraseIdx {s : State} {i : ℕ} {a : Admission} (h : s.admissions[i]? = some a) :
    (waiting s).Perm ((if a.broadcast then [a.transaction] else []) ++
      waiting { s with admissions := s.admissions.eraseIdx i }) := by
  obtain ⟨hi, rfl⟩ := List.getElem?_eq_some_iff.1 h
  have hperm := ((List.getElem_cons_eraseIdx_perm hi).symm.filter fun a => a.broadcast).map Admission.transaction
  refine hperm.trans (List.Perm.of_eq ?_)
  unfold waiting
  rw [List.filter_cons]
  split_ifs <;> rfl

theorem taken_step {cfg : Config} {s s' : State} {a : TransactionPool.Action} (ha : isRequest a = false)
    (h : step cfg s a = some s') : (taken s').Subperm (taken s) := by
  obtain ⟨i, f, a, hi, hs⟩ | ⟨hadmissions, hbroadcasts, -⟩ := step_cases ha h
  · have hperm := waiting_eraseIdx hi
    have hdropped : (s.broadcasts ++ waiting { s with admissions := s.admissions.eraseIdx i }).Subperm (taken s) := by
      refine List.Subperm.trans ?_ ((List.subperm_append_left s.broadcasts).2 hperm.symm.subperm)
      exact (List.subperm_append_left _).2 (List.sublist_append_right _ _).subperm
    rcases hs with rfl | ⟨-, rfl⟩
    · exact hdropped
    cases hb : a.broadcast with
    | false =>
      unfold taken store
      rw [hb]
      exact hdropped
    | true =>
      unfold taken store
      rw [hb, if_pos rfl, List.append_assoc]
      refine (List.subperm_append_left _).2 ?_
      rw [hb] at hperm
      exact hperm.symm.subperm
  · unfold taken waiting
    rw [hadmissions, hbroadcasts]

/-! ## The network -/

section
variable {ν : Type} [DecidableEq ν] {cfg : ν → Config} {s s' : ν → State}

/-- The transactions that clients have sent to a node. -/
def requested (node : ν) (as : List (Soup.Action ν Work)) : List Transaction :=
  as.filterMap fun a => match a with
    | .work n (.addNewPendingTransaction transaction) => if n = node then some transaction.1 else none
    | _ => none

def Published (s : ν → State) (tx : Transaction) : Prop := ∃ node, tx ∈ (s node).broadcasts

structure Inv (cfg : ν → Config) (s : ν → State) : Prop where
  ids : ∀ node, BlockCommit.Ids (cfg node).crypto (s node).pools
  pending : ∀ node txid tx, (s node).pools.pendingTransactions.get txid = some tx → Valid (cfg node) tx ∧ Published s tx
  /-- What a pool got by gossip was broadcast. -/
  gossiped : ∀ node, ∀ a ∈ (s node).admissions, a.broadcast = false → Published s a.transaction
  typed : ∀ node, ∀ a ∈ (s node).admissions, a.broadcast = true → a.transaction.header.version < 2 ^ 32
  broadcasts : ∀ node, ∀ tx ∈ (s node).broadcasts, tx.header.version < 2 ^ 32 ∧ Valid (cfg node) tx

omit [DecidableEq ν] in
theorem inv_start (now : ν → Time) : Inv cfg fun node => TransactionPool.start (now node) where
  ids := fun _ _ _ h => by cases h
  pending := fun _ _ _ h => by cases h
  gossiped := fun _ _ h => by cases h
  typed := fun _ _ h => by cases h
  broadcasts := fun _ _ h => by cases h

theorem published_update {node : ν} {t : State} (hk : (s node).broadcasts <+: t.broadcasts) {tx : Transaction}
    (h : Published s tx) : Published (Function.update s node t) tx := by
  obtain ⟨n, hn⟩ := h
  refine ⟨n, ?_⟩
  rcases eq_or_ne n node with rfl | hne
  · rw [Function.update_self]
    exact hk.subset hn
  · rwa [Function.update_of_ne hne]

/-- **One node changes, as `Accounts` says.** -/
theorem inv_update {node : ν} {t : State} {offered : Option (Transaction × Bool)} (hi : Inv cfg s)
    (ha : Accounts (cfg node) offered (s node) t) (hids : BlockCommit.Ids (cfg node).crypto t.pools)
    (hgossip : ∀ tx, offered = some (tx, false) → Published s tx)
    (htyped : ∀ tx, offered = some (tx, true) → tx.header.version < 2 ^ 32) : Inv cfg (Function.update s node t) := by
  have hpub : ∀ tx, Published s tx → Published (Function.update s node t) tx := fun tx => published_update ha.kept
  have hself : ∀ tx ∈ t.broadcasts, Published (Function.update s node t) tx := fun tx h =>
    ⟨node, by rwa [Function.update_self]⟩
  refine ⟨fun n => ?_, fun n txid tx => ?_, fun n => ?_, fun n => ?_, fun n => ?_⟩ <;>
    rcases eq_or_ne n node with rfl | hne
  · rwa [Function.update_self]
  · rw [Function.update_of_ne hne]
    exact hi.ids n
  · rw [Function.update_self]
    intro hp
    rcases ha.pending txid tx hp with hold | ⟨hv, a, hm, rfl, hb⟩
    · exact (hi.pending n txid tx hold).imp_right (hpub tx)
    · cases hbr : a.broadcast with
      | true => exact ⟨hv, hself _ (hb hbr)⟩
      | false => exact ⟨hv, hpub _ (hi.gossiped n a hm hbr)⟩
  · rw [Function.update_of_ne hne]
    exact fun hp => (hi.pending n txid tx hp).imp_right (hpub tx)
  · rw [Function.update_self]
    intro a hm hb
    rcases ha.admissions a hm with hold | hnew
    · exact hpub _ (hi.gossiped n a hold hb)
    · rw [hb] at hnew
      exact hpub _ (hgossip _ hnew)
  · rw [Function.update_of_ne hne]
    exact fun a hm hb => hpub _ (hi.gossiped n a hm hb)
  · rw [Function.update_self]
    intro a hm hb
    rcases ha.admissions a hm with hold | hnew
    · exact hi.typed n a hold hb
    · rw [hb] at hnew
      exact htyped _ hnew
  · rw [Function.update_of_ne hne]
    exact hi.typed n
  · rw [Function.update_self]
    intro tx ht
    rcases ha.broadcasts tx ht with hold | ⟨hv, a, hm, rfl, hb⟩
    · exact hi.broadcasts n tx hold
    · exact ⟨hi.typed n a hm hb, hv⟩
  · rw [Function.update_of_ne hne]
    exact hi.broadcasts n

theorem inv_step {a : Soup.Action ν Work} (hi : Inv cfg s) (h : (network cfg).step s a = some s') : Inv cfg s' := by
  cases a with
  | work node a =>
    obtain ⟨t, ht, rfl⟩ := Soup.step_work.1 h
    cases a with
    | addNewPendingTransaction tx =>
      have hids := BlockCommit.ids_step (a := .addNewPendingTransaction tx.1) (hi.ids node) ht
      cases ht
      refine inv_update hi (accounts_request tx.1 true) hids (fun _ h => by cases h) fun tx' h => ?_
      cases h
      exact tx.2
    | pool a =>
      change (if isRequest a then none else step (cfg node) (s node) a) = some t at ht
      split_ifs at ht with hreq
      exact inv_update hi (accounts_step (Bool.eq_false_iff.2 hreq) ht) (BlockCommit.ids_step (hi.ids node) ht)
        (fun _ h => by cases h) (fun _ h => by cases h)
  | deliver sender receiver k =>
    obtain ⟨message, hm, rfl⟩ := Soup.step_deliver.1 h
    obtain ⟨tx, htx, rfl⟩ := List.mem_map.1 (List.mem_of_getElem? hm)
    rw [receive_broadcast cfg receiver (s receiver) (hi.broadcasts sender tx htx).1]
    have hids := BlockCommit.ids_step (a := .newTransaction tx) (hi.ids receiver) rfl
    refine inv_update hi (accounts_request tx false) hids (fun tx' h => ?_) (fun _ h => by cases h)
    cases h
    exact ⟨sender, htx⟩

theorem requested_append (node : ν) (as bs : List (Soup.Action ν Work)) :
    requested node (as ++ bs) = requested node as ++ requested node bs := List.filterMap_append

theorem taken_update {node : ν} {t : State} (n : ν) {a : Soup.Action ν Work}
    (h : (taken t).Subperm (taken (s node) ++ requested node [a])) :
    (taken (Function.update s node t n)).Subperm (taken (s n) ++ requested n [a]) := by
  rcases eq_or_ne n node with rfl | hne
  · rwa [Function.update_self]
  · rw [Function.update_of_ne hne]
    exact (List.sublist_append_left _ _).subperm

theorem taken_network {a : Soup.Action ν Work} (h : (network cfg).step s a = some s') (hi : Inv cfg s) (n : ν) :
    (taken (s' n)).Subperm (taken (s n) ++ requested n [a]) := by
  cases a with
  | work node a =>
    obtain ⟨t, ht, rfl⟩ := Soup.step_work.1 h
    refine taken_update n ?_
    cases a with
    | addNewPendingTransaction tx =>
      cases ht
      have hreq : requested node [.work node (.addNewPendingTransaction tx)] = [tx.1] := by
        simp [requested]
      rw [hreq]
      rcases taken_request (cfg node) (s node) tx.1 true with h | h
      · rw [h]
        exact (List.sublist_append_left _ _).subperm
      · rw [h]
        exact List.Subperm.refl _
    | pool a =>
      change (if isRequest a then none else step (cfg node) (s node) a) = some t at ht
      split_ifs at ht with hreq
      exact (taken_step (Bool.eq_false_iff.2 hreq) ht).trans (List.sublist_append_left _ _).subperm
  | deliver sender receiver k =>
    obtain ⟨message, hm, rfl⟩ := Soup.step_deliver.1 h
    refine taken_update n ?_
    refine List.Subperm.trans ?_ (List.sublist_append_left _ _).subperm
    obtain ⟨tx, htx, rfl⟩ := List.mem_map.1 (List.mem_of_getElem? hm)
    rw [receive_broadcast cfg receiver (s receiver) (hi.broadcasts sender tx htx).1]
    have htaken := taken_request (cfg receiver) (s receiver) tx false
    rw [if_neg Bool.false_ne_true, List.append_nil, or_self] at htaken
    exact (List.Perm.of_eq htaken).subperm

theorem inv_run {as : List (Soup.Action ν Work)} (hi : Inv cfg s) (hr : Lts.run (network cfg).step s as = some s') :
    Inv cfg s' :=
  Lts.run_inv' (fun _ _ _ hi h => inv_step hi h) hi hr

theorem taken_run : ∀ {as : List (Soup.Action ν Work)} {s : ν → State}, Inv cfg s →
    Lts.run (network cfg).step s as = some s' → ∀ n, (taken (s' n)).Subperm (taken (s n) ++ requested n as) := by
  intro as
  induction as with
  | nil =>
    intro s _ hr n
    cases hr
    exact (List.sublist_append_left _ _).subperm
  | cons a as ih =>
    intro s hi hr n
    obtain ⟨t, ht, hr⟩ := Lts.run_cons hr
    have hstep := taken_network ht hi n
    refine (ih (inv_step hi ht) hr n).trans ?_
    rw [← List.singleton_append, requested_append, ← List.append_assoc]
    exact (List.subperm_append_right _).2 hstep

end

/-- Where all that is pending comes from. -/
structure Accounted {ν : Type} [DecidableEq ν] (cfg : ν → Config) (as : List (Soup.Action ν Work)) (s : ν → State) :
    Prop where
  pending : ∀ node txid tx, (s node).pools.pendingTransactions.get txid = some tx →
    calculateTransactionId (cfg node).crypto tx = txid ∧ Valid (cfg node) tx ∧
      ∃ n, tx ∈ (s n).broadcasts ∧ tx ∈ requested n as
  /-- Each broadcast is of a client's request of its own, and what was broadcast is valid. -/
  broadcasts : ∀ node, (s node).broadcasts.Subperm (requested node as) ∧
    ∀ tx ∈ (s node).broadcasts, Valid (cfg node) tx

/-- **Gossip makes nothing up and does not multiply**: what is pending at a node is valid there, and was broadcast by a node
that a client had sent it to; and no node broadcasts more than its clients have sent it. -/
theorem accounted {ν : Type} [DecidableEq ν] {cfg : ν → Config} {now : ν → Time} {as : List (Soup.Action ν Work)}
    {s : ν → State} (hr : Lts.run (network cfg).step (fun node => TransactionPool.start (now node)) as = some s) :
    Accounted cfg as s := by
  have hi := inv_run (inv_start now) hr
  have hsub : ∀ node, (s node).broadcasts.Subperm (requested node as) := fun node =>
    (List.sublist_append_left _ _).subperm.trans (taken_run (inv_start now) hr node)
  refine ⟨fun node txid tx hp => ?_, fun node => ⟨hsub node, fun tx ht => (hi.broadcasts node tx ht).2⟩⟩
  obtain ⟨hv, n, hn⟩ := hi.pending node txid tx hp
  exact ⟨hi.ids node txid tx hp, hv, n, hn, (hsub n).subset hn⟩

/-! ## What messages bring about -/

/-- Deliveries, and answers of the subscription manager. -/
def IsGossip {ν : Type} : Soup.Action ν Work → Prop
  | .deliver _ _ _ => True
  | .work _ (.pool (.validated _ _)) => True
  | _ => False

/-- The pool has the transaction, or will not have it. -/
inductive Settled (cfg : Config) (s : State) (tx : Transaction) : Prop
  | pending (h : s.pools.pendingTransactions.has (calculateTransactionId cfg.crypto tx) = true)
  | committed (h : s.pools.committedTransactions.has (calculateTransactionId cfg.crypto tx) = true)
  | expired (h : BaseTransactionPool.isTransactionExpired cfg.pendingLifespan s.now tx = true)
  | invalid (h : ¬ Valid cfg tx)

/-- The later pool has all that the earlier one has pending, and differs in nothing that others see. -/
structure Grows (s t : State) : Prop where
  now : t.now = s.now
  committed : t.pools.committedTransactions = s.pools.committedTransactions
  pending : ∀ txid, s.pools.pendingTransactions.has txid = true → t.pools.pendingTransactions.has txid = true
  broadcasts : t.broadcasts = s.broadcasts

theorem Grows.refl (s : State) : Grows s s := ⟨rfl, rfl, fun _ h => h, rfl⟩

theorem Grows.trans {s t u : State} (h : Grows s t) (h' : Grows t u) : Grows s u where
  now := h'.now.trans h.now
  committed := h'.committed.trans h.committed
  pending := fun txid hp => h'.pending txid (h.pending txid hp)
  broadcasts := h'.broadcasts.trans h.broadcasts

theorem Settled.grows {cfg : Config} {s t : State} {tx : Transaction} (h : Settled cfg s tx) (hg : Grows s t) :
    Settled cfg t tx := by
  cases h with
  | pending h => exact .pending (hg.pending _ h)
  | committed h => exact .committed (by rwa [hg.committed])
  | expired h => exact .expired (by rwa [hg.now])
  | invalid h => exact .invalid h

/-- A pool that does not have the transaction asks the validator. -/
theorem settled_or_request (cfg : Config) (s : State) (tx : Transaction) : Settled cfg s tx ∨
    ∃ a : Admission, a.transaction = tx ∧ a.broadcast = false ∧
      request cfg s tx false = .ok { s with admissions := s.admissions ++ [a] } := by
  by_cases hp : s.pools.pendingTransactions.has (calculateTransactionId cfg.crypto tx) = true
  · exact .inl (.pending hp)
  by_cases hc : s.pools.committedTransactions.has (calculateTransactionId cfg.crypto tx) = true
  · exact .inl (.committed hc)
  by_cases he : BaseTransactionPool.isTransactionExpired cfg.pendingLifespan s.now tx = true
  · exact .inl (.expired he)
  refine .inr ⟨⟨tx, false, s.reported.has (calculateTransactionId cfg.crypto tx)⟩, rfl, rfl, ?_⟩
  have hunique : s.pools.validateTransactionUniqueOrThrow cfg.crypto tx = .ok () := by
    rw [Pools.validateTransactionUniqueOrThrow, if_neg hp, if_neg hc]
  rw [request, hunique]
  change (if BaseTransactionPool.isTransactionExpired cfg.pendingLifespan s.now tx = true then _ else _) = _
  rw [if_neg he]
  rfl

/-- The validator accepts the admission that came last. -/
theorem step_validated_last {cfg : Config} {s : State} {a : Admission} {f : Str → Except Str Bool}
    (hv : TransactionValidator.validate cfg.crypto cfg.options f a.transaction = .ok true) :
    step cfg { s with admissions := s.admissions ++ [a] } (.validated s.admissions.length f) = some (store cfg s a) := by
  rw [step]
  dsimp only
  rw [List.getElem?_concat_length]
  dsimp only
  rw [hv]
  dsimp only
  rw [List.eraseIdx_append_of_length_le le_rfl, Nat.sub_self]
  simp

theorem has_store {cfg : Config} {s : State} {a : Admission} {txid : Str} :
    (store cfg s a).pools.pendingTransactions.has txid = true ↔
      txid = calculateTransactionId cfg.crypto a.transaction ∨ s.pools.pendingTransactions.has txid = true := by
  unfold store Pools.setPending
  dsimp only
  rw [JsMap.has, JsMap.has, JsMap.get_set]
  split_ifs with h
  · exact iff_of_true rfl (.inl h)
  · rw [or_iff_right h]

theorem grows_store {cfg : Config} {s : State} {a : Admission} (hb : a.broadcast = false) : Grows s (store cfg s a) where
  now := rfl
  committed := rfl
  pending := fun _ h => has_store.2 (.inr h)
  broadcasts := by
    rw [store, hb]
    rfl

section
variable {ν : Type} [DecidableEq ν] {cfg : ν → Config} {s : ν → State}

/-- **A message settles its transaction where it comes to.** -/
theorem leads_settled (hi : Inv cfg s) {tx : Transaction} (hp : Published s tx) (receiver : ν) :
    ∃ u, Lts.Leads (network cfg).step IsGossip s u ∧ (∀ n, Grows (s n) (u n)) ∧
      Settled (cfg receiver) (u receiver) tx := by
  by_cases hv : Valid (cfg receiver) tx
  swap
  · exact ⟨s, .refl s, fun n => .refl _, .invalid hv⟩
  rcases settled_or_request (cfg receiver) (s receiver) tx with h | ⟨a, htx, hb, hreq⟩
  · exact ⟨s, .refl s, fun n => .refl _, h⟩
  obtain ⟨f, hf⟩ := hv
  obtain ⟨sender, hsent⟩ := hp
  -- It is delivered, and then validated as the admission that came last.
  have hreceive := receive_broadcast cfg receiver (s receiver) (hi.broadcasts sender tx hsent).1
  rw [hreq, orElse] at hreceive
  have hdeliver : Lts.Leads (network cfg).step IsGossip s (Function.update s receiver
      ((network cfg).receive receiver (s receiver) (broadcastTransaction tx))) :=
    Soup.leads_deliver (fun _ => trivial) (List.mem_map_of_mem hsent)
  rw [hreceive] at hdeliver
  rw [← htx] at hf
  have hvalidated : (network cfg).step (Function.update s receiver { s receiver with
        admissions := (s receiver).admissions ++ [a] })
      (.work receiver (.pool (.validated (s receiver).admissions.length f))) =
        some (Function.update s receiver (store (cfg receiver) (s receiver) a)) := by
    refine Soup.step_work.2 ⟨store (cfg receiver) (s receiver) a, ?_, by rw [Function.update_idem]⟩
    rw [Function.update_self]
    exact step_validated_last hf
  refine ⟨_, hdeliver.trans (Lts.leads_of_step (by trivial) hvalidated), fun n => ?_, ?_⟩
  · rcases eq_or_ne n receiver with rfl | hne
    · rw [Function.update_self]
      exact grows_store hb
    · rw [Function.update_of_ne hne]
      exact .refl _
  · rw [Function.update_self]
    exact .pending (has_store.2 (.inl (by rw [htx])))

end

/-- **What was broadcast can reach everybody**: from every state that the network comes to, deliveries and answers of the
subscription manager can settle every broadcast transaction at all of the nodes, with nothing broadcast on the way. -/
theorem spreads {ν : Type} [DecidableEq ν] {cfg : ν → Config} {now : ν → Time} {as : List (Soup.Action ν Work)}
    {s : ν → State} (hr : Lts.run (network cfg).step (fun node => TransactionPool.start (now node)) as = some s)
    (nodes : List ν) : ∃ u, Lts.Leads (network cfg).step IsGossip s u ∧
      (∀ node, (u node).broadcasts = (s node).broadcasts) ∧
      ∀ sender ∈ nodes, ∀ receiver ∈ nodes, ∀ tx ∈ (u sender).broadcasts, Settled (cfg receiver) (u receiver) tx := by
  have hi := inv_run (inv_start now) hr
  obtain ⟨u, hu, hg, hs⟩ := Lts.leads_forall (A := IsGossip)
    (R := fun s t => Inv cfg t ∧ ∀ n, Grows (s n) (t n))
    (Q := fun (p : Transaction × ν) t => Settled (cfg p.2) (t p.2) p.1)
    (fun hst htu => ⟨htu.1, fun n => (hst.2 n).trans (htu.2 n)⟩)
    (fun p _ _ hst h => h.grows (hst.2 p.2)) (s := s) ⟨hi, fun n => .refl _⟩
    (l := (nodes.flatMap fun n => (s n).broadcasts) ×ˢ nodes) (by
      rintro ⟨tx, receiver⟩ hp t ⟨hit, hst⟩
      obtain ⟨sender, -, hsent⟩ := List.mem_flatMap.1 (List.mem_product.1 hp).1
      obtain ⟨u, hu, hg, hs⟩ := leads_settled hit ⟨sender, by rwa [(hst sender).broadcasts]⟩ receiver
      exact ⟨u, hu, ⟨hu.inv (fun _ _ _ hi _ h => inv_step hi h) hit, hg⟩, hs⟩)
  refine ⟨u, hu, fun node => (hg.2 node).broadcasts, fun sender hsn receiver hrn tx ht => ?_⟩
  rw [(hg.2 sender).broadcasts] at ht
  exact hs (tx, receiver) (List.mem_product.2 ⟨List.mem_flatMap.2 ⟨sender, hsn, ht⟩, hrn⟩)

/-! ## Two transactions that are sent to one of two nodes -/

def twoPools : Bool → Config := fun _ => sampleConfig 30000

def freshPools : Bool → State := fun _ => TransactionPool.start sampleTime

def submit (transaction : WireTransaction) : List Work :=
  [.addNewPendingTransaction transaction, .pool (.validated 0 fun _ => .ok true)]

def sentToOne : List (Soup.Action Bool Work) :=
  (submit ⟨sampleTransaction, by decide⟩ ++ submit ⟨anotherTransaction, by decide⟩).map (.work false)

theorem run_sentToOne : ((Lts.run (network twoPools).step freshPools sentToOne).map fun s =>
    ((s false).broadcasts, (s false).pools.pendingTransactions.size)) =
      some ([sampleTransaction, anotherTransaction], 2) := by
  decide +kernel

/-- The work of one node leaves the others alone. -/
theorem other_of_run {ν : Type} [DecidableEq ν] {cfg : ν → Config} {node n : ν} (hn : n ≠ node) {as : List Work}
    {s s' : ν → State} (hr : Lts.run (network cfg).step s (as.map (.work node)) = some s') : s' n = s n := by
  induction as generalizing s with
  | nil =>
    cases hr
    rfl
  | cons a as ih =>
    obtain ⟨t, ht, hr⟩ := Lts.run_cons hr
    obtain ⟨u, -, rfl⟩ := Soup.step_work.1 ht
    rw [ih hr, Function.update_of_ne hn]

theorem run_received : ((step (sampleConfig 30000) (orElse (TransactionPool.start sampleTime)
    (request (sampleConfig 30000) (TransactionPool.start sampleTime) anotherTransaction false))
      (.validated 0 fun _ => .ok true)).map fun s => s.pools.pendingTransactions.size) = some 1 := by
  decide +kernel

/-- The second transaction comes before the first, and the other node stores it. -/
def delivered : List (Soup.Action Bool Work) :=
  sentToOne ++ [.deliver false true 1, .work true (.pool (.validated 0 fun _ => .ok true))]

theorem run_delivered : ∃ s, Lts.run (network twoPools).step freshPools delivered = some s ∧
    (s false).pools.pendingTransactions.size = 2 ∧ (s true).pools.pendingTransactions.size = 1 := by
  obtain ⟨s, hs, hf⟩ := Option.map_eq_some_iff.1 run_sentToOne
  obtain ⟨hb, hsize⟩ := Prod.mk.inj hf
  have hfresh : s true = TransactionPool.start sampleTime := other_of_run (Ne.symm Bool.false_ne_true) hs
  have hsent : ((network twoPools).sent false (s false))[1]? = some (broadcastTransaction anotherTransaction) := by
    change ((s false).broadcasts.map broadcastTransaction)[1]? = _
    rw [hb]
    rfl
  obtain ⟨t, ht, hreceived⟩ := Option.map_eq_some_iff.1 run_received
  have hreceive := receive_broadcast twoPools true (s true) (show anotherTransaction.header.version < 2 ^ 32 by decide)
  have hdeliver : (network twoPools).step s (.deliver false true 1) = some (Function.update s true
      ((network twoPools).receive true (s true) (broadcastTransaction anotherTransaction))) :=
    Soup.step_deliver.2 ⟨_, hsent, rfl⟩
  rw [hreceive, hfresh] at hdeliver
  have hvalidated : (network twoPools).step (Function.update s true (orElse (TransactionPool.start sampleTime)
      (request (twoPools true) (TransactionPool.start sampleTime) anotherTransaction false)))
        (.work true (.pool (.validated 0 fun _ => .ok true))) = some (Function.update s true t) := by
    refine Soup.step_work.2 ⟨t, ?_, by rw [Function.update_idem]⟩
    rw [Function.update_self]
    exact ht
  refine ⟨Function.update s true t, ?_, ?_, ?_⟩
  · rw [delivered, Lts.run_append, hs, Option.bind_some, Lts.run, hdeliver, Option.bind_some, Lts.run, hvalidated]
    rfl
  · rw [Function.update_of_ne Bool.false_ne_true]
    exact hsize
  · rw [Function.update_self]
    exact hreceived

theorem accounted_delivered : ∃ s, Lts.run (network twoPools).step freshPools delivered = some s ∧
    (s false).pools.pendingTransactions.size = 2 ∧ (s true).pools.pendingTransactions.size = 1 ∧
    Accounted twoPools delivered s := by
  obtain ⟨s, hs, hone, hother⟩ := run_delivered
  exact ⟨s, hs, hone, hother, accounted hs⟩

theorem spreads_delivered : ∃ s u, Lts.run (network twoPools).step freshPools delivered = some s ∧
    (s true).pools.pendingTransactions.size = 1 ∧ Lts.Leads (network twoPools).step IsGossip s u ∧
    ∀ tx ∈ (u false).broadcasts, Settled (twoPools true) (u true) tx := by
  obtain ⟨s, hs, -, hother⟩ := run_delivered
  obtain ⟨u, hu, hb, hset⟩ := spreads hs [false, true]
  exact ⟨s, u, hs, hother, hu, hset false List.mem_cons_self true (by simp)⟩

end PoolNetwork
end Orbs
