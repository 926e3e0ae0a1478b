import OrbsNetwork.Address
import OrbsNetwork.Lib.JsMap
import OrbsNetwork.Lib.Sha256
import OrbsNetwork.Lib.Lts
/-!
# TransactionPool — pending and committed transactions

A transaction is admitted in two pieces: the checks that run as the request comes in, and the insertion that runs when
the validator has answered.  Between the two, other requests, reports of committed transactions and cleanups may run.
A report enters its transactions into the committed pool in one piece and deletes them from the pending pool in a
second one.

An admission that was validated while its transaction was reported puts it back (`validated_after_report`), and one
that comes after the committed pool has forgotten the transaction is accepted again (`replayed_after_cleanup`).
Outside these two cases the pools stay disjoint (`deduplicated`) and nothing is replayed (`no_replay`).
-/
namespace Orbs

open Js

/-- A time value of a `Date`, in milliseconds. -/
abbrev Time := { t : ℕ // t ≤ 8640000000000000 }

/-! ## BaseTransactionPool -/

namespace BaseTransactionPool

def defaultTransactionLifespanMs : Number := .ofNat (1000 * 30)

/-- `config` is the lifespan that the pool is built with, if it is given one. -/
def transactionLifespanMs (config : Option Number) : Number :=
  match config with
  | some ms => if ms.truthy then ms else defaultTransactionLifespanMs
  | none => defaultTransactionLifespanMs

def isExpired (config : Option Number) (now : Time) (timestamp : Number) : Bool :=
  (timestamp.add (transactionLifespanMs config)).lt (.ofNat now)

def isTransactionExpired (config : Option Number) (now : Time) (transaction : Transaction) : Bool :=
  isExpired config now (Number.ofString transaction.header.timestamp)

end BaseTransactionPool

/-! ## TransactionValidator -/

structure TransactionValidatorOptions where
  verifySignature : Bool
  verifySubscription : Bool

namespace TransactionValidator

def getSubscriptionKey (contractAddress : Address) : Str :=
  "0x0000000000000000000000000000000000000000000000000000000000".toList ++ contractAddress.virtualChainId

/-- `isSubscriptionValid` is what the subscription manager answers to a subscription key. -/
def validate (crypto : Crypto) (options : TransactionValidatorOptions) (isSubscriptionValid : Str → Except Str Bool)
    (tx : Transaction) : Except Str Bool := do
  if tx.header.version ≠ 0 then
    throw ("Invalid transaction version: ".toList ++ Nat.toDigits 10 tx.header.version)
  match tx.signatureData with
  | none => throw "TypeError: Cannot read property 'publicKey' of undefined".toList
  | some signatureData =>
    if options.verifySignature then
      let hash := TransactionHelper.calculateHash crypto tx
      if !(← crypto.verify signatureData.publicKey hash signatureData.signature) then return false
    match ← Address.fromBuffer crypto tx.header.sender (some signatureData.publicKey) true with
    | none => return false
    | some senderAddress =>
      match ← Address.fromBuffer crypto tx.header.contractAddress none true with
      | none => return false
      | some contractAddress =>
        if senderAddress.virtualChainId ≠ contractAddress.virtualChainId then return false
        if !options.verifySubscription then return true
        isSubscriptionValid (getSubscriptionKey contractAddress)

end TransactionValidator

namespace TransactionPool

/-! ## The two pools -/

inductive TransactionStatus where
  | notFound
  | pending
  | committed
  deriving DecidableEq

structure CommittedTransaction where
  receipt : TransactionReceipt
  entryTimestamp : Time

structure Pools where
  pendingTransactions : JsMap Str Transaction
  committedTransactions : JsMap Str CommittedTransaction

/-- How the service is built. -/
structure Config where
  crypto : Crypto
  options : TransactionValidatorOptions
  /-- `transactionLifespanMs` of the pending pool. -/
  pendingLifespan : Option Number
  /-- `transactionLifespanMs` of the committed pool. -/
  committedLifespan : Option Number

namespace Pools

def getTransactionStatus (p : Pools) (txid : Str) : TransactionStatus × Option TransactionReceipt :=
  if p.pendingTransactions.has txid then (.pending, none)
  else match p.committedTransactions.get txid with
    | some entry => (.committed, some entry.receipt)
    | none => (.notFound, none)

def getAllPendingTransactions (p : Pools) : List TransactionEntry :=
  p.pendingTransactions.entries.map fun (txid, transaction) => { txHash := Hex.decode txid, transaction }

def validateTransactionUniqueOrThrow (crypto : Crypto) (p : Pools) (transaction : Transaction) : Except Str Unit :=
  let txid := TransactionHelper.calculateTransactionId crypto transaction
  if p.pendingTransactions.has txid then
    .error ("Transaction with id ".toList ++ txid ++ " already exists in the pending transaction pool".toList)
  else if p.committedTransactions.has txid then
    .error ("Transaction with id ".toList ++ txid ++ " already exists in the committed transaction pool".toList)
  else .ok ()

def addCommittedTransactions (now : Time) (transactionReceipts : List TransactionReceipt) (p : Pools) : Pools :=
  { p with
    committedTransactions := transactionReceipts.foldl (fun m receipt =>
      m.set (transactionHashToId receipt.txHash) { entryTimestamp := now, receipt }) p.committedTransactions }

def clearCommittedTransactionsFromPendingPool (transactionReceipts : List TransactionReceipt) (p : Pools) : Pools :=
  { p with
    pendingTransactions := transactionReceipts.foldl (fun m receipt => m.delete (transactionHashToId receipt.txHash))
      p.pendingTransactions }

/-- `clearExpiredTransactions` of the pending pool. -/
def clearExpiredPending (cfg : Config) (now : Time) (p : Pools) : Pools :=
  { p with
    pendingTransactions := p.pendingTransactions.filter fun (_, transaction) =>
      !BaseTransactionPool.isTransactionExpired cfg.pendingLifespan now transaction }

/-- `clearExpiredTransactions` of the committed pool. -/
def clearExpiredCommitted (cfg : Config) (now : Time) (p : Pools) : Pools :=
  { p with
    committedTransactions := p.committedTransactions.filter fun (_, entry) =>
      !BaseTransactionPool.isExpired cfg.committedLifespan now (.ofNat entry.entryTimestamp) }

/-- The end of `storePendingTransaction`. -/
def setPending (crypto : Crypto) (transaction : Transaction) (p : Pools) : Pools :=
  { p with
    pendingTransactions := p.pendingTransactions.set (TransactionHelper.calculateTransactionId crypto transaction)
      transaction }

end Pools

/-! ## The service -/

/-- A transaction that waits for the validator.  One that came by RPC is broadcast once it is stored.
`afterReport` is a ghost: a report of the transaction had begun when the request came. -/
structure Admission where
  transaction : Transaction
  broadcast : Bool
  afterReport : Bool

/-- `reported` and `replays` are ghosts, for what the service forgets: when a transaction was last reported, and which
transactions were put into the pending pool by a request that came after a report of them. -/
structure State where
  now : Time
  pools : Pools
  admissions : List Admission
  /-- The calls of `markCommittedTransactions` between their two pieces. -/
  marks : List (List TransactionReceipt)
  broadcasts : List Transaction
  reported : JsMap Str Time
  replays : List Str

inductive Action where
  | addNewPendingTransaction (transaction : Transaction)
  /-- A gossip message, by the transaction that it carries. -/
  | newTransaction (transaction : Transaction)
  /-- The validator answers, with what the subscription manager answered it. -/
  | validated (i : ℕ) (isSubscriptionValid : Str → Except Str Bool)
  | markCommittedTransactions (transactionReceipts : List TransactionReceipt)
  /-- The second piece of a report. -/
  | clearCommitted (j : ℕ)
  | cleanupPending
  | cleanupCommitted
  | tick (now : Time)

def start (now : Time) : State where
  now
  pools := ⟨.empty, .empty⟩
  admissions := []
  marks := []
  broadcasts := []
  reported := .empty
  replays := []

section
variable (cfg : Config)

/-- A request up to the call of the validator. -/
def request (s : State) (transaction : Transaction) (broadcast : Bool) : Except Str State := do
  s.pools.validateTransactionUniqueOrThrow cfg.crypto transaction
  if BaseTransactionPool.isTransactionExpired cfg.pendingLifespan s.now transaction then
    throw ("Transaction ".toList ++ (Transaction.codec.enc transaction).stringify
      ++ " has expired. not storing in the pool".toList)
  let afterReport := s.reported.has (TransactionHelper.calculateTransactionId cfg.crypto transaction)
  return { s with admissions := s.admissions ++ [{ transaction, broadcast, afterReport }] }

/-- A request that ends in an error leaves the service as it was. -/
def orElse (s : State) : Except Str State → State
  | .ok s' => s'
  | .error _ => s

/-- An admission after the validator has answered. -/
def store (s : State) (a : Admission) : State :=
  { s with
    pools := s.pools.setPending cfg.crypto a.transaction
    broadcasts := if a.broadcast then s.broadcasts ++ [a.transaction] else s.broadcasts
    replays := if a.afterReport then
      s.replays ++ [TransactionHelper.calculateTransactionId cfg.crypto a.transaction] else s.replays }

def step (s : State) : Action → Option State
  | .addNewPendingTransaction transaction => some (orElse s (request cfg s transaction true))
  | .newTransaction transaction => some (orElse s (request cfg s transaction false))
  | .validated i isSubscriptionValid =>
    match s.admissions[i]? with
    | none => none
    | some a =>
      let rest := { s with admissions := s.admissions.eraseIdx i }
      match TransactionValidator.validate cfg.crypto cfg.options isSubscriptionValid a.transaction with
      | .ok true => some (store cfg rest a)
      | _ => some rest
  | .markCommittedTransactions transactionReceipts =>
    some { s with
      pools := s.pools.addCommittedTransactions s.now transactionReceipts
      marks := s.marks ++ [transactionReceipts]
      reported := transactionReceipts.foldl (fun m receipt => m.set (transactionHashToId receipt.txHash) s.now)
        s.reported }
  | .clearCommitted j =>
    match s.marks[j]? with
    | none => none
    | some transactionReceipts =>
      some { s with
        pools := s.pools.clearCommittedTransactionsFromPendingPool transactionReceipts
        marks := s.marks.eraseIdx j }
  | .cleanupPending => some { s with pools := s.pools.clearExpiredPending cfg s.now }
  | .cleanupCommitted => some { s with pools := s.pools.clearExpiredCommitted cfg s.now }
  | .tick now => if s.now ≤ now then some { s with now } else none

variable {cfg}

theorem request_eq_ok {s s' : State} {transaction : Transaction} {broadcast : Bool}
    (h : request cfg s transaction broadcast = .ok s') :
    s.pools.pendingTransactions.get (TransactionHelper.calculateTransactionId cfg.crypto transaction) = none ∧
      s.pools.committedTransactions.get (TransactionHelper.calculateTransactionId cfg.crypto transaction) = none ∧
      BaseTransactionPool.isTransactionExpired cfg.pendingLifespan s.now transaction = false ∧
      s' = { s with admissions := s.admissions ++ [{
        transaction, broadcast
        afterReport := s.reported.has (TransactionHelper.calculateTransactionId cfg.crypto transaction) }] } := by
  rw [request] at h
  cases hu : s.pools.validateTransactionUniqueOrThrow cfg.crypto transaction with
  | error e => rw [hu] at h; cases h
  | ok u =>
  rw [hu] at h
  rw [Pools.validateTransactionUniqueOrThrow] at hu
  split at hu
  · cases hu
  rename_i hp
  split at hu
  · cases hu
  rename_i hc
  split at h
  · cases h
  rename_i he
  cases h
  refine ⟨?_, ?_, by simpa using he, rfl⟩
  · simpa [JsMap.has] using hp
  · simpa [JsMap.has] using hc

theorem step_request {s s' : State} {transaction : Transaction} {broadcast : Bool}
    (h : some (orElse s (request cfg s transaction broadcast)) = some s') :
    s' = s ∨ request cfg s transaction broadcast = .ok s' := by
  cases h
  cases hr : request cfg s transaction broadcast with
  | error e => exact .inl rfl
  | ok t => exact .inr rfl

theorem step_validated {s s' : State} {i : ℕ} {isSubscriptionValid : Str → Except Str Bool}
    (h : step cfg s (.validated i isSubscriptionValid) = some s') :
    ∃ a, s.admissions[i]? = some a ∧
      (s' = { s with admissions := s.admissions.eraseIdx i } ∨
        TransactionValidator.validate cfg.crypto cfg.options isSubscriptionValid a.transaction = .ok true ∧
        s' = store cfg { s with admissions := s.admissions.eraseIdx i } a) := by
  rw [step] at h
  split at h
  · cases h
  rename_i a ha
  dsimp only at h
  refine ⟨a, ha, ?_⟩
  split at h
  · rename_i hv
    cases h
    exact .inr ⟨hv, rfl⟩
  · cases h
    exact .inl rfl

end

def Reports (transactionReceipts : List TransactionReceipt) (txid : Str) : Prop :=
  ∃ receipt ∈ transactionReceipts, transactionHashToId receipt.txHash = txid

instance (transactionReceipts : List TransactionReceipt) (txid : Str) : Decidable (Reports transactionReceipts txid) :=
  inferInstanceAs (Decidable (∃ receipt ∈ transactionReceipts, _ = _))

/-! ## De-duplication -/

/-- When the validator accepts a transaction, it is not in the committed pool, or a report of it is still in flight. -/
def Unreported (cfg : Config) (s : State) : Action → Prop
  | .validated i isSubscriptionValid => ∀ a, s.admissions[i]? = some a →
    TransactionValidator.validate cfg.crypto cfg.options isSubscriptionValid a.transaction = .ok true →
    s.pools.committedTransactions.has (TransactionHelper.calculateTransactionId cfg.crypto a.transaction) = true →
    ∃ m ∈ s.marks, Reports m (TransactionHelper.calculateTransactionId cfg.crypto a.transaction)
  | _ => True

/-- A pending transaction stands under its id; one that is committed as well has a report in flight, which is about to
delete it. -/
structure Covered (cfg : Config) (s : State) : Prop where
  ids : ∀ txid tx, s.pools.pendingTransactions.get txid = some tx →
    TransactionHelper.calculateTransactionId cfg.crypto tx = txid
  covered : ∀ txid tx e, s.pools.pendingTransactions.get txid = some tx →
    s.pools.committedTransactions.get txid = some e → ∃ m ∈ s.marks, Reports m txid

section
variable {cfg : Config} {s s' : State}

theorem covered_start (now : Time) : Covered cfg (start now) :=
  ⟨nofun, nofun⟩

theorem covered_validated (hi : Covered cfg s) {i : ℕ} {isSubscriptionValid : Str → Except Str Bool}
    (hg : Unreported cfg s (.validated i isSubscriptionValid))
    (h : step cfg s (.validated i isSubscriptionValid) = some s') : Covered cfg s' := by
  obtain ⟨a, ha, rfl | ⟨hv, rfl⟩⟩ := step_validated h
  · exact ⟨hi.ids, hi.covered⟩
  refine ⟨fun txid tx hp => ?_, fun txid tx e hp hc => ?_⟩
  · rw [store, Pools.setPending, JsMap.get_set] at hp
    split_ifs at hp with ht
    · cases hp
      exact ht.symm
    · exact hi.ids txid tx hp
  · rw [store, Pools.setPending, JsMap.get_set] at hp
    split_ifs at hp with ht
    · subst ht
      exact hg a ha hv (Option.isSome_iff_exists.2 ⟨e, hc⟩)
    · exact hi.covered txid tx e hp hc

theorem covered_mark (hi : Covered cfg s) {m : List TransactionReceipt}
    (h : step cfg s (.markCommittedTransactions m) = some s') : Covered cfg s' := by
  cases h
  refine ⟨hi.ids, fun txid tx e hp hc => ?_⟩
  rcases JsMap.get_foldl_set (fun r : TransactionReceipt => transactionHashToId r.txHash)
    (fun receipt => { entryTimestamp := s.now, receipt : CommittedTransaction }) m s.pools.committedTransactions txid with
    ⟨r, hr, ht, -⟩ | ⟨-, hk⟩
  · exact ⟨m, by simp, r, hr, ht⟩
  · obtain ⟨n, hn, hrep⟩ := hi.covered txid tx e hp (hk ▸ hc)
    exact ⟨n, List.mem_append_left _ hn, hrep⟩

theorem covered_clear (hi : Covered cfg s) {j : ℕ} (h : step cfg s (.clearCommitted j) = some s') : Covered cfg s' := by
  rw [step] at h
  split at h
  · cases h
  rename_i m hm
  cases h
  refine ⟨fun txid tx hp => hi.ids txid tx (JsMap.get_foldl_delete _ |>.1 hp).1, fun txid tx e hp hc => ?_⟩
  obtain ⟨hp, hne⟩ := (JsMap.get_foldl_delete _).1 hp
  obtain ⟨n, hn, r, hr, ht⟩ := hi.covered txid tx e hp hc
  -- the report in flight is another one: this one has just deleted all it reports
  have hnm : n ≠ m := by
    rintro rfl
    exact hne r hr ht
  obtain ⟨k, hk⟩ := List.mem_iff_getElem?.1 hn
  have hkj : k ≠ j := by
    rintro rfl
    rw [hm] at hk
    cases hk
    exact hnm rfl
  exact ⟨n, List.mem_eraseIdx_iff_getElem?.2 ⟨k, hkj, hk⟩, r, hr, ht⟩

theorem covered_step (hi : Covered cfg s) {a : Action} (hg : Unreported cfg s a) (h : step cfg s a = some s') :
    Covered cfg s' := by
  cases a with
  | addNewPendingTransaction tx | newTransaction tx =>
    rcases step_request h with rfl | hr
    · exact hi
    · obtain ⟨-, -, -, rfl⟩ := request_eq_ok hr
      exact ⟨hi.ids, hi.covered⟩
  | validated i f => exact covered_validated hi hg h
  | markCommittedTransactions m => exact covered_mark hi h
  | clearCommitted j => exact covered_clear hi h
  | cleanupPending =>
    cases h
    exact ⟨fun txid tx hp => hi.ids txid tx (JsMap.get_of_get_filter hp),
      fun txid tx e hp hc => hi.covered txid tx e (JsMap.get_of_get_filter hp) hc⟩
  | cleanupCommitted =>
    cases h
    exact ⟨hi.ids, fun txid tx e hp hc => hi.covered txid tx e hp (JsMap.get_of_get_filter hc)⟩
  | tick now =>
    rw [step] at h
    split at h <;> cases h
    exact ⟨hi.ids, hi.covered⟩

end

/-- What the service tells of a transaction that is in the committed pool. -/
structure Deduplicated (cfg : Config) (p : Pools) : Prop where
  disjoint : ∀ txid, ¬ (p.pendingTransactions.has txid = true ∧ p.committedTransactions.has txid = true)
  status : ∀ txid, p.committedTransactions.has txid = true → (p.getTransactionStatus txid).1 ≠ .pending
  pending : ∀ entry ∈ p.getAllPendingTransactions,
    p.committedTransactions.has (TransactionHelper.calculateTransactionId cfg.crypto entry.transaction) = false

theorem deduplicated_of_covered {cfg : Config} {s : State} (hi : Covered cfg s) (hq : s.marks = []) :
    Deduplicated cfg s.pools := by
  have hd : ∀ txid, ¬ (s.pools.pendingTransactions.has txid = true ∧
      s.pools.committedTransactions.has txid = true) := by
    rintro txid ⟨hp, hc⟩
    obtain ⟨tx, htx⟩ := Option.isSome_iff_exists.1 hp
    obtain ⟨e, he⟩ := Option.isSome_iff_exists.1 hc
    obtain ⟨m, hm, -⟩ := hi.covered txid tx e htx he
    rw [hq] at hm
    cases hm
  refine ⟨hd, fun txid hc hp => ?_, fun entry he => ?_⟩
  · rw [Pools.getTransactionStatus] at hp
    split at hp
    · rename_i hpend
      exact hd txid ⟨hpend, hc⟩
    · split at hp <;> cases hp
  · obtain ⟨⟨txid, tx⟩, hm, rfl⟩ := List.mem_map.1 he
    have hp := JsMap.get_eq_some_iff.2 hm
    rw [hi.ids txid tx hp]
    exact Bool.eq_false_iff.2 fun hc => hd txid ⟨Option.isSome_iff_exists.2 ⟨tx, hp⟩, hc⟩

/-- **While no report is in flight, no transaction is both pending and committed**, if no transaction was stored after a
report of it had ended. -/
theorem deduplicated {cfg : Config} {now : Time} {as : List Action} {s : State}
    (hg : Lts.Meets (step cfg) (Unreported cfg) (start now) as) (hr : Lts.run (step cfg) (start now) as = some s)
    (hq : s.marks = []) : Deduplicated cfg s.pools :=
  deduplicated_of_covered (Lts.run_inv (fun _ _ _ hi hg h => covered_step hi hg h) (covered_start now) hg hr) hq

/-- The polynomial of the crc package, bit by bit. -/
def crc32 (bytes : Bytes) : ℕ :=
  let shift (x : UInt32) : UInt32 := if x &&& 1 = 1 then (x >>> 1) ^^^ 0xEDB88320 else x >>> 1
  (bytes.foldl (fun x b => (List.range 8).foldl (fun x _ => shift x) (x ^^^ b.toUInt32)) 0xFFFFFFFF ^^^ 0xFFFFFFFF).toNat

/-- The account id of the public key below is the one that RIPEMD-160 gives. -/
def sampleCrypto : Crypto where
  sha256 := Sha256.hash
  ripemd160 := fun _ => Hex.decode "b566a3eecce809896361988823cd2f423fe800e7".toList
  crc32
  verify := fun _ _ _ => .ok true

/-- The consensus server with `VERIFY_SUBSCRIPTION`: the committed pool is built without a lifespan. -/
def sampleConfig (pendingLifespan : ℕ) : Config where
  crypto := sampleCrypto
  options := { verifySignature := false, verifySubscription := true }
  pendingLifespan := some (.ofNat pendingLifespan)
  committedLifespan := none

def sampleTransaction : Transaction where
  header :=
    { version := 0
      sender := Hex.decode "5400000000b566a3eecce809896361988823cd2f423fe800e74dcd209e".toList
      timestamp := "1000000".toList
      contractAddress := Hex.decode "5400000000906be446c731622741d6021d4d5ce0f42824fcef60d38b93".toList }
  payload := []
  signatureData := some { publicKey := List.replicate 32 7, signature := [] }

def anotherTransaction : Transaction := { sampleTransaction with payload := "another".toList }

def sampleReceipt : TransactionReceipt where
  txHash := TransactionHelper.calculateHash sampleCrypto sampleTransaction
  success := true

def sampleTime : Time := ⟨1000000, by decide⟩

def lifeCycle : List Action :=
  [.addNewPendingTransaction sampleTransaction, .validated 0 fun _ => .ok true,
    .markCommittedTransactions [sampleReceipt], .clearCommitted 0]

def unreported (cfg : Config) (s : State) : Action → Bool
  | .validated i _ => match s.admissions[i]? with
    | some a =>
      let txid := TransactionHelper.calculateTransactionId cfg.crypto a.transaction
      !s.pools.committedTransactions.has txid || s.marks.any fun m => decide (Reports m txid)
    | none => true
  | _ => true

theorem unreported_of_check {cfg : Config} {s : State} {a : Action} (h : unreported cfg s a = true) :
    Unreported cfg s a := by
  cases a with
  | validated i f =>
    intro b hb _ hc
    simpa [unreported, hb, hc] using h
  | _ => trivial

theorem run_lifeCycle :
    Lts.checks (step (sampleConfig 30000)) (unreported (sampleConfig 30000)) (start sampleTime) lifeCycle = true ∧
      ((Lts.run (step (sampleConfig 30000)) (start sampleTime) lifeCycle).map fun s =>
        (s.marks.isEmpty, s.pools.pendingTransactions.size, s.pools.committedTransactions.size)) = some (true, 0, 1) := by
  decide +kernel

theorem deduplicated_lifeCycle : ∃ s, Lts.run (step (sampleConfig 30000)) (start sampleTime) lifeCycle = some s ∧
    s.pools.committedTransactions.size = 1 ∧ Deduplicated (sampleConfig 30000) s.pools := by
  obtain ⟨s, hs, hf⟩ := Option.map_eq_some_iff.1 run_lifeCycle.2
  rw [Prod.mk.injEq, Prod.mk.injEq, List.isEmpty_iff] at hf
  exact ⟨s, hs, hf.2.2, deduplicated (Lts.meets_of_checks (fun _ _ => unreported_of_check) run_lifeCycle.1) hs hf.1⟩

/-- The transaction is validated from before its report begins until after the report has ended. -/
def lateValidation : List Action :=
  [.addNewPendingTransaction sampleTransaction, .markCommittedTransactions [sampleReceipt], .clearCommitted 0,
    .validated 0 fun _ => .ok true]

theorem run_lateValidation :
    ((Lts.run (step (sampleConfig 30000)) (start sampleTime) lateValidation).map fun s =>
      (s.marks.isEmpty, decide ((s.pools.getTransactionStatus (transactionHashToId sampleReceipt.txHash)).1 = .pending),
        s.pools.committedTransactions.has (transactionHashToId sampleReceipt.txHash))) = some (true, true, true) := by
  decide +kernel

/-- **A transaction validated while it was reported is pending and committed.** -/
theorem validated_after_report : ∃ s, Lts.run (step (sampleConfig 30000)) (start sampleTime) lateValidation = some s ∧
    s.marks = [] ∧ ¬ Deduplicated (sampleConfig 30000) s.pools := by
  obtain ⟨s, hs, hf⟩ := Option.map_eq_some_iff.1 run_lateValidation
  rw [Prod.mk.injEq, Prod.mk.injEq, List.isEmpty_iff, decide_eq_true_eq] at hf
  exact ⟨s, hs, hf.1, fun hd => hd.status _ hf.2.2 hf.2.1⟩

/-! ## Replays -/

/-- A request that carries a reported transaction comes with a timestamp that is out of the lifespan of the pending pool
no later than the report is out of that of the committed pool. -/
def OutlivedByReport (cfg : Config) (s : State) : Action → Prop
  | .addNewPendingTransaction tx | .newTransaction tx =>
    ∀ c, s.reported.get (TransactionHelper.calculateTransactionId cfg.crypto tx) = some c →
      ((Number.ofString tx.header.timestamp).add (BaseTransactionPool.transactionLifespanMs cfg.pendingLifespan)).le
        ((Number.ofNat c).add (BaseTransactionPool.transactionLifespanMs cfg.committedLifespan)) = true
  | _ => True

/-- A report is kept in the committed pool until it has expired. -/
structure Remembered (cfg : Config) (s : State) : Prop where
  kept : ∀ txid c, s.reported.get txid = some c →
    (∃ e, s.pools.committedTransactions.get txid = some e ∧ e.entryTimestamp = c) ∨
      BaseTransactionPool.isExpired cfg.committedLifespan s.now (.ofNat c) = true
  timely : ∀ a ∈ s.admissions, a.afterReport = false
  fresh : s.replays = []

section
variable {cfg : Config} {s s' : State}

theorem isExpired_mono {config : Option Number} {timestamp : Number} {now now' : Time} (h : now ≤ now')
    (he : BaseTransactionPool.isExpired config now timestamp = true) :
    BaseTransactionPool.isExpired config now' timestamp = true :=
  Number.lt_of_lt_of_le he (Number.ofNat_le_ofNat h (now'.2.trans (by decide)))

theorem remembered_start (now : Time) : Remembered cfg (start now) :=
  ⟨nofun, nofun, rfl⟩

theorem remembered_request (hi : Remembered cfg s) {transaction : Transaction} {broadcast : Bool}
    (hg : OutlivedByReport cfg s (.addNewPendingTransaction transaction))
    (h : request cfg s transaction broadcast = .ok s') : Remembered cfg s' := by
  obtain ⟨-, hc, he, rfl⟩ := request_eq_ok h
  refine ⟨hi.kept, fun a ha => ?_, hi.fresh⟩
  rcases List.mem_append.1 ha with ha | ha
  · exact hi.timely a ha
  rw [List.mem_singleton.1 ha]
  apply Bool.eq_false_iff.2
  intro hr
  obtain ⟨c, hr⟩ := Option.isSome_iff_exists.1 hr
  rcases hi.kept _ c hr with ⟨e, hce, -⟩ | hx
  · rw [hc] at hce
    cases hce
  · have := Number.lt_of_le_of_lt (hg c hr) hx
    rw [BaseTransactionPool.isTransactionExpired, BaseTransactionPool.isExpired, this] at he
    cases he

theorem remembered_mark (hi : Remembered cfg s) {m : List TransactionReceipt}
    (h : step cfg s (.markCommittedTransactions m) = some s') : Remembered cfg s' := by
  cases h
  refine ⟨fun txid c hr => ?_, hi.timely, hi.fresh⟩
  have hrep := JsMap.get_foldl_set (fun r : TransactionReceipt => transactionHashToId r.txHash) (fun _ => s.now) m
    s.reported txid
  have hcom := JsMap.get_foldl_set (fun r : TransactionReceipt => transactionHashToId r.txHash)
    (fun receipt => { entryTimestamp := s.now, receipt : CommittedTransaction }) m s.pools.committedTransactions txid
  rcases hcom with ⟨r, hm, ht, hc⟩ | ⟨hne, hc⟩
  · rcases hrep with ⟨r', -, -, hr'⟩ | ⟨hne, -⟩
    · rw [hr'] at hr
      cases hr
      exact .inl ⟨_, hc, rfl⟩
    · exact absurd ht (hne r hm)
  · rcases hrep with ⟨r', hm, ht, -⟩ | ⟨-, hr'⟩
    · exact absurd ht (hne r' hm)
    · rw [hr'] at hr
      rcases hi.kept txid c hr with ⟨e, he, ht⟩ | hx
      · exact .inl ⟨e, hc.trans he, ht⟩
      · exact .inr hx

theorem remembered_cleanupCommitted (hi : Remembered cfg s) (h : step cfg s .cleanupCommitted = some s') :
    Remembered cfg s' := by
  cases h
  refine ⟨fun txid c hr => ?_, hi.timely, hi.fresh⟩
  rcases hi.kept txid c hr with ⟨e, he, rfl⟩ | hx
  · by_cases hx : BaseTransactionPool.isExpired cfg.committedLifespan s.now (.ofNat e.entryTimestamp) = true
    · exact .inr hx
    · exact .inl ⟨e, JsMap.get_filter_of_pos he (by simpa using hx), rfl⟩
  · exact .inr hx

theorem remembered_step (hi : Remembered cfg s) {a : Action} (hg : OutlivedByReport cfg s a)
    (h : step cfg s a = some s') : Remembered cfg s' := by
  cases a with
  | addNewPendingTransaction tx | newTransaction tx =>
    rcases step_request h with rfl | hr
    · exact hi
    · exact remembered_request hi hg hr
  | validated i f =>
    obtain ⟨a, ha, hs⟩ := step_validated h
    have hrest : ∀ b ∈ s.admissions.eraseIdx i, b.afterReport = false :=
      fun b hb => hi.timely b (List.mem_of_mem_eraseIdx hb)
    rcases hs with rfl | ⟨-, rfl⟩
    · exact ⟨hi.kept, hrest, hi.fresh⟩
    · refine ⟨hi.kept, hrest, ?_⟩
      rw [store, hi.timely a (List.mem_of_getElem? ha)]
      exact hi.fresh
  | markCommittedTransactions m => exact remembered_mark hi h
  | clearCommitted j =>
    rw [step] at h
    split at h <;> cases h
    exact ⟨hi.kept, hi.timely, hi.fresh⟩
  | cleanupPending =>
    cases h
    exact ⟨hi.kept, hi.timely, hi.fresh⟩
  | cleanupCommitted => exact remembered_cleanupCommitted hi h
  | tick now =>
    rw [step] at h
    split at h
    · rename_i ht
      cases h
      exact ⟨fun txid c hr => (hi.kept txid c hr).imp_right (isExpired_mono ht), hi.timely, hi.fresh⟩
    · cases h

end

/-- **No transaction is stored by a request that comes after a report of it**, if none of these requests carries a
timestamp that outlives the report. -/
theorem no_replay {cfg : Config} {now : Time} {as : List Action} {s : State}
    (hg : Lts.Meets (step cfg) (OutlivedByReport cfg) (start now) as) (hr : Lts.run (step cfg) (start now) as = some s) :
    s.replays = [] :=
  (Lts.run_inv (fun _ _ _ hi hg h => remembered_step hi hg h) (remembered_start now) hg hr).fresh

/-- The transaction is committed, its report is forgotten, and the client sends it again. -/
def resent : List Action :=
  lifeCycle ++ [.tick ⟨1030001, by decide⟩, .cleanupCommitted, .addNewPendingTransaction sampleTransaction]

def outlivedByReport (cfg : Config) (s : State) : Action → Bool
  | .addNewPendingTransaction tx | .newTransaction tx =>
    match s.reported.get (TransactionHelper.calculateTransactionId cfg.crypto tx) with
    | some c =>
      ((Number.ofString tx.header.timestamp).add (BaseTransactionPool.transactionLifespanMs cfg.pendingLifespan)).le
        ((Number.ofNat c).add (BaseTransactionPool.transactionLifespanMs cfg.committedLifespan))
    | none => true
  | _ => true

theorem outlivedByReport_of_check {cfg : Config} {s : State} {a : Action} (h : outlivedByReport cfg s a = true) :
    OutlivedByReport cfg s a := by
  cases a with
  | addNewPendingTransaction tx | newTransaction tx =>
    intro c hc
    simpa [outlivedByReport, hc] using h
  | _ => trivial

theorem run_resent :
    Lts.checks (step (sampleConfig 30000)) (outlivedByReport (sampleConfig 30000)) (start sampleTime) resent = true ∧
      ((Lts.run (step (sampleConfig 30000)) (start sampleTime) resent).map fun s =>
        (s.reported.size, s.pools.committedTransactions.size)) = some (1, 0) := by
  decide +kernel

theorem no_replay_resent : ∃ s, Lts.run (step (sampleConfig 30000)) (start sampleTime) resent = some s ∧
    s.reported.size = 1 ∧ s.pools.committedTransactions.size = 0 ∧ s.replays = [] := by
  obtain ⟨s, hs, hf⟩ := Option.map_eq_some_iff.1 run_resent.2
  rw [Prod.mk.injEq] at hf
  exact ⟨s, hs, hf.1, hf.2,
    no_replay (Lts.meets_of_checks (fun _ _ => outlivedByReport_of_check) run_resent.1) hs⟩

def resentAndStored : List Action := resent ++ [.validated 0 fun _ => .ok true]

def oneAtATime (s : State) : Action → Bool
  | .addNewPendingTransaction _ | .newTransaction _ | .markCommittedTransactions _ =>
    s.admissions.isEmpty && s.marks.isEmpty
  | _ => true

theorem run_resent_validated :
    Lts.checks (step (sampleConfig 60000)) oneAtATime (start sampleTime) resentAndStored = true ∧
      ((Lts.run (step (sampleConfig 60000)) (start sampleTime) resentAndStored).map
        fun s => (s.replays.isEmpty, s.pools.pendingTransactions.has (transactionHashToId sampleReceipt.txHash))) =
          some (false, true) := by
  decide +kernel

/-- **A committed transaction is stored again once its report is forgotten**, where the pending pool has the longer
lifespan. -/
theorem replayed_after_cleanup :
    Lts.checks (step (sampleConfig 60000)) oneAtATime (start sampleTime) resentAndStored = true ∧
      ∃ s, Lts.run (step (sampleConfig 60000)) (start sampleTime) resentAndStored = some s ∧
        s.pools.pendingTransactions.has (transactionHashToId sampleReceipt.txHash) = true ∧ s.replays ≠ [] := by
  obtain ⟨s, hs, hf⟩ := Option.map_eq_some_iff.1 run_resent_validated.2
  rw [Prod.mk.injEq] at hf
  exact ⟨run_resent_validated.1, s, hs, hf.2, fun h => by rw [h] at hf; exact absurd hf.1 (by decide)⟩

end TransactionPool
end Orbs
