import OrbsNetwork.JsonBuffer
import OrbsNetwork.Lib.JsObject
import OrbsNetwork.TransactionPool
/-!
# TransactionAdmission — what the pool admits when messages are untyped

A gossip message is the JSON of whatever a peer sends: the handler reads the transaction's properties without looking
at their types.  Here a transaction is the JavaScript value it is, and a property read, a method call or an operator
does on it what JavaScript does.  The two doors of the service, the RPC with typed transactions and the gossip with
parsed ones, lead to the same checks.

With `verifySignature` on, a pending transaction is signed by the key whose hash is its sender's account
(`owner_only`), unless a gossip message carried a key that is the empty string or `false`: `Address.fromBuffer` takes
such a key for a missing one and does not compare the account.
-/
namespace Orbs
namespace TransactionAdmission

open Js TransactionPool

/-! ## Values -/

/-- `v === 0`. -/
def isZero : Option Val → Bool
  | some (.num x) => x = .ofNat 0
  | _ => false

/-- `v.toString("hex")`. -/
def hexText : Option Val → Except Str Str := encodedText Hex.encode

/-- What `Hash.update` takes a value for. -/
def hashed : Option Val → Except Str Bytes
  | some (.buffer bytes) => .ok bytes
  | some (.str s) => .ok (Utf8.encode s)
  | _ => .error "TypeError: Data must be a string or a buffer".toList

/-- A raw address.  A value that is no Buffer gets no further than `readUInt8`, which only Buffers have, so it is
refused here. -/
def rawAddress : Option Val → Except Str Bytes
  | some (.buffer bytes) => .ok bytes
  | _ => .error "TypeError: rawAddress.readUInt8 is not a function".toList

/-! ## The checks -/

/-- The primitives; `verify` is `ec.keyFromPublic(publicKey).verify(hash, signature)` on texts. -/
structure Primitives where
  crypto : Crypto
  verify : Str → Bytes → Str → Except Str Bool

/-- The text that `calculateHash` hashes. -/
def hashedText (tx : Val) : Except Str Str := do
  let header ← property (some tx) "header".toList
  let contractAddress ← rawAddress (← property header "contractAddress".toList)
  let sender ← rawAddress (← property header "sender".toList)
  let timestamp ← property header "timestamp".toList
  let version ← property header "version".toList
  let payload ← property (some tx) "payload".toList
  return Val.stableStringify <| defined
    [("header".toList, some (defined
      [("contractAddressBase58".toList, some (.str (bs58EncodeRawAddress contractAddress))),
        ("senderAddressBase58".toList, some (.str (bs58EncodeRawAddress sender))),
        ("timestamp".toList, timestamp),
        ("version".toList, version)])),
      ("payload".toList, payload)]

section
variable (primitives : Primitives)

def calculateHash (tx : Val) : Except Str Bytes := do
  return primitives.crypto.sha256 (Utf8.encode (← hashedText tx))

def calculateTransactionId (tx : Val) : Except Str Str := do
  return transactionHashToId (← calculateHash primitives tx)

def publicKeyOf (tx : Val) : Except Str (Option Val) := do
  property (← property (some tx) "signatureData".toList) "publicKey".toList

def signatureOf (tx : Val) : Except Str (Option Val) := do
  property (← property (some tx) "signatureData".toList) "signature".toList

def headerOf (tx : Val) (key : String) : Except Str (Option Val) := do
  property (← property (some tx) "header".toList) key.toList

def verifySignature (tx : Val) : Except Str Bool := do
  let hash ← calculateHash primitives tx
  let publicKey ← hexText (← publicKeyOf tx)
  let signature ← hexText (← signatureOf tx)
  primitives.verify publicKey hash signature

/-- The second argument of `Address.fromBuffer`, as its constructor hashes it: a key that is not truthy is not there. -/
def addressKey (publicKey : Option Val) : Except Str (Option Bytes) :=
  if truthy publicKey then (hashed publicKey).map some else .ok none

/-- `validate` from the addresses on. -/
def validateAddresses (options : TransactionValidatorOptions) (isSubscriptionValid : Str → Except Str Bool) (tx : Val) :
    Except Str Bool := do
  let sender ← rawAddress (← headerOf tx "sender")
  let publicKey ← addressKey (← publicKeyOf tx)
  match ← Address.fromBuffer primitives.crypto sender publicKey true with
  | none => return false
  | some senderAddress =>
    let contractAddress ← rawAddress (← headerOf tx "contractAddress")
    match ← Address.fromBuffer primitives.crypto contractAddress none true with
    | none => return false
    | some contractAddress =>
      if senderAddress.virtualChainId ≠ contractAddress.virtualChainId then return false
      if !options.verifySubscription then return true
      isSubscriptionValid (TransactionValidator.getSubscriptionKey contractAddress)

def validate (options : TransactionValidatorOptions) (isSubscriptionValid : Str → Except Str Bool) (tx : Val) :
    Except Str Bool := do
  let version ← headerOf tx "version"
  if isZero version then
    let signed ← if options.verifySignature then verifySignature primitives tx else pure true
    if signed then validateAddresses primitives options isSubscriptionValid tx else return false
  else throw ("Invalid transaction version: ".toList ++ (← templateText version))

def isTransactionExpired (lifespan : Option Number) (now : Time) (tx : Val) : Except Str Bool := do
  let timestamp ← headerOf tx "timestamp"
  match timestamp.elim (some .nan) Val.toNumber with
  | some x => return BaseTransactionPool.isExpired lifespan now x
  | none => throw "TypeError: Cannot convert object to primitive value".toList

end

/-! ## The service -/

structure State where
  now : Time
  pendingTransactions : JsMap Str Val
  committedTransactions : JsMap Str CommittedTransaction
  /-- Transactions that wait for the validator. -/
  admissions : List Val
  /-- The calls of `markCommittedTransactions` between their two pieces. -/
  marks : List (List TransactionReceipt)

inductive Action where
  | addNewPendingTransaction (transaction : Transaction)
  | gossipMessageReceived (messageType : Str) (buffer : Bytes)
  /-- The validator answers, with what the subscription manager answered it. -/
  | validated (i : ℕ) (isSubscriptionValid : Str → Except Str Bool)
  | markCommittedTransactions (transactionReceipts : List TransactionReceipt)
  /-- The second piece of a report. -/
  | clearCommitted (j : ℕ)
  | cleanupPending
  | cleanupCommitted
  | tick (now : Time)

def start (now : Time) : State where
  now
  pendingTransactions := .empty
  committedTransactions := .empty
  admissions := []
  marks := []

/-- How the service is built. -/
structure Config where
  primitives : Primitives
  options : TransactionValidatorOptions
  pendingLifespan : Option Number
  committedLifespan : Option Number

section
variable (cfg : Config)

/-- A request up to the call of the validator. -/
def request (s : State) (transaction : Val) : Except Str State := do
  let txid ← calculateTransactionId cfg.primitives transaction
  if s.pendingTransactions.has txid then
    throw ("Transaction with id ".toList ++ txid ++ " already exists in the pending transaction pool".toList)
  if s.committedTransactions.has txid then
    throw ("Transaction with id ".toList ++ txid ++ " already exists in the committed transaction pool".toList)
  if ← isTransactionExpired cfg.pendingLifespan s.now transaction then
    throw ("Transaction ".toList ++ transaction.stringify ++ " has expired. not storing in the pool".toList)
  return { s with admissions := s.admissions ++ [transaction] }

/-- A request that ends in an error leaves the service as it was. -/
def orElse (s : State) : Except Str State → State
  | .ok s' => s'
  | .error _ => s

def newTransaction (messageType : Str) (buffer : Bytes) : Option Val :=
  if messageType = "newTransaction".toList then
    (parseJsonWithBuffers (Utf8.decode buffer)).bind fun message =>
      match property (some message) "transaction".toList with
      | .ok transaction => transaction
      | .error _ => none
  else none

def store (s : State) (transaction : Val) : Except Str State := do
  let txid ← calculateTransactionId cfg.primitives transaction
  return { s with pendingTransactions := s.pendingTransactions.set txid transaction }

def step (s : State) : Action → Option State
  | .addNewPendingTransaction transaction => some (orElse s (request cfg s (Transaction.codec.enc transaction)))
  | .gossipMessageReceived messageType buffer =>
    match newTransaction messageType buffer with
    | some transaction => some (orElse s (request cfg s transaction))
    | none => some s
  | .validated i isSubscriptionValid =>
    match s.admissions[i]? with
    | none => none
    | some tx =>
      let rest := { s with admissions := s.admissions.eraseIdx i }
      match validate cfg.primitives cfg.options isSubscriptionValid tx with
      | .ok true => some (orElse rest (store cfg rest tx))
      | _ => some rest
  | .markCommittedTransactions transactionReceipts =>
    some { s with
      committedTransactions := transactionReceipts.foldl (fun m receipt =>
        m.set (transactionHashToId receipt.txHash) { entryTimestamp := s.now, receipt }) s.committedTransactions
      marks := s.marks ++ [transactionReceipts] }
  | .clearCommitted j =>
    match s.marks[j]? with
    | none => none
    | some transactionReceipts =>
      some { s with
        pendingTransactions := transactionReceipts.foldl (fun m receipt =>
          m.delete (transactionHashToId receipt.txHash)) s.pendingTransactions
        marks := s.marks.eraseIdx j }
  | .cleanupPending =>
    some { s with pendingTransactions := s.pendingTransactions.filter fun (_, transaction) =>
      match isTransactionExpired cfg.pendingLifespan s.now transaction with
      | .ok expired => !expired
      | .error _ => true }
  | .cleanupCommitted =>
    some { s with committedTransactions := s.committedTransactions.filter fun (_, entry) =>
      !BaseTransactionPool.isExpired cfg.committedLifespan s.now (.ofNat entry.entryTimestamp) }
  | .tick now => if s.now ≤ now then some { s with now } else none

end

/-! ## What the validator accepts -/

variable {primitives : Primitives}

theorem isZero_eq_true {v : Option Val} (h : isZero v = true) : v = some (.num (.ofNat 0)) := by
  unfold isZero at h
  split at h
  · rw [of_decide_eq_true h]
  · cases h

theorem rawAddress_eq_ok {v : Option Val} {bytes : Bytes} (h : rawAddress v = .ok bytes) : v = some (.buffer bytes) := by
  unfold rawAddress at h
  split at h <;> cases h
  rfl

theorem validateAddresses_eq_ok {options : TransactionValidatorOptions} {isSubscriptionValid : Str → Except Str Bool}
    {tx : Val} (h : validateAddresses primitives options isSubscriptionValid tx = .ok true) :
    ∃ sender publicKey key a contractAddress c,
      headerOf tx "sender" = .ok (some (.buffer sender)) ∧ publicKeyOf tx = .ok publicKey ∧
      addressKey publicKey = .ok key ∧ Address.fromBuffer primitives.crypto sender key true = .ok (some a) ∧
      headerOf tx "contractAddress" = .ok (some (.buffer contractAddress)) ∧
      Address.fromBuffer primitives.crypto contractAddress none true = .ok (some c) ∧
      a.virtualChainId = c.virtualChainId := by
  unfold validateAddresses at h
  obtain ⟨v, hv, h⟩ := bind_eq_ok.1 h
  obtain ⟨sender, hsender, h⟩ := bind_eq_ok.1 h
  obtain ⟨publicKey, hpk, h⟩ := bind_eq_ok.1 h
  obtain ⟨key, hkey, h⟩ := bind_eq_ok.1 h
  obtain ⟨_ | a, ha, h⟩ := bind_eq_ok.1 h
  · cases h
  obtain ⟨w, hw, h⟩ := bind_eq_ok.1 h
  obtain ⟨contractAddress, hcontract, h⟩ := bind_eq_ok.1 h
  obtain ⟨_ | c, hc, h⟩ := bind_eq_ok.1 h
  · cases h
  dsimp only at h
  split at h
  · cases h
  rename_i hchain
  rw [ne_eq, not_not] at hchain
  rw [rawAddress_eq_ok hsender] at hv
  rw [rawAddress_eq_ok hcontract] at hw
  exact ⟨sender, publicKey, key, a, contractAddress, c, hv, hpk, hkey, ha, hw, hc, hchain⟩

theorem validate_eq_ok {options : TransactionValidatorOptions} {isSubscriptionValid : Str → Except Str Bool} {tx : Val}
    (h : validate primitives options isSubscriptionValid tx = .ok true) :
    headerOf tx "version" = .ok (some (.num (.ofNat 0))) ∧
      (options.verifySignature = true → verifySignature primitives tx = .ok true) ∧
      validateAddresses primitives options isSubscriptionValid tx = .ok true := by
  unfold validate at h
  obtain ⟨version, hversion, h⟩ := bind_eq_ok.1 h
  split at h
  · rename_i hz
    rw [isZero_eq_true hz] at hversion
    dsimp only at h
    split at h
    · obtain ⟨signed, hsigned, h⟩ := bind_eq_ok.1 h
      cases signed with
      | false => cases h
      | true => exact ⟨hversion, fun _ => hsigned, h⟩
    · rename_i hv
      exact ⟨hversion, fun hs => absurd hs hv, h⟩
  · obtain ⟨text, -, h⟩ := bind_eq_ok.1 h
    cases h

/-- **What the pool promises of a pending transaction**: it is signed by the key whose hash is its sender's account. -/
structure Authentic (primitives : Primitives) (tx : Val) : Prop where
  version : headerOf tx "version" = .ok (some (.num (.ofNat 0)))
  signed : ∃ hash publicKey signature, calculateHash primitives tx = .ok hash ∧
    publicKeyOf tx >>= hexText = .ok publicKey ∧ signatureOf tx >>= hexText = .ok signature ∧
    primitives.verify publicKey hash signature = .ok true
  addresses : ∃ sender contractAddress publicKey a c, headerOf tx "sender" = .ok (some (.buffer sender)) ∧
    headerOf tx "contractAddress" = .ok (some (.buffer contractAddress)) ∧
    publicKeyOf tx >>= hashed = .ok publicKey ∧
    (sender.drop 5).take 20 = primitives.crypto.ripemd160 (primitives.crypto.sha256 publicKey) ∧
    Address.fromBuffer primitives.crypto sender (some publicKey) true = .ok (some a) ∧
    Address.fromBuffer primitives.crypto contractAddress none true = .ok (some c) ∧
    (sender.drop 2).take 3 = (contractAddress.drop 2).take 3

/-- The public key of the transaction is not one that `Address.fromBuffer` overlooks. -/
def Keyed (tx : Val) : Prop :=
  publicKeyOf tx ≠ .ok (some (.str [])) ∧ publicKeyOf tx ≠ .ok (some (.bool false))

theorem verifySignature_eq_ok {tx : Val} {b : Bool} (h : verifySignature primitives tx = .ok b) :
    ∃ hash publicKey signature, calculateHash primitives tx = .ok hash ∧
      publicKeyOf tx >>= hexText = .ok publicKey ∧ signatureOf tx >>= hexText = .ok signature ∧
      primitives.verify publicKey hash signature = .ok b := by
  unfold verifySignature at h
  obtain ⟨hash, hhash, h⟩ := bind_eq_ok.1 h
  obtain ⟨pk, hpk, h⟩ := bind_eq_ok.1 h
  obtain ⟨publicKey, hpublicKey, h⟩ := bind_eq_ok.1 h
  obtain ⟨sig, hsig, h⟩ := bind_eq_ok.1 h
  obtain ⟨signature, hsignature, h⟩ := bind_eq_ok.1 h
  exact ⟨hash, publicKey, signature, hhash, bind_eq_ok.2 ⟨pk, hpk, hpublicKey⟩,
    bind_eq_ok.2 ⟨sig, hsig, hsignature⟩, h⟩

/-- A key that has a text for the signature check is one for the address, too, unless it is the empty string or
`false`. -/
theorem truthy_of_hexText {v : Option Val} {text : Str} (h : hexText v = .ok text) (hs : v ≠ some (.str []))
    (hb : v ≠ some (.bool false)) : truthy v = true := by
  unfold hexText encodedText at h
  split at h
  · cases h
  · cases h
  · rfl
  · cases h
  · rename_i v _ _ _
    cases v with
    | null | num x => simp_all
    | bool b => cases b <;> simp_all [truthy]
    | str s => simpa [truthy] using hs
    | buffer bytes | arr l | obj l => rfl

/-- **The validator accepts only the owner's transactions**, of those with a key that is not overlooked. -/
theorem authentic_of_validate {options : TransactionValidatorOptions}
    {isSubscriptionValid : Str → Except Str Bool} {tx : Val} (hv : options.verifySignature = true) (hk : Keyed tx)
    (h : validate primitives options isSubscriptionValid tx = .ok true) : Authentic primitives tx := by
  obtain ⟨hversion, hsig, haddr⟩ := validate_eq_ok h
  obtain ⟨hash, publicKey, signature, hhash, hpk, hsignature, hverify⟩ := verifySignature_eq_ok (hsig hv)
  obtain ⟨sender, pk, key, a, contractAddress, c, hsender, hpk', hkey, ha, hcontract, hc, hchain⟩ :=
    validateAddresses_eq_ok haddr
  -- the key is there for the address
  have ht : truthy pk = true := by
    obtain ⟨pk', hpk'', htext⟩ := bind_eq_ok.1 hpk
    rw [hpk'] at hpk''
    cases hpk''
    refine truthy_of_hexText htext (fun hs => hk.1 ?_) (fun hb => hk.2 ?_)
    · rw [hpk', hs]
    · rw [hpk', hb]
  unfold addressKey at hkey
  rw [if_pos ht] at hkey
  cases hbytes : hashed pk with
  | error e => rw [hbytes] at hkey; cases hkey
  | ok bytes =>
  rw [hbytes] at hkey
  cases hkey
  obtain ⟨hav, haa, hak⟩ := Address.fromBuffer_eq_ok ha
  obtain ⟨hcv, -, -⟩ := Address.fromBuffer_eq_ok hc
  refine ⟨hversion, ⟨hash, publicKey, signature, hhash, hpk, hsignature, hverify⟩,
    ⟨sender, contractAddress, bytes, a, c, hsender, hcontract, bind_eq_ok.2 ⟨pk, hpk', hbytes⟩, ?_, ha, hc, ?_⟩⟩
  · exact haa.symm.trans (hak bytes rfl)
  · exact Hex.encode_injective (hav.symm.trans (hchain.trans hcv))

/-! ## Runs -/

/-- Every transaction that the action offers to the pool satisfies `P`. -/
def Offers (P : Val → Prop) : Action → Prop
  | .addNewPendingTransaction transaction => P (Transaction.codec.enc transaction)
  | .gossipMessageReceived messageType buffer => ∀ tx, newTransaction messageType buffer = some tx → P tx
  | _ => True

/-- The transactions that wait satisfy `P`, those that are stored `Q`. -/
structure Admitted (P Q : Val → Prop) (s : State) : Prop where
  admissions : ∀ tx ∈ s.admissions, P tx
  pending : ∀ txid tx, s.pendingTransactions.get txid = some tx → Q tx

section
variable {cfg : Config} {P Q : Val → Prop} {s s' : State}

theorem request_eq_ok {transaction : Val} (h : request cfg s transaction = .ok s') :
    s' = { s with admissions := s.admissions ++ [transaction] } := by
  unfold request at h
  obtain ⟨txid, -, h⟩ := bind_eq_ok.1 h
  dsimp only at h
  split at h
  · cases h
  split at h
  · cases h
  obtain ⟨expired, -, h⟩ := bind_eq_ok.1 h
  split at h <;> cases h
  rfl

theorem admitted_request (hi : Admitted P Q s) {transaction : Val} (hp : P transaction) :
    Admitted P Q (orElse s (request cfg s transaction)) := by
  cases hr : request cfg s transaction with
  | error e => exact hi
  | ok t =>
    rw [request_eq_ok hr]
    refine ⟨fun tx htx => ?_, hi.pending⟩
    rcases List.mem_append.1 htx with htx | htx
    · exact hi.admissions tx htx
    · rw [List.mem_singleton.1 htx]
      exact hp

theorem admitted_store (hi : Admitted P Q s) {transaction : Val} (hq : Q transaction) :
    Admitted P Q (orElse s (store cfg s transaction)) := by
  cases hr : store cfg s transaction with
  | error e => exact hi
  | ok t =>
    unfold store at hr
    obtain ⟨txid, -, hr⟩ := bind_eq_ok.1 hr
    cases hr
    refine ⟨hi.admissions, fun id tx hp => ?_⟩
    change (s.pendingTransactions.set txid transaction).get id = some tx at hp
    rw [JsMap.get_set] at hp
    split_ifs at hp with hid
    · cases hp
      exact hq
    · exact hi.pending id tx hp

theorem admitted_step (hval : ∀ isSubscriptionValid tx, P tx →
      validate cfg.primitives cfg.options isSubscriptionValid tx = .ok true → Q tx)
    (hi : Admitted P Q s) {a : Action} (hg : Offers P a) (h : step cfg s a = some s') : Admitted P Q s' := by
  cases a with
  | addNewPendingTransaction transaction =>
    cases h
    exact admitted_request hi hg
  | gossipMessageReceived messageType buffer =>
    simp only [step] at h
    split at h
    · rename_i tx htx
      cases h
      exact admitted_request hi (hg tx htx)
    · cases h
      exact hi
  | validated i isSubscriptionValid =>
    simp only [step] at h
    split at h
    · cases h
    rename_i tx htx
    have hrest : Admitted P Q { s with admissions := s.admissions.eraseIdx i } :=
      ⟨fun t ht => hi.admissions t (List.mem_of_mem_eraseIdx ht), hi.pending⟩
    split at h
    · rename_i hv
      cases h
      exact admitted_store hrest (hval _ tx (hi.admissions tx (List.mem_of_getElem? htx)) hv)
    · cases h
      exact hrest
  | markCommittedTransactions m =>
    cases h
    exact ⟨hi.admissions, hi.pending⟩
  | clearCommitted j =>
    simp only [step] at h
    split at h <;> cases h
    exact ⟨hi.admissions, fun txid tx hp => hi.pending txid tx ((JsMap.get_foldl_delete _).1 hp).1⟩
  | cleanupPending =>
    cases h
    exact ⟨hi.admissions, fun txid tx hp => hi.pending txid tx (JsMap.get_of_get_filter hp)⟩
  | cleanupCommitted =>
    cases h
    exact ⟨hi.admissions, hi.pending⟩
  | tick now =>
    simp only [step] at h
    split at h <;> cases h
    exact ⟨hi.admissions, hi.pending⟩

/-- What every offered transaction has and the validator turns into `Q`, every pending one has. -/
theorem pending_of_run (hval : ∀ isSubscriptionValid tx, P tx →
      validate cfg.primitives cfg.options isSubscriptionValid tx = .ok true → Q tx) {now : Time} {as : List Action}
    (hg : Lts.Meets (step cfg) (fun _ a => Offers P a) (start now) as) (hr : Lts.run (step cfg) (start now) as = some s) :
    ∀ txid tx, s.pendingTransactions.get txid = some tx → Q tx := by
  have hstart : Admitted P Q (start now) := ⟨nofun, nofun⟩
  exact (Lts.run_inv (fun _ _ _ hi hg h => admitted_step hval hi hg h) hstart hg hr).pending

end

/-- The transaction of a gossip message does not have the empty string or `false` for its public key. -/
def KeyGiven : Action → Prop
  | .gossipMessageReceived messageType buffer => ∀ tx, newTransaction messageType buffer = some tx → Keyed tx
  | _ => True

theorem keyed_enc (transaction : Transaction) : Keyed (Transaction.codec.enc transaction) := by
  rcases transaction with ⟨header, payload, _ | data⟩
  · exact ⟨nofun, nofun⟩
  · exact ⟨nofun, nofun⟩

theorem offers_of_keyGiven {a : Action} (h : KeyGiven a) : Offers Keyed a := by
  cases a with
  | addNewPendingTransaction transaction => exact keyed_enc transaction
  | gossipMessageReceived messageType buffer => exact h
  | _ => trivial

/-- **With `verifySignature` on, every pending transaction is its owner's**, in every run in which no gossip message
carries the empty string or `false` for a public key. -/
theorem owner_only {cfg : Config} (hv : cfg.options.verifySignature = true) {now : Time} {as : List Action} {s : State}
    (hg : Lts.Meets (step cfg) (fun _ a => KeyGiven a) (start now) as)
    (hr : Lts.run (step cfg) (start now) as = some s) :
    ∀ txid tx, s.pendingTransactions.get txid = some tx → Authentic cfg.primitives tx := by
  have hoffers : Lts.Meets (step cfg) (fun _ a => Offers Keyed a) (start now) as :=
    Lts.meets_of_mem hg fun _ a _ ha => offers_of_keyGiven ha
  exact pending_of_run (fun _ _ hk h => authentic_of_validate hv hk h) hoffers hr

/-! ## The typed service -/

/-- A typed transaction has the hash that `TransactionHelper` computes. -/
theorem calculateHash_enc (transaction : Transaction) :
    calculateHash primitives (Transaction.codec.enc transaction) =
      .ok (TransactionHelper.calculateHash primitives.crypto transaction) := by
  rfl

theorem isZero_ofNat {n : ℕ} (h : n < 2 ^ 32) : isZero (some (.ofNat n)) = decide (n = 0) := by
  unfold isZero Val.ofNat
  dsimp only
  apply decide_eq_decide.2
  constructor
  · intro he
    have hn := Val.asNat_ofNat (show n ≤ 2 ^ 53 by omega)
    rw [Val.ofNat, he] at hn
    exact Option.some.inj (hn.symm.trans (Val.asNat_ofNat (Nat.zero_le _)))
  · rintro rfl
    rfl

/-- The validator accepts the same typed transactions in both models. -/
theorem validate_enc {options : TransactionValidatorOptions} {isSubscriptionValid : Str → Except Str Bool}
    (hverify : ∀ publicKey hash signature, primitives.verify (Hex.encode publicKey) hash (Hex.encode signature) =
      primitives.crypto.verify publicKey hash signature)
    {transaction : Transaction} (ht : transaction.header.version < 2 ^ 32) :
    validate primitives options isSubscriptionValid (Transaction.codec.enc transaction) = .ok true ↔
      TransactionValidator.validate primitives.crypto options isSubscriptionValid transaction = .ok true := by
  obtain ⟨header, payload, data⟩ := transaction
  have hversion : headerOf (Transaction.codec.enc ⟨header, payload, data⟩) "version" =
      .ok (some (.ofNat header.version)) := rfl
  unfold validate TransactionValidator.validate
  rw [hversion]
  dsimp only [Bind.bind, Except.bind]
  rw [isZero_ofNat ht]
  by_cases hz : header.version = 0
  · rw [decide_eq_true hz, if_pos rfl, if_neg (not_not.2 hz)]
    cases data with
    | none =>
      by_cases hs : options.verifySignature = true
      · rw [if_pos hs]
        exact ⟨nofun, nofun⟩
      · rw [if_neg hs]
        exact ⟨nofun, nofun⟩
    | some data =>
      have hsigned : verifySignature primitives (Transaction.codec.enc ⟨header, payload, some data⟩) =
          primitives.crypto.verify data.publicKey
            (TransactionHelper.calculateHash primitives.crypto ⟨header, payload, some data⟩) data.signature :=
        hverify _ _ _
      by_cases hs : options.verifySignature = true
      · rw [if_pos hs, hsigned]
        dsimp only
        rw [if_pos hs]
        cases primitives.crypto.verify data.publicKey
            (TransactionHelper.calculateHash primitives.crypto ⟨header, payload, some data⟩) data.signature with
        | error e => exact ⟨nofun, nofun⟩
        | ok signed =>
          cases signed with
          | false => exact ⟨nofun, nofun⟩
          | true => exact Iff.rfl
      · rw [if_neg hs]
        dsimp only
        rw [if_neg hs]
        exact Iff.rfl
  · rw [decide_eq_false hz, if_neg Bool.false_ne_true, if_pos hz]
    have htext : ∃ text, templateText (some (.ofNat header.version)) = .ok text := ⟨_, rfl⟩
    obtain ⟨text, htext⟩ := htext
    rw [htext]
    exact ⟨nofun, nofun⟩

/-! ## A transaction without a key -/

def message (tx : Val) : Bytes := Utf8.encode (Val.stringify (.obj [("transaction".toList, tx)]))

theorem newTransaction_message {tx : Val} (h : tx.Proper) :
    newTransaction "newTransaction".toList (message tx) = some tx := by
  have hm : (Val.obj [("transaction".toList, tx)]).Proper := by
    have hnamed : ∀ k ∈ ["transaction".toList], Val.Named k := by decide
    refine .obj (List.nodup_singleton _) hnamed fun p hp => ?_
    rw [List.mem_singleton.1 hp]
    exact h
  unfold newTransaction message
  rw [if_pos rfl, Utf8.decode_encode, parseJsonWithBuffers_stringify hm]
  rfl

theorem step_message {cfg : Config} {s : State} {tx : Val} (h : tx.Proper) :
    step cfg s (.gossipMessageReceived "newTransaction".toList (message tx)) = some (orElse s (request cfg s tx)) := by
  simp only [step, newTransaction_message h]

/-- The public key of the private key of 32 sevens. -/
def ownerKey : Bytes := Hex.decode "ea4a6c63e29c520abef5507b132ec5f9954776aebebe7b92421eea691446d22c".toList

def ownerSignature : Str :=
  ("e2283fc0ea9f61a592fcb94122353aa585935a63e0339ca04f575d8e44566364" ++
    "c8bfb59d91477dbcb7e75d4a99bb5c171da7da92f5a9e91aa9cc0a923b4c0e02").toList

/-- A signature that verifies under the empty key: that key decodes to a point of order four, whose multiples the
forger tries. -/
def forgedSignature : Str :=
  ("9d7343a2d9e5d12de3965c79889ef8e2a8e08c6bc30c02fd47a891ff1a5c3a10" ++
    "0300000000000000000000000000000000000000000000000000000000000000").toList

/-- `ripemd160` and `verify` on what the transactions below give them. -/
def samplePrimitives : Primitives where
  crypto := { sampleCrypto with
    ripemd160 := fun digest =>
      if digest = Sha256.hash [] then Hex.decode "b472a266d0bd89c13706a4132ccfb16f7c3b9fcb".toList
      else Hex.decode "057a79bbe10e1f772ec7a783a7060d30edfd53ae".toList }
  verify publicKey hash signature := .ok (decide (
    Hex.encode hash = "c8273b1a90c4a932d522e963c0896cb490912876c6379d3855ff1a29adc42cc5".toList ∧
      (publicKey = Hex.encode ownerKey ∧ signature = ownerSignature ∨ publicKey = [] ∧ signature = forgedSignature)))

def sampleConfig : Config where
  primitives := samplePrimitives
  options := { verifySignature := true, verifySubscription := false }
  pendingLifespan := none
  committedLifespan := none

def sampleHeader : TransactionHeader where
  version := 0
  sender := Hex.decode "5400000000057a79bbe10e1f772ec7a783a7060d30edfd53ae8358e461".toList
  timestamp := "1000000".toList
  contractAddress := Hex.decode "5400000000906be446c731622741d6021d4d5ce0f42824fcef60d38b93".toList

def ownerTransaction : Transaction where
  header := sampleHeader
  payload := []
  signatureData := some { publicKey := ownerKey, signature := Hex.decode ownerSignature }

/-- The same transaction, signed by a forger. -/
def forgedTransaction : Val := .obj
  [("header".toList, TransactionHeader.codec.enc sampleHeader), ("payload".toList, .str []),
    ("signatureData".toList, .obj [("publicKey".toList, .str []), ("signature".toList, .str forgedSignature)])]

theorem proper_forgedTransaction : forgedTransaction.Proper := by
  refine .obj (by decide) (by decide) fun p hp => ?_
  simp only [List.mem_cons, List.not_mem_nil, or_false] at hp
  obtain rfl | rfl | rfl := hp
  · exact TransactionHeader.codec.proper _ ⟨Nat.zero_le _, trivial, trivial, trivial, trivial⟩
  · exact .str []
  · refine .obj (by decide) (by decide) fun p hp => ?_
    simp only [List.mem_cons, List.not_mem_nil, or_false] at hp
    obtain rfl | rfl := hp
    · exact .str []
    · exact .str forgedSignature

theorem proper_ownerTransaction : (Transaction.codec.enc ownerTransaction).Proper :=
  Transaction.codec.proper _ (Transaction.inRange (by decide))

def gossiped (tx : Val) : List Action :=
  [.gossipMessageReceived "newTransaction".toList (message tx), .validated 0 fun _ => .ok true]

theorem run_gossiped {cfg : Config} {s : State} {tx : Val} (h : tx.Proper) :
    Lts.run (step cfg) s (gossiped tx) =
      Lts.run (step cfg) (orElse s (request cfg s tx)) [.validated 0 fun _ => .ok true] := by
  rw [gossiped, Lts.run, step_message h]
  rfl

theorem offers_message {P : Val → Prop} {tx : Val} (h : tx.Proper) (hp : P tx) :
    Offers P (.gossipMessageReceived "newTransaction".toList (message tx)) := by
  intro t ht
  rw [newTransaction_message h] at ht
  cases ht
  exact hp

def sampleTxid : Str := "c8273b1a90c4a932d522e963c0896cb490912876c6379d3855ff1a29adc42cc5".toList

theorem stored_owner :
    ((Lts.run (step sampleConfig) (orElse (start sampleTime) (request sampleConfig (start sampleTime)
      (Transaction.codec.enc ownerTransaction))) [.validated 0 fun _ => .ok true]).map fun s =>
        s.pendingTransactions.has sampleTxid) = some true := by
  decide +kernel

theorem owner_only_gossiped : ∃ s tx,
    Lts.run (step sampleConfig) (start sampleTime) (gossiped (Transaction.codec.enc ownerTransaction)) = some s ∧
      s.pendingTransactions.get sampleTxid = some tx ∧ Authentic samplePrimitives tx := by
  obtain ⟨s, hs, hhas⟩ := Option.map_eq_some_iff.1 stored_owner
  obtain ⟨tx, htx⟩ := Option.isSome_iff_exists.1 hhas
  rw [← run_gossiped proper_ownerTransaction] at hs
  have hg := offers_message (P := Keyed) proper_ownerTransaction (keyed_enc ownerTransaction)
  have hmeets : Lts.Meets (step sampleConfig) (fun _ a => KeyGiven a) (start sampleTime)
      (gossiped (Transaction.codec.enc ownerTransaction)) := ⟨hg, fun _ _ => ⟨trivial, fun _ _ => trivial⟩⟩
  exact ⟨s, tx, hs, htx, owner_only rfl hmeets hs sampleTxid tx htx⟩

theorem stored_forged :
    ((Lts.run (step sampleConfig) (orElse (start sampleTime) (request sampleConfig (start sampleTime)
      forgedTransaction)) [.validated 0 fun _ => .ok true]).map fun s =>
        s.pendingTransactions.has sampleTxid) = some true := by
  decide +kernel

theorem not_authentic_forgedTransaction : ¬ Authentic samplePrimitives forgedTransaction := by
  intro h
  obtain ⟨sender, contractAddress, publicKey, a, c, hsender, -, hkey, howner, -⟩ := h.addresses
  cases hsender
  cases hkey
  exact absurd howner (by decide +kernel)

/-- **A transaction signed by nobody is stored in the name of the owner**, when it comes with an empty key. -/
theorem stored_without_key : sampleConfig.options.verifySignature = true ∧ ∃ s,
    Lts.run (step sampleConfig) (start sampleTime) (gossiped forgedTransaction) = some s ∧
      ∃ txid tx, s.pendingTransactions.get txid = some tx ∧ ¬ Authentic samplePrimitives tx := by
  obtain ⟨s, hs, hhas⟩ := Option.map_eq_some_iff.1 stored_forged
  obtain ⟨tx, htx⟩ := Option.isSome_iff_exists.1 hhas
  rw [← run_gossiped proper_forgedTransaction] at hs
  have hg := offers_message (P := (· = forgedTransaction)) proper_forgedTransaction rfl
  have hmeets : Lts.Meets (step sampleConfig) (fun _ a => Offers (· = forgedTransaction) a) (start sampleTime)
      (gossiped forgedTransaction) := ⟨hg, fun _ _ => ⟨trivial, fun _ _ => trivial⟩⟩
  have ht : tx = forgedTransaction :=
    pending_of_run (Q := (· = forgedTransaction)) (fun _ _ h _ => h) hmeets hs sampleTxid tx htx
  exact ⟨rfl, s, hs, sampleTxid, tx, htx, fun ha => not_authentic_forgedTransaction (ht ▸ ha)⟩

end TransactionAdmission
end Orbs
