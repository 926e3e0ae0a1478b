import OrbsNetwork.Processor
import OrbsNetwork.StateCacheKeys
/-!
# KinAtnSmartContract — token balances

A balance is the JSON text under `balances.<account>`.  A transfer moves tokens from the sender to a recipient; but the
processor also calls `setBalance` for anyone, `financeAccount` overwrites what the account has, and an account name with
a colon writes the balance of the account before the colon.  Apart from these, only the sender of a transaction loses
tokens (`balance_not_lower`).
-/
namespace Orbs
namespace KinAtnSmartContract

open Js VirtualMachine
open StateProg (Machine read write ofExcept)

abbrev Prog := StateProg Str Str ContractError

def allocatedPoolStateVariable : Str := "atn_pool".toList
def defaultBalance : Number := .ofNat 10000
def poolInitialValue : Number := .ofNat (1000000 * 1000 * 20)

def validationError (message : Str) : ContractError := { expected := true, message }

/-- `ToString` of an argument, as a template literal has it. -/
def text : Option Val → Except ContractError Str
  | none => .ok "undefined".toList
  | some v => match v.toStr with
    | some s => .ok s
    | none => .error (unexpected "Cannot convert object to primitive value")

def getAccountBalanceKey (account : Str) : Str := "balances.".toList ++ account

/-- `balance != undefined ? JSON.parse(balance) : 0`. -/
def parseBalance : Option Str → Except ContractError Val
  | none => .ok (.num (.ofNat 0))
  | some balance => match Json.parse balance with
    | some v => .ok (.ofJson v)
    | none => .error (unexpected "Unexpected token in JSON")

def getBalanceForAccount (account : Str) : Prog Val :=
  read (getAccountBalanceKey account) >>= fun balance => ofExcept (parseBalance balance)

def setBalance (account : Str) (amount : Option Val) : Prog Unit :=
  write (getAccountBalanceKey account) (amount.map Val.stringify)

def getPoolBalance : Prog Val :=
  read allocatedPoolStateVariable >>= fun balance => ofExcept (parseBalance balance)

def setPoolBalance (amount : Option Val) : Prog Unit :=
  write allocatedPoolStateVariable (amount.map Val.stringify)

/-- The operator `== 0`. -/
def isZero : Val → Except ContractError Bool
  | .null => .ok false
  | v => match v.toNumber with
    | some x => .ok (x = .ofNat 0)
    | none => .error (unexpected "Cannot convert object to primitive value")

/-- The operator `-`. -/
def minus (a : Val) (b : Option Val) : Except ContractError Number :=
  match a.toNumber, b.elim (some .nan) Val.toNumber with
  | some x, some y => .ok (x.sub y)
  | _, _ => .error (unexpected "Cannot convert object to primitive value")

def transfer (senderAddressBase58 : Str) : Option Val → Option Val → Prog Unit
  | some (.str recipient), some (.num amount) =>
    if amount.le (.ofNat 0) then .throw (validationError "Transaction amount must be > 0".toList)
    else getBalanceForAccount senderAddressBase58 >>= fun
      | .num senderBalance =>
        if senderBalance.lt amount then
          .throw (validationError ("Insufficient balance ".toList ++ senderBalance.toString ++ " < ".toList
            ++ amount.toString))
        else getBalanceForAccount recipient >>= fun
          | .num recipientBalance =>
            if (Number.maxSafeInteger.sub amount).lt recipientBalance then
              .throw (validationError ("Recipient account of ".toList ++ recipient ++ " is at balance ".toList
                ++ recipientBalance.toString ++ " and will overflow if ".toList ++ amount.toString
                ++ " is added".toList))
            else setBalance senderAddressBase58 (some (.num (senderBalance.sub amount))) >>= fun _ =>
              setBalance recipient (some (.num (recipientBalance.add amount)))
          | _ => .throw (validationError ("Account ".toList ++ recipient
              ++ " is corrupted, please use a new account".toList))
      | _ => .throw (validationError ("Account ".toList ++ senderAddressBase58
          ++ " is corrupted, please use a new account".toList))
  | some (.str _), _ => .throw (validationError "Argument amount must be a number".toList)
  | _, _ => .throw (validationError "Argument recipient must be a string".toList)

def reduceFromPool (amount : Option Val) : Prog Unit :=
  getPoolBalance >>= fun allocatedBalance => ofExcept (isZero allocatedBalance) >>= fun reset =>
    (if reset then setPoolBalance (some (.num poolInitialValue)) >>= fun _ => getPoolBalance
      else pure allocatedBalance) >>= fun allocatedBalance =>
    ofExcept (minus allocatedBalance amount) >>= fun rest => setPoolBalance (some (.num rest))

def financeAccount : Option Val → Prog Unit
  | some (.str accountToFinance) =>
    setBalance accountToFinance (some (.num defaultBalance)) >>= fun _ => reduceFromPool (some (.num defaultBalance))
  | _ => .throw (validationError "Argument accountToFinance must be a string".toList)

/-- What can be called on an instance. -/
inductive Method where
  | transfer
  | getBalance
  | reduceFromPool
  | financeAccount
  | getBalanceForAccount
  | setBalance
  | getPoolBalance
  | setPoolBalance
  | getAccountBalanceKey
  | validationError
  /-- Methods of every object that ignore their arguments. -/
  | inherited
  /-- Methods of every object that take the name of a property. -/
  | inheritedByKey

/-- The functions under the properties of an instance that do not throw for being called. -/
def methods : List (Str × Method) :=
  [("transfer".toList, .transfer), ("getBalance".toList, .getBalance), ("reduceFromPool".toList, .reduceFromPool),
    ("financeAccount".toList, .financeAccount), ("getBalanceForAccount".toList, .getBalanceForAccount),
    ("setBalance".toList, .setBalance), ("getPoolBalance".toList, .getPoolBalance),
    ("setPoolBalance".toList, .setPoolBalance), ("getAccountBalanceKey".toList, .getAccountBalanceKey),
    ("validationError".toList, .validationError), ("toString".toList, .inherited),
    ("toLocaleString".toList, .inherited), ("valueOf".toList, .inherited), ("isPrototypeOf".toList, .inherited),
    ("hasOwnProperty".toList, .inheritedByKey), ("propertyIsEnumerable".toList, .inheritedByKey),
    ("__lookupGetter__".toList, .inheritedByKey), ("__lookupSetter__".toList, .inheritedByKey)]

def method (name : Str) : Option Method := (methods.find? fun p => p.1 = name).map Prod.snd

def call : Contract := fun senderAddressBase58 name args =>
  match method name with
  | some .transfer => transfer senderAddressBase58 args[0]? args[1]?
  | some .getBalance => getBalanceForAccount senderAddressBase58 >>= fun _ => pure ()
  | some .reduceFromPool => reduceFromPool args[0]?
  | some .financeAccount => financeAccount args[0]?
  | some .getBalanceForAccount =>
    ofExcept (text args[0]?) >>= fun account => getBalanceForAccount account >>= fun _ => pure ()
  | some .setBalance => ofExcept (text args[0]?) >>= fun account => setBalance account args[1]?
  | some .getPoolBalance => getPoolBalance >>= fun _ => pure ()
  | some .setPoolBalance => setPoolBalance args[0]?
  | some .getAccountBalanceKey | some .inheritedByKey => ofExcept (text args[0]?) >>= fun _ => pure ()
  | some .validationError | some .inherited => pure ()
  | none => .throw (unexpected "contract[method] is not a function")

/-! ## What a call writes -/

section
variable {σ : Type} {m : Machine σ Str Str} {s : σ}

theorem writes_read_ofExcept (key : Str) (f : Option Str → Except ContractError Val) :
    (read key >>= fun balance => ofExcept (f balance) : Prog Val).writes m s = [] :=
  StateProg.writes_ofExcept m (f (m.load s key)) s

theorem exec_read_ofExcept (key : Str) (f : Option Str → Except ContractError Val) :
    (read key >>= fun balance => ofExcept (f balance) : Prog Val).exec m s = (f (m.load s key), s) :=
  StateProg.exec_ofExcept m (f (m.load s key)) s

/-- The checks of `transfer`, on what the accounts hold. -/
structure Accepted (balances : Str → Except ContractError Val) (senderAddressBase58 recipient : Str)
    (amount senderBalance recipientBalance : Number) : Prop where
  positive : amount.le (.ofNat 0) = false
  sender : balances senderAddressBase58 = .ok (.num senderBalance)
  sufficient : senderBalance.lt amount = false
  recipient : balances recipient = .ok (.num recipientBalance)
  room : (Number.maxSafeInteger.sub amount).lt recipientBalance = false

/-- A write of a call to one account, or to the pool. -/
inductive CallWrites (m : Machine σ Str Str) (s : σ) (senderAddressBase58 name : Str) (args : List Val) :
    Str × Option Str → Prop
  | pool (value : Option Str) : CallWrites m s senderAddressBase58 name args (allocatedPoolStateVariable, value)
  | debit {recipient : Str} {amount x y : Number} (hm : method name = some .transfer)
      (h0 : args[0]? = some (.str recipient)) (h1 : args[1]? = some (.num amount))
      (h : Accepted (fun a => parseBalance (m.load s (getAccountBalanceKey a))) senderAddressBase58 recipient amount x y) :
      CallWrites m s senderAddressBase58 name args
        (getAccountBalanceKey senderAddressBase58, some (Val.stringify (.num (x.sub amount))))
  | credit {recipient : Str} {amount x y : Number} (hm : method name = some .transfer)
      (h0 : args[0]? = some (.str recipient)) (h1 : args[1]? = some (.num amount))
      (h : Accepted (fun a => parseBalance (m.load s (getAccountBalanceKey a))) senderAddressBase58 recipient amount x y) :
      CallWrites m s senderAddressBase58 name args
        (getAccountBalanceKey recipient, some (Val.stringify (.num (y.add amount))))
  | set {account : Str} (hm : method name = some .setBalance) (h0 : text args[0]? = .ok account) :
      CallWrites m s senderAddressBase58 name args (getAccountBalanceKey account, args[1]?.map Val.stringify)
  | finance {account : Str} (hm : method name = some .financeAccount) (h0 : args[0]? = some (.str account)) :
      CallWrites m s senderAddressBase58 name args
        (getAccountBalanceKey account, some (Val.stringify (.num defaultBalance)))

theorem writes_transfer {sender : Str} {recipient amount : Option Val} :
    ∀ w ∈ (transfer sender recipient amount).writes m s, ∃ r z x y, recipient = some (.str r) ∧ amount = some (.num z) ∧
      Accepted (fun a => parseBalance (m.load s (getAccountBalanceKey a))) sender r z x y ∧
      (w = (getAccountBalanceKey sender, some (Val.stringify (.num (x.sub z)))) ∨
        w = (getAccountBalanceKey r, some (Val.stringify (.num (y.add z))))) := by
  intro w hw
  unfold transfer at hw
  split at hw
  case h_2 => cases hw
  case h_3 => cases hw
  rename_i r z
  split at hw
  · cases hw
  rename_i hpos
  rw [StateProg.writes_bind, getBalanceForAccount, writes_read_ofExcept, exec_read_ofExcept, List.nil_append] at hw
  split at hw
  case h_2 => cases hw
  rename_i v t hload
  obtain ⟨hsender, rfl⟩ := Prod.mk.inj hload
  clear hload
  split at hw
  case h_2 => cases hw
  rename_i x
  split at hw
  · cases hw
  rename_i hsuf
  rw [StateProg.writes_bind, getBalanceForAccount, writes_read_ofExcept, exec_read_ofExcept, List.nil_append] at hw
  split at hw
  case h_2 => cases hw
  rename_i v' t hload
  obtain ⟨hrecipient, rfl⟩ := Prod.mk.inj hload
  clear hload
  split at hw
  case h_2 => cases hw
  rename_i y
  split at hw
  · cases hw
  rename_i hroom
  refine ⟨r, z, x, y, rfl, rfl, ⟨?_, hsender, ?_, hrecipient, ?_⟩, ?_⟩
  · simpa using hpos
  · simpa using hsuf
  · simpa using hroom
  · simpa [setBalance, StateProg.writes_bind, StateProg.writes, StateProg.exec, write] using hw

theorem writes_setPoolBalance {amount : Option Val} : ∀ w ∈ (setPoolBalance amount).writes m s,
    w.1 = allocatedPoolStateVariable := by
  intro w hw
  rw [List.mem_singleton.1 hw]

theorem writes_reduceFromPool {amount : Option Val} : ∀ w ∈ (reduceFromPool amount).writes m s,
    w.1 = allocatedPoolStateVariable := by
  have hget : ∀ t : σ, ∀ w ∈ getPoolBalance.writes m t, w.1 = allocatedPoolStateVariable := by
    intro t w hw
    rw [getPoolBalance, writes_read_ofExcept] at hw
    cases hw
  have hof : ∀ {α : Type} (e : Except ContractError α) (t : σ),
      ∀ w ∈ (ofExcept e : Prog α).writes m t, w.1 = allocatedPoolStateVariable := by
    intro α e t w hw
    rw [StateProg.writes_ofExcept] at hw
    cases hw
  unfold reduceFromPool
  refine StateProg.forall_writes_bind (hget s) fun v t _ => ?_
  refine StateProg.forall_writes_bind (hof _ t) fun reset t _ => ?_
  refine StateProg.forall_writes_bind ?_ fun v t _ => ?_
  · split
    · exact StateProg.forall_writes_bind writes_setPoolBalance fun _ t _ => hget t
    · exact nofun
  · exact StateProg.forall_writes_bind (hof _ t) fun _ t _ => writes_setPoolBalance

theorem writes_financeAccount {account : Option Val} : ∀ w ∈ (financeAccount account).writes m s,
    w.1 = allocatedPoolStateVariable ∨ ∃ a, account = some (.str a) ∧
      w = (getAccountBalanceKey a, some (Val.stringify (.num defaultBalance))) := by
  unfold financeAccount
  split
  · rename_i a
    refine StateProg.forall_writes_bind ?_ fun _ t _ w hw => .inl (writes_reduceFromPool w hw)
    intro w hw
    exact .inr ⟨a, rfl, List.mem_singleton.1 hw⟩
  · exact nofun

/-- **All that a call can write.** -/
theorem callWrites {sender name : Str} {args : List Val} :
    ∀ w ∈ (call sender name args).writes m s, CallWrites m s sender name args w := by
  have hread : ∀ {account : Str} {Q : Str × Option Str → Prop},
      ∀ w ∈ (getBalanceForAccount account >>= fun _ => Pure.pure () : Prog Unit).writes m s, Q w := by
    intro account Q
    refine StateProg.forall_writes_bind ?_ fun _ _ _ => nofun
    rw [getBalanceForAccount, writes_read_ofExcept]
    exact nofun
  have htext : ∀ {f : Str → Prog Unit} {Q : Str × Option Str → Prop},
      (∀ account, text args[0]? = .ok account → ∀ w ∈ (f account).writes m s, Q w) →
      ∀ w ∈ (ofExcept (text args[0]?) >>= f : Prog Unit).writes m s, Q w := by
    intro f Q hf
    refine StateProg.forall_writes_bind (by rw [StateProg.writes_ofExcept]; exact nofun) fun account t ht => ?_
    rw [StateProg.exec_ofExcept] at ht
    obtain ⟨he, rfl⟩ := Prod.mk.inj ht
    exact hf account he
  unfold call
  split
  · rename_i hm
    intro w hw
    obtain ⟨r, z, x, y, h0, h1, h, rfl | rfl⟩ := writes_transfer w hw
    · exact .debit hm h0 h1 h
    · exact .credit hm h0 h1 h
  · exact hread
  · intro w hw
    obtain ⟨k, v⟩ := w
    cases writes_reduceFromPool _ hw
    exact .pool v
  · rename_i hm
    intro w hw
    obtain ⟨k, v⟩ := w
    rcases writes_financeAccount _ hw with rfl | ⟨a, h0, hw⟩
    · exact .pool v
    · rw [hw]
      exact .finance hm h0
  · exact htext fun account _ => hread
  · rename_i hm
    refine htext fun account h0 w hw => ?_
    rw [List.mem_singleton.1 hw]
    exact .set hm h0
  · refine StateProg.forall_writes_bind ?_ fun _ _ _ => nofun
    rw [getPoolBalance, writes_read_ofExcept]
    exact nofun
  · intro w hw
    rw [List.mem_singleton.1 hw]
    exact .pool _
  · exact htext fun _ _ => nofun
  · exact htext fun _ _ => nofun
  · exact nofun
  · exact nofun
  · exact nofun

end

/-! ## Who loses tokens -/

open HardCodedSmartContractProcessor HardCodedSmartContractRegistry StateCache

def storedBalance (s : KeyValues) (contract : Bytes) (account : Str) : Option Number :=
  match parseBalance (s { contractAddress := contract, key := getAccountBalanceKey account }) with
  | .ok (.num x) => some x
  | _ => none

def senderAddressBase58 (entry : TransactionEntry) : Str := bs58EncodeRawAddress entry.transaction.header.sender

/-- The address comes back from its base58 text, which has no colon. -/
def PlainAddress (contract : Bytes) : Prop :=
  ':' ∉ bs58EncodeRawAddress contract ∧ bs58DecodeRawAddress (bs58EncodeRawAddress contract) = some contract

/-- On the state `s`, the call of the transaction does not write an account name with a colon, and `setBalance` and
`financeAccount` do not give an account outside `senders` less than it has. -/
def Harmless (contract : Bytes) (senders : List Str) (s : KeyValues) (entry : TransactionEntry) : Prop :=
  ∀ name args, parseCall entry.transaction.payload = .ok (name, args) →
    match method name with
    | some .transfer => ∀ recipient amount x y, args[0]? = some (.str recipient) → args[1]? = some (.num amount) →
      Accepted (fun a => parseBalance (s { contractAddress := contract, key := getAccountBalanceKey a }))
        (senderAddressBase58 entry) recipient amount x y → ':' ∉ senderAddressBase58 entry ∧ ':' ∉ recipient
    | some .setBalance => ∀ account, text args[0]? = .ok account → ':' ∉ account ∧
      (account ∈ senders ∨ ∃ (x : Number) (y : Binary64.Double), storedBalance s contract account = some x ∧
        args[1]? = some (.num (.fin y)) ∧ x.le (.fin y) = true)
    | some .financeAccount => ∀ account, args[0]? = some (.str account) → ':' ∉ account ∧
      (account ∈ senders ∨ ∃ x : Number, storedBalance s contract account = some x ∧ x.le defaultBalance = true)
    | _ => True

section
variable {contract : Bytes} {senders : List Str} {account : Str}

theorem recovered_of_not_mem (hc : PlainAddress contract) {key : Str} (hk : ':' ∉ key) :
    Recovered { contractAddress := contract, key } := by
  have hiff := @recovered_iff_of_not_mem { contractAddress := contract, key } hc.1
  exact hiff.2 ⟨hc.2, hk⟩

theorem getAccountBalanceKey_inj {a b : Str} (h : getAccountBalanceKey a = getAccountBalanceKey b) : a = b :=
  List.append_cancel_left h

theorem not_mem_getAccountBalanceKey {a : Str} (h : ':' ∉ a) : ':' ∉ getAccountBalanceKey a := by
  have hb : ':' ∉ "balances.".toList := by decide +kernel
  unfold getAccountBalanceKey
  simp only [List.mem_append, hb, h, or_self, not_false_eq_true]

theorem head_getAccountBalanceKey (a : Str) : (getAccountBalanceKey a).head? = some 'b' := by
  have hb : "balances.".toList.head? = some 'b' := by decide +kernel
  unfold getAccountBalanceKey
  rw [List.head?_append, hb]
  rfl

theorem pool_ne_getAccountBalanceKey (a : Str) : allocatedPoolStateVariable ≠ getAccountBalanceKey a := by
  have hp : allocatedPoolStateVariable.head? = some 'a' := by decide +kernel
  refine fun h => ?_
  rw [h, head_getAccountBalanceKey] at hp
  exact absurd (Option.some.inj hp) (by decide)

/-- Only numbers that JSON has come as an argument. -/
theorem num_ne_nan_of_parseCall {payload name : Str} {args : List Val} (h : parseCall payload = .ok (name, args)) {i : ℕ}
    {z : Number} (hi : args[i]? = some (.num z)) : z ≠ .nan := by
  rw [parseCall] at h
  split at h
  · cases h
  · cases h
  rename_i v hne hv
  split at h
  · cases h
  · cases h
  rename_i a _ ha
  split at h
  case h_2 => cases h
  case h_3 => cases h
  rename_i hm hs
  cases h
  have hp := Json.parsed_of_parse hv
  rw [HardCodedSmartContractProcessor.property] at ha
  cases hp with
  | obj hl =>
    rw [Val.ofJson, Val.ofMembers_eq] at ha
    obtain ⟨p, hf, rfl⟩ := Option.map_eq_some_iff.1 ha
    obtain ⟨q, hq, rfl⟩ := List.mem_map.1 (List.mem_of_find?_eq_some hf)
    have hpq := hl q hq
    dsimp only at hs
    cases hq2 : q.2 with
    | arr l =>
      rw [hq2] at hs hpq
      cases hpq with
      | arr he =>
        rw [Val.ofJson, Val.ofElems_eq, spread] at hs
        cases hs
        rw [List.getElem?_map] at hi
        obtain ⟨w, hw, hz⟩ := Option.map_eq_some_iff.1 hi
        have := he w (List.mem_of_getElem? hw)
        rw [Val.ofJson_eq_num hz] at this
        cases this with
        | num h => exact h
    | str t =>
      rw [hq2] at hs
      cases hs
      rw [List.getElem?_map] at hi
      obtain ⟨c, -, hz⟩ := Option.map_eq_some_iff.1 hi
      cases hz
    | null | bool | num | obj =>
      rw [hq2] at hs
      cases hs
  | null | bool | num | str | arr => cases ha

theorem parseBalance_stringify (y : Binary64.Double) :
    parseBalance (some (Val.stringify (.num (.fin y)))) = .ok (.num (.fin y)) := by
  rw [parseBalance, Val.stringify, Val.toJson, Json.parse_stringify (.num y)]
  rfl

theorem storedBalance_eq {s : KeyValues} {x : Number} (h : storedBalance s contract account = some x) :
    parseBalance (s { contractAddress := contract, key := getAccountBalanceKey account }) = .ok (.num x) := by
  rw [storedBalance] at h
  split at h
  · rename_i hp
    cases h
    exact hp
  · cases h

/-- A write that leaves the account at least what it has, and that the cache can carry. -/
def KeepsBalance (account : Str) (x : Binary64.Double) (w : Str × Option Str) : Prop :=
  ':' ∉ w.1 ∧ (w.1 = getAccountBalanceKey account →
    ∃ y : Binary64.Double, w.2 = some (Val.stringify (.num (.fin y))) ∧ x.val ≤ y.val)

/-- **A harmless call takes nothing from an account that is not a sender's.** -/
theorem keepsBalance_of_callWrites {stateStorage s : KeyValues} {entry : TransactionEntry} {name : Str}
    {args : List Val} (hg : Harmless contract senders s entry)
    (hp : parseCall entry.transaction.payload = .ok (name, args)) (hs : senderAddressBase58 entry ∈ senders)
    (ha : account ∉ senders) {x : Binary64.Double} (hb : storedBalance s contract account = some (.fin x))
    (hx : 0 ≤ x.val) {w : Str × Option Str}
    (hw : CallWrites (overlay stateStorage contract) s (senderAddressBase58 entry) name args w) :
    KeepsBalance account x w := by
  have hg := hg name args hp
  cases hw with
  | pool value =>
    have hcolon : ':' ∉ allocatedPoolStateVariable := by decide +kernel
    exact ⟨hcolon, fun h => absurd h (pool_ne_getAccountBalanceKey account)⟩
  | debit hm h0 h1 h =>
    rw [hm] at hg
    refine ⟨not_mem_getAccountBalanceKey (hg _ _ _ _ h0 h1 h).1, fun he => ?_⟩
    exact absurd (getAccountBalanceKey_inj he ▸ hs) ha
  | credit hm h0 h1 h =>
    rw [hm] at hg
    refine ⟨not_mem_getAccountBalanceKey (hg _ _ _ _ h0 h1 h).2, fun he => ?_⟩
    obtain rfl := getAccountBalanceKey_inj he
    have hy := h.recipient.symm.trans (storedBalance_eq hb)
    cases hy
    obtain ⟨y, hy, hxy⟩ := Number.add_of_room hx (num_ne_nan_of_parseCall hp h1) h.positive h.room
    exact ⟨y, by rw [hy], hxy⟩
  | set hm h0 =>
    rw [hm] at hg
    obtain ⟨hcolon, hor⟩ := hg _ h0
    refine ⟨not_mem_getAccountBalanceKey hcolon, fun he => ?_⟩
    obtain rfl := getAccountBalanceKey_inj he
    obtain ⟨x', y, hx', h1, hle⟩ := hor.resolve_left ha
    rw [hb] at hx'
    cases hx'
    exact ⟨y, by rw [h1]; rfl, by simpa [Number.le] using hle⟩
  | finance hm h0 =>
    rw [hm] at hg
    obtain ⟨hcolon, hor⟩ := hg _ h0
    refine ⟨not_mem_getAccountBalanceKey hcolon, fun he => ?_⟩
    obtain rfl := getAccountBalanceKey_inj he
    obtain ⟨x', hx', hle⟩ := hor.resolve_left ha
    rw [hb] at hx'
    cases hx'
    have hd : defaultBalance = .fin (.ofInt 10000 (by norm_num)) := Number.ofNat_eq (by norm_num)
    rw [hd] at hle ⊢
    exact ⟨_, rfl, by simpa [Number.le] using hle⟩

theorem storedBalance_foldl {stateStorage : KeyValues} {x : Binary64.Double} {ws : List (Str × Option Str)}
    {s : KeyValues} (h : ∀ w ∈ ws, KeepsBalance account x w)
    (hb : ∃ y : Binary64.Double, storedBalance s contract account = some (.fin y) ∧ x.val ≤ y.val) :
    ∃ y : Binary64.Double, storedBalance (ws.foldl (fun s w => (overlay stateStorage contract).store s w.1 w.2) s)
      contract account = some (.fin y) ∧ x.val ≤ y.val := by
  induction ws generalizing s with
  | nil => exact hb
  | cons w ws ih =>
    rw [List.forall_mem_cons] at h
    refine ih h.2 ?_
    change ∃ y : Binary64.Double, storedBalance (Function.update s { contractAddress := contract, key := w.1 }
      (w.2.or (stateStorage { contractAddress := contract, key := w.1 }))) contract account = some (.fin y) ∧ _
    by_cases hk : w.1 = getAccountBalanceKey account
    · obtain ⟨y, hy, hxy⟩ := h.1.2 hk
      refine ⟨y, ?_, hxy⟩
      rw [storedBalance, hk, Function.update_self, hy, Option.some_or, parseBalance_stringify]
    · obtain ⟨y, hy, hxy⟩ := hb
      refine ⟨y, ?_, hxy⟩
      rw [← hy, storedBalance, storedBalance, Function.update_of_ne]
      intro he
      exact hk (StateCacheKey.mk.inj he).2.symm

/-- Writes at the contract under keys without a colon, and strings only to the account. -/
def accountUsage (contract : Bytes) (hc : PlainAddress contract) (account : Str) : Usage where
  reads key := key.contractAddress = contract
  writes key value := key.contractAddress = contract ∧ ':' ∉ key.key ∧
    (key.key = getAccountBalanceKey account → value.isSome = true)
  injective := by
    rintro ⟨a, k⟩ ⟨b, l⟩ rfl h he
    dsimp only at h
    subst h
    exact congrArg _ (List.cons.inj (List.append_cancel_left he)).2
  written := by
    rintro ⟨a, k⟩ v ⟨rfl, hk, -⟩
    exact ⟨rfl, recovered_of_not_mem hc hk⟩

variable {registry : JsMap Str Contract} {stateStorage : KeyValues} {entry : TransactionEntry} {x : Binary64.Double}

/-- A harmless transaction of a sender to the contract. -/
structure HarmlessCall (contract : Bytes) (senders : List Str) (s : KeyValues) (entry : TransactionEntry) : Prop where
  harmless : Harmless contract senders s entry
  contractAddress : entry.transaction.header.contractAddress = contract
  sender : senderAddressBase58 entry ∈ senders

theorem keepsBalance (hr : getContractByRawAddress registry contract = some call) {s : KeyValues}
    (hg : HarmlessCall contract senders s entry) (ha : account ∉ senders)
    (hb : storedBalance s contract account = some (.fin x)) (hx : 0 ≤ x.val) :
    ∀ w ∈ (processMethod registry entry.request).writes (overlay stateStorage contract) s, KeepsBalance account x w := by
  obtain ⟨hg, rfl, hs⟩ := hg
  unfold processMethod
  rw [show getContractByRawAddress registry entry.request.contractAddress = some call from hr]
  dsimp only
  cases hp : parseCall entry.request.payload with
  | error e => exact nofun
  | ok r => exact fun w hw => keepsBalance_of_callWrites hg hp hs ha hb hx (callWrites w hw)

def AtLeast (contract : Bytes) (account : Str) (x : Binary64.Double) (s : KeyValues) : Prop :=
  ∃ y : Binary64.Double, storedBalance s contract account = some (.fin y) ∧ x.val ≤ y.val

theorem KeepsBalance.mono {y : Binary64.Double} {w : Str × Option Str} (h : x.val ≤ y.val)
    (hw : KeepsBalance account y w) : KeepsBalance account x w :=
  ⟨hw.1, fun hk => (hw.2 hk).imp fun _ hz => ⟨hz.1, h.trans hz.2⟩⟩

theorem atLeast_transition (hr : getContractByRawAddress registry contract = some call) {s s' : KeyValues}
    (hg : HarmlessCall contract senders s entry) (ha : account ∉ senders) (hx : 0 ≤ x.val)
    (hb : AtLeast contract account x s)
    (h : transition (overlay stateStorage) (processMethod registry) s entry = some s') : AtLeast contract account x s' := by
  obtain ⟨y, hy, hxy⟩ := hb
  rw [transition, execute] at h
  split at h
  case h_2 => cases h
  rename_i success t he
  cases h
  split at he
  · rename_i u t' hx'
    cases he
    have hsnd := StateProg.exec_snd (overlay stateStorage entry.request.contractAddress)
      (processMethod registry entry.request) s
    rw [hx'] at hsnd
    dsimp only at hsnd
    subst hsnd
    rw [show entry.request.contractAddress = contract from hg.contractAddress]
    exact storedBalance_foldl (fun w hw => (keepsBalance hr hg ha hy (hx.trans hxy) w hw).mono hxy) ⟨y, hy, hxy⟩
  · split at he <;> cases he
    exact ⟨y, hy, hxy⟩

theorem admits_of_harmless (hr : getContractByRawAddress registry contract = some call) (hc : PlainAddress contract)
    {s : KeyValues} (hg : HarmlessCall contract senders s entry) (ha : account ∉ senders) (hx : 0 ≤ x.val)
    (hb : AtLeast contract account x s) :
    (accountUsage contract hc account).Admits (overlay stateStorage) (processMethod registry) s entry := by
  obtain ⟨y, hy, hxy⟩ := hb
  refine StateProg.within_of_writes (fun _ => hg.contractAddress) fun w hw => ?_
  rw [show entry.request.contractAddress = contract from hg.contractAddress] at hw
  obtain ⟨hcolon, hk⟩ := keepsBalance hr hg ha hy (hx.trans hxy) w hw
  refine ⟨hg.contractAddress, hcolon, fun he => ?_⟩
  obtain ⟨z, hz, -⟩ := hk he
  rw [hz]
  rfl

end

/-- `setBalance` gives the account no less than it has. -/
def notLowered (s : KeyValues) (contract : Bytes) (account : Str) (amount : Option Val) : Bool :=
  match storedBalance s contract account, amount with
  | some x, some (Val.num (Number.fin y)) => x.le (.fin y)
  | _, _ => false

def harmless (contract : Bytes) (senders : List Str) (s : KeyValues) (entry : TransactionEntry) : Bool :=
  match parseCall entry.transaction.payload with
  | .error _ => true
  | .ok (name, args) =>
    match method name, args[0]? with
    | some Method.transfer, some (Val.str recipient) =>
      !(senderAddressBase58 entry).contains ':' && !recipient.contains ':'
    | some Method.setBalance, account =>
      match text account with
      | .ok account => !account.contains ':' && (senders.contains account || notLowered s contract account args[1]?)
      | .error _ => true
    | some Method.financeAccount, some (Val.str account) =>
      !account.contains ':' && (senders.contains account || (storedBalance s contract account).any (·.le defaultBalance))
    | _, _ => true

theorem harmless_of_check {contract : Bytes} {senders : List Str} {s : KeyValues} {entry : TransactionEntry}
    (h : harmless contract senders s entry = true) : Harmless contract senders s entry := by
  intro name args hp
  rw [harmless, hp] at h
  dsimp only at h
  split
  · rename_i hm
    rw [hm] at h
    intro recipient amount x y h0 _ _
    rw [h0] at h
    simpa using h
  · rename_i hm
    rw [hm] at h
    intro account h0
    dsimp only at h
    rw [h0] at h
    simp only [Bool.and_eq_true, Bool.or_eq_true] at h
    refine ⟨by simpa using h.1, h.2.imp (by simp) fun hv => ?_⟩
    unfold notLowered at hv
    split at hv
    · rename_i x y hx hy
      exact ⟨x, y, hx, hy, hv⟩
    · cases hv
  · rename_i hm
    rw [hm] at h
    intro account h0
    rw [h0] at h
    simp only [Bool.and_eq_true, Bool.or_eq_true] at h
    exact ⟨by simpa using h.1, h.2.imp (by simp) (Option.any_eq_true _ _).1⟩
  · trivial

def NonNegative (s : KeyValues) (contract : Bytes) : Prop :=
  ∀ account, ∃ x : Binary64.Double, storedBalance s contract account = some (.fin x) ∧ 0 ≤ x.val

/-- **Only senders lose tokens in a batch of harmless transactions.** -/
theorem balance_not_lower {registry : JsMap Str Contract} {contract : Bytes} {stateStorage : KeyValues}
    {entries : List TransactionEntry} (hr : getContractByRawAddress registry contract = some call)
    (hto : ∀ entry ∈ entries, entry.transaction.header.contractAddress = contract)
    (hpos : NonNegative stateStorage contract) (hc : PlainAddress contract)
    (hg : Lts.Meets (transition (overlay stateStorage) (processMethod registry))
      (Harmless contract (entries.map senderAddressBase58)) stateStorage entries)
    {transactionReceipts : List TransactionReceipt} {stateDiff : List (StateCacheKey × Option Str)}
    (h : processTransactionSet (processMethod registry) stateStorage entries = .ok (transactionReceipts, stateDiff))
    {account : Str} (ha : account ∉ entries.map senderAddressBase58) :
    ∃ x y, storedBalance stateStorage contract account = some x ∧
      storedBalance (applyStateDiff stateStorage stateDiff) contract account = some y ∧ x.le y = true := by
  obtain ⟨x, hx, hx0⟩ := hpos account
  have hcall : Lts.Meets (transition (overlay stateStorage) (processMethod registry))
      (HarmlessCall contract (entries.map senderAddressBase58)) stateStorage entries :=
    Lts.meets_of_mem hg fun s entry he h => ⟨h, hto entry he, List.mem_map_of_mem he⟩
  have hstart : AtLeast contract account x stateStorage := ⟨x, hx, le_rfl⟩
  have hstep : ∀ s entry s', AtLeast contract account x s →
      HarmlessCall contract (entries.map senderAddressBase58) s entry →
      transition (overlay stateStorage) (processMethod registry) s entry = some s' → AtLeast contract account x s' :=
    fun s entry s' hb hcall ht => atLeast_transition hr hcall ha hx0 hb ht
  have hw : AllWithin (overlay stateStorage) (accountUsage contract hc account) (processMethod registry) stateStorage
      entries := Lts.meets_of_inv hstep (fun s entry hb hcall => admits_of_harmless hr hc hcall ha hx0 hb) hstart hcall
  rcases processTransactionSet_sim hw with ⟨err, h1, -⟩ | ⟨receipts', stateDiff', s, h1, h2, heq⟩
  · rw [h] at h1
    cases h1
  rw [h] at h1
  cases h1
  obtain ⟨y, hy, hxy⟩ := Lts.run_inv hstep hstart hcall (run_of_sequential h2)
  refine ⟨_, .fin y, hx, ?_, decide_eq_true hxy⟩
  rw [← hy, storedBalance, storedBalance, heq _ fun v hv => hv.2.2 rfl]

/-- The contract under the address of `kinatn`. -/
def sampleContract : Bytes := Hex.decode "5400000000906be446c731622741d6021d4d5ce0f42824fcef60d38b93".toList

def sampleRegistry : JsMap Str Contract := JsMap.empty.set (bs58EncodeRawAddress sampleContract) call

def bob : Bytes := Hex.decode "5400000000b566a3eecce809896361988823cd2f423fe800e74dcd209e".toList

def sampleEntry (payload : String) : TransactionEntry where
  txHash := []
  transaction :=
    { header := { version := 0, sender := bob, timestamp := [], contractAddress := sampleContract }
      payload := payload.toList
      signatureData := none }

theorem registered_sample : getContractByRawAddress sampleRegistry sampleContract = some call :=
  JsMap.get_set_self _ _ _

theorem plainAddress_sample : PlainAddress sampleContract :=
  ⟨by decide +kernel, by decide +kernel⟩

/-- Bob gives himself tokens and transfers ten of them. -/
def financeAndTransfer : List TransactionEntry :=
  [sampleEntry "\x7b\"method\":\"financeAccount\",\"args\":[\"T00111HYAGJKu6h9cmipKgNvJ8ny7uLxQS9UFzd\"]\x7d",
    sampleEntry "\x7b\"method\":\"transfer\",\"args\":[\"alice\",10]\x7d"]

def balanceAfter (s : KeyValues) (entries : List TransactionEntry) (account : Str) : Option Number :=
  match processTransactionSet (processMethod sampleRegistry) s entries with
  | .ok (_, stateDiff) => storedBalance (applyStateDiff s stateDiff) sampleContract account
  | .error _ => none

/-- Bob sets the balance of another account. -/
def setOther : List TransactionEntry := [sampleEntry "\x7b\"method\":\"setBalance\",\"args\":[\"alice\",0]\x7d"]

def aliceHasHundred : KeyValues := fun key =>
  if key = { contractAddress := sampleContract, key := getAccountBalanceKey "alice".toList } then some "100".toList else none

theorem run_of_balanceAfter {s : KeyValues} {entries : List TransactionEntry} {account : Str} {z : Number}
    (h : balanceAfter s entries account = some z) : ∃ receipts stateDiff,
      processTransactionSet (processMethod sampleRegistry) s entries = .ok (receipts, stateDiff) ∧
      storedBalance (applyStateDiff s stateDiff) sampleContract account = some z := by
  unfold balanceAfter at h
  split at h
  · rename_i receipts stateDiff hp
    exact ⟨receipts, stateDiff, hp, h⟩
  · cases h

theorem nonNegative_of_ofNat {s : KeyValues} {contract : Bytes} {account : Str} {n : ℕ} (hn : n ≤ 2 ^ 53)
    (h : storedBalance s contract account = some (.ofNat n)) :
    ∃ x : Binary64.Double, storedBalance s contract account = some (.fin x) ∧ 0 ≤ x.val := by
  rw [Number.ofNat_eq hn] at h
  exact ⟨_, h, by simp [Binary64.Double.ofInt]⟩

theorem storedBalance_of_none {s : KeyValues} {contract : Bytes} {account : Str}
    (h : s { contractAddress := contract, key := getAccountBalanceKey account } = none) :
    storedBalance s contract account = some (.ofNat 0) := by
  unfold storedBalance
  rw [h]
  rfl

theorem run_financeAndTransfer :
    Lts.checks (transition (overlay fun _ => none) (processMethod sampleRegistry))
      (harmless sampleContract (financeAndTransfer.map senderAddressBase58)) (fun _ => none) financeAndTransfer = true ∧
    "alice".toList ∉ financeAndTransfer.map senderAddressBase58 ∧
    balanceAfter (fun _ => none) financeAndTransfer "alice".toList = some (.ofNat 10) := by
  decide +kernel

theorem balance_not_lower_financeAndTransfer : ∃ receipts stateDiff x y,
    processTransactionSet (processMethod sampleRegistry) (fun _ => none) financeAndTransfer = .ok (receipts, stateDiff) ∧
    storedBalance (fun _ => none) sampleContract "alice".toList = some x ∧
    storedBalance (applyStateDiff (fun _ => none) stateDiff) sampleContract "alice".toList = some y ∧
    x.le y = true := by
  obtain ⟨hc, ha, hb⟩ := run_financeAndTransfer
  obtain ⟨receipts, stateDiff, hp, -⟩ := run_of_balanceAfter hb
  have hpos : NonNegative (fun _ => none) sampleContract :=
    fun _ => nonNegative_of_ofNat (Nat.zero_le _) (storedBalance_of_none rfl)
  have hto : ∀ entry ∈ financeAndTransfer, entry.transaction.header.contractAddress = sampleContract := by
    decide +kernel
  obtain ⟨x, y, hx, hy, hle⟩ := balance_not_lower registered_sample hto hpos plainAddress_sample
    (Lts.meets_of_checks (fun _ _ => harmless_of_check) hc) hp ha
  exact ⟨receipts, stateDiff, x, y, hp, hx, hy, hle⟩

theorem run_setOther : "alice".toList ∉ setOther.map senderAddressBase58 ∧
    storedBalance aliceHasHundred sampleContract "alice".toList = some (.ofNat 100) ∧
    balanceAfter aliceHasHundred setOther "alice".toList = some (.ofNat 0) := by
  decide +kernel

theorem nonNegative_aliceHasHundred : NonNegative aliceHasHundred sampleContract := by
  intro account
  by_cases h : account = "alice".toList
  · rw [h]
    exact nonNegative_of_ofNat (by norm_num) run_setOther.2.1
  · refine nonNegative_of_ofNat (Nat.zero_le _) (storedBalance_of_none ?_)
    exact if_neg fun he => h (getAccountBalanceKey_inj (StateCacheKey.mk.inj he).2)

/-- **A sender takes all tokens from another account** by calling a method that is marked private. -/
theorem tokens_taken_by_setBalance : ∃ receipts stateDiff,
    processTransactionSet (processMethod sampleRegistry) aliceHasHundred setOther = .ok (receipts, stateDiff) ∧
    NonNegative aliceHasHundred sampleContract ∧ "alice".toList ∉ setOther.map senderAddressBase58 ∧
    storedBalance aliceHasHundred sampleContract "alice".toList = some (.ofNat 100) ∧
    storedBalance (applyStateDiff aliceHasHundred stateDiff) sampleContract "alice".toList = some (.ofNat 0) := by
  obtain ⟨ha, h100, h0⟩ := run_setOther
  obtain ⟨receipts, stateDiff, hp, hzero⟩ := run_of_balanceAfter h0
  exact ⟨receipts, stateDiff, hp, nonNegative_aliceHasHundred, ha, h100, hzero⟩

end KinAtnSmartContract
end Orbs
