import OrbsNetwork.KinAtnSmartContract
import OrbsNetwork.Lib.AsyncProg
import OrbsNetwork.Lib.JsOperators
/-!
# SmartContracts — the contracts of the registry folder, and how the processor runs them

A contract reads and writes through its state accessor, whose `store` gives a promise.  `EventCounterContract` and
`TextMessageSmartContract` wait for it in every method; `FooBarSmartContract.initBalance` drops the promise of
`setBalance`, and `KinAtnSmartContract` drops all of them.  What a call returns is left out.

The processor gives a transaction an accessor that writes and a call one that does not.  On an accessor that writes, the
contracts are those that the virtual machine runs (`settle_processMethod`).
-/
namespace Orbs

open Js Val
open KinAtnSmartContract (text validationError minus)
open AsyncProg (Accessor read write ofExcept)

/-- A contract class, as `Contract`, whose code sees what becomes of its writes. -/
abbrev AsyncContract := Str → Str → List Val → AsyncProg Str Str ContractError Unit

/-! ## Errors that are not expected -/

/-- The result is no error that is marked as expected. -/
def Unexpected {α : Type} (x : Except ContractError α) : Prop := ∀ e, x = .error e → e.expected = false

theorem unexpected_ok {α : Type} (a : α) : Unexpected (.ok a) := nofun

theorem unexpected_error {α : Type} (message : String) : Unexpected (.error (unexpected message) : Except _ α) := by
  intro e h
  cases h
  rfl

theorem unexpected_map {α β : Type} {x : Except ContractError α} (h : Unexpected x) (f : α → β) : Unexpected (x.map f) := by
  cases x with
  | ok a => exact unexpected_ok (f a)
  | error e =>
    intro e' he
    cases he
    exact h e rfl

/-- A result that can only fail unexpectedly has to succeed, where no such error is allowed. -/
theorem ends_ofExcept {α σ : Type} {m : StateProg.Machine σ Str Str} {E : ContractError → Prop} {Q : α → σ → Prop} {s : σ}
    (hE : ∀ e, E e → e.expected = true) {x : Except ContractError α} (hx : Unexpected x) :
    StateProg.Ends m E (StateProg.ofExcept x) Q s ↔ ∃ a, x = .ok a ∧ Q a s := by
  cases x with
  | ok a => simp
  | error e =>
    simp only [StateProg.ends_error, reduceCtorEq, false_and, exists_false, iff_false]
    intro h
    exact Bool.false_ne_true ((hx e rfl).symm.trans (hE e h))

namespace KinAtnSmartContract

theorem unexpected_text (v : Option Val) : Unexpected (text v) := by
  unfold text
  split
  · exact unexpected_ok _
  split
  · exact unexpected_ok _
  · exact unexpected_error _

theorem unexpected_parseBalance (v : Option Str) : Unexpected (parseBalance v) := by
  unfold parseBalance
  split
  · exact unexpected_ok _
  split
  · exact unexpected_ok _
  · exact unexpected_error _

theorem unexpected_isZero (v : Val) : Unexpected (isZero v) := by
  unfold isZero
  split
  · exact unexpected_ok _
  split
  · exact unexpected_ok _
  · exact unexpected_error _

theorem unexpected_minus (a : Val) (b : Option Val) : Unexpected (minus a b) := by
  unfold minus
  split
  · exact unexpected_ok _
  · exact unexpected_error _

end KinAtnSmartContract

/-! ## The contracts -/

namespace BaseSmartContract

abbrev Prog := AsyncProg Str Str ContractError

/-- The result of an operator that throws a `TypeError`. -/
def orTypeError {α : Type} : Option α → Except ContractError α
  | some a => .ok a
  | none => .error (unexpected "Cannot convert object to primitive value")

/-- `value != undefined ? JSON.parse(value) : otherwise`. -/
def parseOr (otherwise : Val) : Option Str → Except ContractError Val
  | none => .ok otherwise
  | some value => match Json.parse value with
    | some v => .ok (.ofJson v)
    | none => .error (unexpected "Unexpected token in JSON")

/-- The operator `=== 0`. -/
def isExactlyZero : Option Val → Bool
  | some (.num x) => x = .ofNat 0
  | _ => false

/-- An own property of a parsed value. -/
def property (key : Str) : Option Val → Except ContractError (Option Val)
  | none | some .null => .error (unexpected "Cannot read property of undefined or null")
  | some (.obj l) => .ok (Val.get l key)
  | some (.str s) => .ok (if key = "length".toList then some (.ofNat (codeUnits s).length) else none)
  | some (.arr l) => .ok (if key = "length".toList then some (.ofNat l.length) else none)
  | some (.buffer bytes) => .ok (if key = "length".toList then some (.ofNat bytes.length) else none)
  | some _ => .ok none

/-- What an instance has besides the methods of its class. -/
def inherited (name : Str) (args : List Val) : Prog Unit :=
  if name ∈ ["validationError", "toString", "toLocaleString", "valueOf", "isPrototypeOf"].map String.toList then pure ()
  else if name ∈ ["hasOwnProperty", "propertyIsEnumerable", "__lookupGetter__", "__lookupSetter__"].map String.toList then
    ofExcept (text args[0]?) >>= fun _ => pure ()
  else .throw (unexpected "contract[method] is not a function")

theorem unexpected_orTypeError {α : Type} (x : Option α) : Unexpected (orTypeError x) := by
  cases x with
  | some a => exact unexpected_ok a
  | none => exact unexpected_error _

theorem orTypeError_eq_ok {α : Type} {x : Option α} {a : α} : orTypeError x = .ok a ↔ x = some a := by
  cases x <;> simp [orTypeError]

theorem unexpected_parseOr (otherwise : Val) (value : Option Str) : Unexpected (parseOr otherwise value) := by
  unfold parseOr
  split
  · exact unexpected_ok _
  split
  · exact unexpected_ok _
  · exact unexpected_error _

theorem unexpected_property (key : Str) (v : Option Val) : Unexpected (property key v) := by
  unfold property
  split
  · exact unexpected_error _
  · exact unexpected_error _
  all_goals exact unexpected_ok _

/-- The call of a method by its name, with the sender of the instance. -/
def callMethod (methods : List (Str × (Str → List Val → Prog Unit))) : AsyncContract := fun sender name args =>
  match methods.find? fun p => p.1 = name with
  | some p => p.2 sender args
  | none => inherited name args

end BaseSmartContract

open BaseSmartContract

namespace EventCounterContract

def getStorageKey (senderAddressBase58 : Str) (event : Option Val) : Except ContractError Str :=
  (text event).map fun event => "values.".toList ++ senderAddressBase58 ++ '.' :: event

def getValue (senderAddressBase58 : Str) (event : Option Val) : Prog Val :=
  ofExcept (getStorageKey senderAddressBase58 event) >>= fun key => read key >>= fun value =>
    ofExcept (parseOr (.ofNat 0) value)

def setValue (senderAddressBase58 : Str) (event amount : Option Val) : Prog Unit :=
  ofExcept (getStorageKey senderAddressBase58 event) >>= fun key => write key (amount.map Val.stringify)

def reportEvent (senderAddressBase58 : Str) : Option Val → Prog Unit
  | some (.str event) =>
    getValue senderAddressBase58 (some (.str event)) >>= fun value =>
      ofExcept (orTypeError (plus (some value) (some (.ofNat 1)))) >>= fun amount =>
        setValue senderAddressBase58 (some (.str event)) (some amount)
  | _ => .throw (validationError "Argument event must be a string".toList)

def methods : List (Str × (Str → List Val → Prog Unit)) :=
  [("reportEvent".toList, fun sender args => reportEvent sender args[0]?),
    ("getCounter".toList, fun sender args => getValue sender args[0]? >>= fun _ => pure ()),
    ("getValue".toList, fun sender args => getValue sender args[0]? >>= fun _ => pure ()),
    ("setValue".toList, fun sender args => setValue sender args[0]? args[1]?),
    ("getStorageKey".toList, fun sender args => ofExcept (getStorageKey sender args[0]?) >>= fun _ => pure ())]

end EventCounterContract

namespace FooBarSmartContract

def getAccountBalanceKey (account : Option Val) : Except ContractError Str :=
  (text account).map fun account => "balances.".toList ++ account

def getBalance (account : Option Val) : Prog Val :=
  ofExcept (getAccountBalanceKey account) >>= fun key => read key >>= fun balance =>
    ofExcept (parseOr (.ofNat 0) balance)

def setBalance (account amount : Option Val) : Prog Unit :=
  ofExcept (getAccountBalanceKey account) >>= fun key => write key (amount.map Val.stringify)

def notSufficient (senderBalance amount : Option Val) : Except ContractError ContractError := do
  let senderBalance ← text senderBalance
  let amount ← text amount
  pure (validationError ("balance is not sufficient ".toList ++ senderBalance ++ " < ".toList ++ amount))

def transfer (senderAddressBase58 : Str) (recipient amount : Option Val) : Prog Unit :=
  if isExactlyZero amount then .throw (validationError "transaction amount must be > 0".toList)
  else getBalance (some (.str senderAddressBase58)) >>= fun senderBalance =>
    ofExcept (orTypeError (less (some senderBalance) amount)) >>= fun insufficient =>
    if insufficient then ofExcept (notSufficient (some senderBalance) amount) >>= fun e => .throw e
    else getBalance recipient >>= fun recipientBalance =>
      ofExcept (minus senderBalance amount) >>= fun rest =>
      setBalance (some (.str senderAddressBase58)) (some (.num rest)) >>= fun _ =>
      ofExcept (orTypeError (plus (some recipientBalance) amount)) >>= fun sum =>
      setBalance recipient (some sum)

def initBalance (account amount : Option Val) : Prog Unit := (setBalance account amount).drop

def methods : List (Str × (Str → List Val → Prog Unit)) :=
  [("transfer".toList, fun sender args => transfer sender args[0]? args[1]?),
    ("initBalance".toList, fun _ args => initBalance args[0]? args[1]?),
    ("getMyBalance".toList, fun sender _ => getBalance (some (.str sender)) >>= fun _ => pure ()),
    ("getBalance".toList, fun _ args => getBalance args[0]? >>= fun _ => pure ()),
    ("setBalance".toList, fun _ args => setBalance args[0]? args[1]?),
    ("getAccountBalanceKey".toList, fun _ args => ofExcept (getAccountBalanceKey args[0]?) >>= fun _ => pure ())]

end FooBarSmartContract

namespace TextMessageSmartContract

/-- The interface `Message`: fields that are `undefined` have no text. -/
def newMessage (recipient sender timestamp processedAtTimestamp message : Option Val) : Val :=
  .obj ([("recipient".toList, recipient), ("sender".toList, sender), ("timestamp".toList, timestamp),
    ("processedAtTimestamp".toList, processedAtTimestamp), ("message".toList, message)].filterMap fun p =>
      p.2.map fun v => (p.1, v))

def getMessageKey (account : Option Val) : Except ContractError Str :=
  (text account).map fun account => "messages.".toList ++ account

def getMessages (account : Option Val) : Prog Val :=
  ofExcept (getMessageKey account) >>= fun key => read key >>= fun messages => ofExcept (parseOr (.arr []) messages)

def appendMessage (message : Option Val) : Prog Unit :=
  ofExcept (property "recipient".toList message) >>= fun recipient =>
    getMessages recipient >>= fun
      | .arr messages => ofExcept (getMessageKey recipient) >>= fun key =>
        write key (some (Val.stringify (.arr (messages ++ message.toList))))
      | _ => .throw (unexpected "messages.push is not a function")

/-- `now` is the time of the clock in milliseconds. -/
def sendMessage (now : ℕ) (senderAddressBase58 : Str) (recipient message timestamp : Option Val) : Prog Unit :=
  ofExcept (property "length".toList message) >>= fun length =>
    if isExactlyZero length then .throw (unexpected "Message should not be empty")
    else ofExcept (orTypeError (less (some (.ofNat now)) timestamp)) >>= fun future =>
      if future then .throw (unexpected "Message can not be from the future")
      else appendMessage (some (newMessage recipient (some (.str senderAddressBase58)) timestamp (some (.ofNat now))
        message))

def methods (now : ℕ) : List (Str × (Str → List Val → Prog Unit)) :=
  [("sendMessage".toList, fun sender args => sendMessage now sender args[0]? args[1]? args[2]?),
    ("getMyMessages".toList, fun sender _ => getMessages (some (.str sender)) >>= fun _ => pure ()),
    ("getMessages".toList, fun _ args => getMessages args[0]? >>= fun _ => pure ()),
    ("appendMessage".toList, fun _ args => appendMessage args[0]?),
    ("getMessageKey".toList, fun _ args => ofExcept (getMessageKey args[0]?) >>= fun _ => pure ())]

end TextMessageSmartContract

/-- The modules of the registry folder. -/
inductive RegistryFile where
  | eventCounter
  | fooBar
  | kinAtn
  | textMessage

/-- The contract of a module, at a time of the clock.  `KinAtnSmartContract` stores in `setBalance` and `setPoolBalance`
only, and neither returns the promise. -/
def RegistryFile.contract (now : ℕ) : RegistryFile → AsyncContract
  | .eventCounter => callMethod EventCounterContract.methods
  | .fooBar => callMethod FooBarSmartContract.methods
  | .kinAtn => fun sender name args => .ofProg (KinAtnSmartContract.call sender name args)
  | .textMessage => callMethod (TextMessageSmartContract.methods now)

namespace HardCodedSmartContractProcessor

open HardCodedSmartContractRegistry VirtualMachine

/-- The registry that holds modules of the folder. -/
def registryOf (now : ℕ) (files : JsMap Str RegistryFile) : JsMap Str AsyncContract :=
  files.mapValues (RegistryFile.contract now)

/-- `processMethod`, for either accessor. -/
def processMethodAsync (registry : JsMap Str AsyncContract) (request : CallRequest) : Prog Unit :=
  match registry.get (bs58EncodeRawAddress request.contractAddress) with
  | none => .throw { expected := false
                     message := "contract with address ".toList ++ bs58EncodeRawAddress request.contractAddress
                       ++ " not registered".toList }
  | some contract =>
    match parseCall request.payload with
    | .error e => .throw e
    | .ok (method, args) => contract (bs58EncodeRawAddress request.sender) method args

/-- What the processor runs for a payload that calls a method of a registered module. -/
theorem processMethodAsync_eq {files : JsMap Str RegistryFile} {request : CallRequest} {file : RegistryFile} {name : Str}
    {args : List Val} (hfile : files.get (bs58EncodeRawAddress request.contractAddress) = some file)
    (hcall : parseCall request.payload = .ok (name, args)) (now : ℕ) : processMethodAsync (registryOf now files) request =
      file.contract now (bs58EncodeRawAddress request.sender) name args := by
  unfold processMethodAsync registryOf
  rw [JsMap.get_mapValues, hfile, hcall]
  rfl

/-- The contracts on an accessor that writes. -/
def settled (registry : JsMap Str AsyncContract) : JsMap Str Contract :=
  registry.mapValues fun contract sender name args => (contract sender name args).settle

/-- **With the accessor of a transaction, the processor runs what the virtual machine runs.** -/
theorem settle_processMethod (registry : JsMap Str AsyncContract) (request : CallRequest) :
    (processMethodAsync registry request).settle = processMethod (settled registry) request := by
  unfold processMethodAsync processMethod getContractByRawAddress settled
  rw [JsMap.get_mapValues]
  cases registry.get (bs58EncodeRawAddress request.contractAddress) with
  | none => rfl
  | some contract =>
    dsimp only [Option.map_some]
    cases parseCall request.payload <;> rfl

def readOnlyError : ContractError := unexpected "read-only. storing values is not allowed"

/-- `ContractStateReadOnlyAccessor`. -/
def readOnlyAccessor (stateStorage : KeyValues) (contractAddress : Bytes) : Accessor StateCache Str Str ContractError :=
  AsyncProg.readOnly (accessor stateStorage contractAddress).load readOnlyError

/-- `call`: whether the promise is fulfilled. -/
def call (registry : JsMap Str AsyncContract) (stateStorage : KeyValues) (request : CallRequest) :
    Except ContractError Unit :=
  ((processMethodAsync registry request).exec (readOnlyAccessor stateStorage request.contractAddress) .empty).1

end HardCodedSmartContractProcessor
end Orbs
