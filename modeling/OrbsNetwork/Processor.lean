import OrbsNetwork.VirtualMachine
import OrbsNetwork.Lib.JsCoerce
/-!
# Processor — hard-coded contracts and the methods that a payload calls

The registry holds the contract classes under the base58 texts of their addresses.  A payload is a JSON object with a
method and its arguments, and the processor calls whatever the instance has under that name: what TypeScript marks as
private, and what every object inherits, is called like the rest.
-/
namespace Orbs

open Js

/-- A contract class: an instance is made with the base58 text of the sender, and is called by the name of a property
with arguments. -/
abbrev Contract := Str → Str → List Val → StateProg Str Str ContractError Unit

def unexpected (message : String) : ContractError := { expected := false, message := message.toList }

namespace HardCodedSmartContractRegistry

structure ContractConfig where
  vchainId : Str
  name : Str
  filename : Str
  networkId : Str

/-- `modules` is what `require` finds under the registry's root: `none` is its error. -/
def registerContract (crypto : Crypto) (modules : Str → Option Contract) (loadedContracts : JsMap Str Contract)
    (contract : ContractConfig) : Option (JsMap Str Contract) := do
  let theModule ← modules contract.filename
  let contractAddress := Address.createContractAddress crypto contract.name contract.vchainId contract.networkId
  pure (loadedContracts.set (contractAddress.toBase58 crypto) theModule)

def load (crypto : Crypto) (modules : Str → Option Contract) (contracts : List ContractConfig) :
    Option (JsMap Str Contract) :=
  contracts.foldlM (registerContract crypto modules) .empty

def getContractByRawAddress (loadedContracts : JsMap Str Contract) (address : Bytes) : Option Contract :=
  loadedContracts.get (bs58EncodeRawAddress address)

variable {crypto : Crypto} {modules : Str → Option Contract}

def contractText (crypto : Crypto) (contract : ContractConfig) : Str :=
  (Address.createContractAddress crypto contract.name contract.vchainId contract.networkId).toBase58 crypto

theorem registerContract_eq_some {loadedContracts loadedContracts' : JsMap Str Contract} {contract : ContractConfig}
    (h : registerContract crypto modules loadedContracts contract = some loadedContracts') :
    ∃ theModule, modules contract.filename = some theModule ∧
      loadedContracts' = loadedContracts.set (contractText crypto contract) theModule := by
  obtain ⟨theModule, hm, h⟩ := Option.bind_eq_some_iff.1 h
  cases h
  exact ⟨theModule, hm, rfl⟩

/-- Under a text stands the module of the last contract that was registered with it. -/
theorem get_foldlM_registerContract (text : Str) : ∀ {contracts : List ContractConfig}
    {loadedContracts loadedContracts' : JsMap Str Contract},
    contracts.foldlM (registerContract crypto modules) loadedContracts = some loadedContracts' →
    (∀ contract ∈ contracts, (modules contract.filename).isSome) ∧ loadedContracts'.get text =
      ((contracts.reverse.find? fun contract => contractText crypto contract = text).bind
        fun contract => modules contract.filename).or (loadedContracts.get text) := by
  intro contracts
  induction contracts with
  | nil =>
    intro loadedContracts loadedContracts' h
    cases h
    exact ⟨fun _ hc => absurd hc List.not_mem_nil, rfl⟩
  | cons contract contracts ih =>
    intro loadedContracts loadedContracts' h
    rw [List.foldlM_cons] at h
    obtain ⟨between, hb, h⟩ := Option.bind_eq_some_iff.1 h
    obtain ⟨theModule, hm, rfl⟩ := registerContract_eq_some hb
    obtain ⟨hall, hget⟩ := ih h
    refine ⟨fun c hc => ?_, ?_⟩
    · rcases List.mem_cons.1 hc with rfl | hc
      · rw [hm]
        rfl
      · exact hall c hc
    rw [hget, List.reverse_cons, List.find?_append, JsMap.get_set]
    cases hf : contracts.reverse.find? fun contract => contractText crypto contract = text with
    | some c =>
      -- a later contract has the same text
      obtain ⟨m, hc⟩ := Option.isSome_iff_exists.1 (hall c (List.mem_reverse.1 (List.mem_of_find?_eq_some hf)))
      rw [Option.some_or, Option.bind_some, hc, Option.some_or, Option.some_or]
    | none =>
      rw [Option.none_or, Option.bind_none, Option.none_or, List.find?_cons, List.find?_nil]
      split_ifs with ht
      · rw [decide_eq_true ht.symm, Option.bind_some, hm, Option.some_or]
      · rw [decide_eq_false (Ne.symm ht)]
        rfl

/-- **A raw address gets the module of the last contract that the configuration has under its text.** -/
theorem getContractByRawAddress_load {contracts : List ContractConfig} {loadedContracts : JsMap Str Contract}
    (h : load crypto modules contracts = some loadedContracts) (address : Bytes) :
    getContractByRawAddress loadedContracts address =
      (contracts.reverse.find? fun contract => contractText crypto contract = bs58EncodeRawAddress address).bind
        fun contract => modules contract.filename := by
  rw [getContractByRawAddress, (get_foldlM_registerContract _ h).2, JsMap.get_empty, Option.or_none]

end HardCodedSmartContractRegistry

namespace HardCodedSmartContractProcessor

/-- An own property of a parsed value. -/
def property (v : Json) (key : Str) : Option Val :=
  match Val.ofJson v with
  | .obj l => Val.get l key
  | _ => none

/-- `...args`: the elements of an array, the characters of a string. -/
def spread : Val → Option (List Val)
  | .arr l => some l
  | .str s => some (s.map fun c => .str [c])
  | _ => none

/-- The name of the property that the payload calls, and the arguments.  The error that the parser of the engine adds to
the message is left out. -/
def parseCall (payload : Str) : Except ContractError (Str × List Val) :=
  match Json.parse payload with
  | none => .error { expected := false, message := "Unable to parse the method payload. Payload was: ".toList ++ payload }
  | some .null => .error (unexpected "Cannot destructure property")
  | some v =>
    match property v "args".toList with
    | none | some .null =>
      .error (unexpected "Method arguments parsing falied, unable to proceed with method execution")
    | some args =>
      match ((property v "method".toList).elim (some "undefined".toList) Val.toStr), spread args with
      | some method, some args => .ok (method, args)
      | none, _ => .error (unexpected "Cannot convert object to primitive value")
      | _, none => .error (unexpected "args is not iterable")

def processMethod (registry : JsMap Str Contract) : ContractCode := fun request =>
  match HardCodedSmartContractRegistry.getContractByRawAddress registry request.contractAddress with
  | none => .throw { expected := false
                     message := "contract with address ".toList ++ bs58EncodeRawAddress request.contractAddress
                       ++ " not registered".toList }
  | some contract =>
    match parseCall request.payload with
    | .error e => .throw e
    | .ok (method, args) => contract (bs58EncodeRawAddress request.sender) method args

end HardCodedSmartContractProcessor
end Orbs
