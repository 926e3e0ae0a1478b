import OrbsNetwork.SmartContracts
import OrbsNetwork.TokenPool
/-!
# ReadOnlyCall — calls that try to modify the state

The accessor of a call rejects every write.  A contract that waits for its writes throws then; a contract that drops the
promise resolves as if the write had been done, and nothing was stored.  So a call that comes to a write is refused
exactly when its method is not one of those (`refused_iff`).
-/
namespace Orbs
open Js Val VirtualMachine
open AsyncProg (frozen)
open StateProg (Machine Ends)

namespace KinAtnSmartContract

section
variable {σ : Type} {m : Machine σ Str Str} {s : σ} {E : ContractError → Prop}

theorem ends_getBalanceForAccount (hE : ∀ e, E e → e.expected = true) (account : Str) {Q : Val → σ → Prop} :
    Ends m E (getBalanceForAccount account) Q s ↔ ∃ v, parseBalance (m.load s (getAccountBalanceKey account)) = .ok v ∧ Q v s := by
  unfold getBalanceForAccount
  rw [StateProg.ends_bind, StateProg.ends_read, ends_ofExcept hE (unexpected_parseBalance _)]

theorem ends_getPoolBalance (hE : ∀ e, E e → e.expected = true) {Q : Val → σ → Prop} :
    Ends m E getPoolBalance Q s ↔ ∃ v, parseBalance (m.load s allocatedPoolStateVariable) = .ok v ∧ Q v s := by
  unfold getPoolBalance
  rw [StateProg.ends_bind, StateProg.ends_read, ends_ofExcept hE (unexpected_parseBalance _)]

end

section
variable {σ : Type} {load : σ → Str → Option Str} {s : σ}

theorem exec_transfer_of_accepted {m : Machine σ Str Str} {sender recipient : Str} {amount x y : Number}
    (h : Accepted (fun a => parseBalance (m.load s (getAccountBalanceKey a))) sender recipient amount x y) :
    (transfer sender (some (.str recipient)) (some (.num amount))).exec m s =
      (.ok (), storeBalances m s sender recipient (x.sub amount) (y.add amount)) := by
  unfold transfer
  dsimp only
  rw [if_neg (by rw [h.positive]; exact Bool.false_ne_true), exec_getBalanceForAccount _ h.sender]
  dsimp only
  rw [if_neg (by rw [h.sufficient]; exact Bool.false_ne_true), exec_getBalanceForAccount _ h.recipient]
  dsimp only
  rw [if_neg (by rw [h.room]; exact Bool.false_ne_true)]
  rfl

theorem writes_of_marked {α : Type} {p : Prog α} (h : (p.exec (frozen load) (s, false)).2.2 = true) :
    ∃ w, w ∈ p.writes (frozen load) (s, false) := by
  apply List.exists_mem_of_ne_nil
  intro hnil
  rw [StateProg.exec_snd, hnil] at h
  cases h

theorem loses_transfer {sender : Str} {recipient amount : Option Val} :
    Ends (frozen load) (fun _ => False) (transfer sender recipient amount) (fun _ t => t.2 = true) (s, false) ↔
      ∃ r z x y, recipient = some (.str r) ∧ amount = some (.num z) ∧
        Accepted (fun a => parseBalance (load s (getAccountBalanceKey a))) sender r z x y := by
  constructor
  · intro h
    unfold Ends at h
    split at h
    · rename_i a t he
      obtain ⟨w, hw⟩ := writes_of_marked (p := transfer sender recipient amount) (by rw [he]; exact h)
      obtain ⟨r, z, x, y, h0, h1, hacc, -⟩ := writes_transfer w hw
      exact ⟨r, z, x, y, h0, h1, hacc⟩
    · exact h.elim
  · rintro ⟨r, z, x, y, rfl, rfl, h⟩
    unfold Ends
    rw [exec_transfer_of_accepted (m := frozen load) (s := (s, false)) h]
    rfl

/-- The pool's text is read as a value that `amount` can be taken from. -/
def PoolReduces (load : Str → Option Str) (amount : Option Val) : Prop :=
  ∃ v reset rest, parseBalance (load allocatedPoolStateVariable) = .ok v ∧ isZero v = .ok reset ∧ minus v amount = .ok rest

theorem ends_filledPool {b : Bool} {Q : Val → σ × Bool → Prop} :
    Ends (frozen load) (fun _ => False) filledPool Q (s, b) ↔ ∃ v reset,
      parseBalance (load s allocatedPoolStateVariable) = .ok v ∧ isZero v = .ok reset ∧ Q v (s, b || reset) := by
  have hE : ∀ e : ContractError, False → e.expected = true := fun _ => False.elim
  unfold filledPool
  rw [StateProg.ends_bind, ends_getPoolBalance hE]
  constructor
  · rintro ⟨v, hv, h⟩
    rw [StateProg.ends_bind, ends_ofExcept hE (unexpected_isZero v)] at h
    obtain ⟨reset, hreset, h⟩ := h
    refine ⟨v, reset, hv, hreset, ?_⟩
    cases reset with
    | false => simpa using h
    | true =>
      rw [if_pos rfl, StateProg.ends_bind, setPoolBalance, StateProg.ends_write, ends_getPoolBalance hE] at h
      obtain ⟨v', hv', h⟩ := h
      cases hv.symm.trans hv'
      rw [Bool.or_true]
      exact h
  · rintro ⟨v, reset, hv, hreset, h⟩
    refine ⟨v, hv, ?_⟩
    rw [StateProg.ends_bind, ends_ofExcept hE (unexpected_isZero v)]
    refine ⟨reset, hreset, ?_⟩
    cases reset with
    | false => simpa using h
    | true =>
      rw [if_pos rfl, StateProg.ends_bind, setPoolBalance, StateProg.ends_write, ends_getPoolBalance hE]
      rw [Bool.or_true] at h
      exact ⟨v, hv, h⟩

theorem loses_reduceFromPool {amount : Option Val} (b : Bool) :
    Ends (frozen load) (fun _ => False) (reduceFromPool amount) (fun _ t => t.2 = true) (s, b) ↔
      PoolReduces (load s) amount := by
  have hE : ∀ e : ContractError, False → e.expected = true := fun _ => False.elim
  rw [reduceFromPool_eq, StateProg.ends_bind, ends_filledPool]
  unfold PoolReduces
  simp only [StateProg.ends_bind, ends_ofExcept hE (unexpected_minus _ amount)]
  constructor
  · rintro ⟨v, reset, hv, hreset, rest, hrest, -⟩
    exact ⟨v, reset, rest, hv, hreset, hrest⟩
  · rintro ⟨v, reset, rest, hv, hreset, hrest⟩
    exact ⟨v, reset, hv, hreset, rest, hrest, rfl⟩

/-- The call comes to a write of its own account of things and returns. -/
def CallLoses (load : Str → Option Str) (senderAddressBase58 : Str) (args : List Val) : Method → Prop
  | .transfer => ∃ recipient amount x y, args[0]? = some (.str recipient) ∧ args[1]? = some (.num amount) ∧
    Accepted (fun a => parseBalance (load (getAccountBalanceKey a))) senderAddressBase58 recipient amount x y
  | .financeAccount => (∃ account, args[0]? = some (.str account)) ∧ PoolReduces load (some (.num defaultBalance))
  | .reduceFromPool => PoolReduces load args[0]?
  | .setBalance => ∃ account, text args[0]? = .ok account
  | .setPoolBalance => True
  | _ => False

theorem loses_financeAccount {account : Option Val} :
    Ends (frozen load) (fun _ => False) (financeAccount account) (fun _ t => t.2 = true) (s, false) ↔
      (∃ a, account = some (.str a)) ∧ PoolReduces (load s) (some (.num defaultBalance)) := by
  unfold financeAccount
  split
  · rename_i a
    rw [StateProg.ends_bind, setBalance, StateProg.ends_write]
    exact (loses_reduceFromPool true).trans ⟨fun h => ⟨⟨a, rfl⟩, h⟩, And.right⟩
  · rename_i hstr
    exact iff_of_false id fun h => h.1.elim hstr

theorem loses_call {sender name : Str} {args : List Val} :
    Ends (frozen load) (fun _ => False) (call sender name args) (fun _ t => t.2 = true) (s, false) ↔
      ∃ x, method name = some x ∧ CallLoses (load s) sender args x := by
  have hE : ∀ e : ContractError, False → e.expected = true := fun _ => False.elim
  have hmethod : ∀ {x : Method}, method name = some x →
      ((∃ y, method name = some y ∧ CallLoses (load s) sender args y) ↔ CallLoses (load s) sender args x) := by
    intro x hx
    simp only [hx, Option.some.injEq, exists_eq_left']
  unfold call
  split <;> rename_i hm
  · rw [hmethod hm]
    exact loses_transfer
  · rw [hmethod hm, StateProg.ends_bind, ends_getBalanceForAccount hE]
    simp [CallLoses]
  · rw [hmethod hm]
    exact loses_reduceFromPool false
  · rw [hmethod hm]
    exact loses_financeAccount
  · rw [hmethod hm, StateProg.ends_bind, ends_ofExcept hE (unexpected_text _)]
    simp [CallLoses, ends_getBalanceForAccount hE]
  · rw [hmethod hm, StateProg.ends_bind, ends_ofExcept hE (unexpected_text _)]
    simp [CallLoses, setBalance, frozen]
  · rw [hmethod hm, StateProg.ends_bind, ends_getPoolBalance hE]
    simp [CallLoses]
  · rw [hmethod hm]
    exact iff_of_true rfl trivial
  · rw [hmethod hm, StateProg.ends_bind, ends_ofExcept hE (unexpected_text _)]
    simp [CallLoses]
  · rw [hmethod hm, StateProg.ends_bind, ends_ofExcept hE (unexpected_text _)]
    simp [CallLoses]
  · rw [hmethod hm]
    exact iff_of_false Bool.false_ne_true id
  · rw [hmethod hm]
    exact iff_of_false Bool.false_ne_true id
  · simp [hm]

end
end KinAtnSmartContract

/-! ## The other contracts -/

open BaseSmartContract AsyncProg

theorem awaits_getter (key : Except ContractError Str) (f : Option Str → Except ContractError Val) :
    (ofExcept key >>= fun key => read key >>= fun value => ofExcept (f value) : Prog Val).Awaits :=
  awaits_bind (fun key => awaits_bind (fun _ => awaits_ofExcept _) (awaits_read key)) (awaits_ofExcept key)

theorem awaits_setter (key : Except ContractError Str) (value : Option Str) :
    (ofExcept key >>= fun key => write key value : Prog Unit).Awaits :=
  awaits_bind (fun key => awaits_write key value) (awaits_ofExcept key)

theorem awaits_inherited (name : Str) (args : List Val) : (inherited name args).Awaits := by
  unfold inherited
  split
  · trivial
  split
  · exact awaits_discard (awaits_ofExcept _)
  · trivial

theorem awaits_callMethod {methods : List (Str × (Str → List Val → Prog Unit))} {name : Str}
    (h : ∀ p ∈ methods, p.1 = name → ∀ sender args, (p.2 sender args).Awaits) (sender : Str) (args : List Val) :
    (callMethod methods sender name args).Awaits := by
  unfold callMethod
  split
  · rename_i p hp
    exact h p (List.mem_of_find?_eq_some hp) (by simpa using List.find?_some hp) sender args
  · exact awaits_inherited name args

namespace EventCounterContract

theorem awaits_getValue (sender : Str) (event : Option Val) : (getValue sender event).Awaits :=
  awaits_getter _ _

theorem awaits_setValue (sender : Str) (event amount : Option Val) : (setValue sender event amount).Awaits :=
  awaits_setter _ _

theorem awaits_reportEvent (sender : Str) (event : Option Val) : (reportEvent sender event).Awaits := by
  unfold reportEvent
  split
  · refine awaits_bind (fun value => ?_) (awaits_getValue sender _)
    exact awaits_bind (fun amount => awaits_setValue sender _ _) (awaits_ofExcept _)
  · trivial

theorem awaits_call (sender name : Str) (args : List Val) : (callMethod methods sender name args).Awaits := by
  refine awaits_callMethod (fun p hp _ sender args => ?_) sender args
  simp only [methods, List.mem_cons, List.not_mem_nil, or_false] at hp
  rcases hp with rfl | rfl | rfl | rfl | rfl
  · exact awaits_reportEvent sender _
  · exact awaits_discard (awaits_getValue sender _)
  · exact awaits_discard (awaits_getValue sender _)
  · exact awaits_setValue sender _ _
  · exact awaits_discard (awaits_ofExcept _)

end EventCounterContract

namespace FooBarSmartContract

theorem awaits_getBalance (account : Option Val) : (getBalance account).Awaits :=
  awaits_getter _ _

theorem awaits_setBalance (account amount : Option Val) : (setBalance account amount).Awaits :=
  awaits_setter _ _

theorem awaits_transfer (sender : Str) (recipient amount : Option Val) : (transfer sender recipient amount).Awaits := by
  unfold transfer
  split
  · trivial
  refine awaits_bind (fun senderBalance => ?_) (awaits_getBalance _)
  refine awaits_bind (fun insufficient => ?_) (awaits_ofExcept _)
  split
  · exact awaits_bind awaits_throw (awaits_ofExcept _)
  refine awaits_bind (fun recipientBalance => ?_) (awaits_getBalance _)
  refine awaits_bind (fun rest => ?_) (awaits_ofExcept _)
  refine awaits_bind (fun _ => ?_) (awaits_setBalance _ _)
  exact awaits_bind (fun sum => awaits_setBalance _ _) (awaits_ofExcept _)

theorem awaits_call {name : Str} (hname : name ≠ "initBalance".toList) (sender : Str) (args : List Val) :
    (callMethod methods sender name args).Awaits := by
  refine awaits_callMethod (fun p hp hn sender args => ?_) sender args
  simp only [methods, List.mem_cons, List.not_mem_nil, or_false] at hp
  rcases hp with rfl | rfl | rfl | rfl | rfl | rfl
  · exact awaits_transfer sender _ _
  · exact absurd hn.symm hname
  · exact awaits_discard (awaits_getBalance _)
  · exact awaits_discard (awaits_getBalance _)
  · exact awaits_setBalance _ _
  · exact awaits_discard (awaits_ofExcept _)

section
variable {σ : Type} {load : σ → Str → Option Str} {e : ContractError} {s : σ}

theorem loses_initBalance {account amount : Option Val} :
    (initBalance account amount).Loses load e s ↔ ∃ a, KinAtnSmartContract.text account = .ok a := by
  unfold initBalance setBalance getAccountBalanceKey
  cases KinAtnSmartContract.text account with
  | error e' => exact iff_of_false (fun h => h.1) (fun h => nomatch h.choose_spec)
  | ok a => exact iff_of_true ⟨trivial, (), rfl⟩ ⟨a, rfl⟩

end
end FooBarSmartContract

namespace TextMessageSmartContract

theorem awaits_getMessages (account : Option Val) : (getMessages account).Awaits :=
  awaits_getter _ _

theorem awaits_appendMessage (message : Option Val) : (appendMessage message).Awaits := by
  refine awaits_bind (fun recipient => awaits_bind (fun messages => ?_) (awaits_getMessages recipient)) (awaits_ofExcept _)
  split
  · exact awaits_setter _ _
  · trivial

theorem awaits_sendMessage (now : ℕ) (sender : Str) (recipient message timestamp : Option Val) :
    (sendMessage now sender recipient message timestamp).Awaits := by
  refine awaits_bind (fun length => ?_) (awaits_ofExcept _)
  split
  · trivial
  refine awaits_bind (fun future => ?_) (awaits_ofExcept _)
  split
  · trivial
  · exact awaits_appendMessage _

theorem awaits_call (now : ℕ) (sender name : Str) (args : List Val) :
    (callMethod (methods now) sender name args).Awaits := by
  refine awaits_callMethod (fun p hp _ sender args => ?_) sender args
  simp only [methods, List.mem_cons, List.not_mem_nil, or_false] at hp
  rcases hp with rfl | rfl | rfl | rfl | rfl
  · exact awaits_sendMessage now sender _ _ _
  · exact awaits_discard (awaits_getMessages _)
  · exact awaits_discard (awaits_getMessages _)
  · exact awaits_appendMessage _
  · exact awaits_discard (awaits_ofExcept _)

end TextMessageSmartContract

/-! ## Calls -/

namespace HardCodedSmartContractProcessor

/-- The call modifies the state `load` and resolves. -/
def Lost (load : Str → Option Str) (senderAddressBase58 name : Str) (args : List Val) : RegistryFile → Prop
  | .eventCounter | .textMessage => False
  | .fooBar => name = "initBalance".toList ∧ ∃ account, KinAtnSmartContract.text args[0]? = .ok account
  | .kinAtn => ∃ x, KinAtnSmartContract.method name = some x ∧ KinAtnSmartContract.CallLoses load senderAddressBase58 args x

theorem loses_contract {σ : Type} {load : σ → Str → Option Str} {e : ContractError} {s : σ} (now : ℕ)
    (file : RegistryFile) (sender name : Str) (args : List Val) :
    (file.contract now sender name args).Loses load e s ↔ Lost (load s) sender name args file := by
  cases file with
  | eventCounter => exact iff_of_false (not_loses_of_awaits (EventCounterContract.awaits_call _ _ _)) id
  | textMessage => exact iff_of_false (not_loses_of_awaits (TextMessageSmartContract.awaits_call _ _ _ _)) id
  | kinAtn => exact (loses_ofProg _).trans KinAtnSmartContract.loses_call
  | fooBar =>
    by_cases hname : name = "initBalance".toList
    · subst hname
      exact FooBarSmartContract.loses_initBalance.trans ⟨fun h => ⟨rfl, h⟩, And.right⟩
    · exact iff_of_false (not_loses_of_awaits (FooBarSmartContract.awaits_call hname _ _)) fun h => hname h.1

/-- The method that `call` runs comes to a write. -/
structure StoresInCall (registry : JsMap Str AsyncContract) (stateStorage : KeyValues) (request : CallRequest) : Prop where
  stores : (processMethodAsync registry request).Stores (readOnlyAccessor stateStorage request.contractAddress) .empty

instance (registry : JsMap Str AsyncContract) (stateStorage : KeyValues) (request : CallRequest) :
    Decidable (StoresInCall registry stateStorage request) :=
  decidable_of_iff _ ⟨StoresInCall.mk, StoresInCall.stores⟩

/-- **A call that comes to a write is refused, unless the contract drops the promise of it.** -/
theorem refused_iff {files : JsMap Str RegistryFile} {request : CallRequest} {file : RegistryFile} {name : Str}
    {args : List Val} (hfile : files.get (bs58EncodeRawAddress request.contractAddress) = some file)
    (hcall : parseCall request.payload = .ok (name, args)) (now : ℕ) (stateStorage : KeyValues) :
    (StoresInCall (registryOf now files) stateStorage request →
        ∃ e, call (registryOf now files) stateStorage request = .error e) ↔
      ¬ Lost (fun key => stateStorage { contractAddress := request.contractAddress, key })
        (bs58EncodeRawAddress request.sender) name args file := by
  have hmethod := processMethodAsync_eq hfile hcall now
  have hloses := @loses_contract _ (accessor stateStorage request.contractAddress).load readOnlyError .empty now file
    (bs58EncodeRawAddress request.sender) name args
  rw [← hmethod] at hloses
  refine Iff.trans ?_ (not_congr hloses)
  unfold Loses call readOnlyAccessor
  rw [not_and, not_exists]
  refine imp_congr ⟨StoresInCall.stores, StoresInCall.mk⟩ ?_
  cases ((processMethodAsync (registryOf now files) request).exec _ StateCache.empty).1 with
  | error e => exact iff_of_true ⟨e, rfl⟩ fun _ h => nomatch h
  | ok a => exact iff_of_false (fun h => nomatch h.choose_spec) fun h => h a rfl

def sampleFiles (file : RegistryFile) : JsMap Str RegistryFile :=
  JsMap.empty.set (bs58EncodeRawAddress KinAtnSmartContract.sampleContract) file

def sampleRequest (payload : String) : CallRequest where
  sender := KinAtnSmartContract.bob
  payload := payload.toList
  contractAddress := KinAtnSmartContract.sampleContract

theorem exists_call {payload : Str} (h : (parseCall payload).toBool = true) :
    ∃ name args, parseCall payload = .ok (name, args) := by
  cases hp : parseCall payload with
  | error e =>
    rw [hp] at h
    cases h
  | ok r => exact ⟨r.1, r.2, rfl⟩

def reportLogin : CallRequest := sampleRequest "\x7b\"method\":\"reportEvent\",\"args\":[\"login\"]\x7d"

theorem refused_reportLogin : StoresInCall (registryOf 0 (sampleFiles .eventCounter)) (fun _ => none) reportLogin ∧
    ∃ e, call (registryOf 0 (sampleFiles .eventCounter)) (fun _ => none) reportLogin = .error e := by
  have hstores : StoresInCall (registryOf 0 (sampleFiles .eventCounter)) (fun _ => none) reportLogin := by decide +kernel
  have hpayload : (parseCall reportLogin.payload).toBool = true := by decide +kernel
  have hfile : (sampleFiles .eventCounter).get (bs58EncodeRawAddress reportLogin.contractAddress) = some .eventCounter :=
    JsMap.get_set_self _ _ _
  obtain ⟨name, args, hcall⟩ := exists_call hpayload
  exact ⟨hstores, (@refused_iff _ reportLogin _ name args hfile hcall 0 _).2 id hstores⟩

/-- **Two calls store and resolve**: the balance is not set, and the account is not financed. -/
theorem lost_calls :
    (StoresInCall (registryOf 0 (sampleFiles .fooBar)) (fun _ => none)
        (sampleRequest "\x7b\"method\":\"initBalance\",\"args\":[\"alice\",5]\x7d") ∧
      call (registryOf 0 (sampleFiles .fooBar)) (fun _ => none)
        (sampleRequest "\x7b\"method\":\"initBalance\",\"args\":[\"alice\",5]\x7d") = .ok ()) ∧
    StoresInCall (registryOf 0 (sampleFiles .kinAtn)) (fun _ => none)
        (sampleRequest "\x7b\"method\":\"financeAccount\",\"args\":[\"alice\"]\x7d") ∧
      call (registryOf 0 (sampleFiles .kinAtn)) (fun _ => none)
        (sampleRequest "\x7b\"method\":\"financeAccount\",\"args\":[\"alice\"]\x7d") = .ok () := by
  decide +kernel

end HardCodedSmartContractProcessor
end Orbs
