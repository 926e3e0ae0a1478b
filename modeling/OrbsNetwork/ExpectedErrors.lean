import OrbsNetwork.ReadOnlyCall
import OrbsNetwork.StateCacheKeys
/-!
# ExpectedErrors — calls that fail alone, and calls that fail the whole set

The virtual machine gives a failed receipt for an error that is marked as expected, and throws every other one, which
ends the set and leaves no receipt at all.  `Contained` says of each public method, in terms of its arguments and of the
stored texts it reads, that it throws no such error (`ends_contract`); a set of transactions is processed exactly when
every call is contained in the state before it (`processTransactionSetAt_iff`).
-/
namespace Orbs

open Js Val VirtualMachine BaseSmartContract
open KinAtnSmartContract (text parseBalance)
open StateProg (Machine)

/-- The methods that the contracts declare as public. -/
inductive PublicMethod where
  | reportEvent
  | getCounter
  | fooBarTransfer
  | initBalance
  | getMyBalance
  | transfer
  | getBalance
  | financeAccount
  | sendMessage
  | getMyMessages

namespace PublicMethod

def file : PublicMethod → RegistryFile
  | reportEvent | getCounter => .eventCounter
  | fooBarTransfer | initBalance | getMyBalance => .fooBar
  | transfer | getBalance | financeAccount => .kinAtn
  | sendMessage | getMyMessages => .textMessage

def name : PublicMethod → Str
  | reportEvent => "reportEvent".toList
  | getCounter => "getCounter".toList
  | fooBarTransfer | transfer => "transfer".toList
  | initBalance => "initBalance".toList
  | getMyBalance => "getMyBalance".toList
  | getBalance => "getBalance".toList
  | financeAccount => "financeAccount".toList
  | sendMessage => "sendMessage".toList
  | getMyMessages => "getMyMessages".toList

end PublicMethod

/-- What is stored under the key is nothing, or the JSON text of the value. -/
def Stored (load : Str → Option Str) (otherwise : Val) (key : Except ContractError Str) (v : Val) : Prop :=
  ∃ k, key = .ok k ∧ parseOr otherwise (load k) = .ok v

namespace PublicMethod

/-- On the stored texts `load`, the method ends in no error that is unexpected. -/
def Contained (now : ℕ) (load : Str → Option Str) (sender : Str) (args : List Val) : PublicMethod → Prop
  | reportEvent => ∀ event, args[0]? = some (.str event) →
    ∃ v, Stored load (.ofNat 0) (EventCounterContract.getStorageKey sender args[0]?) v ∧ convertible (some v) = true
  | getCounter => ∃ v, Stored load (.ofNat 0) (EventCounterContract.getStorageKey sender args[0]?) v
  | fooBarTransfer => isExactlyZero args[1]? = false →
    ∃ x, Stored load (.ofNat 0) (FooBarSmartContract.getAccountBalanceKey (some (.str sender))) x ∧
      ∃ insufficient, less (some x) args[1]? = some insufficient ∧ (insufficient = false →
        ∃ y, Stored load (.ofNat 0) (FooBarSmartContract.getAccountBalanceKey args[0]?) y ∧ convertible (some y) = true)
  | initBalance => True
  | getMyBalance => ∃ v, Stored load (.ofNat 0) (FooBarSmartContract.getAccountBalanceKey (some (.str sender))) v
  | transfer => ∀ recipient amount, args[0]? = some (.str recipient) → args[1]? = some (.num amount) →
    amount.le (.ofNat 0) = false → ∃ v, parseBalance (load (KinAtnSmartContract.getAccountBalanceKey sender)) = .ok v ∧
      ∀ x, v = .num x → x.lt amount = false →
        ∃ w, parseBalance (load (KinAtnSmartContract.getAccountBalanceKey recipient)) = .ok w
  | getBalance => ∃ v, parseBalance (load (KinAtnSmartContract.getAccountBalanceKey sender)) = .ok v
  | financeAccount => ∀ account, args[0]? = some (.str account) →
    ∃ v, parseBalance (load KinAtnSmartContract.allocatedPoolStateVariable) = .ok v ∧ convertible (some v) = true
  | sendMessage => ∃ length, property "length".toList args[1]? = .ok length ∧ isExactlyZero length = false ∧
    less (some (.ofNat now)) args[2]? = some false ∧
      ∃ messages, Stored load (.arr []) (TextMessageSmartContract.getMessageKey args[0]?) (.arr messages)
  | getMyMessages => ∃ v, Stored load (.arr []) (TextMessageSmartContract.getMessageKey (some (.str sender))) v

end PublicMethod

section
variable {σ : Type} {m : Machine σ Str Str} {s : σ}

/-- Errors that are contained. -/
def expected (e : ContractError) : Prop := e.expected = true

theorem ends_getter {otherwise : Val} {key : Except ContractError Str} {Q : Val → σ → Prop}
    (hkey : Unexpected key) :
    AsyncProg.Ends m expected (AsyncProg.ofExcept key >>= fun key => AsyncProg.read key >>= fun value =>
        AsyncProg.ofExcept (parseOr otherwise value)) Q s ↔
      ∃ v, Stored (m.load s) otherwise key v ∧ Q v s := by
  have hE : ∀ e, expected e → e.expected = true := fun _ h => h
  rw [AsyncProg.ends_bind, AsyncProg.ends_ofExcept, ends_ofExcept hE hkey]
  unfold Stored
  simp only [AsyncProg.ends_bind, AsyncProg.ends_read, AsyncProg.ends_ofExcept, ends_ofExcept hE (unexpected_parseOr _ _)]
  constructor
  · rintro ⟨k, hk, v, hv, hq⟩
    exact ⟨v, ⟨k, hk, hv⟩, hq⟩
  · rintro ⟨v, ⟨k, hk, hv⟩, hq⟩
    exact ⟨k, hk, v, hv, hq⟩

theorem ends_setter {key : Except ContractError Str} {value : Option Str} {Q : Unit → σ → Prop}
    (hkey : Unexpected key) :
    AsyncProg.Ends m expected (AsyncProg.ofExcept key >>= fun key => AsyncProg.write key value) Q s ↔
      ∃ k, key = .ok k ∧ Q () (m.store s k value) := by
  have hE : ∀ e, expected e → e.expected = true := fun _ h => h
  rw [AsyncProg.ends_bind, AsyncProg.ends_ofExcept, ends_ofExcept hE hkey]
  rfl


theorem unexpected_getStorageKey (sender : Str) (event : Option Val) :
    Unexpected (EventCounterContract.getStorageKey sender event) :=
  unexpected_map (KinAtnSmartContract.unexpected_text event) _

theorem unexpected_getAccountBalanceKey (account : Option Val) :
    Unexpected (FooBarSmartContract.getAccountBalanceKey account) :=
  unexpected_map (KinAtnSmartContract.unexpected_text account) _

theorem unexpected_getMessageKey (account : Option Val) : Unexpected (TextMessageSmartContract.getMessageKey account) :=
  unexpected_map (KinAtnSmartContract.unexpected_text account) _

theorem ends_operator {α : Type} {x : Option α} {Q : α → σ → Prop} :
    AsyncProg.Ends m expected (AsyncProg.ofExcept (orTypeError x)) Q s ↔ ∃ a, x = some a ∧ Q a s := by
  have hE : ∀ e, expected e → e.expected = true := fun _ h => h
  rw [AsyncProg.ends_ofExcept, ends_ofExcept hE (unexpected_orTypeError x)]
  simp only [orTypeError_eq_ok]

/-! ### EventCounterContract -/

theorem ends_getValue (sender : Str) (event : Option Val) {Q : Val → σ → Prop} :
    AsyncProg.Ends m expected (EventCounterContract.getValue sender event) Q s ↔
      ∃ v, Stored (m.load s) (.ofNat 0) (EventCounterContract.getStorageKey sender event) v ∧ Q v s :=
  ends_getter (unexpected_getStorageKey sender event)

theorem ends_reportEvent {sender : Str} {args : List Val} {now : ℕ} :
    AsyncProg.Ends m expected (EventCounterContract.reportEvent sender args[0]?) (fun _ _ => True) s ↔
      PublicMethod.reportEvent.Contained now (m.load s) sender args := by
  unfold EventCounterContract.reportEvent PublicMethod.Contained
  split
  · rename_i event hevent
    rw [hevent, AsyncProg.ends_bind, ends_getValue]
    constructor
    · rintro ⟨v, hv, h⟩ _ -
      rw [AsyncProg.ends_bind, ends_operator] at h
      obtain ⟨sum, hsum, -⟩ := h
      have hsome := isSome_plus (some v) (some (.ofNat 1))
      rw [hsum, eq_comm, Option.isSome_some, Bool.and_eq_true] at hsome
      exact ⟨v, hv, hsome.1⟩
    · intro h
      obtain ⟨v, hv, hconv⟩ := h event rfl
      refine ⟨v, hv, ?_⟩
      rw [AsyncProg.ends_bind, ends_operator]
      have hsome : (plus (some v) (some (.ofNat 1))).isSome = true := by
        rw [isSome_plus, hconv]
        rfl
      obtain ⟨sum, hsum⟩ := Option.isSome_iff_exists.1 hsome
      refine ⟨sum, hsum, (ends_setter (unexpected_getStorageKey sender _)).2 ?_⟩
      obtain ⟨k, hk, -⟩ := hv
      exact ⟨k, hk, trivial⟩
  · rename_i hstr
    exact iff_of_true rfl fun event h => absurd h (hstr event)

theorem ends_getCounter {sender : Str} {args : List Val} {now : ℕ} :
    AsyncProg.Ends m expected (EventCounterContract.getValue sender args[0]? >>= fun _ => pure ()) (fun _ _ => True) s ↔
      PublicMethod.getCounter.Contained now (m.load s) sender args := by
  rw [AsyncProg.ends_bind, ends_getValue]
  simp only [AsyncProg.ends_pure, and_true]
  rfl

/-! ### FooBarSmartContract -/

theorem ends_fooBarGetBalance (account : Option Val) {Q : Val → σ → Prop} :
    AsyncProg.Ends m expected (FooBarSmartContract.getBalance account) Q s ↔
      ∃ v, Stored (m.load s) (.ofNat 0) (FooBarSmartContract.getAccountBalanceKey account) v ∧ Q v s :=
  ends_getter (unexpected_getAccountBalanceKey account)

theorem minus_of_less {x : Val} {amount : Option Val} {b : Bool} (h : less (some x) amount = some b) :
    ∃ rest, KinAtnSmartContract.minus x amount = .ok rest := by
  have hsome := isSome_less (some x) amount
  rw [h, eq_comm, Option.isSome_some, Bool.and_eq_true, ← isSome_numberOf, ← isSome_numberOf] at hsome
  obtain ⟨p, hp⟩ := Option.isSome_iff_exists.1 hsome.1
  obtain ⟨q, hq⟩ := Option.isSome_iff_exists.1 hsome.2
  change x.toNumber = some p at hp
  change amount.elim (some .nan) toNumber = some q at hq
  unfold KinAtnSmartContract.minus
  rw [hp, hq]
  exact ⟨_, rfl⟩

theorem notSufficient_of_less {x amount : Option Val} {b : Bool} (h : less x amount = some b) :
    ∃ message, FooBarSmartContract.notSufficient x amount = .ok (KinAtnSmartContract.validationError message) := by
  have hsome := isSome_less x amount
  rw [h, eq_comm, Option.isSome_some, Bool.and_eq_true] at hsome
  have htext : ∀ {v : Option Val}, convertible v = true → ∃ t, text v = .ok t := by
    intro v hv
    unfold text
    cases v with
    | none => exact ⟨_, rfl⟩
    | some v =>
      obtain ⟨t, ht⟩ := Option.isSome_iff_exists.1 (show v.toStr.isSome = true from hv)
      dsimp only
      rw [ht]
      exact ⟨t, rfl⟩
  obtain ⟨p, hp⟩ := htext hsome.1
  obtain ⟨q, hq⟩ := htext hsome.2
  unfold FooBarSmartContract.notSufficient
  rw [hp, hq]
  exact ⟨_, rfl⟩

theorem ends_fooBarTransfer {sender : Str} {args : List Val} {now : ℕ} :
    AsyncProg.Ends m expected (FooBarSmartContract.transfer sender args[0]? args[1]?) (fun _ _ => True) s ↔
      PublicMethod.fooBarTransfer.Contained now (m.load s) sender args := by
  have hE : ∀ e, expected e → e.expected = true := fun _ h => h
  unfold FooBarSmartContract.transfer PublicMethod.Contained
  split
  · rename_i hzero
    refine iff_of_true rfl fun h => ?_
    rw [hzero] at h
    cases h
  rename_i hzero
  rw [AsyncProg.ends_bind, ends_fooBarGetBalance]
  constructor
  · rintro ⟨x, hx, h⟩ -
    rw [AsyncProg.ends_bind, ends_operator] at h
    obtain ⟨insufficient, hless, h⟩ := h
    refine ⟨x, hx, insufficient, hless, ?_⟩
    rintro rfl
    rw [if_neg Bool.false_ne_true, AsyncProg.ends_bind, ends_fooBarGetBalance] at h
    obtain ⟨y, hy, h⟩ := h
    refine ⟨y, hy, ?_⟩
    rw [AsyncProg.ends_bind, AsyncProg.ends_ofExcept, ends_ofExcept hE (KinAtnSmartContract.unexpected_minus _ _)] at h
    obtain ⟨rest, -, h⟩ := h
    rw [AsyncProg.ends_bind, FooBarSmartContract.setBalance, ends_setter (unexpected_getAccountBalanceKey _)] at h
    obtain ⟨k, -, h⟩ := h
    rw [AsyncProg.ends_bind, ends_operator] at h
    obtain ⟨sum, hsum, -⟩ := h
    have hsome := isSome_plus (some y) args[1]?
    rw [hsum, eq_comm, Option.isSome_some, Bool.and_eq_true] at hsome
    exact hsome.1
  · intro h
    obtain ⟨x, hx, insufficient, hless, h⟩ := h (by simpa using hzero)
    refine ⟨x, hx, ?_⟩
    rw [AsyncProg.ends_bind, ends_operator]
    refine ⟨insufficient, hless, ?_⟩
    cases insufficient with
    | true =>
      obtain ⟨message, hmessage⟩ := notSufficient_of_less hless
      rw [if_pos rfl, AsyncProg.ends_bind, hmessage]
      rfl
    | false =>
      obtain ⟨y, hy, hconv⟩ := h rfl
      rw [if_neg Bool.false_ne_true, AsyncProg.ends_bind, ends_fooBarGetBalance]
      refine ⟨y, hy, ?_⟩
      obtain ⟨rest, hrest⟩ := minus_of_less hless
      have hsome : (plus (some y) args[1]?).isSome = true := by
        have := isSome_less (some x) args[1]?
        rw [hless, eq_comm, Option.isSome_some, Bool.and_eq_true] at this
        rw [isSome_plus, hconv, this.2]
        rfl
      obtain ⟨sum, hsum⟩ := Option.isSome_iff_exists.1 hsome
      rw [AsyncProg.ends_bind, hrest, AsyncProg.ends_ofExcept, StateProg.ends_ok, AsyncProg.ends_bind,
        FooBarSmartContract.setBalance, ends_setter (unexpected_getAccountBalanceKey _)]
      obtain ⟨k, hk, -⟩ := hx
      refine ⟨k, hk, ?_⟩
      rw [AsyncProg.ends_bind, ends_operator]
      refine ⟨sum, hsum, (ends_setter (unexpected_getAccountBalanceKey _)).2 ?_⟩
      obtain ⟨k', hk', -⟩ := hy
      exact ⟨k', hk', trivial⟩

theorem ends_initBalance {account amount : Option Val} :
    AsyncProg.Ends m expected (FooBarSmartContract.initBalance account amount) (fun _ _ => True) s := by
  unfold FooBarSmartContract.initBalance FooBarSmartContract.setBalance FooBarSmartContract.getAccountBalanceKey
  cases text account <;> trivial

theorem ends_getMyBalance {sender : Str} {args : List Val} {now : ℕ} :
    AsyncProg.Ends m expected (FooBarSmartContract.getBalance (some (.str sender)) >>= fun _ => pure ()) (fun _ _ => True) s ↔
      PublicMethod.getMyBalance.Contained now (m.load s) sender args := by
  rw [AsyncProg.ends_bind, ends_fooBarGetBalance]
  simp only [AsyncProg.ends_pure, and_true]
  rfl

/-! ### TextMessageSmartContract -/

theorem ends_getMessages (account : Option Val) {Q : Val → σ → Prop} :
    AsyncProg.Ends m expected (TextMessageSmartContract.getMessages account) Q s ↔
      ∃ v, Stored (m.load s) (.arr []) (TextMessageSmartContract.getMessageKey account) v ∧ Q v s :=
  ends_getter (unexpected_getMessageKey account)

theorem property_recipient (recipient timestamp message : Option Val) (sender now : Val) :
    property "recipient".toList
      (some (TextMessageSmartContract.newMessage recipient (some sender) timestamp (some now) message)) = .ok recipient := by
  cases recipient <;> cases timestamp <;> cases message <;> rfl

theorem ends_appendMessage {recipient timestamp message : Option Val} {sender now : Val} :
    AsyncProg.Ends m expected (TextMessageSmartContract.appendMessage
        (some (TextMessageSmartContract.newMessage recipient (some sender) timestamp (some now) message)))
        (fun _ _ => True) s ↔
      ∃ messages, Stored (m.load s) (.arr []) (TextMessageSmartContract.getMessageKey recipient) (.arr messages) := by
  unfold TextMessageSmartContract.appendMessage
  rw [property_recipient, AsyncProg.ends_bind, AsyncProg.ends_ofExcept, StateProg.ends_ok, AsyncProg.ends_bind,
    ends_getMessages]
  constructor
  · rintro ⟨v, hv, h⟩
    split at h
    · rename_i messages
      exact ⟨messages, hv⟩
    · cases h
  · rintro ⟨messages, hmessages⟩
    refine ⟨.arr messages, hmessages, (ends_setter (unexpected_getMessageKey recipient)).2 ?_⟩
    obtain ⟨k, hk, -⟩ := hmessages
    exact ⟨k, hk, trivial⟩

theorem ends_sendMessage {sender : Str} {args : List Val} {now : ℕ} :
    AsyncProg.Ends m expected (TextMessageSmartContract.sendMessage now sender args[0]? args[1]? args[2]?)
        (fun _ _ => True) s ↔ PublicMethod.sendMessage.Contained now (m.load s) sender args := by
  have hE : ∀ e, expected e → e.expected = true := fun _ h => h
  unfold TextMessageSmartContract.sendMessage PublicMethod.Contained
  rw [AsyncProg.ends_bind, AsyncProg.ends_ofExcept, ends_ofExcept hE (unexpected_property _ _)]
  apply exists_congr
  intro length
  apply and_congr_right
  intro _
  cases isExactlyZero length with
  | true => exact iff_of_false Bool.false_ne_true fun h => Bool.false_ne_true h.1.symm
  | false =>
    rw [if_neg Bool.false_ne_true, AsyncProg.ends_bind, ends_operator]
    constructor
    · rintro ⟨future, hfuture, h⟩
      cases future with
      | true => cases h
      | false =>
        rw [if_neg Bool.false_ne_true, ends_appendMessage] at h
        exact ⟨rfl, hfuture, h⟩
    · rintro ⟨-, hfuture, h⟩
      refine ⟨false, hfuture, ?_⟩
      rw [if_neg Bool.false_ne_true, ends_appendMessage]
      exact h

theorem ends_getMyMessages {sender : Str} {args : List Val} {now : ℕ} :
    AsyncProg.Ends m expected (TextMessageSmartContract.getMessages (some (.str sender)) >>= fun _ => pure ())
        (fun _ _ => True) s ↔ PublicMethod.getMyMessages.Contained now (m.load s) sender args := by
  rw [AsyncProg.ends_bind, ends_getMessages]
  simp only [AsyncProg.ends_pure, and_true]
  rfl

/-! ### KinAtnSmartContract -/

section
open KinAtnSmartContract

theorem ends_transfer {sender : Str} {args : List Val} {now : ℕ} :
    StateProg.Ends m expected (transfer sender args[0]? args[1]?) (fun _ _ => True) s ↔
      PublicMethod.transfer.Contained now (m.load s) sender args := by
  have hE : ∀ e, expected e → e.expected = true := fun _ h => h
  unfold transfer PublicMethod.Contained
  split
  · rename_i recipient amount h0 h1
    rw [h0, h1]
    split
    · rename_i hle
      refine iff_of_true rfl ?_
      rintro _ _ - ⟨⟩ hpos
      rw [hle] at hpos
      cases hpos
    rename_i hle
    rw [StateProg.ends_bind, ends_getBalanceForAccount hE]
    constructor
    · rintro ⟨v, hv, h⟩ _ _ ⟨⟩ ⟨⟩ -
      refine ⟨v, hv, ?_⟩
      rintro x rfl hsuf
      dsimp only at h
      rw [hsuf, if_neg Bool.false_ne_true, StateProg.ends_bind, ends_getBalanceForAccount hE] at h
      obtain ⟨w, hw, -⟩ := h
      exact ⟨w, hw⟩
    · intro h
      obtain ⟨v, hv, h⟩ := h recipient amount rfl rfl (by simpa using hle)
      refine ⟨v, hv, ?_⟩
      split
      · rename_i x
        split
        · rfl
        rename_i hsuf
        rw [StateProg.ends_bind, ends_getBalanceForAccount hE]
        obtain ⟨w, hw⟩ := h x rfl (by simpa using hsuf)
        refine ⟨w, hw, ?_⟩
        split
        · split
          · rfl
          · trivial
        · rfl
      · rfl
  · rename_i hnum
    exact iff_of_true rfl fun recipient amount _ h1 => (hnum amount h1).elim
  · rename_i hstr
    exact iff_of_true rfl fun recipient amount h0 h1 => (hstr recipient amount h0 h1).elim

theorem ends_getBalance {sender : Str} {args : List Val} {now : ℕ} :
    StateProg.Ends m expected (getBalanceForAccount sender >>= fun _ => pure ()) (fun _ _ => True) s ↔
      PublicMethod.getBalance.Contained now (m.load s) sender args := by
  have hE : ∀ e, expected e → e.expected = true := fun _ h => h
  rw [StateProg.ends_bind, ends_getBalanceForAccount hE]
  simp only [StateProg.ends_pure, and_true]
  rfl

theorem convertible_of_isZero {v : Val} {reset : Bool} (h : isZero v = .ok reset) : convertible (some v) = true := by
  unfold isZero at h
  split at h
  · rfl
  split at h
  · rename_i x hx
    rw [← isSome_numberOf, numberOf, Option.elim_some, hx]
    rfl
  · cases h

theorem isZero_of_convertible {v : Val} (h : convertible (some v) = true) : ∃ reset, isZero v = .ok reset := by
  rw [← isSome_numberOf] at h
  obtain ⟨x, hx⟩ := Option.isSome_iff_exists.1 (show v.toNumber.isSome = true from h)
  unfold isZero
  split
  · exact ⟨_, rfl⟩
  · rw [hx]
    exact ⟨_, rfl⟩

theorem minus_of_convertible {v : Val} (h : convertible (some v) = true) (x : Number) :
    ∃ rest, minus v (some (.num x)) = .ok rest := by
  rw [← isSome_numberOf] at h
  obtain ⟨y, hy⟩ := Option.isSome_iff_exists.1 (show v.toNumber.isSome = true from h)
  unfold minus
  rw [hy]
  exact ⟨_, rfl⟩

theorem ends_reduceFromPool (hm : m.Lawful) :
    StateProg.Ends m expected (reduceFromPool (some (.num defaultBalance))) (fun _ _ => True) s ↔
      ∃ v, parseBalance (m.load s allocatedPoolStateVariable) = .ok v ∧ convertible (some v) = true := by
  have hE : ∀ e, expected e → e.expected = true := fun _ h => h
  rw [reduceFromPool_eq, StateProg.ends_bind, filledPool, StateProg.ends_bind, ends_getPoolBalance hE]
  apply exists_congr
  intro v
  apply and_congr_right
  intro _
  rw [StateProg.ends_bind, ends_ofExcept hE (unexpected_isZero v)]
  constructor
  · rintro ⟨reset, hreset, -⟩
    exact convertible_of_isZero hreset
  · intro hconv
    obtain ⟨reset, hreset⟩ := isZero_of_convertible hconv
    refine ⟨reset, hreset, ?_⟩
    cases reset with
    | false =>
      obtain ⟨rest, hrest⟩ := minus_of_convertible hconv defaultBalance
      rw [if_neg Bool.false_ne_true, StateProg.ends_pure, StateProg.ends_bind, hrest]
      trivial
    | true =>
      rw [if_pos rfl, StateProg.ends_bind, setPoolBalance, StateProg.ends_write, ends_getPoolBalance hE]
      refine ⟨_, parseBalance_initialPool hm, ?_⟩
      trivial

theorem ends_financeAccount (hm : m.Lawful) {sender : Str} {args : List Val} {now : ℕ} :
    StateProg.Ends m expected (financeAccount args[0]?) (fun _ _ => True) s ↔
      PublicMethod.financeAccount.Contained now (m.load s) sender args := by
  unfold financeAccount PublicMethod.Contained
  split
  · rename_i account h0
    rw [h0, StateProg.ends_bind, setBalance, StateProg.ends_write, ends_reduceFromPool hm,
      hm.load_store_of_ne _ _ (pool_ne_getAccountBalanceKey account)]
    exact ⟨fun h _ _ => h, fun h => h account rfl⟩
  · rename_i hstr
    exact iff_of_true rfl fun account h0 => (hstr account h0).elim

end

/-! ### Every public method -/

theorem ends_ofProg {α : Type} (p : StateProg Str Str ContractError α) (Q : α → σ → Prop) :
    AsyncProg.Ends m expected (.ofProg p) Q s ↔ StateProg.Ends m expected p Q s := by
  rw [AsyncProg.Ends, AsyncProg.settle_ofProg]

/-- **A public method ends in an unexpected error exactly when it is not contained.** -/
theorem ends_contract (hm : m.Lawful) (x : PublicMethod) (now : ℕ) (sender : Str) (args : List Val) :
    AsyncProg.Ends m expected (x.file.contract now sender x.name args) (fun _ _ => True) s ↔
      x.Contained now (m.load s) sender args := by
  cases x with
  | reportEvent => exact ends_reportEvent
  | getCounter => exact ends_getCounter
  | fooBarTransfer => exact ends_fooBarTransfer
  | initBalance => exact iff_of_true ends_initBalance trivial
  | getMyBalance => exact ends_getMyBalance
  | transfer => exact (ends_ofProg _ _).trans ends_transfer
  | getBalance => exact (ends_ofProg _ _).trans ends_getBalance
  | financeAccount => exact (ends_ofProg _ _).trans (ends_financeAccount hm)
  | sendMessage => exact ends_sendMessage
  | getMyMessages => exact ends_getMyMessages

end

/-! ## Sets of transactions -/

namespace VirtualMachine

open StateCache HardCodedSmartContractProcessor

/-- Every marked key has a pair behind it. -/
def Encoded (c : StateCache) : Prop := ∀ k ∈ c.modifiedKeys, ∃ key, encodeMapKey key = k

theorem exists_decodeMapKey (key : StateCacheKey) : ∃ k, decodeMapKey (encodeMapKey key) = some k := by
  obtain ⟨contractAddress, key⟩ := key
  by_cases hcolon : ':' ∈ bs58EncodeRawAddress contractAddress
  · obtain ⟨k, hk⟩ := decodeMapKey_of_colon_mem hcolon key
    exact ⟨_, hk⟩
  · rw [encodeMapKey, decodeMapKey_append hcolon]
    cases contractAddress with
    | nil =>
      rw [bs58EncodeRawAddress_nil, bs58DecodeRawAddress_nil]
      exact ⟨_, rfl⟩
    | cons b rest =>
      rw [bs58DecodeRawAddress_encode]
      exact ⟨_, rfl⟩

theorem encoded_empty : Encoded .empty := nofun

theorem Encoded.set {c : StateCache} (h : Encoded c) (key : StateCacheKey) (value : Option Str) :
    Encoded (c.set key value) := by
  intro k hk
  rcases mem_modifiedKeys_set.1 hk with hk | ⟨rfl, -⟩
  · exact h k hk
  · exact ⟨key, rfl⟩

theorem Encoded.merge {c : StateCache} (h : Encoded c) (items : List (StateCacheKey × Option Str)) :
    Encoded (c.merge items) := by
  intro k hk
  rcases mem_modifiedKeys_merge hk with hk | ⟨item, -, he⟩
  · exact h k hk
  · exact ⟨item.1, he⟩

theorem Encoded.getModifiedKeys {c : StateCache} (h : Encoded c) : ∃ items, c.getModifiedKeys = some items := by
  obtain ⟨items, hitems, -⟩ := mapM_of_forall (l := c.modifiedKeys)
    (f := fun key => (decodeMapKey key).map fun k => (k, (c.cache.get key).join)) (fun k hk => by
      obtain ⟨key, rfl⟩ := h k hk
      obtain ⟨k', hk'⟩ := exists_decodeMapKey key
      exact ⟨_, by rw [hk']; rfl⟩)
  exact ⟨items, hitems⟩

theorem encoded_exec {stateStorage : KeyValues} {contractAddress : Bytes} {p : StateProg Str Str ContractError Unit}
    {c : StateCache} (h : Encoded c) : Encoded (p.exec (accessor stateStorage contractAddress) c).2 :=
  StateProg.exec_inv (fun _ w _ ht => ht.set _ w.2) h

/-- The code of the registered modules at a time of the clock. -/
def codeAt (files : JsMap Str RegistryFile) (now : ℕ) : ContractCode := processMethod (settled (registryOf now files))

section
variable (files : JsMap Str RegistryFile) (clock : ℕ → ℕ) (stateStorage : KeyValues)

/-- One turn of the loop, when the clock shows `clock n` at the transaction with the number `n`. -/
def processOneAt (s : ℕ × StateCache) (entry : TransactionEntry) : Except ContractError (Bool × (ℕ × StateCache)) :=
  (processOne (codeAt files (clock s.1)) stateStorage s.2 entry).map fun r => (r.1, s.1 + 1, r.2)

def processTransactionSetAt (orderedTransactions : List TransactionEntry) :
    Except ContractError (List TransactionReceipt × List (StateCacheKey × Option Str)) :=
  match processEach (processOneAt files clock stateStorage) (0, .empty) orderedTransactions with
  | .error err => .error err
  | .ok (transactionReceipts, _, stateCache) =>
    match stateCache.getModifiedKeys with
    | some stateDiff => .ok (transactionReceipts, stateDiff)
    | none => .error base58Error

/-- The loop as a transition system. -/
def stepAt (s : ℕ × StateCache) (entry : TransactionEntry) : Option (ℕ × StateCache) :=
  match processOneAt files clock stateStorage s entry with
  | .ok (_, s') => some s'
  | .error _ => none

/-- The transaction calls a public method of the registered contract it is addressed to. -/
structure Calls (entry : TransactionEntry) (x : PublicMethod) (args : List Val) : Prop where
  file : files.get (bs58EncodeRawAddress entry.transaction.header.contractAddress) = some x.file
  payload : parseCall entry.transaction.payload = .ok (x.name, args)

/-- The call of the transaction is contained, on what its contract reads in the state before it. -/
def ContainedCall (s : ℕ × StateCache) (entry : TransactionEntry) : Prop :=
  ∃ x args, Calls files entry x args ∧
    x.Contained (clock s.1) ((accessor stateStorage entry.transaction.header.contractAddress).load s.2)
      (bs58EncodeRawAddress entry.transaction.header.sender) args

/-- The contract does not refuse the transaction. -/
def Returns (s : ℕ × StateCache) (entry : TransactionEntry) : Prop :=
  (processTransaction (codeAt files (clock s.1)) stateStorage entry.request s.2.fork).1 = .ok ()

/-- One receipt for each transaction, in order: a failed one for what its contract refused. -/
def Reports : ℕ × StateCache → List TransactionEntry → List TransactionReceipt → Prop
  | _, [], receipts => receipts = []
  | _, _ :: _, [] => False
  | s, entry :: entries, receipt :: receipts => receipt.txHash = entry.txHash ∧
    (receipt.success = true ↔ Returns files clock stateStorage s entry) ∧
    ∃ s', stepAt files clock stateStorage s entry = some s' ∧ Reports s' entries receipts

variable {files clock stateStorage} {s : ℕ × StateCache} {entry : TransactionEntry}

theorem processTransactionSetAt_const (now : ℕ) (entries : List TransactionEntry) :
    processTransactionSetAt files (fun _ => now) stateStorage entries =
      processTransactionSet (codeAt files now) stateStorage entries := by
  have heach : ∀ (entries : List TransactionEntry) (s : ℕ × StateCache),
      processEach (processOneAt files (fun _ => now) stateStorage) s entries =
        (processEach (processOne (codeAt files now) stateStorage) s.2 entries).map fun r =>
          (r.1, s.1 + entries.length, r.2) := by
    intro entries
    induction entries with
    | nil => exact fun s => rfl
    | cons entry entries ih =>
      intro s
      rw [processEach, processEach, processOneAt]
      cases processOne (codeAt files now) stateStorage s.2 entry with
      | error err => rfl
      | ok r =>
        dsimp only [Except.map]
        rw [ih, List.length_cons, Nat.add_assoc, Nat.add_comm 1]
        cases processEach (processOne (codeAt files now) stateStorage) r.2 entries <;> rfl
  unfold processTransactionSetAt processTransactionSet
  rw [heach]
  cases processEach (processOne (codeAt files now) stateStorage) .empty entries <;> rfl

/-- What one turn does. -/
theorem processOneAt_cases (hc : Encoded s.2) (entry : TransactionEntry) :
    (∃ success c, processOneAt files clock stateStorage s entry = .ok (success, s.1 + 1, c) ∧ Encoded c ∧
      (success = true ↔ Returns files clock stateStorage s entry) ∧
      StateProg.Ends (accessor stateStorage entry.request.contractAddress) expected
        (codeAt files (clock s.1) entry.request) (fun _ _ => True) s.2.fork) ∨
    ∃ e, processOneAt files clock stateStorage s entry = .error e ∧
      ¬ StateProg.Ends (accessor stateStorage entry.request.contractAddress) expected
        (codeAt files (clock s.1) entry.request) (fun _ _ => True) s.2.fork := by
  unfold processOneAt Returns processOne StateProg.Ends processTransaction
  have hscope := @encoded_exec stateStorage entry.request.contractAddress (codeAt files (clock s.1) entry.request)
    s.2.fork nofun
  cases hexec : (codeAt files (clock s.1) entry.request).exec (accessor stateStorage entry.request.contractAddress)
      s.2.fork with
  | mk result scope =>
    rw [hexec] at hscope
    cases result with
    | ok a =>
      obtain ⟨items, hitems⟩ := hscope.getModifiedKeys
      dsimp only
      rw [hitems]
      exact .inl ⟨true, _, rfl, hc.merge items, iff_of_true rfl rfl, trivial⟩
    | error e =>
      dsimp only
      by_cases he : e.expected = true
      · rw [if_pos he]
        exact .inl ⟨false, _, rfl, hc, iff_of_false Bool.false_ne_true nofun, he⟩
      · rw [if_neg he]
        exact .inr ⟨e, rfl, he⟩

theorem load_fork (contractAddress : Bytes) (c : StateCache) :
    (accessor stateStorage contractAddress).load c.fork = (accessor stateStorage contractAddress).load c := rfl

theorem codeAt_eq {x : PublicMethod} {args : List Val} (h : Calls files entry x args) (now : ℕ) :
    codeAt files now entry.request =
      (x.file.contract now (bs58EncodeRawAddress entry.transaction.header.sender) x.name args).settle := by
  unfold codeAt
  rw [← settle_processMethod]
  exact congrArg _ (@processMethodAsync_eq files entry.request _ _ _ h.file h.payload now)

theorem containedCall_iff (h : ∃ x args, Calls files entry x args) : ContainedCall files clock stateStorage s entry ↔
    StateProg.Ends (accessor stateStorage entry.request.contractAddress) expected
      (codeAt files (clock s.1) entry.request) (fun _ _ => True) s.2.fork := by
  have hends : ∀ {x args}, Calls files entry x args → (StateProg.Ends (accessor stateStorage entry.request.contractAddress)
      expected (codeAt files (clock s.1) entry.request) (fun _ _ => True) s.2.fork ↔
      x.Contained (clock s.1) ((accessor stateStorage entry.transaction.header.contractAddress).load s.2)
        (bs58EncodeRawAddress entry.transaction.header.sender) args) := by
    intro x args hx
    rw [codeAt_eq hx, ← load_fork]
    exact ends_contract (lawful_accessor stateStorage entry.transaction.header.contractAddress) x (clock s.1) _ args
  constructor
  · rintro ⟨x, args, hx, hcontained⟩
    exact (hends hx).2 hcontained
  · intro he
    obtain ⟨x, args, hx⟩ := h
    exact ⟨x, args, hx, (hends hx).1 he⟩

theorem encoded_processEachAt : ∀ {entries : List TransactionEntry} {s s' : ℕ × StateCache}
    {receipts : List TransactionReceipt}, Encoded s.2 →
    processEach (processOneAt files clock stateStorage) s entries = .ok (receipts, s') → Encoded s'.2 := by
  intro entries
  induction entries with
  | nil =>
    intro s s' receipts hc h
    cases h
    exact hc
  | cons entry entries ih =>
    intro s s' receipts hc h
    rw [processEach] at h
    rcases @processOneAt_cases files clock stateStorage s hc entry with ⟨success, c, hone, hc', -⟩ | ⟨e, hone, -⟩
    · rw [hone] at h
      dsimp only at h
      split at h
      · cases h
      · rename_i heach
        cases h
        exact @ih (s.1 + 1, c) _ _ hc' heach
    · rw [hone] at h
      cases h

/-- **The loop goes through exactly when the call of every transaction is contained.** -/
theorem processEachAt_iff : ∀ {entries : List TransactionEntry} {s : ℕ × StateCache}, Encoded s.2 →
    (∀ entry ∈ entries, ∃ x args, Calls files entry x args) →
    ((∃ receipts s', processEach (processOneAt files clock stateStorage) s entries = .ok (receipts, s') ∧
        Reports files clock stateStorage s entries receipts) ↔
      Lts.Meets (stepAt files clock stateStorage) (ContainedCall files clock stateStorage) s entries) := by
  intro entries
  induction entries with
  | nil => exact fun _ _ => iff_of_true ⟨[], _, rfl, rfl⟩ trivial
  | cons entry entries ih =>
    intro s hc hcalls
    rw [List.forall_mem_cons] at hcalls
    rw [Lts.Meets, processEach, containedCall_iff hcalls.1]
    rcases @processOneAt_cases files clock stateStorage s hc entry with
      ⟨success, c, hone, hc', hsuccess, hends⟩ | ⟨e, hone, hends⟩
    · have hstep : stepAt files clock stateStorage s entry = some (s.1 + 1, c) := by rw [stepAt, hone]
      have hrest := @ih (s.1 + 1, c) hc' hcalls.2
      rw [hone, hstep]
      dsimp only
      constructor
      · rintro ⟨receipts, s', h, hreports⟩
        refine ⟨hends, fun t ht => ?_⟩
        cases ht
        refine hrest.1 ?_
        split at h
        · cases h
        · rename_i receipts' t' heach
          cases h
          obtain ⟨-, -, t, ht, hreports⟩ := hreports
          rw [hstep] at ht
          cases ht
          exact ⟨receipts', _, heach, hreports⟩
      · rintro ⟨-, h⟩
        obtain ⟨receipts, s', heach, hreports⟩ := hrest.2 (h _ rfl)
        rw [heach]
        exact ⟨_, _, rfl, rfl, hsuccess, _, hstep, hreports⟩
    · rw [hone]
      refine iff_of_false (fun h => ?_) fun h => hends h.1
      obtain ⟨receipts, s', h, -⟩ := h
      cases h

/-- **A set of transactions is processed, with a receipt for each, exactly when the call of every transaction is
contained in the state before it.** -/
theorem processTransactionSetAt_iff {entries : List TransactionEntry}
    (hcalls : ∀ entry ∈ entries, ∃ x args, Calls files entry x args) :
    (∃ receipts stateDiff, processTransactionSetAt files clock stateStorage entries = .ok (receipts, stateDiff) ∧
        Reports files clock stateStorage (0, .empty) entries receipts) ↔
      Lts.Meets (stepAt files clock stateStorage) (ContainedCall files clock stateStorage) (0, .empty) entries := by
  rw [← processEachAt_iff encoded_empty hcalls, processTransactionSetAt]
  constructor
  · rintro ⟨receipts, stateDiff, h, hreports⟩
    split at h
    · cases h
    rename_i receipts' n c heach
    split at h
    · cases h
      exact ⟨receipts, (n, c), heach, hreports⟩
    · cases h
  · rintro ⟨receipts, ⟨n, c⟩, heach, hreports⟩
    obtain ⟨items, hitems⟩ := (encoded_processEachAt encoded_empty heach).getModifiedKeys
    rw [heach]
    dsimp only at hitems ⊢
    rw [hitems]
    exact ⟨receipts, items, rfl, hreports⟩

end

open KinAtnSmartContract (sampleContract sampleEntry)

/-- A balance is set, and a transfer of nothing is refused. -/
def initAndTransfer : List TransactionEntry :=
  [sampleEntry "\x7b\"method\":\"initBalance\",\"args\":[\"alice\",5]\x7d",
    sampleEntry "\x7b\"method\":\"transfer\",\"args\":[\"alice\",0]\x7d"]

/-- The payload calls the method, with arguments that pass the test. -/
def callsWith (x : PublicMethod) (test : List Val → Bool) (payload : Str) : Bool :=
  match parseCall payload with
  | .ok (name, args) => name = x.name && test args
  | .error _ => false

theorem calls_of_callsWith {x : PublicMethod} {test : List Val → Bool} {entry : TransactionEntry}
    (hcontract : entry.transaction.header.contractAddress = sampleContract)
    (h : callsWith x test entry.transaction.payload = true) :
    ∃ args, Calls (sampleFiles x.file) entry x args ∧ test args = true := by
  unfold callsWith at h
  split at h
  · rename_i name args hp
    simp only [Bool.and_eq_true, decide_eq_true_eq] at h
    obtain ⟨rfl, htest⟩ := h
    refine ⟨args, ⟨?_, hp⟩, htest⟩
    rw [hcontract]
    exact JsMap.get_set_self _ _ _
  · cases h

theorem processTransactionSetAt_initAndTransfer : ∃ receipts stateDiff,
    processTransactionSetAt (sampleFiles .fooBar) id (fun _ => none) initAndTransfer = .ok (receipts, stateDiff) ∧
    Reports (sampleFiles .fooBar) id (fun _ => none) (0, .empty) initAndTransfer receipts := by
  obtain ⟨args, hinit, -⟩ := @calls_of_callsWith .initBalance (fun _ => true)
    (sampleEntry "\x7b\"method\":\"initBalance\",\"args\":[\"alice\",5]\x7d") rfl (by decide +kernel)
  obtain ⟨args', htransfer, hzero⟩ := @calls_of_callsWith .fooBarTransfer (fun args => isExactlyZero args[1]?)
    (sampleEntry "\x7b\"method\":\"transfer\",\"args\":[\"alice\",0]\x7d") rfl (by decide +kernel)
  refine (processTransactionSetAt_iff ?_).2 ?_
  · exact List.forall_mem_cons.2 ⟨⟨_, _, hinit⟩, List.forall_mem_singleton.2 ⟨_, _, htransfer⟩⟩
  · refine ⟨⟨_, _, hinit, trivial⟩, fun s _ => ⟨⟨_, _, htransfer, fun h => ?_⟩, fun _ _ => trivial⟩⟩
    rw [hzero] at h
    cases h

/-- An empty message. -/
def emptyMessage : TransactionEntry := sampleEntry "\x7b\"method\":\"sendMessage\",\"args\":[\"bob\",\"\",0]\x7d"

/-- **An empty message throws away the whole set.** -/
theorem emptyMessage_aborts : (∃ args, Calls (sampleFiles .textMessage) emptyMessage .sendMessage args) ∧
    ∃ e, processTransactionSetAt (sampleFiles .textMessage) id (fun _ => none) [emptyMessage] = .error e ∧
      e.message = "Message should not be empty".toList := by
  obtain ⟨args, hcalls, -⟩ := @calls_of_callsWith .sendMessage (fun _ => true) emptyMessage rfl (by decide +kernel)
  refine ⟨⟨args, hcalls⟩, ?_⟩
  have hmessage : (match processTransactionSetAt (sampleFiles .textMessage) id (fun _ => none) [emptyMessage] with
      | .ok _ => false
      | .error e => e.message = "Message should not be empty".toList) = true := by
    decide +kernel
  split at hmessage
  · cases hmessage
  · rename_i e he
    exact ⟨e, he, of_decide_eq_true hmessage⟩

end VirtualMachine
end Orbs
