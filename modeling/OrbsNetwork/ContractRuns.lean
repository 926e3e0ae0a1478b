import OrbsNetwork.ExpectedErrors
/-!
# ContractRuns — what a set of transactions makes of one contract's keys

A contract reads and writes under its own address only, so its keys change by the successful transactions that are
addressed to it and by nothing else.  `refines` carries a relation between the texts under these keys and a value that
says what they mean over a whole set: it has to hold after each successful call if it held before.

`Leaves p Q s` says what holds of the keys if the call `p` returns, with a rule for each piece that the methods are made of.
-/
namespace Orbs
namespace ContractRuns

open Js VirtualMachine
open StateProg (Machine)

/-- The keys of one contract. -/
abbrev Cells := Str → Option Str

def cells : Machine Cells Str Str where
  load s key := s key
  store s key value := Function.update s key value

def held (s : KeyValues) (contract : Bytes) : Cells := fun key => s { contractAddress := contract, key }

section
variable {α : Type} {contract : Bytes}

theorem held_store (s : KeyValues) (key : Str) (value : Option Str) :
    held ((plain contract).store s key value) contract = cells.store (held s contract) key value := by
  funext k
  change Function.update s _ value _ = Function.update (held s contract) key value k
  by_cases hk : k = key
  · rw [hk, Function.update_self, Function.update_self]
  · rw [Function.update_of_ne hk, Function.update_of_ne fun he => hk (StateCacheKey.mk.inj he).2]
    rfl

/-- A program sees no keys but those of its contract. -/
theorem exec_plain : ∀ (p : StateProg Str Str ContractError α) (s : KeyValues),
    (p.exec (plain contract) s).1 = (p.exec cells (held s contract)).1 ∧
      held (p.exec (plain contract) s).2 contract = (p.exec cells (held s contract)).2 := by
  intro p
  induction p with
  | pure a => exact fun s => ⟨rfl, rfl⟩
  | throw e => exact fun s => ⟨rfl, rfl⟩
  | load k next ih => exact fun s => ih _ s
  | store k v next ih =>
    intro s
    rw [StateProg.exec, StateProg.exec, ← held_store]
    exact ih _

/-- **A program changes no keys but those of its contract.** -/
theorem held_exec_of_ne {other : Bytes} (h : other ≠ contract) (p : StateProg Str Str ContractError α) (s : KeyValues) :
    held (p.exec (plain other) s).2 contract = held s contract := by
  refine StateProg.exec_inv (I := fun t => held t contract = held s contract) (fun t w _ ht => ?_) rfl
  rw [← ht]
  funext key
  exact Function.update_of_ne (fun he => h (StateCacheKey.mk.inj he).1.symm) _ _

end

/-- The transactions that have a receipt of success. -/
def succeeded (entries : List TransactionEntry) (receipts : List TransactionReceipt) : List TransactionEntry :=
  ((entries.zip receipts).filter fun p => p.2.success).map Prod.fst

/-- Those of them that are addressed to the contract. -/
def succeededAt (contract : Bytes) (entries : List TransactionEntry) (receipts : List TransactionReceipt) :
    List TransactionEntry :=
  (succeeded entries receipts).filter fun entry => entry.transaction.header.contractAddress = contract

theorem succeededAt_cons (contract : Bytes) (entry : TransactionEntry) (entries : List TransactionEntry)
    (receipt : TransactionReceipt) (receipts : List TransactionReceipt) :
    succeededAt contract (entry :: entries) (receipt :: receipts) =
      (if receipt.success = true ∧ entry.transaction.header.contractAddress = contract then [entry] else []) ++
        succeededAt contract entries receipts := by
  unfold succeededAt succeeded
  rw [List.zip_cons_cons, List.filter_cons]
  cases receipt.success with
  | false => simp
  | true =>
    rw [if_pos rfl, List.map_cons, List.filter_cons]
    by_cases h : entry.transaction.header.contractAddress = contract <;> simp [h]

section
variable {α : Type} {contract : Bytes} {code : ContractCode} {R : Cells → α → Prop} {apply : α → TransactionEntry → α}

/-- The relation holds after a successful call, with the value that `apply` makes. -/
def Preserves (contract : Bytes) (code : ContractCode) (R : Cells → α → Prop) (apply : α → TransactionEntry → α)
    (entry : TransactionEntry) : Prop :=
  entry.transaction.header.contractAddress = contract → ∀ s t a, R s a →
    (code entry.request).exec cells s = (.ok (), t) → R t (apply a entry)

theorem refines_execute {s s' : KeyValues} {a : α} {entry : TransactionEntry} {success : Bool}
    (hstep : Preserves contract code R apply entry) (hR : R (held s contract) a)
    (h : execute plain code s entry = .ok (success, s')) :
    R (held s' contract) (if success = true ∧ entry.transaction.header.contractAddress = contract then apply a entry
      else a) := by
  rw [execute] at h
  cases hx : (code entry.request).exec (plain entry.request.contractAddress) s with
  | mk r t =>
  rw [hx] at h
  cases r with
  | error err =>
    dsimp only at h
    split_ifs at h
    cases h
    exact hR
  | ok u =>
    cases h
    by_cases hc : entry.transaction.header.contractAddress = contract
    · rw [if_pos ⟨rfl, hc⟩]
      obtain ⟨h1, h2⟩ := @exec_plain _ contract (code entry.request) s
      rw [show entry.request.contractAddress = contract from hc] at hx
      rw [hx] at h1 h2
      exact hstep hc _ _ a hR (Prod.ext h1.symm h2.symm)
    · rw [if_neg fun he => hc he.2]
      have := held_exec_of_ne hc (code entry.request) s
      rw [show entry.transaction.header.contractAddress = entry.request.contractAddress from rfl, hx] at this
      exact this ▸ hR

/-- **The relation over the transactions one after another.** -/
theorem refines_sequential {entries : List TransactionEntry} (hstep : ∀ entry ∈ entries, Preserves contract code R apply entry) :
    ∀ {s s' : KeyValues} {receipts : List TransactionReceipt} {a : α}, R (held s contract) a →
      sequential plain code s entries = .ok (receipts, s') →
      R (held s' contract) ((succeededAt contract entries receipts).foldl apply a) := by
  induction entries with
  | nil =>
    intro s s' receipts a hR h
    cases h
    exact hR
  | cons entry entries ih =>
    intro s s' receipts a hR h
    rw [sequential, processEach] at h
    split at h
    · cases h
    rename_i success t ht
    split at h
    · cases h
    rename_i rest _ hrest
    cases h
    have hstep' := fun e he => hstep e (List.mem_cons_of_mem _ he)
    have := ih hstep' (refines_execute (hstep entry List.mem_cons_self) hR ht) hrest
    rw [succeededAt_cons, List.foldl_append]
    by_cases hc : success = true ∧ entry.transaction.header.contractAddress = contract
    · rw [if_pos hc] at this ⊢
      exact this
    · rw [if_neg hc] at this ⊢
      exact this

/-- **The relation over a set of transactions**, which stores strings under keys that survive the cache. -/
theorem refines {stateStorage : KeyValues} {entries : List TransactionEntry} {receipts : List TransactionReceipt}
    {stateDiff : List (StateCacheKey × Option Str)} {a : α}
    (hstep : ∀ entry ∈ entries, Preserves contract code R apply entry) (hR : R (held stateStorage contract) a)
    (hw : AllWithin plain strings code stateStorage entries)
    (h : processTransactionSet code stateStorage entries = .ok (receipts, stateDiff)) :
    R (held (applyStateDiff stateStorage stateDiff) contract) ((succeededAt contract entries receipts).foldl apply a) :=
  refines_sequential hstep hR ((processTransactionSet_refines hw).1 receipts stateDiff h).2

end

instance (code : ContractCode) (s : KeyValues) (entry : TransactionEntry) :
    Decidable (strings.Admits plain code s entry) :=
  inferInstanceAs (Decidable (StateProg.Within (fun _ => StateCache.Recovered _)
    (fun _ _ => StateCache.Recovered _ ∧ _ = true) _ _ _))

instance (code : ContractCode) (s : KeyValues) (entries : List TransactionEntry) :
    Decidable (AllWithin plain strings code s entries) :=
  inferInstanceAs (Decidable (Lts.Meets _ _ _ _))

/-! ## What a call leaves -/

open BaseSmartContract HardCodedSmartContractProcessor
open AsyncProg (read write ofExcept)

/-- If the program returns, then with a value and keys that `Q` holds of. -/
def Leaves {α : Type} (p : Prog α) (Q : α → Cells → Prop) (s : Cells) : Prop := p.Ends cells (fun _ => True) Q s

section
variable {α β : Type} {s : Cells}

theorem leaves_iff {p : Prog α} {Q : α → Cells → Prop} :
    Leaves p Q s ↔ ∀ a t, p.settle.exec cells s = (.ok a, t) → Q a t := by
  unfold Leaves AsyncProg.Ends StateProg.Ends
  cases p.settle.exec cells s with
  | mk r t =>
    cases r with
    | ok a =>
      refine ⟨fun h a' t' he => ?_, fun h => h a t rfl⟩
      cases he
      exact h
    | error e => exact iff_of_true trivial fun a t' he => by cases he

theorem leaves_bind {p : Prog α} {f : α → Prog β} {Q : β → Cells → Prop} :
    Leaves (p >>= f) Q s ↔ Leaves p (fun a t => Leaves (f a) Q t) s :=
  AsyncProg.ends_bind _ _ _ _ _ _

theorem leaves_ofExcept {x : Except ContractError α} {Q : α → Cells → Prop} :
    Leaves (ofExcept x) Q s ↔ ∀ a, x = .ok a → Q a s := by
  cases x with
  | ok a => exact ⟨fun h _ he => by cases he; exact h, fun h => h a rfl⟩
  | error e => exact iff_of_true trivial nofun

theorem leaves_read {key : Str} {f : Option Str → Prog β} {Q : β → Cells → Prop} :
    Leaves (read key >>= f) Q s ↔ Leaves (f (s key)) Q s :=
  leaves_bind

theorem leaves_getter {otherwise : Val} {key : Except ContractError Str} {Q : Val → Cells → Prop} :
    Leaves (ofExcept key >>= fun key => read key >>= fun value => ofExcept (parseOr otherwise value)) Q s ↔
      ∀ k v, key = .ok k → parseOr otherwise (s k) = .ok v → Q v s := by
  rw [leaves_bind, leaves_ofExcept]
  refine forall_congr' fun k => ⟨fun h v hk hv => ?_, fun h hk => ?_⟩
  · exact leaves_ofExcept.1 (leaves_read.1 (h hk)) v hv
  · exact leaves_read.2 (leaves_ofExcept.2 fun v => h v hk)

theorem leaves_setter {key : Except ContractError Str} {value : Option Str} {Q : Unit → Cells → Prop} :
    Leaves (ofExcept key >>= fun key => write key value) Q s ↔ ∀ k, key = .ok k → Q () (Function.update s k value) := by
  rw [leaves_bind, leaves_ofExcept]
  rfl

/-- What a getter returns is not kept. -/
theorem leaves_discard {p : Prog α} {Q : Unit → Cells → Prop} (h : Leaves p (fun _ t => Q () t) s) :
    Leaves (p >>= fun _ => pure ()) Q s :=
  leaves_bind.2 h

theorem leaves_inherited {name : Str} {args : List Val} {Q : Unit → Cells → Prop} (h : Q () s) :
    Leaves (inherited name args) Q s := by
  unfold inherited
  split
  · exact h
  split
  · exact leaves_discard (leaves_ofExcept.2 fun _ _ => h)
  · trivial

theorem leaves_callMethod {methods : List (Str × (Str → List Val → Prog Unit))} {sender name : Str} {args : List Val}
    {Q : Unit → Cells → Prop} (hmethods : ∀ p ∈ methods, p.1 = name → Leaves (p.2 sender args) Q s)
    (h : name ∉ methods.map Prod.fst → Q () s) : Leaves (callMethod methods sender name args) Q s := by
  unfold callMethod
  split
  · rename_i p hp
    exact hmethods p (List.mem_of_find?_eq_some hp) (by simpa using List.find?_some hp)
  · rename_i hp
    refine leaves_inherited (h fun hm => ?_)
    obtain ⟨p, hmem, hname⟩ := List.mem_map.1 hm
    exact List.find?_eq_none.1 hp p hmem (by simpa using hname)

end

/-- **What the calls of a registered module leave is what the transactions to it preserve.** -/
theorem preserves_of_leaves {α : Type} {contract : Bytes} {R : Cells → α → Prop} {apply : α → TransactionEntry → α}
    {files : JsMap Str RegistryFile} {file : RegistryFile} {now : ℕ} {entry : TransactionEntry}
    (hfile : files.get (bs58EncodeRawAddress contract) = some file)
    (h : ∀ name args s a, parseCall entry.transaction.payload = .ok (name, args) → R s a →
      Leaves (file.contract now (bs58EncodeRawAddress entry.transaction.header.sender) name args)
        (fun _ t => R t (apply a entry)) s) :
    Preserves contract (codeAt files now) R apply entry := by
  rintro rfl s t a hR hx
  unfold codeAt at hx
  rw [← settle_processMethod] at hx
  cases hcall : parseCall entry.transaction.payload with
  | error e =>
    unfold processMethodAsync registryOf at hx
    rw [JsMap.get_mapValues, show files.get (bs58EncodeRawAddress entry.request.contractAddress) = some file from hfile,
      show parseCall entry.request.payload = .error e from hcall] at hx
    cases hx
  | ok r =>
    obtain ⟨name, args⟩ := r
    rw [@processMethodAsync_eq files entry.request _ _ _ hfile hcall now] at hx
    exact leaves_iff.1 (h name args s a hcall hR) () t hx

end ContractRuns
end Orbs
