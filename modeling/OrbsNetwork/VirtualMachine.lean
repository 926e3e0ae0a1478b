import OrbsNetwork.Address
import OrbsNetwork.Lib.JsMap
import OrbsNetwork.Lib.Lts
import OrbsNetwork.Lib.Split
import OrbsNetwork.Lib.StateProg
/-!
# VirtualMachine — batches of transactions over a state cache

The virtual machine runs the transactions of a batch on a cache of its own.  Each runs on a fork of that cache, which is
merged back when it succeeds and dropped when it fails with an expected error; what the cache does not hold is read from
the state storage, and the keys modified in the end are the state difference of the batch.

A contract is a program that reads and writes strings through its state accessor.  Where every key it uses survives the
text form that the cache gives it, the batch does what the transactions do one after another on a plain key-value state
(`processTransactionSet_refines`).
-/
namespace Orbs

open Js

/-! ## StateCache -/

structure StateCacheKey where
  contractAddress : Bytes
  key : Str
  deriving DecidableEq

/-- `none` in the cache is the value `undefined`. -/
structure StateCache where
  cache : JsMap Str (Option Str)
  modifiedKeys : List Str

namespace StateCache

def empty : StateCache := ⟨.empty, []⟩

def encodeMapKey (key : StateCacheKey) : Str := bs58EncodeRawAddress key.contractAddress ++ ':' :: key.key

/-- `none` when the base58 text throws.  Every key of a cache has a colon. -/
def decodeMapKey (encodedKey : Str) : Option StateCacheKey :=
  match Split.splitAt ':' encodedKey with
  | address :: key :: _ => (bs58DecodeRawAddress address).map fun contractAddress => { contractAddress, key }
  | _ => none

def get (c : StateCache) (key : StateCacheKey) : Option Str := (c.cache.get (encodeMapKey key)).join

/-- `Set.prototype.add`. -/
def addKey (l : List Str) (k : Str) : List Str := if k ∈ l then l else l ++ [k]

def set (c : StateCache) (key : StateCacheKey) (value : Option Str) (markIfModified : Bool := true) : StateCache where
  cache := c.cache.set (encodeMapKey key) value
  modifiedKeys :=
    let oldValue := c.get key
    if markIfModified ∧ value ≠ oldValue then addKey c.modifiedKeys (encodeMapKey key) else c.modifiedKeys

def getModifiedKeys (c : StateCache) : Option (List (StateCacheKey × Option Str)) :=
  c.modifiedKeys.mapM fun key => (decodeMapKey key).map fun k => (k, (c.cache.get key).join)

def fork (c : StateCache) : StateCache := ⟨c.cache, []⟩

def merge (c : StateCache) (modifiedKeys : List (StateCacheKey × Option Str)) : StateCache :=
  modifiedKeys.foldl (fun c item => c.set item.1 item.2) c

/-- A key that comes back from its text form. -/
def Recovered (key : StateCacheKey) : Prop := decodeMapKey (encodeMapKey key) = some key

instance (key : StateCacheKey) : Decidable (Recovered key) := inferInstanceAs (Decidable (_ = _))

theorem Recovered.inj {k l : StateCacheKey} (hk : Recovered k) (hl : Recovered l) (h : encodeMapKey k = encodeMapKey l) :
    k = l := by
  have := hk.symm.trans ((congrArg decodeMapKey h).trans hl)
  exact Option.some.inj this

theorem mem_addKey {l : List Str} {k k' : Str} : k' ∈ addKey l k ↔ k' ∈ l ∨ k' = k := by
  unfold addKey
  split_ifs with h
  · exact ⟨.inl, fun h' => h'.elim id (by rintro rfl; exact h)⟩
  · simp

theorem get_set (c : StateCache) (key key' : StateCacheKey) (value : Option Str) :
    (c.set key value).get key' = if encodeMapKey key' = encodeMapKey key then value else c.get key' := by
  rw [get, set, JsMap.get_set]
  split_ifs <;> rfl

theorem mem_modifiedKeys_set {c : StateCache} {key : StateCacheKey} {value : Option Str} {k : Str} :
    k ∈ (c.set key value).modifiedKeys ↔ k ∈ c.modifiedKeys ∨ k = encodeMapKey key ∧ value ≠ c.get key := by
  simp only [set, true_and]
  split_ifs with h
  · simp [mem_addKey, h]
  · simp [h]

theorem cache_merge (items : List (StateCacheKey × Option Str)) (c : StateCache) :
    (c.merge items).cache = items.foldl (fun m item => m.set (encodeMapKey item.1) item.2) c.cache := by
  induction items generalizing c with
  | nil => rfl
  | cons item items ih => exact ih _

theorem mem_modifiedKeys_merge {items : List (StateCacheKey × Option Str)} {c : StateCache} {k : Str}
    (h : k ∈ (c.merge items).modifiedKeys) : k ∈ c.modifiedKeys ∨ ∃ item ∈ items, encodeMapKey item.1 = k := by
  induction items generalizing c with
  | nil => exact .inl h
  | cons item items ih =>
    rcases ih h with h | ⟨i, hi, hk⟩
    · rcases mem_modifiedKeys_set.1 h with h | ⟨rfl, -⟩
      · exact .inl h
      · exact .inr ⟨item, List.mem_cons_self, rfl⟩
    · exact .inr ⟨i, List.mem_cons_of_mem _ hi, hk⟩

/-- In a cache that was filled from empty, every value is marked. -/
def Marked (c : StateCache) : Prop := ∀ k v, c.cache.get k = some (some v) → k ∈ c.modifiedKeys

theorem marked_set {c : StateCache} (h : Marked c) (key : StateCacheKey) (value : Option Str) :
    Marked (c.set key value) := by
  intro k v hk
  rw [mem_modifiedKeys_set]
  rw [set, JsMap.get_set] at hk
  split_ifs at hk with heq
  · cases hk
    by_cases hold : c.get key = some v
    · rw [get, Option.join_eq_some_iff] at hold
      exact .inl (heq ▸ h _ _ hold)
    · exact .inr ⟨heq, fun hv => hold hv.symm⟩
  · exact .inl (h k v hk)

theorem marked_merge {c : StateCache} (h : Marked c) (items : List (StateCacheKey × Option Str)) :
    Marked (c.merge items) := by
  induction items generalizing c with
  | nil => exact h
  | cons item items ih => exact ih (marked_set h _ _)

end StateCache

/-! ## VirtualMachine -/

/-- What a contract throws: `expected` is set on a validation error. -/
structure ContractError where
  expected : Bool
  message : Str
  deriving DecidableEq

structure CallRequest where
  sender : Bytes
  payload : Str
  contractAddress : Bytes

def TransactionEntry.request (entry : TransactionEntry) : CallRequest where
  sender := entry.transaction.header.sender
  payload := entry.transaction.payload
  contractAddress := entry.transaction.header.contractAddress

/-- The code that answers a request, through the state accessor of the contract it is addressed to. -/
abbrev ContractCode := CallRequest → StateProg Str Str ContractError Unit

abbrev KeyValues := StateCacheKey → Option Str

namespace VirtualMachine

open StateCache StateProg

/-- `ContractStateReadWriteAccessor`. -/
def accessor (stateStorage : KeyValues) (contractAddress : Bytes) : Machine StateCache Str Str where
  load c key := (c.get { contractAddress, key }).or (stateStorage { contractAddress, key })
  store c key value := c.set { contractAddress, key } value

theorem encodeMapKey_key_inj {contractAddress : Bytes} {key key' : Str}
    (h : encodeMapKey { contractAddress, key } = encodeMapKey { contractAddress, key := key' }) : key = key' :=
  (List.cons.inj (List.append_cancel_left h)).2

theorem lawful_accessor (stateStorage : KeyValues) (contractAddress : Bytes) :
    (accessor stateStorage contractAddress).Lawful where
  load_store_self c k v := by
    simp only [accessor, get_set, if_true, Option.some_or]
  load_store_of_ne c v k k' hne := by
    simp only [accessor, get_set]
    rw [if_neg fun h => hne (encodeMapKey_key_inj h)]

def processTransaction (code : ContractCode) (stateStorage : KeyValues) (request : CallRequest) (c : StateCache) :
    Except ContractError Unit × StateCache :=
  (code request).exec (accessor stateStorage request.contractAddress) c

def base58Error : ContractError := { expected := false, message := "Non-base58 character".toList }

/-- One turn of the loop: whether the transaction succeeded, and the cache after it. -/
def processOne (code : ContractCode) (stateStorage : KeyValues) (stateCache : StateCache) (entry : TransactionEntry) :
    Except ContractError (Bool × StateCache) :=
  match processTransaction code stateStorage entry.request stateCache.fork with
  | (.ok _, transactionScopeStateCache) =>
    match transactionScopeStateCache.getModifiedKeys with
    | some modifiedKeys => .ok (true, stateCache.merge modifiedKeys)
    | none => .error base58Error
  | (.error err, _) => if err.expected then .ok (false, stateCache) else .error err

def processEach {σ : Type} (one : σ → TransactionEntry → Except ContractError (Bool × σ)) :
    σ → List TransactionEntry → Except ContractError (List TransactionReceipt × σ)
  | s, [] => .ok ([], s)
  | s, entry :: entries =>
    match one s entry with
    | .error err => .error err
    | .ok (success, s) =>
      match processEach one s entries with
      | .error err => .error err
      | .ok (receipts, s) => .ok ({ txHash := entry.txHash, success } :: receipts, s)

def processTransactionSet (code : ContractCode) (stateStorage : KeyValues) (orderedTransactions : List TransactionEntry) :
    Except ContractError (List TransactionReceipt × List (StateCacheKey × Option Str)) :=
  match processEach (processOne code stateStorage) .empty orderedTransactions with
  | .error err => .error err
  | .ok (transactionReceipts, stateCache) =>
    match stateCache.getModifiedKeys with
    | some stateDiff => .ok (transactionReceipts, stateDiff)
    | none => .error base58Error

def applyStateDiff (stateStorage : KeyValues) (stateDiff : List (StateCacheKey × Option Str)) : KeyValues :=
  stateDiff.foldl (fun s d => Function.update s d.1 d.2) stateStorage

def processBatches (code : ContractCode) : KeyValues → List (List TransactionEntry) →
    Except ContractError (List TransactionReceipt × KeyValues)
  | stateStorage, [] => .ok ([], stateStorage)
  | stateStorage, batch :: batches =>
    match processTransactionSet code stateStorage batch with
    | .error err => .error err
    | .ok (receipts, stateDiff) =>
      match processBatches code (applyStateDiff stateStorage stateDiff) batches with
      | .error err => .error err
      | .ok (receipts', stateStorage) => .ok (receipts ++ receipts', stateStorage)

/-! ## One at a time -/

def plain (contractAddress : Bytes) : Machine KeyValues Str Str where
  load s key := s { contractAddress, key }
  store s key value := Function.update s { contractAddress, key } value

/-- The same, but `undefined` uncovers what `stateStorage` holds. -/
def overlay (stateStorage : KeyValues) (contractAddress : Bytes) : Machine KeyValues Str Str where
  load s key := s { contractAddress, key }
  store s key value :=
    Function.update s { contractAddress, key } (value.or (stateStorage { contractAddress, key }))

/-- One transaction on a state: its writes are kept when it succeeds and dropped when it fails as expected. -/
def execute (machine : Bytes → Machine KeyValues Str Str) (code : ContractCode) (s : KeyValues)
    (entry : TransactionEntry) : Except ContractError (Bool × KeyValues) :=
  match (code entry.request).exec (machine entry.request.contractAddress) s with
  | (.ok _, s') => .ok (true, s')
  | (.error err, _) => if err.expected then .ok (false, s) else .error err

def sequential (machine : Bytes → Machine KeyValues Str Str) (code : ContractCode) (s : KeyValues)
    (entries : List TransactionEntry) : Except ContractError (List TransactionReceipt × KeyValues) :=
  processEach (execute machine code) s entries

/-- The keys and values that contracts use.  The text form of a key tells the keys in `reads` apart, and loses nothing
of a key that is written. -/
structure Usage where
  reads : StateCacheKey → Prop
  writes : StateCacheKey → Option Str → Prop
  injective : ∀ {k l}, reads k → reads l → encodeMapKey k = encodeMapKey l → k = l
  written : ∀ {k v}, writes k v → reads k ∧ Recovered k

/-- The transaction, run on `s`, keeps to the keys and values of `usage`. -/
def Usage.Admits (usage : Usage) (machine : Bytes → Machine KeyValues Str Str) (code : ContractCode) (s : KeyValues)
    (entry : TransactionEntry) : Prop :=
  (code entry.request).Within (fun key => usage.reads { contractAddress := entry.request.contractAddress, key })
    (fun key value => usage.writes { contractAddress := entry.request.contractAddress, key } value)
    (machine entry.request.contractAddress) s

/-- The sequential run as a transition system. -/
def transition (machine : Bytes → Machine KeyValues Str Str) (code : ContractCode) (s : KeyValues)
    (entry : TransactionEntry) : Option KeyValues :=
  match execute machine code s entry with
  | .ok (_, s') => some s'
  | .error _ => none

/-- Every transaction of the sequential run keeps to the keys and values of `usage`. -/
def AllWithin (machine : Bytes → Machine KeyValues Str Str) (usage : Usage) (code : ContractCode) (s : KeyValues)
    (entries : List TransactionEntry) : Prop :=
  Lts.Meets (transition machine code) (usage.Admits machine code) s entries

/-! ## The cache over the storage -/

section
variable {stateStorage : KeyValues} {usage : Usage}

/-- The cache over the storage reads as the state `s`, and was written within `usage` only. -/
structure Views (stateStorage : KeyValues) (usage : Usage) (c : StateCache) (s : KeyValues) : Prop where
  view : ∀ key, usage.reads key → (c.get key).or (stateStorage key) = s key
  fresh : ∀ key, ¬ (usage.reads key ∧ Recovered key) → s key = stateStorage key
  written : ∀ k ∈ c.modifiedKeys, ∃ key value, usage.writes key value ∧ encodeMapKey key = k ∧
    c.cache.get k = some value

/-- A fork whose unmodified keys are those of its parent. -/
def Forked (c scope : StateCache) : Prop :=
  ∀ k ∉ scope.modifiedKeys, (scope.cache.get k).join = (c.cache.get k).join

theorem views_empty : Views stateStorage usage .empty stateStorage :=
  ⟨fun _ _ => rfl, fun _ _ => rfl, nofun⟩

theorem Views.set {c : StateCache} {s : KeyValues} (h : Views stateStorage usage c s) {key : StateCacheKey}
    {value : Option Str} (hw : usage.writes key value) :
    Views stateStorage usage (c.set key value) (Function.update s key (value.or (stateStorage key))) := by
  have hk := usage.written hw
  refine ⟨fun k hr => ?_, fun k hr => ?_, fun k hm => ?_⟩
  · rw [get_set, Function.update_apply]
    by_cases heq : k = key
    · subst heq
      rw [if_pos rfl, if_pos rfl]
    · rw [if_neg fun he => heq (usage.injective hr hk.1 he), if_neg heq]
      exact h.view k hr
  · have hne : k ≠ key := by
      rintro rfl
      exact hr hk
    rw [Function.update_of_ne hne]
    exact h.fresh k hr
  · rw [StateCache.set, JsMap.get_set]
    by_cases heq : k = encodeMapKey key
    · rw [if_pos heq]
      exact ⟨key, value, hw, heq.symm, rfl⟩
    · rw [if_neg heq]
      rcases mem_modifiedKeys_set.1 hm with hm | ⟨he, -⟩
      · exact h.written k hm
      · exact absurd he heq

theorem Forked.set {c scope : StateCache} (h : Forked c scope) (key : StateCacheKey) (value : Option Str) :
    Forked c (scope.set key value) := by
  intro k hk
  rw [mem_modifiedKeys_set, not_or, not_and, not_not] at hk
  rw [StateCache.set, JsMap.get_set]
  split_ifs with heq
  · subst heq
    rw [Option.join_some, hk.2 rfl]
    exact h _ hk.1
  · exact h k hk.1

theorem mapM_of_forall {α β : Type} {f : α → Option β} {l : List α} (h : ∀ a ∈ l, ∃ b, f a = some b) :
    ∃ bs, l.mapM f = some bs ∧ (∀ b ∈ bs, ∃ a ∈ l, f a = some b) ∧ ∀ a ∈ l, ∃ b ∈ bs, f a = some b := by
  induction l with
  | nil => exact ⟨[], rfl, nofun, nofun⟩
  | cons a l ih =>
    obtain ⟨b, hb⟩ := h a List.mem_cons_self
    obtain ⟨bs, hbs, hof, hto⟩ := ih fun a ha => h a (List.mem_cons_of_mem _ ha)
    refine ⟨b :: bs, by rw [List.mapM_cons, hb, hbs]; rfl, fun c hc => ?_, fun c hc => ?_⟩
    · rcases List.mem_cons.1 hc with rfl | hc
      · exact ⟨a, List.mem_cons_self, hb⟩
      · obtain ⟨d, hd, hf⟩ := hof c hc
        exact ⟨d, List.mem_cons_of_mem _ hd, hf⟩
    · rcases List.mem_cons.1 hc with rfl | hc
      · exact ⟨b, List.mem_cons_self, hb⟩
      · obtain ⟨d, hd, hf⟩ := hto c hc
        exact ⟨d, List.mem_cons_of_mem _ hd, hf⟩

/-- The modified keys come back as the recovered keys that were written, each with its value. -/
theorem Views.getModifiedKeys {c : StateCache} {s : KeyValues} (h : Views stateStorage usage c s) :
    ∃ items, c.getModifiedKeys = some items ∧
      (∀ item ∈ items, usage.writes item.1 item.2 ∧ encodeMapKey item.1 ∈ c.modifiedKeys ∧
        c.get item.1 = item.2) ∧
      ∀ k ∈ c.modifiedKeys, ∃ item ∈ items, encodeMapKey item.1 = k := by
  have hf : ∀ k ∈ c.modifiedKeys, ∃ item : StateCacheKey × Option Str,
      ((decodeMapKey k).map fun d => (d, (c.cache.get k).join)) = some item ∧
      usage.writes item.1 item.2 ∧ encodeMapKey item.1 = k ∧ c.get item.1 = item.2 := by
    intro k hk
    obtain ⟨key, value, hw, rfl, hg⟩ := h.written k hk
    have hr : decodeMapKey (encodeMapKey key) = some key := (usage.written hw).2
    refine ⟨(key, value), ?_, hw, rfl, ?_⟩
    · rw [hr, hg]
      rfl
    · rw [StateCache.get, hg]
      rfl
  obtain ⟨items, hi, hof, hto⟩ := mapM_of_forall fun k hk => (hf k hk).imp fun _ h => h.1
  refine ⟨items, hi, fun item hm => ?_, fun k hk => ?_⟩
  · obtain ⟨k, hk, he⟩ := hof item hm
    obtain ⟨item', he', hw, rfl, hg⟩ := hf k hk
    cases he.symm.trans he'
    exact ⟨hw, hk, hg⟩
  · obtain ⟨item, hm, he⟩ := hto k hk
    obtain ⟨item', he', -, rfl, -⟩ := hf k hk
    cases he.symm.trans he'
    exact ⟨item, hm, rfl⟩

theorem get_merge {c scope : StateCache} {s : KeyValues} (hs : Views stateStorage usage scope s) (hf : Forked c scope)
    {items : List (StateCacheKey × Option Str)} (hi : scope.getModifiedKeys = some items) (key : StateCacheKey) :
    (c.merge items).get key = scope.get key := by
  obtain ⟨items', hi', hof, hto⟩ := hs.getModifiedKeys
  cases hi.symm.trans hi'
  rw [StateCache.get, cache_merge]
  rcases JsMap.get_foldl_set (fun item : StateCacheKey × Option Str => encodeMapKey item.1) Prod.snd items c.cache
    (encodeMapKey key) with ⟨item, hm, hk, hg⟩ | ⟨hne, hg⟩
  · rw [hg, Option.join_some, ← (hof item hm).2.2, StateCache.get, StateCache.get, hk]
  · rw [hg]
    refine (hf _ fun hk => ?_).symm
    obtain ⟨item, hm, he⟩ := hto _ hk
    exact hne item hm he

theorem Views.merge {c scope : StateCache} {s s' : KeyValues} (hc : Views stateStorage usage c s)
    (hs : Views stateStorage usage scope s') (hf : Forked c scope) {items : List (StateCacheKey × Option Str)}
    (hi : scope.getModifiedKeys = some items) : Views stateStorage usage (c.merge items) s' := by
  refine ⟨fun key hr => ?_, hs.fresh, fun k hk => ?_⟩
  · rw [get_merge hs hf hi]
    exact hs.view key hr
  obtain ⟨items', hi', hof, hto⟩ := hs.getModifiedKeys
  cases hi.symm.trans hi'
  rw [cache_merge]
  rcases JsMap.get_foldl_set (fun item : StateCacheKey × Option Str => encodeMapKey item.1) Prod.snd items c.cache
    k with ⟨item, hm, rfl, hg⟩ | ⟨hne, hg⟩
  · exact ⟨item.1, item.2, (hof item hm).1, rfl, hg⟩
  · rw [hg]
    rcases mem_modifiedKeys_merge hk with hk | ⟨item, hm, he⟩
    · exact hc.written k hk
    · exact absurd he (hne item hm)

/-- A transaction on the fork does what it does on the state that the cache reads as. -/
theorem processTransaction_sim {code : ContractCode} {entry : TransactionEntry} {c : StateCache} {s : KeyValues}
    (hc : Views stateStorage usage c s) (hw : usage.Admits (overlay stateStorage) code s entry) :
    (processTransaction code stateStorage entry.request c.fork).1 =
        ((code entry.request).exec (overlay stateStorage entry.request.contractAddress) s).1 ∧
      Views stateStorage usage (processTransaction code stateStorage entry.request c.fork).2
        ((code entry.request).exec (overlay stateStorage entry.request.contractAddress) s).2 ∧
      Forked c (processTransaction code stateStorage entry.request c.fork).2 := by
  refine exec_sim (R := fun scope s => Views stateStorage usage scope s ∧ Forked c scope) ?_ ?_ _ ⟨?_, fun _ _ => rfl⟩ hw
  · intro scope t key hr h
    exact h.1.view _ hr
  · intro scope t key value hw h
    exact ⟨h.1.set hw, h.2.set _ _⟩
  · exact ⟨hc.view, hc.fresh, nofun⟩

theorem processOne_sim {code : ContractCode} {entry : TransactionEntry} {c : StateCache} {s : KeyValues}
    (hc : Views stateStorage usage c s) (hm : Marked c)
    (hw : usage.Admits (overlay stateStorage) code s entry) :
    (∃ err, processOne code stateStorage c entry = .error err ∧ execute (overlay stateStorage) code s entry = .error err) ∨
      ∃ success c' s', processOne code stateStorage c entry = .ok (success, c') ∧
        execute (overlay stateStorage) code s entry = .ok (success, s') ∧ Views stateStorage usage c' s' ∧ Marked c' := by
  obtain ⟨hr, hv, hf⟩ := processTransaction_sim hc hw
  rw [processOne, execute]
  cases hp : processTransaction code stateStorage entry.request c.fork with
  | mk result scope =>
  cases he : (code entry.request).exec (overlay stateStorage entry.request.contractAddress) s with
  | mk result' s' =>
  rw [hp, he] at hr hv
  rw [hp] at hf
  cases hr
  cases result with
  | ok u =>
    obtain ⟨items, hi, -, -⟩ := hv.getModifiedKeys
    refine .inr ⟨true, c.merge items, s', ?_, rfl, hc.merge hv hf hi, marked_merge hm items⟩
    dsimp only at hi ⊢
    rw [hi]
  | error err =>
    by_cases hx : err.expected = true
    · exact .inr ⟨false, c, s, by simp [hx], by simp [hx], hc, hm⟩
    · exact .inl ⟨err, by simp [hx], by simp [hx]⟩

/-- **The batch and the sequential run go through the same receipts and the same states.** -/
theorem processEach_sim {code : ContractCode} : ∀ {entries : List TransactionEntry} {c : StateCache} {s : KeyValues},
    Views stateStorage usage c s → Marked c → AllWithin (overlay stateStorage) usage code s entries →
    (∃ err, processEach (processOne code stateStorage) c entries = .error err ∧
      sequential (overlay stateStorage) code s entries = .error err) ∨
    ∃ receipts c' s', processEach (processOne code stateStorage) c entries = .ok (receipts, c') ∧
      sequential (overlay stateStorage) code s entries = .ok (receipts, s') ∧ Views stateStorage usage c' s' ∧ Marked c' := by
  intro entries
  induction entries with
  | nil => exact fun hc hm _ => .inr ⟨[], _, _, rfl, rfl, hc, hm⟩
  | cons entry entries ih =>
    intro c s hc hm hw
    rw [sequential, processEach, processEach]
    rcases processOne_sim hc hm hw.1 with ⟨err, h1, h2⟩ | ⟨success, c1, s1, h1, h2, hc1, hm1⟩
    · exact .inl ⟨err, by rw [h1], by rw [h2]⟩
    rw [h1, h2]
    rcases ih hc1 hm1 (hw.2 s1 (by rw [transition, h2])) with ⟨err, h3, h4⟩ | ⟨receipts, c2, s2, h3, h4, hc2, hm2⟩
    · rw [sequential] at h4
      exact .inl ⟨err, by dsimp only; rw [h3], by dsimp only; rw [h4]⟩
    · rw [sequential] at h4
      exact .inr ⟨_, c2, s2, by dsimp only; rw [h3], by dsimp only; rw [h4], hc2, hm2⟩

theorem applyStateDiff_cases (stateDiff : List (StateCacheKey × Option Str)) (s : KeyValues) (key : StateCacheKey) :
    (∃ d ∈ stateDiff, d.1 = key ∧ applyStateDiff s stateDiff key = d.2) ∨
      (∀ d ∈ stateDiff, d.1 ≠ key) ∧ applyStateDiff s stateDiff key = s key :=
  JsMap.foldl_write_cases (fun s k => s k) (fun s d k => Function.update_apply s d.1 d.2 k) stateDiff s key

/-- The storage holds what the cache read as, under every key that is written strings only. -/
theorem applyStateDiff_eq {c : StateCache} {s : KeyValues} (h : Views stateStorage usage c s) (hm : Marked c)
    {stateDiff : List (StateCacheKey × Option Str)} (hd : c.getModifiedKeys = some stateDiff) {key : StateCacheKey}
    (hw : ∀ value, usage.writes key value → value.isSome = true) : applyStateDiff stateStorage stateDiff key = s key := by
  obtain ⟨items, hi, hof, hto⟩ := h.getModifiedKeys
  cases hd.symm.trans hi
  rcases applyStateDiff_cases stateDiff stateStorage key with ⟨d, hd, rfl, ha⟩ | ⟨hne, ha⟩
  · obtain ⟨hwd, -, hg⟩ := hof d hd
    obtain ⟨v, hv⟩ := Option.isSome_iff_exists.1 (hw _ hwd)
    rw [ha, ← h.view _ (usage.written hwd).1, hg, hv]
    rfl
  rw [ha]
  by_cases hr : usage.reads key ∧ Recovered key
  · rw [← h.view key hr.1]
    cases hg : c.get key with
    | none => rfl
    | some v =>
      rw [StateCache.get, Option.join_eq_some_iff] at hg
      obtain ⟨d, hd, he⟩ := hto _ (hm _ _ hg)
      exact absurd (usage.injective (usage.written (hof d hd).1).1 hr.1 he) (hne d hd)
  · exact (h.fresh key hr).symm

/-- **A batch fails or succeeds as the sequential run does, with the same receipts, and leaves the same values.** -/
theorem processTransactionSet_sim {code : ContractCode} {entries : List TransactionEntry}
    (hw : AllWithin (overlay stateStorage) usage code stateStorage entries) :
    (∃ err, processTransactionSet code stateStorage entries = .error err ∧
      sequential (overlay stateStorage) code stateStorage entries = .error err) ∨
    ∃ receipts stateDiff s, processTransactionSet code stateStorage entries = .ok (receipts, stateDiff) ∧
      sequential (overlay stateStorage) code stateStorage entries = .ok (receipts, s) ∧
      ∀ key, (∀ value, usage.writes key value → value.isSome = true) → applyStateDiff stateStorage stateDiff key = s key := by
  rw [processTransactionSet]
  rcases processEach_sim views_empty nofun hw with ⟨err, h1, h2⟩ | ⟨receipts, c, s, h1, h2, hc, hm⟩
  · exact .inl ⟨err, by rw [h1], h2⟩
  · obtain ⟨items, hi, -, -⟩ := hc.getModifiedKeys
    refine .inr ⟨receipts, items, s, ?_, h2, fun key hk => applyStateDiff_eq hc hm hi hk⟩
    rw [h1]
    dsimp only
    rw [hi]

end

/-! ## Code that stores strings -/

/-- Recovered keys, and strings as their values. -/
def strings : Usage where
  reads := Recovered
  writes key value := Recovered key ∧ value.isSome = true
  injective := Recovered.inj
  written h := ⟨h.1, h.1⟩

section
variable {code : ContractCode} {stateStorage : KeyValues}

theorem store_overlay {s t : KeyValues} {contractAddress : Bytes} {key : Str} {value : Option Str}
    (hv : value.isSome = true) (h : s = t) : (overlay stateStorage contractAddress).store s key value =
      (plain contractAddress).store t key value := by
  obtain ⟨v, rfl⟩ := Option.isSome_iff_exists.1 hv
  subst h
  rfl

theorem execute_overlay {entry : TransactionEntry} {s : KeyValues} (hw : strings.Admits plain code s entry) :
    strings.Admits (overlay stateStorage) code s entry ∧
      execute (overlay stateStorage) code s entry = execute plain code s entry := by
  have hl : ∀ (s t : KeyValues) key, strings.reads { contractAddress := entry.request.contractAddress, key } → s = t →
      (overlay stateStorage entry.request.contractAddress).load s key =
        (plain entry.request.contractAddress).load t key := by
    rintro s t key - rfl
    rfl
  have hs : ∀ (s t : KeyValues) key value,
      strings.writes { contractAddress := entry.request.contractAddress, key } value → s = t →
      (overlay stateStorage entry.request.contractAddress).store s key value =
        (plain entry.request.contractAddress).store t key value :=
    fun s t key value hv h => store_overlay hv.2 h
  obtain ⟨h1, h2⟩ := exec_sim hl hs _ rfl hw
  refine ⟨within_sim hl hs _ rfl hw, ?_⟩
  rw [execute, execute, Prod.ext h1 h2]

theorem allWithin_overlay : ∀ {entries : List TransactionEntry} {s : KeyValues}, AllWithin plain strings code s entries →
    AllWithin (overlay stateStorage) strings code s entries ∧
      sequential (overlay stateStorage) code s entries = sequential plain code s entries := by
  intro entries
  induction entries with
  | nil => exact fun _ => ⟨trivial, rfl⟩
  | cons entry entries ih =>
    intro s hw
    obtain ⟨ha, he⟩ := execute_overlay hw.1
    refine ⟨⟨ha, fun s' hs => (ih (hw.2 s' ?_)).1⟩, ?_⟩
    · rwa [transition, ← he]
    · rw [sequential, sequential, processEach, processEach, he]
      cases hs : execute plain code s entry with
      | error err => rfl
      | ok r =>
        have := (ih (hw.2 r.2 (by rw [transition, hs]))).2
        rw [sequential, sequential] at this
        dsimp only
        rw [this]

/-- The storage updated with the state difference is the state of the sequential run. -/
theorem processTransactionSet_eq {entries : List TransactionEntry} (hw : AllWithin plain strings code stateStorage entries) :
    (processTransactionSet code stateStorage entries).map (fun r => (r.1, applyStateDiff stateStorage r.2)) =
      sequential plain code stateStorage entries := by
  obtain ⟨hw', he⟩ := allWithin_overlay hw
  rw [← he]
  rcases processTransactionSet_sim hw' with ⟨err, h1, h2⟩ | ⟨receipts, stateDiff, s, h1, h2, h⟩
  · rw [h1, h2]
    rfl
  · rw [h1, h2]
    have : applyStateDiff stateStorage stateDiff = s := funext fun key => h key fun _ hv => hv.2
    exact congrArg _ (congrArg _ this)

theorem txHash_of_processEach {σ : Type} {one : σ → TransactionEntry → Except ContractError (Bool × σ)} :
    ∀ {entries : List TransactionEntry} {s s' : σ} {receipts : List TransactionReceipt},
      processEach one s entries = .ok (receipts, s') →
      receipts.map TransactionReceipt.txHash = entries.map TransactionEntry.txHash := by
  intro entries
  induction entries with
  | nil =>
    intro s s' receipts h
    cases h
    rfl
  | cons entry entries ih =>
    intro s s' receipts h
    rw [processEach] at h
    split at h
    · cases h
    split at h
    · cases h
    rename_i h'
    cases h
    rw [List.map_cons, List.map_cons, ih h']

theorem sequential_append (machine : Bytes → Machine KeyValues Str Str) (as bs : List TransactionEntry) (s : KeyValues) :
    sequential machine code s (as ++ bs) = match sequential machine code s as with
      | .error err => .error err
      | .ok (receipts, s') => (sequential machine code s' bs).map fun r => (receipts ++ r.1, r.2) := by
  induction as generalizing s with
  | nil =>
    rw [sequential, sequential, List.nil_append, processEach]
    dsimp only
    rw [sequential]
    cases processEach (execute machine code) s bs <;> rfl
  | cons a as ih =>
    rw [sequential, sequential, List.cons_append, processEach, processEach]
    cases hx : execute machine code s a with
    | error err => rfl
    | ok r =>
      have := ih r.2
      rw [sequential, sequential] at this
      dsimp only
      rw [this]
      cases processEach (execute machine code) r.2 as with
      | error err => rfl
      | ok r' =>
        dsimp only
        rw [sequential]
        cases processEach (execute machine code) r'.2 bs <;> rfl

/-- The states of a sequential run are those of its transition system. -/
theorem run_of_sequential {machine : Bytes → Machine KeyValues Str Str} :
    ∀ {entries : List TransactionEntry} {s s' : KeyValues} {receipts : List TransactionReceipt},
      sequential machine code s entries = .ok (receipts, s') → Lts.run (transition machine code) s entries = some s' := by
  intro entries
  induction entries with
  | nil =>
    intro s s' receipts h
    cases h
    rfl
  | cons entry entries ih =>
    intro s s' receipts h
    rw [sequential, processEach] at h
    split at h
    · cases h
    rename_i success t ht
    split at h
    · cases h
    rename_i hrest
    cases h
    rw [Lts.run, transition, ht]
    exact ih hrest

theorem processBatches_eq : ∀ {batches : List (List TransactionEntry)} {stateStorage : KeyValues},
    AllWithin plain strings code stateStorage batches.flatten →
    processBatches code stateStorage batches = sequential plain code stateStorage batches.flatten := by
  intro batches
  induction batches with
  | nil => exact fun _ => rfl
  | cons batch batches ih =>
    intro stateStorage hw
    rw [List.flatten_cons] at hw ⊢
    have hb := Lts.meets_append_left hw
    have he := processTransactionSet_eq hb
    rw [processBatches, sequential_append, ← he]
    cases hp : processTransactionSet code stateStorage batch with
    | error err => rfl
    | ok r =>
      rw [hp] at he
      dsimp only [Except.map]
      rw [ih (Lts.meets_append hw (run_of_sequential he.symm)).2]
      cases sequential plain code (applyStateDiff stateStorage r.2) batches.flatten <;> rfl

/-- **Batch execution refines one-at-a-time execution.**  A batch that returns gives one receipt for each transaction, in
order, and its state difference takes the storage to the state of the sequential run; and however the transactions are
cut into batches, the receipts and the final state are the same. -/
theorem processTransactionSet_refines {entries : List TransactionEntry}
    (hw : AllWithin plain strings code stateStorage entries) :
    (∀ receipts stateDiff, processTransactionSet code stateStorage entries = .ok (receipts, stateDiff) →
      receipts.map TransactionReceipt.txHash = entries.map TransactionEntry.txHash ∧
      sequential plain code stateStorage entries = .ok (receipts, applyStateDiff stateStorage stateDiff)) ∧
    ∀ batches : List (List TransactionEntry), batches.flatten = entries →
      processBatches code stateStorage batches =
        (processTransactionSet code stateStorage entries).map fun r => (r.1, applyStateDiff stateStorage r.2) := by
  have he := processTransactionSet_eq hw
  refine ⟨fun receipts stateDiff hp => ?_, fun batches hb => ?_⟩
  · rw [hp] at he
    exact ⟨txHash_of_processEach he.symm, he.symm⟩
  · subst hb
    rw [he, processBatches_eq hw]

end

/-- A contract that writes the payload behind what it holds, and refuses an empty one after it has written. -/
def appender : ContractCode := fun request => do
  let old ← read "text".toList
  write "text".toList (some (old.getD [] ++ request.payload))
  if request.payload = [] then .throw { expected := true, message := "empty".toList }

def appenderEntry (payload : String) : TransactionEntry where
  txHash := Utf8.encode payload.toList
  transaction :=
    { header := { version := 0, sender := [], timestamp := [], contractAddress := [0x54, 0, 1, 2, 3] }
      payload := payload.toList
      signatureData := none }

instance (machine : Bytes → Machine KeyValues Str Str) (s : KeyValues) (entry : TransactionEntry) :
    Decidable (strings.Admits machine appender s entry) :=
  inferInstanceAs (Decidable (Within (fun _ => Recovered _) (fun _ _ => Recovered _ ∧ _ = true) _ _ _))

instance (machine : Bytes → Machine KeyValues Str Str) (s : KeyValues) (entries : List TransactionEntry) :
    Decidable (AllWithin machine strings appender s entries) :=
  inferInstanceAs (Decidable (Lts.Meets _ _ _ _))

theorem processTransactionSet_refines_appender :
    (∃ receipts stateDiff,
      processTransactionSet appender (fun _ => none) [appenderEntry "a", appenderEntry "", appenderEntry "b"] =
        .ok (receipts, stateDiff) ∧ receipts.map TransactionReceipt.success = [true, false, true] ∧
      sequential plain appender (fun _ => none) [appenderEntry "a", appenderEntry "", appenderEntry "b"] =
        .ok (receipts, applyStateDiff (fun _ => none) stateDiff)) := by
  refine ⟨_, _, rfl, by decide, ?_⟩
  exact ((processTransactionSet_refines (by decide +kernel)).1 _ _ rfl).2

end VirtualMachine
end Orbs
