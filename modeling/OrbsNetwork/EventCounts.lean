import OrbsNetwork.ContractRuns
/-!
# EventCounts — what the event counter counts

`EventCounterContract` keeps one number for each sender and event.  As long as the transactions use plain keys and write
strings, it is the number of the sender's successful `reportEvent` transactions for the event, whatever everyone else
calls, up to `2 ^ 53`, where adding one no longer changes a number (`counter_counts`).  Only a sender can spoil its own
counters, by `setValue`.
-/
namespace Orbs
namespace EventCounterContract

open Js Val VirtualMachine BaseSmartContract HardCodedSmartContractProcessor ContractRuns
open KinAtnSmartContract (text senderAddressBase58)
open AsyncProg (read write ofExcept)

def storageKey (sender event : Str) : Str := "values.".toList ++ sender ++ '.' :: event

/-- A dot can only be the first character, which the first byte of the address gives. -/
structure AddressText (sender : Str) : Prop where
  ne_nil : sender ≠ []
  tail : '.' ∉ sender.tail

theorem addressText_bs58 {sender : Bytes} (h : sender ≠ []) : AddressText (bs58EncodeRawAddress sender) := by
  obtain ⟨b, rest, rfl⟩ := List.exists_cons_of_ne_nil h
  unfold bs58EncodeRawAddress
  rw [List.take_succ_cons, List.take_zero, Utf8.decode_byte, List.append_assoc, List.singleton_append]
  refine ⟨List.cons_ne_nil _ _, fun hdot => ?_⟩
  rcases List.mem_append.1 hdot with hdot | hdot
  · exact Hex.dot_not_mem _ hdot
  · exact absurd (Base58.encode_mem _ _ hdot) (by decide +kernel)

theorem storageKey_inj {a b e f : Str} (ha : AddressText a) (hb : AddressText b)
    (h : storageKey a e = storageKey b f) : a = b ∧ e = f := by
  obtain ⟨c, a, rfl⟩ := List.exists_cons_of_ne_nil ha.ne_nil
  obtain ⟨d, b, rfl⟩ := List.exists_cons_of_ne_nil hb.ne_nil
  unfold storageKey at h
  rw [List.append_assoc, List.append_assoc] at h
  obtain ⟨rfl, hrest⟩ := List.cons.inj (List.append_cancel_left h)
  obtain ⟨rfl, hef⟩ := Split.append_cons_inj ha.tail hb.tail hrest
  exact ⟨rfl, hef⟩

/-- The largest number that counting by ones comes to. -/
def saturate (n : ℕ) : ℕ := min n (2 ^ 53)

theorem add_one_saturate (n : ℕ) : (Number.ofNat (saturate n)).add (.ofNat 1) = .ofNat (saturate (n + 1)) := by
  unfold saturate
  by_cases h : n + 1 ≤ 2 ^ 53
  · rw [min_eq_left h, min_eq_left (Nat.le_of_succ_le h), Number.add_ofNat h]
  · rw [min_eq_right (by omega), min_eq_right (by omega)]
    -- Ties go to the even mantissa.
    decide +kernel

/-- The stored counter: nothing yet, or the text of a number. -/
def Counter (sender event : Str) (s : Cells) (n : ℕ) : Prop :=
  s (storageKey sender event) = none ∧ n = 0 ∨
    s (storageKey sender event) = some (Val.stringify (Val.ofNat (saturate n)))

theorem Counter.parseOr {sender event : Str} {s : Cells} {n : ℕ} (h : Counter sender event s n) :
    parseOr (.ofNat 0) (s (storageKey sender event)) = .ok (.ofNat (saturate n)) := by
  rcases h with ⟨hs, rfl⟩ | hs
  · rw [hs]
    rfl
  · have hw : Json.Wf (Val.ofNat (saturate n)).toJson := (proper_ofNat (min_le_right _ _)).wf
    rw [hs, BaseSmartContract.parseOr, Val.stringify, Json.parse_stringify hw]
    rfl

def isEvent (event : Str) : Option Val → Bool
  | some (.str e) => decide (e = event)
  | _ => false

/-- The transaction reports the event. -/
def reports (event : Str) (entry : TransactionEntry) : Bool :=
  match parseCall entry.transaction.payload with
  | .ok (name, args) => decide (name = "reportEvent".toList) && isEvent event args[0]?
  | .error _ => false

/-- The transaction overwrites a counter of its sender. -/
def overwrites (entry : TransactionEntry) : Bool :=
  match parseCall entry.transaction.payload with
  | .ok (name, _) => decide (name = "setValue".toList)
  | .error _ => false

def count (sender event : Str) (n : ℕ) (entry : TransactionEntry) : ℕ :=
  if senderAddressBase58 entry = sender ∧ reports event entry = true then n + 1 else n

theorem getStorageKey_eq_ok {sender key : Str} {event : Option Val} :
    getStorageKey sender event = .ok key ↔ ∃ e, text event = .ok e ∧ key = storageKey sender e := by
  unfold getStorageKey
  cases text event with
  | error e => exact iff_of_false nofun fun h => by obtain ⟨a, ha, -⟩ := h; cases ha
  | ok e =>
    refine ⟨fun h => ?_, fun h => ?_⟩
    · cases h
      exact ⟨e, rfl, rfl⟩
    · obtain ⟨e', he, rfl⟩ := h
      cases he
      rfl

section
variable {sender event : Str} {s : Cells} {n : ℕ}

/-- What is stored elsewhere does not matter. -/
theorem Counter.update_of_ne (h : Counter sender event s n) {key : Str} (hne : storageKey sender event ≠ key)
    (value : Option Str) : Counter sender event (Function.update s key value) n := by
  unfold Counter
  rw [Function.update_of_ne hne]
  exact h

/-- **A report adds one to the counter of its sender and event**, and to no other. -/
theorem leaves_reportEvent (h : Counter sender event s n) (hs : AddressText sender) {b : Str} (hb : AddressText b)
    (e : Str) :
    Leaves (reportEvent b (some (.str e)))
      (fun _ t => Counter sender event t (if b = sender ∧ e = event then n + 1 else n)) s := by
  unfold reportEvent
  dsimp only
  rw [leaves_bind]
  refine leaves_getter.2 fun key v hkey hv => ?_
  rw [leaves_bind, leaves_ofExcept]
  intro amount hamount
  refine leaves_setter.2 fun key' hkey' => ?_
  cases hkey.symm.trans hkey'
  obtain ⟨e', he, rfl⟩ := getStorageKey_eq_ok.1 hkey
  cases he
  by_cases heq : b = sender ∧ e = event
  · obtain ⟨rfl, rfl⟩ := heq
    rw [if_pos ⟨rfl, rfl⟩]
    cases h.parseOr.symm.trans hv
    refine .inr ?_
    cases orTypeError_eq_ok.1 hamount
    rw [Function.update_self, Val.ofNat, ← add_one_saturate]
    rfl
  · rw [if_neg heq]
    refine h.update_of_ne (fun hk => heq ?_) _
    obtain ⟨hab, hef⟩ := storageKey_inj hs hb hk
    exact ⟨hab.symm, hef.symm⟩

/-- **What a call leaves of a counter.** -/
theorem leaves_call (h : Counter sender event s n) (hs : AddressText sender) {now : ℕ} {name : Str} {args : List Val}
    {entry : TransactionEntry} (hcall : parseCall entry.transaction.payload = .ok (name, args))
    (hb : AddressText (senderAddressBase58 entry)) (hset : senderAddressBase58 entry = sender → overwrites entry = false) :
    Leaves (RegistryFile.eventCounter.contract now (senderAddressBase58 entry) name args)
      (fun _ t => Counter sender event t (count sender event n entry)) s := by
  have hquiet : ∀ {t : Cells}, name ≠ "reportEvent".toList → Counter sender event t n →
      Counter sender event t (count sender event n entry) := by
    intro t hname ht
    have hreports : reports event entry = false := by
      rw [reports, hcall]
      dsimp only
      rw [decide_eq_false hname, Bool.false_and]
    rw [count, hreports, if_neg fun hc => Bool.false_ne_true hc.2]
    exact ht
  refine leaves_callMethod (fun p hp hname => ?_) fun hp => hquiet ?_ h
  · simp only [methods, List.mem_cons, List.not_mem_nil, or_false] at hp
    rcases hp with rfl | rfl | rfl | rfl | rfl <;> subst hname
    · change Leaves (reportEvent (senderAddressBase58 entry) args[0]?) _ s
      rcases h0 : args[0]? with _ | v
      · trivial
      cases v with
      | str e =>
        have hreports : reports event entry = true ↔ e = event := by
          rw [reports, hcall]
          dsimp only
          rw [h0, isEvent, Bool.and_eq_true, decide_eq_true_eq, decide_eq_true_eq]
          exact ⟨And.right, And.intro rfl⟩
        rw [count]
        simp only [hreports]
        exact leaves_reportEvent h hs hb e
      | null | bool | num | buffer | arr | obj => trivial
    · exact leaves_discard (leaves_getter.2 fun _ _ _ _ => hquiet (by decide +kernel) h)
    · exact leaves_discard (leaves_getter.2 fun _ _ _ _ => hquiet (by decide +kernel) h)
    · refine leaves_setter.2 fun key hkey => hquiet (by decide +kernel) ?_
      obtain ⟨e, -, rfl⟩ := getStorageKey_eq_ok.1 hkey
      refine h.update_of_ne (fun hk => ?_) _
      have hover := hset (storageKey_inj hs hb hk).1.symm
      rw [overwrites, hcall] at hover
      exact absurd rfl (of_decide_eq_false hover)
    · exact leaves_discard (leaves_ofExcept.2 fun _ _ => hquiet (by decide +kernel) h)
  · rintro rfl
    exact hp (by simp [methods])

end

theorem foldl_count (sender event : Str) (l : List TransactionEntry) (n : ℕ) : l.foldl (count sender event) n =
    n + l.countP fun entry => decide (senderAddressBase58 entry = sender) && reports event entry := by
  induction l generalizing n with
  | nil => rfl
  | cons entry l ih =>
    rw [List.foldl_cons, ih, List.countP_cons, count]
    simp only [Bool.and_eq_true, decide_eq_true_eq]
    split_ifs <;> omega

/-- **A counter counts**: after a set of transactions that use plain keys and write strings it is the number it was and one
for each successful report of the event by its sender, as long as the sender does not call `setValue`. -/
theorem counter_counts {files : JsMap Str RegistryFile} {contract sender : Bytes} {event : Str} {now n : ℕ}
    {stateStorage : KeyValues} {entries : List TransactionEntry} {receipts : List TransactionReceipt}
    {stateDiff : List (StateCacheKey × Option Str)}
    (hfile : files.get (bs58EncodeRawAddress contract) = some .eventCounter) (hs : sender ≠ [])
    (hsenders : ∀ entry ∈ entries, entry.transaction.header.sender ≠ [])
    (hset : ∀ entry ∈ entries, senderAddressBase58 entry = bs58EncodeRawAddress sender → overwrites entry = false)
    (hbefore : Counter (bs58EncodeRawAddress sender) event (held stateStorage contract) n)
    (hw : AllWithin plain strings (codeAt files now) stateStorage entries)
    (h : processTransactionSet (codeAt files now) stateStorage entries = .ok (receipts, stateDiff)) :
    Counter (bs58EncodeRawAddress sender) event (held (applyStateDiff stateStorage stateDiff) contract)
      (n + (succeededAt contract entries receipts).countP fun entry =>
        decide (senderAddressBase58 entry = bs58EncodeRawAddress sender) && reports event entry) := by
  rw [← foldl_count]
  refine refines (fun entry he => preserves_of_leaves hfile fun name args s n hcall hR => ?_) hbefore hw h
  exact leaves_call hR (addressText_bs58 hs) hcall (addressText_bs58 (hsenders entry he)) (hset entry he)

open KinAtnSmartContract (sampleContract sampleEntry bob)

def bobReports : List TransactionEntry :=
  [sampleEntry "\x7b\"method\":\"reportEvent\",\"args\":[\"click\"]\x7d",
    sampleEntry "\x7b\"method\":\"reportEvent\",\"args\":[7]\x7d",
    sampleEntry "\x7b\"method\":\"reportEvent\",\"args\":[\"click\"]\x7d"]

theorem run_bobReports : AllWithin plain strings (codeAt (sampleFiles .eventCounter) 0) (fun _ => none) bobReports ∧
    (∀ entry ∈ bobReports, entry.transaction.header.sender ≠ [] ∧ overwrites entry = false) ∧
    (match processTransactionSet (codeAt (sampleFiles .eventCounter) 0) (fun _ => none) bobReports with
      | .ok (receipts, _) => (succeededAt sampleContract bobReports receipts).countP fun entry =>
        decide (senderAddressBase58 entry = bs58EncodeRawAddress bob) && reports "click".toList entry
      | .error _ => 0) = 2 := by
  decide +kernel

theorem counter_counts_bobReports : ∃ receipts stateDiff,
    processTransactionSet (codeAt (sampleFiles .eventCounter) 0) (fun _ => none) bobReports = .ok (receipts, stateDiff) ∧
    Counter (bs58EncodeRawAddress bob) "click".toList (held (applyStateDiff (fun _ => none) stateDiff) sampleContract)
      2 := by
  obtain ⟨hw, hentries, hcount⟩ := run_bobReports
  split at hcount
  · rename_i receipts stateDiff h
    refine ⟨receipts, stateDiff, h, ?_⟩
    rw [← hcount, ← Nat.zero_add (List.countP _ _)]
    exact counter_counts (JsMap.get_set_self _ _ _) (List.cons_ne_nil _ _) (fun entry he => (hentries entry he).1)
      (fun entry he _ => (hentries entry he).2) (.inl ⟨rfl, rfl⟩) hw h
  · cases hcount

end EventCounterContract
end Orbs
