import OrbsNetwork.ContractRuns
import OrbsNetwork.Lib.JsonReread
/-!
# TextMessages — mailboxes

`TextMessageSmartContract` keeps the messages to an account as one JSON array, which every call reads, prolongs and writes
again.  Whatever methods are called with whatever arguments, as long as the transactions use plain keys and write strings
a mailbox only grows, by the messages of the successful transactions in their order (`mailbox_grows`).

The sender of a message is the sender of its transaction when it comes by `sendMessage`; `appendMessage`, which is marked
private and called all the same, appends what it is given.
-/
namespace Orbs
namespace TextMessageSmartContract

open Js Val VirtualMachine BaseSmartContract HardCodedSmartContractProcessor ContractRuns
open KinAtnSmartContract (text)
open AsyncProg (read write ofExcept)

/-! ## What a call posts -/

/-- The message that a call appends, if it comes that far. -/
def messageOf (now : ℕ) (sender name : Str) (args : List Val) : Option Val :=
  if name = "sendMessage".toList then
    some (newMessage args[0]? (some (.str sender)) args[2]? (some (.ofNat now)) args[1]?)
  else if name = "appendMessage".toList then args[0]?
  else none

/-- The account to whose mailbox it is appended. -/
def recipientOf (message : Val) : Except ContractError Str := do text (← property "recipient".toList (some message))

def deliver (account : Str) (message : Val) : List Json :=
  match recipientOf message with
  | .ok recipient => if recipient = account then [Json.printed message.toJson] else []
  | .error _ => []

/-- What a transaction posts to an account when it succeeds. -/
def posts (now : ℕ) (account : Str) (entry : TransactionEntry) : List Json :=
  match parseCall entry.transaction.payload with
  | .ok (name, args) =>
    (messageOf now (bs58EncodeRawAddress entry.transaction.header.sender) name args).elim [] (deliver account)
  | .error _ => []

/-! ## Mailboxes -/

def mailboxKey (account : Str) : Str := "messages.".toList ++ account

structure Mailbox (account : Str) (s : Cells) (messages : List Json) : Prop where
  stored : s (mailboxKey account) = none ∧ messages = [] ∨
    s (mailboxKey account) = some (Json.stringify (.arr messages))
  wf : ∀ m ∈ messages, Json.Wf m

theorem mailboxKey_inj {a b : Str} : mailboxKey a = mailboxKey b ↔ a = b :=
  ⟨List.append_cancel_left, congrArg mailboxKey⟩

theorem getMessageKey_eq_ok {account : Option Val} {key : Str} :
    getMessageKey account = .ok key ↔ ∃ a, text account = .ok a ∧ key = mailboxKey a := by
  unfold getMessageKey
  cases text account with
  | error e => exact iff_of_false nofun fun h => by obtain ⟨a, ha, -⟩ := h; cases ha
  | ok a =>
    refine ⟨fun h => ?_, fun h => ?_⟩
    · cases h
      exact ⟨a, rfl, rfl⟩
    · obtain ⟨a', ha, rfl⟩ := h
      cases ha
      rfl

/-- The stored text reads as the messages. -/
theorem Mailbox.parseOr {account : Str} {s : Cells} {messages : List Json} (h : Mailbox account s messages) :
    parseOr (.arr []) (s (mailboxKey account)) = .ok (.arr (ofElems messages)) := by
  rcases h.stored with ⟨hs, rfl⟩ | hs
  · rw [hs]
    rfl
  · rw [hs, BaseSmartContract.parseOr, Json.parse_stringify (.arr h.wf)]
    rfl

theorem elemsJson_append (l : List Val) (v : Val) : elemsJson (l ++ [v]) = elemsJson l ++ [v.toJson] := by
  rw [elemsJson_eq, elemsJson_eq, List.map_append, List.map_singleton]

/-- The text of the messages with one more. -/
theorem stringify_concat {messages : List Json} (hw : ∀ m ∈ messages, Json.Wf m) (message : Val) :
    Val.stringify (.arr (ofElems messages ++ [message])) =
      Json.stringify (.arr (messages ++ [Json.printed message.toJson])) := by
  have hprinted : messages.map Json.printed = messages := by
    conv_rhs => rw [← List.map_id messages]
    exact List.map_congr_left fun m hm => Json.printed_of_wf (hw m hm)
  rw [Val.stringify, toJson, elemsJson_append, elemsJson_ofElems, ← Json.stringify_printed, Json.printed,
    Json.printedElems_eq, List.map_append, List.map_singleton, hprinted]

/-- **One message goes to the mailbox of its recipient, and the others stay.** -/
theorem leaves_appendMessage {account : Str} {s : Cells} {messages : List Json} (h : Mailbox account s messages)
    {message : Val} (hm : Json.Keyed message.toJson) :
    Leaves (appendMessage (some message)) (fun _ t => Mailbox account t (messages ++ deliver account message)) s := by
  unfold appendMessage
  rw [leaves_bind, leaves_ofExcept]
  intro recipient hrecipient
  rw [leaves_bind]
  refine leaves_getter.2 fun key v hkey hv => ?_
  split
  case h_2 => trivial
  rename_i l
  refine leaves_setter.2 fun key' hkey' => ?_
  cases hkey.symm.trans hkey'
  obtain ⟨a, ha, rfl⟩ := getMessageKey_eq_ok.1 hkey
  have hto : recipientOf message = .ok a := by
    unfold recipientOf
    rw [hrecipient]
    exact ha
  rw [deliver, hto]
  dsimp only
  by_cases he : a = account
  · subst he
    rw [if_pos rfl]
    cases h.parseOr.symm.trans hv
    refine ⟨.inr ?_, fun m hmem => ?_⟩
    · rw [Function.update_self, ← stringify_concat h.wf]
      rfl
    · rcases List.mem_append.1 hmem with hmem | hmem
      · exact h.wf m hmem
      · rw [List.mem_singleton.1 hmem]
        exact Json.wf_printed hm
  · rw [if_neg he, List.append_nil]
    refine ⟨?_, h.wf⟩
    rw [Function.update_of_ne fun hk => he (mailboxKey_inj.1 hk).symm]
    exact h.stored

/-! ## Calls -/

/-- Fields that are left out leave the others in their order. -/
theorem fst_defined_sublist : ∀ l : List (Str × Option Val),
    List.Sublist ((l.filterMap fun p => p.2.map fun v => (p.1, v)).map Prod.fst) (l.map Prod.fst)
  | [] => .slnil
  | (k, none) :: l => (fst_defined_sublist l).cons k
  | (k, some _) :: l => (fst_defined_sublist l).cons_cons k

theorem keyed_newMessage {recipient timestamp message : Option Val} {sender : Str} {now : ℕ}
    (hr : ∀ v ∈ recipient, Json.Keyed v.toJson) (ht : ∀ v ∈ timestamp, Json.Keyed v.toJson)
    (hm : ∀ v ∈ message, Json.Keyed v.toJson) :
    Json.Keyed (newMessage recipient (some (.str sender)) timestamp (some (.ofNat now)) message).toJson := by
  rw [newMessage, toJson, membersJson_eq]
  have hplain : ∀ k ∈ ["recipient".toList, "sender".toList, "timestamp".toList, "processedAtTimestamp".toList,
      "message".toList], Json.arrayIndex k = none := by decide +kernel
  refine .obj ?_ (Json.propertyOrder_of_plain fun k hk => ?_) fun p hp => ?_
  · rw [List.map_map]
    refine List.Nodup.sublist (fst_defined_sublist _) ?_
    simp only [List.map_cons, List.map_nil]
    decide +kernel
  · rw [List.map_map] at hk
    exact hplain k ((fst_defined_sublist _).subset hk)
  · obtain ⟨q, hq, rfl⟩ := List.mem_map.1 hp
    obtain ⟨f, hf, hfq⟩ := List.mem_filterMap.1 hq
    obtain ⟨v, hv, rfl⟩ := Option.map_eq_some_iff.1 hfq
    simp only [List.mem_cons, List.not_mem_nil, or_false] at hf
    rcases hf with rfl | rfl | rfl | rfl | rfl
    · exact hr v hv
    · cases hv
      exact .str _
    · exact ht v hv
    · cases hv
      exact .num _
    · exact hm v hv

theorem leaves_sendMessage {account : Str} {s : Cells} {messages : List Json} (h : Mailbox account s messages) {now : ℕ}
    {sender : Str} {recipient message timestamp : Option Val}
    (hm : Json.Keyed (newMessage recipient (some (.str sender)) timestamp (some (.ofNat now)) message).toJson) :
    Leaves (sendMessage now sender recipient message timestamp) (fun _ t => Mailbox account t (messages ++
      deliver account (newMessage recipient (some (.str sender)) timestamp (some (.ofNat now)) message))) s := by
  unfold sendMessage
  rw [leaves_bind, leaves_ofExcept]
  intro length _
  split
  · trivial
  rw [leaves_bind, leaves_ofExcept]
  intro future _
  split
  · trivial
  · exact leaves_appendMessage h hm

/-- **What is posted by a call that returns.** -/
theorem leaves_call {account : Str} {s : Cells} {messages : List Json} (h : Mailbox account s messages) {now : ℕ}
    {sender name : Str} {args : List Val} (hargs : ∀ v ∈ args, Json.Keyed v.toJson) :
    Leaves (RegistryFile.textMessage.contract now sender name args)
      (fun _ t => Mailbox account t (messages ++ (messageOf now sender name args).elim [] (deliver account))) s := by
  have hget : ∀ (i : ℕ) (v : Val), v ∈ args[i]? → Json.Keyed v.toJson := fun i v hv =>
    hargs v (List.mem_of_getElem? hv)
  have hquiet : ∀ {t : Cells}, name ≠ "sendMessage".toList → name ≠ "appendMessage".toList →
      Mailbox account t messages →
      Mailbox account t (messages ++ (messageOf now sender name args).elim [] (deliver account)) := by
    intro t hsend happend ht
    rw [messageOf, if_neg hsend, if_neg happend, Option.elim_none, List.append_nil]
    exact ht
  refine leaves_callMethod (fun p hp hname => ?_) fun hp => ?_
  · simp only [methods, List.mem_cons, List.not_mem_nil, or_false] at hp
    rcases hp with rfl | rfl | rfl | rfl | rfl <;> subst hname
    · exact leaves_sendMessage h (keyed_newMessage (hget 0) (hget 2) (hget 1))
    · exact leaves_discard (leaves_getter.2 fun _ _ _ _ => hquiet (by decide +kernel) (by decide +kernel) h)
    · exact leaves_discard (leaves_getter.2 fun _ _ _ _ => hquiet (by decide +kernel) (by decide +kernel) h)
    · have hmessage : messageOf now sender "appendMessage".toList args = args[0]? := by
        rw [messageOf, if_neg (by decide +kernel), if_pos rfl]
      rw [hmessage]
      change Leaves (appendMessage args[0]?) _ s
      cases hm : args[0]? with
      | none => trivial
      | some message => exact leaves_appendMessage h (hget 0 message hm)
    · exact leaves_discard (leaves_ofExcept.2 fun _ _ => hquiet (by decide +kernel) (by decide +kernel) h)
  · refine hquiet ?_ ?_ h <;> rintro rfl <;> exact hp (by simp [methods])

/-- Arguments come from a text. -/
theorem keyed_of_parseCall {payload name : Str} {args : List Val} (h : parseCall payload = .ok (name, args)) :
    ∀ v ∈ args, Json.Keyed v.toJson := by
  rw [parseCall] at h
  split at h
  · cases h
  · cases h
  rename_i v hne hv
  split at h
  · cases h
  · cases h
  rename_i a _ ha
  split at h
  case h_2 => cases h
  case h_3 => cases h
  rename_i hm hs
  cases h
  have hkeyed := Json.keyed_of_parse hv
  rw [HardCodedSmartContractProcessor.property] at ha
  cases hkeyed with
  | @obj l _ _ hl =>
    rw [ofJson, ofMembers_eq] at ha
    obtain ⟨p, hf, rfl⟩ := Option.map_eq_some_iff.1 ha
    obtain ⟨q, hq, rfl⟩ := List.mem_map.1 (List.mem_of_find?_eq_some hf)
    have hkq := hl q hq
    dsimp only at hs
    cases hq2 : q.2 with
    | arr elems =>
      rw [hq2] at hs hkq
      cases hkq with
      | arr he =>
        rw [ofJson, ofElems_eq, spread] at hs
        cases hs
        intro w hw
        obtain ⟨j, hj, rfl⟩ := List.mem_map.1 hw
        rw [toJson_ofJson]
        exact he j hj
    | str t =>
      rw [hq2] at hs
      cases hs
      intro w hw
      obtain ⟨c, -, rfl⟩ := List.mem_map.1 hw
      exact .str _
    | null | bool | num | obj =>
      rw [hq2] at hs
      cases hs
  | null | bool | num | str | arr => cases ha

/-- **Mailboxes only grow.**  After a set of transactions that use plain keys and write strings, the mailbox of an account
holds what it held and then what the successful transactions to the contract posted to it, in their order. -/
theorem mailbox_grows {files : JsMap Str RegistryFile} {contract : Bytes} {now : ℕ} {stateStorage : KeyValues}
    {entries : List TransactionEntry} {receipts : List TransactionReceipt}
    {stateDiff : List (StateCacheKey × Option Str)} {account : Str} {messages : List Json}
    (hfile : files.get (bs58EncodeRawAddress contract) = some .textMessage)
    (hbefore : Mailbox account (held stateStorage contract) messages)
    (hw : AllWithin plain strings (codeAt files now) stateStorage entries)
    (h : processTransactionSet (codeAt files now) stateStorage entries = .ok (receipts, stateDiff)) :
    Mailbox account (held (applyStateDiff stateStorage stateDiff) contract)
      (messages ++ (succeededAt contract entries receipts).flatMap (posts now account)) := by
  have hstep : ∀ entry ∈ entries, Preserves contract (codeAt files now) (Mailbox account)
      (fun messages entry => messages ++ posts now account entry) entry := by
    refine fun entry _ => preserves_of_leaves hfile fun name args s messages hcall hR => ?_
    rw [posts, hcall]
    exact leaves_call hR (keyed_of_parseCall hcall)
  have hafter := refines hstep hbefore hw h
  rwa [List.foldl_append_eq_append] at hafter

open KinAtnSmartContract (sampleContract sampleEntry)

/-- A message by each of the two methods. -/
def messagesToAlice : List TransactionEntry :=
  [sampleEntry "\x7b\"method\":\"sendMessage\",\"args\":[\"alice\",\"hi\",5]\x7d",
    sampleEntry "\x7b\"method\":\"appendMessage\",\"args\":[\x7b\"recipient\":\"alice\",\"sender\":\"carol\"\x7d]\x7d"]

theorem run_messagesToAlice : AllWithin plain strings (codeAt (sampleFiles .textMessage) 1000) (fun _ => none)
      messagesToAlice ∧
    (match processTransactionSet (codeAt (sampleFiles .textMessage) 1000) (fun _ => none) messagesToAlice with
      | .ok (receipts, _) => (succeededAt sampleContract messagesToAlice receipts).flatMap (posts 1000 "alice".toList)
      | .error _ => []).length = 2 := by
  decide +kernel

theorem mailbox_grows_messagesToAlice : ∃ receipts stateDiff messages,
    processTransactionSet (codeAt (sampleFiles .textMessage) 1000) (fun _ => none) messagesToAlice =
      .ok (receipts, stateDiff) ∧ messages.length = 2 ∧
    Mailbox "alice".toList (held (applyStateDiff (fun _ => none) stateDiff) sampleContract) messages := by
  obtain ⟨hw, hlength⟩ := run_messagesToAlice
  split at hlength
  · rename_i receipts stateDiff h
    refine ⟨receipts, stateDiff, _, h, hlength, ?_⟩
    exact mailbox_grows (JsMap.get_set_self _ _ _) ⟨.inl ⟨rfl, rfl⟩, nofun⟩ hw h
  · cases hlength

end TextMessageSmartContract
end Orbs
