import OrbsNetwork.TokenPool
/-!
# TokenBounds — the numbers of the token contract stay in range

`transferChecked` and `financeChecked` are the two methods with the result of every `+` and `-` passed through a check.
With the check that refuses what is not a safe integer they do what the methods do, on every state that calls of the two
reach from an empty one; and there the balances are safe integers, and the pool is a multiple of `DEFAULT_BALANCE` up to
`POOL_INITIAL_VALUE` (`inRange_calls`).
-/
namespace Orbs
namespace KinAtnSmartContract

open Js VirtualMachine Ledger
open StateProg (Machine read ofExcept)

/-! ## Checked arithmetic -/

abbrev Check := Number → Except ContractError Number

/-- A method whose arguments have their types. -/
def transferChecked (check : Check) (senderAddressBase58 recipient : Str) (amount : Number) : Prog Unit :=
  if amount.le (.ofNat 0) then .throw (validationError "Transaction amount must be > 0".toList)
  else getBalanceForAccount senderAddressBase58 >>= fun
    | .num senderBalance =>
      if senderBalance.lt amount then
        .throw (validationError ("Insufficient balance ".toList ++ senderBalance.toString ++ " < ".toList
          ++ amount.toString))
      else getBalanceForAccount recipient >>= fun
        | .num recipientBalance => ofExcept (check (Number.maxSafeInteger.sub amount)) >>= fun room =>
          if room.lt recipientBalance then
            .throw (validationError ("Recipient account of ".toList ++ recipient ++ " is at balance ".toList
              ++ recipientBalance.toString ++ " and will overflow if ".toList ++ amount.toString
              ++ " is added".toList))
          else ofExcept (check (senderBalance.sub amount)) >>= fun rest =>
            setBalance senderAddressBase58 (some (.num rest)) >>= fun _ =>
            ofExcept (check (recipientBalance.add amount)) >>= fun total => setBalance recipient (some (.num total))
        | _ => .throw (validationError ("Account ".toList ++ recipient
            ++ " is corrupted, please use a new account".toList))
    | _ => .throw (validationError ("Account ".toList ++ senderAddressBase58
        ++ " is corrupted, please use a new account".toList))

def reduceFromPoolChecked (check : Check) (amount : Number) : Prog Unit :=
  filledPool >>= fun allocatedBalance =>
    ofExcept (minus allocatedBalance (some (.num amount)) >>= check) >>= fun rest => setPoolBalance (some (.num rest))

def financeChecked (check : Check) (accountToFinance : Str) : Prog Unit :=
  setBalance accountToFinance (some (.num defaultBalance)) >>= fun _ => reduceFromPoolChecked check defaultBalance

/-- **Without a check they are the methods of the contract.** -/
theorem transferChecked_ok (sender recipient : Str) (amount : Number) :
    transferChecked .ok sender recipient amount = transfer sender (some (.str recipient)) (some (.num amount)) := rfl

theorem financeChecked_ok (account : Str) : financeChecked .ok account = financeAccount (some (.str account)) := by
  have hok : ∀ e : Except ContractError Number, e >>= Except.ok = e := by
    intro e
    cases e <;> rfl
  unfold financeChecked financeAccount reduceFromPoolChecked
  rw [reduceFromPool_eq]
  simp only [hok]

/-- `Number.isSafeInteger`. -/
def isSafeInteger : Number → Bool
  | .fin x => x.val.den = 1 ∧ |x.val| ≤ 2 ^ 53 - 1
  | _ => false

/-- Refuses what is not a safe integer. -/
def safe : Check := fun x => if isSafeInteger x then .ok x else .error (unexpected "not a safe integer")

theorem safe_ofNat {n : ℕ} (hn : n < 2 ^ 53) : safe (.ofNat n) = .ok (.ofNat n) := by
  have hsafe : isSafeInteger (.ofNat n) = true := by
    rw [Number.ofNat_eq hn.le]
    have hle : (n : ℚ) ≤ 2 ^ 53 - 1 := by
      have : (n : ℚ) + 1 ≤ 2 ^ 53 := by exact_mod_cast hn
      linarith
    simpa [isSafeInteger, Binary64.Double.ofInt] using hle
  unfold safe
  rw [if_pos hsafe]

/-! ## Calls -/

/-- A call by a sender.  The amount of a transfer is an integer, of either sign and of any size. -/
inductive TokenCall where
  | transfer (senderAddressBase58 recipient : Str) (amount : { x : Binary64.Double // x.val.den = 1 })
  | financeAccount (senderAddressBase58 accountToFinance : Str)

namespace TokenCall

def prog : TokenCall → Prog Unit
  | transfer sender recipient amount => call sender "transfer".toList [.str recipient, .num (.fin amount.1)]
  | financeAccount sender account => call sender "financeAccount".toList [.str account]

def checked (check : Check) : TokenCall → Prog Unit
  | transfer sender recipient amount => transferChecked check sender recipient (.fin amount.1)
  | financeAccount _ account => financeChecked check account

end TokenCall

section
variable {σ : Type} (m : Machine σ Str Str)

/-- The state after the calls, one after another. -/
def afterCalls (s : σ) (calls : List TokenCall) : σ := calls.foldl (fun s c => (c.prog.exec m s).2) s

/-- What the accounts and the pool hold is in range. -/
structure InRange (load : Str → Option Str) : Prop where
  balances : ∀ account, ∃ n : ℕ, parseBalance (load (getAccountBalanceKey account)) = .ok (.num (.ofNat n)) ∧
    n ≤ 2 ^ 53 - 1
  pool : ∃ k : ℕ, parseBalance (load allocatedPoolStateVariable) = .ok (.num (.ofNat (10000 * k))) ∧
    10000 * k ≤ 20000000000

/-- The invariant of the calls: in it the balances are a ledger, as a transfer between accounts needs it. -/
structure Bounded (load : Str → Option Str) (balances : Ledger Str) (shares : ℕ) : Prop where
  holds : Holds load balances
  pool : parseBalance (load allocatedPoolStateVariable) = .ok (.num (.ofNat (10000 * shares)))
  shares_le : shares ≤ 2000000

variable {m} {s : σ} {balances : Ledger Str} {shares : ℕ}

theorem Bounded.inRange {load : Str → Option Str} (h : Bounded load balances shares) : InRange load := by
  refine ⟨fun account => ⟨balances account, h.holds.stored account, ?_⟩, shares, h.pool, ?_⟩
  · have := h.holds.safe account
    omega
  · have := h.shares_le
    omega

/-! ## Transfers -/

theorem exec_transferChecked (check : Check) (h : Holds (m.load s) balances) (sender recipient : Str) (amount : Number) :
    (transferChecked check sender recipient amount).exec m s =
      if amount.le (.ofNat 0) then (.error (validationError "Transaction amount must be > 0".toList), s)
      else if (Number.ofNat (balances sender)).lt amount then
        (.error (validationError ("Insufficient balance ".toList ++ (Number.ofNat (balances sender)).toString
          ++ " < ".toList ++ amount.toString)), s)
      else (ofExcept (check (Number.maxSafeInteger.sub amount)) >>= fun room =>
        if room.lt (.ofNat (balances recipient)) then
          .throw (validationError ("Recipient account of ".toList ++ recipient ++ " is at balance ".toList
            ++ (Number.ofNat (balances recipient)).toString ++ " and will overflow if ".toList ++ amount.toString
            ++ " is added".toList))
        else ofExcept (check ((Number.ofNat (balances sender)).sub amount)) >>= fun rest =>
          setBalance sender (some (.num rest)) >>= fun _ =>
          ofExcept (check ((Number.ofNat (balances recipient)).add amount)) >>= fun total =>
          setBalance recipient (some (.num total)) : Prog Unit).exec m s := by
  unfold transferChecked
  split
  · rfl
  rw [exec_getBalanceForAccount _ (h.stored sender)]
  dsimp only
  split
  · rfl
  rw [exec_getBalanceForAccount _ (h.stored recipient)]

theorem natCast_of_integer {q : ℚ} (hq : q.den = 1) (h : 0 ≤ q) : ∃ n : ℕ, q = n := by
  have hint : (q.num : ℚ) = q := (Rat.den_eq_one_iff _).1 hq
  refine ⟨q.num.toNat, ?_⟩
  rw [← hint]
  exact_mod_cast (Int.toNat_of_nonneg (Rat.num_nonneg.2 h)).symm

/-- **The arithmetic of a transfer is exact**: no check refuses it. -/
theorem exec_transferChecked_safe (h : Holds (m.load s) balances) (sender recipient : Str) {amount : Binary64.Double}
    (ha : amount.val.den = 1) : (transferChecked safe sender recipient (.fin amount)).exec m s =
      (transfer sender (some (.str recipient)) (some (.num (.fin amount)))).exec m s := by
  rw [← transferChecked_ok, exec_transferChecked safe h, exec_transferChecked .ok h]
  split
  · rfl
  rename_i hpos
  split
  · rfl
  rename_i hsuf
  have hs := h.safe sender
  have hr := h.safe recipient
  rw [Number.ofNat_eq (Nat.zero_le _), Number.le, decide_eq_true_eq, not_le] at hpos
  rw [Number.lt_fin_of_ofNat hs.le, decide_eq_true_eq, not_lt] at hsuf
  obtain ⟨n, hn⟩ := natCast_of_integer ha hpos.le
  have hle : n ≤ balances sender := by
    rw [hn] at hsuf
    exact_mod_cast hsuf
  have hamount : Number.fin amount = .ofNat n := by
    rw [Number.ofNat, ← hn, Number.ofRat_val]
  have hroom : Number.maxSafeInteger.sub (.fin amount) = .ofNat (2 ^ 53 - 1 - n) := by
    rw [hamount, Number.maxSafeInteger, Number.sub_ofNat (by omega) (by norm_num)]
  have hrest : (Number.ofNat (balances sender)).sub (.fin amount) = .ofNat (balances sender - n) := by
    rw [hamount, Number.sub_ofNat hle hs.le]
  rw [hroom, hrest, safe_ofNat (by omega), safe_ofNat (by omega)]
  by_cases hfull : (Number.ofNat (2 ^ 53 - 1 - n)).lt (.ofNat (balances recipient)) = true
  · change (if _ then _ else _ : Prog Unit).exec m s = (if _ then _ else _ : Prog Unit).exec m s
    rw [if_pos hfull, if_pos hfull]
  · have hsum : balances recipient + n < 2 ^ 53 := by
      rw [Number.lt_ofNat (by omega) hr.le, decide_eq_true_eq] at hfull
      omega
    have htotal : (Number.ofNat (balances recipient)).add (.fin amount) = .ofNat (balances recipient + n) := by
      rw [hamount, Number.add_ofNat hsum.le]
    rw [htotal, safe_ofNat hsum]

/-- A transfer keeps the invariant. -/
theorem bounded_transfer (hm : m.Lawful) (h : Bounded (m.load s) balances shares) (sender recipient : Str)
    {amount : Binary64.Double} (ha : amount.val.den = 1) :
    ∃ balances', Bounded (m.load ((transfer sender (some (.str recipient)) (some (.num (.fin amount)))).exec m s).2)
      balances' shares := by
  have hpool : ∀ x y : Number, m.load (storeBalances m s sender recipient x y) allocatedPoolStateVariable =
      m.load s allocatedPoolStateVariable := fun x y =>
    (load_pool_storeBalance hm recipient y).trans (load_pool_storeBalance hm sender x)
  by_cases hpos : amount.val ≤ 0
  · have hle : (Number.fin amount).le (.ofNat 0) = true := by
      rw [Number.ofNat_eq (Nat.zero_le _), Number.le, decide_eq_true_eq]
      exact hpos
    rw [exec_transfer h.holds, if_pos hle]
    exact ⟨_, h⟩
  · obtain ⟨n, hn⟩ := natCast_of_integer ha (le_of_not_ge hpos)
    have hn0 : 0 < n := by
      rw [hn, Nat.cast_nonpos] at hpos
      omega
    by_cases ht : Transferable balances sender recipient n
    · rw [exec_transfer_of_transferable h.holds hn hn0 ht]
      refine ⟨_, holds_move hm h.holds ht, ?_, h.shares_le⟩
      rw [hpool]
      exact h.pool
    · obtain ⟨e, he⟩ := exec_transfer_of_not h.holds hn ht
      rw [he]
      exact ⟨_, h⟩

/-! ## Financing -/

/-- What the pool holds when it pays: at least one share. -/
theorem exec_filledPool_of_bounded (hm : m.Lawful) (h : Bounded (m.load s) balances shares) :
    ∃ k t, filledPool.exec m s = (.ok (.num (.ofNat (10000 * k))), t) ∧ Bounded (m.load t) balances k ∧ 0 < k := by
  by_cases hzero : shares = 0
  · have hpool := h.pool
    rw [hzero, Nat.mul_zero] at hpool
    refine ⟨2000000, _, exec_filledPool_of_zero hm hpool, ⟨h.holds.storePool hm _, ?_, le_rfl⟩, by norm_num⟩
    rw [storePool, hm.load_store_self]
    exact parseBalance_ofNat (by norm_num)
  · have hle := h.shares_le
    have hne : Number.ofNat (10000 * shares) ≠ .ofNat 0 := by
      intro heq
      have := Number.ofNat_inj (by omega) (by omega) heq
      omega
    exact ⟨shares, s, exec_filledPool h.pool hne, h, Nat.pos_of_ne_zero hzero⟩

theorem minus_defaultBalance {k : ℕ} (hk : 0 < k) (hle : k ≤ 2000000) :
    minus (.num (.ofNat (10000 * k))) (some (.num defaultBalance)) = .ok (.ofNat (10000 * (k - 1))) := by
  change Except.ok ((Number.ofNat (10000 * k)).sub (.ofNat 10000)) = _
  rw [Number.sub_ofNat (by omega) (by omega), Nat.mul_sub_one]

theorem bounded_storeBalance (hm : m.Lawful) (h : Bounded (m.load s) balances shares) (account : Str) :
    Bounded (m.load (storeBalance m s account defaultBalance)) (balances.update account 10000) shares := by
  refine ⟨h.holds.finance hm account, ?_, h.shares_le⟩
  rw [load_pool_storeBalance hm]
  exact h.pool

/-- Financing keeps the invariant, and its arithmetic is exact. -/
theorem bounded_financeAccount (hm : m.Lawful) (h : Bounded (m.load s) balances shares) (account : Str) :
    (financeChecked safe account).exec m s = (financeAccount (some (.str account))).exec m s ∧
    ∃ shares', Bounded (m.load ((financeAccount (some (.str account))).exec m s).2) (balances.update account 10000)
      shares' := by
  have hstored := bounded_storeBalance hm h account
  obtain ⟨k, t, hexec, hk, hpos⟩ := exec_filledPool_of_bounded hm hstored
  have hle := hk.shares_le
  have hminus := minus_defaultBalance hpos hle
  constructor
  · rw [← financeChecked_ok]
    change (reduceFromPoolChecked safe defaultBalance).exec m (storeBalance m s account defaultBalance) =
      (reduceFromPoolChecked .ok defaultBalance).exec m (storeBalance m s account defaultBalance)
    apply StateProg.exec_bind_congr
    intro v t' he
    rw [hexec, Prod.mk.injEq, Except.ok.injEq] at he
    have hsafe := safe_ofNat (n := 10000 * (k - 1)) (by omega)
    rw [← he.1, hminus]
    change (ofExcept (safe (.ofNat (10000 * (k - 1)))) >>= _ : Prog Unit).exec m t' = _
    rw [hsafe]
    rfl
  · refine ⟨k - 1, ?_⟩
    have hfinal : ((financeAccount (some (.str account))).exec m s).2 = storePool m t (.ofNat (10000 * (k - 1))) := by
      rw [exec_financeAccount, reduceFromPool_eq, StateProg.exec_bind, hexec]
      dsimp only
      rw [hminus]
      rfl
    rw [hfinal]
    refine ⟨hk.holds.storePool hm _, ?_, by omega⟩
    rw [storePool, hm.load_store_self]
    exact parseBalance_ofNat (by omega)

/-! ## Runs -/

/-- **One call** keeps the invariant, and its arithmetic is exact. -/
theorem bounded_call (hm : m.Lawful) (h : Bounded (m.load s) balances shares) (c : TokenCall) :
    (c.checked safe).exec m s = c.prog.exec m s ∧
      ∃ balances' shares', Bounded (m.load (c.prog.exec m s).2) balances' shares' := by
  cases c with
  | transfer sender recipient amount =>
    obtain ⟨balances', h'⟩ := bounded_transfer hm h sender recipient amount.2
    exact ⟨exec_transferChecked_safe h.holds sender recipient amount.2, balances', shares, h'⟩
  | financeAccount sender account =>
    obtain ⟨hexact, shares', h'⟩ := bounded_financeAccount hm h account
    exact ⟨hexact, _, shares', h'⟩

theorem bounded_of_empty (h : ∀ key, m.load s key = none) : Bounded (m.load s) 0 0 := by
  refine ⟨⟨fun _ => by norm_num, fun account => ?_⟩, ?_, Nat.zero_le _⟩
  · rw [h]
    rfl
  · rw [h]
    rfl

theorem bounded_afterCalls (hm : m.Lawful) (h : Bounded (m.load s) balances shares) (calls : List TokenCall) :
    ∃ balances' shares', Bounded (m.load (afterCalls m s calls)) balances' shares' := by
  induction calls generalizing s balances shares with
  | nil => exact ⟨balances, shares, h⟩
  | cons c calls ih =>
    obtain ⟨-, balances', shares', h'⟩ := bounded_call hm h c
    exact ih h'

theorem checked_ok (c : TokenCall) : c.checked .ok = c.prog := by
  cases c with
  | transfer sender recipient amount => exact transferChecked_ok sender recipient _
  | financeAccount sender account => exact financeChecked_ok account

/-- **After any calls from an empty state the numbers are in range**, and no result of the next call's arithmetic is
refused for being out of it. -/
theorem inRange_calls (hm : m.Lawful) (h : ∀ key, m.load s key = none) (calls : List TokenCall) :
    InRange (m.load (afterCalls m s calls)) ∧
      ∀ c : TokenCall, c.checked .ok = c.prog ∧
        (c.checked safe).exec m (afterCalls m s calls) = c.prog.exec m (afterCalls m s calls) := by
  obtain ⟨balances, shares, hb⟩ := bounded_afterCalls hm (bounded_of_empty h) calls
  exact ⟨hb.inRange, fun c => ⟨checked_ok c, (bounded_call hm hb c).1⟩⟩

/-- Bob is financed and pays Alice, and himself. -/
theorem inRange_calls_bob :
    let calls : List TokenCall :=
      [.financeAccount "bob".toList "bob".toList,
        .transfer "bob".toList "alice".toList ⟨.ofInt 40 (by decide), rfl⟩,
        .transfer "bob".toList "bob".toList ⟨.ofInt 7 (by decide), rfl⟩]
    let m := accessor (fun _ => none) sampleContract
    InRange (m.load (afterCalls m StateCache.empty calls)) ∧
      ∀ c : TokenCall, c.checked .ok = c.prog ∧ (c.checked safe).exec m (afterCalls m StateCache.empty calls) =
        c.prog.exec m (afterCalls m StateCache.empty calls) :=
  inRange_calls (lawful_accessor _ _) (fun _ => rfl) _

end

end KinAtnSmartContract
end Orbs
