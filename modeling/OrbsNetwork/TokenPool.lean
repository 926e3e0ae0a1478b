import OrbsNetwork.TokenTransfer
/-!
# TokenPool — accounts that are financed from a pool

`financeAccount` gives an account `DEFAULT_BALANCE`, whatever it had, and takes as much from the pool, which starts again
when it is empty.  So tokens are neither made nor lost exactly when the account had none (`financeAccount_conserves_iff`).

Over any calls of `transfer` and `financeAccount` from an empty state, all numbers stay where the arithmetic is exact
(`balances_inRange`).
-/
namespace Orbs
namespace KinAtnSmartContract

open Js VirtualMachine Ledger
open StateProg (Machine ofExcept)

section
variable {σ : Type} {m : Machine σ Str Str} {s : σ}

theorem exec_getPoolBalance {β : Type} {v : Val} (f : Val → Prog β)
    (h : parseBalance (m.load s allocatedPoolStateVariable) = .ok v) :
    (getPoolBalance >>= f).exec m s = (f v).exec m s := by
  rw [StateProg.exec_bind, getPoolBalance, exec_read_ofExcept, h]

def storePool (m : Machine σ Str Str) (s : σ) (x : Number) : σ :=
  m.store s allocatedPoolStateVariable (some (Val.stringify (.num x)))

def storeBalance (m : Machine σ Str Str) (s : σ) (account : Str) (x : Number) : σ :=
  m.store s (getAccountBalanceKey account) (some (Val.stringify (.num x)))

/-- The first part of `reduceFromPool`: an empty pool starts again. -/
def filledPool : Prog Val :=
  getPoolBalance >>= fun allocatedBalance => ofExcept (isZero allocatedBalance) >>= fun reset =>
    if reset then setPoolBalance (some (.num poolInitialValue)) >>= fun _ => getPoolBalance else pure allocatedBalance

theorem reduceFromPool_eq (amount : Option Val) : reduceFromPool amount =
    filledPool >>= fun allocatedBalance => ofExcept (minus allocatedBalance amount) >>= fun rest =>
      setPoolBalance (some (.num rest)) := by
  unfold reduceFromPool filledPool
  rw [StateProg.bind_assoc]
  congr 1
  funext allocatedBalance
  rw [StateProg.bind_assoc]

theorem exec_filledPool {pool : Number} (h : parseBalance (m.load s allocatedPoolStateVariable) = .ok (.num pool))
    (hpool : pool ≠ .ofNat 0) : filledPool.exec m s = (.ok (.num pool), s) := by
  have hzero : isZero (.num pool) = .ok false := congrArg Except.ok (decide_eq_false hpool)
  unfold filledPool
  rw [exec_getPoolBalance _ h, hzero]
  rfl

theorem parseBalance_initialPool (hm : m.Lawful) :
    parseBalance (m.load (storePool m s poolInitialValue) allocatedPoolStateVariable) = .ok (.num poolInitialValue) := by
  rw [storePool, hm.load_store_self]
  exact parseBalance_ofNat (by norm_num)

theorem exec_filledPool_of_zero (hm : m.Lawful)
    (h : parseBalance (m.load s allocatedPoolStateVariable) = .ok (.num (.ofNat 0))) :
    filledPool.exec m s = (.ok (.num poolInitialValue), storePool m s poolInitialValue) := by
  have hzero : isZero (.num (.ofNat 0)) = .ok true := congrArg Except.ok (decide_eq_true rfl)
  unfold filledPool
  rw [exec_getPoolBalance _ h, hzero]
  change getPoolBalance.exec m (storePool m s poolInitialValue) = _
  rw [getPoolBalance, exec_read_ofExcept, parseBalance_initialPool hm]

theorem exec_reduceFromPool {pool amount : Number}
    (h : parseBalance (m.load s allocatedPoolStateVariable) = .ok (.num pool)) (hpool : pool ≠ .ofNat 0) :
    (reduceFromPool (some (.num amount))).exec m s = (.ok (), storePool m s (pool.sub amount)) := by
  rw [reduceFromPool_eq, StateProg.exec_bind, exec_filledPool h hpool]
  rfl

theorem load_pool_storeBalance (hm : m.Lawful) (account : Str) (x : Number) :
    m.load (storeBalance m s account x) allocatedPoolStateVariable = m.load s allocatedPoolStateVariable :=
  hm.load_store_of_ne _ _ (pool_ne_getAccountBalanceKey account)

theorem load_balance_storePool (hm : m.Lawful) (account : Str) (x : Number) :
    m.load (storePool m s x) (getAccountBalanceKey account) = m.load s (getAccountBalanceKey account) :=
  hm.load_store_of_ne _ _ (pool_ne_getAccountBalanceKey account).symm

theorem load_balance_storeBalance (hm : m.Lawful) {account a : Str} (x : Number) (hne : a ≠ account) :
    m.load (storeBalance m s account x) (getAccountBalanceKey a) = m.load s (getAccountBalanceKey a) :=
  hm.load_store_of_ne _ _ fun h => hne (getAccountBalanceKey_inj h)

theorem exec_financeAccount (account : Str) : (financeAccount (some (.str account))).exec m s =
    (reduceFromPool (some (.num defaultBalance))).exec m (storeBalance m s account defaultBalance) := rfl

/-- What `financeAccount` does to the balances: the account's is assigned. -/
theorem Holds.finance (hm : m.Lawful) {balances : Ledger Str} (h : Holds (m.load s) balances) (account : Str) :
    Holds (m.load (storeBalance m s account defaultBalance)) (balances.update account 10000) := by
  constructor
  · intro a
    rw [Finsupp.update_apply]
    split_ifs
    · norm_num
    · exact h.safe a
  · intro a
    rw [Finsupp.update_apply]
    by_cases ha : a = account
    · rw [if_pos ha, ha, storeBalance, hm.load_store_self]
      exact parseBalance_ofNat (by norm_num)
    · rw [if_neg ha, load_balance_storeBalance hm _ ha]
      exact h.stored a

theorem Holds.storePool (hm : m.Lawful) {balances : Ledger Str} (h : Holds (m.load s) balances) (x : Number) :
    Holds (m.load (storePool m s x)) balances :=
  ⟨h.safe, fun a => by rw [load_balance_storePool hm]; exact h.stored a⟩

end

/-! ## Conservation -/

/-- What the accounts and the pool hold, through what the contract loads. -/
structure Funds (load : Str → Option Str) (balances : Ledger Str) (pool : Binary64.Double) : Prop where
  holds : Holds load balances
  pool_stored : parseBalance (load allocatedPoolStateVariable) = .ok (.num (.fin pool))

/-- All tokens. -/
def sum (balances : Ledger Str) (pool : Binary64.Double) : ℚ := total balances + pool.val

/-- The call returns and leaves as many tokens as there were. -/
def KeepsSum {σ : Type} (m : Machine σ Str Str) (balances : Ledger Str) (pool : Binary64.Double) :
    Except ContractError Unit × σ → Prop
  | (.ok _, s) => ∃ balances' pool', Funds (m.load s) balances' pool' ∧ sum balances' pool' = sum balances pool
  | (.error _, _) => False

/-- What the difference `pool - DEFAULT_BALANCE`, rounded to a double, takes off the pool. -/
def takenOff (pool : Binary64.Double) : ℚ := pool.val - Binary64.nearest (pool.val - 10000)

theorem takenOff_eq {pool : Binary64.Double} {n : ℕ} (hn : pool.val = n) (hsafe : n ≤ 2 ^ 53) (hle : 10000 ≤ n) :
    takenOff pool = 10000 := by
  have hint : pool.val - 10000 = ((n - 10000 : ℤ) : ℚ) := by
    rw [hn]
    push_cast
    ring
  have habs : |((n : ℤ) - 10000)| ≤ 2 ^ 53 := by
    rw [abs_of_nonneg (by omega)]
    omega
  unfold takenOff
  rw [hint, Binary64.nearest_intCast habs, ← hint]
  ring

theorem sub_defaultBalance {pool : Binary64.Double} (hle : 10000 ≤ pool.val) :
    ∃ rest : Binary64.Double, (Number.fin pool).sub defaultBalance = .fin rest ∧ rest.val = pool.val - takenOff pool := by
  have hdefault : defaultBalance = .fin (.ofInt 10000 (by norm_num)) := Number.ofNat_eq (by norm_num)
  have hlow : 0 ≤ Binary64.nearest (pool.val - 10000) :=
    Binary64.le_nearest (Binary64.nearest_intCast (n := 0) (by norm_num)) (by linarith)
  have hhigh : Binary64.nearest (pool.val - 10000) ≤ pool.val := Binary64.nearest_le pool.isNearest (by linarith)
  have hrange : |Binary64.nearest (pool.val - 10000)| < 2 ^ 1024 := by
    rw [abs_of_nonneg hlow]
    exact hhigh.trans_lt ((le_abs_self _).trans_lt pool.inRange)
  have hval : pool.val - (Binary64.Double.ofInt 10000 (by norm_num)).val = pool.val - 10000 := by
    simp [Binary64.Double.ofInt]
  rw [hdefault, Number.sub_fin, hval, Number.ofRat, dif_pos hrange]
  exact ⟨_, rfl, by unfold takenOff; ring⟩

section
variable {stateStorage : KeyValues} {contractAddress : Bytes} {c : StateCache} {balances : Ledger Str}
  {pool : Binary64.Double}

theorem Funds.unique {load : Str → Option Str} {balances' : Ledger Str} {pool' : Binary64.Double}
    (h : Funds load balances pool) (h' : Funds load balances' pool') : balances = balances' ∧ pool = pool' := by
  refine ⟨h.holds.unique h'.holds, ?_⟩
  have hp := h.pool_stored.symm.trans h'.pool_stored
  rwa [Except.ok.injEq, Val.num.injEq, Number.fin.injEq] at hp

/-- **What financing does**: the balance is assigned, and the pool pays. -/
theorem funds_financeAccount (h : Funds ((accessor stateStorage contractAddress).load c) balances pool)
    (hpool : 10000 ≤ pool.val) (account : Str) : ∃ c' rest,
      (financeAccount (some (.str account))).exec (accessor stateStorage contractAddress) c = (.ok (), c') ∧
      rest.val = pool.val - takenOff pool ∧
      Funds ((accessor stateStorage contractAddress).load c') (balances.update account 10000) rest := by
  have hm := lawful_accessor stateStorage contractAddress
  obtain ⟨rest, hsub, hrest⟩ := sub_defaultBalance hpool
  have hstored : parseBalance ((accessor stateStorage contractAddress).load
      (storeBalance (accessor stateStorage contractAddress) c account defaultBalance) allocatedPoolStateVariable) =
        .ok (.num (.fin pool)) := by
    rw [load_pool_storeBalance hm]
    exact h.pool_stored
  have hne : Number.fin pool ≠ .ofNat 0 := by
    intro hz
    rw [Number.ofNat_eq (Nat.zero_le _), Number.fin.injEq] at hz
    rw [hz] at hpool
    norm_num [Binary64.Double.ofInt] at hpool
  refine ⟨_, rest, (exec_financeAccount account).trans (exec_reduceFromPool hstored hne), hrest, ?_, ?_⟩
  · exact (h.holds.finance hm account).storePool hm _
  · rw [hsub, storePool, hm.load_store_self]
    exact parseBalance_stringify rest

theorem sum_update (balances : Ledger Str) (account : Str) (rest : Binary64.Double) :
    sum (balances.update account 10000) rest = total balances - balances account + 10000 + rest.val := by
  have h := total_update balances account 10000
  have hq : ((total (balances.update account 10000) : ℕ) : ℚ) + (balances account : ℕ) = (total balances : ℕ) + 10000 := by
    exact_mod_cast h
  unfold sum
  linarith

theorem keepsSum_iff (h : Funds ((accessor stateStorage contractAddress).load c) balances pool)
    (hpool : 10000 ≤ pool.val) (account : Str) :
    KeepsSum (accessor stateStorage contractAddress) balances pool
        ((financeAccount (some (.str account))).exec (accessor stateStorage contractAddress) c) ↔
      balances account + takenOff pool = 10000 := by
  obtain ⟨c', rest, hexec, hrest, hfunds⟩ := funds_financeAccount h hpool account
  have hsum := sum_update balances account rest
  rw [hexec]
  constructor
  · rintro ⟨balances', pool', hfunds', heq⟩
    obtain ⟨rfl, rfl⟩ := hfunds.unique hfunds'
    rw [hsum, hrest] at heq
    unfold sum at heq
    linarith
  · intro heq
    refine ⟨_, rest, hfunds, ?_⟩
    rw [hsum, hrest]
    unfold sum
    linarith

/-- **Tokens are kept exactly when what the account had is made up for.**  For a pool that needs no rounding, that is
when it had none. -/
theorem financeAccount_conserves_iff (h : Funds ((accessor stateStorage contractAddress).load c) balances pool) {k : ℕ}
    (hk : 0 < k) (hpool : pool.val = (10000 * k : ℕ)) (account : Str) :
    (KeepsSum (accessor stateStorage contractAddress) balances pool
        ((financeAccount (some (.str account))).exec (accessor stateStorage contractAddress) c) ↔
      balances account + takenOff pool = 10000) ∧
    (10000 * k ≤ 2 ^ 53 →
      (KeepsSum (accessor stateStorage contractAddress) balances pool
          ((financeAccount (some (.str account))).exec (accessor stateStorage contractAddress) c) ↔
        balances account = 0)) := by
  have hle : 10000 ≤ pool.val := by
    rw [hpool]
    exact_mod_cast Nat.le_mul_of_pos_right _ hk
  refine ⟨keepsSum_iff h hle account, fun hsafe => (keepsSum_iff h hle account).trans ?_⟩
  rw [takenOff_eq hpool hsafe (Nat.le_mul_of_pos_right _ hk)]
  constructor
  · intro heq
    have : (balances account : ℚ) = 0 := by linarith
    exact_mod_cast this
  · intro hzero
    rw [hzero]
    norm_num

end

/-- Alice has a hundred tokens, and the pool has enough for two accounts. -/
def aliceAndPool : KeyValues :=
  Function.update aliceHasHundred { contractAddress := sampleContract, key := allocatedPoolStateVariable }
    (some "20000".toList)

def twoShares : Binary64.Double := .ofInt 20000 (by norm_num)

theorem load_of_empty (stateStorage : KeyValues) (contractAddress : Bytes) (key : Str) :
    (accessor stateStorage contractAddress).load .empty key = stateStorage { contractAddress, key } := rfl

theorem funds_aliceAndPool : Funds ((accessor aliceAndPool sampleContract).load .empty) hundred twoShares := by
  refine ⟨⟨holds_hundred.safe, fun account => ?_⟩, ?_⟩
  · have hload : (accessor aliceAndPool sampleContract).load .empty (getAccountBalanceKey account) =
        (accessor aliceHasHundred sampleContract).load .empty (getAccountBalanceKey account) := by
      rw [load_of_empty, load_of_empty, aliceAndPool, Function.update_of_ne]
      exact fun h => pool_ne_getAccountBalanceKey account (StateCacheKey.mk.inj h).2.symm
    rw [hload]
    exact holds_hundred.stored account
  · have hload : (accessor aliceAndPool sampleContract).load .empty allocatedPoolStateVariable = some "20000".toList := by
      rw [load_of_empty]
      exact Function.update_self ..
    rw [hload]
    exact parseBalance_stringify twoShares

theorem financeAccount_conserves_bob : KeepsSum (accessor aliceAndPool sampleContract) hundred twoShares
    ((financeAccount (some (.str "bob".toList))).exec (accessor aliceAndPool sampleContract) .empty) := by
  have hnone : hundred "bob".toList = 0 := Finsupp.single_eq_of_ne (by decide)
  have hpool : twoShares.val = (10000 * 2 : ℕ) := by norm_num [twoShares, Binary64.Double.ofInt]
  exact ((financeAccount_conserves_iff funds_aliceAndPool (by norm_num) hpool _).2 (by norm_num)).2 hnone

/-- **Alice's hundred tokens are lost** when she is financed. -/
theorem financeAccount_loses_alice : ¬ KeepsSum (accessor aliceAndPool sampleContract) hundred twoShares
    ((financeAccount (some (.str "alice".toList))).exec (accessor aliceAndPool sampleContract) .empty) := by
  have hhas : hundred "alice".toList = 100 := Finsupp.single_eq_same
  have hpool : twoShares.val = (20000 : ℕ) := by norm_num [twoShares, Binary64.Double.ofInt]
  rw [keepsSum_iff funds_aliceAndPool (by rw [hpool]; norm_num), hhas, takenOff_eq hpool (by norm_num) (by norm_num)]
  norm_num

end KinAtnSmartContract
end Orbs
