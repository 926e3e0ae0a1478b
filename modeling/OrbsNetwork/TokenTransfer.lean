import OrbsNetwork.KinAtnSmartContract
import OrbsNetwork.Lib.Ledger
/-!
# TokenTransfer — what a transfer does to the balances

On balances that are integers up to `Number.MAX_SAFE_INTEGER`, a `transfer` that does not throw is a `move` of the
ledger: it has both balances before it stores either.  So it conserves the total between two accounts, but an account
that transfers to itself ends with the amount on top of what it had (`conserves_iff`).
-/
namespace Orbs
namespace KinAtnSmartContract

open Js VirtualMachine Ledger
open StateProg (Machine)

/-- What the accounts hold, through what the contract loads. -/
structure Holds (load : Str → Option Str) (balances : Ledger Str) : Prop where
  safe : ∀ account, balances account < 2 ^ 53
  stored : ∀ account, parseBalance (load (getAccountBalanceKey account)) = .ok (.num (.ofNat (balances account)))

theorem Holds.unique {load : Str → Option Str} {balances balances' : Ledger Str} (h : Holds load balances)
    (h' : Holds load balances') : balances = balances' := by
  ext account
  have hs := (h.stored account).symm.trans (h'.stored account)
  rw [Except.ok.injEq, Val.num.injEq] at hs
  exact Number.ofNat_inj (h.safe account).le (h'.safe account).le hs

section
variable {σ : Type} {m : Machine σ Str Str} {s : σ} {balances : Ledger Str} {sender recipient : Str}

theorem exec_getBalanceForAccount {β : Type} {account : Str} {v : Val} (f : Val → Prog β)
    (h : parseBalance (m.load s (getAccountBalanceKey account)) = .ok v) :
    (getBalanceForAccount account >>= f).exec m s = (f v).exec m s := by
  rw [StateProg.exec_bind, getBalanceForAccount, exec_read_ofExcept, h]

def storeBalances (m : Machine σ Str Str) (s : σ) (sender recipient : Str) (x y : Number) : σ :=
  m.store (m.store s (getAccountBalanceKey sender) (some (Val.stringify (.num x)))) (getAccountBalanceKey recipient)
    (some (Val.stringify (.num y)))

/-- A transfer that throws has stored nothing. -/
theorem exec_transfer (h : Holds (m.load s) balances) (amount : Number) :
    (transfer sender (some (.str recipient)) (some (.num amount))).exec m s =
      if amount.le (.ofNat 0) then (.error (validationError "Transaction amount must be > 0".toList), s)
      else if (Number.ofNat (balances sender)).lt amount then
        (.error (validationError ("Insufficient balance ".toList ++ (Number.ofNat (balances sender)).toString
          ++ " < ".toList ++ amount.toString)), s)
      else if (Number.maxSafeInteger.sub amount).lt (.ofNat (balances recipient)) then
        (.error (validationError ("Recipient account of ".toList ++ recipient ++ " is at balance ".toList
          ++ (Number.ofNat (balances recipient)).toString ++ " and will overflow if ".toList ++ amount.toString
          ++ " is added".toList)), s)
      else (.ok (), storeBalances m s sender recipient ((Number.ofNat (balances sender)).sub amount)
        ((Number.ofNat (balances recipient)).add amount)) := by
  unfold transfer
  dsimp only
  split
  · rfl
  rw [exec_getBalanceForAccount _ (h.stored sender)]
  dsimp only
  split
  · rfl
  rw [exec_getBalanceForAccount _ (h.stored recipient)]
  dsimp only
  split
  · rfl
  · rfl

/-- The sender has the amount, and the recipient has room for it. -/
def Transferable (balances : Ledger Str) (sender recipient : Str) (n : ℕ) : Prop :=
  n ≤ balances sender ∧ balances recipient + n < 2 ^ 53

variable {amount : Binary64.Double} {n : ℕ}

theorem exec_transfer_of_not (h : Holds (m.load s) balances) (ha : amount.val = n)
    (ht : ¬ Transferable balances sender recipient n) : ∃ e,
      (transfer sender (some (.str recipient)) (some (.num (.fin amount)))).exec m s = (.error e, s) := by
  have hs := h.safe sender
  have hr := h.safe recipient
  rw [exec_transfer h]
  split
  · exact ⟨_, rfl⟩
  split
  · exact ⟨_, rfl⟩
  rename_i hsuf
  rw [Number.lt_fin_of_ofNat hs.le, ha, decide_eq_true_eq, Nat.cast_lt, not_lt] at hsuf
  have hroom : (Number.maxSafeInteger.sub (.fin amount)).lt (.ofNat (balances recipient)) = true := by
    rw [← Number.ofRat_val, ha, ← Number.ofNat, Number.maxSafeInteger, Number.sub_ofNat (by omega) (by norm_num),
      Number.lt_ofNat (by omega) hr.le, decide_eq_true_eq]
    unfold Transferable at ht
    omega
  rw [if_pos hroom]
  exact ⟨_, rfl⟩

theorem exec_transfer_of_transferable (h : Holds (m.load s) balances) (ha : amount.val = n) (hn : 0 < n)
    (ht : Transferable balances sender recipient n) :
    (transfer sender (some (.str recipient)) (some (.num (.fin amount)))).exec m s =
      (.ok (), storeBalances m s sender recipient (.ofNat (balances sender - n)) (.ofNat (balances recipient + n))) := by
  obtain ⟨hle, hroom⟩ := ht
  have hs := h.safe sender
  have heq : Number.fin amount = .ofNat n := by
    rw [Number.ofNat, ← ha, Number.ofRat_val]
  have hpos : (Number.fin amount).le (.ofNat 0) = false := by
    rw [heq, Number.ofNat_eq (n := n) (by omega), Number.ofNat_eq (Nat.zero_le _), Number.le]
    simpa [Binary64.Double.ofInt] using hn.ne'
  have hsuf : (Number.ofNat (balances sender)).lt (.fin amount) = false := by
    rw [Number.lt_fin_of_ofNat hs.le, ha, decide_eq_false_iff_not, Nat.cast_lt]
    omega
  have hmax : (Number.maxSafeInteger.sub (.ofNat n)).lt (.ofNat (balances recipient)) = false := by
    rw [Number.maxSafeInteger, Number.sub_ofNat (by omega) (by norm_num), Number.lt_ofNat (by omega) (by omega),
      decide_eq_false_iff_not]
    omega
  rw [exec_transfer h, if_neg (by rw [hpos]; exact Bool.false_ne_true), if_neg (by rw [hsuf]; exact Bool.false_ne_true),
    heq, if_neg (by rw [hmax]; exact Bool.false_ne_true), Number.sub_ofNat hle hs.le, Number.add_ofNat hroom.le]

theorem parseBalance_ofNat {k : ℕ} (hk : k ≤ 2 ^ 53) :
    parseBalance (some (Val.stringify (.num (.ofNat k)))) = .ok (.num (.ofNat k)) := by
  rw [Number.ofNat_eq hk, parseBalance_stringify]

/-- **Storing the two balances is a move of the ledger**, on a machine that keeps the accounts apart. -/
theorem holds_move (hm : m.Lawful) (h : Holds (m.load s) balances) (ht : Transferable balances sender recipient n) :
    Holds (m.load (storeBalances m s sender recipient (.ofNat (balances sender - n)) (.ofNat (balances recipient + n))))
      (move balances sender recipient n) := by
  obtain ⟨hle, hroom⟩ := ht
  have hkey : ∀ {a b : Str}, a ≠ b → getAccountBalanceKey a ≠ getAccountBalanceKey b :=
    fun hne hk => hne (getAccountBalanceKey_inj hk)
  constructor
  · intro account
    have := h.safe account
    have := h.safe sender
    unfold move
    rw [Finsupp.update_apply, Finsupp.update_apply]
    split_ifs <;> omega
  · intro account
    unfold move storeBalances
    rw [Finsupp.update_apply, Finsupp.update_apply]
    by_cases hr : account = recipient
    · rw [if_pos hr, hr, hm.load_store_self, parseBalance_ofNat hroom.le]
    rw [if_neg hr, hm.load_store_of_ne _ _ (hkey hr)]
    by_cases hs : account = sender
    · have := h.safe sender
      rw [if_pos hs, hs, hm.load_store_self, parseBalance_ofNat (by omega)]
    · rw [if_neg hs, hm.load_store_of_ne _ _ (hkey hs)]
      exact h.stored account

end

/-! ## Conservation -/

/-- A call that returns keeps the total and changes at most the balances of the sender and the recipient; one that
throws changes no balance. -/
def Conserves {σ : Type} (m : Machine σ Str Str) (balances : Ledger Str) (sender recipient : Str) :
    Except ContractError Unit × σ → Prop
  | (.ok _, s) => ∃ balances', Holds (m.load s) balances' ∧ total balances' = total balances ∧
      ∀ account, account ≠ sender → account ≠ recipient → balances' account = balances account
  | (.error _, s) => Holds (m.load s) balances

/-- **A transfer conserves money unless an account pays itself.** -/
theorem conserves_iff {stateStorage : KeyValues} {contractAddress : Bytes} {c : StateCache} {balances : Ledger Str}
    (h : Holds ((accessor stateStorage contractAddress).load c) balances) (sender recipient : Str)
    {amount : Binary64.Double} {n : ℕ} (ha : amount.val = n) (hn : 0 < n) :
    Conserves (accessor stateStorage contractAddress) balances sender recipient
        ((transfer sender (some (.str recipient)) (some (.num (.fin amount)))).exec
          (accessor stateStorage contractAddress) c) ↔
      (sender = recipient → ¬ Transferable balances sender recipient n) := by
  by_cases ht : Transferable balances sender recipient n
  · rw [exec_transfer_of_transferable h ha hn ht]
    have hmove := holds_move (lawful_accessor stateStorage contractAddress) h ht
    constructor
    · rintro ⟨balances', h', htotal, -⟩ rfl
      rw [h'.unique hmove, total_move_self] at htotal
      omega
    · intro hne
      exact ⟨_, hmove, total_move (fun he => hne he ht) ht.1, fun _ => move_of_ne _ _⟩
  · obtain ⟨e, he⟩ := exec_transfer_of_not h ha ht
    rw [he]
    exact ⟨fun _ _ => ht, fun _ => h⟩

/-- What alice and everyone else has in `aliceHasHundred`. -/
noncomputable def hundred : Ledger Str := Finsupp.single "alice".toList 100

theorem holds_hundred : Holds ((accessor aliceHasHundred sampleContract).load .empty) hundred := by
  constructor
  · intro account
    unfold hundred
    rw [Finsupp.single_apply]
    split_ifs <;> norm_num
  · intro account
    unfold hundred
    rw [Finsupp.single_apply]
    by_cases ha : "alice".toList = account
    · rw [if_pos ha, ← ha]
      exact storedBalance_eq run_setOther.2.1
    · have hkey : ({ contractAddress := sampleContract, key := getAccountBalanceKey account } : StateCacheKey) ≠
          { contractAddress := sampleContract, key := getAccountBalanceKey "alice".toList } :=
        fun he => ha (getAccountBalanceKey_inj (StateCacheKey.mk.inj he).2).symm
      have hload : (accessor aliceHasHundred sampleContract).load .empty (getAccountBalanceKey account) = none :=
        if_neg hkey
      rw [if_neg ha, hload]
      rfl

theorem conserves_aliceToBob : ∃ amount : Binary64.Double, amount.val = (40 : ℕ) ∧
    Conserves (accessor aliceHasHundred sampleContract) hundred "alice".toList "bob".toList
      ((transfer "alice".toList (some (.str "bob".toList)) (some (.num (.fin amount)))).exec
        (accessor aliceHasHundred sampleContract) .empty) := by
  have hamount : (Binary64.Double.ofInt 40 (by norm_num)).val = (40 : ℕ) := rfl
  exact ⟨_, hamount, (conserves_iff holds_hundred _ _ hamount (by norm_num)).2 fun he => absurd he (by decide)⟩

/-- **Alice makes a token by paying it to herself.** -/
theorem aliceToAlice : ∃ amount : Binary64.Double, amount.val = (1 : ℕ) ∧
    ¬ Conserves (accessor aliceHasHundred sampleContract) hundred "alice".toList "alice".toList
      ((transfer "alice".toList (some (.str "alice".toList)) (some (.num (.fin amount)))).exec
        (accessor aliceHasHundred sampleContract) .empty) := by
  have hamount : (Binary64.Double.ofInt 1 (by norm_num)).val = (1 : ℕ) := by simp [Binary64.Double.ofInt]
  have hhas : hundred "alice".toList = 100 := Finsupp.single_eq_same
  have ht : Transferable hundred "alice".toList "alice".toList 1 := by
    unfold Transferable
    rw [hhas]
    norm_num
  refine ⟨_, hamount, ?_⟩
  rw [exec_transfer_of_transferable holds_hundred hamount (by norm_num) ht]
  rintro ⟨balances', h', htotal, -⟩
  rw [h'.unique (holds_move (lawful_accessor _ _) holds_hundred ht), total_move_self] at htotal
  omega

end KinAtnSmartContract
end Orbs
