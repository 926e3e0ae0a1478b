import OrbsNetwork.TransactionAdmission
/-!
# PoolExpiry — how long the pending pool keeps a transaction

A cleanup takes out the transactions whose timestamp has been over for a lifespan.  The timestamp is the sender's: any
text, or through gossip any value, that is not over when the request comes.  One that is ahead of the clock keeps its
transaction that much longer, and one that is no number keeps it for ever.

A run forgets what it stores, however it goes on, exactly when every transaction has a timestamp that is over no later
than the time at which the transaction is stored (`forgets_iff`).
-/
namespace Orbs
namespace TransactionAdmission

open Js TransactionPool

/-! ## Timestamps -/

/-- `Number(transaction.header.timestamp)`. -/
def timestampOf (tx : Val) : Except Str Number := do
  let timestamp ← headerOf tx "timestamp"
  match timestamp.elim (some .nan) Val.toNumber with
  | some x => return x
  | none => throw "TypeError: Cannot convert object to primitive value".toList

/-- What is stamped `x` is expired whenever what is stamped `t` is. -/
def ExpiresBy (lifespan : Option Number) (t : Time) (x : Number) : Prop :=
  ∀ now, t ≤ now → BaseTransactionPool.isExpired lifespan now (.ofNat t) = true →
    BaseTransactionPool.isExpired lifespan now x = true

theorem isTransactionExpired_eq (lifespan : Option Number) (now : Time) (tx : Val) :
    isTransactionExpired lifespan now tx = (timestampOf tx).map (BaseTransactionPool.isExpired lifespan now) := by
  unfold isTransactionExpired timestampOf
  cases headerOf tx "timestamp" with
  | error e => rfl
  | ok timestamp =>
    dsimp only [Bind.bind, Except.bind]
    cases timestamp.elim (some Number.nan) Val.toNumber with
    | none => rfl
    | some x => rfl

theorem isTransactionExpired_of_timestamp {tx : Val} {x : Number} (h : timestampOf tx = .ok x)
    (lifespan : Option Number) (now : Time) :
    isTransactionExpired lifespan now tx = .ok (BaseTransactionPool.isExpired lifespan now x) := by
  rw [isTransactionExpired_eq, h]
  rfl

/-- A number of milliseconds after the time at which a whole lifespan has passed. -/
theorem isExpired_ofNat {lifespan : Option Number} {n : ℕ}
    (hl : BaseTransactionPool.transactionLifespanMs lifespan = .ofNat n) {m : ℕ} (hm : m + n ≤ 2 ^ 53) (now : Time) :
    BaseTransactionPool.isExpired lifespan now (.ofNat m) = decide (m + n < now.1) := by
  rw [BaseTransactionPool.isExpired, hl, Number.add_ofNat hm, Number.lt_ofNat hm (now.2.trans (by norm_num))]

/-- With a lifespan in whole milliseconds, what counts is the first millisecond after it. -/
theorem expiresBy_iff {lifespan : Option Number} {n : ℕ}
    (hl : BaseTransactionPool.transactionLifespanMs lifespan = .ofNat n) {t : Time} (ht : t.1 + n + 1 ≤ 8640000000000000)
    {x : Number} : ExpiresBy lifespan t x ↔ (x.add (.ofNat n)).lt (.ofNat (t.1 + n + 1)) = true := by
  have hroom : t.1 + n ≤ 2 ^ 53 := by omega
  constructor
  · intro h
    have hx := h ⟨t.1 + n + 1, ht⟩ (by change t.1 ≤ t.1 + n + 1; omega) (by
      rw [isExpired_ofNat hl hroom]
      exact decide_eq_true (Nat.lt_succ_self _))
    rw [BaseTransactionPool.isExpired, hl] at hx
    exact hx
  · intro h now _ hexp
    rw [isExpired_ofNat hl hroom, decide_eq_true_eq] at hexp
    rw [BaseTransactionPool.isExpired, hl]
    exact Number.lt_of_lt_of_le h (Number.ofNat_le_ofNat hexp (now.2.trans (by norm_num)))

/-- **A timestamp in whole milliseconds is over in time exactly when it is not ahead of the clock.** -/
theorem expiresBy_ofNat_iff {lifespan : Option Number} {n : ℕ}
    (hl : BaseTransactionPool.transactionLifespanMs lifespan = .ofNat n) {t : Time} (ht : t.1 + n + 1 ≤ 8640000000000000)
    {m : ℕ} (hm : m + n ≤ 2 ^ 53) : ExpiresBy lifespan t (.ofNat m) ↔ m ≤ t.1 := by
  rw [expiresBy_iff hl ht, Number.add_ofNat hm, Number.lt_ofNat hm (ht.trans (by norm_num)), decide_eq_true_eq]
  omega

/-- A timestamp that is no number is never over. -/
theorem not_expiresBy_nan {lifespan : Option Number} {n : ℕ}
    (hl : BaseTransactionPool.transactionLifespanMs lifespan = .ofNat n) {t : Time} (ht : t.1 + n + 1 ≤ 8640000000000000) :
    ¬ ExpiresBy lifespan t .nan := by
  rw [expiresBy_iff hl ht]
  exact Bool.false_ne_true

/-! ## What a step does to the pool -/

/-- The pool holds the transaction, under whatever id. -/
def Holds (s : State) (tx : Val) : Prop := ∃ txid, s.pendingTransactions.get txid = some tx

/-- `storePendingTransaction` comes to its end and returns the id of the transaction. -/
def Stores (cfg : Config) (s : State) (a : Action) (tx : Val) : Prop :=
  ∃ i isSubscriptionValid txid, a = .validated i isSubscriptionValid ∧ s.admissions[i]? = some tx ∧
    validate cfg.primitives cfg.options isSubscriptionValid tx = .ok true ∧
    calculateTransactionId cfg.primitives tx = .ok txid

section
variable {cfg : Config} {s s' t : State}

theorem step_stores {a : Action} {tx : Val} (h : Stores cfg s a tx) :
    ∃ s', step cfg s a = some s' ∧ s'.now = s.now ∧ Holds s' tx := by
  obtain ⟨i, f, txid, rfl, hi, hv, hid⟩ := h
  refine ⟨{ s with
    admissions := s.admissions.eraseIdx i
    pendingTransactions := s.pendingTransactions.set txid tx }, ?_, rfl, txid, JsMap.get_set_self _ _ _⟩
  simp only [step, hi, hv, store, hid]
  rfl

variable (cfg s) in
theorem request_eq_or (tx : Val) : orElse s (request cfg s tx) = s ∨
    isTransactionExpired cfg.pendingLifespan s.now tx = .ok false ∧
      orElse s (request cfg s tx) = { s with admissions := s.admissions ++ [tx] } := by
  cases hr : request cfg s tx with
  | error e => exact .inl rfl
  | ok u =>
    refine .inr ⟨?_, request_eq_ok hr⟩
    unfold request at hr
    obtain ⟨txid, -, hr⟩ := bind_eq_ok.1 hr
    dsimp only at hr
    split at hr
    · cases hr
    split at hr
    · cases hr
    obtain ⟨expired, he, hr⟩ := bind_eq_ok.1 hr
    cases expired with
    | true => cases hr
    | false => exact he

/-- **What a step may put into the pool and into the admissions**; the clock does not go back. -/
structure Moves (cfg : Config) (s : State) (a : Action) (s' : State) : Prop where
  now : s.now ≤ s'.now
  admissions : ∀ tx ∈ s'.admissions, tx ∈ s.admissions ∨ ∃ x, timestampOf tx = .ok x
  holds : ∀ tx, Holds s' tx → Holds s tx ∨ Stores cfg s a tx

theorem timestamp_of_isTransactionExpired {lifespan : Option Number} {now : Time} {tx : Val} {b : Bool}
    (h : isTransactionExpired lifespan now tx = .ok b) : ∃ x, timestampOf tx = .ok x := by
  rw [isTransactionExpired_eq] at h
  cases ht : timestampOf tx with
  | error e => rw [ht] at h; cases h
  | ok x => exact ⟨x, rfl⟩

theorem moves_request {a : Action} (tx : Val) : Moves cfg s a (orElse s (request cfg s tx)) := by
  rcases request_eq_or cfg s tx with h | ⟨he, h⟩
  · rw [h]
    exact ⟨le_rfl, fun _ => .inl, fun _ => .inl⟩
  · rw [h]
    refine ⟨le_rfl, fun k hk => ?_, fun _ => .inl⟩
    rcases List.mem_append.1 hk with hk | hk
    · exact .inl hk
    · rw [List.mem_singleton.1 hk]
      exact .inr (timestamp_of_isTransactionExpired he)

theorem moves_of_step {a : Action} (h : step cfg s a = some s') : Moves cfg s a s' := by
  cases a with
  | addNewPendingTransaction transaction =>
    cases h
    exact moves_request _
  | gossipMessageReceived messageType buffer =>
    simp only [step] at h
    split at h <;> cases h
    · exact moves_request _
    · exact ⟨le_rfl, fun _ => .inl, fun _ => .inl⟩
  | validated i f =>
    simp only [step] at h
    split at h
    · cases h
    rename_i tx htx
    have hrest : ∀ k ∈ s.admissions.eraseIdx i, k ∈ s.admissions ∨ ∃ x, timestampOf k = .ok x :=
      fun k hk => .inl (List.mem_of_mem_eraseIdx hk)
    split at h
    · rename_i hv
      cases h
      rw [store]
      cases hid : calculateTransactionId cfg.primitives tx with
      | error e => exact ⟨le_rfl, hrest, fun _ => .inl⟩
      | ok txid =>
        refine ⟨le_rfl, hrest, ?_⟩
        rintro k ⟨id, hk⟩
        change (s.pendingTransactions.set txid tx).get id = some k at hk
        rw [JsMap.get_set] at hk
        split_ifs at hk
        · cases hk
          exact .inr ⟨i, f, txid, rfl, htx, hv, hid⟩
        · exact .inl ⟨id, hk⟩
    · cases h
      exact ⟨le_rfl, hrest, fun _ => .inl⟩
  | markCommittedTransactions m =>
    cases h
    exact ⟨le_rfl, fun _ => .inl, fun _ => .inl⟩
  | clearCommitted j =>
    simp only [step] at h
    split at h <;> cases h
    refine ⟨le_rfl, fun _ => .inl, ?_⟩
    rintro tx ⟨txid, hp⟩
    exact .inl ⟨txid, ((JsMap.get_foldl_delete _).1 hp).1⟩
  | cleanupPending =>
    cases h
    refine ⟨le_rfl, fun _ => .inl, ?_⟩
    rintro tx ⟨txid, hp⟩
    exact .inl ⟨txid, JsMap.get_of_get_filter hp⟩
  | cleanupCommitted =>
    cases h
    exact ⟨le_rfl, fun _ => .inl, fun _ => .inl⟩
  | tick now =>
    simp only [step] at h
    split at h <;> cases h
    rename_i hle
    exact ⟨hle, fun _ => .inl, fun _ => .inl⟩

/-! ## Runs -/

/-- The timestamps of the transactions that wait for the validator convert to a number. -/
def Dated (s : State) : Prop := ∀ tx ∈ s.admissions, ∃ x, timestampOf tx = .ok x

theorem dated_of_run {now : Time} {as : List Action} (hr : Lts.run (step cfg) (start now) as = some s) : Dated s := by
  refine Lts.run_inv' (I := Dated) (fun u a v hu h tx htx => ?_) (fun tx htx => absurd htx List.not_mem_nil) hr
  rcases (moves_of_step h).admissions tx htx with htx | hx
  · exact hu tx htx
  · exact hx

theorem now_le_of_run {as : List Action} (hr : Lts.run (step cfg) s as = some t) : s.now ≤ t.now :=
  Lts.run_rel (I := fun _ => True) (G := fun _ _ => True) (R := fun s t => s.now ≤ t.now) (fun _ => le_rfl) le_trans
    (fun _ _ _ _ _ _ => trivial) (fun _ _ _ _ _ h => (moves_of_step h).now) trivial
    (Lts.meets_of_forall (fun _ _ => trivial) as s) hr

/-- A transaction in the pool was there at the beginning of the run, or the run has stored it. -/
theorem holds_of_run {as : List Action} (hr : Lts.run (step cfg) s as = some t) {tx : Val} (h : Holds t tx) :
    Holds s tx ∨ ∃ bs a cs u, as = bs ++ a :: cs ∧ Lts.run (step cfg) s bs = some u ∧ Stores cfg u a tx := by
  induction as generalizing s with
  | nil =>
    cases hr
    exact .inl h
  | cons a as ih =>
    obtain ⟨v, hv, hr⟩ := Lts.run_cons hr
    rcases ih hr with hvtx | ⟨bs, b, cs, u, rfl, hu, hs⟩
    · rcases (moves_of_step hv).holds tx hvtx with hs | hs
      · exact .inl hs
      · exact .inr ⟨[], a, as, s, rfl, rfl, hs⟩
    · refine .inr ⟨a :: bs, b, cs, u, rfl, ?_, hs⟩
      rw [Lts.run, hv]
      exact hu

/-- What a cleanup leaves in the pool. -/
theorem holds_cleanup_iff {tx : Val} {x : Number} (hx : timestampOf tx = .ok x) (h : step cfg s .cleanupPending = some t) :
    Holds t tx ↔ Holds s tx ∧ BaseTransactionPool.isExpired cfg.pendingLifespan s.now x = false := by
  cases h
  have hexp := isTransactionExpired_of_timestamp hx cfg.pendingLifespan s.now
  constructor
  · rintro ⟨txid, hp⟩
    have hm := JsMap.get_eq_some_iff.1 hp
    refine ⟨⟨txid, JsMap.get_of_get_filter hp⟩, ?_⟩
    have hkept := (List.mem_filter.1 hm).2
    dsimp only at hkept
    rw [hexp] at hkept
    simpa using hkept
  · rintro ⟨⟨txid, hp⟩, hlive⟩
    refine ⟨txid, JsMap.get_filter_of_pos hp ?_⟩
    dsimp only
    rw [hexp, hlive]
    rfl

end

/-- A transaction that is stored has a timestamp that is over no later than the clock. -/
def Timely (cfg : Config) (s : State) (a : Action) : Prop :=
  ∀ tx x, Stores cfg s a tx → timestampOf tx = .ok x → ExpiresBy cfg.pendingLifespan s.now x

/-- The run stores the transaction at the time `r`. -/
def StoredAt (cfg : Config) (begin : Time) (as : List Action) (tx : Val) (r : Time) : Prop :=
  ∃ bs a cs s, as = bs ++ a :: cs ∧ Lts.run (step cfg) (start begin) bs = some s ∧ Stores cfg s a tx ∧ s.now = r

/-- **The pending pool forgets.** -/
structure Forgets (cfg : Config) (begin : Time) (as : List Action) : Prop where
  /-- However the run goes on after it has stored a transaction, a cleanup at a time later than a lifespan after that
  leaves it out. -/
  leftOut : ∀ bs a cs s s' ds t u tx, as = bs ++ a :: cs → Lts.run (step cfg) (start begin) bs = some s →
    Stores cfg s a tx → step cfg s a = some s' → Lts.run (step cfg) s' ds = some t →
    BaseTransactionPool.isExpired cfg.pendingLifespan t.now (.ofNat s.now) = true →
    step cfg t .cleanupPending = some u → ¬ Holds u tx
  /-- When the last cleanup is no longer ago than `interval`, what the pool holds was stored during the last lifespan
  and interval. -/
  recent : ∀ bs cs s t tx (interval : ℕ), as = bs ++ .cleanupPending :: cs →
    Lts.run (step cfg) (start begin) bs = some s → Lts.run (step cfg) (start begin) as = some t →
    t.now.1 ≤ s.now.1 + interval → Holds t tx → ∃ r, StoredAt cfg begin as tx r ∧
      (t.now.1 ≤ r.1 + interval ∨ ((Number.ofNat r).add (BaseTransactionPool.transactionLifespanMs cfg.pendingLifespan)).lt
        (.ofNat (t.now.1 - interval)) = false)

section
variable {cfg : Config} {begin : Time} {as : List Action}

theorem leftOut_of_timely {s s' t u : State} {a : Action} {ds : List Action} {tx : Val} (hd : Dated s)
    (hg : Timely cfg s a) (hs : Stores cfg s a tx) (h : step cfg s a = some s') (hr : Lts.run (step cfg) s' ds = some t)
    (hexp : BaseTransactionPool.isExpired cfg.pendingLifespan t.now (.ofNat s.now) = true)
    (hu : step cfg t .cleanupPending = some u) : ¬ Holds u tx := by
  intro hh
  obtain ⟨i, f, txid, rfl, hi, -, -⟩ := id hs
  obtain ⟨x, hx⟩ := hd tx (List.mem_of_getElem? hi)
  have hle : s.now ≤ t.now := (moves_of_step h).now.trans (now_le_of_run hr)
  have hlive := ((holds_cleanup_iff hx hu).1 hh).2
  rw [hg tx x hs hx t.now hle hexp] at hlive
  cases hlive

/-- What a cleanup of the run leaves in the pool has not been stored longer than a lifespan before. -/
theorem stored_of_kept (hg : Lts.Meets (step cfg) (Timely cfg) (start begin) as) {s s' : State} {tx : Val}
    (hr : Lts.run (step cfg) (start begin) as = some s) (h : step cfg s .cleanupPending = some s') (hh : Holds s' tx) :
    ∃ r, StoredAt cfg begin as tx r ∧ BaseTransactionPool.isExpired cfg.pendingLifespan s.now (.ofNat r) = false := by
  have hold : Holds s tx := by
    rcases (moves_of_step h).holds tx hh with hs | ⟨i, f, txid, ha, -⟩
    · exact hs
    · cases ha
  rcases holds_of_run hr hold with ⟨txid, hp⟩ | ⟨bs, a, cs, v, rfl, hv, hs⟩
  · cases hp
  refine ⟨v.now, ⟨bs, a, cs, v, rfl, hv, hs, rfl⟩, Bool.eq_false_iff.2 fun hexp => ?_⟩
  -- the transaction would have been taken out
  obtain ⟨w, hw, -⟩ := step_stores hs
  rw [Lts.run_append, hv, Option.bind_some] at hr
  obtain ⟨w', hw', hr⟩ := Lts.run_cons hr
  have hstep := Lts.meets_iff.1 hg bs a cs v rfl hv
  exact leftOut_of_timely (dated_of_run hv) hstep hs hw' hr hexp h hh

theorem forgets_of_timely (hg : Lts.Meets (step cfg) (Timely cfg) (start begin) as) : Forgets cfg begin as := by
  refine ⟨fun bs a cs s s' ds t u tx he hr hs h hds hexp hu => ?_, fun bs cs s t tx interval he hr ht hle hh => ?_⟩
  · exact leftOut_of_timely (dated_of_run hr) (Lts.meets_iff.1 hg bs a cs s he hr) hs h hds hexp hu
  · subst he
    rw [Lts.run_append, hr, Option.bind_some] at ht
    obtain ⟨s', hs', ht⟩ := Lts.run_cons ht
    rcases holds_of_run ht hh with hkept | ⟨ds, a, es, v, rfl, hv, hstores⟩
    · obtain ⟨r, ⟨ds, a, es, v, rfl, hv, hstores, hnow⟩, hlive⟩ := stored_of_kept (Lts.meets_append_left hg) hr hs' hkept
      refine ⟨r, ⟨ds, a, es ++ .cleanupPending :: cs, v, by simp, hv, hstores, hnow⟩, .inr ?_⟩
      apply Bool.eq_false_iff.2
      intro hlt
      have hmono : Number.le (.ofNat (t.now.1 - interval)) (.ofNat s.now) = true :=
        Number.ofNat_le_ofNat (by omega) (s.now.2.trans (by norm_num))
      rw [BaseTransactionPool.isExpired, Number.lt_of_lt_of_le hlt hmono] at hlive
      cases hlive
    · refine ⟨v.now, ⟨bs ++ .cleanupPending :: ds, a, es, v, by simp, ?_, hstores, rfl⟩, .inl ?_⟩
      · rw [Lts.run_append, hr, Option.bind_some, Lts.run, hs']
        exact hv
      · have hsv : s.now ≤ v.now := (moves_of_step hs').now.trans (now_le_of_run hv)
        exact hle.trans (Nat.add_le_add_right hsv interval)

/-- A transaction that is stored out of time outlives a cleanup that comes in time. -/
theorem timely_of_forgets (h : Forgets cfg begin as) : Lts.Meets (step cfg) (Timely cfg) (start begin) as := by
  refine Lts.meets_iff.2 fun bs a cs s he hr tx x hs hx now hle hexp => ?_
  by_contra hlive
  obtain ⟨s', hs', hnow, hheld⟩ := step_stores hs
  have htick : Lts.run (step cfg) s' [.tick now] = some { s' with now } := by
    rw [Lts.run, step, if_pos (hnow ▸ hle)]
    rfl
  refine h.leftOut bs a cs s s' [.tick now] _ _ tx he hr hs hs' htick hexp rfl ?_
  exact (holds_cleanup_iff hx rfl).2 ⟨hheld, Bool.eq_false_iff.2 hlive⟩

/-- **The pending pool forgets exactly in the timely runs.** -/
theorem forgets_iff (cfg : Config) (begin : Time) (as : List Action) :
    Lts.Meets (step cfg) (Timely cfg) (start begin) as ↔ Forgets cfg begin as :=
  ⟨forgets_of_timely, timely_of_forgets⟩

end

/-! ## A timestamp ahead of the clock -/

/-- The pool without the checks of signatures and subscriptions. -/
def uncheckedConfig : Config :=
  { sampleConfig with options := { verifySignature := false, verifySubscription := false } }

def aheadTransaction : Transaction :=
  { ownerTransaction with header := { sampleHeader with timestamp := "1000000000000000".toList } }

/-- A client sends a transaction, and the validator accepts it. -/
def submitted (transaction : Transaction) : List Action :=
  [.addNewPendingTransaction transaction, .validated 0 fun _ => .ok true]

theorem step_submitted (cfg : Config) (begin : Time) {transaction : Transaction} {x : Number}
    (hx : timestampOf (Transaction.codec.enc transaction) = .ok x)
    (hlive : BaseTransactionPool.isExpired cfg.pendingLifespan begin x = false) :
    step cfg (start begin) (.addNewPendingTransaction transaction) =
      some { start begin with admissions := [Transaction.codec.enc transaction] } := by
  have hid : calculateTransactionId cfg.primitives (Transaction.codec.enc transaction) =
      .ok (TransactionHelper.calculateTransactionId cfg.primitives.crypto transaction) := rfl
  have hpending : ∀ txid, (start begin).pendingTransactions.has txid = false := fun _ => rfl
  have hcommitted : ∀ txid, (start begin).committedTransactions.has txid = false := fun _ => rfl
  have hexp := isTransactionExpired_of_timestamp hx cfg.pendingLifespan (start begin).now
  have hbegin : BaseTransactionPool.isExpired cfg.pendingLifespan (start begin).now x = false := hlive
  rw [hbegin] at hexp
  have hrequest : request cfg (start begin) (Transaction.codec.enc transaction) =
      .ok { start begin with admissions := [Transaction.codec.enc transaction] } := by
    unfold request
    rw [hid]
    dsimp only [Bind.bind, Except.bind]
    rw [hpending, if_neg Bool.false_ne_true, hcommitted, if_neg Bool.false_ne_true, hexp]
    rfl
  rw [step, hrequest]
  rfl

theorem timestampOf_ahead : timestampOf (Transaction.codec.enc aheadTransaction) = .ok (.ofNat 1000000000000000) := by
  decide +kernel

theorem validate_ahead : validate uncheckedConfig.primitives uncheckedConfig.options (fun _ => .ok true)
    (Transaction.codec.enc aheadTransaction) = .ok true := by
  decide +kernel

/-- **A transaction that is stamped ahead of the clock outlives its lifespan in the pool.** -/
theorem ahead_not_forgotten : ¬ Forgets uncheckedConfig sampleTime (submitted aheadTransaction) := by
  intro h
  have hlive : ∀ now : Time, now.1 ≤ 2000000 →
      BaseTransactionPool.isExpired uncheckedConfig.pendingLifespan now (.ofNat 1000000000000000) = false := by
    intro now hnow
    have hlifespan : BaseTransactionPool.transactionLifespanMs uncheckedConfig.pendingLifespan = .ofNat 30000 := by
      decide +kernel
    rw [isExpired_ofNat hlifespan (by norm_num)]
    exact decide_eq_false (by omega)
  have hstep := step_submitted uncheckedConfig sampleTime timestampOf_ahead (hlive sampleTime (by decide))
  have hrun : Lts.run (step uncheckedConfig) (start sampleTime) [.addNewPendingTransaction aheadTransaction] =
      some { start sampleTime with admissions := [Transaction.codec.enc aheadTransaction] } := by
    rw [Lts.run, hstep]
    rfl
  have hs : Stores uncheckedConfig { start sampleTime with admissions := [Transaction.codec.enc aheadTransaction] }
      (.validated 0 fun _ => .ok true) (Transaction.codec.enc aheadTransaction) :=
    ⟨0, _, _, rfl, rfl, validate_ahead, rfl⟩
  have hby := Lts.meets_iff.1 (timely_of_forgets h) [_] _ [] _ rfl hrun _ _ hs timestampOf_ahead
  have hexp := hby ⟨2000000, by decide⟩ (by decide) (by decide +kernel)
  rw [hlive _ le_rfl] at hexp
  cases hexp

end TransactionAdmission
end Orbs
