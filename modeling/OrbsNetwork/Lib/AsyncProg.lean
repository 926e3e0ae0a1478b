import OrbsNetwork.Lib.StateProg
/-!
# AsyncProg — programs that see what becomes of their writes

A write gives a promise.  A program that waits for it throws when it is rejected; a program that drops it goes on in
either case.  So what follows a write is a function of its outcome, and an `Accessor` answers the writes with outcomes.

Where every write is fulfilled, a program is a `StateProg` (`exec_readWrite`).  Where every write is rejected, a program
that waits for its writes throws at the first one (`exec_of_awaits`), and one that drops them goes on with a state that
keeps nothing (`exec_ofProg`).
-/

/-- `κ` are the keys, `ν` what a key holds or does not hold, `ε` the errors. -/
inductive AsyncProg (κ ν ε α : Type) where
  | pure (a : α)
  | throw (e : ε)
  | load (k : κ) (next : Option ν → AsyncProg κ ν ε α)
  | store (k : κ) (v : Option ν) (next : Except ε Unit → AsyncProg κ ν ε α)

namespace AsyncProg

open StateProg (Machine)

variable {κ ν ε α β σ : Type}

def bind : AsyncProg κ ν ε α → (α → AsyncProg κ ν ε β) → AsyncProg κ ν ε β
  | .pure a, f => f a
  | .throw e, _ => .throw e
  | .load k next, f => .load k fun v => (next v).bind f
  | .store k v next, f => .store k v fun r => (next r).bind f

instance : Monad (AsyncProg κ ν ε) where
  pure := .pure
  bind := bind

def read (k : κ) : AsyncProg κ ν ε (Option ν) := .load k .pure

def ofExcept : Except ε α → AsyncProg κ ν ε α
  | .ok a => .pure a
  | .error e => .throw e

/-- A write that is waited for. -/
def write (k : κ) (v : Option ν) : AsyncProg κ ν ε Unit := .store k v ofExcept

/-- A program whose own promise is dropped.  It runs up to its first wait before the caller goes on, so this is for
programs that do not load. -/
def drop : AsyncProg κ ν ε α → AsyncProg κ ν ε Unit
  | .pure _ => .pure ()
  | .throw _ => .pure ()
  | .load k next => .load k fun v => (next v).drop
  | .store k v next => .store k v fun r => (next r).drop

/-- A program that drops the promises of all its writes. -/
def ofProg : StateProg κ ν ε α → AsyncProg κ ν ε α
  | .pure a => .pure a
  | .throw e => .throw e
  | .load k next => .load k fun v => ofProg (next v)
  | .store k v next => .store k v fun _ => ofProg next

/-- The program whose writes are all fulfilled. -/
def settle : AsyncProg κ ν ε α → StateProg κ ν ε α
  | .pure a => .pure a
  | .throw e => .throw e
  | .load k next => .load k fun v => (next v).settle
  | .store k v next => .store k v (next (.ok ())).settle

structure Accessor (σ κ ν ε : Type) where
  load : σ → κ → Option ν
  store : σ → κ → Option ν → Except ε Unit × σ

def exec (a : Accessor σ κ ν ε) : AsyncProg κ ν ε α → σ → Except ε α × σ
  | .pure x, s => (.ok x, s)
  | .throw e, s => (.error e, s)
  | .load k next, s => (next (a.load s k)).exec a s
  | .store k v next, s => (next (a.store s k v).1).exec a (a.store s k v).2

/-- The run comes to a write. -/
def Stores (a : Accessor σ κ ν ε) : AsyncProg κ ν ε α → σ → Prop
  | .pure _, _ => False
  | .throw _, _ => False
  | .load k next, s => (next (a.load s k)).Stores a s
  | .store _ _ _, _ => True

instance decidableStores (a : Accessor σ κ ν ε) : ∀ (p : AsyncProg κ ν ε α) (s : σ), Decidable (p.Stores a s)
  | .pure _, _ => isFalse id
  | .throw _, _ => isFalse id
  | .load k next, s => decidableStores a (next (a.load s k)) s
  | .store _ _ _, _ => isTrue trivial

/-- Every write is waited for: the error that rejects it is thrown. -/
def Awaits : AsyncProg κ ν ε α → Prop
  | .pure _ => True
  | .throw _ => True
  | .load _ next => ∀ v, (next v).Awaits
  | .store _ _ next => (∀ e, next (.error e) = .throw e) ∧ (next (.ok ())).Awaits

theorem awaits_bind {f : α → AsyncProg κ ν ε β} (hf : ∀ a, (f a).Awaits) : ∀ {p : AsyncProg κ ν ε α}, p.Awaits →
    (p >>= f).Awaits := by
  intro p
  induction p with
  | pure a => exact fun _ => hf a
  | throw e => exact fun _ => trivial
  | load k next ih => exact fun hp v => ih v (hp v)
  | store k v next ih =>
    rintro ⟨hthrow, hp⟩
    exact ⟨fun e => congrArg (bind · f) (hthrow e), ih _ hp⟩

theorem awaits_ofExcept (e : Except ε α) : (ofExcept e : AsyncProg κ ν ε α).Awaits := by
  cases e <;> trivial

theorem awaits_throw (e : ε) : (.throw e : AsyncProg κ ν ε α).Awaits := trivial

theorem awaits_read (k : κ) : (read k : AsyncProg κ ν ε (Option ν)).Awaits := fun _ => trivial

theorem awaits_write (k : κ) (v : Option ν) : (write k v : AsyncProg κ ν ε Unit).Awaits := ⟨fun _ => rfl, trivial⟩

/-- What a program returns does not matter. -/
theorem awaits_discard {p : AsyncProg κ ν ε α} (hp : p.Awaits) : (p >>= fun _ => pure () : AsyncProg κ ν ε Unit).Awaits :=
  awaits_bind (f := fun _ => pure ()) (fun _ => trivial) hp

/-! ## Where every write is fulfilled -/

def readWrite (m : Machine σ κ ν) : Accessor σ κ ν ε where
  load := m.load
  store s k v := (.ok (), m.store s k v)

theorem exec_readWrite (m : Machine σ κ ν) : ∀ (p : AsyncProg κ ν ε α) (s : σ),
    p.exec (readWrite m) s = p.settle.exec m s := by
  intro p
  induction p with
  | pure a => exact fun s => rfl
  | throw e => exact fun s => rfl
  | load k next ih => exact fun s => ih _ s
  | store k v next ih => exact fun s => ih _ _

theorem settle_bind (f : α → AsyncProg κ ν ε β) (p : AsyncProg κ ν ε α) :
    (p >>= f).settle = p.settle >>= fun a => (f a).settle := by
  induction p with
  | pure a => rfl
  | throw e => rfl
  | load k next ih => exact congrArg _ (funext ih)
  | store k v next ih => exact congrArg _ (ih _)

theorem settle_ofExcept (e : Except ε α) : (ofExcept e : AsyncProg κ ν ε α).settle = StateProg.ofExcept e := by
  cases e <;> rfl

theorem settle_ofProg (p : StateProg κ ν ε α) : (ofProg p).settle = p := by
  induction p with
  | pure a => rfl
  | throw e => rfl
  | load k next ih => exact congrArg _ (funext ih)
  | store k v next ih => exact congrArg _ ih

/-- `StateProg.Ends`, where every write is fulfilled. -/
def Ends (m : Machine σ κ ν) (E : ε → Prop) (p : AsyncProg κ ν ε α) (Q : α → σ → Prop) (s : σ) : Prop :=
  p.settle.Ends m E Q s

section
variable (m : Machine σ κ ν) (E : ε → Prop) (Q : α → σ → Prop) (s : σ)

@[simp] theorem ends_pure (a : α) : Ends m E (Pure.pure a) Q s ↔ Q a s := Iff.rfl

@[simp] theorem ends_throw (e : ε) : Ends m E (.throw e) Q s ↔ E e := Iff.rfl

@[simp] theorem ends_read (k : κ) (Q : Option ν → σ → Prop) : Ends m E (read k) Q s ↔ Q (m.load s k) s := Iff.rfl

@[simp] theorem ends_write (k : κ) (v : Option ν) (Q : Unit → σ → Prop) :
    Ends m E (write k v) Q s ↔ Q () (m.store s k v) := Iff.rfl

@[simp] theorem ends_ofExcept (x : Except ε α) :
    Ends m E (ofExcept x) Q s ↔ StateProg.Ends m E (StateProg.ofExcept x) Q s := by
  rw [Ends, settle_ofExcept]

@[simp] theorem ends_bind (p : AsyncProg κ ν ε β) (f : β → AsyncProg κ ν ε α) :
    Ends m E (p >>= f) Q s ↔ Ends m E p (fun b t => Ends m E (f b) Q t) s := by
  rw [Ends, settle_bind, StateProg.ends_bind]
  rfl

end

/-! ## Where every write is rejected -/

def readOnly (load : σ → κ → Option ν) (e : ε) : Accessor σ κ ν ε where
  load := load
  store s _ _ := (.error e, s)

/-- A state that keeps nothing of what is written, but whether anything was. -/
def frozen (load : σ → κ → Option ν) : Machine (σ × Bool) κ ν where
  load s := load s.1
  store s _ _ := (s.1, true)

variable {load : σ → κ → Option ν} {e : ε} {s : σ}

/-- **A program that waits for its writes throws at the first.** -/
theorem exec_of_awaits {p : AsyncProg κ ν ε α} (hp : p.Awaits) (hs : p.Stores (readOnly load e) s) :
    p.exec (readOnly load e) s = (.error e, s) := by
  induction p with
  | pure a => exact hs.elim
  | throw e' => exact hs.elim
  | load k next ih => exact ih _ (hp _) hs
  | store k v next ih =>
    change (next (.error e)).exec _ s = _
    rw [hp.1 e]
    rfl

/-- **A program that drops its writes does not learn that nothing was kept.** -/
theorem exec_ofProg (p : StateProg κ ν ε α) (b : Bool) :
    ((ofProg p).exec (readOnly load e) s).1 = (p.exec (frozen load) (s, b)).1 := by
  induction p generalizing b with
  | pure a => rfl
  | throw e' => rfl
  | load k next ih => exact ih _ b
  | store k v next ih => exact ih true

theorem exec_frozen_true (p : StateProg κ ν ε α) : (p.exec (frozen load) (s, true)).2.2 = true := by
  induction p with
  | pure a => rfl
  | throw e' => rfl
  | load k next ih => exact ih _
  | store k v next ih => exact ih

theorem stores_ofProg (p : StateProg κ ν ε α) :
    (ofProg p).Stores (readOnly load e) s ↔ (p.exec (frozen load) (s, false)).2.2 = true := by
  induction p with
  | pure a => exact iff_of_false id Bool.false_ne_true
  | throw e' => exact iff_of_false id Bool.false_ne_true
  | load k next ih => exact ih _
  | store k v next ih => exact iff_of_true trivial (exec_frozen_true next)

/-- The run comes to a write and returns nevertheless. -/
def Loses (load : σ → κ → Option ν) (e : ε) (p : AsyncProg κ ν ε α) (s : σ) : Prop :=
  p.Stores (readOnly load e) s ∧ ∃ a, (p.exec (readOnly load e) s).1 = .ok a

theorem loses_ofProg (p : StateProg κ ν ε α) : (ofProg p).Loses load e s ↔
    p.Ends (frozen load) (fun _ => False) (fun _ t => t.2 = true) (s, false) := by
  unfold Loses StateProg.Ends
  rw [stores_ofProg, exec_ofProg p false]
  rcases p.exec (frozen load) (s, false) with ⟨_ | a, t⟩
  · exact iff_of_false (fun h => nomatch h.2.choose_spec) id
  · exact ⟨fun h => h.1, fun h => ⟨h, a, rfl⟩⟩

theorem not_loses_of_awaits {p : AsyncProg κ ν ε α} (hp : p.Awaits) : ¬ p.Loses load e s := by
  rintro ⟨hs, a, ha⟩
  rw [exec_of_awaits hp hs] at ha
  cases ha

end AsyncProg
