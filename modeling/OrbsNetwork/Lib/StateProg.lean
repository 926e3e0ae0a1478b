import Mathlib.Tactic.TypeStar
/-!
# StateProg — programs that read and write a state they do not see

A program is the tree of its reads and writes: at a read it waits for what the state holds under the key, at a write it
goes on.  It ends with a value or with an error.  A `Machine` is a state that answers the reads and takes the writes,
and `exec` runs a program on it.

`Within L W m p s` says that the run of `p` on `m` from `s` reads only keys in `L` and writes only what `W` admits.
`exec_sim` compares two machines whose answers agree there.  `Ends m E p Q s` says how the run ends; a simp lemma for each
kind of program computes it.
-/

/-- `κ` are the keys, `ν` what a key holds or does not hold, `ε` the errors. -/
inductive StateProg (κ ν ε α : Type) where
  | pure (a : α)
  | throw (e : ε)
  | load (k : κ) (next : Option ν → StateProg κ ν ε α)
  | store (k : κ) (v : Option ν) (next : StateProg κ ν ε α)

namespace StateProg

variable {κ ν ε α β : Type}

def bind : StateProg κ ν ε α → (α → StateProg κ ν ε β) → StateProg κ ν ε β
  | .pure a, f => f a
  | .throw e, _ => .throw e
  | .load k next, f => .load k fun v => (next v).bind f
  | .store k v next, f => .store k v (next.bind f)

instance : Monad (StateProg κ ν ε) where
  pure := .pure
  bind := bind

def read (k : κ) : StateProg κ ν ε (Option ν) := .load k .pure

def write (k : κ) (v : Option ν) : StateProg κ ν ε Unit := .store k v (.pure ())

def ofExcept : Except ε α → StateProg κ ν ε α
  | .ok a => .pure a
  | .error e => .throw e

structure Machine (σ κ ν : Type) where
  load : σ → κ → Option ν
  store : σ → κ → Option ν → σ

variable {σ τ : Type}

/-- A value that was stored is loaded again, and the other keys hold what they did. -/
structure Machine.Lawful (m : Machine σ κ ν) : Prop where
  load_store_self : ∀ s k v, m.load (m.store s k (some v)) k = some v
  load_store_of_ne : ∀ s v {k k'}, k' ≠ k → m.load (m.store s k v) k' = m.load s k'

def exec (m : Machine σ κ ν) : StateProg κ ν ε α → σ → Except ε α × σ
  | .pure a, s => (.ok a, s)
  | .throw e, s => (.error e, s)
  | .load k next, s => (next (m.load s k)).exec m s
  | .store k v next, s => next.exec m (m.store s k v)

def Within (L : κ → Prop) (W : κ → Option ν → Prop) (m : Machine σ κ ν) : StateProg κ ν ε α → σ → Prop
  | .pure _, _ => True
  | .throw _, _ => True
  | .load k next, s => L k ∧ (next (m.load s k)).Within L W m s
  | .store k v next, s => W k v ∧ next.Within L W m (m.store s k v)

/-- What a run writes, in order. -/
def writes (m : Machine σ κ ν) : StateProg κ ν ε α → σ → List (κ × Option ν)
  | .pure _, _ => []
  | .throw _, _ => []
  | .load k next, s => (next (m.load s k)).writes m s
  | .store k v next, s => (k, v) :: next.writes m (m.store s k v)

instance decidableWithin {L : κ → Prop} {W : κ → Option ν → Prop} [DecidablePred L] [∀ k v, Decidable (W k v)]
    (m : Machine σ κ ν) : ∀ (p : StateProg κ ν ε α) (s : σ), Decidable (p.Within L W m s)
  | .pure _, _ => isTrue trivial
  | .throw _, _ => isTrue trivial
  | .load k next, s =>
    have := decidableWithin (L := L) (W := W) m (next (m.load s k)) s
    inferInstanceAs (Decidable (L k ∧ _))
  | .store k v next, s =>
    have := decidableWithin (L := L) (W := W) m next (m.store s k v)
    inferInstanceAs (Decidable (W k v ∧ _))

/-- **Two machines that agree on what a program reads and writes run it alike.** -/
theorem exec_sim {L : κ → Prop} {W : κ → Option ν → Prop} {m : Machine σ κ ν} {n : Machine τ κ ν} {R : σ → τ → Prop}
    (hl : ∀ s t k, L k → R s t → m.load s k = n.load t k)
    (hs : ∀ s t k v, W k v → R s t → R (m.store s k v) (n.store t k v)) :
    ∀ (p : StateProg κ ν ε α) {s : σ} {t : τ}, R s t → p.Within L W n t →
      (p.exec m s).1 = (p.exec n t).1 ∧ R (p.exec m s).2 (p.exec n t).2 := by
  intro p
  induction p with
  | pure a => exact fun h _ => ⟨rfl, h⟩
  | throw e => exact fun h _ => ⟨rfl, h⟩
  | load k next ih =>
    intro s t h hw
    rw [exec, exec, hl s t k hw.1 h]
    exact ih _ h hw.2
  | store k v next ih =>
    intro s t h hw
    exact ih (hs s t k v hw.1 h) hw.2

theorem within_sim {L : κ → Prop} {W : κ → Option ν → Prop} {m : Machine σ κ ν} {n : Machine τ κ ν}
    {R : σ → τ → Prop} (hl : ∀ s t k, L k → R s t → m.load s k = n.load t k)
    (hs : ∀ s t k v, W k v → R s t → R (m.store s k v) (n.store t k v)) :
    ∀ (p : StateProg κ ν ε α) {s : σ} {t : τ}, R s t → p.Within L W n t → p.Within L W m s := by
  intro p
  induction p with
  | pure a => exact fun _ _ => trivial
  | throw e => exact fun _ _ => trivial
  | load k next ih =>
    intro s t h hw
    refine ⟨hw.1, ?_⟩
    rw [hl s t k hw.1 h]
    exact ih _ h hw.2
  | store k v next ih =>
    intro s t h hw
    exact ⟨hw.1, ih (hs s t k v hw.1 h) hw.2⟩

theorem exec_bind (m : Machine σ κ ν) (f : α → StateProg κ ν ε β) : ∀ (p : StateProg κ ν ε α) (s : σ),
    (p >>= f).exec m s = match p.exec m s with
      | (.ok a, s) => (f a).exec m s
      | (.error e, s) => (.error e, s) := by
  intro p
  induction p with
  | pure a => exact fun s => rfl
  | throw e => exact fun s => rfl
  | load k next ih => exact fun s => ih _ s
  | store k v next ih => exact fun s => ih _

theorem bind_assoc {γ : Type} (p : StateProg κ ν ε α) (f : α → StateProg κ ν ε β) (g : β → StateProg κ ν ε γ) :
    p >>= f >>= g = p >>= fun a => f a >>= g := by
  induction p with
  | pure a => rfl
  | throw e => rfl
  | load k next ih => exact congrArg _ (funext ih)
  | store k v next ih => exact congrArg _ ih

/-- What follows a program matters on what it returns only. -/
theorem exec_bind_congr {m : Machine σ κ ν} {p : StateProg κ ν ε α} {f g : α → StateProg κ ν ε β} {s : σ}
    (h : ∀ a t, p.exec m s = (.ok a, t) → (f a).exec m t = (g a).exec m t) :
    (p >>= f).exec m s = (p >>= g).exec m s := by
  rw [exec_bind, exec_bind]
  split
  · rename_i a t he
    exact h a t he
  · rfl

theorem writes_bind (m : Machine σ κ ν) (f : α → StateProg κ ν ε β) : ∀ (p : StateProg κ ν ε α) (s : σ),
    (p >>= f).writes m s = p.writes m s ++ match p.exec m s with
      | (.ok a, s) => (f a).writes m s
      | (.error _, _) => [] := by
  intro p
  induction p with
  | pure a => exact fun s => rfl
  | throw e => exact fun s => rfl
  | load k next ih => exact fun s => ih _ s
  | store k v next ih => exact fun s => congrArg _ (ih _)

theorem exec_ofExcept (m : Machine σ κ ν) (e : Except ε α) (s : σ) : (ofExcept e).exec m s = (e, s) := by
  cases e <;> rfl

theorem writes_ofExcept (m : Machine σ κ ν) (e : Except ε α) (s : σ) : (ofExcept e).writes m s = [] := by
  cases e <;> rfl

/-- What all writes of a program and of what follows it have in common. -/
theorem forall_writes_bind {m : Machine σ κ ν} {Q : κ × Option ν → Prop} {p : StateProg κ ν ε α}
    {f : α → StateProg κ ν ε β} {s : σ} (hp : ∀ w ∈ p.writes m s, Q w)
    (hf : ∀ a t, p.exec m s = (.ok a, t) → ∀ w ∈ (f a).writes m t, Q w) : ∀ w ∈ (p >>= f).writes m s, Q w := by
  intro w hw
  rw [writes_bind] at hw
  rcases List.mem_append.1 hw with hw | hw
  · exact hp w hw
  · split at hw
    · rename_i a t h
      exact hf a t h w hw
    · cases hw

/-! ## How a run ends -/

/-- The run ends with a value that `Q` holds of, together with the state after it, or with an error in `E`. -/
def Ends (m : Machine σ κ ν) (E : ε → Prop) (p : StateProg κ ν ε α) (Q : α → σ → Prop) (s : σ) : Prop :=
  match p.exec m s with
  | (.ok a, t) => Q a t
  | (.error e, _) => E e

section
variable (m : Machine σ κ ν) (E : ε → Prop) (Q : α → σ → Prop) (s : σ)

@[simp] theorem ends_pure (a : α) : Ends m E (Pure.pure a) Q s ↔ Q a s := Iff.rfl

@[simp] theorem ends_throw (e : ε) : Ends m E (.throw e) Q s ↔ E e := Iff.rfl

@[simp] theorem ends_read (k : κ) (Q : Option ν → σ → Prop) : Ends m E (read k) Q s ↔ Q (m.load s k) s := Iff.rfl

@[simp] theorem ends_write (k : κ) (v : Option ν) (Q : Unit → σ → Prop) :
    Ends m E (write k v) Q s ↔ Q () (m.store s k v) := Iff.rfl

@[simp] theorem ends_ok (a : α) : Ends m E (ofExcept (.ok a)) Q s ↔ Q a s := Iff.rfl

@[simp] theorem ends_error (e : ε) : Ends m E (ofExcept (.error e)) Q s ↔ E e := Iff.rfl

/-- What follows a program is part of what has to hold after it. -/
@[simp] theorem ends_bind (p : StateProg κ ν ε β) (f : β → StateProg κ ν ε α) :
    Ends m E (p >>= f) Q s ↔ Ends m E p (fun b t => Ends m E (f b) Q t) s := by
  unfold Ends
  rw [exec_bind]
  cases p.exec m s with
  | mk r t => cases r <;> rfl

end

/-- The state after a run is the one that its writes make. -/
theorem exec_snd (m : Machine σ κ ν) : ∀ (p : StateProg κ ν ε α) (s : σ),
    (p.exec m s).2 = (p.writes m s).foldl (fun s w => m.store s w.1 w.2) s := by
  intro p
  induction p with
  | pure a => exact fun s => rfl
  | throw e => exact fun s => rfl
  | load k next ih => exact fun s => ih _ s
  | store k v next ih => exact fun s => ih _

/-- What every write keeps, a run keeps. -/
theorem exec_inv {I : σ → Prop} {m : Machine σ κ ν} : ∀ {p : StateProg κ ν ε α} {s : σ},
    (∀ t, ∀ w ∈ p.writes m s, I t → I (m.store t w.1 w.2)) → I s → I (p.exec m s).2 := by
  intro p s hI
  rw [exec_snd]
  generalize p.writes m s = l at hI
  induction l generalizing s with
  | nil => exact id
  | cons w l ih =>
    intro hs
    exact ih (fun t w' hw' => hI t w' (List.mem_cons_of_mem _ hw')) (hI s w List.mem_cons_self hs)

theorem within_of_writes {L : κ → Prop} {W : κ → Option ν → Prop} {m : Machine σ κ ν} (hL : ∀ k, L k) :
    ∀ {p : StateProg κ ν ε α} {s : σ}, (∀ w ∈ p.writes m s, W w.1 w.2) → p.Within L W m s := by
  intro p
  induction p with
  | pure a => exact fun _ => trivial
  | throw e => exact fun _ => trivial
  | load k next ih => exact fun h => ⟨hL k, ih _ h⟩
  | store k v next ih =>
    intro s h
    exact ⟨h (k, v) List.mem_cons_self, ih fun w hw => h w (List.mem_cons_of_mem _ hw)⟩

end StateProg
