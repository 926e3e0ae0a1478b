import OrbsNetwork.Lib.StateProg
/-!
# AskProg — programs that ask questions and wait for the answers

A program asks, is given an answer, and goes on.  `answerBy o` runs it where the answer to a question is always the same;
a program that has been given some of these answers already has the same outcome (`answerBy_ask`).

`ofProg` runs a `StateProg` on a state that holds a part of the keys and asks for the others.  With one source of
answers, it is the run on the state over that source (`answerBy_ofProg`).
-/

/-- `δ` are the questions, `ω` the answers. -/
inductive AskProg (δ ω α : Type) where
  | pure (a : α)
  | ask (q : δ) (next : ω → AskProg δ ω α)

namespace AskProg

variable {δ ω α β : Type}

def bind : AskProg δ ω α → (α → AskProg δ ω β) → AskProg δ ω β
  | .pure a, f => f a
  | .ask q next, f => .ask q fun w => (next w).bind f

instance : Monad (AskProg δ ω) where
  pure := .pure
  bind := bind

def answerBy (o : δ → ω) : AskProg δ ω α → α
  | .pure a => a
  | .ask q next => (next (o q)).answerBy o

variable (o : δ → ω)

@[simp] theorem answerBy_pure (a : α) : (Pure.pure a : AskProg δ ω α).answerBy o = a := rfl

/-- An answer that has been given already changes nothing. -/
theorem answerBy_ask {q : δ} {w : ω} (h : w = o q) (next : ω → AskProg δ ω α) :
    (AskProg.ask q next).answerBy o = (next w).answerBy o := by
  rw [answerBy, h]

@[simp] theorem answerBy_bind (f : α → AskProg δ ω β) (p : AskProg δ ω α) :
    (p >>= f).answerBy o = (f (p.answerBy o)).answerBy o := by
  induction p with
  | pure a => rfl
  | ask q next ih => exact ih (o q)

/-! ## Programs on a part of a state -/

variable {σ κ ν ε : Type}

def ofProg (lookup : σ → κ → Option ν) (store : σ → κ → Option ν → σ) (question : κ → δ) :
    StateProg κ ν ε α → σ → AskProg δ (Option ν) (Except ε α × σ)
  | .pure a, s => .pure (.ok a, s)
  | .throw e, s => .pure (.error e, s)
  | .load k next, s => match lookup s k with
    | some v => ofProg lookup store question (next (some v)) s
    | none => .ask (question k) fun v => ofProg lookup store question (next v) s
  | .store k v next, s => ofProg lookup store question next (store s k v)

/-- **One source of answers is a state below the state.** -/
theorem answerBy_ofProg (o : δ → Option ν) (m : StateProg.Machine σ κ ν) {lookup : σ → κ → Option ν} {question : κ → δ}
    (hload : ∀ s k, m.load s k = (lookup s k).or (o (question k))) (p : StateProg κ ν ε α) (s : σ) :
    (ofProg lookup m.store question p s).answerBy o = p.exec m s := by
  induction p generalizing s with
  | pure a => rfl
  | throw e => rfl
  | load k next ih =>
    rw [ofProg, StateProg.exec, hload]
    cases lookup s k with
    | some v => exact ih (some v) s
    | none => exact ih (o (question k)) s
  | store k v next ih => exact ih _

end AskProg
