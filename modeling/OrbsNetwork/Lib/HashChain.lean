import Mathlib.Data.List.Chain
/-!
# HashChain — blocks linked by height and hash

A `View` says what a block shows of itself: its height, its hash, and the hash it names as its predecessor's.  A
`Chain` starts at a given genesis block and carries the proof that every block follows the one before it, so a chain
with a gap or a broken link cannot be built.
-/
namespace HashChain

variable {β η : Type*}

structure View (β η : Type*) where
  height : β → ℕ
  prev : β → η
  hash : β → η

def View.Next (V : View β η) (b c : β) : Prop := V.height c = V.height b + 1 ∧ V.prev c = V.hash b

@[ext]
structure Chain (V : View β η) (genesis : β) where
  rest : List β
  linked : (genesis :: rest).IsChain V.Next

namespace Chain

variable {V : View β η} {genesis : β}

def nil : Chain V genesis := ⟨[], .singleton _⟩

def blocks (c : Chain V genesis) : List β := genesis :: c.rest

def tip (c : Chain V genesis) : β := c.rest.getLastD genesis

theorem blocks_getLast? (c : Chain V genesis) : c.blocks.getLast? = some c.tip := by
  rw [blocks, List.getLast?_cons, tip, List.getLastD_eq_getLast?]

def push (c : Chain V genesis) (b : β) (h : V.Next c.tip b) : Chain V genesis where
  rest := c.rest ++ [b]
  linked := by
    rw [← List.cons_append, List.isChain_append]
    refine ⟨c.linked, .singleton _, fun x hx y hy => ?_⟩
    rw [← blocks, c.blocks_getLast?] at hx
    cases hx
    cases hy
    exact h

@[simp] theorem rest_nil : (nil : Chain V genesis).rest = [] := rfl

@[simp] theorem tip_nil : (nil : Chain V genesis).tip = genesis := rfl

@[simp] theorem rest_push (c : Chain V genesis) (b : β) (h : V.Next c.tip b) : (c.push b h).rest = c.rest ++ [b] := rfl

@[simp] theorem blocks_push (c : Chain V genesis) (b : β) (h : V.Next c.tip b) :
    (c.push b h).blocks = c.blocks ++ [b] := rfl

@[simp] theorem tip_push (c : Chain V genesis) (b : β) (h : V.Next c.tip b) : (c.push b h).tip = b := by
  simp [tip]

@[simp] theorem length_blocks (c : Chain V genesis) : c.blocks.length = c.rest.length + 1 := rfl

theorem height_getElem (c : Chain V genesis) : ∀ i (h : i < c.blocks.length), V.height c.blocks[i] = V.height genesis + i
  | 0, _ => rfl
  | i + 1, h => by
    have hn := List.isChain_iff_getElem.1 c.linked i h
    have ih := c.height_getElem i (by omega)
    rw [← Nat.add_assoc, ← ih]
    exact hn.1

/-- **Block `i` of a chain has height `i`.** -/
theorem height_of_getElem? (c : Chain V genesis) {i : ℕ} {b : β} (h : c.blocks[i]? = some b) :
    V.height b = V.height genesis + i := by
  obtain ⟨hi, rfl⟩ := List.getElem?_eq_some_iff.1 h
  exact c.height_getElem i hi

/-- **Every later block names the hash of the block before it.** -/
theorem prev_of_getElem? (c : Chain V genesis) {i : ℕ} {b d : β} (hb : c.blocks[i]? = some b)
    (hd : c.blocks[i + 1]? = some d) : V.prev d = V.hash b := by
  obtain ⟨hi, rfl⟩ := List.getElem?_eq_some_iff.1 hd
  obtain ⟨_, rfl⟩ := List.getElem?_eq_some_iff.1 hb
  exact (List.isChain_iff_getElem.1 c.linked i hi).2

theorem getElem?_tip (c : Chain V genesis) : c.blocks[c.rest.length]? = some c.tip := by
  have h := c.blocks_getLast?
  rwa [List.getLast?_eq_getElem?, length_blocks, Nat.add_sub_cancel] at h

theorem tip_mem (c : Chain V genesis) : c.tip ∈ c.blocks := List.mem_of_getElem? c.getElem?_tip

theorem height_tip (c : Chain V genesis) : V.height c.tip = V.height genesis + c.rest.length :=
  c.height_of_getElem? c.getElem?_tip

end Chain
end HashChain
