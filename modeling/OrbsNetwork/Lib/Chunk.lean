import Mathlib.Data.Nat.Basic
import Mathlib.Data.List.Basic
/-!
# Chunk — a list in pieces of one size

`chunk` of lodash: every piece has `size` elements, the last one what is left; no pieces for the size 0.
-/

def chunk {α : Type*} (l : List α) (size : ℕ) : List (List α) :=
  if size = 0 then []
  else (List.range ((l.length + size - 1) / size)).map fun i => (l.drop (i * size)).take size

section
variable {α : Type*} {size : ℕ}

theorem length_le_of_mem_chunk {l piece : List α} (h : piece ∈ chunk l size) : piece.length ≤ size := by
  unfold chunk at h
  split_ifs at h
  · cases h
  · obtain ⟨i, -, rfl⟩ := List.mem_map.1 h
    exact List.length_take_le _ _

theorem flatten_pieces (l : List α) (size n : ℕ) :
    ((List.range n).map fun i => (l.drop (i * size)).take size).flatten = l.take (n * size) := by
  induction n with
  | zero => rw [Nat.zero_mul, List.take_zero, List.range_zero, List.map_nil, List.flatten_nil]
  | succ n ih =>
    rw [List.range_succ, List.map_append, List.flatten_append, ih, List.map_singleton, List.flatten_singleton,
      Nat.succ_mul, List.take_add]

/-- **The first `n` pieces have the first `n * size` elements.** -/
theorem flatten_take_chunk (l : List α) (h : 0 < size) (n : ℕ) :
    ((chunk l size).take n).flatten = l.take (n * size) := by
  rw [chunk, if_neg (Nat.ne_of_gt h), ← List.map_take, List.take_range, flatten_pieces]
  rcases le_total n ((l.length + size - 1) / size) with hn | hn
  · rw [Nat.min_eq_left hn]
  · have hall : l.length ≤ (l.length + size - 1) / size * size := by
      have hdiv := Nat.lt_div_mul_add h (a := l.length + size - 1)
      omega
    rw [Nat.min_eq_right hn, List.take_of_length_le hall, List.take_of_length_le]
    exact Nat.le_trans hall (Nat.mul_le_mul_right size hn)

end
