import Mathlib.Data.List.TakeWhile
/-!
# Split — lists cut at a separator

`splitAt` is `String.prototype.split` with a one-character separator: the parts between the separators, at least one.
-/
namespace Split

variable {α : Type*}

/-- What stands before the first separator and what stands after it are determined by the whole. -/
theorem append_cons_inj {a : α} {z w : List α} : ∀ {x y : List α}, a ∉ x → a ∉ y → x ++ a :: z = y ++ a :: w →
    x = y ∧ z = w
  | [], [], _, _, h => ⟨rfl, (List.cons.inj h).2⟩
  | [], b :: y, _, hy, h => by
    obtain ⟨rfl, -⟩ := List.cons.inj h
    exact absurd List.mem_cons_self hy
  | b :: x, [], hx, _, h => by
    obtain ⟨rfl, -⟩ := List.cons.inj h
    exact absurd List.mem_cons_self hx
  | b :: x, c :: y, hx, hy, h => by
    obtain ⟨rfl, ht⟩ := List.cons.inj h
    obtain ⟨rfl, hz⟩ := append_cons_inj (fun hm => hx (List.mem_cons_of_mem _ hm))
      (fun hm => hy (List.mem_cons_of_mem _ hm)) ht
    exact ⟨rfl, hz⟩

variable [DecidableEq α]

def splitAt (sep : α) : List α → List (List α)
  | [] => [[]]
  | c :: cs =>
    if c = sep then [] :: splitAt sep cs
    else match splitAt sep cs with
      | part :: parts => (c :: part) :: parts
      | [] => [[c]]

theorem splitAt_append {sep : α} (z : List α) : ∀ {x : List α}, sep ∉ x →
    splitAt sep (x ++ sep :: z) = x :: splitAt sep z
  | [], _ => by rw [List.nil_append, splitAt, if_pos rfl]
  | c :: x, h => by
    rw [List.mem_cons, not_or] at h
    rw [List.cons_append, splitAt, if_neg (Ne.symm h.1), splitAt_append z h.2]

theorem splitAt_eq (sep : α) : ∀ x : List α, ∃ parts, splitAt sep x = x.takeWhile (· ≠ sep) :: parts
  | [] => ⟨[], rfl⟩
  | c :: x => by
    by_cases h : c = sep
    · exact ⟨splitAt sep x, by rw [splitAt, if_pos h, List.takeWhile_cons_of_neg (by simpa using h)]⟩
    · obtain ⟨parts, hp⟩ := splitAt_eq sep x
      exact ⟨parts, by rw [splitAt, if_neg h, hp, List.takeWhile_cons_of_pos (by simpa using h)]⟩

theorem takeWhile_ne_eq_self_iff {sep : α} {x : List α} : x.takeWhile (· ≠ sep) = x ↔ sep ∉ x := by
  rw [List.takeWhile_eq_self_iff]
  constructor
  · intro h hm
    simpa using h sep hm
  · intro h c hc
    simpa using fun he : c = sep => h (he ▸ hc)

end Split
