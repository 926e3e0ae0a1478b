import Mathlib.Order.Monotone.Defs
import Mathlib.Data.Nat.Basic
/-!
# Paging — a walk over a growing sequence, page by page

A page has the heights above the cursor, at most `limit` of them and none above the tip; `tip` has the tip at each of
the requests of a walk.  After every page the cursor moves on by `limit`, however short the page was, and an empty page
ends the walk.  The heights of a walk are consecutive exactly when no page comes after a short one
(`consecutive_iff`).
-/
namespace Paging

def page (limit tip h : ℕ) : List ℕ := List.range' (h + 1) (min limit (tip - h))

/-- The heights of the next `fuel` pages, and whether an empty page has ended the walk. -/
def walk (limit : ℕ) : ℕ → (ℕ → ℕ) → ℕ → List ℕ × Bool
  | 0, _, _ => ([], false)
  | fuel + 1, tip, h =>
    if (page limit (tip 0) h).isEmpty then ([], true)
    else
      let rest := walk limit fuel (fun i => tip (i + 1)) (h + limit)
      (page limit (tip 0) h ++ rest.1, rest.2)

/-- When the walk comes to a page that is not full, the page after it is empty. -/
def ShortIsLast (limit : ℕ) (tip : ℕ → ℕ) (h : ℕ) : Prop :=
  ∀ i, (∀ j ≤ i, h + j * limit < tip j) → tip i < h + (i + 1) * limit → tip (i + 1) ≤ h + (i + 1) * limit

/-- The walk has the heights above `h` one after the other, and comes at least to the tip of the first request. -/
structure Consecutive (limit : ℕ) (tip : ℕ → ℕ) (h : ℕ) : Prop where
  heights : ∀ fuel, ∃ n, (walk limit fuel tip h).1 = List.range' (h + 1) n
  reaches : ∃ fuel n, (walk limit fuel tip h).1 = List.range' (h + 1) n ∧ tip 0 ≤ h + n

variable {limit : ℕ} {tip : ℕ → ℕ} {h : ℕ}

theorem page_isEmpty (hl : 0 < limit) (t : ℕ) : (page limit t h).isEmpty = true ↔ t ≤ h := by
  unfold page
  rw [List.isEmpty_iff, List.range'_eq_nil_iff]
  omega

theorem walk_ended (hl : 0 < limit) (ht : tip 0 ≤ h) (fuel : ℕ) : walk limit (fuel + 1) tip h = ([], true) := by
  rw [walk, if_pos ((page_isEmpty hl _).2 ht)]

theorem walk_page (hl : 0 < limit) (ht : h < tip 0) (fuel : ℕ) : walk limit (fuel + 1) tip h =
    (page limit (tip 0) h ++ (walk limit fuel (fun i => tip (i + 1)) (h + limit)).1,
      (walk limit fuel (fun i => tip (i + 1)) (h + limit)).2) := by
  have hne : ¬ (page limit (tip 0) h).isEmpty = true := by
    rw [page_isEmpty hl]
    omega
  rw [walk, if_neg hne]

theorem add_succ_mul (h limit i : ℕ) : h + limit + i * limit = h + (i + 1) * limit := by
  rw [Nat.add_one_mul]
  omega

theorem ShortIsLast.tail (hs : ShortIsLast limit tip h) (ht : h < tip 0) :
    ShortIsLast limit (fun i => tip (i + 1)) (h + limit) := by
  intro i hfull hshort
  dsimp only at hfull hshort ⊢
  rw [add_succ_mul] at hshort ⊢
  refine hs (i + 1) (fun j hj => ?_) hshort
  cases j with
  | zero =>
    rw [Nat.zero_mul]
    exact ht
  | succ j =>
    rw [← add_succ_mul]
    exact hfull j (by omega)

/-- As far as it has come, such a walk is consecutive, and it has passed a height for each request or reached the tip. -/
theorem walk_of_shortIsLast (hl : 0 < limit) : ∀ (fuel : ℕ) {tip : ℕ → ℕ} {h : ℕ}, Monotone tip → ShortIsLast limit tip h →
    ∃ n, (walk limit fuel tip h).1 = List.range' (h + 1) n ∧ (tip 0 ≤ h + n ∨ fuel ≤ n) := by
  intro fuel
  induction fuel with
  | zero => exact fun _ _ => ⟨0, rfl, .inr le_rfl⟩
  | succ fuel ih =>
    intro tip h hm hs
    by_cases ht : tip 0 ≤ h
    · rw [walk_ended hl ht]
      exact ⟨0, rfl, .inl ht⟩
    rw [not_le] at ht
    rw [walk_page hl ht, page]
    by_cases hfull : h + limit ≤ tip 0
    · have hm' : Monotone fun i => tip (i + 1) := fun i j hij => hm (Nat.add_le_add_right hij 1)
      obtain ⟨n, hn, hreach⟩ := ih hm' (hs.tail ht)
      rw [Nat.zero_add] at hreach
      have hmono : tip 0 ≤ tip 1 := hm (Nat.zero_le 1)
      rw [hn, Nat.min_eq_left (by omega), show h + limit + 1 = h + 1 + limit by omega, List.range'_append_1]
      refine ⟨limit + n, rfl, ?_⟩
      rcases hreach with hreach | hreach
      · left
        omega
      · right
        omega
    · have hlast : tip 1 ≤ h + limit := by
        have := hs 0 (fun j hj => by rw [Nat.le_zero.1 hj]; omega) (by omega)
        rwa [Nat.zero_add, Nat.one_mul] at this
      have hrest : (walk limit fuel (fun i => tip (i + 1)) (h + limit)).1 = [] := by
        cases fuel with
        | zero => rfl
        | succ fuel => rw [walk_ended hl hlast]
      rw [hrest, List.append_nil, Nat.min_eq_right (by omega)]
      exact ⟨tip 0 - h, rfl, .inl (by omega)⟩

theorem gap (hl : 0 < limit) (ht : h < tip 0) (hshort : tip 0 < h + limit) (hnext : h + limit < tip 1) (fuel n : ℕ) :
    (walk limit (fuel + 2) tip h).1 ≠ List.range' (h + 1) n := by
  intro he
  rw [walk_page hl ht, walk_page hl hnext, page, page] at he
  obtain ⟨k, -, hpage, hrest⟩ := List.range'_eq_append_iff.1 he.symm
  obtain ⟨hk, -⟩ := List.range'_inj.1 hpage
  obtain ⟨k', -, hpage', -⟩ := List.range'_eq_append_iff.1 hrest.symm
  obtain ⟨hk', hpos | hstart⟩ := List.range'_inj.1 hpage'
  · rw [Nat.zero_add] at hpos
    omega
  · omega

theorem shortIsLast_of_walk (hl : 0 < limit) : ∀ (i : ℕ) {tip : ℕ → ℕ} {h : ℕ},
    (∀ fuel, ∃ n, (walk limit fuel tip h).1 = List.range' (h + 1) n) → (∀ j ≤ i, h + j * limit < tip j) →
    tip i < h + (i + 1) * limit → tip (i + 1) ≤ h + (i + 1) * limit := by
  intro i
  induction i with
  | zero =>
    intro tip h hw hfull hshort
    rw [Nat.zero_add, Nat.one_mul] at hshort ⊢
    by_contra hnext
    obtain ⟨n, hn⟩ := hw 2
    have ht := hfull 0 le_rfl
    exact gap hl (by omega) hshort (by omega) 0 n hn
  | succ i ih =>
    intro tip h hw hfull hshort
    have ht : h < tip 0 := by simpa using hfull 0 (Nat.zero_le _)
    have hnext : h + limit < tip 1 := by simpa using hfull 1 (by omega)
    by_cases hpage : tip 0 < h + limit
    · obtain ⟨n, hn⟩ := hw 2
      exact absurd hn (gap hl ht hpage hnext 0 n)
    rw [← add_succ_mul] at hshort ⊢
    refine @ih (fun i => tip (i + 1)) (h + limit) (fun fuel => ?_) (fun j hj => ?_) hshort
    · obtain ⟨n, hn⟩ := hw (fuel + 1)
      rw [walk_page hl ht, page, Nat.min_eq_left (by omega)] at hn
      obtain ⟨k, -, hk, hrest⟩ := List.range'_eq_append_iff.1 hn.symm
      obtain ⟨rfl, -⟩ := List.range'_inj.1 hk
      refine ⟨n - limit, ?_⟩
      rw [hrest, Nat.mul_one, show h + 1 + limit = h + limit + 1 by omega]
    · rw [add_succ_mul]
      exact hfull (j + 1) (by omega)

/-- **A walk over a growing sequence is consecutive exactly when no page comes after a short one.** -/
theorem consecutive_iff (hl : 0 < limit) (hm : Monotone tip) : Consecutive limit tip h ↔ ShortIsLast limit tip h := by
  constructor
  · exact fun hc i => shortIsLast_of_walk hl i hc.heights
  · intro hs
    constructor
    · intro fuel
      obtain ⟨n, hn, -⟩ := walk_of_shortIsLast hl fuel hm hs
      exact ⟨n, hn⟩
    · obtain ⟨n, hn, hreach⟩ := walk_of_shortIsLast hl (tip 0) hm hs
      exact ⟨tip 0, n, hn, by omega⟩

end Paging
