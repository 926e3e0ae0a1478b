import OrbsNetwork.Lib.JsMap
/-!
# JsMapOrder — the order in which a `Map` enumerates its keys

A key keeps its place until it is deleted, and a new key goes last, so nothing ever gets ahead of a key that is in the
map: a `Map` that is filled at one end and emptied from the other is a queue.
-/
namespace JsMap

variable {κ ν : Type*} [DecidableEq κ]

theorem keys_set (m : JsMap κ ν) (k : κ) (v : ν) :
    (m.set k v).keys = if k ∈ m.keys then m.keys else m.keys ++ [k] := by
  unfold set
  split_ifs with h
  · unfold keys
    rw [List.map_map]
    refine List.map_congr_left fun p _ => ?_
    by_cases hp : p.1 = k <;> simp [hp]
  · unfold keys
    rw [List.map_append]
    rfl

theorem keys_delete (m : JsMap κ ν) (k : κ) : (m.delete k).keys = m.keys.filter fun k' => k' ≠ k := by
  unfold delete keys
  rw [List.filter_map]
  rfl

theorem keys_foldl_delete {α : Type*} (key : α → κ) (l : List α) (m : JsMap κ ν) :
    (l.foldl (fun m a => m.delete (key a)) m).keys = m.keys.filter fun k => k ∉ l.map key := by
  induction l generalizing m with
  | nil => simp
  | cons a l ih =>
    rw [List.foldl_cons, ih, keys_delete, List.filter_filter]
    refine List.filter_congr fun k _ => ?_
    rw [List.map_cons]
    by_cases hk : k = key a <;> simp [hk]

omit [DecidableEq κ] in
theorem keys_filter_sublist (m : JsMap κ ν) (p : κ × ν → Bool) : (m.filter p).keys.Sublist m.keys :=
  List.filter_sublist.map _

/-! ## What is ahead of a key -/

/-- The keys that come before `k`. -/
def ahead (m : JsMap κ ν) (k : κ) : List κ := m.keys.takeWhile fun k' => k' ≠ k

theorem takeWhile_ne_sublist {l l' : List κ} {k : κ} (h : l'.Sublist l) (hn : l.Nodup) (hk : k ∈ l') :
    (l'.takeWhile fun k' => k' ≠ k).Sublist (l.takeWhile fun k' => k' ≠ k) := by
  induction h with
  | slnil => cases hk
  | cons a h ih =>
    obtain ⟨ha, hn⟩ := List.nodup_cons.1 hn
    have hne : a ≠ k := by
      rintro rfl
      exact ha (h.subset hk)
    rw [List.takeWhile_cons_of_pos (by simpa using hne)]
    exact (ih hn hk).cons a
  | cons_cons a h ih =>
    obtain ⟨-, hn⟩ := List.nodup_cons.1 hn
    by_cases ha : a = k
    · rw [List.takeWhile_cons_of_neg (by simpa using ha)]
      exact List.nil_sublist _
    · rw [List.takeWhile_cons_of_pos (by simpa using ha), List.takeWhile_cons_of_pos (by simpa using ha)]
      exact (ih hn ((List.mem_cons.1 hk).resolve_left (Ne.symm ha))).cons_cons a

theorem ahead_sublist {m m' : JsMap κ ν} {k : κ} (h : m'.keys.Sublist m.keys) (hk : k ∈ m'.keys) :
    (m'.ahead k).Sublist (m.ahead k) :=
  takeWhile_ne_sublist h m.keys_nodup hk

theorem ahead_first {m : JsMap κ ν} {k : κ} {ks : List κ} (h : m.keys = k :: ks) : m.ahead k = [] := by
  rw [ahead, h, List.takeWhile_cons_of_neg (by simp)]

/-- **A key that is set goes behind those that are in the map.** -/
theorem ahead_set {m : JsMap κ ν} {k k' : κ} {v : ν} (hk : k ∈ m.keys) : (m.set k' v).ahead k = m.ahead k := by
  unfold ahead
  rw [keys_set]
  split_ifs
  · rfl
  · obtain ⟨l₁, l₂, h⟩ := List.append_of_mem hk
    have hn := m.keys_nodup
    rw [h, List.nodup_append] at hn
    have hl₁ : ∀ a ∈ l₁, decide (a ≠ k) = true := fun a ha => by
      simpa using hn.2.2 a ha k List.mem_cons_self
    rw [h, List.append_assoc, List.takeWhile_append_of_pos hl₁, List.takeWhile_append_of_pos hl₁, List.cons_append,
      List.takeWhile_cons_of_neg (by simp), List.takeWhile_cons_of_neg (by simp)]

theorem takeWhile_filter {l : List κ} {k : κ} {p : κ → Bool} (hk : p k = true) :
    ((l.filter p).takeWhile fun k' => k' ≠ k) = (l.takeWhile fun k' => k' ≠ k).filter p := by
  induction l with
  | nil => rfl
  | cons a l ih =>
    by_cases ha : a = k
    · subst ha
      rw [List.filter_cons_of_pos hk, List.takeWhile_cons_of_neg (by simp), List.takeWhile_cons_of_neg (by simp),
        List.filter_nil]
    · rw [List.takeWhile_cons_of_pos (by simpa using ha)]
      by_cases hp : p a = true
      · rw [List.filter_cons_of_pos hp, List.filter_cons_of_pos hp, List.takeWhile_cons_of_pos (by simpa using ha), ih]
      · rw [List.filter_cons_of_neg hp, List.filter_cons_of_neg hp, ih]

theorem ahead_foldl_delete {α : Type*} (key : α → κ) {l : List α} {m : JsMap κ ν} {k : κ} (hk : k ∉ l.map key) :
    (l.foldl (fun m a => m.delete (key a)) m).ahead k = (m.ahead k).filter fun k' => k' ∉ l.map key := by
  unfold ahead
  rw [keys_foldl_delete, takeWhile_filter (by simpa using hk)]

/-- **Whoever takes the first `n` keys takes `k` or `n` keys that are ahead of it.** -/
theorem take_ahead {m : JsMap κ ν} {k : κ} (hk : k ∈ m.keys) (n : ℕ) :
    k ∈ m.keys.take n ∨ m.keys.take n = (m.ahead k).take n ∧ n ≤ (m.ahead k).length := by
  obtain ⟨l₁, l₂, h⟩ := List.append_of_mem hk
  have hn := m.keys_nodup
  rw [h, List.nodup_append] at hn
  have hl₁ : m.ahead k = l₁ := by
    unfold ahead
    rw [h, List.takeWhile_append_of_pos (fun a ha => by simpa using hn.2.2 a ha k List.mem_cons_self),
      List.takeWhile_cons_of_neg (by simp), List.append_nil]
  rw [hl₁, h]
  rcases Nat.lt_or_ge l₁.length n with hlt | hle
  · left
    rw [List.take_append, List.mem_append]
    obtain ⟨d, hd⟩ := Nat.exists_eq_add_of_lt hlt
    rw [hd, Nat.add_assoc, Nat.add_sub_cancel_left, List.take_succ_cons]
    exact .inr List.mem_cons_self
  · exact .inr ⟨List.take_append_of_le_length hle, hle⟩

omit [DecidableEq κ] in
theorem length_filter_le_sub {l : List κ} {n : ℕ} {p : κ → Bool} (h : ∀ k ∈ l.take n, p k = false) :
    (l.filter p).length ≤ l.length - n := by
  have htake : (l.take n).filter p = [] := List.filter_eq_nil_iff.2 fun k hk => by simp [h k hk]
  calc (l.filter p).length = ((l.take n ++ l.drop n).filter p).length := by rw [List.take_append_drop]
    _ = ((l.drop n).filter p).length := by rw [List.filter_append, htake, List.nil_append]
    _ ≤ (l.drop n).length := List.length_filter_le _ _
    _ = l.length - n := List.length_drop

theorem entries_foldl_delete_sublist {α : Type*} (key : α → κ) (l : List α) (m : JsMap κ ν) :
    (l.foldl (fun m a => m.delete (key a)) m).entries.Sublist m.entries := by
  induction l generalizing m with
  | nil => exact List.Sublist.refl _
  | cons a l ih => exact (ih (m.delete (key a))).trans List.filter_sublist

/-- What is left of a list without its first elements. -/
theorem filter_take_eq_drop {l : List κ} (hn : l.Nodup) (n : ℕ) : (l.filter fun k => k ∉ l.take n) = l.drop n := by
  have hsplit : (l.take n ++ l.drop n).Nodup := by rwa [List.take_append_drop]
  have htake : ((l.take n).filter fun k => k ∉ l.take n) = [] :=
    List.filter_eq_nil_iff.2 fun k hk => by simpa using hk
  have hdrop : ((l.drop n).filter fun k => k ∉ l.take n) = l.drop n := by
    refine List.filter_eq_self.2 fun k hk => decide_eq_true fun ht => ?_
    exact (List.nodup_append.1 hsplit).2.2 k ht k hk rfl
  calc (l.filter fun k => k ∉ l.take n) = (l.take n ++ l.drop n).filter fun k => k ∉ l.take n := by
        rw [List.take_append_drop]
    _ = l.drop n := by rw [List.filter_append, htake, hdrop, List.nil_append]

end JsMap
