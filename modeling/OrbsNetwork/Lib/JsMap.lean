import Mathlib.Data.List.Induction
import Mathlib.Data.List.Nodup
import Mathlib.Tactic.TypeStar
/-!
# JsMap — the ECMAScript `Map`

Entries in the order of the first `set` of their keys; a key that is set again keeps its place, a deleted one loses it.
The entries carry the proof that no key repeats.
-/

structure JsMap (κ ν : Type*) where
  entries : List (κ × ν)
  nodup : (entries.map Prod.fst).Nodup

namespace JsMap

variable {κ ν : Type*}

def empty : JsMap κ ν := ⟨[], .nil⟩

def keys (m : JsMap κ ν) : List κ := m.entries.map Prod.fst

def size (m : JsMap κ ν) : ℕ := m.entries.length

/-- The map after a loop that deletes the entries that fail `p`. -/
def filter (m : JsMap κ ν) (p : κ × ν → Bool) : JsMap κ ν where
  entries := m.entries.filter p
  nodup := m.nodup.sublist (List.filter_sublist.map _)

def mapValues {μ : Type*} (f : ν → μ) (m : JsMap κ ν) : JsMap κ μ where
  entries := m.entries.map fun p => (p.1, f p.2)
  nodup := by
    rw [List.map_map]
    exact m.nodup

theorem keys_nodup (m : JsMap κ ν) : m.keys.Nodup := m.nodup

variable [DecidableEq κ]

def get (m : JsMap κ ν) (k : κ) : Option ν := (m.entries.find? fun p => p.1 = k).map Prod.snd

def has (m : JsMap κ ν) (k : κ) : Bool := (m.get k).isSome

def delete (m : JsMap κ ν) (k : κ) : JsMap κ ν where
  entries := m.entries.filter fun p => p.1 ≠ k
  nodup := m.nodup.sublist (List.filter_sublist.map _)

theorem get_eq_some_iff {m : JsMap κ ν} {k : κ} {v : ν} : m.get k = some v ↔ (k, v) ∈ m.entries := by
  obtain ⟨l, hl⟩ := m
  change (l.find? fun p => p.1 = k).map Prod.snd = some v ↔ (k, v) ∈ l
  induction l with
  | nil => simp
  | cons p l ih =>
    rw [List.map_cons, List.nodup_cons] at hl
    obtain ⟨k', v'⟩ := p
    by_cases h : k' = k
    · subst h
      rw [List.find?_cons_of_pos (by simp)]
      have hk : (k', v) ∉ l := fun hm => hl.1 (List.mem_map.2 ⟨_, hm, rfl⟩)
      simp [hk, eq_comm]
    · rw [List.find?_cons_of_neg (by simpa using h), ih hl.2]
      simp [Ne.symm h]

theorem get_eq_none_iff {m : JsMap κ ν} {k : κ} : m.get k = none ↔ k ∉ m.keys := by
  rw [Option.eq_none_iff_forall_ne_some, keys, List.mem_map]
  constructor
  · rintro h ⟨⟨k', v⟩, hp, rfl⟩
    exact h v (get_eq_some_iff.2 hp)
  · intro h v hv
    exact h ⟨(k, v), get_eq_some_iff.1 hv, rfl⟩

theorem get_mapValues {μ : Type*} (f : ν → μ) (m : JsMap κ ν) (k : κ) : (m.mapValues f).get k = (m.get k).map f := by
  unfold get mapValues
  rw [List.find?_map, Option.map_map, Option.map_map]
  rfl

theorem has_iff {m : JsMap κ ν} {k : κ} : m.has k = true ↔ k ∈ m.keys := by
  rw [has, Option.isSome_iff_ne_none, Ne, get_eq_none_iff, not_not]

def set (m : JsMap κ ν) (k : κ) (v : ν) : JsMap κ ν :=
  if h : k ∈ m.keys then
    { entries := m.entries.map fun p => if p.1 = k then (k, v) else p
      nodup := by
        have he : (m.entries.map fun p => if p.1 = k then (k, v) else p).map Prod.fst = m.keys := by
          rw [List.map_map, keys]
          refine List.map_congr_left fun p _ => ?_
          by_cases hp : p.1 = k <;> simp [hp]
        rw [he]
        exact m.nodup }
  else
    { entries := m.entries ++ [(k, v)]
      nodup := by
        rw [List.map_append, List.nodup_append]
        refine ⟨m.nodup, List.nodup_singleton _, fun a ha b hb => ?_⟩
        rw [List.map_singleton, List.mem_singleton] at hb
        rintro rfl
        subst hb
        exact h ha }

theorem mem_set {m : JsMap κ ν} {k : κ} {v : ν} {p : κ × ν} :
    p ∈ (m.set k v).entries ↔ p = (k, v) ∨ p ∈ m.entries ∧ p.1 ≠ k := by
  rw [set]
  split_ifs with h
  · obtain ⟨q, hq, hqk⟩ := List.mem_map.1 h
    rw [List.mem_map]
    constructor
    · rintro ⟨r, hr, rfl⟩
      by_cases hk : r.1 = k
      · exact .inl (if_pos hk)
      · exact .inr ⟨by rw [if_neg hk]; exact hr, by rw [if_neg hk]; exact hk⟩
    · rintro (rfl | ⟨hp, hk⟩)
      · exact ⟨q, hq, if_pos hqk⟩
      · exact ⟨p, hp, if_neg hk⟩
  · rw [List.mem_append, List.mem_singleton]
    constructor
    · rintro (hp | rfl)
      · exact .inr ⟨hp, fun hk => h (List.mem_map.2 ⟨p, hp, hk⟩)⟩
      · exact .inl rfl
    · rintro (rfl | ⟨hp, -⟩)
      · exact .inr rfl
      · exact .inl hp

theorem get_set (m : JsMap κ ν) (k k' : κ) (v : ν) : (m.set k v).get k' = if k' = k then some v else m.get k' := by
  apply Option.ext
  intro w
  rw [get_eq_some_iff, mem_set]
  split_ifs with h
  · simp [h, eq_comm]
  · simp [h, get_eq_some_iff]

theorem get_delete (m : JsMap κ ν) (k k' : κ) : (m.delete k).get k' = if k' = k then none else m.get k' := by
  apply Option.ext
  intro w
  rw [get_eq_some_iff, delete, List.mem_filter]
  split_ifs with h
  · simp [h]
  · simp [h, get_eq_some_iff]

@[simp] theorem get_empty (k : κ) : (empty : JsMap κ ν).get k = none := rfl

@[simp] theorem get_set_self (m : JsMap κ ν) (k : κ) (v : ν) : (m.set k v).get k = some v := by
  rw [get_set, if_pos rfl]

@[simp] theorem get_delete_self (m : JsMap κ ν) (k : κ) : (m.delete k).get k = none := by
  rw [get_delete, if_pos rfl]

theorem get_of_get_filter {m : JsMap κ ν} {p : κ × ν → Bool} {k : κ} {v : ν} (h : (m.filter p).get k = some v) :
    m.get k = some v := by
  rw [get_eq_some_iff] at h ⊢
  exact List.mem_of_mem_filter h

theorem get_filter_of_pos {m : JsMap κ ν} {p : κ × ν → Bool} {k : κ} {v : ν} (h : m.get k = some v)
    (hp : p (k, v) = true) : (m.filter p).get k = some v := by
  rw [get_eq_some_iff] at h ⊢
  exact List.mem_filter.2 ⟨h, hp⟩

/-- After a loop of writes a key reads what the last write to it gave it, or what it read before. -/
theorem foldl_write_cases {σ α γ : Type*} (read : σ → κ → γ) {write : σ → α → σ} {key : α → κ} {val : α → γ}
    (h : ∀ s a k, read (write s a) k = if k = key a then val a else read s k) (l : List α) (s : σ) (k : κ) :
    (∃ a ∈ l, key a = k ∧ read (l.foldl write s) k = val a) ∨
      (∀ a ∈ l, key a ≠ k) ∧ read (l.foldl write s) k = read s k := by
  induction l using List.reverseRecOn with
  | nil => exact .inr ⟨nofun, rfl⟩
  | append_singleton l a ih =>
    rw [List.foldl_append, List.foldl_cons, List.foldl_nil, h]
    by_cases hk : k = key a
    · exact .inl ⟨a, by simp, hk.symm, if_pos hk⟩
    rw [if_neg hk]
    rcases ih with ⟨b, hb, hkey, hread⟩ | ⟨hkey, hread⟩
    · exact .inl ⟨b, List.mem_append_left _ hb, hkey, hread⟩
    · refine .inr ⟨fun b hb => ?_, hread⟩
      rcases List.mem_append.1 hb with hb | hb
      · exact hkey b hb
      · rw [List.mem_singleton.1 hb]
        exact Ne.symm hk

theorem get_foldl_set {α : Type*} (key : α → κ) (val : α → ν) (l : List α) (m : JsMap κ ν) (k : κ) :
    (∃ a ∈ l, key a = k ∧ (l.foldl (fun m a => m.set (key a) (val a)) m).get k = some (val a)) ∨
      (∀ a ∈ l, key a ≠ k) ∧ (l.foldl (fun m a => m.set (key a) (val a)) m).get k = m.get k :=
  foldl_write_cases get (fun m a k => get_set m (key a) k (val a)) l m k

theorem get_foldl_delete {α : Type*} (key : α → κ) {l : List α} {m : JsMap κ ν} {k : κ} {v : ν} :
    (l.foldl (fun m a => m.delete (key a)) m).get k = some v ↔ m.get k = some v ∧ ∀ a ∈ l, key a ≠ k := by
  induction l generalizing m with
  | nil => simp
  | cons a l ih =>
    rw [List.foldl_cons, ih, get_delete, List.forall_mem_cons]
    by_cases h : k = key a
    · simp [h]
    · simp [h, Ne.symm h]

theorem get_of_mem_keys {m : JsMap κ ν} {k : κ} (h : k ∈ m.keys) : ∃ v, m.get k = some v :=
  Option.isSome_iff_exists.1 (has_iff.2 h)

end JsMap
