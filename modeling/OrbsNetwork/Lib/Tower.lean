import Mathlib.Computability.StateTransition
import Mathlib.Data.List.Nodup
import Mathlib.Data.List.Sort
/-!
# Tower — a store that takes its items rank by rank

A tower holds one item of each rank from 1 up to its height, and accepts a further item only if its rank is the next
one.  `drain` offers it a batch in the order of ranks, of every rank the first item only; what is not accepted is lost.
The tower climbs by the first items of the batch until one is missing or refused (`drain_mem_eval`), so the outcome
depends on the order of the batch exactly when an item that could be accepted has a rival of its rank
(`drain_unique_iff`).
-/

open StateTransition (Reaches eval mem_eval)

/-- Of the items with one rank the first. -/
def uniqBy {α : Type*} (rank : α → ℕ) (l : List α) : List α := l.eraseDupsBy fun a b => rank a == rank b

def sortBy {α : Type*} (rank : α → ℕ) (l : List α) : List α := l.insertionSort fun a b => rank a ≤ rank b

structure Tower (σ α β : Type*) where
  items : σ → List β
  item : α → β
  rank : α → ℕ
  accept : σ → α → Option σ
  item_injective : Function.Injective item
  rank_eq : ∀ {s a t}, accept s a = some t → rank a = (items s).length + 1
  items_eq : ∀ {s a t}, accept s a = some t → items t = items s ++ [item a]

section
variable {α : Type*} {rank : α → ℕ}

theorem uniqBy_cons (a : α) (l : List α) :
    uniqBy rank (a :: l) = a :: uniqBy rank (l.filter fun b => rank b ≠ rank a) := by
  have hp : (fun b => decide ((rank b == rank a) = false)) = fun b => decide (rank b ≠ rank a) := by
    funext b
    simp only [beq_eq_false_iff_ne]
  rw [uniqBy, List.eraseDupsBy_cons, hp]
  rfl

theorem find?_filter_ne {n m : ℕ} (h : n ≠ m) (l : List α) :
    (l.filter fun b => rank b ≠ m).find? (fun b => rank b = n) = l.find? fun b => rank b = n := by
  rw [List.find?_filter]
  congr 1
  funext b
  by_cases hb : rank b = n
  · simp [hb, h]
  · simp [hb]

theorem mem_uniqBy : ∀ {l : List α} {a : α}, a ∈ uniqBy rank l ↔ l.find? (fun b => rank b = rank a) = some a
  | [], a => iff_of_false List.not_mem_nil nofun
  | b :: l, a => by
    have ih := @mem_uniqBy (l.filter fun c => rank c ≠ rank b) a
    rw [uniqBy_cons, List.mem_cons, ih]
    by_cases h : rank a = rank b
    · have hnone : (l.filter fun c => rank c ≠ rank b).find? (fun c => rank c = rank a) = none := by
        rw [List.find?_eq_none]
        intro c hc
        simpa [h] using (List.mem_filter.1 hc).2
      rw [hnone, List.find?_cons_of_pos (by simpa using h.symm), Option.some_inj]
      simp [eq_comm]
    · have hne : a ≠ b := fun he => h (by rw [he])
      rw [find?_filter_ne h, List.find?_cons_of_neg (by simpa using Ne.symm h)]
      simp [hne]
termination_by l => l.length
decreasing_by exact Nat.lt_succ_of_le (List.length_filter_le _ _)

theorem mem_of_mem_uniqBy {l : List α} {a : α} (h : a ∈ uniqBy rank l) : a ∈ l :=
  List.mem_of_find?_eq_some (mem_uniqBy.1 h)

theorem pairwise_uniqBy : ∀ l : List α, (uniqBy rank l).Pairwise fun a b => rank a ≠ rank b
  | [] => .nil
  | a :: l => by
    rw [uniqBy_cons]
    refine .cons (fun b hb => ?_) (pairwise_uniqBy _)
    exact (of_decide_eq_true (List.mem_filter.1 (mem_of_mem_uniqBy hb)).2).symm
termination_by l => l.length
decreasing_by exact Nat.lt_succ_of_le (List.length_filter_le _ _)

theorem pairwise_sortBy_uniqBy (l : List α) : (sortBy rank (uniqBy rank l)).Pairwise fun a b => rank a < rank b := by
  have hle : (sortBy rank (uniqBy rank l)).Pairwise fun a b => rank a ≤ rank b :=
    @List.pairwise_insertionSort α (fun a b => rank a ≤ rank b) _ ⟨fun a b => Nat.le_total _ _⟩
      ⟨fun _ _ _ => Nat.le_trans⟩ (uniqBy rank l)
  have hne : (sortBy rank (uniqBy rank l)).Pairwise fun a b => rank a ≠ rank b :=
    (List.perm_insertionSort _ _).symm.pairwise (pairwise_uniqBy l) fun h => Ne.symm h
  exact (hle.and hne).imp fun h => lt_of_le_of_ne h.1 h.2

theorem find?_of_pairwise {l : List α} (hl : l.Pairwise fun a b => rank a < rank b) {n : ℕ} {a : α} :
    l.find? (fun b => rank b = n) = some a ↔ a ∈ l ∧ rank a = n := by
  constructor
  · exact fun h => ⟨List.mem_of_find?_eq_some h, by simpa using List.find?_some h⟩
  · rintro ⟨ha, rfl⟩
    induction hl with
    | nil => cases ha
    | @cons b l hb _ ih =>
      rcases List.mem_cons.1 ha with rfl | ha
      · exact List.find?_cons_of_pos (by simp)
      · rw [List.find?_cons_of_neg (by simpa using (hb a ha).ne)]
        exact ih ha

/-- Sorting and dropping repeated ranks keeps the first item of every rank. -/
theorem find?_sortBy_uniqBy (l : List α) (n : ℕ) :
    (sortBy rank (uniqBy rank l)).find? (fun b => rank b = n) = l.find? fun b => rank b = n := by
  refine Option.ext fun a => ?_
  rw [find?_of_pairwise (pairwise_sortBy_uniqBy l), sortBy, List.mem_insertionSort, mem_uniqBy]
  constructor
  · rintro ⟨h, rfl⟩
    exact h
  · intro h
    have hn : rank a = n := by simpa using List.find?_some h
    exact ⟨by rw [hn]; exact h, hn⟩

end

namespace Tower

section
variable {σ α β : Type*} (T : Tower σ α β)

def height (s : σ) : ℕ := (T.items s).length

def feed (s : σ) (l : List α) : σ := l.foldl (fun s a => (T.accept s a).getD s) s

def drain (s : σ) (l : List α) : σ := T.feed s (sortBy T.rank (uniqBy T.rank l))

/-- The tower one item higher, if the batch has the item of the next rank and its first one is accepted. -/
def climb (l : List α) (s : σ) : Option σ := (l.find? fun a => T.rank a = T.height s + 1).bind (T.accept s)

/-- What can be built from a tower with items of the batch. -/
def Built (l : List α) : σ → σ → Prop := Relation.ReflTransGen fun s t => ∃ a ∈ l, T.accept s a = some t

/-- No item that can be accepted on the way has another one of its rank beside it. -/
def Unrivalled (s : σ) (l : List α) : Prop :=
  ∀ t, T.Built l s t → ∀ a ∈ l, (T.accept t a).isSome = true → ∀ b ∈ l, T.rank b = T.rank a → b = a

variable {T} {s t : σ} {l : List α}

theorem height_of_accept {a : α} (h : T.accept s a = some t) : T.height t = T.height s + 1 := by
  rw [height, T.items_eq h, List.length_append]
  rfl

theorem rank_of_accept {a : α} (h : T.accept s a = some t) : T.rank a = T.height s + 1 := T.rank_eq h

theorem climb_eq_some : T.climb l s = some t ↔
    ∃ a, (l.find? fun a => T.rank a = T.height s + 1) = some a ∧ T.accept s a = some t := Option.bind_eq_some_iff

theorem built_of_reaches (h : Reaches (T.climb l) s t) : T.Built l s t := by
  refine Relation.ReflTransGen.mono (fun u v hv => ?_) _ _ h
  obtain ⟨a, ha, hv⟩ := climb_eq_some.1 hv
  exact ⟨a, List.mem_of_find?_eq_some ha, hv⟩

/-- **What is built has the old items below, then items of the batch, one for each rank.** -/
theorem exists_of_built (h : T.Built l s t) : ∃ added : List α, T.items t = T.items s ++ added.map T.item ∧
    (∀ a ∈ added, a ∈ l) ∧ added.map T.rank = List.range' (T.height s + 1) added.length := by
  induction h with
  | refl => exact ⟨[], by simp⟩
  | @tail u v _ hv ih =>
    obtain ⟨a, ha, hv⟩ := hv
    obtain ⟨added, hitems, hmem, hrank⟩ := ih
    refine ⟨added ++ [a], ?_, ?_, ?_⟩
    · rw [T.items_eq hv, hitems, List.map_append, List.append_assoc]
      rfl
    · intro b hb
      rcases List.mem_append.1 hb with hb | hb
      · exact hmem b hb
      · rw [List.mem_singleton.1 hb]
        exact ha
    · have hr := T.rank_eq hv
      rw [hitems, List.length_append, List.length_map] at hr
      rw [List.map_append, hrank, List.map_singleton, hr, List.length_append, List.length_singleton,
        List.range'_1_concat, height]
      congr 2
      omega

theorem height_le_of_built (h : T.Built l s t) : T.height s ≤ T.height t := by
  obtain ⟨added, hitems, -, -⟩ := exists_of_built h
  rw [height, height, hitems, List.length_append]
  exact Nat.le_add_right _ _

theorem prefix_of_built (h : T.Built l s t) : T.items s <+: T.items t := by
  obtain ⟨added, hitems, -, -⟩ := exists_of_built h
  exact ⟨_, hitems.symm⟩

/-! ## Where a batch ends up -/

theorem reaches_congr {l l' : List α} (hs : ∀ u, T.Built l s u → T.climb l u = T.climb l' u)
    (h : Reaches (T.climb l) s t) : Reaches (T.climb l') s t := by
  induction h with
  | refl => exact .refl
  | @tail u v hu hv ih =>
    refine ih.tail ?_
    rw [← hs u (built_of_reaches hu)]
    exact hv

theorem mem_eval_congr {l l' : List α} (hs : ∀ u, T.Built l s u → T.climb l u = T.climb l' u)
    (h : t ∈ eval (T.climb l) s) : t ∈ eval (T.climb l') s := by
  obtain ⟨hr, hn⟩ := mem_eval.1 h
  refine mem_eval.2 ⟨reaches_congr hs hr, ?_⟩
  rw [← hs t (built_of_reaches hr)]
  exact hn

theorem climb_cons_of_ne {a : α} (h : T.rank a ≠ T.height s + 1) : T.climb (a :: l) s = T.climb l s := by
  rw [climb, climb, List.find?_cons_of_neg (by simpa using h)]

theorem climb_cons_of_eq {a : α} (h : T.rank a = T.height s + 1) : T.climb (a :: l) s = T.accept s a := by
  rw [climb, List.find?_cons_of_pos (by simpa using h)]
  rfl

theorem feed_of_lt (h : ∀ a ∈ l, T.height s + 1 < T.rank a) : T.feed s l = s := by
  unfold feed
  induction l with
  | nil => rfl
  | cons a l ih =>
    have hnone : T.accept s a = none := by
      rw [Option.eq_none_iff_forall_ne_some]
      intro t ht
      exact (h a List.mem_cons_self).ne' (T.rank_eq ht)
    rw [List.foldl_cons, hnone, Option.getD_none]
    exact ih fun b hb => h b (List.mem_cons_of_mem _ hb)

theorem climb_of_lt (h : ∀ a ∈ l, T.height s + 1 < T.rank a) : T.climb l s = none := by
  have hnone : (l.find? fun a => T.rank a = T.height s + 1) = none := by
    rw [List.find?_eq_none]
    intro a ha
    simpa using (h a ha).ne'
  rw [climb, hnone]
  rfl

theorem mem_eval_cons {a : α} (h : T.rank a ≤ T.height s) (ht : t ∈ eval (T.climb l) s) :
    t ∈ eval (T.climb (a :: l)) s := by
  refine mem_eval_congr (fun u hu => (climb_cons_of_ne ?_).symm) ht
  have := height_le_of_built hu
  omega

/-- **A sorted batch without repeated ranks is climbed until a rank is missing or refused.** -/
theorem feed_mem_eval (hl : l.Pairwise fun a b => T.rank a < T.rank b) : T.feed s l ∈ eval (T.climb l) s := by
  induction hl generalizing s with
  | nil => exact mem_eval.2 ⟨.refl, rfl⟩
  | @cons a l hlt _ ih =>
    have hfeed : T.feed s (a :: l) = T.feed ((T.accept s a).getD s) l := rfl
    rw [hfeed]
    cases ha : T.accept s a with
    | some t =>
      have hrank := T.rank_eq ha
      have hstep : T.climb (a :: l) s = some t := by rw [climb_cons_of_eq hrank, ha]
      rw [StateTransition.reaches_eval (.single hstep)]
      exact mem_eval_cons (by rw [height_of_accept ha, rank_of_accept ha]) ih
    | none =>
      rw [Option.getD_none]
      rcases le_or_gt (T.rank a) (T.height s) with hle | hgt
      · exact mem_eval_cons hle ih
      · have hall : ∀ b ∈ l, T.height s + 1 < T.rank b := fun b hb => by
          have := hlt b hb
          omega
        rw [feed_of_lt hall]
        refine mem_eval.2 ⟨.refl, ?_⟩
        by_cases heq : T.rank a = T.height s + 1
        · rw [climb_cons_of_eq heq, ha]
        · rw [climb_cons_of_ne heq, climb_of_lt hall]

theorem climb_sortBy_uniqBy (l : List α) : T.climb (sortBy T.rank (uniqBy T.rank l)) = T.climb l := by
  funext s
  rw [climb, climb, find?_sortBy_uniqBy]

/-- **A tower climbs by the first items of the batch until one is missing or refused.** -/
theorem drain_mem_eval (s : σ) (l : List α) : T.drain s l ∈ eval (T.climb l) s := by
  rw [← climb_sortBy_uniqBy l]
  exact feed_mem_eval (pairwise_sortBy_uniqBy l)

theorem built_drain (s : σ) (l : List α) : T.Built l s (T.drain s l) :=
  built_of_reaches (mem_eval.1 (drain_mem_eval s l)).1

theorem climb_drain (s : σ) (l : List α) : T.climb l (T.drain s l) = none :=
  (mem_eval.1 (drain_mem_eval s l)).2

theorem drain_of_reaches (h : Reaches (T.climb l) s t) (hn : T.climb l t = none) : T.drain s l = t :=
  Part.mem_unique (T.drain_mem_eval s l) (mem_eval.2 ⟨h, hn⟩)

theorem prefix_items_drain {u : σ} (h : Reaches (T.climb l) s t) (hu : T.climb l t = some u) :
    T.items u <+: T.items (T.drain s l) := by
  have hmem := T.drain_mem_eval s l
  rw [StateTransition.reaches_eval (h.tail hu)] at hmem
  exact prefix_of_built (built_of_reaches (mem_eval.1 hmem).1)

/-- **A batch whose every item of the next rank is accepted adds its longest run of ranks**: one item for each rank from
the next one on, up to the first rank that is missing. -/
theorem exists_longest_run (h : ∀ u, T.Built l s u → ∀ a ∈ l, T.rank a = T.height u + 1 → (T.accept u a).isSome = true) :
    ∃ added : List α, T.items (T.drain s l) = T.items s ++ added.map T.item ∧ (∀ a ∈ added, a ∈ l) ∧
      added.map T.rank = List.range' (T.height s + 1) added.length ∧
      ∀ a ∈ l, T.rank a ≠ T.height s + added.length + 1 := by
  obtain ⟨added, hitems, hmem, hrank⟩ := exists_of_built (T.built_drain s l)
  refine ⟨added, hitems, hmem, hrank, fun a ha hr => ?_⟩
  have hheight : T.height (T.drain s l) = T.height s + added.length := by
    rw [height, hitems, List.length_append, List.length_map, height]
  have hsome : (l.find? fun a => T.rank a = T.height (T.drain s l) + 1).isSome = true :=
    List.find?_isSome.2 ⟨a, ha, by simpa [hheight] using hr⟩
  obtain ⟨b, hb⟩ := Option.isSome_iff_exists.1 hsome
  have hrb : T.rank b = T.height (T.drain s l) + 1 := by simpa using List.find?_some hb
  obtain ⟨u, hu⟩ := Option.isSome_iff_exists.1 (h _ (T.built_drain s l) b (List.mem_of_find?_eq_some hb) hrb)
  have hclimb := T.climb_drain s l
  rw [climb_eq_some.2 ⟨b, hb, hu⟩] at hclimb
  cases hclimb

/-- Of two items with one rank the second is dropped. -/
theorem drain_pair (s : σ) {a b : α} (h : T.rank b = T.rank a) : T.drain s [a, b] = (T.accept s a).getD s := by
  have huniq : uniqBy T.rank [a, b] = [a] := by
    rw [uniqBy_cons, List.filter_cons_of_neg (by simpa using h)]
    rfl
  rw [drain, huniq]
  rfl

/-! ## One item more -/

/-- What the batches do from the end on does not matter. -/
theorem reaches_of_forall_lt {l l' : List α} (hlow : ∀ u, T.height u < T.height t → T.climb l u = T.climb l' u)
    (h : Reaches (T.climb l) s t) : Reaches (T.climb l') s t := by
  induction h with
  | refl => exact .refl
  | @tail u v _ hv ih =>
    obtain ⟨b, -, hb⟩ := climb_eq_some.1 hv
    have hheight := height_of_accept hb
    refine (ih fun w hw => hlow w (by omega)).tail ?_
    rwa [hlow u (by omega)] at hv

theorem reaches_cons_iff {a : α} (ha : T.height t < T.rank a) :
    Reaches (T.climb (a :: l)) s t ↔ Reaches (T.climb l) s t := by
  have hlow : ∀ u, T.height u < T.height t → T.climb (a :: l) u = T.climb l u := fun u hu =>
    climb_cons_of_ne (by omega)
  exact ⟨reaches_of_forall_lt hlow, reaches_of_forall_lt fun u hu => (hlow u hu).symm⟩

theorem mem_items_of_reaches {a : α} (h : Reaches (T.climb (a :: l)) s t) (ha : T.item a ∈ T.items t) :
    T.item a ∈ T.items s ∨ ∃ u, Reaches (T.climb l) s u ∧ (T.accept u a).isSome = true := by
  induction h with
  | refl => exact .inl ha
  | @tail u v hu hv ih =>
    obtain ⟨b, hb, hacc⟩ := climb_eq_some.1 hv
    rw [T.items_eq hacc, List.mem_append, List.mem_singleton] at ha
    rcases ha with ha | ha
    · exact ih ha
    · have hab := T.item_injective ha
      have hrank := rank_of_accept hacc
      subst hab
      exact .inr ⟨u, (reaches_cons_iff (by omega)).1 hu, by rw [hacc]; rfl⟩

/-- **The first item of a batch is on the tower in the end** if it was there before, or if the other items of the batch
lead to where it is accepted. -/
theorem mem_items_drain_cons (s : σ) (l : List α) (a : α) : T.item a ∈ T.items (T.drain s (a :: l)) ↔
    T.item a ∈ T.items s ∨ ∃ t, Reaches (T.climb l) s t ∧ (T.accept t a).isSome = true := by
  constructor
  · exact mem_items_of_reaches (mem_eval.1 (T.drain_mem_eval s (a :: l))).1
  · rintro (h | ⟨t, ht, hacc⟩)
    · exact (prefix_of_built (T.built_drain s (a :: l))).subset h
    · obtain ⟨u, hu⟩ := Option.isSome_iff_exists.1 hacc
      have hrank := rank_of_accept hu
      have hstep : T.climb (a :: l) t = some u := by rw [climb_cons_of_eq hrank, hu]
      refine (prefix_items_drain ((reaches_cons_iff (by omega)).2 ht) hstep).subset ?_
      rw [T.items_eq hu]
      exact List.mem_append_right _ List.mem_cons_self

/-! ## The order of a batch -/

theorem climb_append_cons {added : List α} (rest : List α) {a : α}
    (hrank : added.map T.rank = List.range' (T.height s + 1) added.length) (ht : T.height t = T.height s + added.length)
    (ha : T.rank a = T.height t + 1) : T.climb (added ++ a :: rest) t = T.accept t a := by
  have hlow : (added.find? fun b => T.rank b = T.height t + 1) = none := by
    rw [List.find?_eq_none]
    intro b hb
    have hb := List.mem_map_of_mem (f := T.rank) hb
    rw [hrank, List.mem_range'_1] at hb
    simpa using (by omega : T.rank b ≠ T.height t + 1)
  rw [climb, List.find?_append, hlow, Option.none_or, List.find?_cons_of_pos (by simpa using ha)]
  rfl

/-- What can be built from a batch is reached by every batch that begins with the items it was built of. -/
theorem exists_reaches_of_built (h : T.Built l s t) : ∃ added : List α, (∀ a ∈ added, a ∈ l) ∧
    added.map T.rank = List.range' (T.height s + 1) added.length ∧ T.height t = T.height s + added.length ∧
    ∀ rest, Reaches (T.climb (added ++ rest)) s t := by
  induction h with
  | refl => exact ⟨[], by simp, rfl, rfl, fun _ => .refl⟩
  | @tail u v _ hv ih =>
    obtain ⟨a, ha, hv⟩ := hv
    obtain ⟨added, hmem, hrank, hheight, hreach⟩ := ih
    have hra := rank_of_accept hv
    refine ⟨added ++ [a], ?_, ?_, ?_, fun rest => ?_⟩
    · intro b hb
      rcases List.mem_append.1 hb with hb | hb
      · exact hmem b hb
      · rw [List.mem_singleton.1 hb]
        exact ha
    · rw [List.map_append, hrank, List.map_singleton, hra, hheight, List.length_append, List.length_singleton,
        List.range'_1_concat]
      congr 2
      omega
    · rw [height_of_accept hv, hheight, List.length_append]
      rfl
    · rw [List.append_assoc]
      refine (hreach ([a] ++ rest)).tail ?_
      rw [Option.mem_def, List.singleton_append, climb_append_cons _ hrank hheight hra]
      exact hv

theorem climb_eq_of_unrivalled (hu : T.Unrivalled s l) (ht : T.Built l s t) {l' : List α} (hl : l'.Perm l) :
    T.climb l' t = T.climb l t := by
  have hfind : ∀ {m m' : List α} {v : σ}, m.Perm l → m'.Perm l → T.climb m t = some v → T.climb m' t = some v := by
    intro m m' v hm hm' hv
    obtain ⟨a, ha, hacc⟩ := climb_eq_some.1 hv
    have hal : a ∈ l := hm.subset (List.mem_of_find?_eq_some ha)
    have hra := rank_of_accept hacc
    obtain ⟨b, hb⟩ := Option.isSome_iff_exists.1
      (List.find?_isSome.2 ⟨a, hm'.symm.subset hal, by simpa using hra⟩ :
        (m'.find? fun a => T.rank a = T.height t + 1).isSome = true)
    have hrb : T.rank b = T.height t + 1 := by simpa using List.find?_some hb
    have hba := hu t ht a hal (by rw [hacc]; rfl) b (hm'.subset (List.mem_of_find?_eq_some hb)) (hrb.trans hra.symm)
    exact climb_eq_some.2 ⟨b, hb, by rw [hba, hacc]⟩
  exact Option.ext fun v => ⟨hfind hl (.refl l), hfind (.refl l) hl⟩

theorem drain_perm (hu : T.Unrivalled s l) {l' : List α} (hl : l'.Perm l) : T.drain s l' = T.drain s l := by
  have hmem : T.drain s l ∈ eval (T.climb l') s :=
    mem_eval_congr (fun t ht => (climb_eq_of_unrivalled hu ht hl).symm) (T.drain_mem_eval s l)
  exact Part.mem_unique (T.drain_mem_eval s l') hmem

theorem exists_perm_append {added : List α} {a : α} (hmem : ∀ b ∈ added, b ∈ l) (ha : a ∈ l)
    (hrank : added.map T.rank = List.range' (T.height s + 1) added.length)
    (hra : T.rank a = T.height s + added.length + 1) : ∃ rest, (added ++ a :: rest).Perm l := by
  have hnodup : ((added ++ [a]).map T.rank).Nodup := by
    have hrange : (added ++ [a]).map T.rank = List.range' (T.height s + 1) (added.length + 1) := by
      rw [List.map_append, hrank, List.map_singleton, hra, List.range'_1_concat]
      congr 2
      omega
    rw [hrange]
    exact List.nodup_range'
  have hsub : added ++ [a] ⊆ l := by
    intro b hb
    rcases List.mem_append.1 hb with hb | hb
    · exact hmem b hb
    · rw [List.mem_singleton.1 hb]
      exact ha
  obtain ⟨m, hm, hsublist⟩ := List.subperm_of_subset (List.Nodup.of_map _ hnodup) hsub
  obtain ⟨rest, hrest⟩ := hsublist.exists_perm_append
  refine ⟨rest, ?_⟩
  rw [← List.singleton_append, ← List.append_assoc]
  exact (hm.symm.append_right rest).trans hrest.symm

/-- **The outcome does not depend on the order of a batch exactly when no item that can be accepted has a rival.** -/
theorem drain_unique_iff (s : σ) (l : List α) :
    (∀ l₁ l₂ : List α, l₁.Perm l → l₂.Perm l → T.drain s l₁ = T.drain s l₂) ↔ T.Unrivalled s l := by
  constructor
  · intro h t ht a ha hacc b hb hrank
    obtain ⟨u, hu⟩ := Option.isSome_iff_exists.1 hacc
    obtain ⟨added, hmem, hadded, hheight, hreach⟩ := exists_reaches_of_built ht
    have hra := rank_of_accept hu
    rw [hheight] at hra
    obtain ⟨rest₁, h₁⟩ := exists_perm_append hmem ha hadded hra
    obtain ⟨rest₂, h₂⟩ := exists_perm_append hmem hb hadded (hrank.trans hra)
    have hc₁ := climb_append_cons rest₁ hadded hheight (hra.trans (by rw [hheight]))
    have hc₂ := climb_append_cons rest₂ hadded hheight (hrank.trans (hra.trans (by rw [hheight])))
    rw [hu] at hc₁
    have hp₁ := prefix_items_drain (hreach _) hc₁
    rw [h _ _ h₁ h₂] at hp₁
    have hlen := height_of_accept hu
    cases hv : T.accept t b with
    | none =>
      rw [hv] at hc₂
      rw [drain_of_reaches (hreach _) hc₂] at hp₁
      have hle : T.height u ≤ T.height t := hp₁.length_le
      omega
    | some v =>
      rw [hv] at hc₂
      have hp₂ := prefix_items_drain (hreach _) hc₂
      have hsame : T.items v = T.items u := (List.prefix_of_prefix_length_le hp₂ hp₁
        (by have := height_of_accept hv; rw [height] at this hlen; omega)).eq_of_length
        (by have := height_of_accept hv; rw [height] at this hlen; omega)
      rw [T.items_eq hv, T.items_eq hu, List.append_cancel_left_eq, List.singleton_inj] at hsame
      exact T.item_injective hsame
  · intro hu l₁ l₂ h₁ h₂
    rw [drain_perm hu h₁, drain_perm hu h₂]

end
end Tower
