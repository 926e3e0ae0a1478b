import OrbsNetwork.Lib.JsonSorted
/-!
# JsReorder — objects with their members in another order

A value keeps what its text needs when members change places at any depth, and the stable text is the same.
-/
namespace Js
namespace Val

/-- The second value is the first one but for the order of the members of its objects. -/
inductive Reordered : Val → Val → Prop where
  | refl (v : Val) : Reordered v v
  | trans {u v w : Val} (h : Reordered u v) (h' : Reordered v w) : Reordered u w
  | perm {l l' : List (Str × Val)} (h : l.Perm l') : Reordered (.obj l) (.obj l')
  | elem (pre : List Val) {v w : Val} (post : List Val) (h : Reordered v w) :
      Reordered (.arr (pre ++ v :: post)) (.arr (pre ++ w :: post))
  | member (pre : List (Str × Val)) (k : Str) {v w : Val} (post : List (Str × Val)) (h : Reordered v w) :
      Reordered (.obj (pre ++ (k, v) :: post)) (.obj (pre ++ (k, w) :: post))

theorem Reordered.proper {v w : Val} (h : Reordered v w) (hv : v.Proper) : w.Proper := by
  induction h with
  | refl v => exact hv
  | trans _ _ ih ih' => exact ih' (ih hv)
  | perm h =>
    cases hv with
    | obj hk ht hp =>
      have hkeys := h.map Prod.fst
      exact .obj (hkeys.nodup_iff.1 hk) (fun k hm => ht k (hkeys.mem_iff.2 hm)) fun p hm => hp p (h.mem_iff.2 hm)
  | elem pre post _ ih =>
    cases hv with
    | arr hp =>
      rw [List.forall_mem_append, List.forall_mem_cons] at hp
      apply Proper.arr
      rw [List.forall_mem_append, List.forall_mem_cons]
      exact ⟨hp.1, ih hp.2.1, hp.2.2⟩
  | member pre k post _ ih =>
    cases hv with
    | obj hk ht hp =>
      rw [List.forall_mem_append, List.forall_mem_cons] at hp
      rw [List.map_append, List.map_cons] at hk ht
      refine .obj ?_ ?_ ?_
      · rw [List.map_append, List.map_cons]
        exact hk
      · rw [List.map_append, List.map_cons]
        exact ht
      · rw [List.forall_mem_append, List.forall_mem_cons]
        exact ⟨hp.1, ih hp.2.1, hp.2.2⟩

/-! ## The stable text -/

theorem strLe_total (a b : Str) : strLe a b = true ∨ strLe b a = true := by
  unfold strLe
  rw [decide_eq_true_eq, decide_eq_true_eq]
  exact le_total _ _

theorem strLe_trans {a b c : Str} (h : strLe a b = true) (h' : strLe b c = true) : strLe a c = true := by
  unfold strLe at h h' ⊢
  rw [decide_eq_true_eq] at h h' ⊢
  exact h.trans h'

theorem strLe_antisymm {a b : Str} (h : strLe a b = true) (h' : strLe b a = true) : a = b := by
  unfold strLe at h h'
  rw [decide_eq_true_eq] at h h'
  have htoNat : Function.Injective Char.toNat := fun c d hcd => by
    rw [← Char.ofNat_toNat c, hcd, Char.ofNat_toNat]
  exact List.map_injective_iff.2 htoNat (le_antisymm h h')

/-- **Sorting forgets the order** of members whose keys differ. -/
theorem sorted_perm {l l' : List (Str × Json)} (hk : (l.map Prod.fst).Nodup) (h : l.Perm l') : sorted l = sorted l' := by
  have htotal : Std.Total fun p q : Str × Json => strLe p.1 q.1 = true := ⟨fun p q => strLe_total p.1 q.1⟩
  have htrans : IsTrans (Str × Json) fun p q => strLe p.1 q.1 = true := ⟨fun _ _ _ => strLe_trans⟩
  have hperm : (sorted l).Perm (sorted l') :=
    (perm_sorted l).trans ((h.map _).trans (perm_sorted l').symm)
  refine hperm.eq_of_pairwise ?_ (List.pairwise_insertionSort _ _) (List.pairwise_insertionSort _ _)
  intro p q hp hq hpq hqp
  have hkey : p.1 = q.1 := strLe_antisymm hpq hqp
  exact List.inj_on_of_nodup_map (nodup_sorted hk) hp (hperm.mem_iff.2 hq) hkey

theorem sortKeys_reordered {v w : Val} (h : Reordered v w) (hv : v.Proper) : sortKeys v.toJson = sortKeys w.toJson := by
  induction h with
  | refl v => rfl
  | trans h _ ih ih' => exact (ih hv).trans (ih' (h.proper hv))
  | perm h =>
    cases hv with
    | obj hk _ _ =>
      rw [toJson, toJson, sortKeys_obj, sortKeys_obj, membersJson_eq, membersJson_eq]
      congr 1
      apply sorted_perm _ (h.map _)
      rw [List.map_map]
      exact hk
  | elem pre post _ ih =>
    cases hv with
    | arr hp =>
      rw [List.forall_mem_append, List.forall_mem_cons] at hp
      simp only [toJson, sortKeys, elemsJson_eq, sortElems_eq, List.map_append, List.map_cons, ih hp.2.1]
  | member pre k post _ ih =>
    cases hv with
    | obj _ _ hp =>
      rw [List.forall_mem_append, List.forall_mem_cons] at hp
      simp only [toJson, sortKeys_obj, sorted, membersJson_eq, List.map_append, List.map_cons, ih hp.2.1]

/-- **The stable text does not depend on the order of the members.** -/
theorem stableStringify_reordered {v w : Val} (h : Reordered v w) (hv : v.Proper) :
    v.stableStringify = w.stableStringify := congrArg Json.stringify (sortKeys_reordered h hv)

end Val
end Js
