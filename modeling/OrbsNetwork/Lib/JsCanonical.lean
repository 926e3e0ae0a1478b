import OrbsNetwork.Lib.JsonSorted
/-!
# JsCanonical — codecs whose stable text says which value it is of

A codec is canonical when two values in range with the same reread form are equal: no Buffer, number or record is taken
for another once keys are sorted and Buffers are objects.  The stable texts of such a codec are self-delimiting: one of
them with anything after it that does not prolong a number is cut in one way only (`stableStringify_append_inj`).
-/
namespace Js

namespace Json

/-- **A JSON text ends where its value does.** -/
theorem stringify_append_inj {v w : Json} (hv : Wf v) (hw : Wf w) {rest rest' : Str} (hr : Number.NumberEnd rest)
    (hr' : Number.NumberEnd rest') (h : stringify v ++ rest = stringify w ++ rest') : v = w ∧ rest = rest' := by
  have h1 := parseValue_stringify (max (size v) (size w)) hv (le_max_left _ _) rest hr
  have h2 := parseValue_stringify (max (size v) (size w)) hw (le_max_right _ _) rest' hr'
  rw [h, h2, Option.some.injEq, Prod.mk.injEq] at h1
  exact ⟨h1.1.symm, h1.2.symm⟩

end Json

namespace Val

theorem reread_eq_null {v : Val} (h : reread v = .null) : v = .null := by
  cases v with
  | null => rfl
  | _ => cases h

theorem reread_arr (l : List Val) : reread (.arr l) = .arr (l.map reread) := by
  rw [reread, toJson, sortKeys, ofJson, ofElems_eq, sortElems_eq, elemsJson_eq, List.map_map, List.map_map]
  rfl

theorem reread_obj (l : List (Str × Val)) : reread (.obj l) = .obj (ofMembers (sorted (membersJson l))) := by
  rw [reread, toJson, sortKeys_obj, ofJson]

theorem ofNat_injective {m n : ℕ} (hm : m ≤ 2 ^ 53) (hn : n ≤ 2 ^ 53) (h : ofNat m = ofNat n) : m = n := by
  have := congrArg asNat h
  rwa [asNat_ofNat hm, asNat_ofNat hn, Option.some.injEq] at this

end Val

namespace Fields

variable {α β : Type}

/-- The members of two records in range, reread by name, differ unless the records are equal. -/
def Canonical (fs : Fields β) : Prop :=
  ∀ a b, fs.InRange a → fs.InRange b →
    (∀ k, (Val.get (fs.enc a) k).map Val.reread = (Val.get (fs.enc b) k).map Val.reread) → a = b

end Fields

namespace Codec

variable {α β : Type}

def Canonical (c : Codec α) : Prop :=
  ∀ a b, c.InRange a → c.InRange b → Val.reread (c.enc a) = Val.reread (c.enc b) → a = b

namespace Canonical

theorem nat : nat.Canonical := fun _ _ ha hb h => Val.ofNat_injective ha hb h

theorem bool : bool.Canonical := by
  intro a b _ _ h
  cases h
  rfl

theorem str : str.Canonical := by
  intro a b _ _ h
  cases h
  rfl

theorem bytes : bytes.Canonical := by
  intro a b _ _ h
  have h : Val.reread (.buffer a) = Val.reread (.buffer b) := h
  rw [Val.reread_buffer, Val.reread_buffer, Val.obj.injEq, List.cons.injEq, Prod.mk.injEq, Val.arr.injEq] at h
  refine List.map_injective_iff.2 (fun x y hxy => ?_) h.1.2
  have hx := x.toNat_lt
  have hy := y.toNat_lt
  exact UInt8.toNat_inj.1 (Val.ofNat_injective (by omega) (by omega) hxy)

theorem map {c : Codec α} (hc : c.Canonical) : ∀ {l l' : List α}, (∀ a ∈ l, c.InRange a) → (∀ a ∈ l', c.InRange a) →
    (l.map fun a => Val.reread (c.enc a)) = (l'.map fun a => Val.reread (c.enc a)) → l = l'
  | [], [], _, _, _ => rfl
  | a :: l, b :: l', ha, hb, h => by
    rw [List.map_cons, List.map_cons, List.cons.injEq] at h
    rw [hc a b (ha a List.mem_cons_self) (hb b List.mem_cons_self) h.1,
      map hc (fun x hx => ha x (List.mem_cons_of_mem _ hx)) (fun x hx => hb x (List.mem_cons_of_mem _ hx)) h.2]

theorem list {c : Codec α} (hc : c.Canonical) : c.list.Canonical := by
  intro a b ha hb h
  have h : Val.reread (.arr (a.map c.enc)) = Val.reread (.arr (b.map c.enc)) := h
  rw [Val.reread_arr, Val.reread_arr, Val.arr.injEq, List.map_map, List.map_map] at h
  exact hc.map ha hb h

theorem nullable {c : Codec α} (hc : c.Canonical) (hne : ∀ a, c.enc a ≠ .null) : (c.nullable hne).Canonical := by
  intro a b ha hb h
  cases a with
  | none =>
    cases b with
    | none => rfl
    | some b => exact absurd (Val.reread_eq_null h.symm) (hne b)
  | some a =>
    cases b with
    | none => exact absurd (Val.reread_eq_null h) (hne a)
    | some b => rw [hc a b ha hb h]

theorem record {fs : Fields β} (hfs : fs.Canonical) {un : α → β} {mk : β → α} (hmk : ∀ a, mk (un a) = a)
    (hk : fs.keys.Nodup) (ht : ∀ k ∈ fs.keys, Val.Named k) : (Codec.record fs un mk hmk hk ht).Canonical := by
  intro a b ha hb h
  have h : Val.reread (.obj (fs.enc (un a))) = Val.reread (.obj (fs.enc (un b))) := h
  have hnodup : ∀ x, ((fs.enc x).map Prod.fst).Nodup := fun x => (fs.keys_enc x).symm ▸ hk
  rw [Val.reread_obj, Val.reread_obj, Val.obj.injEq] at h
  have heq : un a = un b := hfs _ _ ha hb fun k => by
    rw [← Val.get_sorted (hnodup _), ← Val.get_sorted (hnodup _), h]
  rw [← hmk a, heq, hmk b]

end Canonical
end Codec

namespace Fields.Canonical

variable {α β : Type}

theorem nil : nil.Canonical := fun _ _ _ _ _ => rfl

theorem cons {k : Str} {c : Codec α} {fs : Fields β} (hk : k ∉ fs.keys) (hc : c.Canonical) (hfs : fs.Canonical) :
    (Fields.cons k c fs).Canonical := by
  intro a b ha hb h
  have hget : ∀ (v : Val) (l : List (Str × Val)), Val.get ((k, v) :: l) k = some v := fun v l => by
    rw [Val.get, List.find?_cons_of_pos (by simp)]
    rfl
  have hrest : ∀ (v : Val) (l : List (Str × Val)) {k'}, k' ≠ k → Val.get ((k, v) :: l) k' = Val.get l k' :=
    fun v l k' hne => by rw [Val.get, List.find?_cons_of_neg (by simpa using hne.symm), Val.get]
  have hnone : ∀ x, Val.get (fs.enc x) k = none := by
    intro x
    rw [Val.get, Option.map_eq_none_iff, List.find?_eq_none]
    intro p hp hpk
    refine hk ?_
    rw [← fs.keys_enc x]
    exact List.mem_map.2 ⟨p, hp, by simpa using hpk⟩
  have hfst : a.1 = b.1 := by
    have hk := h k
    simp only [Fields.cons, hget, Option.map_some, Option.some.injEq] at hk
    exact hc _ _ ha.1 hb.1 hk
  have hsnd : a.2 = b.2 := by
    refine hfs _ _ ha.2 hb.2 fun k' => ?_
    by_cases hkk : k' = k
    · rw [hkk, hnone, hnone]
    · have hk' := h k'
      simp only [Fields.cons, hrest _ _ hkk] at hk'
      exact hk'
  exact Prod.ext hfst hsnd

end Fields.Canonical

namespace Codec.Canonical

variable {α : Type} {c : Codec α}

theorem stableStringify_append_inj (hc : c.Canonical) {a b : α} (ha : c.InRange a) (hb : c.InRange b)
    {rest rest' : Str} (hr : Number.NumberEnd rest) (hr' : Number.NumberEnd rest')
    (h : (c.enc a).stableStringify ++ rest = (c.enc b).stableStringify ++ rest') : a = b ∧ rest = rest' := by
  obtain ⟨hv, hrest⟩ := Json.stringify_append_inj (Val.wf_sortKeys (c.proper a ha)) (Val.wf_sortKeys (c.proper b hb)) hr hr' h
  exact ⟨hc a b ha hb (congrArg Val.ofJson hv), hrest⟩

/-- **The stable text of a canonical codec says which value it is of.** -/
theorem stableStringify_inj (hc : c.Canonical) {a b : α} (ha : c.InRange a) (hb : c.InRange b)
    (h : (c.enc a).stableStringify = (c.enc b).stableStringify) : a = b :=
  (hc.stableStringify_append_inj ha hb Number.numberEnd_nil Number.numberEnd_nil (congrArg (· ++ []) h)).1

end Codec.Canonical

/-- The text of an object does not prolong a number before it. -/
theorem Val.numberEnd_obj (l : List (Str × Val)) : Number.NumberEnd (Val.obj l).stableStringify := by
  rw [stableStringify, toJson, sortKeys_obj]
  cases sorted (membersJson l) with
  | nil => simp [Json.stringify, Number.NumberEnd]
  | cons p l => simp [Json.stringify, Number.NumberEnd]

end Js
