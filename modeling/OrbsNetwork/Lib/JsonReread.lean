import OrbsNetwork.Lib.JsValue
/-!
# JsonReread — what a JSON text has lost

A number without a text is printed as `null`, and nothing else is lost of a value whose objects are as the parser makes
them: its text is that of `printed v` (`stringify_printed`), which reads back as it is (`wf_printed`).  Whatever the parser makes is such a value (`keyed_of_parse`), so
a value that has been read can be written and read any number of times.

`parse_induction` is the rule behind it: a property of all constructors, for objects as the parser builds them, is one of
every parsed value.
-/
namespace Js
namespace Json

/-! ## What the parser makes -/

section
variable {P : Json → Prop}

theorem forall_elems {value : Str → Option (Json × Str)} (hval : ∀ cs v rest, value cs = some (v, rest) → P v) :
    ∀ {n : ℕ} {cs rest : Str} {l : List Json}, parseElems value n cs = some (l, rest) → ∀ v ∈ l, P v := by
  intro n
  induction n with
  | zero => exact nofun
  | succ n ih =>
    intro cs rest l h
    rw [parseElems] at h
    obtain ⟨⟨v, cs1⟩, hv, h⟩ := Option.bind_eq_some_iff.1 h
    dsimp only at h
    split at h
    · obtain ⟨⟨l', cs2⟩, hl, h⟩ := Option.bind_eq_some_iff.1 h
      cases h
      exact List.forall_mem_cons.2 ⟨hval _ _ _ hv, ih hl⟩
    · cases h
      exact List.forall_mem_singleton.2 (hval _ _ _ hv)
    · cases h

theorem forall_members {value : Str → Option (Json × Str)} (hval : ∀ cs v rest, value cs = some (v, rest) → P v) :
    ∀ {n : ℕ} {cs rest : Str} {l : List (Str × Json)}, parseMembers value n cs = some (l, rest) → ∀ p ∈ l, P p.2 := by
  intro n
  induction n with
  | zero => exact nofun
  | succ n ih =>
    intro cs rest l h
    rw [parseMembers] at h
    split at h
    case h_2 => cases h
    obtain ⟨⟨k, cs1⟩, -, h⟩ := Option.bind_eq_some_iff.1 h
    dsimp only at h
    split at h
    case h_2 => cases h
    obtain ⟨⟨v, cs2⟩, hv, h⟩ := Option.bind_eq_some_iff.1 h
    dsimp only at h
    split at h
    · obtain ⟨⟨l', cs3⟩, hl, h⟩ := Option.bind_eq_some_iff.1 h
      cases h
      exact List.forall_mem_cons.2 ⟨hval _ _ _ hv, ih hl⟩
    · cases h
      exact List.forall_mem_singleton.2 (hval _ _ _ hv)
    · cases h

section
variable (hnull : P .null) (hbool : ∀ b, P (.bool b)) (hnum : ∀ x, P (.num x)) (hstr : ∀ s, P (.str s))
  (harr : ∀ l, (∀ v ∈ l, P v) → P (.arr l)) (hobj : ∀ l, (∀ p ∈ l, P p.2) → P (ofMembers l))
include hnull hbool hnum hstr harr hobj

theorem parseValue_induction : ∀ {n : ℕ} {cs rest : Str} {v : Json}, parseValue n cs = some (v, rest) → P v := by
  intro n
  induction n with
  | zero =>
    intro cs rest v h
    cases h
  | succ n ih =>
    intro cs rest v h
    rw [parseValue] at h
    split at h
    · cases h
      exact hnull
    · cases h
      exact hbool true
    · cases h
      exact hbool false
    · obtain ⟨p, -, hp⟩ := Option.map_eq_some_iff.1 h
      cases hp
      exact hstr _
    · split at h
      · cases h
        exact harr [] fun v hv => absurd hv List.not_mem_nil
      · obtain ⟨p, he, hp⟩ := Option.map_eq_some_iff.1 h
        cases hp
        exact harr _ (forall_elems (fun _ _ _ hv => ih hv) he)
    · split at h
      · cases h
        exact hobj [] fun p hp => absurd hp List.not_mem_nil
      · obtain ⟨p, he, hp⟩ := Option.map_eq_some_iff.1 h
        cases hp
        exact hobj _ (forall_members (fun _ _ _ hv => ih hv) he)
    · obtain ⟨p, -, hp⟩ := Option.map_eq_some_iff.1 h
      cases hp
      exact hnum _

/-- **A property of everything the parser builds holds of what it returns.** -/
theorem parse_induction {cs : Str} {v : Json} (h : parse cs = some v) : P v := by
  rw [parse] at h
  split at h
  · rename_i hp
    split_ifs at h
    cases h
    exact parseValue_induction hnull hbool hnum hstr harr hobj hp
  · cases h

end
end

/-! ## Objects that repeat no key and keep the order of properties -/

inductive Keyed : Json → Prop where
  | null : Keyed .null
  | bool (b : Bool) : Keyed (.bool b)
  | num (x : Number) : Keyed (.num x)
  | str (s : Str) : Keyed (.str s)
  | arr {l : List Json} (h : ∀ v ∈ l, Keyed v) : Keyed (.arr l)
  | obj {l : List (Str × Json)} (hk : (l.map Prod.fst).Nodup) (ho : propertyOrder l = l) (h : ∀ p ∈ l, Keyed p.2) :
    Keyed (.obj l)

theorem mem_setKey {k : Str} {v : Json} {p : Str × Json} : ∀ {l : List (Str × Json)}, p ∈ setKey k v l →
    p = (k, v) ∨ p ∈ l
  | [], hp => .inl (List.mem_singleton.1 hp)
  | (k', v') :: l, hp => by
    rw [setKey] at hp
    split_ifs at hp
    · exact (List.mem_cons.1 hp).imp_right (List.mem_cons_of_mem _)
    · rcases List.mem_cons.1 hp with rfl | hp
      · exact .inr List.mem_cons_self
      · exact (mem_setKey hp).imp_right (List.mem_cons_of_mem _)

theorem nodup_setKey {k : Str} {v : Json} : ∀ {l : List (Str × Json)}, (l.map Prod.fst).Nodup →
    ((setKey k v l).map Prod.fst).Nodup
  | [], _ => List.nodup_singleton _
  | (k', v') :: l, h => by
    rw [List.map_cons, List.nodup_cons] at h
    rw [setKey]
    split_ifs with he
    · subst he
      exact List.nodup_cons.2 h
    · refine List.nodup_cons.2 ⟨fun hm => ?_, nodup_setKey h.2⟩
      obtain ⟨p, hp, hpk⟩ := List.mem_map.1 hm
      rcases mem_setKey hp with rfl | hp
      · exact he hpk.symm
      · exact h.1 (List.mem_map.2 ⟨p, hp, hpk⟩)

theorem keyed_ofMembers {l : List (Str × Json)} (h : ∀ p ∈ l, Keyed p.2) : Keyed (ofMembers l) := by
  have hboth : ((l.foldl (fun acc p => setKey p.1 p.2 acc) []).map Prod.fst).Nodup ∧
      ∀ p ∈ l.foldl (fun acc p => setKey p.1 p.2 acc) [], Keyed p.2 := by
    induction l using List.reverseRecOn with
    | nil => exact ⟨.nil, nofun⟩
    | append_singleton l p ih =>
      rw [List.foldl_append, List.foldl_cons, List.foldl_nil]
      obtain ⟨hk, hv⟩ := ih fun q hq => h q (List.mem_append_left _ hq)
      refine ⟨nodup_setKey hk, fun q hq => ?_⟩
      rcases mem_setKey hq with rfl | hq
      · exact h p (List.mem_append_right _ (List.mem_singleton.2 rfl))
      · exact hv q hq
  have hperm := perm_propertyOrder (l.foldl (fun acc p => setKey p.1 p.2 acc) [])
  exact .obj ((hperm.map Prod.fst).nodup_iff.2 hboth.1) (propertyOrder_idem _) fun p hp => hboth.2 p (hperm.mem_iff.1 hp)

/-- **A parsed value repeats no key, and has its properties in order.** -/
theorem keyed_of_parse {cs : Str} {v : Json} (h : parse cs = some v) : Keyed v :=
  parse_induction .null .bool .num .str (fun _ => .arr) (fun _ => keyed_ofMembers) h

example : (parse "\x7b\"b\":0,\"10\":1,\"2\":2,\"02\":3,\"b\":4\x7d".toList).map stringify =
    some "\x7b\"2\":2,\"10\":1,\"b\":4,\"02\":3\x7d".toList := by
  decide +kernel

/-! ## The text -/

mutual

/-- What is printed for a value. -/
def printed : Json → Json
  | .num (.fin x) => .num (.fin x)
  | .num _ => .null
  | .arr l => .arr (printedElems l)
  | .obj l => .obj (printedMembers l)
  | v => v

def printedElems : List Json → List Json
  | [] => []
  | v :: l => printed v :: printedElems l

def printedMembers : List (Str × Json) → List (Str × Json)
  | [] => []
  | (k, v) :: l => (k, printed v) :: printedMembers l

end

theorem printedElems_eq : ∀ l : List Json, printedElems l = l.map printed
  | [] => rfl
  | _ :: l => congrArg _ (printedElems_eq l)

theorem printedMembers_eq : ∀ l : List (Str × Json), printedMembers l = l.map fun p => (p.1, printed p.2)
  | [] => rfl
  | (_, _) :: l => congrArg _ (printedMembers_eq l)

mutual

theorem stringify_printed : ∀ v : Json, stringify (printed v) = stringify v
  | .null | .bool _ | .str _ | .num (.fin _) => rfl
  | .num .nan | .num (.inf _) => rfl
  | .arr [] | .obj [] => rfl
  | .arr (v :: l) => by
    rw [printed, printedElems, stringify, stringify, stringify_printed v, elemsText_printed l]
  | .obj ((k, v) :: l) => by
    rw [printed, printedMembers, stringify, stringify, stringify_printed v, membersText_printed l]

theorem elemsText_printed : ∀ l : List Json, elemsText (printedElems l) = elemsText l
  | [] => rfl
  | v :: l => by rw [printedElems, elemsText, elemsText, stringify_printed v, elemsText_printed l]

theorem membersText_printed : ∀ l : List (Str × Json), membersText (printedMembers l) = membersText l
  | [] => rfl
  | (k, v) :: l => by
    rw [printedMembers, membersText, membersText, stringify_printed v, membersText_printed l]

end

theorem wf_printed {v : Json} (h : Keyed v) : Wf (printed v) := by
  induction h with
  | null => exact .null
  | bool b => exact .bool b
  | num x =>
    cases x with
    | fin x => exact .num x
    | _ => exact .null
  | str s => exact .str s
  | arr _ ih =>
    rw [printed, printedElems_eq]
    exact .arr (List.forall_mem_map.2 ih)
  | @obj l hk ho _ ih =>
    rw [printed, printedMembers_eq]
    refine .obj ?_ ?_ (List.forall_mem_map.2 ih)
    · rw [List.map_map]
      exact hk
    · rw [propertyOrder_map, ho]

/-- Nothing is lost of what reads back as it is. -/
theorem printed_of_wf {v : Json} (h : Wf v) : printed v = v := by
  induction h with
  | null | bool | num | str => rfl
  | @arr l _ ih =>
    rw [printed, printedElems_eq]
    have hl : l.map printed = l.map id := List.map_congr_left ih
    rw [hl, List.map_id]
  | @obj l _ _ _ ih =>
    rw [printed, printedMembers_eq]
    have hl : (l.map fun p => (p.1, printed p.2)) = l.map id :=
      List.map_congr_left fun p hp => congrArg (Prod.mk p.1) (ih p hp)
    rw [hl, List.map_id]

end Json

namespace Val

mutual

/-- What was parsed is written as it was. -/
theorem toJson_ofJson : ∀ v : Json, (ofJson v).toJson = v
  | .null | .bool _ | .num _ | .str _ => rfl
  | .arr l => congrArg Json.arr (elemsJson_ofElems l)
  | .obj l => congrArg Json.obj (membersJson_ofMembers l)

theorem elemsJson_ofElems : ∀ l : List Json, elemsJson (ofElems l) = l
  | [] => rfl
  | v :: l => congrArg₂ List.cons (toJson_ofJson v) (elemsJson_ofElems l)

theorem membersJson_ofMembers : ∀ l : List (Str × Json), membersJson (ofMembers l) = l
  | [] => rfl
  | (k, v) :: l => congrArg₂ List.cons (congrArg (Prod.mk k) (toJson_ofJson v)) (membersJson_ofMembers l)

end

end Val
end Js
