import OrbsNetwork.Lib.Json
/-!
# JsonWriter — writers that escape differently

A JSON writer without white space is `JSON.stringify` up to the escapes of the characters in strings.  Two of them write
the same string in the same way exactly if they escape each of its characters in the same way, as long as the escapes
that differ begin differently.
-/
namespace Js
namespace Json

section
variable (escape : Char → Str)

def writeString (s : Str) : Str := '"' :: (s.flatMap escape ++ ['"'])

mutual

def write : Json → Str
  | .null => "null".toList
  | .bool true => "true".toList
  | .bool false => "false".toList
  | .num x => numberText x
  | .str s => writeString escape s
  | .arr [] => ['[', ']']
  | .arr (v :: l) => '[' :: (write v ++ writeElems l)
  | .obj [] => ['{', '}']
  | .obj ((k, v) :: l) => '{' :: (writeString escape k ++ ':' :: (write v ++ writeMembers l))

def writeElems : List Json → Str
  | [] => [']']
  | v :: l => ',' :: (write v ++ writeElems l)

def writeMembers : List (Str × Json) → Str
  | [] => ['}']
  | (k, v) :: l => ',' :: (writeString escape k ++ ':' :: (write v ++ writeMembers l))

end

end

mutual

theorem write_escape : ∀ v : Json, write escape v = stringify v
  | .null | .bool true | .bool false | .num _ | .str _ | .arr [] | .obj [] => rfl
  | .arr (v :: l) => by rw [write, stringify, write_escape v, writeElems_escape l]
  | .obj ((k, v) :: l) => by
    rw [write, stringify, write_escape v, writeMembers_escape l]
    rfl

theorem writeElems_escape : ∀ l : List Json, writeElems escape l = elemsText l
  | [] => rfl
  | v :: l => by rw [writeElems, elemsText, write_escape v, writeElems_escape l]

theorem writeMembers_escape : ∀ l : List (Str × Json), writeMembers escape l = membersText l
  | [] => rfl
  | (k, v) :: l => by
    rw [writeMembers, membersText, write_escape v, writeMembers_escape l]
    rfl

end

theorem flatMap_of_kept {escape : Char → Str} {s : Str} (h : ∀ c ∈ s, escape c = [c]) : s.flatMap escape = s := by
  induction s with
  | nil => rfl
  | cons c s ih =>
    rw [List.flatMap_cons, h c List.mem_cons_self, ih fun d hd => h d (List.mem_cons_of_mem _ hd)]
    rfl

/-- **Two writers agree on a string exactly if they agree on its characters.** -/
theorem flatMap_eq_iff {f g : Char → Str} (h : ∀ c, f c = g c ∨ ∃ a as b bs, f c = a :: as ∧ g c = b :: bs ∧ a ≠ b)
    {s : Str} : s.flatMap f = s.flatMap g ↔ ∀ c ∈ s, f c = g c := by
  constructor
  · intro hs
    induction s with
    | nil => exact nofun
    | cons c s ih =>
      rw [List.flatMap_cons, List.flatMap_cons] at hs
      rcases h c with hc | ⟨a, as, b, bs, hf, hg, hne⟩
      · rw [hc] at hs
        intro d hd
        rcases List.mem_cons.1 hd with rfl | hd
        · exact hc
        · exact ih (List.append_cancel_left hs) d hd
      · rw [hf, hg] at hs
        exact absurd (List.cons.inj hs).1 hne
  · exact fun hs => List.flatMap_congr hs

end Json
end Js
