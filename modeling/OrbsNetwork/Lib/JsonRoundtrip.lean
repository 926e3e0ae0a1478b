import OrbsNetwork.Lib.Json
/-!
# JsonRoundtrip — `JSON.parse` inverts `JSON.stringify`

On values whose numbers are finite and whose objects repeat no key (`Wf`), the parser reads back what the printer
wrote (`parse_stringify`), so the text determines the value (`stringify_injective`).
-/
namespace Js
namespace Json

/-- What `JSON.stringify` loses nothing of: finite numbers, objects without a repeated key. -/
inductive Wf : Json → Prop where
  | null : Wf .null
  | bool (b : Bool) : Wf (.bool b)
  | num (x : Binary64.Double) : Wf (.num (.fin x))
  | str (s : Str) : Wf (.str s)
  | arr {l : List Json} (h : ∀ v ∈ l, Wf v) : Wf (.arr l)
  | obj {l : List (Str × Json)} (hk : (l.map Prod.fst).Nodup) (ho : propertyOrder l = l) (h : ∀ p ∈ l, Wf p.2) :
    Wf (.obj l)

/-! ## Strings -/

theorem toNat_lt_or (c : Char) : c.toNat < 0xD800 ∨ 0xE000 ≤ c.toNat := by
  rcases c.valid with h | h
  · exact Or.inl h
  · exact Or.inr h.1

theorem ofUnit_toNat (c : Char) : ofUnit c.toNat = c := by
  have h : (isHigh c.toNat || isLow c.toNat) = false := by
    have := toNat_lt_or c
    simp only [isHigh, isLow, Bool.or_eq_false_iff, Bool.and_eq_false_iff, decide_eq_false_iff_not]
    omega
  rw [ofUnit, h]
  simp

theorem decodeUnits_map : ∀ s : Str, decodeUnits (s.map Char.toNat) = s
  | [] => rfl
  | [c] => by simp [decodeUnits, ofUnit_toNat]
  | c :: d :: s => by
    have h : (isHigh c.toNat && isLow d.toNat) = false := by
      have := toNat_lt_or c
      simp only [isHigh, isLow, Bool.and_eq_false_iff, decide_eq_false_iff_not]
      omega
    have ih := decodeUnits_map (d :: s)
    simp only [List.map_cons] at ih ⊢
    rw [decodeUnits, h, if_neg (by simp), ofUnit_toNat, ih]

theorem hex4_control : ∀ n < 32, hex4 '0' '0' (Nat.digitChar (n / 16)) (Nat.digitChar (n % 16)) = some n := by
  decide

theorem scanUnits_quote (cs : Str) : scanUnits ('"' :: cs) = some ([], cs) := by
  rw [scanUnits.eq_def]
  rfl

theorem scanUnits_simple {e : Char} (cs : Str) (he : e ≠ 'u') :
    scanUnits ('\\' :: e :: cs) = (simpleEscape e).bind fun n => (scanUnits cs).map fun p => (n :: p.1, p.2) := by
  rw [scanUnits.eq_def]
  simp only [Char.reduceEq, if_false, if_true]
  split
  · rename_i heq
    rw [List.cons.injEq] at heq
    exact absurd heq.1 he
  · rename_i heq
    rw [List.cons.injEq] at heq
    obtain ⟨rfl, rfl⟩ := heq
    cases simpleEscape e with
    | none => rfl
    | some n => cases scanUnits cs <;> rfl
  · rename_i heq
    cases heq

theorem scanUnits_hex (a b c d : Char) (cs : Str) :
    scanUnits ('\\' :: 'u' :: a :: b :: c :: d :: cs) =
      (hex4 a b c d).bind fun n => (scanUnits cs).map fun p => (n :: p.1, p.2) := by
  rw [scanUnits.eq_def]
  simp only [Char.reduceEq, if_false, if_true]
  cases hex4 a b c d with
  | none => rfl
  | some n => cases scanUnits cs <;> rfl

theorem scanUnits_plain {c : Char} (cs : Str) (h1 : c ≠ '"') (h2 : c ≠ '\\') (h3 : ¬ c.toNat < 32) :
    scanUnits (c :: cs) = (scanUnits cs).map fun p => (c.toNat :: p.1, p.2) := by
  rw [scanUnits.eq_def]
  simp only [h1, h2, h3, if_false]
  cases scanUnits cs <;> rfl

theorem char_eq_of_toNat {c : Char} {n : ℕ} (h : c.toNat = n) : c = Char.ofNat n := by
  rw [← h, Char.ofNat_toNat]

theorem scanUnits_escape (c : Char) (cs : Str) :
    scanUnits (escape c ++ cs) = (scanUnits cs).map fun p => (c.toNat :: p.1, p.2) := by
  unfold escape
  split_ifs with h1 h2 h3 h4 h5 h6 h7 h8
  · subst h1; exact scanUnits_simple cs (by decide)
  · subst h2; exact scanUnits_simple cs (by decide)
  · rw [char_eq_of_toNat h3]; exact scanUnits_simple cs (by decide)
  · rw [char_eq_of_toNat h4]; exact scanUnits_simple cs (by decide)
  · rw [char_eq_of_toNat h5]; exact scanUnits_simple cs (by decide)
  · rw [char_eq_of_toNat h6]; exact scanUnits_simple cs (by decide)
  · rw [char_eq_of_toNat h7]; exact scanUnits_simple cs (by decide)
  · refine (scanUnits_hex _ _ _ _ cs).trans ?_
    rw [hex4_control c.toNat h8]
    rfl
  · exact scanUnits_plain cs h1 h2 h8

theorem scanUnits_flatMap (s cs : Str) :
    scanUnits (s.flatMap escape ++ '"' :: cs) = some (s.map Char.toNat, cs) := by
  induction s with
  | nil => exact scanUnits_quote cs
  | cons c s ih =>
    rw [List.flatMap_cons, List.append_assoc, scanUnits_escape, ih]
    rfl

theorem parseString_quote (s cs : Str) : parseString (s.flatMap escape ++ '"' :: cs) = some (s, cs) := by
  rw [parseString, scanUnits_flatMap, Option.map_some, decodeUnits_map]

/-! ## Objects -/

theorem setKey_of_not_mem {k : Str} (v : Json) : ∀ {l : List (Str × Json)}, k ∉ l.map Prod.fst →
    setKey k v l = l ++ [(k, v)]
  | [], _ => rfl
  | (k', v') :: l, h => by
    simp only [List.map_cons, List.mem_cons, not_or] at h
    rw [setKey, if_neg (Ne.symm h.1), setKey_of_not_mem v h.2]
    rfl

theorem foldl_setKey : ∀ {l acc : List (Str × Json)}, ((acc ++ l).map Prod.fst).Nodup →
    l.foldl (fun acc p => setKey p.1 p.2 acc) acc = acc ++ l
  | [], acc, _ => by simp
  | (k, v) :: l, acc, h => by
    have hk : k ∉ acc.map Prod.fst := by
      simp only [List.map_append, List.map_cons, List.nodup_append] at h
      exact fun hm => h.2.2 k hm k List.mem_cons_self rfl
    rw [List.foldl_cons, setKey_of_not_mem v hk, foldl_setKey (by simpa using h)]
    simp

theorem perm_propertyOrder (l : List (Str × Json)) : (propertyOrder l).Perm l :=
  ((List.perm_insertionSort _ _).append_right _).trans (List.filter_append_perm _ l)

/-- Indices in ascending order and then names stay where they are. -/
theorem propertyOrder_append {indices names : List (Str × Json)}
    (hsorted : indices.Pairwise fun p q => (arrayIndex p.1).getD 0 ≤ (arrayIndex q.1).getD 0)
    (hsome : ∀ p ∈ indices, (arrayIndex p.1).isSome = true) (hnone : ∀ p ∈ names, (arrayIndex p.1).isSome = false) :
    propertyOrder (indices ++ names) = indices ++ names := by
  have hnames : names.filter (fun p => (arrayIndex p.1).isSome) = [] :=
    List.filter_eq_nil_iff.2 fun p hp => by rw [hnone p hp]; exact Bool.false_ne_true
  have hindices : indices.filter (fun p => !(arrayIndex p.1).isSome) = [] :=
    List.filter_eq_nil_iff.2 fun p hp => by rw [hsome p hp]; exact Bool.false_ne_true
  have hothers : names.filter (fun p => !(arrayIndex p.1).isSome) = names :=
    List.filter_eq_self.2 fun p hp => by rw [hnone p hp]; rfl
  rw [propertyOrder, List.filter_append, List.filter_append, List.filter_eq_self.2 hsome, hnames, hindices, hothers,
    List.append_nil, List.nil_append, hsorted.insertionSort_eq]

theorem propertyOrder_of_plain {l : List (Str × Json)} (h : ∀ k ∈ l.map Prod.fst, arrayIndex k = none) :
    propertyOrder l = l :=
  propertyOrder_append .nil (fun _ hp => absurd hp List.not_mem_nil) fun p hp => by
    rw [h p.1 (List.mem_map_of_mem hp)]
    rfl

/-- **A list in the order of an object stays in it.** -/
theorem propertyOrder_idem (l : List (Str × Json)) : propertyOrder (propertyOrder l) = propertyOrder l := by
  have htotal : Std.Total fun p q : Str × Json => (arrayIndex p.1).getD 0 ≤ (arrayIndex q.1).getD 0 :=
    ⟨fun _ _ => le_total _ _⟩
  have htrans : IsTrans (Str × Json) fun p q => (arrayIndex p.1).getD 0 ≤ (arrayIndex q.1).getD 0 :=
    ⟨fun _ _ _ => le_trans⟩
  refine propertyOrder_append (List.pairwise_insertionSort _ _) (fun p hp => ?_) fun p hp => ?_
  · exact (List.mem_filter.1 ((List.perm_insertionSort _ _).mem_iff.1 hp)).2
  · exact (Bool.not_eq_true' _).mp (List.mem_filter.1 hp).2

theorem propertyOrder_map (f : Json → Json) (l : List (Str × Json)) :
    propertyOrder (l.map fun p => (p.1, f p.2)) = (propertyOrder l).map fun p => (p.1, f p.2) := by
  have hsort := List.map_insertionSort (fun p q : Str × Json => (arrayIndex p.1).getD 0 ≤ (arrayIndex q.1).getD 0)
    (fun p q : Str × Json => (arrayIndex p.1).getD 0 ≤ (arrayIndex q.1).getD 0) (fun p => (p.1, f p.2))
    (l.filter fun p => (arrayIndex p.1).isSome) fun _ _ _ _ => Iff.rfl
  unfold propertyOrder
  rw [List.map_append, hsort, List.filter_map, List.filter_map]
  rfl

/-- Members with different keys, in the order of an object, become the object. -/
theorem ofMembers_eq {l : List (Str × Json)} (hk : (l.map Prod.fst).Nodup) (ho : propertyOrder l = l) :
    ofMembers l = .obj l := by
  rw [ofMembers, foldl_setKey (by simpa using hk), List.nil_append, ho]

/-! ## Values -/

mutual

/-- The fuel a value needs. -/
def size : Json → ℕ
  | .arr [] => 1
  | .arr (v :: l) => size v + elemsSize l + 1
  | .obj [] => 1
  | .obj ((_, v) :: l) => size v + membersSize l + 1
  | _ => 1

def elemsSize : List Json → ℕ
  | [] => 1
  | v :: l => size v + elemsSize l + 1

def membersSize : List (Str × Json) → ℕ
  | [] => 1
  | (_, v) :: l => size v + membersSize l + 1

end

theorem size_pos : ∀ v : Json, 0 < size v
  | .arr [] | .arr (_ :: _) | .obj [] | .obj ((_, _) :: _) => by simp [size]
  | .null | .bool _ | .num _ | .str _ => by simp [size]

theorem length_lt_elemsSize : ∀ l : List Json, l.length < elemsSize l
  | [] => by simp [elemsSize]
  | v :: l => by
    have := length_lt_elemsSize l
    simp only [List.length_cons, elemsSize]; omega

theorem length_lt_membersSize : ∀ l : List (Str × Json), l.length < membersSize l
  | [] => by simp [membersSize]
  | (k, v) :: l => by
    have := length_lt_membersSize l
    simp only [List.length_cons, membersSize]; omega

theorem size_le_of_mem_elems : ∀ {l : List Json} {v : Json}, v ∈ l → size v ≤ elemsSize l
  | w :: l, v, h => by
    simp only [elemsSize]
    rcases List.mem_cons.1 h with rfl | h
    · omega
    · have := size_le_of_mem_elems h; omega

theorem size_le_of_mem_members : ∀ {l : List (Str × Json)} {p : Str × Json}, p ∈ l → size p.2 ≤ membersSize l
  | (k, v) :: l, p, h => by
    simp only [membersSize]
    rcases List.mem_cons.1 h with rfl | h
    · simp only; omega
    · have := size_le_of_mem_members h; omega

theorem skipSpace_cons {c : Char} (cs : Str) (h : isSpace c = false) : skipSpace (c :: cs) = c :: cs := by
  simp [skipSpace, h]

theorem toString_head (x : Binary64.Double) (rest : Str) :
    ∃ c cs, Number.toString (.fin x) ++ rest = c :: cs ∧ (c.isDigit = true ∨ c = '-') := by
  rw [Number.toString_fin]
  split_ifs with h0 hneg
  · exact ⟨'0', rest, rfl, Or.inl rfl⟩
  · exact ⟨'-', _, rfl, Or.inr rfl⟩
  · have hpos : 0 < x.val := lt_of_le_of_ne (not_lt.1 hneg) (Ne.symm h0)
    obtain ⟨c, cs, hc, hd⟩ := Number.format_head (Number.shortest_pos x.isNearest hpos) (Number.shortest x.val).2 rest
    exact ⟨c, cs, hc, Or.inl hd⟩

theorem parseValue_number (n : ℕ) {c : Char} (cs : Str) (h : c.isDigit = true ∨ c = '-') :
    parseValue (n + 1) (c :: cs) = (Number.scan (c :: cs)).map fun p => (.num p.1, p.2) := by
  have hne : isSpace c = false ∧ c ≠ 'n' ∧ c ≠ 't' ∧ c ≠ 'f' ∧ c ≠ '"' ∧ c ≠ '[' ∧ c ≠ '{' := by
    rcases h with h | rfl
    · refine ⟨?_, ?_, ?_, ?_, ?_, ?_, ?_⟩
      · by_contra hs
        simp only [isSpace, Bool.not_eq_false, Bool.or_eq_true, decide_eq_true_eq] at hs
        rcases hs with ((rfl | rfl) | rfl) | rfl <;> revert h <;> decide
      all_goals rintro rfl; revert h; decide
    · decide
  obtain ⟨hs, h1, h2, h3, h4, h5, h6⟩ := hne
  rw [parseValue, skipSpace_cons cs hs]
  split <;> simp_all

/-- The first character of a text: no space, and no bracket that closes an array. -/
theorem stringify_head : ∀ {v : Json}, Wf v → ∀ rest : Str,
    ∃ c cs, stringify v ++ rest = c :: cs ∧ isSpace c = false ∧ c ≠ ']'
  | .null, _, rest => ⟨'n', _, rfl, rfl, by decide⟩
  | .bool true, _, rest => ⟨'t', _, rfl, rfl, by decide⟩
  | .bool false, _, rest => ⟨'f', _, rfl, rfl, by decide⟩
  | .str s, _, rest => ⟨'"', _, rfl, rfl, by decide⟩
  | .arr [], _, rest => ⟨'[', _, rfl, rfl, by decide⟩
  | .arr (_ :: _), _, rest => ⟨'[', _, rfl, rfl, by decide⟩
  | .obj [], _, rest => ⟨'{', _, rfl, rfl, by decide⟩
  | .obj ((_, _) :: _), _, rest => ⟨'{', _, rfl, rfl, by decide⟩
  | .num (.fin x), _, rest => by
    obtain ⟨c, cs, hc, hd⟩ := toString_head x rest
    refine ⟨c, cs, hc, ?_⟩
    rcases hd with hd | rfl
    · constructor
      · by_contra hs
        simp only [isSpace, Bool.not_eq_false, Bool.or_eq_true, decide_eq_true_eq] at hs
        rcases hs with ((rfl | rfl) | rfl) | rfl <;> revert hd <;> decide
      · rintro rfl; revert hd; decide
    · decide

/-- A parser of single values that reads back the values of a list. -/
def ReadsBack (value : Str → Option (Json × Str)) (v : Json) : Prop :=
  ∀ rest, Number.NumberEnd rest → value (stringify v ++ rest) = some (v, rest)

theorem numberEnd_elems (l : List Json) (rest : Str) : Number.NumberEnd (elemsText l ++ rest) := by
  cases l <;> simp [elemsText, Number.NumberEnd]

theorem numberEnd_members (l : List (Str × Json)) (rest : Str) : Number.NumberEnd (membersText l ++ rest) := by
  cases l <;> simp [membersText, Number.NumberEnd]

theorem parseElems_text {value : Str → Option (Json × Str)} (rest : Str) :
    ∀ (l : List Json) (v : Json) (n : ℕ), l.length < n → (∀ w ∈ v :: l, ReadsBack value w) →
      parseElems value n (stringify v ++ (elemsText l ++ rest)) = some (v :: l, rest)
  | [], v, n + 1, _, h => by
    simp only [parseElems, h v List.mem_cons_self _ (numberEnd_elems [] rest)]
    simp [elemsText, skipSpace_cons _ (c := ']') rfl]
  | w :: l, v, n + 1, hn, h => by
    have ih := parseElems_text rest l w n (by simpa using hn) fun x hx => h x (List.mem_cons_of_mem _ hx)
    simp only [parseElems, h v List.mem_cons_self _ (numberEnd_elems (w :: l) rest)]
    simp [elemsText, skipSpace_cons _ (c := ',') rfl, ih]

theorem parseMembers_text {value : Str → Option (Json × Str)} (rest : Str) :
    ∀ (l : List (Str × Json)) (k : Str) (v : Json) (n : ℕ), l.length < n →
      (∀ p ∈ (k, v) :: l, ReadsBack value p.2) →
      parseMembers value n (quote k ++ ':' :: (stringify v ++ (membersText l ++ rest))) = some ((k, v) :: l, rest)
  | [], k, v, n + 1, _, h => by
    have hv := h (k, v) List.mem_cons_self _ (numberEnd_members [] rest)
    simp only [quote, parseMembers, List.cons_append, List.append_assoc, List.nil_append,
      skipSpace_cons _ (c := '"') rfl, parseString_quote, Option.bind_eq_bind, Option.bind_some,
      skipSpace_cons _ (c := ':') rfl, hv]
    simp [membersText, skipSpace_cons _ (c := '}') rfl]
  | (k', v') :: l, k, v, n + 1, hn, h => by
    have ih := parseMembers_text rest l k' v' n (by simpa using hn) fun x hx => h x (List.mem_cons_of_mem _ hx)
    have hv := h (k, v) List.mem_cons_self _ (numberEnd_members ((k', v') :: l) rest)
    simp only [quote, parseMembers, List.cons_append, List.append_assoc, List.nil_append,
      skipSpace_cons _ (c := '"') rfl, parseString_quote, Option.bind_eq_bind, Option.bind_some,
      skipSpace_cons _ (c := ':') rfl, hv]
    simp only [membersText, List.cons_append, List.append_assoc, skipSpace_cons _ (c := ',') rfl, ih]
    rfl

/-- **The parser reads back what the printer wrote**, given fuel for the size of the value. -/
theorem parseValue_stringify : ∀ (n : ℕ) {v : Json}, Wf v → size v ≤ n → ReadsBack (parseValue n) v := by
  intro n
  induction n with
  | zero =>
    intro v _ hn
    have := size_pos v
    omega
  | succ n ih =>
    intro v hv hn rest hrest
    cases hv with
    | null => rfl
    | bool b => cases b <;> rfl
    | num x =>
      obtain ⟨c, cs, hc, hd⟩ := toString_head x rest
      have hscan := Number.scan_toString x hrest
      simp only [stringify, numberText]
      rw [hc] at hscan ⊢
      rw [parseValue_number n cs hd, hscan]
      rfl
    | str s =>
      simp only [stringify, quote, parseValue, List.cons_append, List.append_assoc, List.nil_append,
        skipSpace_cons _ (c := '"') rfl, parseString_quote]
      rfl
    | @arr l h =>
      cases l with
      | nil => simp [stringify, parseValue, skipSpace_cons _ (c := '[') rfl, skipSpace_cons _ (c := ']') rfl]
      | cons w l =>
        simp only [size] at hn
        have hback : ∀ x ∈ w :: l, ReadsBack (parseValue n) x := by
          intro x hx
          have hx' : size x ≤ n := by
            rcases List.mem_cons.1 hx with rfl | hm
            · omega
            · have := size_le_of_mem_elems hm; omega
          exact ih (h x hx) hx'
        have hlen : l.length < n := by have := length_lt_elemsSize l; omega
        have hel := parseElems_text rest l w n hlen hback
        obtain ⟨c, cs, hc, hs, hb⟩ := stringify_head (h w List.mem_cons_self) (elemsText l ++ rest)
        simp only [stringify, parseValue, List.cons_append, List.append_assoc, skipSpace_cons _ (c := '[') rfl]
        rw [hc] at hel ⊢
        rw [skipSpace_cons cs hs]
        split
        · rename_i heq
          rw [List.cons.injEq] at heq
          exact absurd heq.1 hb
        · rw [hel]
          rfl
    | @obj l hk ho h =>
      cases l with
      | nil => simp [stringify, parseValue, skipSpace_cons _ (c := '{') rfl, skipSpace_cons _ (c := '}') rfl]
      | cons p l =>
        obtain ⟨k, w⟩ := p
        simp only [size] at hn
        have hback : ∀ x ∈ (k, w) :: l, ReadsBack (parseValue n) x.2 := by
          intro x hx
          have hx' : size x.2 ≤ n := by
            rcases List.mem_cons.1 hx with rfl | hm
            · simp only; omega
            · have := size_le_of_mem_members hm; omega
          exact ih (h x hx) hx'
        have hlen : l.length < n := by have := length_lt_membersSize l; omega
        have hme := parseMembers_text rest l k w n hlen hback
        simp only [stringify, parseValue, quote, List.cons_append, List.append_assoc, List.nil_append,
          skipSpace_cons _ (c := '{') rfl, skipSpace_cons _ (c := '"') rfl] at hme ⊢
        split
        · rename_i heq
          rw [List.cons.injEq] at heq
          exact absurd heq.1 (by decide)
        · rw [hme, Option.map_some, ofMembers_eq hk ho]

/-! ## The whole text -/

mutual

theorem size_le_length : ∀ {v : Json}, Wf v → size v ≤ (stringify v).length
  | .null, _ => by decide
  | .bool true, _ | .bool false, _ => by decide
  | .str s, _ => by simp [stringify, size, quote]
  | .num (.fin x), _ => by
    obtain ⟨c, cs, hc, -⟩ := toString_head x []
    rw [List.append_nil] at hc
    simp [stringify, size, numberText, hc]
  | .arr [], _ => by simp [stringify, size]
  | .arr (v :: l), .arr h => by
    have h1 := size_le_length (h v List.mem_cons_self)
    have h2 := elemsSize_le_length fun x hx => h x (List.mem_cons_of_mem v hx)
    simp only [stringify, size, List.length_cons, List.length_append]
    omega
  | .obj [], _ => by simp [stringify, size]
  | .obj ((k, v) :: l), .obj _ _ h => by
    have h1 := size_le_length (h (k, v) List.mem_cons_self)
    have h2 := membersSize_le_length fun x hx => h x (List.mem_cons_of_mem (k, v) hx)
    simp only [stringify, size, List.length_cons, List.length_append] at h1 ⊢
    omega

theorem elemsSize_le_length : ∀ {l : List Json}, (∀ v ∈ l, Wf v) → elemsSize l ≤ (elemsText l).length
  | [], _ => by simp [elemsText, elemsSize]
  | v :: l, h => by
    have h1 := size_le_length (h v List.mem_cons_self)
    have h2 := elemsSize_le_length fun x hx => h x (List.mem_cons_of_mem v hx)
    simp only [elemsText, elemsSize, List.length_cons, List.length_append]
    omega

theorem membersSize_le_length : ∀ {l : List (Str × Json)}, (∀ p ∈ l, Wf p.2) →
    membersSize l ≤ (membersText l).length
  | [], _ => by simp [membersText, membersSize]
  | (k, v) :: l, h => by
    have h1 := size_le_length (h (k, v) List.mem_cons_self)
    have h2 := membersSize_le_length fun x hx => h x (List.mem_cons_of_mem (k, v) hx)
    simp only [membersText, membersSize, List.length_cons, List.length_append] at h1 ⊢
    omega

end

/-- **`JSON.parse` inverts `JSON.stringify`.** -/
theorem parse_stringify {v : Json} (hv : Wf v) : parse (stringify v) = some v := by
  have h := parseValue_stringify ((stringify v).length + 1) hv
    ((size_le_length hv).trans (Nat.le_succ _)) [] Number.numberEnd_nil
  rw [List.append_nil] at h
  rw [parse, h]
  rfl

/-! ## Parsed values -/

/-- No number of the value is `NaN`, for which JSON has no text. -/
inductive Parsed : Json → Prop where
  | null : Parsed .null
  | bool (b : Bool) : Parsed (.bool b)
  | num {x : Number} (h : x ≠ .nan) : Parsed (.num x)
  | str (s : Str) : Parsed (.str s)
  | arr {l : List Json} (h : ∀ v ∈ l, Parsed v) : Parsed (.arr l)
  | obj {l : List (Str × Json)} (h : ∀ p ∈ l, Parsed p.2) : Parsed (.obj l)

theorem scan_ne_nan {cs rest : Str} {x : Number} (h : Number.scan cs = some (x, rest)) : x ≠ .nan := by
  have hq : ∀ q : ℚ, Number.ofRat q ≠ .nan := by
    intro q
    unfold Number.ofRat
    split_ifs <;> simp
  unfold Number.scan at h
  split at h <;> obtain ⟨p, -, hp⟩ := Option.map_eq_some_iff.1 h <;> cases hp <;> exact hq _

theorem parsed_setKey {k : Str} {v : Json} (hv : Parsed v) : ∀ {l : List (Str × Json)}, (∀ p ∈ l, Parsed p.2) →
    ∀ p ∈ setKey k v l, Parsed p.2
  | [], _, p, hp => by
    rw [setKey, List.mem_singleton] at hp
    rw [hp]
    exact hv
  | (k', v') :: l, h, p, hp => by
    rw [setKey] at hp
    rw [List.forall_mem_cons] at h
    split_ifs at hp
    · rcases List.mem_cons.1 hp with rfl | hp
      · exact hv
      · exact h.2 p hp
    · rcases List.mem_cons.1 hp with rfl | hp
      · exact h.1
      · exact parsed_setKey hv h.2 p hp

theorem parsed_ofMembers {l : List (Str × Json)} (h : ∀ p ∈ l, Parsed p.2) : Parsed (ofMembers l) := by
  refine .obj fun p hp => ?_
  rw [(perm_propertyOrder _).mem_iff] at hp
  revert p
  induction l using List.reverseRecOn with
  | nil => exact nofun
  | append_singleton l p ih =>
    rw [List.foldl_append, List.foldl_cons, List.foldl_nil]
    exact parsed_setKey (h p (by simp)) (ih fun q hq => h q (List.mem_append_left _ hq))

section
variable {value : Str → Option (Json × Str)} (hval : ∀ cs v rest, value cs = some (v, rest) → Parsed v)
include hval

theorem parsed_elems : ∀ {n : ℕ} {cs rest : Str} {l : List Json}, parseElems value n cs = some (l, rest) →
    ∀ v ∈ l, Parsed v := by
  intro n
  induction n with
  | zero => exact nofun
  | succ n ih =>
    intro cs rest l h
    rw [parseElems] at h
    obtain ⟨⟨v, cs1⟩, hv, h⟩ := Option.bind_eq_some_iff.1 h
    dsimp only at h
    split at h
    · obtain ⟨⟨l', cs2⟩, hl, h⟩ := Option.bind_eq_some_iff.1 h
      cases h
      exact List.forall_mem_cons.2 ⟨hval _ _ _ hv, ih hl⟩
    · cases h
      exact List.forall_mem_singleton.2 (hval _ _ _ hv)
    · cases h

theorem parsed_members : ∀ {n : ℕ} {cs rest : Str} {l : List (Str × Json)}, parseMembers value n cs = some (l, rest) →
    ∀ p ∈ l, Parsed p.2 := by
  intro n
  induction n with
  | zero => exact nofun
  | succ n ih =>
    intro cs rest l h
    rw [parseMembers] at h
    split at h
    case h_2 => cases h
    obtain ⟨⟨k, cs1⟩, -, h⟩ := Option.bind_eq_some_iff.1 h
    dsimp only at h
    split at h
    case h_2 => cases h
    obtain ⟨⟨v, cs2⟩, hv, h⟩ := Option.bind_eq_some_iff.1 h
    dsimp only at h
    split at h
    · obtain ⟨⟨l', cs3⟩, hl, h⟩ := Option.bind_eq_some_iff.1 h
      cases h
      exact List.forall_mem_cons.2 ⟨hval _ _ _ hv, ih hl⟩
    · cases h
      exact List.forall_mem_singleton.2 (hval _ _ _ hv)
    · cases h

end

theorem parsed_value : ∀ {n : ℕ} {cs rest : Str} {v : Json}, parseValue n cs = some (v, rest) → Parsed v := by
  intro n
  induction n with
  | zero => exact nofun
  | succ n ih =>
    intro cs rest v h
    rw [parseValue] at h
    split at h
    · cases h
      exact .null
    · cases h
      exact .bool true
    · cases h
      exact .bool false
    · obtain ⟨p, -, hp⟩ := Option.map_eq_some_iff.1 h
      cases hp
      exact .str _
    · split at h
      · cases h
        exact .arr nofun
      · obtain ⟨p, he, hp⟩ := Option.map_eq_some_iff.1 h
        cases hp
        exact .arr (parsed_elems (fun _ _ _ hv => ih hv) he)
    · split at h
      · cases h
        exact .obj nofun
      · obtain ⟨p, he, hp⟩ := Option.map_eq_some_iff.1 h
        cases hp
        exact parsed_ofMembers (parsed_members (fun _ _ _ hv => ih hv) he)
    · obtain ⟨p, he, hp⟩ := Option.map_eq_some_iff.1 h
      cases hp
      exact .num (scan_ne_nan he)

/-- **No parsed number is `NaN`.** -/
theorem parsed_of_parse {cs : Str} {v : Json} (h : parse cs = some v) : Parsed v := by
  rw [parse] at h
  split at h
  · rename_i hp
    split_ifs at h
    cases h
    exact parsed_value hp
  · cases h

end Json
end Js
