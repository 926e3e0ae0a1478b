import OrbsNetwork.ClientAddress
import Mathlib.Data.List.DropRight
/-!
# Base58Decode — base58 text to bytes in the native library

`Base58::Decode` removes the spaces around a text and takes the base-58 digits into a buffer of bytes.  Neither loop of
the codec leaves its buffer, both write what the standard encoding is, and they undo each other (`base58_codec`).
-/
namespace Orbs
namespace ClientSdk

open Js

/-- The inner loop: one base-58 digit into the bytes.  It goes on while there is a carry or are bytes below `length`, to
the end of the buffer; `none` is its assertion that no carry is left. -/
def addDigit : ℕ → ℕ → List ℕ → Option (List ℕ × ℕ) := Radix.mulAdd 58 256

/-- Leading and trailing spaces are skipped, but not where there is nothing else. -/
def trimSpaces (data : Str) : Str :=
  if data.all (· == ' ') then data else (data.dropWhile (· == ' ')).rdropWhile (· == ' ')

/-- The size is computed in single precision, which makes no difference for fewer than `2 ^ 16` characters. -/
def decodedSize (length : ℕ) : ℕ := length * 733 / 1000 + 1

def findFirstOf (c : Char) : Option ℕ := Base58.alphabet.findIdx? (· == c)

/-- The loop over the characters: `none` is a failed assertion, an error is an exception. -/
def decodeLoop : Str → List ℕ × ℕ → Option (Except Str (List ℕ × ℕ))
  | [], s => some (.ok s)
  | c :: str, (b256, length) =>
    match findFirstOf c with
    | none => some (.error ("Invalid character: ".toList ++ [c]))
    | some ch => (addDigit length ch b256).bind fun s => decodeLoop str s

def base58Decode (data : Str) : Option (Except Str Bytes) :=
  let str := trimSpaces data
  let zeroes := (str.takeWhile (· == '1')).length
  let size := decodedSize str.length
  (decodeLoop str (List.replicate size 0, 0)).map fun r => r.map fun (b256, length) =>
    List.replicate zeroes 0 ++ ((b256.reverse.drop (size - length)).dropWhile (· == 0)).map UInt8.ofNat

theorem findFirstOf_eq (c : Char) :
    findFirstOf c = if c ∈ Base58.alphabet then some (Base58.alphabet.idxOf c) else none := by
  unfold findFirstOf
  split_ifs with hc
  · rw [List.idxOf, List.findIdx?_eq_some_iff_findIdx_eq]
    exact ⟨List.idxOf_lt_length_of_mem hc, rfl⟩
  · rw [List.findIdx?_eq_none_iff]
    intro x hx
    rw [beq_eq_false_iff_ne]
    rintro rfl
    exact hc hx

theorem pow_lt_decodedSize (n : ℕ) : 58 ^ n < 256 ^ decodedSize n :=
  Radix.pow_lt_pow_of_ratio (by decide) (by decide) (by decide +kernel : 58 ^ 1000 ≤ 256 ^ 733) n

/-- Over the alphabet the loop is the one of the digits. -/
theorem decodeLoop_eq : ∀ {str : Str}, (∀ c ∈ str, c ∈ Base58.alphabet) → ∀ s : List ℕ × ℕ,
    decodeLoop str s =
      ((str.map Base58.alphabet.idxOf).foldlM (fun s d => addDigit s.2 d s.1) s).map Except.ok := by
  intro str
  induction str with
  | nil => exact fun _ _ => rfl
  | cons c str ih =>
    intro hs s
    rw [List.forall_mem_cons] at hs
    rw [decodeLoop, findFirstOf_eq, if_pos hs.1, List.map_cons, List.foldlM_cons]
    dsimp only
    cases addDigit s.2 (Base58.alphabet.idxOf c) s.1 with
    | none => rfl
    | some s' => exact ih hs.2 s'

/-- The value of what a buffer of this size can take. -/
theorem loop_holds {str : Str} (hs : ∀ c ∈ str, c ∈ Base58.alphabet) {size : ℕ} (hsize : 58 ^ str.length < 256 ^ size) :
    ∃ s, decodeLoop str (List.replicate size 0, 0) = some (.ok s) ∧
      Radix.Holds 256 size (Base58.ofDigitsBE 58 (str.map Base58.alphabet.idxOf)) s := by
  have hlt : ∀ d ∈ str.map Base58.alphabet.idxOf, d < 58 := by
    intro d hd
    obtain ⟨c, hc, rfl⟩ := List.mem_map.1 hd
    exact Base58.idxOf_lt (hs c hc)
  have hvalue := Base58.ofDigitsBE_lt (by decide) hlt
  rw [List.length_map] at hvalue
  have hroom := hvalue.trans hsize
  rw [← Radix.foldl_eq_ofDigitsBE] at hroom ⊢
  obtain ⟨s, h, hholds⟩ := Radix.foldlM_mulAdd (by decide) (by decide) _ (Radix.holds_replicate (by decide) size) hroom
  refine ⟨s, ?_, hholds⟩
  rw [decodeLoop_eq hs]
  exact congrArg _ h

theorem decodeLoop_append (as bs : Str) (s : List ℕ × ℕ) : decodeLoop (as ++ bs) s =
    (decodeLoop as s).bind fun r => match r with
      | .ok s => decodeLoop bs s
      | .error e => some (.error e) := by
  induction as generalizing s with
  | nil => rfl
  | cons c as ih =>
    rw [List.cons_append, decodeLoop, decodeLoop]
    cases findFirstOf c with
    | none => rfl
    | some ch =>
      dsimp only
      cases addDigit s.2 ch s.1 with
      | none => rfl
      | some s => exact ih s

/-- **A character outside the alphabet is an exception**, before any assertion fails. -/
theorem decodeLoop_error {str : Str} (hs : ¬ ∀ c ∈ str, c ∈ Base58.alphabet) {size : ℕ}
    (hsize : 58 ^ str.length < 256 ^ size) : ∃ e, decodeLoop str (List.replicate size 0, 0) = some (.error e) := by
  have hsplit := List.takeWhile_append_dropWhile (p := Base58.alphabet.contains) (l := str)
  have hgood : ∀ c ∈ str.takeWhile Base58.alphabet.contains, c ∈ Base58.alphabet :=
    fun c hc => List.contains_iff_mem.1 (List.mem_takeWhile_imp hc)
  have hlength : (str.takeWhile Base58.alphabet.contains).length ≤ str.length :=
    (List.takeWhile_sublist _).length_le
  have hsize' := (Nat.pow_le_pow_right (by decide) hlength).trans_lt hsize
  obtain ⟨s, h, -⟩ := loop_holds hgood hsize'
  cases hrest : str.dropWhile Base58.alphabet.contains with
  | nil =>
    rw [hrest, List.append_nil] at hsplit
    rw [hsplit] at hgood
    exact absurd hgood hs
  | cons c rest =>
    have hbad : c ∉ Base58.alphabet := by
      have := List.head?_dropWhile_not Base58.alphabet.contains str
      rw [hrest] at this
      simpa using this
    rw [hrest] at hsplit
    rw [← hsplit, decodeLoop_append, h]
    change ∃ e, decodeLoop (c :: rest) s = some (.error e)
    rw [decodeLoop, findFirstOf_eq, if_neg hbad]
    exact ⟨_, rfl⟩

theorem base58Decode_of_mem {data : Str} (hs : ∀ c ∈ trimSpaces data, c ∈ Base58.alphabet) :
    ∃ bytes, base58Decode data = some (.ok bytes) ∧ Base58.decode (trimSpaces data) = some bytes := by
  obtain ⟨s, h, hholds⟩ := loop_holds hs (pow_lt_decodedSize _)
  unfold base58Decode
  dsimp only
  rw [h, Option.map_some]
  refine ⟨_, rfl, ?_⟩
  dsimp only
  rw [hholds.dropWhile_drop, hholds.digitsBE (by decide), Base58.decode_eq_recode hs, Base58.recode, List.map_append,
    List.map_replicate, Base58.takeWhile_map_idxOf]
  rfl

theorem base58Decode_of_not_mem {data : Str} (hs : ¬ ∀ c ∈ trimSpaces data, c ∈ Base58.alphabet) :
    ∃ e, base58Decode data = some (.error e) := by
  obtain ⟨e, h⟩ := decodeLoop_error hs (pow_lt_decodedSize _)
  unfold base58Decode
  dsimp only
  rw [h]
  exact ⟨e, rfl⟩

theorem trimSpaces_of_not_mem {data : Str} (h : ' ' ∉ data) : trimSpaces data = data := by
  unfold trimSpaces
  split_ifs
  · rfl
  have hleft : data.dropWhile (· == ' ') = data := by
    rw [List.dropWhile_eq_self_iff]
    intro hlen hfirst
    rw [beq_iff_eq] at hfirst
    exact h (hfirst ▸ List.getElem_mem hlen)
  rw [hleft, List.rdropWhile_eq_self_iff]
  intro hne hlast
  rw [beq_iff_eq] at hlast
  exact h (hlast ▸ List.getLast_mem hne)

theorem trimSpaces_sublist (data : Str) : (trimSpaces data).Sublist data := by
  unfold trimSpaces
  split_ifs
  · exact List.Sublist.refl data
  · exact (List.rdropWhile_prefix _ _).sublist.trans (List.dropWhile_sublist _)

theorem space_not_mem {str : Str} (hs : ∀ c ∈ str, c ∈ Base58.alphabet) : ' ' ∉ str :=
  fun h => absurd (hs ' ' h) (by decide +kernel)

theorem base58Decode_eq {str : Str} (hs : ∀ c ∈ str, c ∈ Base58.alphabet) :
    ∃ bytes, base58Decode str = some (.ok bytes) ∧ Base58.decode str = some bytes := by
  have htrim := trimSpaces_of_not_mem (space_not_mem hs)
  have h := @base58Decode_of_mem str (by rwa [htrim])
  rwa [htrim] at h

theorem base58Decode_encode (v : Bytes) : base58Decode (Base58.encode v) = some (.ok v) := by
  obtain ⟨bytes, h, hbytes⟩ := base58Decode_eq (Base58.encode_mem v)
  rw [Base58.decode_encode, Option.some.injEq] at hbytes
  rw [h, hbytes]

/-- **The codec stays in its buffers, and its two halves are inverse to each other.** -/
theorem base58_codec :
    (∀ v : Bytes, base58Encode v = some (Base58.encode v)) ∧
    (∀ str : Str, (∀ c ∈ str, c ∈ Base58.alphabet) → ∃ bytes, base58Decode str = some (.ok bytes) ∧
      Base58.decode str = some bytes ∧ base58Encode bytes = some str) ∧
    (∀ v : Bytes, ∃ str, base58Encode v = some str ∧ base58Decode str = some (.ok v)) ∧
    ∀ data : Str, (∃ e, base58Decode data = some (.error e)) ↔ ∃ c ∈ trimSpaces data, c ∉ Base58.alphabet := by
  refine ⟨base58Encode_eq, ?_, ?_, ?_⟩
  · intro str hs
    obtain ⟨bytes, h, hbytes⟩ := base58Decode_eq hs
    refine ⟨bytes, h, hbytes, ?_⟩
    rw [base58Encode_eq, Base58.encode_decode hs hbytes]
  · exact fun v => ⟨_, base58Encode_eq v, base58Decode_encode v⟩
  · intro data
    by_cases hs : ∀ c ∈ trimSpaces data, c ∈ Base58.alphabet
    · obtain ⟨bytes, h, -⟩ := base58Decode_of_mem hs
      rw [h]
      simpa using hs
    · refine ⟨fun _ => ?_, fun _ => base58Decode_of_not_mem hs⟩
      simpa using hs

end ClientSdk
end Orbs
