import Mathlib.Data.Nat.Notation
/-!
# Hex — bytes as lower-case hexadecimal text

`decode` reads either case and stops at the first pair that is not hexadecimal, as `Buffer.from(text, "hex")` does.
-/
namespace Hex

def byte (b : UInt8) : List Char := [Nat.digitChar (b.toNat / 16), Nat.digitChar (b.toNat % 16)]

def encode (bytes : List UInt8) : List Char := bytes.flatMap byte

def digit (c : Char) : Option ℕ :=
  if 48 ≤ c.toNat ∧ c.toNat ≤ 57 then some (c.toNat - 48)
  else if 97 ≤ c.toNat ∧ c.toNat ≤ 102 then some (c.toNat - 87)
  else if 65 ≤ c.toNat ∧ c.toNat ≤ 70 then some (c.toNat - 55)
  else none

def decode : List Char → List UInt8
  | a :: b :: rest =>
    match digit a, digit b with
    | some x, some y => UInt8.ofNat (x * 16 + y) :: decode rest
    | _, _ => []
  | _ => []

theorem digit_digitChar : ∀ n < 16, digit (Nat.digitChar n) = some n := by decide

/-- **What was encoded decodes as itself.** -/
theorem decode_encode : ∀ bytes : List UInt8, decode (encode bytes) = bytes
  | [] => rfl
  | b :: bytes => by
    have hb := b.toNat_lt
    have h1 := digit_digitChar (b.toNat / 16) (by omega)
    have h2 := digit_digitChar (b.toNat % 16) (by omega)
    have hn : b.toNat / 16 * 16 + b.toNat % 16 = b.toNat := by omega
    have hd : decode (encode (b :: bytes)) = UInt8.ofNat (b.toNat / 16 * 16 + b.toNat % 16) :: decode (encode bytes) := by
      change decode (Nat.digitChar (b.toNat / 16) :: Nat.digitChar (b.toNat % 16) :: encode bytes) = _
      rw [decode, h1, h2]
    rw [hd, hn, UInt8.ofNat_toNat, decode_encode bytes]

theorem encode_injective {a b : List UInt8} (h : encode a = encode b) : a = b := by
  rw [← decode_encode a, h, decode_encode b]

theorem isSome_digit {bytes : List UInt8} {c : Char} (h : c ∈ encode bytes) : (digit c).isSome = true := by
  obtain ⟨b, -, hb⟩ := List.mem_flatMap.1 h
  have := b.toNat_lt
  simp only [byte, List.mem_cons, List.not_mem_nil, or_false] at hb
  rcases hb with rfl | rfl
  · rw [digit_digitChar _ (by omega), Option.isSome_some]
  · rw [digit_digitChar _ (by omega), Option.isSome_some]

theorem dot_not_mem (bytes : List UInt8) : '.' ∉ encode bytes :=
  fun h => absurd (isSome_digit h) (by decide)

theorem colon_not_mem (bytes : List UInt8) : ':' ∉ encode bytes :=
  fun h => absurd (isSome_digit h) (by decide)

end Hex
