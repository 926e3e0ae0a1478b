import Mathlib.Data.Nat.Notation
/-!
# Utf8 — text as bytes

`decode` is the lossy decoder of the WHATWG Encoding standard, as `Buffer.toString("utf8")` runs it: every maximal
ill-formed part of the input reads as one U+FFFD.  What `encode` wrote is well-formed and reads back as itself.
-/
namespace Utf8

def encode (s : List Char) : List UInt8 := s.flatMap String.utf8EncodeChar

def replacement : Char := Char.ofNat 0xFFFD

/-- A sequence begun: its code point so far, the bytes still needed, and the bounds of the next one. -/
structure Pending where
  code : ℕ
  needed : ℕ
  lo : ℕ := 0x80
  hi : ℕ := 0xBF

/-- The first byte of a sequence: a character, or the sequence it begins. -/
def lead (b : ℕ) : List Char × Option Pending :=
  if b < 0x80 then ([Char.ofNat b], none)
  else if 0xC2 ≤ b ∧ b ≤ 0xDF then ([], some { code := b - 0xC0, needed := 1 })
  else if 0xE0 ≤ b ∧ b ≤ 0xEF then
    ([], some { code := b - 0xE0, needed := 2, lo := if b = 0xE0 then 0xA0 else 0x80,
                hi := if b = 0xED then 0x9F else 0xBF })
  else if 0xF0 ≤ b ∧ b ≤ 0xF4 then
    ([], some { code := b - 0xF0, needed := 3, lo := if b = 0xF0 then 0x90 else 0x80,
                hi := if b = 0xF4 then 0x8F else 0xBF })
  else ([replacement], none)

def decodeFrom : Option Pending → List UInt8 → List Char
  | none, [] => []
  | some _, [] => [replacement]
  | none, b :: bs => (lead b.toNat).1 ++ decodeFrom (lead b.toNat).2 bs
  | some p, b :: bs =>
    if p.lo ≤ b.toNat ∧ b.toNat ≤ p.hi then
      let code := p.code * 64 + (b.toNat - 0x80)
      if p.needed = 1 then Char.ofNat code :: decodeFrom none bs
      else decodeFrom (some { code, needed := p.needed - 1 }) bs
    else replacement :: ((lead b.toNat).1 ++ decodeFrom (lead b.toNat).2 bs)

def decode (bs : List UInt8) : List Char :=
  match bs.toByteArray.utf8Decode? with
  | some s => s.toList
  | none => decodeFrom none bs

/-- **Encoded text reads back as itself.** -/
theorem decode_encode (s : List Char) : decode (encode s) = s := by
  have h : (encode s).toByteArray = s.utf8Encode := rfl
  rw [decode, h, List.utf8Decode?_utf8Encode]

theorem encode_injective {s t : List Char} (h : encode s = encode t) : s = t := by
  rw [← decode_encode s, h, decode_encode t]

theorem encode_append (s t : List Char) : encode (s ++ t) = encode s ++ encode t := List.flatMap_append

theorem decode_byte (b : UInt8) : decode [b] = [if b.toNat < 0x80 then Char.ofNat b.toNat else replacement] := by
  have h : ∀ n < 256, decode [UInt8.ofNat n] = [if n < 0x80 then Char.ofNat n else replacement] := by decide +kernel
  have := h b.toNat b.toNat_lt
  rwa [UInt8.ofNat_toNat] at this

theorem encode_ascii {b : UInt8} (hb : b.toNat < 0x80) : encode [Char.ofNat b.toNat] = [b] := by
  have h : ∀ n < 0x80, encode [Char.ofNat n] = [UInt8.ofNat n] := by decide +kernel
  rw [h b.toNat hb, UInt8.ofNat_toNat]

/-- ASCII text is one byte for each character. -/
theorem encode_eq_map {s : List Char} (h : ∀ c ∈ s, c.toNat < 0x80) : encode s = s.map fun c => UInt8.ofNat c.toNat := by
  induction s with
  | nil => rfl
  | cons c s ih =>
    rw [List.forall_mem_cons] at h
    have hb : (UInt8.ofNat c.toNat).toNat = c.toNat := UInt8.toNat_ofNat_of_lt' (Nat.lt_trans h.1 (by decide))
    have hc : encode [c] = [UInt8.ofNat c.toNat] := by
      have hascii := encode_ascii (b := UInt8.ofNat c.toNat) (by rw [hb]; exact h.1)
      rwa [hb, Char.ofNat_toNat] at hascii
    rw [← List.singleton_append, encode_append, hc, ih h.2]
    rfl

theorem ofNat_ne_replacement {n : ℕ} (h : n < 0x80) : Char.ofNat n ≠ replacement := by
  have hall : ∀ n < 0x80, Char.ofNat n ≠ replacement := by decide +kernel
  exact hall n h

end Utf8
