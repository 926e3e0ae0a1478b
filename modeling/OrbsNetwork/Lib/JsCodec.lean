import OrbsNetwork.Lib.JsCoerce
/-!
# JsCodec — typed records as JavaScript values

A `Codec α` writes a typed value as a `Val` and reads it back, and carries the proof that it does: on every value in
range, reading what was written gives the value, and what was written is `Proper`, so that its JSON text loses nothing.
`Fields` is the same for the members of an object, read by name in any order.
-/
namespace Js

structure Codec (α : Type) where
  enc : α → Val
  dec : Val → Option α
  InRange : α → Prop
  dec_enc : ∀ a, InRange a → dec (enc a) = some a
  proper : ∀ a, InRange a → (enc a).Proper

structure Fields (α : Type) where
  keys : List Str
  enc : α → List (Str × Val)
  dec : List (Str × Val) → Option α
  InRange : α → Prop
  keys_enc : ∀ a, (enc a).map Prod.fst = keys
  dec_of : ∀ a l, InRange a → (∀ p ∈ enc a, Val.get l p.1 = some p.2) → dec l = some a
  proper : ∀ a, InRange a → ∀ p ∈ enc a, p.2.Proper

namespace Val

def asNat : Val → Option ℕ
  | .num (.fin x) => if x.val.den = 1 ∧ 0 ≤ x.val then some x.val.num.toNat else none
  | _ => none

def asBool : Val → Option Bool
  | .bool b => some b
  | _ => none

def asStr : Val → Option Str
  | .str s => some s
  | _ => none

def asBytes : Val → Option (List UInt8)
  | .buffer bytes => some bytes
  | _ => none

theorem asNat_ofNat {n : ℕ} (h : n ≤ 2 ^ 53) : asNat (ofNat n) = some n := by
  rw [ofNat, Number.ofNat_eq h, asNat]
  simp [Binary64.Double.ofInt]

theorem get_of_mem {l : List (Str × Val)} (hk : (l.map Prod.fst).Nodup) {p : Str × Val} (hp : p ∈ l) :
    get l p.1 = some p.2 := by
  induction l with
  | nil => cases hp
  | cons q l ih =>
    rw [List.map_cons, List.nodup_cons] at hk
    rcases List.mem_cons.1 hp with rfl | hp
    · rw [get, List.find?_cons_of_pos (by simp)]
      rfl
    · have hne : q.1 ≠ p.1 := fun h => hk.1 (List.mem_map.2 ⟨p, hp, h.symm⟩)
      rw [get, List.find?_cons_of_neg (by simpa using hne)]
      exact ih hk.2 hp

end Val

namespace Codec

def nat : Codec ℕ where
  enc := Val.ofNat
  dec := Val.asNat
  InRange n := n ≤ 2 ^ 53
  dec_enc _ h := Val.asNat_ofNat h
  proper _ h := Val.proper_ofNat h

def bool : Codec Bool where
  enc := .bool
  dec := Val.asBool
  InRange _ := True
  dec_enc _ _ := rfl
  proper b _ := .bool b

def str : Codec Str where
  enc := .str
  dec := Val.asStr
  InRange _ := True
  dec_enc _ _ := rfl
  proper s _ := .str s

def bytes : Codec (List UInt8) where
  enc := .buffer
  dec := Val.asBytes
  InRange _ := True
  dec_enc _ _ := rfl
  proper b _ := .buffer b

variable {α β : Type}

theorem mapM_dec (c : Codec α) : ∀ {l : List α}, (∀ a ∈ l, c.InRange a) → (l.map c.enc).mapM c.dec = some l
  | [], _ => rfl
  | a :: l, h => by
    rw [List.map_cons, List.mapM_cons, c.dec_enc a (h a (by simp)), mapM_dec c fun b hb => h b (by simp [hb])]
    rfl

def list (c : Codec α) : Codec (List α) where
  enc l := .arr (l.map c.enc)
  dec
    | .arr l => l.mapM c.dec
    | _ => none
  InRange l := ∀ a ∈ l, c.InRange a
  dec_enc _ h := mapM_dec c h
  proper l h := .arr fun v hv => by
    obtain ⟨a, ha, rfl⟩ := List.mem_map.1 hv
    exact c.proper a (h a ha)

/-- The members of an object that is written key by key. -/
def record (fs : Fields β) (un : α → β) (mk : β → α) (hmk : ∀ a, mk (un a) = a) (hk : fs.keys.Nodup)
    (ht : ∀ k ∈ fs.keys, Val.Named k) : Codec α where
  enc a := .obj (fs.enc (un a))
  dec
    | .obj l => (fs.dec l).map mk
    | _ => none
  InRange a := fs.InRange (un a)
  dec_enc a h := by
    have hk' : ((fs.enc (un a)).map Prod.fst).Nodup := by rw [fs.keys_enc]; exact hk
    have hd := fs.dec_of (un a) _ h fun p hp => Val.get_of_mem hk' hp
    exact (congrArg (Option.map mk) hd).trans (congrArg some (hmk a))
  proper a h := by
    refine .obj ?_ ?_ (fs.proper _ h)
    · rw [fs.keys_enc]
      exact hk
    · rw [fs.keys_enc]
      exact ht

/-- A message field: `null` when absent. -/
def nullable (c : Codec α) (hne : ∀ a, c.enc a ≠ .null) : Codec (Option α) where
  enc
    | none => .null
    | some a => c.enc a
  dec
    | .null => some none
    | v => (c.dec v).map some
  InRange
    | none => True
    | some a => c.InRange a
  dec_enc a h := by
    cases a with
    | none => rfl
    | some a =>
      have := c.dec_enc a h
      have hn := hne a
      dsimp only
      split
      · exact absurd ‹_› hn
      · rw [this]
        rfl
  proper a h := by
    cases a with
    | none => exact .null
    | some a => exact c.proper a h

end Codec

namespace Fields

variable {α β : Type}

def nil : Fields Unit where
  keys := []
  enc _ := []
  dec _ := some ()
  InRange _ := True
  keys_enc _ := rfl
  dec_of _ _ _ _ := rfl
  proper _ _ := nofun

def cons (k : Str) (c : Codec α) (fs : Fields β) : Fields (α × β) where
  keys := k :: fs.keys
  enc a := (k, c.enc a.1) :: fs.enc a.2
  dec l := do
    let v ← Val.get l k
    let a ← c.dec v
    let b ← fs.dec l
    pure (a, b)
  InRange a := c.InRange a.1 ∧ fs.InRange a.2
  keys_enc a := by rw [List.map_cons, fs.keys_enc]
  dec_of a l h hl := by
    rw [hl (k, c.enc a.1) (by simp)]
    simp only [Option.bind_eq_bind, Option.bind_some]
    rw [c.dec_enc _ h.1, Option.bind_some, fs.dec_of a.2 l h.2 fun p hp => hl p (by simp [hp])]
    rfl
  proper a h p hp := by
    rcases List.mem_cons.1 hp with rfl | hp
    · exact c.proper _ h.1
    · exact fs.proper _ h.2 p hp

end Fields
end Js
