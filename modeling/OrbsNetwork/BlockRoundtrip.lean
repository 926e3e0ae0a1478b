import OrbsNetwork.BlockUtils
import OrbsNetwork.Lib.JsReorder
/-!
# BlockRoundtrip — blocks through their JSON text

A block is stored, and sent to other nodes, as the text of a JavaScript object.  The reviver looks at every object of the
text, and takes none of a block's for a Buffer but the Buffers, whatever the strings of the block hold and in whatever
order the objects have their members (`parse_block`).
-/
namespace Orbs
namespace BlockUtils

open Js Val

/-- `calculateBlockHash` on a JavaScript object, which has a header and a body. -/
def hashOf (sha256 : Bytes → Bytes) : Val → Option Bytes
  | .obj block =>
    match Val.get block "header".toList, Val.get block "body".toList with
    | some header, some body =>
      some (sha256 (Utf8.encode header.stableStringify ++ Utf8.encode body.stableStringify))
    | _, _ => none
  | _ => none

theorem hashOf_enc (sha256 : Bytes → Bytes) (b : Block) :
    hashOf sha256 (Block.codec.enc b) = some (calculateBlockHash sha256 b) := rfl

/-- The hash looks at two members, through their stable texts. -/
theorem hashOf_of_texts {sha256 : Bytes → Bytes} {l l' : List (Str × Val)}
    (h : ∀ k v, Val.get l k = some v → ∃ w, Val.get l' k = some w ∧ v.stableStringify = w.stableStringify) {hash : Bytes}
    (hash_eq : hashOf sha256 (.obj l) = some hash) : hashOf sha256 (.obj l') = some hash := by
  rw [hashOf] at hash_eq ⊢
  split at hash_eq
  · rename_i header body hheader hbody
    obtain ⟨header', hheader', htext⟩ := h _ _ hheader
    obtain ⟨body', hbody', htext'⟩ := h _ _ hbody
    rw [hheader', hbody']
    dsimp only
    rw [← htext, ← htext']
    exact hash_eq
  · cases hash_eq

theorem hashOf_reordered {sha256 : Bytes → Bytes} {v w : Val} (h : Reordered v w) (hv : v.Proper) {hash : Bytes}
    (hash_eq : hashOf sha256 v = some hash) : hashOf sha256 w = some hash := by
  induction h with
  | refl v => exact hash_eq
  | trans h _ ih ih' => exact ih' (h.proper hv) (ih hv hash_eq)
  | elem pre post h _ => cases hash_eq
  | perm h =>
    cases hv with
    | obj hk _ _ =>
      have hk' := (h.map Prod.fst).nodup_iff.1 hk
      refine hashOf_of_texts (fun k v hget => ⟨v, ?_, rfl⟩) hash_eq
      exact (get_eq_some_iff hk').2 (h.mem_iff.1 ((get_eq_some_iff hk).1 hget))
  | @member pre k v w post h _ =>
    cases hv with
    | obj hk _ hp =>
      have hk' : ((pre ++ (k, w) :: post).map Prod.fst).Nodup := by
        rw [List.map_append, List.map_cons] at hk ⊢
        exact hk
      have hv : v.Proper := hp (k, v) (by simp)
      refine hashOf_of_texts (fun k' x hget => ?_) hash_eq
      rw [get_eq_some_iff hk, List.mem_append, List.mem_cons] at hget
      rcases hget with hx | hx | hx
      · exact ⟨x, (get_eq_some_iff hk').2 (by simp [hx]), rfl⟩
      · cases hx
        exact ⟨w, (get_eq_some_iff hk').2 (by simp), stableStringify_reordered h hv⟩
      · exact ⟨x, (get_eq_some_iff hk').2 (by simp [hx]), rfl⟩

/-- **A block comes back from its text**, with its members in whatever order, and has the same hash. -/
theorem parse_block (sha256 : Bytes → Bytes) (b : WireBlock) :
    (∃ v, parseJsonWithBuffers (Block.codec.enc b.1).stringify = some v ∧ v = Block.codec.enc b.1 ∧
      Block.codec.dec v = some b.1) ∧
    ∀ block : Val, Reordered (Block.codec.enc b.1) block → ∃ v, parseJsonWithBuffers block.stringify = some v ∧
      v = block ∧ hashOf sha256 v = some (calculateBlockHash sha256 b.1) ∧
      hashOf sha256 block = some (calculateBlockHash sha256 b.1) := by
  have hrange := b.2.inRange
  have hproper := Block.codec.proper b.1 hrange
  refine ⟨⟨_, parseJsonWithBuffers_stringify hproper, rfl, Block.codec.dec_enc b.1 hrange⟩, fun block h => ?_⟩
  have hash := hashOf_reordered h hproper (hashOf_enc sha256 b.1)
  exact ⟨block, parseJsonWithBuffers_stringify (h.proper hproper), rfl, hash, hash⟩

/-- A block with the text of a Buffer for a payload. -/
def bufferLookalike : Block where
  header := { version := 0, prevBlockHash := [1, 2], height := 1 }
  body :=
    { transactions :=
        [{ header := { version := 0, sender := [3], timestamp := "1".toList, contractAddress := [] }
           payload := "\x7b\"type\":\"Buffer\",\"data\":[1]\x7d".toList, signatureData := none }]
      transactionReceipts := [], stateDiff := [] }
  signatureData := none

example : (parseJsonWithBuffers (Block.codec.enc bufferLookalike).stringify).bind Block.codec.dec = some bufferLookalike := by
  decide +kernel

end BlockUtils
end Orbs
