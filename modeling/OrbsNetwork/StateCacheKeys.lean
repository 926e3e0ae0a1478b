import OrbsNetwork.VirtualMachine
/-!
# StateCacheKeys — which keys survive the text form of the cache

The cache stores a pair of a contract address and a key under one text, the base58 form of the address, a colon and the
key.  The text is cut at its first colon again, and what follows a second colon is lost; the first byte of an address is
read as UTF-8.  So a pair comes back exactly when its key has no colon and its address begins with an ASCII byte other
than a colon (`recovered_iff`), and on such pairs the cache is a cache keyed by the pairs (`survives_iff`).
-/
namespace Orbs

open Js

namespace StateCache

/-! ## Keys -/

/-- No colon in the key, and an ASCII byte other than a colon at the start of the address. -/
def PlainKey (key : StateCacheKey) : Prop :=
  ':' ∉ key.key ∧ ∀ b ∈ key.contractAddress.head?, b.toNat < 0x80 ∧ Char.ofNat b.toNat ≠ ':'

theorem decodeMapKey_append {text : Str} (h : ':' ∉ text) (key : Str) :
    decodeMapKey (text ++ ':' :: key) =
      (bs58DecodeRawAddress text).map fun contractAddress => { contractAddress, key := key.takeWhile (· ≠ ':') } := by
  obtain ⟨parts, hp⟩ := Split.splitAt_eq ':' key
  rw [decodeMapKey, Split.splitAt_append key h, hp]

theorem recovered_iff_of_not_mem {key : StateCacheKey} (h : ':' ∉ bs58EncodeRawAddress key.contractAddress) :
    Recovered key ↔
      bs58DecodeRawAddress (bs58EncodeRawAddress key.contractAddress) = some key.contractAddress ∧ ':' ∉ key.key := by
  obtain ⟨contractAddress, key⟩ := key
  rw [Recovered, encodeMapKey, decodeMapKey_append h, Option.map_eq_some_iff, ← Split.takeWhile_ne_eq_self_iff]
  constructor
  · rintro ⟨decoded, hd, he⟩
    rw [StateCacheKey.mk.injEq] at he
    obtain ⟨rfl, hk⟩ := he
    exact ⟨hd, hk⟩
  · rintro ⟨hd, hk⟩
    exact ⟨_, hd, by rw [hk]⟩

/-- The text of an address has a colon only as the character of its first byte. -/
theorem colon_mem_iff (b : UInt8) (rest : Bytes) :
    ':' ∈ bs58EncodeRawAddress (b :: rest) ↔ b.toNat < 0x80 ∧ Char.ofNat b.toNat = ':' := by
  obtain ⟨text, htext, henc⟩ := bs58EncodeRawAddress_cons b rest
  rw [henc, List.mem_cons, or_iff_left htext]
  by_cases hb : b.toNat < 0x80
  · rw [if_pos hb, and_iff_right hb, eq_comm]
  · rw [if_neg hb]
    exact iff_of_false (by decide) fun h => hb h.1

/-- A colon in the text of the address cuts the whole address off. -/
theorem decodeMapKey_of_colon_mem {contractAddress : Bytes} (h : ':' ∈ bs58EncodeRawAddress contractAddress) (key : Str) :
    ∃ k, decodeMapKey (encodeMapKey { contractAddress, key }) = some { contractAddress := [], key := k } := by
  cases contractAddress with
  | nil =>
    rw [bs58EncodeRawAddress_nil] at h
    cases h
  | cons b rest =>
    obtain ⟨hb, hcolon⟩ := (colon_mem_iff b rest).1 h
    obtain ⟨text, -, henc⟩ := bs58EncodeRawAddress_cons b rest
    have hnil := @decodeMapKey_append [] List.not_mem_nil (text ++ ':' :: key)
    rw [List.nil_append, bs58DecodeRawAddress_nil, Option.map_some] at hnil
    rw [encodeMapKey, henc, if_pos hb, hcolon, List.cons_append]
    exact ⟨_, hnil⟩

/-- **A key comes back from its text form exactly when it is plain.** -/
theorem recovered_iff (key : StateCacheKey) : Recovered key ↔ PlainKey key := by
  obtain ⟨contractAddress, key⟩ := key
  cases contractAddress with
  | nil =>
    have hempty : ':' ∉ bs58EncodeRawAddress [] := by
      rw [bs58EncodeRawAddress_nil]
      exact List.not_mem_nil
    have hiff := @recovered_iff_of_not_mem ⟨[], key⟩ hempty
    dsimp only at hiff
    rw [hiff, bs58EncodeRawAddress_nil, bs58DecodeRawAddress_nil]
    exact ⟨fun h => ⟨h.2, nofun⟩, fun h => ⟨rfl, h.1⟩⟩
  | cons b rest =>
    by_cases hcolon : ':' ∈ bs58EncodeRawAddress (b :: rest)
    · obtain ⟨k, hk⟩ := decodeMapKey_of_colon_mem hcolon key
      refine iff_of_false (fun h => ?_) fun h => (h.2 b rfl).2 ((colon_mem_iff b rest).1 hcolon).2
      rw [Recovered, hk] at h
      cases h
    · have hiff := @recovered_iff_of_not_mem ⟨b :: rest, key⟩ hcolon
      dsimp only at hiff
      rw [hiff, bs58DecodeRawAddress_encode_iff]
      rw [colon_mem_iff] at hcolon
      constructor
      · rintro ⟨hb, hk⟩
        exact ⟨hk, fun b' hb' => by cases hb'; exact ⟨hb, fun hc => hcolon ⟨hb, hc⟩⟩⟩
      · exact fun h => ⟨(h.2 b rfl).1, h.1⟩

/-! ## What a cache reports -/

open VirtualMachine

/-- Some call of `set` gives the pair a value that it does not have at that point. -/
def Changed : KeyValues → List (StateCacheKey × Option Str) → StateCacheKey → Prop
  | _, [], _ => False
  | s, (key, value) :: calls, k => k = key ∧ value ≠ s key ∨ Changed (Function.update s key value) calls k

/-- After the calls of `set`, one after the other, `getModifiedKeys` has each changed pair once, with its last value. -/
def ReportsChanges (c : StateCache) (calls : List (StateCacheKey × Option Str)) : Prop :=
  ∃ items, (c.merge calls).getModifiedKeys = some items ∧ (items.map Prod.fst).Nodup ∧
    ∀ key value, (key, value) ∈ items ↔ Changed c.get calls key ∧ applyStateDiff c.get calls key = value

/-- On these pairs, the cache has the values `s` and the marks of the pairs in `changed`. -/
structure Tracks (keys : Set StateCacheKey) (c : StateCache) (s : KeyValues) (changed : StateCacheKey → Prop) : Prop where
  view : ∀ key ∈ keys, c.get key = s key
  modified : ∀ t, t ∈ c.modifiedKeys ↔ ∃ key ∈ keys, changed key ∧ encodeMapKey key = t
  nodup : c.modifiedKeys.Nodup

section
variable {keys : Set StateCacheKey} {c : StateCache} {s : KeyValues} {changed : StateCacheKey → Prop}

theorem nodup_addKey {l : List Str} (h : l.Nodup) (t : Str) : (addKey l t).Nodup := by
  unfold addKey
  split_ifs with ht
  · exact h
  · rw [List.nodup_append]
    refine ⟨h, List.nodup_singleton t, fun a ha b hb he => ht ?_⟩
    rw [List.mem_singleton] at hb
    rwa [← hb, ← he]

theorem Tracks.set (h : Tracks keys c s changed) (hrec : ∀ key ∈ keys, Recovered key) {key : StateCacheKey}
    (hkey : key ∈ keys) (value : Option Str) :
    Tracks keys (c.set key value) (Function.update s key value) fun k => changed k ∨ k = key ∧ value ≠ s key := by
  refine ⟨fun k hk => ?_, fun t => ?_, ?_⟩
  · rw [get_set, Function.update_apply]
    by_cases he : k = key
    · rw [if_pos he, he, if_pos rfl]
    · rw [if_neg he, if_neg fun ht => he ((hrec k hk).inj (hrec key hkey) ht)]
      exact h.view k hk
  · rw [mem_modifiedKeys_set, h.modified, h.view key hkey]
    constructor
    · rintro (⟨k, hk, hc, rfl⟩ | ⟨rfl, hne⟩)
      · exact ⟨k, hk, .inl hc, rfl⟩
      · exact ⟨key, hkey, .inr ⟨rfl, hne⟩, rfl⟩
    · rintro ⟨k, hk, hc | ⟨rfl, hne⟩, rfl⟩
      · exact .inl ⟨k, hk, hc, rfl⟩
      · exact .inr ⟨rfl, hne⟩
  · unfold StateCache.set
    dsimp only
    split_ifs
    · exact nodup_addKey h.nodup _
    · exact h.nodup

theorem Tracks.merge (hrec : ∀ key ∈ keys, Recovered key) : ∀ {calls : List (StateCacheKey × Option Str)}
    {c : StateCache} {s : KeyValues} {changed : StateCacheKey → Prop}, Tracks keys c s changed →
    (∀ call ∈ calls, call.1 ∈ keys) →
    Tracks keys (c.merge calls) (applyStateDiff s calls) fun k => changed k ∨ Changed s calls k := by
  intro calls
  induction calls with
  | nil =>
    intro c s changed h _
    simp only [Changed, or_false]
    exact h
  | cons call calls ih =>
    intro c s changed h hcalls
    have hset := h.set hrec (hcalls call List.mem_cons_self) call.2
    have hrest := ih hset fun call' hc => hcalls call' (List.mem_cons_of_mem _ hc)
    simp only [Changed, ← or_assoc]
    exact hrest

theorem map_of_mapM {α β : Type} {f : α → Option β} {g : β → α} : ∀ {l : List α} {bs : List β},
    (∀ a ∈ l, ∀ b, f a = some b → g b = a) → l.mapM f = some bs → bs.map g = l := by
  intro l
  induction l with
  | nil =>
    rintro bs - h
    cases h
    rfl
  | cons a l ih =>
    intro bs hg h
    rw [List.mapM_cons] at h
    obtain ⟨b, hb, h⟩ := Option.bind_eq_some_iff.1 h
    obtain ⟨bs', hbs, h⟩ := Option.bind_eq_some_iff.1 h
    cases h
    rw [List.map_cons, hg a List.mem_cons_self b hb, ih (fun a ha => hg a (List.mem_cons_of_mem _ ha)) hbs]

theorem Tracks.getModifiedKeys (h : Tracks keys c s changed) (hrec : ∀ key ∈ keys, Recovered key) :
    ∃ items, c.getModifiedKeys = some items ∧ (items.map Prod.fst).Nodup ∧
      ∀ key value, (key, value) ∈ items ↔ key ∈ keys ∧ changed key ∧ s key = value := by
  have hitem : ∀ key ∈ keys, ((decodeMapKey (encodeMapKey key)).map fun k =>
      (k, (c.cache.get (encodeMapKey key)).join)) = some (key, s key) := by
    intro key hk
    rw [show decodeMapKey (encodeMapKey key) = some key from hrec key hk, Option.map_some, ← h.view key hk]
    rfl
  have hall : ∀ t ∈ c.modifiedKeys, ∃ item : StateCacheKey × Option Str,
      ((decodeMapKey t).map fun k => (k, (c.cache.get t).join)) = some item := by
    intro t ht
    obtain ⟨key, hk, -, rfl⟩ := (h.modified t).1 ht
    exact ⟨_, hitem key hk⟩
  obtain ⟨items, hi, hof, hto⟩ := mapM_of_forall hall
  refine ⟨items, hi, ?_, fun key value => ⟨fun hm => ?_, ?_⟩⟩
  · have hinv : (items.map Prod.fst).map encodeMapKey = c.modifiedKeys := by
      rw [List.map_map]
      refine map_of_mapM (fun t ht item he => ?_) hi
      obtain ⟨key, hk, -, rfl⟩ := (h.modified t).1 ht
      rw [hitem key hk] at he
      cases he
      rfl
    have hnodup := h.nodup
    rw [← hinv] at hnodup
    exact hnodup.of_map _
  · obtain ⟨t, ht, he⟩ := hof _ hm
    obtain ⟨k, hk, hc, rfl⟩ := (h.modified t).1 ht
    rw [hitem k hk] at he
    cases he
    exact ⟨hk, hc, rfl⟩
  · rintro ⟨hk, hc, rfl⟩
    obtain ⟨item, hm, he⟩ := hto _ ((h.modified _).2 ⟨key, hk, hc, rfl⟩)
    rw [hitem key hk] at he
    cases he
    exact hm

end

theorem mem_of_changed {keys : Set StateCacheKey} : ∀ {calls : List (StateCacheKey × Option Str)} {s : KeyValues}
    {key : StateCacheKey}, (∀ call ∈ calls, call.1 ∈ keys) → Changed s calls key → key ∈ keys
  | call :: calls, s, key, hcalls, h => by
    rcases h with ⟨rfl, -⟩ | h
    · exact hcalls call List.mem_cons_self
    · exact mem_of_changed (fun call' hc => hcalls call' (List.mem_cons_of_mem _ hc)) h

theorem reportsChanges {keys : Set StateCacheKey} (hrec : ∀ key ∈ keys, Recovered key) (cache : JsMap Str (Option Str))
    {calls : List (StateCacheKey × Option Str)} (hcalls : ∀ call ∈ calls, call.1 ∈ keys) :
    ReportsChanges ⟨cache, []⟩ calls := by
  have hstart : Tracks keys ⟨cache, []⟩ (StateCache.get ⟨cache, []⟩) fun _ => False :=
    ⟨fun _ _ => rfl, fun t => by simp, List.nodup_nil⟩
  obtain ⟨items, hi, hnodup, hmem⟩ := (hstart.merge hrec hcalls).getModifiedKeys hrec
  refine ⟨items, hi, hnodup, fun key value => ?_⟩
  rw [hmem, false_or]
  exact ⟨fun h => h.2, fun h => ⟨mem_of_changed hcalls h.1, h⟩⟩

/-- The pairs come back from the cache, and do not get into each other's way in it. -/
structure Survives (keys : Set StateCacheKey) : Prop where
  roundTrip : ∀ key ∈ keys, decodeMapKey (encodeMapKey key) = some key
  separate : ∀ k ∈ keys, ∀ l ∈ keys, encodeMapKey k = encodeMapKey l → k = l
  reports : ∀ (cache : JsMap Str (Option Str)) (calls : List (StateCacheKey × Option Str)),
    (∀ call ∈ calls, call.1 ∈ keys) → ReportsChanges ⟨cache, []⟩ calls

/-- **Pairs survive in the cache exactly when all of them are plain.** -/
theorem survives_iff (keys : Set StateCacheKey) : Survives keys ↔ ∀ key ∈ keys, PlainKey key := by
  constructor
  · exact fun h key hk => (recovered_iff key).1 (h.roundTrip key hk)
  · intro h
    have hrec : ∀ key ∈ keys, Recovered key := fun key hk => (recovered_iff key).2 (h key hk)
    exact ⟨hrec, fun k hk l hl => (hrec k hk).inj (hrec l hl), fun cache calls => reportsChanges hrec cache⟩

/-- Where the event counter of the sender `T00111HYAGJKu6h9cmipKgNvJ8ny7uLxQS9UFzd` keeps an event. -/
def eventKey (event : String) : StateCacheKey where
  contractAddress := Hex.decode "5400000000906be446c731622741d6021d4d5ce0f42824fcef60d38b93".toList
  key := "values.T00111HYAGJKu6h9cmipKgNvJ8ny7uLxQS9UFzd.".toList ++ event.toList

/-- **An event name loses what follows a colon**, and with it its own counter. -/
theorem eventKey_cut : decodeMapKey (encodeMapKey (eventKey "a:b")) = some (eventKey "a") ∧
    ¬ Survives {eventKey "a:b"} := by
  have hcut : decodeMapKey (encodeMapKey (eventKey "a:b")) = some (eventKey "a") := by decide +kernel
  refine ⟨hcut, fun h => ?_⟩
  have hne : eventKey "a" ≠ eventKey "a:b" := by decide +kernel
  have hround := h.roundTrip (eventKey "a:b") rfl
  rw [hcut, Option.some.injEq] at hround
  exact hne hround

end StateCache
end Orbs
