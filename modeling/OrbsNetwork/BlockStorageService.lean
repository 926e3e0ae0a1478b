import OrbsNetwork.PersistedChain
import OrbsNetwork.Lib.Lts
import Mathlib.Data.List.Sort
/-!
# BlockStorageService — two uncoordinated callers of `addBlock`

The service starts an `addBlock` from its RPC and from `pollForNewBlocks`, whose `appendBlocks` adds the blocks of the
sync queue one after the other.  Nothing keeps two of them apart, so their awaits interleave: an accepted `addBlock` is
in flight from its verification to its assignment of `lastBlock`, and between the two come the two puts and the report
to the transaction pool.  Verification itself runs in one piece, when `addBlock` is called.

`step` is one such piece of work.  Runs in which an `addBlock` passes verification only while no other is in flight,
and in which the pool never refuses a report, keep the persisted chain sound (`serial_sound`).
-/
namespace Orbs
namespace BlockStorageService

open BlockStorage HashChain

/-- How far an accepted `addBlock` has come. -/
inductive Phase where
  | verified
  | wroteLast
  | wroteBlock
  deriving DecidableEq

/-- An `addBlock` that passed verification and has not yet assigned `lastBlock`. -/
structure Flight where
  block : WireBlock
  phase : Phase

/-- A call of `addBlock` or of `appendBlocks`: what it is at, and the blocks it will add after that. -/
structure Caller where
  flight : Option Flight
  rest : List WireBlock

structure State where
  blockStorage : BlockStorage
  queue : List WireBlock
  /-- The node that `BlockStorageSync` is syncing with. -/
  node : Option Js.Str
  callers : List Caller

inductive Action where
  /-- The RPC `addBlock`. -/
  | addBlock (block : WireBlock)
  | pollForNewBlocks
  | onSendNewBlocksResponse (blocks : List WireBlock)
  | onHasNewBlocksResponse (fromAddress : Js.Str) (hasNewBlocks : Bool)
  /-- A caller calls `addBlock` on its next block. -/
  | call (i : ℕ)
  /-- The pending put of a caller is done. -/
  | put (i : ℕ)
  /-- The transaction pool answers a caller. -/
  | report (i : ℕ) (reported : Except Js.Str Unit)

/-- `uniqBy`: of blocks with one height the first. -/
def uniqByHeight (blocks : List WireBlock) : List WireBlock :=
  blocks.eraseDupsBy fun a b => a.1.header.height == b.1.header.height

def sortByHeight (blocks : List WireBlock) : List WireBlock :=
  blocks.insertionSort fun a b => a.1.header.height ≤ b.1.header.height

/-- The call of `appendBlocks`: it takes the whole queue, the newest block first. -/
def appendBlocks (s : State) : State :=
  { s with queue := [], callers := s.callers ++ [{ flight := none, rest := sortByHeight (uniqByHeight s.queue.reverse) }] }

def setCaller (s : State) (i : ℕ) (c : Caller) : State := { s with callers := s.callers.set i c }

def Flight.written (f : Flight) (db : LevelDB) : LevelDB :=
  let last := db.put LAST_BLOCK_HEIGHT_KEY (heightText f.block.1.header.height)
  match f.phase with
  | .verified => db
  | .wroteLast => last
  | .wroteBlock => putBlock last f.block

section
variable (sha256 : Bytes → Bytes) (config : BlockStorageConfig)

def step (s : State) : Action → Option State
  | .addBlock block =>
    match s.node with
    | some _ => some (appendBlocks { s with queue := s.queue ++ [block] })
    | none => some { s with callers := s.callers ++ [{ flight := none, rest := [block] }] }
  | .pollForNewBlocks => some (appendBlocks { s with node := none })
  | .onSendNewBlocksResponse blocks => some { s with queue := s.queue ++ blocks }
  | .onHasNewBlocksResponse fromAddress hasNewBlocks =>
    if hasNewBlocks then some { s with node := s.node.or (some fromAddress) }
    else some { s with node := if s.node = some fromAddress then none else s.node }
  | .call i =>
    match s.callers[i]? with
    | some { flight := none, rest := block :: rest } =>
      match verifyNewBlock sha256 config s.blockStorage.lastBlock block with
      | .ok () => some (setCaller s i { flight := some { block, phase := .verified }, rest })
      | .error _ => some (setCaller s i { flight := none, rest })
    | _ => none
  | .put i =>
    match s.callers[i]? with
    | some { flight := some { block, phase := .verified }, rest } =>
      let db := s.blockStorage.db.put LAST_BLOCK_HEIGHT_KEY (heightText block.1.header.height)
      some (setCaller { s with blockStorage := { s.blockStorage with db } } i
        { flight := some { block, phase := .wroteLast }, rest })
    | some { flight := some { block, phase := .wroteLast }, rest } =>
      let db := putBlock s.blockStorage.db block
      some (setCaller { s with blockStorage := { s.blockStorage with db } } i
        { flight := some { block, phase := .wroteBlock }, rest })
    | _ => none
  | .report i reported =>
    match s.callers[i]? with
    | some { flight := some { block, phase := .wroteBlock }, rest } =>
      match reported with
      | .ok () => some (setCaller { s with blockStorage := { s.blockStorage with lastBlock := some block.1 } } i
          { flight := none, rest })
      | .error _ => some (setCaller s i { flight := none, rest })
    | _ => none

def start (blockStorage : BlockStorage) : State := { blockStorage, queue := [], node := none, callers := [] }

end

def Quiet (s : State) : Prop := ∀ c ∈ s.callers, c.flight = none

/-- Where the runs stay serial: an `addBlock` passes verification only when no other is in flight, and the transaction
pool refuses no report. -/
def Serial (sha256 : Bytes → Bytes) (config : BlockStorageConfig) (s : State) : Action → Prop
  | .call i => ∀ c block rest, s.callers[i]? = some c → c.rest = block :: rest →
      verifyNewBlock sha256 config s.blockStorage.lastBlock block = .ok () → Quiet s
  | .report _ reported => reported = .ok ()
  | _ => True

def lastHeight (s : State) : ℕ := (s.blockStorage.lastBlock.map fun b => b.header.height).getD 0

/-! ## The invariant of serial runs -/

variable {sha256 : Bytes → Bytes} {config : BlockStorageConfig}

def flightAt (callers : List Caller) (i : ℕ) : Option Flight := callers[i]?.bind Caller.flight

/-- At most one flight, and the database is where it has brought the database of a chain. -/
inductive Inv (sha256 : Bytes → Bytes) (b : BlockStorage) (callers : List Caller) : Prop where
  | quiet (c : BlockChain sha256) (h : Represents b c) (hf : ∀ j, flightAt callers j = none)
  | flying (c : BlockChain sha256) (db : LevelDB) (i : ℕ) (f : Flight) (hdb : Holds db c)
      (hl : b.lastBlock = some c.tip) (hn : (blockView sha256).Next c.tip f.block) (hw : b.db = f.written db)
      (hi : flightAt callers i = some f) (hf : ∀ j, j ≠ i → flightAt callers j = none)

theorem flightAt_eq {callers : List Caller} {i : ℕ} {c : Caller} (h : callers[i]? = some c) :
    flightAt callers i = c.flight := by
  rw [flightAt, h]
  rfl

theorem flightAt_append (callers : List Caller) {c : Caller} (hc : c.flight = none) :
    flightAt (callers ++ [c]) = flightAt callers := by
  funext j
  rcases lt_trichotomy j callers.length with h | rfl | h
  · rw [flightAt, flightAt, List.getElem?_append_left h]
  · rw [flightAt, flightAt, List.getElem?_concat_length, List.getElem?_eq_none (le_refl _)]
    exact hc
  · rw [flightAt, flightAt, List.getElem?_eq_none (by simp; omega), List.getElem?_eq_none (by omega)]

theorem flightAt_set_self {callers : List Caller} {i : ℕ} {c : Caller} (h : callers[i]? = some c) (c' : Caller) :
    flightAt (callers.set i c') i = c'.flight := by
  obtain ⟨hi, -⟩ := List.getElem?_eq_some_iff.1 h
  rw [flightAt, List.getElem?_set_self hi]
  rfl

theorem flightAt_set_ne (callers : List Caller) {i j : ℕ} (h : j ≠ i) (c : Caller) :
    flightAt (callers.set i c) j = flightAt callers j := by
  rw [flightAt, flightAt, List.getElem?_set_ne h.symm]

theorem flightAt_set {callers : List Caller} {i : ℕ} {c c' : Caller} (h : callers[i]? = some c)
    (hc : c'.flight = c.flight) : flightAt (callers.set i c') = flightAt callers := by
  funext j
  rcases eq_or_ne j i with rfl | hj
  · rw [flightAt_set_self h, hc, flightAt_eq h]
  · exact flightAt_set_ne callers hj c'

theorem quiet_iff (s : State) : Quiet s ↔ ∀ j, flightAt s.callers j = none := by
  constructor
  · intro h j
    rw [flightAt]
    cases hj : s.callers[j]? with
    | none => rfl
    | some c => exact h c (List.mem_of_getElem? hj)
  · intro h c hc
    obtain ⟨j, hj⟩ := List.mem_iff_getElem?.1 hc
    rw [← flightAt_eq hj]
    exact h j

namespace Inv

variable {b : BlockStorage} {callers : List Caller} {i : ℕ}

theorem of_flightAt_eq {callers' : List Caller} (h : Inv sha256 b callers) (hf : flightAt callers' = flightAt callers) :
    Inv sha256 b callers' := by
  rcases h with ⟨c, h, hq⟩ | ⟨c, db, i, f, hdb, hl, hn, hw, hi, ho⟩
  · exact .quiet c h (by rwa [hf])
  · exact .flying c db i f hdb hl hn hw (by rwa [hf]) (by rwa [hf])

theorem flying_of (h : Inv sha256 b callers) {f : Flight} (hi : flightAt callers i = some f) :
    ∃ (c : BlockChain sha256) (db : LevelDB), Holds db c ∧ b.lastBlock = some c.tip ∧
      (blockView sha256).Next c.tip f.block ∧ b.db = f.written db ∧ ∀ j, j ≠ i → flightAt callers j = none := by
  rcases h with ⟨c, h, hq⟩ | ⟨c, db, i', f', hdb, hl, hn, hw, hi', ho⟩
  · rw [hq] at hi
    cases hi
  · obtain rfl : i = i' := by
      by_contra hne
      rw [ho i hne] at hi
      cases hi
    rw [hi'] at hi
    cases hi
    exact ⟨c, db, hdb, hl, hn, hw, ho⟩

theorem take_off (h : Inv sha256 b callers) (hq : ∀ j, flightAt callers j = none) {c : Caller}
    (hi : callers[i]? = some c) {block : WireBlock} {rest : List WireBlock}
    (hv : verifyNewBlock sha256 config b.lastBlock block = .ok ()) :
    Inv sha256 b (callers.set i { flight := some { block, phase := .verified }, rest }) := by
  rcases h with ⟨c, h, -⟩ | ⟨c, db, i, f, -, -, -, -, hi, -⟩
  · rw [h.lastBlock, verifyNewBlock_eq_ok] at hv
    refine .flying c b.db i { block, phase := .verified } h.db h.lastBlock hv.2.2 rfl (flightAt_set_self hi _)
      fun j hj => ?_
    rw [flightAt_set_ne _ hj, hq]
  · rw [hq] at hi
    cases hi

theorem advance (h : Inv sha256 b callers) {block : WireBlock} {p p' : Phase} {rest : List WireBlock}
    (hi : callers[i]? = some { flight := some { block, phase := p }, rest }) {db' : LevelDB}
    (hp : ∀ db, b.db = Flight.written ⟨block, p⟩ db → db' = Flight.written ⟨block, p'⟩ db) :
    Inv sha256 { b with db := db' } (callers.set i { flight := some { block, phase := p' }, rest }) := by
  obtain ⟨c, db, hdb, hl, hn, hw, ho⟩ := h.flying_of (flightAt_eq hi)
  refine .flying c db i { block, phase := p' } hdb hl hn (hp db hw) (flightAt_set_self hi _) fun j hj => ?_
  rw [flightAt_set_ne _ hj, ho j hj]

theorem land (h : Inv sha256 b callers) {block : WireBlock} {rest : List WireBlock}
    (hi : callers[i]? = some { flight := some { block, phase := .wroteBlock }, rest }) :
    Inv sha256 { b with lastBlock := some block.1 } (callers.set i { flight := none, rest }) := by
  obtain ⟨c, db, hdb, hl, hn, hw, ho⟩ := h.flying_of (flightAt_eq hi)
  have hpush := hdb.push block.2 hn
  refine .quiet (c.push block.1 hn) ⟨by rw [Chain.tip_push], ?_⟩ fun j => ?_
  · change Holds b.db _
    rw [hw]
    exact hpush
  · rcases eq_or_ne j i with rfl | hj
    · exact flightAt_set_self hi _
    · rw [flightAt_set_ne _ hj, ho j hj]

theorem land_height (h : Inv sha256 b callers) {block : WireBlock} {rest : List WireBlock}
    (hi : callers[i]? = some { flight := some { block, phase := .wroteBlock }, rest }) :
    ∃ last, b.lastBlock = some last ∧ block.1.header.height = last.header.height + 1 := by
  obtain ⟨c, db, -, hl, hn, -, -⟩ := h.flying_of (flightAt_eq hi)
  exact ⟨c.tip, hl, hn.1⟩

end Inv

def State.Inv (sha256 : Bytes → Bytes) (s : State) : Prop := BlockStorageService.Inv sha256 s.blockStorage s.callers

/-- **What one serial step does**: it keeps the invariant, and the last block only moves up. -/
theorem step_inv {s s' : State} {a : Action} (hs : s.Inv sha256) (hg : Serial sha256 config s a)
    (h : step sha256 config s a = some s') : s'.Inv sha256 ∧ lastHeight s ≤ lastHeight s' := by
  cases a with
  | addBlock block =>
    rw [step] at h
    split at h <;> cases h
    · exact ⟨hs.of_flightAt_eq (flightAt_append _ rfl), le_rfl⟩
    · exact ⟨hs.of_flightAt_eq (flightAt_append _ rfl), le_rfl⟩
  | pollForNewBlocks =>
    cases h
    exact ⟨hs.of_flightAt_eq (flightAt_append _ rfl), le_rfl⟩
  | onSendNewBlocksResponse blocks =>
    cases h
    exact ⟨hs, le_rfl⟩
  | onHasNewBlocksResponse fromAddress hasNewBlocks =>
    rw [step] at h
    split at h <;> cases h <;> exact ⟨hs, le_rfl⟩
  | call i =>
    rw [step] at h
    split at h
    case h_2 => cases h
    rename_i block rest hi
    split at h <;> cases h
    · rename_i u hv
      have hq := (quiet_iff s).1 (hg _ block rest hi rfl hv)
      exact ⟨hs.take_off hq hi hv, le_rfl⟩
    · exact ⟨hs.of_flightAt_eq (flightAt_set hi rfl), le_rfl⟩
  | put i =>
    rw [step] at h
    split at h
    · rename_i block rest hi
      cases h
      exact ⟨hs.advance hi fun db hw => by rw [hw]; rfl, le_rfl⟩
    · rename_i block rest hi
      cases h
      exact ⟨hs.advance hi fun db hw => by rw [hw]; rfl, le_rfl⟩
    · cases h
  | report i reported =>
    cases hg
    rw [step] at h
    split at h
    case h_2 => cases h
    rename_i block rest hi
    cases h
    obtain ⟨last, hl, hh⟩ := hs.land_height hi
    refine ⟨hs.land hi, ?_⟩
    rw [lastHeight, lastHeight, hl]
    change last.header.height ≤ block.1.header.height
    omega

theorem inv_start {b : BlockStorage} {c : BlockChain sha256} (h : Represents b c) : (start b).Inv sha256 :=
  .quiet c h fun _ => rfl

/-- **Serial `addBlock`s keep the chain sound**: in a run from a loaded storage in which an `addBlock` passes
verification only while no other is in flight and no report fails, the last block never moves down, and whenever no
`addBlock` is in flight the database holds exactly the chain of the last block. -/
theorem serial_sound {b : BlockStorage} {c : BlockChain sha256} (hb : Represents b c) (as bs : List Action)
    (hg : Lts.Meets (step sha256 config) (Serial sha256 config) (start b) (as ++ bs)) {s s' : State}
    (hs : Lts.run (step sha256 config) (start b) as = some s) (hs' : Lts.run (step sha256 config) s bs = some s') :
    lastHeight s ≤ lastHeight s' ∧
      (Quiet s' → ∃ last, Persisted sha256 config s'.blockStorage last) := by
  obtain ⟨hg, hg'⟩ := Lts.meets_append hg hs
  have hi : s.Inv sha256 := Lts.run_inv (fun _ _ _ hi hg h => (step_inv hi hg h).1) (inv_start hb) hg hs
  have hi' : s'.Inv sha256 := Lts.run_inv (fun _ _ _ hi hg h => (step_inv hi hg h).1) hi hg' hs'
  refine ⟨?_, fun hq => ?_⟩
  · exact Lts.run_rel (R := fun s s' => lastHeight s ≤ lastHeight s') (fun _ => le_rfl) le_trans
      (fun _ _ _ hi hg h => (step_inv hi hg h).1) (fun _ _ _ hi hg h => (step_inv hi hg h).2) hi hg' hs'
  · rcases hi' with ⟨c, h, -⟩ | ⟨c, db, i, f, -, -, -, -, hf, -⟩
    · exact ⟨c.tip, h.persisted⟩
    · rw [(quiet_iff s').1 hq] at hf
      cases hf

/-! ## Runs on the genesis storage -/

def fresh : State := start (load Sha256.hash (opened .empty)).2

def allLanded (s : State) : Bool := s.callers.all fun c => c.flight.isNone

def lastStored (s : State) : Bool :=
  match s.blockStorage.lastBlock with
  | some last => decide (s.blockStorage.db (heightText last.header.height) = some (blockText last))
  | none => false

theorem quiet_of_allLanded {s : State} (h : allLanded s = true) : Quiet s := fun c hc =>
  Option.isNone_iff_eq_none.1 (List.all_eq_true.1 h c hc)

def serial (s : State) : Action → Bool
  | .call _ => allLanded s
  | .report _ (.error _) => false
  | _ => true

theorem serial_of_check {s : State} {a : Action} (h : serial s a = true) : Serial Sha256.hash .unsigned s a := by
  cases a with
  | call i => exact fun _ _ _ _ _ _ => quiet_of_allLanded h
  | report i reported =>
    cases reported with
    | error e => cases h
    | ok u => rfl
  | _ => trivial

/-- Two overlapping `addBlock`s of which the second passes verification when the first has landed. -/
def twoBlocks : List Action :=
  [.addBlock (firstBlock []), .call 0, .put 0, .addBlock secondBlock, .put 0,
    .report 0 (.ok ()), .call 1, .put 1, .put 1, .report 1 (.ok ())]

theorem run_twoBlocks : ((Lts.run (Lts.guarded (step Sha256.hash .unsigned) serial) fresh twoBlocks).map
    fun s => (allLanded s, lastHeight s)) = some (true, 2) := by
  decide +kernel

theorem serial_sound_twoBlocks : ∃ s, Lts.run (step Sha256.hash .unsigned) fresh twoBlocks = some s ∧
    lastHeight s = 2 ∧ ∃ last, Persisted Sha256.hash .unsigned s.blockStorage last := by
  obtain ⟨s, hs, hq⟩ := Option.map_eq_some_iff.1 run_twoBlocks
  obtain ⟨hq, hh⟩ := Prod.mk.inj hq
  obtain ⟨hrun, hg⟩ := Lts.of_guarded (fun _ _ => serial_of_check) hs
  obtain ⟨-, hp⟩ := serial_sound (load_empty _).2 [] twoBlocks hg rfl hrun
  exact ⟨s, hrun, hh, hp (quiet_of_allLanded hq)⟩

/-- Two sibling blocks whose flights overlap: the second is stored last, the first lands last. -/
def siblings : List Action :=
  [.addBlock (firstBlock []), .call 0, .addBlock (firstBlock [1]), .call 1, .put 0, .put 0, .put 1, .put 1,
    .report 1 (.ok ()), .report 0 (.ok ())]

theorem run_siblings : ((Lts.run (step Sha256.hash .unsigned) fresh siblings).map
    fun s => (allLanded s, lastStored s)) = some (true, false) := by
  decide +kernel

/-- **Overlapping `addBlock`s break the chain**: after both siblings have landed the last block is not the stored one. -/
theorem siblings_break_chain : ∃ s, Lts.run (step Sha256.hash .unsigned) fresh siblings = some s ∧ Quiet s ∧
    ¬ ∃ last, Persisted Sha256.hash .unsigned s.blockStorage last := by
  obtain ⟨s, hs, hq⟩ := Option.map_eq_some_iff.1 run_siblings
  refine ⟨s, hs, quiet_of_allLanded (Prod.mk.inj hq).1, ?_⟩
  rintro ⟨last, hp⟩
  obtain ⟨b, hb, hget, -⟩ := hp.stored last.header.height le_rfl
  rw [hp.lastStored] at hget
  cases hget
  have hst := (Prod.mk.inj hq).2
  rw [lastStored, hp.lastBlock] at hst
  simp only [hb, decide_true, Bool.true_eq_false] at hst

end BlockStorageService
end Orbs
