import OrbsNetwork.PersistedChain
import OrbsNetwork.Lib.Lts
/-!
# BlockStorageFailures — when adding a block fails half way

`addBlock` writes the height of the block under `last`, then the block, then reports it to the transaction pool, and
only then changes its `lastBlock`.  Each of the three can be rejected, and nothing that was written before is taken back.
So a rejected `addBlock` leaves the storage as it was, and a restart finds it so, exactly when nothing fails after
`last` is written (`allOrNothing_iff`).
-/
namespace Orbs
namespace BlockStorage

open Js HashChain

/-- The answers of the database to the two writes and of the transaction pool to the report. -/
structure Answers where
  last : Except Str Unit
  block : Except Str Unit
  report : Except Str Unit

section
variable (sha256 : Bytes → Bytes) (config : BlockStorageConfig)

/-- `addBlock` when nothing else runs meanwhile.  A write that is rejected writes nothing. -/
def addBlockAnswered (answers : Answers) (block : Block) (s : BlockStorage) : Except Str Unit × BlockStorage :=
  match verifyNewBlock sha256 config s.lastBlock block with
  | .error e => (.error e, s)
  | .ok () =>
    match answers.last with
    | .error e => (.error e, s)
    | .ok () =>
      let db := s.db.put LAST_BLOCK_HEIGHT_KEY (heightText block.header.height)
      match answers.block with
      | .error e => (.error e, { s with db })
      | .ok () =>
        let db := putBlock db block
        match answers.report with
        | .error e => (.error e, { s with db })
        | .ok () => (.ok (), { lastBlock := some block, db })

/-- What happens to a block storage: a call of `addBlock`, or a restart on the same database. -/
inductive Event where
  | addBlock (block : WireBlock) (answers : Answers)
  | restart

def transition (s : BlockStorage) : Event → Option BlockStorage
  | .addBlock block answers => some (addBlockAnswered sha256 config answers block.1 s).2
  | .restart =>
    match load sha256 (opened s.db) with
    | (.ok (), s') => some s'
    | (.error _, _) => none

/-- A call that rejects leaves `lastBlock`, and `load` on the database it leaves finds that block. -/
def AllOrNothing (s : BlockStorage) : Event → Prop
  | .addBlock block answers =>
    match addBlockAnswered sha256 config answers block.1 s with
    | (.ok (), _) => True
    | (.error _, s') => s'.lastBlock = s.lastBlock ∧ (load sha256 (opened s'.db)).1 = .ok () ∧
        (load sha256 (opened s'.db)).2.lastBlock = s.lastBlock
  | .restart => True

def Uninterrupted (s : BlockStorage) : Event → Prop
  | .addBlock block answers => verifyNewBlock sha256 config s.lastBlock block.1 = .ok () → answers.last = .ok () →
      answers.block = .ok () ∧ answers.report = .ok ()
  | .restart => True

end

variable {sha256 : Bytes → Bytes} {config : BlockStorageConfig} {s : BlockStorage} {c : BlockChain sha256}

theorem addBlockAnswered_written (report : Except Str Unit) (block : Block) (s : BlockStorage) :
    addBlockAnswered sha256 config { last := .ok (), block := .ok (), report } block s =
      addBlock sha256 config report block s := rfl

theorem Holds.fresh {db : LevelDB} (h : Holds db c) {b : Block} (hn : (blockView sha256).Next c.tip b) :
    db (heightText b.header.height) = none := by
  rw [height_of_next hn, h.block, List.getElem?_eq_none le_rfl]
  rfl

/-- **With only `last` written, `load` fails.** -/
theorem load_of_last {db : LevelDB} (h : Holds db c) {b : Block} (hn : (blockView sha256).Next c.tip b) :
    (load sha256 (opened (db.put LAST_BLOCK_HEIGHT_KEY (heightText b.header.height)))).1 ≠ .ok () := by
  have hnone : (db.put LAST_BLOCK_HEIGHT_KEY (heightText b.header.height)) (heightText b.header.height) = none := by
    rw [LevelDB.put_ne _ _ (heightText_ne_last _), h.fresh hn]
  simp only [load, lastOrGenesis, opened, LevelDB.put_same, readBlock, LevelDB.get, hnone]
  intro h
  cases h

/-- **With both writes done, `load` finds the new block.** -/
theorem load_of_written {db : LevelDB} (h : Holds db c) {b : Block} (hb : b.Typed)
    (hn : (blockView sha256).Next c.tip b) :
    (load sha256 (opened (putBlock (db.put LAST_BLOCK_HEIGHT_KEY (heightText b.header.height)) b))).2.lastBlock
      = some b := by
  rw [(h.push hb hn).load_eq, Chain.tip_push]

theorem tip_ne_of_next {b : Block} (hn : (blockView sha256).Next c.tip b) : some b ≠ some c.tip := by
  intro he
  cases he
  exact absurd hn.1 (Nat.lt_succ_self _).ne

theorem allOrNothing_iff_uninterrupted (h : Represents s c) (event : Event) :
    AllOrNothing sha256 config s event ↔ Uninterrupted sha256 config s event := by
  cases event with
  | restart => exact Iff.rfl
  | addBlock block answers =>
    obtain ⟨b, hb⟩ := block
    obtain ⟨last, written, report⟩ := answers
    have hquiet : s.lastBlock = s.lastBlock ∧ (load sha256 (opened s.db)).1 = .ok () ∧
        (load sha256 (opened s.db)).2.lastBlock = s.lastBlock := by
      rw [h.db.load_eq, h.lastBlock]
      exact ⟨rfl, rfl, rfl⟩
    unfold AllOrNothing Uninterrupted addBlockAnswered
    dsimp only
    cases hv : verifyNewBlock sha256 config s.lastBlock b with
    | error e => exact ⟨fun _ => nofun, fun _ => hquiet⟩
    | ok u =>
      have hn : (blockView sha256).Next c.tip b := by
        rw [h.lastBlock] at hv
        exact (verifyNewBlock_eq_ok.1 hv).2.2
      cases last with
      | error e => exact ⟨fun _ _ => nofun, fun _ => hquiet⟩
      | ok u =>
        cases written with
        | error e => exact ⟨fun ha => absurd ha.2.1 (load_of_last h.db hn), fun hu => nomatch (hu rfl rfl).1⟩
        | ok u =>
          cases report with
          | error e =>
            refine ⟨fun ha => absurd ha.2.2 ?_, fun hu => nomatch (hu rfl rfl).2⟩
            dsimp only
            rw [load_of_written h.db hb hn, h.lastBlock]
            exact tip_ne_of_next hn
          | ok u => exact ⟨fun _ _ _ => ⟨rfl, rfl⟩, fun _ => trivial⟩

def Quiet (sha256 : Bytes → Bytes) (s : BlockStorage) : Prop := ∃ c : BlockChain sha256, Represents s c

theorem quiet_transition {s' : BlockStorage} {event : Event} (h : Quiet sha256 s)
    (hu : Uninterrupted sha256 config s event) (ht : transition sha256 config s event = some s') : Quiet sha256 s' := by
  obtain ⟨c, hc⟩ := h
  cases event with
  | restart =>
    unfold transition at ht
    rw [hc.db.load_eq] at ht
    cases ht
    exact ⟨c, rfl, hc.db⟩
  | addBlock block answers =>
    obtain ⟨last, written, report⟩ := answers
    cases ht
    unfold Uninterrupted at hu
    dsimp only at hu ⊢
    cases hv : verifyNewBlock sha256 config s.lastBlock block.1 with
    | error e =>
      unfold addBlockAnswered
      rw [hv]
      exact ⟨c, hc⟩
    | ok u =>
      cases last with
      | error e =>
        unfold addBlockAnswered
        rw [hv]
        exact ⟨c, hc⟩
      | ok u =>
        obtain ⟨rfl, rfl⟩ := hu hv rfl
        rw [addBlockAnswered_written]
        rcases addBlock_spec config hc block with ⟨d, -, -, hd⟩ | ⟨-, e, he⟩
        · exact ⟨d, hd⟩
        · rw [he]
          exact ⟨c, hc⟩

/-- **Every call of a run is all or nothing exactly when every call is uninterrupted.**  The run starts from an empty
database. -/
theorem allOrNothing_iff (sha256 : Bytes → Bytes) (config : BlockStorageConfig) (events : List Event) :
    Lts.Meets (transition sha256 config) (AllOrNothing sha256 config) (load sha256 (opened .empty)).2 events ↔
      Lts.Meets (transition sha256 config) (Uninterrupted sha256 config) (load sha256 (opened .empty)).2 events := by
  have hstart : Quiet sha256 (load sha256 (opened .empty)).2 := ⟨_, (load_empty sha256).2⟩
  have hiff : ∀ s event, Quiet sha256 s →
      (AllOrNothing sha256 config s event ↔ Uninterrupted sha256 config s event) :=
    fun s event hq => hq.elim fun c hc => allOrNothing_iff_uninterrupted hc event
  exact Lts.meets_congr_of_inv (fun s event s' hq => quiet_transition hq) hiff hstart

theorem verifyNewBlock_firstBlock :
    verifyNewBlock Sha256.hash .unsigned (some (generateGenesisBlock Sha256.hash)) (firstBlock []).1 = .ok () := by
  rw [verifyNewBlock_eq_ok]
  exact ⟨rfl, rfl, rfl, rfl⟩

/-- **The write of the first block fails, and no restart loads the chain again.** -/
theorem firstBlock_interrupted :
    ¬ Lts.Meets (transition Sha256.hash .unsigned) (AllOrNothing Sha256.hash .unsigned)
      (load Sha256.hash (opened .empty)).2
      [.addBlock (firstBlock []) { last := .ok (), block := .error "IO error".toList, report := .ok () }] := by
  have hr := (load_empty Sha256.hash).2
  rw [Lts.Meets, allOrNothing_iff_uninterrupted hr, Uninterrupted, hr.lastBlock]
  intro h
  have hwrite := (h.1 verifyNewBlock_firstBlock rfl).1
  dsimp only at hwrite
  cases hwrite

end BlockStorage
end Orbs
