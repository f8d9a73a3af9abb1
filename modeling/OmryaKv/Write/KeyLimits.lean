import OmryaKv.Journal.Lengths
import OmryaKv.Write.SingleWrite

set_option autoImplicit false

namespace OmryaKv.Write

open Journal Snapshot

inductive KeyCall where
  | insert (ks : Keyspace) (key : UserKey) (value : UserValue)
  | remove (ks : Keyspace) (key : UserKey)
  | removeWeak (ks : Keyspace) (key : UserKey)
deriving DecidableEq

namespace KeyCall

def toSingle : KeyCall → SingleCall
  | insert ks key value => .insert ks key value
  | remove ks key => .remove ks key
  | removeWeak ks key => .removeWeak ks key

def keyspace (call : KeyCall) : Keyspace := call.toSingle.keyspace

def item : KeyCall → BatchItem
  | insert ks key value => ⟨ks.id, key, value, .value⟩
  | remove ks key => ⟨ks.id, key, .empty, .tombstone⟩
  | removeWeak ks key => ⟨ks.id, key, .empty, .weakTombstone⟩

def treeOp (seqno : UInt64) : KeyCall → TreeOp
  | insert ks key value => .insert ks.id key value seqno
  | remove ks key => .remove ks.id key seqno
  | removeWeak ks key => .remove ks.id key seqno

-- The memtable of lsm-tree asserts that a key is short enough. The journal has
-- its record by then, and the panic ends the call.
def run (deps : Dependencies) (panics : UserKey → Bool) (call : KeyCall) : DatabaseM Unit := do
  if call.keyspace.isDeleted then
    throw .keyspaceDeleted
  writeJournaled call.keyspace (writeRaw deps call.item.keyspaceId call.item.key call.item.value call.item.valueType)
    fun seqno => if panics call.item.key then throw .unreachable else applyOp (call.treeOp seqno)

theorem run_without_panic (deps : Dependencies) (call : KeyCall) : call.run deps (fun _ => false) = call.toSingle.run deps := by
  cases call <;> rfl

def after (deps : Dependencies) (panics : UserKey → Bool) (call : KeyCall) (db : Database) : Database :=
  match (call.run deps panics).run db with
  | .ok _ after => after
  | .error _ after => after

def Refused (call : KeyCall) (db : Database) : Prop := call.keyspace.isDeleted = true ∨ db.isPoisoned = true

-- What the call appends to the journal is nothing, or the one batch it stands for.
def KeepsJournal (deps : Dependencies) (panics : UserKey → Bool) (call : KeyCall) (db : Database) : Prop :=
  ∃ appended, (call.after deps panics db).writer.file = db.writer.file ++ appended ∧
    (appended = [] ∨ Intact deps appended (itemBatch db.seqno call.item))

def entry (call : KeyCall) (db : Database) : Entry :=
  itemEntry db.writer.compression db.writer.compressionThreshold call.item

-- The key survives the cast to 16 bits and the stored value the one to 32.
def Fits (deps : Dependencies) (call : KeyCall) (db : Database) : Prop := (call.entry db).Fits deps

end KeyCall

variable (deps : Dependencies) (panics : UserKey → Bool)
variable (call : KeyCall)

theorem refused_changes_nothing (db : Database) (refused : call.Refused db) : call.after deps panics db = db := by
  rw [KeyCall.after, KeyCall.run]
  by_cases deleted : call.keyspace.isDeleted = true
  · rw [if_pos deleted]
    rfl
  · rw [if_neg deleted, writeJournaled, EStateM.run_bind, check_poisoned_refuses db (refused.resolve_left deleted)]

theorem accepted_appends (db : Database) (accepted : ¬ call.Refused db) : ∃ written, (call.after deps panics db).writer.file =
        db.writer.file ++ encodeAll deps ((frame deps db.seqno [call.entry db]).take written) ∧
      (written < 3 → ∃ faults, db.writer.faults = List.replicate written false ++ true :: faults) ∧
      (3 ≤ written → true ∉ db.writer.faults.take 3) := by
  obtain ⟨kept, healthy⟩ := not_or.mp accepted
  have outcome := @write_raw_outcome deps _ _ call.item db.seqno db.writer ⟨rfl, rfl⟩
  have effect := write_journaled_effect deps call.keyspace _
    (fun seqno => if panics call.item.key then throw .unreachable else applyOp (call.treeOp seqno)) (panics call.item.key)
    .unreachable (call.treeOp db.seqno) db rfl (Bool.eq_false_iff.mpr healthy) _ rfl _ outcome
  rw [KeyCall.after, KeyCall.run, if_neg kept]
  rcases effect with ⟨after, written, ended, short, fault, journaled⟩ | ⟨quiet, after, journaled, ended⟩
  · exact ⟨written, by rw [ended]; exact journaled.file, fun _ => ⟨_, fault⟩, fun long => absurd short (by omega)⟩
  · refine ⟨3, ?_, fun short => absurd short (Nat.lt_irrefl 3), fun _ => quiet⟩
    have whole : (frame deps db.seqno [call.entry db]).take 3 = frame deps db.seqno [call.entry db] := rfl
    rw [whole]
    rcases ended with ⟨_, _, ended⟩ | ⟨_, e, ended⟩
    · rw [ended]
      exact journaled.file
    · rw [ended]
      exact journaled.file

theorem part_of_fault (written : Nat) (script faults : List Bool) (short : written < 3)
    (split : script = List.replicate written false ++ true :: faults) :
    true ∈ script.take 3 ∧ (script.head? = some true ↔ written = 0) := by
  subst split
  match written with
  | 0 => simp
  | 1 => simp
  | 2 => simp
  | more + 3 => omega

theorem entries_written (db : Database) (written : Nat)
    (nothing : encodeAll deps ((frame deps db.seqno [call.entry db]).take written) = []) : written = 0 := by
  cases written with
  | zero => rfl
  | succ written => cases nothing

theorem appended_kept_iff (db : Database) (written : Nat) :
    (encodeAll deps ((frame deps db.seqno [call.entry db]).take written) = [] ∨
      Intact deps (encodeAll deps ((frame deps db.seqno [call.entry db]).take written)) (itemBatch db.seqno call.item)) ↔
      written = 0 ∨ (3 ≤ written ∧ call.Fits deps db) := by
  rw [intact_iff]
  by_cases short : written < 3
  · have part := @item_part_holds_not deps db.seqno call.item db.writer.compression db.writer.compressionThreshold
      written short
    refine ⟨fun kept => .inl (entries_written deps call db written (kept.resolve_right part)), fun kept => .inl ?_⟩
    have none : written = 0 := kept.resolve_right fun whole => absurd whole.1 (by omega)
    rw [none]
    rfl
  · have long : 3 ≤ written := Nat.le_of_not_lt short
    have whole : (frame deps db.seqno [call.entry db]).take written = frame deps db.seqno [call.entry db] :=
      List.take_of_length_le long
    rw [whole]
    have holds := @item_frame_holds_iff deps db.seqno call.item db.writer.compression db.writer.compressionThreshold
    refine ⟨fun kept => .inr ⟨long, holds.mp (kept.resolve_left ?_)⟩, fun fits => .inr (holds.mpr ?_)⟩
    · exact fun nothing => nomatch nothing
    · exact (fits.resolve_left (by omega)).2

theorem accepted_keeps_iff (db : Database) (accepted : ¬ call.Refused db) :
    ∃ written, (call.KeepsJournal deps panics db ↔ written = 0 ∨ (3 ≤ written ∧ call.Fits deps db)) ∧
      (written < 3 → ∃ faults, db.writer.faults = List.replicate written false ++ true :: faults) ∧
      (3 ≤ written → true ∉ db.writer.faults.take 3) := by
  obtain ⟨written, file, script⟩ := accepted_appends deps panics call db accepted
  refine ⟨written, ?_, script⟩
  rw [← appended_kept_iff, KeyCall.KeepsJournal, file]
  refine ⟨fun ⟨bytes, same, kept⟩ => ?_, fun kept => ⟨_, rfl, kept⟩⟩
  rw [List.append_cancel_left same]
  exact kept

theorem key_write_keeps_journal_iff (call : KeyCall) (db : Database) :
    call.KeepsJournal deps panics db ↔
      call.Refused db ∨ db.writer.faults.head? = some true ∨ (true ∉ db.writer.faults.take 3 ∧ call.Fits deps db) := by
  by_cases refused : call.Refused db
  · refine ⟨fun _ => .inl refused, fun _ => ⟨[], ?_, .inl rfl⟩⟩
    rw [refused_changes_nothing deps panics call db refused, List.append_nil]
  · obtain ⟨written, kept, part, whole⟩ := accepted_keeps_iff deps panics call db refused
    rw [kept]
    by_cases short : written < 3
    · obtain ⟨faults, script⟩ := part short
      obtain ⟨fails, first⟩ := part_of_fault written _ faults short script
      simp [refused, first, fails, short]
    · have long : 3 ≤ written := Nat.le_of_not_lt short
      have quiet := whole long
      have some : written ≠ 0 := by omega
      have first : ¬ db.writer.faults.head? = Option.some true := by
        intro head
        apply quiet
        cases script : db.writer.faults with
        | nil => simp [script] at head
        | cons fault faults =>
          rw [script] at head
          cases head
          exact List.mem_cons_self
      simp [refused, first, quiet, some, long]

def idleDatabase : Database := ⟨.new [] .none 0, 0, false, .new 0, []⟩

theorem key_of_65536_breaks_journal :
    ¬ (KeyCall.insert ⟨1, false, false⟩ (List.replicate 65536 0) .empty).KeepsJournal Dependencies.sample
      (fun key => decide (65535 < key.length)) idleDatabase := by
  intro kept
  have accepted : ¬ (KeyCall.insert ⟨1, false, false⟩ (List.replicate 65536 0) .empty).Refused idleDatabase := fun refused => by
    cases refused with
    | inl deleted => cases deleted
    | inr poisoned => cases poisoned
  obtain ⟨written, iff, part, _⟩ := accepted_keeps_iff _ _ _ _ accepted
  have long : 3 ≤ written := by
    by_contra short
    obtain ⟨faults, script⟩ := part (Nat.lt_of_not_le short)
    exact absurd script.symm (List.append_ne_nil_of_right_ne_nil _ (List.cons_ne_nil _ _))
  obtain ⟨_, fits⟩ := (iff.mp kept).resolve_left (by omega)
  have limit : (List.replicate 65536 (0 : Byte)).length < 2 ^ 16 := fits.1
  rw [List.length_replicate] at limit
  exact absurd limit (by decide)

end OmryaKv.Write
