import OmryaKv.Storage.Catalog
import OmryaKv.Storage.Effects

set_option autoImplicit false

namespace OmryaKv.Storage

open Lib

variable {Name K V : Type} [DecidableEq Name]

-- What is said of every entry of every keyspace.
def Database.AllEntries (db : Database Name K V) (fits : Keyspace → Entry K V → Prop) : Prop :=
  ∀ ks, db.Live ks → ∀ entry ∈ (db.trees ks.id).all, fits ks entry

theorem entries_update (db : Database Name K V) (cataloged : Cataloged db) (fits : Keyspace → Entry K V → Prop) (ks : Keyspace)
    (live : db.Live ks) (t : Tree K V) (fitting : ∀ entry ∈ t.all, fits ks entry) (entries : db.AllEntries fits)
    (trees : Trees K V) (updated : trees = Function.update db.trees ks.id t) :
    ∀ other, db.Live other → ∀ entry ∈ (trees other.id).all, fits other entry := by
  subst updated
  intro other otherLive entry member
  by_cases here : other.id = ks.id
  · have same := live_id_unique db cataloged other ks otherLive live here
    subst same
    rw [Function.update_self] at member
    exact fitting entry member
  · rw [Function.update_of_ne here] at member
    exact entries other otherLive entry member

-- The database while recovery refills it: the catalog stays, and so does what
-- the tables and the records that are applied have in common.
structure Refilled (fits : Keyspace → Entry K V → Prop) (base : Database Name K V) (journals : List (List (Batch K V)))
    (db : Database Name K V) : Prop where
  frame : db = { base with seqno := db.seqno, trees := db.trees, sealedJournals := db.sealedJournals }
  sealed : ∀ journal ∈ db.sealedJournals, journal.batches ∈ journals
  entries : ∀ ks, base.Live ks → ∀ entry ∈ (db.trees ks.id).all, fits ks entry

omit [DecidableEq Name] in
theorem apply_item_put (seqno : Nat) (item : Item K V) (t next : Tree K V) (applied : applyItem seqno item t = .ok next) :
    next = t.put (item.entry seqno) := by
  have intact : item.payload ≠ .indirection := by
    intro payload
    rw [applyItem, payload] at applied
    cases applied
  rw [apply_item_intact seqno item intact] at applied
  exact (Except.ok.inj applied).symm

section Refill

variable (fits : Keyspace → Entry K V → Prop) (base : Database Name K V) (cataloged : Cataloged base)
  (journals : List (List (Batch K V)))

def Batch.Fits (batch : Batch K V) : Prop :=
  ∀ item ∈ batch.items, ∀ ks, base.resolve item.keyspaceId = some ks → fits ks (item.entry batch.seqno)

theorem refilled_resolve (db : Database Name K V) (refilled : Refilled fits base journals db) : db.resolve = base.resolve := by
  rw [refilled.frame]
  rfl

include cataloged

theorem refilled_trees (db : Database Name K V) (refilled : Refilled fits base journals db) (ks : Keyspace) (live : base.Live ks)
    (t : Tree K V) (seqno : Nat) (fitting : ∀ entry ∈ t.all, fits ks entry) :
    Refilled fits base journals { db with trees := Function.update db.trees ks.id t, seqno := seqno } := by
  refine ⟨?_, refilled.sealed, ?_⟩
  · rw [refilled.frame]
  · exact entries_update { base with trees := db.trees } (cataloged_of_same base _ cataloged rfl rfl rfl rfl) fits ks live t fitting
      refilled.entries _ rfl

theorem refilled_item (db next : Database Name K V) (refilled : Refilled fits base journals db) (batch : Batch K V)
    (fitting : batch.Fits fits base) (item : Item K V) (member : item ∈ batch.items)
    (replayed : db.replayItem batch.seqno item = .ok next) : Refilled fits base journals next := by
  rw [Database.replayItem, refilled_resolve fits base journals db refilled] at replayed
  cases target : base.resolve item.keyspaceId with
  | none =>
    rw [target] at replayed
    cases replayed
    exact refilled
  | some ks =>
    rw [target] at replayed
    have same := resolve_id base cataloged _ ks target
    have live : base.Live ks := (resolve_live base cataloged ks).mp (same ▸ target)
    obtain ⟨trees, applied, done⟩ := except_bind_ok _ _ _ replayed
    obtain ⟨t, put, updated⟩ := except_bind_ok _ _ _ applied
    cases updated
    cases done
    rw [apply_item_put _ _ _ _ put]
    apply refilled_trees fits base cataloged journals db refilled ks live
    intro entry stored
    rcases List.mem_cons.mp stored with rfl | old
    · exact fitting item member ks target
    · exact refilled.entries ks live entry old

theorem refilled_clear (db : Database Name K V) (refilled : Refilled fits base journals db) (mark : ClearMark) :
    Refilled fits base journals (db.replayClear mark) := by
  rw [Database.replayClear, refilled_resolve fits base journals db refilled]
  cases target : base.resolve mark.keyspaceId with
  | none => exact refilled
  | some ks =>
    have same := resolve_id base cataloged _ ks target
    have live : base.Live ks := (resolve_live base cataloged ks).mp (same ▸ target)
    apply refilled_trees fits base cataloged journals db refilled ks live _ db.seqno
    intro entry stored
    simp [Tree.clear, Tree.empty, Tree.all, Tree.memtables] at stored

theorem refilled_clears (db : Database Name K V) (refilled : Refilled fits base journals db) (marks : List ClearMark) :
    Refilled fits base journals (marks.foldl Database.replayClear db) := by
  induction marks generalizing db with
  | nil => exact refilled
  | cons mark rest ih => exact ih _ (refilled_clear fits base cataloged journals db refilled mark)

theorem refilled_batch (db next : Database Name K V) (refilled : Refilled fits base journals db) (batch : Batch K V)
    (fitting : batch.Fits fits base) (replayed : db.replayBatch batch = .ok next) : Refilled fits base journals next := by
  obtain ⟨middle, items, cleared⟩ := except_bind_ok _ _ _ replayed
  cases cleared
  apply refilled_clears fits base cataloged journals
  apply fold_ok_invariant _ (Refilled fits base journals) batch.items _ db middle items refilled
  intro acc item member next accRefilled stepped
  exact refilled_item fits base cataloged journals acc next accRefilled batch fitting item member stepped

theorem refilled_sealed_batch (acc next : Database Name K V × List (Nat × Nat)) (refilled : Refilled fits base journals acc.1)
    (batch : Batch K V) (fitting : batch.Fits fits base) (replayed : Database.replaySealedBatch acc batch = .ok next) :
    Refilled fits base journals next.1 := by
  obtain ⟨middle, items, cleared⟩ := except_bind_ok _ _ _ replayed
  have itemsRefilled : Refilled fits base journals middle.1 := by
    apply fold_ok_invariant _ (fun acc => Refilled fits base journals acc.1) batch.items _ acc middle items refilled
    intro acc item member next accRefilled stepped
    obtain ⟨db, applied, done⟩ := except_bind_ok _ _ _ stepped
    cases done
    exact refilled_item fits base cataloged journals acc.1 db accRefilled batch fitting item member applied
  cases cleared
  clear items replayed
  induction batch.clearedKeyspaces generalizing middle with
  | nil => exact itemsRefilled
  | cons mark rest ih => exact ih _ (refilled_clear fits base cataloged journals middle.1 itemsRefilled mark)

omit cataloged in
theorem refilled_shrunk (db : Database Name K V) (refilled : Refilled fits base journals db) (id seqno : Nat) (t : Tree K V)
    (fewer : ∀ entry ∈ t.all, entry ∈ (db.trees id).all) :
    Refilled fits base journals { db with trees := Function.update db.trees id t, seqno := seqno } := by
  refine ⟨?_, refilled.sealed, ?_⟩
  · rw [refilled.frame]
  · intro ks live entry member
    apply refilled.entries ks live entry
    by_cases here : ks.id = id
    · subst here
      simp only [Function.update_self] at member
      exact fewer entry member
    · simpa only [Function.update_of_ne here] using member

omit cataloged in
theorem refilled_seal (db next : Database Name K V) (refilled : Refilled fits base journals db) (watermark : Nat × Nat)
    (sealed : db.sealRecovered watermark = .ok next) : Refilled fits base journals next := by
  unfold Database.sealRecovered at sealed
  dsimp only at sealed
  split at sealed
  · cases sealed
    apply refilled_shrunk fits base journals db refilled watermark.1 db.seqno
    intro entry member
    simp only [Tree.clearActiveMemtable, Tree.all, Tree.memtables, List.nil_append] at member
    rw [Tree.all, Tree.memtables, List.append_assoc]
    exact List.mem_append_right _ member
  · split at sealed
    · cases sealed
      exact refilled
    · rename_i rotated
      split at sealed
      · cases sealed
        apply refilled_shrunk fits base journals db refilled watermark.1
        intro entry member
        rwa [Tree.rotate_memtable_all _ _ _ rotated] at member
      · cases sealed

theorem refilled_sealed_journal (order : IterationOrder Nat) (db next : Database Name K V) (refilled : Refilled fits base journals db)
    (batches : List (Batch K V)) (member : batches ∈ journals) (fitting : ∀ batch ∈ batches, batch.Fits fits base)
    (recovered : db.recoverSealedJournal order batches = .ok next) : Refilled fits base journals next := by
  obtain ⟨replayed, replay, rest⟩ := except_bind_ok _ _ _ recovered
  obtain ⟨last, loop, done⟩ := except_bind_ok _ _ _ rest
  have replayedRefilled : Refilled fits base journals replayed.1 := by
    apply fold_ok_invariant _ (fun acc => Refilled fits base journals acc.1) batches _ _ replayed replay refilled
    intro acc batch batchMember next accRefilled stepped
    exact refilled_sealed_batch fits base cataloged journals acc next accRefilled batch (fitting batch batchMember) stepped
  have lastRefilled : Refilled fits base journals last := by
    apply fold_ok_invariant _ (Refilled fits base journals) _ _ replayed.1 last loop replayedRefilled
    intro acc watermark _ next accRefilled stepped
    exact refilled_seal fits base journals acc next accRefilled watermark stepped
  cases done
  refine ⟨?_, ?_, lastRefilled.entries⟩
  · rw [lastRefilled.frame]
  · refine List.forall_mem_append.mpr ⟨lastRefilled.sealed, ?_⟩
    simpa using member

end Refill

theorem refilled_recover (fits : Keyspace → Entry K V → Prop) (order : IterationOrder Nat) (disk : Disk Name K V)
    (next : Database Name K V) (cataloged : Cataloged (recoverKeyspaces disk))
    (initial : Refilled fits (recoverKeyspaces disk) disk.sealedJournals (recoverKeyspaces disk))
    (sealedFits : ∀ batches ∈ disk.sealedJournals, ∀ batch ∈ batches, batch.Fits fits (recoverKeyspaces disk))
    (activeFits : ∀ batch ∈ disk.journal, batch.Fits fits (recoverKeyspaces disk)) (recovered : recover order disk = .ok next) :
    Refilled fits (recoverKeyspaces disk) disk.sealedJournals next := by
  obtain ⟨middle, sealed, rest⟩ := except_bind_ok _ _ _ recovered
  obtain ⟨-, -, tail⟩ := except_bind_ok _ _ _ rest
  obtain ⟨last, replayed, done⟩ := except_bind_ok _ _ _ tail
  have middleRefilled : Refilled fits (recoverKeyspaces disk) disk.sealedJournals middle := by
    apply fold_ok_invariant _ (Refilled fits (recoverKeyspaces disk) disk.sealedJournals) _ _ _ middle sealed initial
    intro acc batches member next accRefilled stepped
    exact refilled_sealed_journal fits _ cataloged _ order acc next accRefilled batches member (sealedFits batches member) stepped
  have lastRefilled : Refilled fits (recoverKeyspaces disk) disk.sealedJournals last := by
    apply fold_ok_invariant _ (Refilled fits (recoverKeyspaces disk) disk.sealedJournals) _ _ _ last replayed middleRefilled
    intro acc batch member next accRefilled stepped
    exact refilled_batch fits _ cataloged _ acc next accRefilled batch (activeFits batch member) stepped
  cases done
  refine ⟨?_, lastRefilled.sealed, lastRefilled.entries⟩
  rw [Database.recoverSeqno, lastRefilled.frame]

-- Recovery leaves the catalog as recover_keyspaces found it.
theorem recover_frame (order : IterationOrder Nat) (db next : Database Name K V) (cataloged : Cataloged db)
    (recovered : recover order db.crash = .ok next) :
    next = { recoverKeyspaces db.crash with seqno := next.seqno, trees := next.trees, sealedJournals := next.sealedJournals } := by
  have reopened := recover_keyspaces_reopens db cataloged
  have initial : Refilled (fun _ _ => True) (recoverKeyspaces db.crash) db.crash.sealedJournals (recoverKeyspaces db.crash) :=
    ⟨rfl, by simp [reopened.sealedJournals], fun _ _ _ _ => trivial⟩
  exact (refilled_recover _ order db.crash next reopened.cataloged initial (fun _ _ _ _ _ _ _ _ => trivial)
    (fun _ _ _ _ _ _ => trivial) recovered).frame

theorem cataloged_reopened (order : IterationOrder Nat) (db next : Database Name K V) (cataloged : Cataloged db)
    (recovered : recover order db.crash = .ok next) : Cataloged next := by
  rw [recover_frame order db next cataloged recovered]
  exact cataloged_of_same _ _ (recover_keyspaces_reopens db cataloged).cataloged rfl rfl rfl rfl

theorem cataloged_step (db next : Database Name K V) (op : Op Name K V) (cataloged : Cataloged db) (step : Step db op next) :
    Cataloged next := by
  rcases step_effect db next op step with ⟨-, effect⟩ | ⟨ks, pairs, -, -, -, rfl⟩ | ⟨name, -, rfl⟩ | ⟨ks, kept, -, -, -, rfl⟩
  · cases effect with
    | created name asked absent => exact cataloged_keyspace db cataloged name
    | _ => exact cataloged_of_same db _ cataloged rfl rfl rfl rfl
  · exact cataloged_of_same db _ cataloged rfl rfl rfl rfl
  · exact cataloged_delete db cataloged name
  · exact cataloged_of_same db _ cataloged rfl rfl rfl rfl

theorem counter_grows (db next : Database Name K V) (op : Op Name K V) (step : Step db op next) :
    db.keyspaceIdCounter ≤ next.keyspaceIdCounter := by
  rcases step_effect db next op step with ⟨-, effect⟩ | ⟨ks, pairs, -, -, -, rfl⟩ | ⟨name, -, rfl⟩ | ⟨ks, kept, -, -, -, rfl⟩
  · cases effect with
    | created name asked absent =>
      rw [keyspace_created db name absent]
      exact Nat.le_succ _
    | _ => exact Nat.le_refl _
  · exact Nat.le_refl _
  · cases found : db.keyspaces.lookup name with
    | none => rw [delete_missing db name found]
    | some ks => rw [delete_existing db name ks found]
  · exact Nat.le_refl _

end OmryaKv.Storage
