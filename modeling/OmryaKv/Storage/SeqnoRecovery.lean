import OmryaKv.Storage.Identity

set_option autoImplicit false

namespace OmryaKv.Storage

open Lib

variable {Name K V : Type}

variable (db middle next : Database Name K V)

def Disk.records (disk : Disk Name K V) : List (Batch K V) := disk.sealedJournals.flatten ++ disk.journal

-- The events that no clear comes after, newest first.
def uncleared (events : List (Event K V)) : List (Event K V) := events.reverse.takeWhile fun event => !event.isClear

-- A directory without a journal file gets a new one. Then there is nothing to
-- replay, and the seqno is not recovered either.
def recoverCreated [DecidableEq Name] (disk : Disk Name K V) : Except Failure (Database Name K V) := do
  let db : Database Name K V := { recoverKeyspaces disk with journal := [] }
  db.checkRotated
  return db

namespace Disk

variable (disk : Disk Name K V)

def withoutJournals : Disk Name K V := { disk with journal := [], sealedJournals := [] }

def existing : List Keyspace := disk.folders.filter fun ks => (disk.metaNames.lookup ks.id).isSome

def log (ks : Keyspace) : List (Event K V) := journalEvents ks.id disk.records

-- Every seqno in the journals and the tables of the keyspaces that exist, and in
-- the tables of the meta keyspace.
def held (metaSeqnos : List Nat) : List Nat :=
  (disk.existing.flatMap fun ks => (disk.log ks).map Event.seqno ++ (disk.tables ks.id).map Entry.seqno) ++ metaSeqnos

-- The seqnos of the items that no clear of their keyspace comes after in the
-- journals, and of the tables whose keyspace the journals never clear.
def kept : List Nat :=
  disk.existing.flatMap fun ks =>
    (uncleared (disk.log ks)).map Event.seqno ++ if NoClear (disk.log ks) then (disk.tables ks.id).map Entry.seqno else []

-- The seqnos that one keyspace keeps.
def keptIn (ks : Keyspace) : List Nat :=
  (uncleared (disk.log ks)).map Event.seqno ++ if NoClear (disk.log ks) then (disk.tables ks.id).map Entry.seqno else []

def Attested (metaSeqnos : List Nat) : Prop := ∀ seqno ∈ disk.held metaSeqnos, ∃ above ∈ disk.kept, seqno ≤ above

instance (metaSeqnos : List Nat) : Decidable (disk.Attested metaSeqnos) :=
  inferInstanceAs (Decidable (∀ seqno ∈ disk.held metaSeqnos, ∃ above ∈ disk.kept, seqno ≤ above))

end Disk

def Database.AheadOf (db : Database Name K V) (seqnos : List Nat) : Prop := ∀ seqno ∈ seqnos, seqno < db.seqno

-- The database is only reopened when the newest seqno has left something behind
-- to recover it from, and a keyspace only created under an id whose records in
-- the journals, if any, are numbered below the counter.
def Orderly [DecidableEq Name] (db : Database Name K V) : Life Name K V → Prop
  | .session (.keyspace name) => db.keyspaces.lookup name = none →
      ∀ event ∈ journalEvents db.keyspaceIdCounter db.records, event.seqno < db.seqno
  | .session _ => True
  | .reopen _ => db.crash.Attested []

theorem contents_seqnos (entries : List (Entry K V)) (events : List (Event K V)) :
    (contents entries events).map Entry.seqno =
      (uncleared events).map Event.seqno ++ if NoClear events then entries.map Entry.seqno else [] := by
  induction events using List.reverseRecOn with
  | nil => simp [contents, uncleared, NoClear]
  | append_singleton front last ih =>
    rw [contents_append]
    cases last with
    | clear seqno =>
      have cleared : ¬ NoClear (front ++ [(.clear seqno : Event K V)]) := fun kept => by
        simpa [Event.isClear] using kept (.clear seqno) (by simp)
      rw [if_neg cleared]
      simp [contents, amend, uncleared, Event.isClear]
    | put entry =>
      have same : NoClear (front ++ [.put entry]) ↔ NoClear front := by
        simp [NoClear, Event.isClear, or_imp, forall_and]
      simp only [same]
      simpa [contents, amend, uncleared, Event.isClear, Event.seqno] using ih

theorem contents_mono (fewer more : List (Entry K V)) (events : List (Event K V)) (included : ∀ entry ∈ fewer, entry ∈ more) :
    ∀ entry ∈ contents fewer events, entry ∈ contents more events := by
  intro entry member
  by_cases kept : NoClear events
  · rw [contents_of_no_clear _ _ kept] at member ⊢
    exact (List.mem_append.mp member).elim (List.mem_append_left _) fun old => List.mem_append_right _ (included entry old)
  · rw [contents_of_clear _ _ kept] at member ⊢
    exact member

theorem contents_covered (covering covered : List (Entry K V)) (events : List (Event K V))
    (above : ∀ entry ∈ covered, ∃ other ∈ covering, entry.seqno ≤ other.seqno) :
    ∀ entry ∈ contents covered events, ∃ other ∈ contents covering events, entry.seqno ≤ other.seqno := by
  intro entry member
  by_cases kept : NoClear events
  · rw [contents_of_no_clear _ _ kept] at member ⊢
    rcases List.mem_append.mp member with new | old
    · exact ⟨entry, List.mem_append_left _ new, Nat.le_refl _⟩
    · obtain ⟨other, otherMember, reached⟩ := above entry old
      exact ⟨other, List.mem_append_right _ otherMember, reached⟩
  · rw [contents_of_clear _ _ kept] at member ⊢
    exact ⟨entry, member, Nat.le_refl _⟩

-- Some of the entries, among them for each of the others one that is numbered as high.
structure Spans (whole part : List (Entry K V)) : Prop where
  inside : ∀ entry ∈ part, entry ∈ whole
  covered : ∀ entry ∈ whole, ∃ other ∈ part, entry.seqno ≤ other.seqno

theorem spans_refl (entries : List (Entry K V)) : Spans entries entries :=
  ⟨fun _ member => member, fun entry member => ⟨entry, member, Nat.le_refl _⟩⟩

theorem spans_contents (whole part : List (Entry K V)) (last : List (Entry K V)) (events : List (Event K V))
    (first : Spans whole part) (rest : Spans (contents part events) last) : Spans (contents whole events) last := by
  constructor
  · exact fun entry member => contents_mono part whole events first.inside entry (rest.inside entry member)
  · intro entry member
    obtain ⟨other, otherMember, reached⟩ := contents_covered part whole events first.covered entry member
    obtain ⟨final, finalMember, further⟩ := rest.covered other otherMember
    exact ⟨final, finalMember, Nat.le_trans reached further⟩

-- Skipping a journal that the tables cover loses entries, but no seqno beyond
-- those of the tables.
theorem replayed_contents (tables : List (Entry K V)) (events : List (Event K V)) (t : Tree K V)
    (replayed : Replayed tables events t) : Spans (contents tables events) t.all := by
  cases replayed with
  | wiped events memtables cleared filled =>
    have all : (⟨[], memtables, []⟩ : Tree K V).all = contents tables events := by
      rw [contents_of_clear _ _ cleared, ← filled]
      simp [Tree.all, Tree.memtables]
    rw [all]
    exact spans_refl _
  | kept skipped replayed memtables noClear covered beyond filled =>
    have replayedKept := ((no_clear_append _ _).mp noClear).2
    have all : (⟨[], memtables, tables⟩ : Tree K V).all = contents [] replayed ++ tables := by
      rw [← filled]
      simp [Tree.all, Tree.memtables]
    have whole : contents tables (skipped ++ replayed) = contents [] replayed ++ (contents [] skipped ++ tables) := by
      rw [contents_of_no_clear _ _ noClear, contents_append_no_clear _ _ replayedKept, List.append_assoc]
    rw [all, whole]
    constructor
    · intro entry member
      exact (List.mem_append.mp member).elim (List.mem_append_left _) fun old =>
        List.mem_append_right _ (List.mem_append_right _ old)
    · intro entry member
      rcases List.mem_append.mp member with new | earlier
      · exact ⟨entry, List.mem_append_left _ new, Nat.le_refl _⟩
      rcases List.mem_append.mp earlier with skippedMember | old
      · have logged := (contents_mem [] skipped entry skippedMember).resolve_left (by simp)
        obtain ⟨other, otherMember, reached⟩ := (Tree.flushed_up_to_iff _ _).mp (covered (.put entry) logged)
        exact ⟨other, List.mem_append_right _ otherMember, reached⟩
      · exact ⟨entry, List.mem_append_right _ old, Nat.le_refl _⟩

theorem replayed_memtables (tables : List (Entry K V)) (events : List (Event K V)) (t : Tree K V)
    (replayed : Replayed tables events t) (entry : Entry K V) (member : entry ∈ t.memtables) : .put entry ∈ events := by
  cases replayed with
  | wiped events memtables cleared filled =>
    have inside : entry ∈ contents [] events := by
      rw [← filled]
      simpa [Tree.memtables] using member
    exact (contents_mem [] events entry inside).resolve_left (by simp)
  | kept skipped replayed memtables noClear covered beyond filled =>
    have inside : entry ∈ contents [] replayed := by
      rw [← filled]
      simpa [Tree.memtables] using member
    exact List.mem_append_right _ ((contents_mem [] replayed entry inside).resolve_left (by simp))

-- A clear is numbered above the items that come before it.
def Marked (events : List (Event K V)) : Prop :=
  events.Pairwise fun earlier later => later.isClear = true → earlier.isClear = false → earlier.seqno < later.seqno

def Batch.Uniform (batch : Batch K V) : Prop := batch.items = [] ∨ batch.clearedKeyspaces = []

theorem uniform_marked (id : Nat) (batch : Batch K V) (uniform : batch.Uniform) : Marked (batch.events id) := by
  rcases uniform with none | none
  · rw [Batch.events, none]
    apply List.pairwise_of_forall_mem_list
    intro earlier member later _ _ item
    obtain ⟨mark, -, rfl⟩ := List.mem_map.mp ((List.mem_append.mp member).resolve_left (by simp [itemEvents]))
    cases item
  · rw [Batch.events, none]
    apply List.pairwise_of_forall_mem_list
    intro earlier _ later member clear _
    obtain ⟨item, -, rfl⟩ := List.mem_map.mp ((List.mem_append.mp member).resolve_right (by simp [clearEvents]))
    cases clear

theorem op_batch_uniform (op : Op Name K V) (seqno : Nat) (batch : Batch K V) (logged : op.batch seqno = some batch) :
    batch.Uniform := by
  cases op with
  | clear ks =>
    cases logged
    exact .inl rfl
  | commit writes =>
    simp only [Op.batch] at logged
    split at logged
    · cases logged
    · cases logged
      exact .inr rfl
  | insert ks key value =>
    cases logged
    exact .inr rfl
  | remove ks key =>
    cases logged
    exact .inr rfl
  | removeWeak ks key =>
    cases logged
    exact .inr rfl
  | _ => cases logged

section Counter

variable [DecidableEq Name]

theorem recover_keyspaces_seqno (disk : Disk Name K V) : (recoverKeyspaces disk).seqno = 0 := by
  have loop : ∀ (folders : List Keyspace) (acc : Nat × Database Name K V),
      (folders.foldl (Database.recoverKeyspace disk.tables) acc).2.seqno = acc.2.seqno := by
    intro folders
    induction folders with
    | nil => exact fun _ => rfl
    | cons folder rest ih =>
      intro acc
      rw [List.foldl_cons, ih]
      unfold Database.recoverKeyspace
      dsimp only
      split <;> rfl
  exact loop disk.folders (1, disk.bare)

theorem recover_seqno_raises :
    RaisedBy (fun entry => ∃ ks, db.Live ks ∧ entry ∈ (db.trees ks.id).all) db.seqno db.recoverSeqno.seqno ∧
      ∀ ks, db.Live ks → ∀ entry ∈ (db.trees ks.id).all, entry.seqno < db.recoverSeqno.seqno := by
  have loop : ∀ (entries : List ((_ : Name) × Keyspace)) (seqno : Nat),
      let last := entries.foldl (fun seqno entry => (db.trees entry.2.id).raise seqno) seqno
      RaisedBy (fun entry => ∃ owner ∈ entries, entry ∈ (db.trees owner.2.id).all) seqno last ∧ seqno ≤ last ∧
        ∀ owner ∈ entries, ∀ entry ∈ (db.trees owner.2.id).all, entry.seqno < last := by
    intro entries
    induction entries with
    | nil => exact fun seqno => ⟨.inl rfl, Nat.le_refl _, by simp⟩
    | cons first rest ih =>
      intro seqno
      obtain ⟨raised, grown, covered⟩ := ih ((db.trees first.2.id).raise seqno)
      refine ⟨?_, Nat.le_trans (Nat.le_max_left _ _) grown, ?_⟩
      · apply raised_by_trans (raised_by_mono (raised_by_tree (db.trees first.2.id) seqno) _) (raised_by_mono raised _)
        · exact fun entry member => ⟨first, by simp, member⟩
        · exact fun entry ⟨owner, member, inside⟩ => ⟨owner, List.mem_cons_of_mem _ member, inside⟩
      · refine List.forall_mem_cons.mpr ⟨?_, covered⟩
        exact fun entry member => Nat.lt_of_lt_of_le (raise_covers _ _ entry member) grown
  obtain ⟨raised, -, covered⟩ := loop db.keyspaces.entries db.seqno
  refine ⟨raised_by_mono raised ?_, ?_⟩
  · exact fun entry ⟨owner, member, inside⟩ => ⟨owner.2, entry_live db owner member, inside⟩
  · intro ks live
    obtain ⟨name, member⟩ := live_entry db ks live
    exact covered ⟨name, ks⟩ member

theorem crash_existing (cataloged : Cataloged db) (ks : Keyspace) :
    ks ∈ db.crash.existing ↔ db.Live ks := by
  rw [Disk.existing, List.mem_filter]
  constructor
  · exact fun found => (cataloged.stored ks).mp found.1
  · intro live
    obtain ⟨name, found⟩ := live
    refine ⟨(cataloged.stored ks).mpr ⟨name, found⟩, ?_⟩
    change (db.metaNames.lookup ks.id).isSome = true
    rw [live_named db cataloged name ks found]
    rfl

omit [DecidableEq Name] in
theorem crash_kept_in (ks : Keyspace) (seqno : Nat) :
    seqno ∈ db.crash.keptIn ks ↔
      ∃ entry ∈ contents (db.trees ks.id).tables (journalEvents ks.id db.records), entry.seqno = seqno := by
  rw [Disk.keptIn, ← contents_seqnos, List.mem_map]
  rfl

theorem crash_kept (cataloged : Cataloged db) (seqno : Nat) :
    seqno ∈ db.crash.kept ↔
      ∃ ks, db.Live ks ∧ ∃ entry ∈ contents (db.trees ks.id).tables (journalEvents ks.id db.records), entry.seqno = seqno := by
  rw [Disk.kept, List.mem_flatMap]
  apply exists_congr
  intro ks
  rw [crash_existing db cataloged ks]
  exact and_congr_right fun _ => crash_kept_in db ks seqno

theorem crash_held_event (cataloged : Cataloged db) (metaSeqnos : List Nat) (ks : Keyspace)
    (live : db.Live ks) (event : Event K V) (member : event ∈ journalEvents ks.id db.records) :
    event.seqno ∈ db.crash.held metaSeqnos := by
  apply List.mem_append_left
  exact List.mem_flatMap.mpr ⟨ks, (crash_existing db cataloged ks).mpr live, List.mem_append_left _ (List.mem_map_of_mem member)⟩

omit [DecidableEq Name] in
theorem crash_log (ks : Keyspace) :
    journalEvents ks.id db.records = journalEvents ks.id db.crash.sealedJournals.flatten ++ journalEvents ks.id db.journal :=
  List.flatMap_append

theorem recovered_live (cataloged : Cataloged db) (recovered : Recovered db middle next)
    (ks : Keyspace) : next.Live ks ↔ db.Live ks := by
  simp only [Database.Live, recovered_keyspaces db middle next cataloged recovered]

theorem recovered_records (cataloged : Cataloged db) (recovered : Recovered db middle next) :
    next.records = db.records := by
  obtain ⟨target, resealed⟩ := recovered.resealed
  have reopened := recover_keyspaces_reopens db cataloged
  have sealed : next.sealedJournals.map SealedJournal.batches = db.crash.sealedJournals := by
    rw [recovered.counted]
    change middle.sealedJournals.map SealedJournal.batches = _
    rw [resealed.journals, reopened.sealedJournals]
    rfl
  have active : next.journal = db.journal := by
    rw [recovered.counted, resealed.frame]
    exact reopened.journal
  rw [Database.records, sealed, active]
  rfl

-- In every tree the seqnos end up where the log, read over the tables, puts them.
theorem recovered_contents (recovered : Recovered db middle next) (ks : Keyspace)
    (live : db.Live ks) :
    Spans (contents (db.trees ks.id).tables (journalEvents ks.id db.records)) (next.trees ks.id).all := by
  rw [recovered.active ks live, replay_all, crash_log, contents_append]
  exact spans_contents _ _ _ _ (replayed_contents _ _ _ (recovered.sealed ks live)) (spans_refl _)

theorem recovered_seqno (cataloged : Cataloged db) (recovered : Recovered db middle next) :
    RaisedBy (fun entry => (∃ ks, db.Live ks ∧ entry ∈ (next.trees ks.id).all) ∨
        SealedEntry (recoverKeyspaces db.crash) db.crash.sealedJournals entry) 0 next.seqno ∧
      ∀ ks, db.Live ks → ∀ entry ∈ (next.trees ks.id).all, entry.seqno < next.seqno := by
  obtain ⟨target, resealed⟩ := recovered.resealed
  obtain ⟨raised, covered⟩ := recover_seqno_raises { middle with trees := next.trees }
  rw [← recovered.counted] at raised covered
  have lives : ∀ ks, ({ middle with trees := next.trees } : Database Name K V).Live ks ↔ db.Live ks := by
    intro ks
    rw [← recovered_live db middle next cataloged recovered ks, recovered.counted]
    rfl
  constructor
  · apply raised_by_trans (raised_by_mono (recover_keyspaces_seqno db.crash ▸ resealed.seqno) _) (raised_by_mono raised _)
    · exact fun entry sealed => .inr sealed
    · exact fun entry ⟨ks, live, member⟩ => .inl ⟨ks, (lives ks).mp live, member⟩
  · exact fun ks live => covered ks ((lives ks).mpr live)

-- What the sessions keep true, as long as they are orderly.
structure Forward (db : Database Name K V) : Prop where
  cataloged : Cataloged db
  intact : ∀ batch ∈ db.records, batch.Intact
  uniform : ∀ batch ∈ db.records, batch.Uniform
  ascending : ∀ id, Ascending (journalEvents id db.records)
  marked : ∀ id, Marked (journalEvents id db.records)
  below : ∀ ks, db.Live ks → ∀ event ∈ journalEvents ks.id db.records, event.seqno < db.seqno

theorem forward_replayable (forward : Forward db) : Replayable db :=
  ⟨forward.cataloged, forward.intact, fun ks _ => forward.ascending ks.id⟩

-- An entry that a later clear wipes again has raised the counter in vain: the
-- clear is numbered higher.
theorem sealed_entry_kept (forward : Forward db) (entry : Entry K V)
    (sealed : SealedEntry (recoverKeyspaces db.crash) db.crash.sealedJournals entry) :
    entry.seqno ∈ db.crash.kept ∨ ∃ ks, db.Live ks ∧ ∃ event ∈ journalEvents ks.id db.records, entry.seqno < event.seqno := by
  have reopened := recover_keyspaces_reopens db forward.cataloged
  obtain ⟨id, front, back, t, resolved, journals, loop, member⟩ := sealed
  obtain ⟨ks, live, rfl⟩ := reopened_resolves db _ reopened id resolved
  obtain ⟨found, recovered, replayed⟩ := sealed_logs_recover db (forward_replayable db forward).ascending ks live front back journals
  rw [reopened.trees ks live, recovered] at loop
  cases loop
  have split : journalEvents ks.id db.records =
      journalEvents ks.id front.flatten ++ journalEvents ks.id (back.flatten ++ db.journal) := by
    rw [crash_log, journals, List.flatten_append, journalEvents, journalEvents, journalEvents, journalEvents, List.flatMap_append,
      List.flatMap_append, List.append_assoc]
  have put := replayed_memtables _ _ _ replayed entry member
  by_cases untouched : NoClear (journalEvents ks.id (back.flatten ++ db.journal))
  · have early := (replayed_contents _ _ _ replayed).inside entry (List.mem_append_left _ member)
    refine .inl ((crash_kept db forward.cataloged _).mpr ⟨ks, live, entry, ?_, rfl⟩)
    rw [split, contents_append, contents_of_no_clear _ _ untouched]
    exact List.mem_append_right _ early
  · have cleared : ∃ event ∈ journalEvents ks.id (back.flatten ++ db.journal), event.isClear = true := by
      simpa [NoClear] using untouched
    obtain ⟨event, later, clear⟩ := cleared
    have marked := forward.marked ks.id
    rw [split] at marked
    have higher := (List.pairwise_append.mp marked).2.2 (.put entry) put event later clear rfl
    exact .inr ⟨ks, live, event, split ▸ List.mem_append_right _ later, higher⟩

theorem recovered_ahead_iff (forward : Forward db) (recovered : Recovered db middle next)
    (metaSeqnos : List Nat) : next.AheadOf (db.crash.held metaSeqnos) ↔ db.crash.Attested metaSeqnos := by
  obtain ⟨raised, covered⟩ := recovered_seqno db middle next forward.cataloged recovered
  constructor
  · intro ahead seqno held
    have below : seqno < next.seqno := ahead seqno held
    rcases raised with zero | ⟨entry, source, top⟩
    · omega
    · have reached : seqno ≤ entry.seqno := by omega
      rcases source with ⟨ks, live, member⟩ | sealed
      · have inside := (recovered_contents db middle next recovered ks live).inside entry member
        exact ⟨entry.seqno, (crash_kept db forward.cataloged _).mpr ⟨ks, live, entry, inside, rfl⟩, reached⟩
      rcases sealed_entry_kept db forward entry sealed with kept | ⟨ks, live, event, member, higher⟩
      · exact ⟨entry.seqno, kept, reached⟩
      · have past := ahead event.seqno (crash_held_event db forward.cataloged metaSeqnos ks live event member)
        omega
  · intro attested seqno held
    obtain ⟨above, kept, reached⟩ := attested seqno held
    obtain ⟨ks, live, entry, inside, rfl⟩ := (crash_kept db forward.cataloged above).mp kept
    obtain ⟨other, member, higher⟩ := (recovered_contents db middle next recovered ks live).covered entry inside
    have past := covered ks live other member
    omega

theorem forward_new : Forward (Database.new : Database Name K V) := by
  constructor
  · exact cataloged_new
  · simp [Database.new, Database.records]
  · simp [Database.new, Database.records]
  · exact fun _ => List.Pairwise.nil
  · exact fun _ => List.Pairwise.nil
  · simp [Database.new, Database.Live]

theorem forward_moved (forward : Forward db) (cataloged : Cataloged next)
    (records : List.Sublist next.records db.records)
    (below : ∀ ks, next.Live ks → ∀ event ∈ journalEvents ks.id next.records, event.seqno < next.seqno) : Forward next := by
  have events : ∀ id, List.Sublist (journalEvents id next.records) (journalEvents id db.records) := fun id =>
    records.flatMap (Batch.events id)
  constructor
  · exact cataloged
  · exact fun batch member => forward.intact batch (records.subset member)
  · exact fun batch member => forward.uniform batch (records.subset member)
  · exact fun id => (forward.ascending id).sublist (events id)
  · exact fun id => (forward.marked id).sublist (events id)
  · exact below

theorem forward_grown (forward : Forward db) (cataloged : Cataloged next)
    (records : List.Sublist next.records db.records) (live : ∀ ks, next.Live ks → db.Live ks) (seqno : db.seqno ≤ next.seqno) :
    Forward next := by
  apply forward_moved db next forward cataloged records
  intro ks ksLive event member
  have old := (records.flatMap (Batch.events ks.id)).subset member
  exact Nat.lt_of_lt_of_le (forward.below ks (live ks ksLive) event old) seqno

theorem addressed_below (forward : Forward db) (batch : Batch K V) (addressed : Addressed db batch)
    (id : Nat) (busy : batch.events id ≠ []) : ∀ event ∈ journalEvents id db.records, event.seqno < db.seqno := by
  obtain ⟨event, member⟩ := List.exists_mem_of_ne_nil _ busy
  rcases List.mem_append.mp member with put | clear
  · obtain ⟨item, filtered, -⟩ := List.mem_map.mp put
    obtain ⟨inside, here⟩ := List.mem_filter.mp filtered
    have here : item.keyspaceId = id := by simpa using here
    exact here ▸ forward.below _ (addressed.items item inside)
  · obtain ⟨mark, filtered, -⟩ := List.mem_map.mp clear
    obtain ⟨inside, here⟩ := List.mem_filter.mp filtered
    have here : mark.keyspaceId = id := by simpa using here
    exact here ▸ forward.below _ (addressed.marks mark inside)

theorem forward_wrote (forward : Forward db) (batch : Batch K V) (addressed : Addressed db batch)
    (uniform : batch.Uniform) : Forward (db.batched batch) := by
  have records := batched_records db batch
  have events : ∀ id, journalEvents id (db.batched batch).records = journalEvents id db.records ++ batch.events id := by
    intro id
    rw [records, journalEvents, List.flatMap_append, List.flatMap_singleton]
    rfl
  have fresh : ∀ id, ∀ event ∈ batch.events id, event.seqno = db.seqno := fun id event member =>
    (batch_events_seqno id batch event member).trans addressed.seqno
  have older : ∀ id, ∀ earlier ∈ journalEvents id db.records, ∀ later ∈ batch.events id, earlier.seqno < later.seqno := by
    intro id earlier early later late
    rw [fresh id later late]
    exact addressed_below db forward batch addressed id (List.ne_nil_of_mem late) earlier early
  constructor
  · exact cataloged_of_same db _ forward.cataloged rfl rfl rfl rfl
  · rw [records]
    exact List.forall_mem_append.mpr ⟨forward.intact, by simpa using addressed.intact⟩
  · rw [records]
    exact List.forall_mem_append.mpr ⟨forward.uniform, by simpa using uniform⟩
  · intro id
    rw [events]
    refine List.pairwise_append.mpr
      ⟨forward.ascending id, ?_, fun earlier early later late => Nat.le_of_lt (older id _ early _ late)⟩
    apply List.pairwise_of_forall_mem_list
    intro earlier early later late
    rw [fresh id earlier early, fresh id later late]
  · intro id
    rw [events]
    exact List.pairwise_append.mpr ⟨forward.marked id, uniform_marked id batch uniform,
      fun earlier early later late _ _ => older id _ early _ late⟩
  · intro ks live event member
    rw [events] at member
    rcases List.mem_append.mp member with old | new
    · exact Nat.lt_succ_of_lt (forward.below ks live event old)
    · exact Nat.lt_succ_of_le (Nat.le_of_eq (fresh ks.id event new))

theorem forward_created (forward : Forward db) (name : Name) (absent : db.keyspaces.lookup name = none)
    (orderly : ∀ event ∈ journalEvents db.keyspaceIdCounter db.records, event.seqno < db.seqno) : Forward (db.keyspace name) := by
  have records := keyspace_records db name
  have seqno : (db.keyspace name).seqno = db.seqno + 1 := by
    rw [keyspace_created db name absent]
  apply forward_moved db _ forward (cataloged_keyspace db forward.cataloged name) (by rw [records])
  rw [records, seqno]
  intro ks live event member
  rcases (live_after_keyspace db name absent ks).mp live with rfl | old
  · exact Nat.lt_succ_of_lt (orderly event member)
  · exact Nat.lt_succ_of_lt (forward.below ks old event member)

theorem forward_deleted (forward : Forward db) (name : Name) : Forward (db.deleteKeyspace name) := by
  cases found : db.keyspaces.lookup name with
  | none => rwa [delete_missing db name found]
  | some deleted =>
    have lives := live_after_delete db forward.cataloged name deleted found
    apply forward_grown db _ forward (cataloged_delete db forward.cataloged name)
    · rw [delete_records]
    · exact fun ks live => ((lives ks).mp live).1
    · rw [delete_existing db name deleted found]
      exact Nat.le_add_right _ 2

theorem forward_effect (op : Op Name K V) (forward : Forward db) (effect : Effect db op next)
    (uniform : ∀ batch ∈ next.records, batch.Uniform) (orderly : Orderly db (.session op)) : Forward next := by
  have moved : ∀ other : Database Name K V, other.metaNames = db.metaNames → other.keyspaces = db.keyspaces →
      other.folders = db.folders → other.keyspaceIdCounter = db.keyspaceIdCounter →
      List.Sublist other.records db.records → db.seqno ≤ other.seqno → Forward other := by
    intro other names keyspaces folders counter records seqno
    apply forward_grown db other forward (cataloged_of_same db other forward.cataloged names keyspaces folders counter) records
    · intro ks live
      rwa [Database.Live, keyspaces] at live
    · exact seqno
  cases effect with
  | idle => exact forward
  | wrote batch addressed =>
    exact forward_wrote db forward batch addressed (uniform batch (List.mem_append_right _ (List.mem_append_right _ (by simp))))
  | rotatedMemtable ks memtable t rotated => exact moved _ rfl rfl rfl rfl (List.Sublist.refl _) (Nat.le_refl _)
  | flushed ks => exact moved _ rfl rfl rfl rfl (List.Sublist.refl _) (Nat.le_refl _)
  | took count => exact moved _ rfl rfl rfl rfl (List.Sublist.refl _) (Nat.le_add_right _ count)
  | rotatedJournal =>
    refine moved _ rfl rfl rfl rfl ?_ (Nat.le_refl _)
    rw [rotate_journal_records]
  | maintained => exact moved _ rfl rfl rfl rfl (maintenance_records db) (Nat.le_refl _)
  | created name asked absent =>
    subst asked
    exact forward_created db forward name absent (orderly absent)

theorem forward_took (forward : Forward db) (count : Nat) : Forward (db.takeSeqnos count) :=
  forward_grown db _ forward (cataloged_of_same db _ forward.cataloged rfl rfl rfl rfl) (List.Sublist.refl _) (fun _ live => live)
    (Nat.le_add_right _ count)

theorem forward_reopened (order : IterationOrder Nat) (forward : Forward db)
    (completed : recover order db.crash = .ok next) (recovered : Recovered db middle next) (attested : db.crash.Attested []) :
    Forward next := by
  have records := recovered_records db middle next forward.cataloged recovered
  have ahead := (recovered_ahead_iff db middle next forward recovered []).mpr attested
  apply forward_moved db next forward (cataloged_reopened order db next forward.cataloged completed) (by rw [records])
  intro ks live event member
  rw [records] at member
  have old := (recovered_live db middle next forward.cataloged recovered ks).mp live
  exact ahead event.seqno (crash_held_event db forward.cataloged [] ks old event member)

theorem forward_step (label : Life Name K V) (forward : Forward db) (orderly : Orderly db label)
    (step : LifeStep db label next) : Forward next := by
  cases label with
  | reopen order =>
    obtain ⟨base, taken, completed⟩ := step
    obtain ⟨middle, last, found, recovered⟩ := replayable_recovers order db (forward_replayable db forward)
    cases completed.symm.trans found
    exact forward_took base (forward_reopened db middle base order forward completed recovered orderly) taken
  | session op =>
    have uniform : ∀ batch ∈ next.records, batch.Uniform := by
      intro batch member
      rcases step_records db next op step batch member with old | logged
      · exact forward.uniform batch old
      · exact op_batch_uniform op db.seqno batch logged
    rcases step_effect db next op step with
      ⟨-, effect⟩ | ⟨ks, pairs, -, live, -, rfl⟩ | ⟨name, -, rfl⟩ | ⟨ks, kept, -, live, -, rfl⟩
    · exact forward_effect db next op forward effect uniform orderly
    · exact forward_grown db _ forward (cataloged_of_same db _ forward.cataloged rfl rfl rfl rfl) (List.Sublist.refl _)
        (fun _ live => live) (Nat.le_succ _)
    · exact forward_deleted db forward name
    · exact forward_grown db _ forward (cataloged_of_same db _ forward.cataloged rfl rfl rfl rfl) (List.Sublist.refl _)
        (fun _ live => live) (Nat.le_refl _)

theorem forward_run (labels : List (Life Name K V)) (db : Database Name K V)
    (run : Run (Guarded LifeStep Orderly) Database.new labels db) : Forward db := by
  apply run_invariant _ Forward _ run forward_new
  intro state label next forward guarded
  exact forward_step state next label forward guarded.1 guarded.2

theorem recover_created_ok (cataloged : Cataloged db) :
    ∃ next, recoverCreated db.crash.withoutJournals = .ok next ∧ next.seqno = 0 := by
  have reopened := recover_keyspaces_reopens { db with journal := [], sealedJournals := [] }
    (cataloged_of_same db _ cataloged rfl rfl rfl rfl)
  have idle := reopened_idle _ _ reopened
  refine ⟨{ recoverKeyspaces db.crash.withoutJournals with journal := [] }, ?_, recover_keyspaces_seqno _⟩
  rw [recoverCreated, check_rotated_ok]
  · rfl
  · exact idle

-- Over any number of orderly sessions recovery succeeds, so no sealed memtable
-- misses its watermark. What it raises the counter to is ahead of everything on
-- disk exactly if something that no clear wipes is numbered as high; the seqnos
-- that lsm-tree takes on the way come on top. Without a journal file the counter
-- stays at zero.
theorem recovered_seqno_ahead (order : IterationOrder Nat) (labels : List (Life Name K V)) (db : Database Name K V)
    (run : Run (Guarded LifeStep Orderly) Database.new labels db) :
    (∃ base, recover order db.crash = .ok base ∧ ∀ metaSeqnos,
        (base.AheadOf (db.crash.held metaSeqnos) ↔ db.crash.Attested metaSeqnos) ∧
        (db.crash.Attested metaSeqnos → ∀ next, Reopens order db.crash next → next.AheadOf (db.crash.held metaSeqnos))) ∧
      ∃ next, recoverCreated db.crash.withoutJournals = .ok next ∧
        ∀ metaSeqnos, next.AheadOf (db.crash.withoutJournals.held metaSeqnos) ↔ db.crash.withoutJournals.held metaSeqnos = [] := by
  have forward := forward_run labels db run
  obtain ⟨middle, base, completed, recovered⟩ := replayable_recovers order db (forward_replayable db forward)
  obtain ⟨created, createdOk, zero⟩ := recover_created_ok db forward.cataloged
  refine ⟨⟨base, completed, ?_⟩, created, createdOk, ?_⟩
  · intro metaSeqnos
    have exact := recovered_ahead_iff db middle base forward recovered metaSeqnos
    refine ⟨exact, ?_⟩
    rintro attested _ ⟨found, taken, again⟩
    cases again.symm.trans completed
    exact fun seqno held => Nat.lt_of_lt_of_le (exact.mpr attested seqno held) (Nat.le_add_right _ taken)
  · intro metaSeqnos
    rw [Database.AheadOf, zero, List.eq_nil_iff_forall_not_mem]
    simp only [Nat.not_lt_zero, imp_false]

end Counter

theorem seqno_ahead_after_clear_and_insert :
    ∃ db next : Database Nat Nat Nat, Reopens CountMap.inStoredOrder db.crash next ∧ db.sealedJournals.length = 2 ∧
      next.AheadOf (db.crash.held [0]) := by
  let ks : Keyspace := ⟨1, 0⟩
  have life : ∃ db : Database Nat Nat Nat,
      Run (Guarded LifeStep Orderly) Database.new
        [.session (.keyspace 0), .session (.insert ks 5 50), .session (.clear ks), .session (.takeSeqnos 1),
          .session (.insert ks 6 60), .session .rotateJournal, .reopen CountMap.inStoredOrder, .session (.insert ks 7 70),
          .session .rotateJournal] db ∧
        db.sealedJournals.length = 2 ∧ db.crash.Attested [0] :=
    ⟨_, .cons _ _ ⟨fun _ _ member => (by cases member), trivial, rfl⟩ (.cons _ _ ⟨trivial, ⟨0, rfl⟩, rfl⟩
      (.cons _ _ ⟨trivial, ⟨0, rfl⟩, rfl⟩ (.cons _ _ ⟨trivial, trivial, rfl⟩ (.cons _ _ ⟨trivial, ⟨0, rfl⟩, rfl⟩
      (.cons _ _ ⟨trivial, trivial, rfl⟩
      (.cons _ _ ⟨show Disk.Attested _ _ by decide, .mk _ 1 (show recover _ _ = _ from rfl)⟩
      (.cons _ _ ⟨trivial, ⟨0, rfl⟩, rfl⟩ (.cons _ _ ⟨trivial, trivial, rfl⟩ (.nil _))))))))), rfl, by decide⟩
  obtain ⟨db, run, journals, attested⟩ := life
  obtain ⟨⟨base, recovered, ahead⟩, -⟩ := recovered_seqno_ahead CountMap.inStoredOrder _ db run
  have reopens := Reopens.mk base 1 recovered
  exact ⟨db, _, reopens, journals, (ahead [0]).2 attested _ reopens⟩

-- The clear is the newest record and wipes what came before it, so the counter
-- starts again with the seqno that lsm-tree takes for the replayed clear. The next
-- session then numbers its insert below the records it follows in the journal.
theorem clear_resets_seqno :
    ∃ db next last : Database Nat Nat Nat,
      Run LifeStep Database.new
          [.session (.keyspace 0), .session (.insert ⟨1, 0⟩ 5 50), .session (.insert ⟨1, 0⟩ 6 60), .session (.clear ⟨1, 0⟩),
            .session (.takeSeqnos 1)] db ∧
        Reopens CountMap.inStoredOrder db.crash next ∧ db.crash.held [] = [1, 2, 3] ∧ next.seqno = 1 ∧
        Run LifeStep next [.session (.insert ⟨1, 0⟩ 7 70), .session .rotateJournal] last ∧
        recover CountMap.inStoredOrder last.crash = .error .memtableLsnMismatch :=
  ⟨_, _, _, .cons _ _ ⟨trivial, rfl⟩ (.cons _ _ ⟨⟨0, rfl⟩, rfl⟩ (.cons _ _ ⟨⟨0, rfl⟩, rfl⟩ (.cons _ _ ⟨⟨0, rfl⟩, rfl⟩
      (.cons _ _ ⟨trivial, rfl⟩ (.nil _))))),
    .mk _ 1 (show recover _ _ = _ from rfl), rfl, rfl, .cons _ _ ⟨⟨0, rfl⟩, rfl⟩ (.cons _ _ ⟨trivial, rfl⟩ (.nil _)),
    show recover _ _ = _ from rfl⟩

end OmryaKv.Storage
