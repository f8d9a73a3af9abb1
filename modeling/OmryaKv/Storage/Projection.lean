import OmryaKv.Storage.Catalog
import OmryaKv.Storage.KeyspaceLog

set_option autoImplicit false

namespace OmryaKv.Storage

open Lib

variable {Name K V : Type}

variable (db : Database Name K V)

def Payload.stored : Payload V → Option V
  | value v => some v
  | tombstone | weakTombstone | indirection => none

def Item.entry (item : Item K V) (seqno : Nat) : Entry K V := ⟨item.key, seqno, item.payload.stored, item.origin⟩

def itemEvents (id seqno : Nat) (items : List (Item K V)) : List (Event K V) :=
  (items.filter fun item => item.keyspaceId = id).map fun item => .put (item.entry seqno)

def clearEvents (id seqno : Nat) (marks : List ClearMark) : List (Event K V) :=
  (marks.filter fun mark => mark.keyspaceId = id).map fun _ => .clear seqno

def Batch.events (id : Nat) (batch : Batch K V) : List (Event K V) :=
  itemEvents id batch.seqno batch.items ++ clearEvents id batch.seqno batch.clearedKeyspaces

def journalEvents (id : Nat) (batches : List (Batch K V)) : List (Event K V) := batches.flatMap (Batch.events id)

def Batch.Intact (batch : Batch K V) : Prop := ∀ item ∈ batch.items, item.payload ≠ .indirection

def Database.project (db : Database Name K V) (id : Nat) : KeyspaceLog K V :=
  ⟨db.trees id, db.sealedJournals.map fun journal => (journal.watermarks.lookup id, journalEvents id journal.batches),
    journalEvents id db.journal⟩

theorem batch_events_seqno (id : Nat) (batch : Batch K V) (event : Event K V) (member : event ∈ batch.events id) :
    event.seqno = batch.seqno := by
  rcases List.mem_append.mp member with put | clear
  · obtain ⟨item, -, rfl⟩ := List.mem_map.mp put
    rfl
  · obtain ⟨mark, -, rfl⟩ := List.mem_map.mp clear
    rfl

theorem item_events_cons (seqno : Nat) (item : Item K V) (rest : List (Item K V)) :
    (fun id => itemEvents id seqno (item :: rest)) = fun id => itemEvents id seqno [item] ++ itemEvents id seqno rest := by
  funext id
  rw [itemEvents, itemEvents, itemEvents, ← List.map_append, ← List.filter_append]
  rfl

theorem clear_events_cons (seqno : Nat) (mark : ClearMark) (rest : List ClearMark) :
    (fun id => (clearEvents id seqno (mark :: rest) : List (Event K V))) =
      fun id => clearEvents id seqno [mark] ++ clearEvents id seqno rest := by
  funext id
  rw [clearEvents, clearEvents, clearEvents, ← List.map_append, ← List.filter_append]
  rfl

theorem apply_item_intact (seqno : Nat) (item : Item K V) (intact : item.payload ≠ .indirection) (t : Tree K V) :
    applyItem seqno item t = .ok (t.put (item.entry seqno)) := by
  unfold applyItem Item.entry
  cases payload : item.payload with
  | value v => rfl
  | tombstone => rfl
  | weakTombstone => rfl
  | indirection => exact absurd payload intact

section Replay

variable [DecidableEq Name]

-- Records find the keyspace whose id they carry, if they find one at all.
def Database.Routed (db : Database Name K V) : Prop := ∀ id ks, db.resolve id = some ks → ks.id = id

-- The database differs only in the trees, and a tree that records can reach has
-- moved on by what they say about it.
structure Replays (db : Database Name K V) (events : Nat → List (Event K V)) (next : Database Name K V) : Prop where
  frame : next = { db with trees := next.trees }
  trees : ∀ id, (db.resolve id).isSome → next.trees id = (events id).foldl Tree.replay (db.trees id)

theorem replays_resolve {db next : Database Name K V} {events : Nat → List (Event K V)} (replays : Replays db events next) :
    next.resolve = db.resolve := by
  rw [replays.frame]
  rfl

theorem replays_routed {db next : Database Name K V} {events : Nat → List (Event K V)} (replays : Replays db events next)
    (routed : db.Routed) : next.Routed := by
  unfold Database.Routed
  rw [replays_resolve replays]
  exact routed

theorem replays_refl : Replays db (fun _ => []) db := ⟨rfl, fun _ _ => rfl⟩

theorem replays_trans {db middle next : Database Name K V} {first second : Nat → List (Event K V)}
    (start : Replays db first middle) (rest : Replays middle second next) :
    Replays db (fun id => first id ++ second id) next := by
  constructor
  · rw [rest.frame, start.frame]
  · intro id resolved
    rw [List.foldl_append, ← start.trees id resolved]
    exact rest.trees id (by rwa [replays_resolve start])

theorem replay_item_replays (routed : db.Routed) (seqno : Nat) (item : Item K V)
    (intact : item.payload ≠ .indirection) :
    ∃ next, db.replayItem seqno item = .ok next ∧ Replays db (fun id => itemEvents id seqno [item]) next := by
  cases target : db.resolve item.keyspaceId with
  | none =>
    refine ⟨db, by simp [Database.replayItem, target], rfl, ?_⟩
    intro id resolved
    have elsewhere : item.keyspaceId ≠ id := by
      rintro rfl
      rw [target] at resolved
      cases resolved
    simp [itemEvents, elsewhere]
  | some ks =>
    have same := routed _ ks target
    refine ⟨{ db with trees := Function.update db.trees ks.id ((db.trees ks.id).put (item.entry seqno)) }, ?_, rfl, ?_⟩
    · simp only [Database.replayItem, target, applyItemTo, apply_item_intact seqno item intact]
      rfl
    · intro id _
      by_cases here : item.keyspaceId = id
      · subst here
        simp [itemEvents, same, Tree.replay]
      · have elsewhere : id ≠ ks.id := fun equal => here (by rw [← same, equal])
        simp [itemEvents, here, Function.update_of_ne elsewhere]

theorem replay_items_replays (routed : db.Routed) (seqno : Nat) (items : List (Item K V))
    (intact : ∀ item ∈ items, item.payload ≠ .indirection) :
    ∃ next, items.foldlM (fun db item => Database.replayItem db seqno item) db = .ok next ∧
      Replays db (fun id => itemEvents id seqno items) next := by
  induction items generalizing db with
  | nil => exact ⟨db, rfl, replays_refl db⟩
  | cons item rest ih =>
    obtain ⟨middle, first, middleReplays⟩ := replay_item_replays db routed seqno item (intact item (by simp))
    obtain ⟨next, later, nextReplays⟩ := ih middle (replays_routed middleReplays routed) fun other member =>
      intact other (List.mem_cons_of_mem _ member)
    refine ⟨next, ?_, ?_⟩
    · rw [List.foldlM_cons, first]
      exact later
    · rw [item_events_cons]
      exact replays_trans middleReplays nextReplays

theorem replay_clear_replays (routed : db.Routed) (seqno : Nat) (mark : ClearMark) :
    Replays db (fun id => clearEvents id seqno [mark]) (db.replayClear mark) := by
  unfold Database.replayClear
  cases target : db.resolve mark.keyspaceId with
  | none =>
    refine ⟨rfl, ?_⟩
    intro id resolved
    have elsewhere : mark.keyspaceId ≠ id := by
      rintro rfl
      rw [target] at resolved
      cases resolved
    simp [clearEvents, elsewhere]
  | some ks =>
    have same := routed _ ks target
    refine ⟨rfl, ?_⟩
    intro id _
    by_cases here : mark.keyspaceId = id
    · subst here
      simp [clearEvents, same, modifyTree, Tree.replay]
    · have elsewhere : id ≠ ks.id := fun equal => here (by rw [← same, equal])
      simp [clearEvents, here, modifyTree, Function.update_of_ne elsewhere]

theorem replay_clears_replays (routed : db.Routed) (seqno : Nat) (marks : List ClearMark) :
    Replays db (fun id => clearEvents id seqno marks) (marks.foldl Database.replayClear db) := by
  induction marks generalizing db with
  | nil => exact replays_refl db
  | cons mark rest ih =>
    have first := replay_clear_replays db routed seqno mark
    have later := ih (db.replayClear mark) (replays_routed first routed)
    rw [clear_events_cons]
    exact replays_trans first later

theorem replay_batch_replays (routed : db.Routed) (batch : Batch K V) (intact : batch.Intact) :
    ∃ next, db.replayBatch batch = .ok next ∧ Replays db (fun id => batch.events id) next := by
  obtain ⟨middle, items, middleReplays⟩ := replay_items_replays db routed batch.seqno batch.items intact
  have clears := replay_clears_replays middle (replays_routed middleReplays routed) batch.seqno batch.clearedKeyspaces
  refine ⟨_, ?_, replays_trans middleReplays clears⟩
  rw [Database.replayBatch, items]
  rfl

theorem replay_journal_replays (routed : db.Routed) (batches : List (Batch K V))
    (intact : ∀ batch ∈ batches, batch.Intact) :
    ∃ next, batches.foldlM Database.replayBatch db = .ok next ∧ Replays db (fun id => journalEvents id batches) next := by
  induction batches generalizing db with
  | nil => exact ⟨db, rfl, replays_refl db⟩
  | cons batch rest ih =>
    obtain ⟨middle, first, middleReplays⟩ := replay_batch_replays db routed batch (intact batch (by simp))
    obtain ⟨next, later, nextReplays⟩ := ih middle (replays_routed middleReplays routed) fun other member =>
      intact other (List.mem_cons_of_mem _ member)
    refine ⟨next, ?_, replays_trans middleReplays nextReplays⟩
    rw [List.foldlM_cons, first]
    exact later

def raised (prev : Option Nat) (seqnos : List Nat) : Option Nat :=
  seqnos.foldl (fun prev seqno => some (prev.elim seqno (max · seqno))) prev

theorem raised_some (prev : Nat) (seqnos : List Nat) : raised (some prev) seqnos = some (seqnos.foldl max prev) := by
  induction seqnos generalizing prev with
  | nil => rfl
  | cons seqno rest ih => exact ih (max prev seqno)

theorem raised_none (seqnos : List Nat) : raised none seqnos = seqnos.max? := by
  cases seqnos with
  | nil => rfl
  | cons seqno rest =>
    rw [List.max?_cons']
    exact raised_some seqno rest

theorem raise_watermark_lookup (id lsn other : Nat) (watermarks : List (Nat × Nat)) :
    (raiseWatermark id lsn watermarks).lookup other =
      if id = other then raised (watermarks.lookup id) [lsn] else watermarks.lookup other := by
  induction watermarks with
  | nil =>
    by_cases same : id = other
    · simp [raiseWatermark, same, raised]
    · simp [raiseWatermark, same, List.lookup_cons, beq_false_of_ne (Ne.symm same)]
  | cons head rest ih =>
    obtain ⟨key, prev⟩ := head
    by_cases here : key = id
    · subst here
      by_cases same : key = other
      · simp [raiseWatermark, same, raised]
      · simp [raiseWatermark, same, List.lookup_cons, beq_false_of_ne (Ne.symm same)]
    · rw [raiseWatermark, if_neg here, List.lookup_cons, List.lookup_cons, List.lookup_cons, ih]
      by_cases other_key : other = key
      · subst other_key
        simp [Ne.symm here]
      · simp [beq_false_of_ne other_key, beq_false_of_ne (Ne.symm here)]

theorem raise_watermark_keys (id lsn : Nat) (watermarks : List (Nat × Nat)) :
    (raiseWatermark id lsn watermarks).map Prod.fst =
      if id ∈ watermarks.map Prod.fst then watermarks.map Prod.fst else watermarks.map Prod.fst ++ [id] := by
  induction watermarks with
  | nil => simp [raiseWatermark]
  | cons head rest ih =>
    obtain ⟨key, prev⟩ := head
    by_cases here : key = id
    · simp [raiseWatermark, here]
    · rw [raiseWatermark, if_neg here, List.map_cons, ih]
      by_cases later : id ∈ rest.map Prod.fst <;> simp [later, Ne.symm here]

-- The watermarks kept along: each keyspace that can be reached has the highest
-- seqno of its records, at most once, and no other keyspace has one.
structure Noted (db : Database Name K V) (events : Nat → List (Event K V)) (watermarks next : List (Nat × Nat)) : Prop where
  marks : ∀ id, (db.resolve id).isSome → next.lookup id = raised (watermarks.lookup id) ((events id).map Event.seqno)
  nodup : (watermarks.map Prod.fst).Nodup → (next.map Prod.fst).Nodup
  resolved : (∀ id ∈ watermarks.map Prod.fst, (db.resolve id).isSome) → ∀ id ∈ next.map Prod.fst, (db.resolve id).isSome

variable (watermarks : List (Nat × Nat))

theorem noted_refl : Noted db (fun _ => []) watermarks watermarks :=
  ⟨fun _ _ => rfl, id, id⟩

theorem noted_trans {db middleDb : Database Name K V} {first second : Nat → List (Event K V)}
    {watermarks middle next : List (Nat × Nat)} (same : middleDb.resolve = db.resolve) (start : Noted db first watermarks middle)
    (rest : Noted middleDb second middle next) : Noted db (fun id => first id ++ second id) watermarks next := by
  constructor
  · intro id resolved
    rw [rest.marks id (by rwa [same]), start.marks id resolved, List.map_append, raised, raised, raised, List.foldl_append]
  · exact fun nodup => rest.nodup (start.nodup nodup)
  · intro resolved
    have later := rest.resolved
    rw [same] at later
    exact later (start.resolved resolved)

theorem note_watermark_noted (routed : db.Routed) (target seqno : Nat) (watermarks : List (Nat × Nat))
    (events : Nat → List (Event K V)) (about : ∀ id, (events id).map Event.seqno = if target = id then [seqno] else []) :
    Noted db events watermarks (db.noteWatermark target seqno watermarks) := by
  unfold Database.noteWatermark
  cases found : db.resolve target with
  | none =>
    refine ⟨?_, id, id⟩
    intro id resolved
    have elsewhere : target ≠ id := by
      rintro rfl
      rw [found] at resolved
      cases resolved
    simp [about, elsewhere, raised]
  | some ks =>
    have same := routed target ks found
    subst same
    constructor
    · intro id _
      rw [raise_watermark_lookup, about]
      by_cases here : ks.id = id <;> simp [here, raised]
    · intro nodup
      rw [raise_watermark_keys]
      split
      · exact nodup
      · rename_i absent
        exact List.nodup_append'.mpr ⟨nodup, by simp, by simpa using absent⟩
    · intro resolved id member
      rw [raise_watermark_keys] at member
      split at member
      · exact resolved id member
      · rcases List.mem_append.mp member with old | new
        · exact resolved id old
        · rw [List.mem_singleton.mp new, found]
          rfl

theorem replay_sealed_items (routed : db.Routed) (watermarks : List (Nat × Nat)) (seqno : Nat)
    (items : List (Item K V)) (intact : ∀ item ∈ items, item.payload ≠ .indirection) :
    ∃ next marks, items.foldlM (fun (acc : Database Name K V × List (Nat × Nat)) item => do
        let next ← acc.1.replayItem seqno item
        return (next, acc.1.noteWatermark item.keyspaceId seqno acc.2)) (db, watermarks) = .ok (next, marks) ∧
      Replays db (fun id => itemEvents id seqno items) next ∧ Noted db (fun id => itemEvents id seqno items) watermarks marks := by
  induction items generalizing db watermarks with
  | nil => exact ⟨db, watermarks, rfl, replays_refl db, noted_refl db watermarks⟩
  | cons item rest ih =>
    obtain ⟨middle, first, middleReplays⟩ := replay_item_replays db routed seqno item (intact item (by simp))
    have middleNoted : Noted db (fun id => itemEvents id seqno [item]) watermarks
        (db.noteWatermark item.keyspaceId seqno watermarks) := by
      apply note_watermark_noted db routed
      intro id
      by_cases here : item.keyspaceId = id <;> simp [itemEvents, here, Event.seqno, Item.entry]
    obtain ⟨next, marks, later, nextReplays, nextNoted⟩ := ih middle (replays_routed middleReplays routed)
      (db.noteWatermark item.keyspaceId seqno watermarks) fun other member => intact other (List.mem_cons_of_mem _ member)
    refine ⟨next, marks, ?_, ?_, ?_⟩
    · rw [List.foldlM_cons, first]
      exact later
    · rw [item_events_cons]
      exact replays_trans middleReplays nextReplays
    · rw [item_events_cons]
      exact noted_trans (replays_resolve middleReplays) middleNoted nextNoted

theorem replay_sealed_clears (routed : db.Routed) (watermarks : List (Nat × Nat)) (seqno : Nat)
    (marks : List ClearMark) :
    ∃ next noted, marks.foldl (fun (acc : Database Name K V × List (Nat × Nat)) mark =>
        (acc.1.replayClear mark, acc.1.noteWatermark mark.keyspaceId seqno acc.2)) (db, watermarks) = (next, noted) ∧
      Replays db (fun id => clearEvents id seqno marks) next ∧ Noted db (fun id => clearEvents id seqno marks) watermarks noted := by
  induction marks generalizing db watermarks with
  | nil => exact ⟨db, watermarks, rfl, replays_refl db, noted_refl db watermarks⟩
  | cons mark rest ih =>
    have first := replay_clear_replays db routed seqno mark
    have firstNoted : Noted db (fun id => clearEvents id seqno [mark]) watermarks
        (db.noteWatermark mark.keyspaceId seqno watermarks) := by
      apply note_watermark_noted db routed
      intro id
      by_cases here : mark.keyspaceId = id <;> simp [clearEvents, here, Event.seqno]
    obtain ⟨next, noted, later, nextReplays, nextNoted⟩ := ih (db.replayClear mark) (replays_routed first routed)
      (db.noteWatermark mark.keyspaceId seqno watermarks)
    refine ⟨next, noted, later, ?_, ?_⟩
    · rw [clear_events_cons]
      exact replays_trans first nextReplays
    · rw [clear_events_cons]
      exact noted_trans (replays_resolve first) firstNoted nextNoted

theorem replay_sealed_batch (routed : db.Routed) (watermarks : List (Nat × Nat)) (batch : Batch K V)
    (intact : batch.Intact) :
    ∃ next noted, Database.replaySealedBatch (db, watermarks) batch = .ok (next, noted) ∧
      Replays db (fun id => batch.events id) next ∧ Noted db (fun id => batch.events id) watermarks noted := by
  obtain ⟨middle, middleNoted, items, itemsReplay, itemsNoted⟩ :=
    replay_sealed_items db routed watermarks batch.seqno batch.items intact
  obtain ⟨next, noted, clears, clearsReplay, clearsNoted⟩ :=
    replay_sealed_clears middle (replays_routed itemsReplay routed) middleNoted batch.seqno batch.clearedKeyspaces
  refine ⟨next, noted, ?_, replays_trans itemsReplay clearsReplay, noted_trans (replays_resolve itemsReplay) itemsNoted clearsNoted⟩
  rw [Database.replaySealedBatch, items, ← clears]
  rfl

theorem replay_sealed_journal (routed : db.Routed) (watermarks : List (Nat × Nat))
    (batches : List (Batch K V)) (intact : ∀ batch ∈ batches, batch.Intact) :
    ∃ next noted, batches.foldlM Database.replaySealedBatch (db, watermarks) = .ok (next, noted) ∧
      Replays db (fun id => journalEvents id batches) next ∧ Noted db (fun id => journalEvents id batches) watermarks noted := by
  induction batches generalizing db watermarks with
  | nil => exact ⟨db, watermarks, rfl, replays_refl db, noted_refl db watermarks⟩
  | cons batch rest ih =>
    obtain ⟨middle, middleMarks, first, middleReplays, middleNoted⟩ :=
      replay_sealed_batch db routed watermarks batch (intact batch (by simp))
    obtain ⟨next, noted, later, nextReplays, nextNoted⟩ := ih middle (replays_routed middleReplays routed) middleMarks
      fun other member => intact other (List.mem_cons_of_mem _ member)
    refine ⟨next, noted, ?_, replays_trans middleReplays nextReplays,
      noted_trans (replays_resolve middleReplays) middleNoted nextNoted⟩
    rw [List.foldlM_cons, first]
    exact later

omit [DecidableEq Name] in
theorem seal_recovered_ok (watermark : Nat × Nat) (t : Tree K V)
    (sealed : sealTree (db.trees watermark.1) watermark.2 = .ok t) :
    ∃ seqno, db.sealRecovered watermark = .ok { db with trees := Function.update db.trees watermark.1 t, seqno := seqno } ∧
      RaisedBy (· ∈ t.memtables) db.seqno seqno := by
  unfold sealTree at sealed
  unfold Database.sealRecovered
  dsimp only
  split at sealed
  · rename_i flushed
    cases sealed
    exact ⟨db.seqno, by rw [if_pos flushed], .inl rfl⟩
  · rename_i unflushed
    rw [if_neg unflushed]
    cases rotated : (db.trees watermark.1).rotateMemtable with
    | none =>
      rw [rotated] at sealed
      cases sealed
      exact ⟨db.seqno, by simp, .inl rfl⟩
    | some rotation =>
      rw [rotated] at sealed
      dsimp only at sealed ⊢
      split at sealed
      · rename_i top
        cases sealed
        refine ⟨rotation.2.raise db.seqno, by rw [if_pos top]; rfl, ?_⟩
        exact raised_by_memtables _ _ _ watermark.2 db.seqno (Bool.not_eq_true _ ▸ unflushed) rotated top
      · cases sealed

-- The watermarks name each keyspace once, so the passes of the loop do not meet.
omit [DecidableEq Name] in
theorem seal_all (nodup : (watermarks.map Prod.fst).Nodup) (target : Trees K V)
    (sealed : ∀ watermark ∈ watermarks, sealTree (db.trees watermark.1) watermark.2 = .ok (target watermark.1))
    (rest : ∀ id, id ∉ watermarks.map Prod.fst → target id = db.trees id) :
    ∃ seqno, watermarks.foldlM Database.sealRecovered db = .ok { db with trees := target, seqno := seqno } ∧
      RaisedBy (fun entry => ∃ watermark ∈ watermarks, entry ∈ (target watermark.1).memtables) db.seqno seqno := by
  induction watermarks generalizing db with
  | nil =>
    have same : target = db.trees := by
      funext id
      exact rest id (by simp)
    exact ⟨db.seqno, by rw [same]; rfl, .inl rfl⟩
  | cons watermark later ih =>
    obtain ⟨headFresh, laterNodup⟩ := List.nodup_cons.mp nodup
    obtain ⟨seqno, first, firstRaised⟩ := seal_recovered_ok db watermark _ (sealed watermark (by simp))
    have elsewhere : ∀ other ∈ later, other.1 ≠ watermark.1 := by
      intro other member same
      exact headFresh (List.mem_map.mpr ⟨other, member, same⟩)
    have laterSealed : ∀ other ∈ later,
        sealTree (Function.update db.trees watermark.1 (target watermark.1) other.1) other.2 = .ok (target other.1) := by
      intro other member
      rw [Function.update_of_ne (elsewhere other member)]
      exact sealed other (List.mem_cons_of_mem _ member)
    have laterRest : ∀ id, id ∉ later.map Prod.fst →
        target id = Function.update db.trees watermark.1 (target watermark.1) id := by
      intro id absent
      by_cases here : id = watermark.1
      · rw [here, Function.update_self]
      · rw [Function.update_of_ne here]
        exact rest id (by simpa [here] using absent)
    obtain ⟨last, loop, lastRaised⟩ := ih { db with trees := _, seqno := seqno } laterNodup laterSealed laterRest
    refine ⟨last, ?_, raised_by_trans (raised_by_mono firstRaised ?_) (raised_by_mono lastRaised ?_)⟩
    · rw [List.foldlM_cons, first]
      exact loop
    · exact fun entry member => ⟨watermark, by simp, member⟩
    · exact fun entry ⟨other, member, inside⟩ => ⟨other, List.mem_cons_of_mem _ member, inside⟩

-- What recovering some sealed journals makes of the database, where target has
-- the trees that records can reach.
structure Resealed (db : Database Name K V) (journals : List (List (Batch K V))) (source : Entry K V → Prop) (target : Trees K V)
    (next : Database Name K V) : Prop where
  frame : next = { db with trees := next.trees, seqno := next.seqno, sealedJournals := next.sealedJournals }
  trees : ∀ id, (db.resolve id).isSome → next.trees id = target id
  journals : next.sealedJournals.map SealedJournal.batches = db.sealedJournals.map SealedJournal.batches ++ journals
  seqno : RaisedBy source db.seqno next.seqno

theorem resealed_resolve {db next : Database Name K V} {journals : List (List (Batch K V))} {source : Entry K V → Prop}
    {target : Trees K V} (resealed : Resealed db journals source target next) : next.resolve = db.resolve := by
  rw [resealed.frame]
  rfl

variable (order : IterationOrder Nat)

-- The watermarks that a sealed journal comes out with.
theorem noted_watermarks (db : Database Name K V) (batches : List (Batch K V)) (noted : List (Nat × Nat))
    (notes : Noted db (fun id => journalEvents id batches) [] noted) :
    ((order.visit noted).map Prod.fst).Nodup ∧ ∀ id lsn, (id, lsn) ∈ order.visit noted ↔
      (db.resolve id).isSome ∧ highest Event.seqno (journalEvents id batches) = some lsn := by
  have nodup := notes.nodup (by simp)
  have resolved := notes.resolved (by simp)
  have highestNoted : ∀ id, (db.resolve id).isSome → noted.lookup id = highest Event.seqno (journalEvents id batches) := by
    intro id reach
    rw [notes.marks id reach]
    exact raised_none _
  refine ⟨((order.perm noted).map Prod.fst).nodup_iff.mpr nodup, ?_⟩
  intro id lsn
  rw [(order.perm noted).mem_iff]
  constructor
  · intro member
    have reach := resolved id (List.mem_map_of_mem member)
    rw [← highestNoted id reach]
    exact ⟨reach, CountMap.lookup_of_mem noted nodup id lsn member⟩
  · rintro ⟨reach, top⟩
    rw [← highestNoted id reach] at top
    obtain ⟨before, after, split, -⟩ := List.lookup_eq_some_iff.mp top
    simp [split]

omit [DecidableEq Name] in
theorem unmarked_silent (id : Nat) (events : List (Event K V))
    (marks : ∀ lsn, highest Event.seqno events = some lsn → (id, lsn) ∈ watermarks) (absent : id ∉ watermarks.map Prod.fst) :
    highest Event.seqno events = none := by
  cases top : highest Event.seqno events with
  | none => rfl
  | some lsn => exact absurd (List.mem_map_of_mem (marks lsn top)) absent

theorem recover_sealed_journal_ok (db : Database Name K V) (routed : db.Routed) (batches : List (Batch K V))
    (intact : ∀ batch ∈ batches, batch.Intact) (target : Trees K V)
    (sealable : ∀ id, (db.resolve id).isSome → recoverLog (db.trees id) (journalEvents id batches) = .ok (target id)) :
    ∃ next, db.recoverSealedJournal order batches = .ok next ∧
      Resealed db [batches] (fun entry => ∃ id, (db.resolve id).isSome ∧ entry ∈ (target id).memtables) target next := by
  obtain ⟨next, noted, replayed, replays, notes⟩ := replay_sealed_journal db routed [] batches intact
  obtain ⟨nodup, marks⟩ := noted_watermarks order db batches noted notes
  have visitedResolved : ∀ watermark ∈ order.visit noted, (db.resolve watermark.1).isSome := fun watermark member =>
    ((marks watermark.1 watermark.2).mp member).1
  let trees : Trees K V := fun id => if (db.resolve id).isSome then target id else next.trees id
  have reached : ∀ id, (db.resolve id).isSome → trees id = target id := by
    intro id reach
    simp only [trees, if_pos reach]
  have sealed : ∀ watermark ∈ order.visit noted, sealTree (next.trees watermark.1) watermark.2 = .ok (trees watermark.1) := by
    intro watermark member
    obtain ⟨reach, top⟩ := (marks watermark.1 watermark.2).mp member
    have log := sealable watermark.1 reach
    rw [recoverLog, top, ← replays.trees watermark.1 reach] at log
    rw [reached _ reach]
    exact log
  have rest : ∀ id, id ∉ (order.visit noted).map Prod.fst → trees id = next.trees id := by
    intro id absent
    by_cases reach : (db.resolve id).isSome
    · have log := sealable id reach
      have silent := unmarked_silent _ id (journalEvents id batches) (fun lsn top => (marks id lsn).mpr ⟨reach, top⟩) absent
      rw [recoverLog, silent, ← replays.trees id reach] at log
      rw [reached _ reach]
      exact (Except.ok.inj log).symm
    · simp only [trees, if_neg reach]
  obtain ⟨seqno, loop, raised⟩ := seal_all next (order.visit noted) nodup trees sealed rest
  have same : next.seqno = db.seqno := by rw [replays.frame]
  refine ⟨{ db with trees := trees, seqno := seqno, sealedJournals := db.sealedJournals ++ [⟨batches, order.visit noted⟩] }, ?_,
    rfl, reached, by simp, ?_⟩
  · rw [Database.recoverSealedJournal, replayed]
    simp only [bind, Except.bind, loop]
    rw [replays.frame]
    rfl
  · rw [← same]
    apply raised_by_mono raised
    intro entry found
    obtain ⟨watermark, member, inside⟩ := found
    have reach := visitedResolved watermark member
    exact ⟨watermark.1, reach, reached _ reach ▸ inside⟩

-- The entries that some front of the journals leaves in the memtables of a tree.
def SealedEntry (db : Database Name K V) (journals : List (List (Batch K V))) (entry : Entry K V) : Prop :=
  ∃ id front back t, (db.resolve id).isSome ∧ journals = front ++ back ∧
    (front.map (journalEvents id)).foldlM recoverLog (db.trees id) = .ok t ∧ entry ∈ t.memtables

theorem recover_sealed_journals_ok (db : Database Name K V) (routed : db.Routed)
    (journals : List (List (Batch K V))) (intact : ∀ batches ∈ journals, ∀ batch ∈ batches, batch.Intact) (target : Trees K V)
    (sealable : ∀ id, (db.resolve id).isSome →
      (journals.map (journalEvents id)).foldlM recoverLog (db.trees id) = .ok (target id)) :
    ∃ next, journals.foldlM (Database.recoverSealedJournal order) db = .ok next ∧
      Resealed db journals (SealedEntry db journals) target next := by
  induction journals generalizing db with
  | nil => exact ⟨db, rfl, rfl, fun id reach => Except.ok.inj (sealable id reach), by simp, .inl rfl⟩
  | cons first rest ih =>
    let middle : Trees K V := fun id =>
      match recoverLog (db.trees id) (journalEvents id first) with
      | .ok t => t
      | .error _ => db.trees id
    have firstSealable : ∀ id, (db.resolve id).isSome → recoverLog (db.trees id) (journalEvents id first) = .ok (middle id) := by
      intro id reach
      have whole := sealable id reach
      rw [List.map_cons, List.foldlM_cons] at whole
      simp only [middle]
      cases result : recoverLog (db.trees id) (journalEvents id first) with
      | ok t => rfl
      | error failure =>
        rw [result] at whole
        cases whole
    obtain ⟨headDb, head, headResealed⟩ :=
      recover_sealed_journal_ok order db routed first (intact first (by simp)) middle firstSealable
    have resolve := resealed_resolve headResealed
    have restSealable : ∀ id, (headDb.resolve id).isSome →
        (rest.map (journalEvents id)).foldlM recoverLog (headDb.trees id) = .ok (target id) := by
      intro id reach
      rw [resolve] at reach
      have whole := sealable id reach
      rw [List.map_cons, List.foldlM_cons, firstSealable id reach] at whole
      rw [headResealed.trees id reach]
      exact whole
    obtain ⟨next, loop, resealed⟩ := ih headDb (by rwa [Database.Routed, resolve])
      (fun batches member => intact batches (List.mem_cons_of_mem _ member)) restSealable
    refine ⟨next, ?_, ?_, ?_, ?_, raised_by_trans (raised_by_mono headResealed.seqno ?_) (raised_by_mono resealed.seqno ?_)⟩
    · rw [List.foldlM_cons, head]
      exact loop
    · rw [resealed.frame, headResealed.frame]
    · exact fun id reach => resealed.trees id (by rwa [resolve])
    · rw [resealed.journals, headResealed.journals, List.append_assoc]
      rfl
    · intro entry found
      obtain ⟨id, reach, inside⟩ := found
      exact ⟨id, [first], rest, middle id, reach, rfl, by simp [firstSealable id reach], inside⟩
    · intro entry found
      obtain ⟨id, front, back, t, reach, split, log, inside⟩ := found
      rw [resolve] at reach
      refine ⟨id, first :: front, back, t, reach, by rw [split]; rfl, ?_, inside⟩
      rw [List.map_cons, List.foldlM_cons, firstSealable id reach]
      rw [headResealed.trees id reach] at log
      exact log

end Replay

end OmryaKv.Storage
