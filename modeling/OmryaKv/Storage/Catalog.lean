import OmryaKv.Storage.Recover
import Mathlib.Data.List.Induction

set_option autoImplicit false

namespace OmryaKv.Storage

open Lib

variable {Name K V : Type} [DecidableEq Name]

variable (db next : Database Name K V)

-- The meta keyspace, the dictionary and the folders agree on which keyspaces there are.
structure Cataloged (db : Database Name K V) : Prop where
  named : ∀ id name, db.metaNames.lookup id = some name ↔ ∃ birth, db.keyspaces.lookup name = some ⟨id, birth⟩
  stored : ∀ ks, ks ∈ db.folders ↔ db.Live ks
  numbered : ∀ ks, db.Live ks → ks.id < db.keyspaceIdCounter

theorem cataloged_new : Cataloged (Database.new : Database Name K V) := by
  constructor
  · simp [Database.new]
  · simp [Database.new, Database.Live]
  · simp [Database.new, Database.Live]

theorem live_named (cataloged : Cataloged db) (name : Name) (ks : Keyspace)
    (found : db.keyspaces.lookup name = some ks) : db.metaNames.lookup ks.id = some name :=
  (cataloged.named ks.id name).mpr ⟨ks.birth, found⟩

theorem live_id_unique (cataloged : Cataloged db) (first second : Keyspace)
    (firstLive : db.Live first) (secondLive : db.Live second) (same : first.id = second.id) : first = second := by
  obtain ⟨firstName, firstFound⟩ := firstLive
  obtain ⟨secondName, secondFound⟩ := secondLive
  have firstNamed := live_named db cataloged firstName first firstFound
  have secondNamed := live_named db cataloged secondName second secondFound
  rw [same, secondNamed] at firstNamed
  cases firstNamed
  rw [firstFound] at secondFound
  cases secondFound
  rfl

theorem resolve_live (cataloged : Cataloged db) (ks : Keyspace) :
    db.resolve ks.id = some ks ↔ db.Live ks := by
  constructor
  · intro resolved
    obtain ⟨name, -, found⟩ := Option.bind_eq_some_iff.mp resolved
    exact ⟨name, found⟩
  · rintro ⟨name, found⟩
    rw [Database.resolve, live_named db cataloged name ks found]
    exact found

theorem resolve_id (cataloged : Cataloged db) (id : Nat) (ks : Keyspace)
    (resolved : db.resolve id = some ks) : ks.id = id := by
  obtain ⟨name, named, found⟩ := Option.bind_eq_some_iff.mp resolved
  obtain ⟨birth, expected⟩ := (cataloged.named id name).mp named
  rw [found] at expected
  cases expected
  rfl

theorem cataloged_of_same (cataloged : Cataloged db) (names : next.metaNames = db.metaNames)
    (keyspaces : next.keyspaces = db.keyspaces) (folders : next.folders = db.folders)
    (counter : next.keyspaceIdCounter = db.keyspaceIdCounter) : Cataloged next := by
  constructor
  · rw [names, keyspaces]
    exact cataloged.named
  · rw [folders]
    simp only [Database.Live, keyspaces]
    exact cataloged.stored
  · rw [counter]
    simp only [Database.Live, keyspaces]
    exact cataloged.numbered

variable (name : Name)

theorem keyspace_existing (ks : Keyspace) (found : db.keyspaces.lookup name = some ks) : db.keyspace name = db := by
  simp [Database.keyspace, found]

theorem keyspace_created (absent : db.keyspaces.lookup name = none) : db.keyspace name =
      { db with
        seqno := db.seqno + 1
        keyspaceIdCounter := db.keyspaceIdCounter + 1
        metaNames := db.metaNames.insert db.keyspaceIdCounter name
        keyspaces := db.keyspaces.insert name ⟨db.keyspaceIdCounter, db.births⟩
        folders := ⟨db.keyspaceIdCounter, db.births⟩ :: db.folders
        trees := Function.update db.trees db.keyspaceIdCounter .empty
        births := db.births + 1 } := by
  simp [Database.keyspace, absent]

theorem live_after_keyspace (absent : db.keyspaces.lookup name = none) (ks : Keyspace) :
    (db.keyspace name).Live ks ↔ ks = ⟨db.keyspaceIdCounter, db.births⟩ ∨ db.Live ks := by
  rw [keyspace_created db name absent]
  simp only [Database.Live]
  constructor
  · rintro ⟨other, found⟩
    by_cases same : other = name
    · rw [same, AList.lookup_insert] at found
      cases found
      exact .inl rfl
    · rw [AList.lookup_insert_ne same] at found
      exact .inr ⟨other, found⟩
  · rintro (rfl | ⟨other, found⟩)
    · exact ⟨name, AList.lookup_insert _⟩
    · have different : other ≠ name := by
        rintro rfl
        rw [absent] at found
        cases found
      exact ⟨other, by rwa [AList.lookup_insert_ne different]⟩

theorem counter_unnamed (cataloged : Cataloged db) (name : Name) (birth : Nat) :
    db.keyspaces.lookup name ≠ some ⟨db.keyspaceIdCounter, birth⟩ := fun found =>
  Nat.lt_irrefl _ (cataloged.numbered ⟨db.keyspaceIdCounter, birth⟩ ⟨name, found⟩)

theorem cataloged_keyspace (cataloged : Cataloged db) (name : Name) : Cataloged (db.keyspace name) := by
  cases found : db.keyspaces.lookup name with
  | some ks => rwa [keyspace_existing db name ks found]
  | none =>
    constructor
    · intro id other
      rw [keyspace_created db name found]
      by_cases sameId : id = db.keyspaceIdCounter <;> by_cases sameName : other = name
      · subst sameId sameName
        simp only [AList.lookup_insert, Option.some.injEq, Keyspace.mk.injEq, true_and, true_iff]
        exact ⟨db.births, rfl⟩
      · subst sameId
        simp only [AList.lookup_insert, AList.lookup_insert_ne sameName, Option.some.injEq]
        constructor
        · exact fun equal => absurd equal.symm sameName
        · rintro ⟨birth, taken⟩
          exact absurd taken (counter_unnamed db cataloged other birth)
      · subst sameName
        simp only [AList.lookup_insert, AList.lookup_insert_ne sameId, cataloged.named, found, Option.some.injEq,
          Keyspace.mk.injEq]
        constructor
        · rintro ⟨birth, impossible⟩
          cases impossible
        · rintro ⟨birth, equal, -⟩
          exact absurd equal.symm sameId
      · simp only [AList.lookup_insert_ne sameId, AList.lookup_insert_ne sameName]
        exact cataloged.named id other
    · intro ks
      rw [live_after_keyspace db name found, ← cataloged.stored, keyspace_created db name found, List.mem_cons]
    · intro ks live
      rw [keyspace_created db name found]
      rcases (live_after_keyspace db name found ks).mp live with rfl | old
      · exact Nat.lt_succ_self _
      · exact Nat.lt_succ_of_lt (cataloged.numbered ks old)

theorem delete_missing (absent : db.keyspaces.lookup name = none) : db.deleteKeyspace name = db := by
  simp [Database.deleteKeyspace, absent]

theorem delete_existing (ks : Keyspace) (found : db.keyspaces.lookup name = some ks) : db.deleteKeyspace name =
      { db with
        seqno := db.seqno + 2
        metaNames := db.metaNames.erase ks.id
        keyspaces := db.keyspaces.erase name
        folders := db.folders.filter fun folder => folder.id != ks.id
        trees := Function.update db.trees ks.id .empty } := by
  simp [Database.deleteKeyspace, found]

theorem live_after_delete (cataloged : Cataloged db) (name : Name) (deleted : Keyspace)
    (found : db.keyspaces.lookup name = some deleted) (ks : Keyspace) :
    (db.deleteKeyspace name).Live ks ↔ db.Live ks ∧ ks.id ≠ deleted.id := by
  have named := live_named db cataloged name deleted found
  rw [delete_existing db name deleted found]
  simp only [Database.Live]
  constructor
  · rintro ⟨other, kept⟩
    have different : other ≠ name := by
      rintro rfl
      rw [AList.lookup_erase] at kept
      cases kept
    rw [AList.lookup_erase_ne different] at kept
    refine ⟨⟨other, kept⟩, fun sameId => different ?_⟩
    have otherNamed := live_named db cataloged other ks kept
    rw [sameId, named] at otherNamed
    cases otherNamed
    rfl
  · rintro ⟨⟨other, kept⟩, otherId⟩
    have different : other ≠ name := by
      rintro rfl
      rw [found] at kept
      cases kept
      exact otherId rfl
    exact ⟨other, by rwa [AList.lookup_erase_ne different]⟩

theorem cataloged_delete (cataloged : Cataloged db) (name : Name) :
    Cataloged (db.deleteKeyspace name) := by
  cases found : db.keyspaces.lookup name with
  | none => rwa [delete_missing db name found]
  | some deleted =>
    have named := live_named db cataloged name deleted found
    constructor
    · intro id other
      rw [delete_existing db name deleted found]
      by_cases sameId : id = deleted.id <;> by_cases sameName : other = name
      · subst sameId sameName
        simp
      · subst sameId
        simp only [AList.lookup_erase, AList.lookup_erase_ne sameName, ← cataloged.named, named, Option.some.injEq]
        constructor
        · intro impossible
          cases impossible
        · exact fun equal => absurd equal.symm sameName
      · subst sameName
        simp only [AList.lookup_erase, AList.lookup_erase_ne sameId, cataloged.named, found, Option.some.injEq]
        constructor
        · rintro ⟨birth, rfl⟩
          exact absurd rfl sameId
        · rintro ⟨birth, impossible⟩
          cases impossible
      · simp only [AList.lookup_erase_ne sameId, AList.lookup_erase_ne sameName]
        exact cataloged.named id other
    · intro ks
      rw [live_after_delete db cataloged name deleted found, ← cataloged.stored, delete_existing db name deleted found]
      simp
    · intro ks live
      rw [delete_existing db name deleted found]
      exact cataloged.numbered ks ((live_after_delete db cataloged name deleted found ks).mp live).1

theorem recover_keyspaces_loop (disk : Disk Name K V) (folders : List Keyspace)
    (named : ∀ ks ∈ folders, ∃ name, disk.metaNames.lookup ks.id = some name)
    (distinct : ∀ ks ∈ folders, ∀ other ∈ folders, disk.metaNames.lookup ks.id = disk.metaNames.lookup other.id → ks = other) :
    ∃ highestId keyspaces trees,
      folders.foldl (Database.recoverKeyspace disk.tables) (1, disk.bare) =
          (highestId, { disk.bare with keyspaces := keyspaces, trees := trees }) ∧
        (∀ name ks, keyspaces.lookup name = some ks ↔ ks ∈ folders ∧ disk.metaNames.lookup ks.id = some name) ∧
        (∀ ks ∈ folders, trees ks.id = .recovered (disk.tables ks.id)) ∧ ∀ ks ∈ folders, ks.id ≤ highestId := by
  induction folders using List.reverseRecOn with
  | nil => exact ⟨1, ∅, fun _ => .empty, rfl, by simp, by simp, by simp⟩
  | append_singleton front folder ih =>
    obtain ⟨highestId, keyspaces, trees, loop, found, opened, bounded⟩ := ih
      (fun ks member => named ks (List.mem_append_left _ member))
      (fun ks member other otherMember => distinct ks (List.mem_append_left _ member) other (List.mem_append_left _ otherMember))
    obtain ⟨name, folderNamed⟩ := named folder (by simp)
    refine ⟨max highestId folder.id, keyspaces.insert name folder,
      Function.update trees folder.id (.recovered (disk.tables folder.id)), ?_, ?_, ?_, ?_⟩
    · rw [List.foldl_append, loop]
      simp [Database.recoverKeyspace, Disk.bare, folderNamed]
    · intro other ks
      by_cases same : other = name
      · subst same
        rw [AList.lookup_insert, Option.some.injEq]
        constructor
        · rintro rfl
          exact ⟨by simp, folderNamed⟩
        · rintro ⟨member, ksNamed⟩
          exact distinct folder (by simp) ks member (by rw [folderNamed, ksNamed])
      · rw [AList.lookup_insert_ne same, found, List.mem_append, List.mem_singleton]
        constructor
        · exact fun ⟨member, ksNamed⟩ => ⟨.inl member, ksNamed⟩
        · rintro ⟨member | rfl, ksNamed⟩
          · exact ⟨member, ksNamed⟩
          · rw [folderNamed] at ksNamed
            cases ksNamed
            exact absurd rfl same
    · intro ks member
      by_cases same : ks.id = folder.id
      · rw [same, Function.update_self]
      · rw [Function.update_of_ne same]
        rcases List.mem_append.mp member with early | last
        · exact opened ks early
        · rw [List.mem_singleton.mp last] at same
          exact absurd rfl same
    · intro ks member
      rcases List.mem_append.mp member with early | last
      · exact Nat.le_trans (bounded ks early) (Nat.le_max_left _ _)
      · rw [List.mem_singleton.mp last]
        exact Nat.le_max_right _ _

structure Reopened (db next : Database Name K V) : Prop where
  cataloged : Cataloged next
  keyspaces : ∀ name, next.keyspaces.lookup name = db.keyspaces.lookup name
  trees : ∀ ks, db.Live ks → next.trees ks.id = .recovered (db.trees ks.id).tables
  journal : next.journal = db.journal
  sealedJournals : next.sealedJournals = []
  births : next.births = db.births

-- The dictionary can be read off the folders and the names in the meta keyspace.
theorem cataloged_lookup (cataloged : Cataloged db) (name : Name) (ks : Keyspace) :
    db.keyspaces.lookup name = some ks ↔ ks ∈ db.folders ∧ db.metaNames.lookup ks.id = some name := by
  constructor
  · intro found
    exact ⟨(cataloged.stored ks).mpr ⟨name, found⟩, live_named db cataloged name ks found⟩
  · rintro ⟨member, named⟩
    obtain ⟨birth, expected⟩ := (cataloged.named ks.id name).mp named
    have same := live_id_unique db cataloged ks ⟨ks.id, birth⟩ ((cataloged.stored ks).mp member) ⟨name, expected⟩ rfl
    rw [same]
    exact expected

theorem recover_keyspaces_reopens (cataloged : Cataloged db) :
    Reopened db (recoverKeyspaces db.crash) := by
  have liveNamed : ∀ ks ∈ db.folders, ∃ name, db.metaNames.lookup ks.id = some name := by
    intro ks member
    obtain ⟨name, found⟩ := (cataloged.stored ks).mp member
    exact ⟨name, live_named db cataloged name ks found⟩
  have distinct : ∀ ks ∈ db.folders, ∀ other ∈ db.folders,
      db.metaNames.lookup ks.id = db.metaNames.lookup other.id → ks = other := by
    intro ks member other otherMember same
    obtain ⟨name, found⟩ := (cataloged.stored ks).mp member
    have named := same.symm.trans (live_named db cataloged name ks found)
    have otherFound := (cataloged_lookup db cataloged name other).mpr ⟨otherMember, named⟩
    exact Option.some.inj (found.symm.trans otherFound)
  obtain ⟨highestId, keyspaces, trees, loop, found, opened, bounded⟩ :=
    recover_keyspaces_loop db.crash db.crash.folders liveNamed distinct
  have shape : recoverKeyspaces db.crash =
      { db.crash.bare with keyspaces := keyspaces, trees := trees, keyspaceIdCounter := highestId + 1 } := by
    rw [recoverKeyspaces, loop]
  have lookups : ∀ name, keyspaces.lookup name = db.keyspaces.lookup name := by
    intro name
    apply Option.ext
    intro ks
    rw [found]
    exact (cataloged_lookup db cataloged name ks).symm
  have lives : ∀ ks, (recoverKeyspaces db.crash).Live ks ↔ db.Live ks := by
    intro ks
    simp only [Database.Live, shape, lookups]
  constructor
  · constructor
    · intro id name
      rw [shape]
      simp only [lookups]
      exact cataloged.named id name
    · intro ks
      rw [lives, shape]
      exact cataloged.stored ks
    · intro ks live
      rw [shape]
      exact Nat.lt_succ_of_le (bounded ks ((cataloged.stored ks).mpr ((lives ks).mp live)))
  · rw [shape]
    exact lookups
  · intro ks live
    rw [shape]
    exact opened ks ((cataloged.stored ks).mpr live)
  · rw [shape]
    rfl
  · rw [shape]
    rfl
  · rw [shape]
    rfl

-- Folders of deleted keyspaces may still be there, as long as somebody holds a handle.
structure Shelved (db : Database Name K V) : Prop where
  named : ∀ id name, db.metaNames.lookup id = some name ↔ ∃ birth, db.keyspaces.lookup name = some ⟨id, birth⟩
  stored : ∀ ks, db.Live ks → ks ∈ db.folders
  known : ∀ ks ∈ db.folders, (db.metaNames.lookup ks.id).isSome → db.Live ks
  numbered : ∀ ks, db.Live ks → ks.id < db.keyspaceIdCounter

def Database.trimmed (db : Database Name K V) : Database Name K V :=
  { db with folders := db.folders.filter fun ks => (db.metaNames.lookup ks.id).isSome }

theorem shelved_trimmed (shelved : Shelved db) : Cataloged db.trimmed := by
  refine ⟨shelved.named, ?_, shelved.numbered⟩
  intro ks
  change ks ∈ db.folders.filter _ ↔ db.Live ks
  rw [List.mem_filter]
  constructor
  · exact fun kept => shelved.known ks kept.1 kept.2
  · intro live
    obtain ⟨name, found⟩ := live
    have named := (shelved.named ks.id name).mpr ⟨ks.birth, found⟩
    exact ⟨shelved.stored ks ⟨name, found⟩, by simp [named]⟩

-- recover_keyspaces drops the folders without a name and otherwise does not see them.
theorem recover_keyspaces_skips (tables : Nat → List (Entry K V)) (folders kept : List Keyspace) (highest other : Nat)
    (db : Database Name K V) :
    ∃ highestId, highest ≤ highestId ∧ (∀ ks ∈ folders, ks.id ≤ highestId) ∧
      folders.foldl (Database.recoverKeyspace tables) (highest, { db with folders := kept }) =
        (highestId,
          { ((folders.filter fun ks => (db.metaNames.lookup ks.id).isSome).foldl (Database.recoverKeyspace tables) (other, db)).2 with
            folders := kept.filter fun ks => folders.all fun folder =>
              (db.metaNames.lookup folder.id).isSome || ks.id != folder.id }) := by
  induction folders generalizing kept highest other db with
  | nil => exact ⟨highest, Nat.le_refl _, by simp, by simp⟩
  | cons folder rest ih =>
    cases named : db.metaNames.lookup folder.id with
    | none =>
      obtain ⟨highestId, raised, bounded, loop⟩ := ih (kept.filter fun other => other.id != folder.id)
        (max highest folder.id) other db
      refine ⟨highestId, Nat.le_trans (Nat.le_max_left _ _) raised, ?_, ?_⟩
      · exact List.forall_mem_cons.mpr ⟨Nat.le_trans (Nat.le_max_right _ _) raised, bounded⟩
      · rw [List.foldl_cons, Database.recoverKeyspace]
        simp only [named]
        rw [loop, List.filter_filter]
        simp [named, Bool.and_comm]
    | some name =>
      obtain ⟨highestId, raised, bounded, loop⟩ := ih kept (max highest folder.id) (max other folder.id)
        { db with
          keyspaces := db.keyspaces.insert name folder
          trees := Function.update db.trees folder.id (.recovered (tables folder.id)) }
      refine ⟨highestId, Nat.le_trans (Nat.le_max_left _ _) raised, ?_, ?_⟩
      · exact List.forall_mem_cons.mpr ⟨Nat.le_trans (Nat.le_max_right _ _) raised, bounded⟩
      · rw [List.foldl_cons, Database.recoverKeyspace]
        simp only [named]
        rw [loop]
        simp [named, Database.recoverKeyspace]

theorem shelved_reopens (shelved : Shelved db) : Reopened db (recoverKeyspaces db.crash) := by
  have reopened := recover_keyspaces_reopens db.trimmed (shelved_trimmed db shelved)
  obtain ⟨highestId, _, bounded, loop⟩ :=
    recover_keyspaces_skips db.crash.tables db.folders db.folders 1 1 db.trimmed.crash.bare
  have shape : ∃ folders, (∀ ks, ks ∈ folders ↔ db.Live ks) ∧
      recoverKeyspaces db.crash =
        { recoverKeyspaces db.trimmed.crash with keyspaceIdCounter := highestId + 1, folders := folders } := by
    refine ⟨_, ?_, congrArg (fun acc : Nat × Database Name K V => { acc.2 with keyspaceIdCounter := acc.1 + 1 }) loop⟩
    intro ks
    rw [List.mem_filter, List.all_eq_true]
    constructor
    · intro kept
      have own : ((db.metaNames.lookup ks.id).isSome || ks.id != ks.id) = true := kept.2 ks kept.1
      exact shelved.known ks kept.1 (by simpa using own)
    · intro live
      refine ⟨shelved.stored ks live, ?_⟩
      intro folder member
      obtain ⟨name, found⟩ := live
      have named : db.metaNames.lookup ks.id = some name := (shelved.named ks.id name).mpr ⟨ks.birth, found⟩
      by_cases same : ks.id = folder.id
      · have folderNamed : (db.metaNames.lookup folder.id).isSome = true := by rw [← same, named]; rfl
        exact Bool.or_eq_true_iff.mpr (.inl folderNamed)
      · simp [same]
  obtain ⟨folders, listed, shape⟩ := shape
  have lives : ∀ ks, (recoverKeyspaces db.crash).Live ks ↔ db.Live ks := by
    intro ks
    rw [shape]
    exact exists_congr fun name => by rw [reopened.keyspaces name]; rfl
  constructor
  · constructor
    · rw [shape]
      exact reopened.cataloged.named
    · intro ks
      rw [lives, shape]
      exact listed ks
    · intro ks live
      rw [shape]
      exact Nat.lt_succ_of_le (bounded ks (shelved.stored ks ((lives ks).mp live)))
  · rw [shape]
    exact reopened.keyspaces
  · rw [shape]
    exact reopened.trees
  · rw [shape]
    exact reopened.journal
  · rw [shape]
    exact reopened.sealedJournals
  · rw [shape]
    exact reopened.births

end OmryaKv.Storage
