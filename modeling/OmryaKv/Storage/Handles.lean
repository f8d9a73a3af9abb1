import OmryaKv.Storage.CrashRecovery

set_option autoImplicit false

namespace OmryaKv.Storage

open Lib

-- All clones of a handle share what is behind it, so they are one value here.
structure Handle (Name : Type) where
  name : Name
  keyspace : Keyspace
deriving DecidableEq

variable {Name K V : Type}

def Op.writes : Op Name K V → Bool
  | .insert _ _ _ | .remove _ _ | .removeWeak _ _ | .commit _ | .clear _ => true
  | _ => false

-- clear and commit do not look at is_deleted.
def Op.refused (flagged : List Keyspace) : Op Name K V → Bool
  | .insert ks _ _ | .remove ks _ | .removeWeak ks _ => decide (ks ∈ flagged)
  | _ => false

-- handles are those still held, a clone counting once more. flagged are the keyspaces
-- with is_deleted set. obtained and acked remember all handles and all writes that were
-- answered with Ok.
structure Clients (Name K V : Type) where
  db : Database Name K V
  handles : List (Handle Name)
  flagged : List Keyspace
  obtained : List (Handle Name)
  acked : List (Batch K V)

inductive ClientOp (Name K V : Type) where
  | keyspace (name : Name)
  | clone (h : Handle Name)
  | drop (h : Handle Name)
  | write (op : Op Name K V)
  | deleteKeyspace (h : Handle Name)

variable [DecidableEq Name]

-- MetaKeyspace::remove_keyspace, which is told a name and nothing else.
def Database.removeKeyspace (db : Database Name K V) (name : Name) : Database Name K V :=
  match db.keyspaces.lookup name with
  | none => db
  | some ks =>
    { db with seqno := db.seqno + 2, metaNames := db.metaNames.erase ks.id, keyspaces := db.keyspaces.erase name }

namespace Clients

def new : Clients Name K V := ⟨.new, [], [], [], []⟩

def openKeyspace (c : Clients Name K V) (name : Name) : Clients Name K V :=
  let h : Handle Name := ⟨name, (c.db.keyspaces.lookup name).getD ⟨c.db.keyspaceIdCounter, c.db.births⟩⟩
  { c with db := c.db.keyspace name, handles := h :: c.handles, obtained := h :: c.obtained }

def InUse (c : Clients Name K V) (ks : Keyspace) : Prop :=
  (∃ h ∈ c.handles, h.keyspace = ks) ∨ ∃ entry ∈ c.db.keyspaces.entries, entry.2 = ks

instance (c : Clients Name K V) (ks : Keyspace) : Decidable (c.InUse ks) := inferInstanceAs (Decidable (_ ∨ _))

-- Dropping the last reference to a deleted keyspace removes its folder.
def release (c : Clients Name K V) (ks : Keyspace) : Clients Name K V :=
  if ks ∈ c.flagged ∧ ¬ c.InUse ks then
    { c with db := { c.db with folders := c.db.folders.filter fun folder => folder.id != ks.id } }
  else c

def dropHandle (c : Clients Name K V) (h : Handle Name) : Clients Name K V :=
  { c with handles := c.handles.erase h }.release h.keyspace

def deleteKeyspace (c : Clients Name K V) (h : Handle Name) : Clients Name K V :=
  { c with
    db := c.db.removeKeyspace h.name
    flagged := h.keyspace :: c.flagged
    handles := c.handles.erase h }.release h.keyspace

end Clients

inductive ClientStep : Clients Name K V → ClientOp Name K V → Clients Name K V → Prop where
  | keyspace (c : Clients Name K V) (name : Name) : ClientStep c (.keyspace name) (c.openKeyspace name)
  | clone (c : Clients Name K V) (h : Handle Name) (held : h ∈ c.handles) :
      ClientStep c (.clone h) { c with handles := h :: c.handles }
  | drop (c : Clients Name K V) (h : Handle Name) (held : h ∈ c.handles) : ClientStep c (.drop h) (c.dropHandle h)
  | refused (c : Clients Name K V) (op : Op Name K V) (deleted : op.refused c.flagged = true) : ClientStep c (.write op) c
  | written (c : Clients Name K V) (op : Op Name K V) (next : Database Name K V) (writes : op.writes = true)
      (held : op.Through fun ks => ∃ h ∈ c.handles, h.keyspace = ks) (accepted : op.refused c.flagged = false)
      (performed : c.db.perform op = .ok next) :
      ClientStep c (.write op) { c with db := next, acked := c.acked ++ (op.batch c.db.seqno).toList }
  | deleteKeyspace (c : Clients Name K V) (h : Handle Name) (held : h ∈ c.handles) :
      ClientStep c (.deleteKeyspace h) (c.deleteKeyspace h)

-- The dictionary and the meta keyspace lose nothing but what has the id.
structure OnlyRemoves (ks : Keyspace) (db next : Database Name K V) : Prop where
  keyspaces : ∀ name other, other.id ≠ ks.id → (next.keyspaces.lookup name = some other ↔ db.keyspaces.lookup name = some other)
  metaNames : ∀ id, id ≠ ks.id → next.metaNames.lookup id = db.metaNames.lookup id

-- What the acknowledged writes to a keyspace amount to, one after the other.
def Clients.acknowledged (c : Clients Name K V) (ks : Keyspace) : Tree K V :=
  (journalEvents ks.id c.acked).foldl Tree.replay .empty

-- After a restart every keyspace that was not passed to delete_keyspace is there and shows what was acknowledged.
def Clients.Durable [DecidableEq K] (c : Clients Name K V) : Prop :=
  ∀ order, ∃ next, recover order c.db.crash = .ok next ∧ ∀ h ∈ c.obtained, h.keyspace ∉ c.flagged →
    next.keyspaces.lookup h.name = some h.keyspace ∧
      ∀ key, (next.trees h.keyspace.id).get key = (c.acknowledged h.keyspace).get key

-- The name of the handle has not been given to another keyspace meanwhile.
def OwnsName (c : Clients Name K V) : ClientOp Name K V → Prop
  | .deleteKeyspace h => ∀ ks, c.db.keyspaces.lookup h.name = some ks → ks = h.keyspace
  | _ => True

variable (db : Database Name K V)

theorem remove_missing (name : Name) (absent : db.keyspaces.lookup name = none) : db.removeKeyspace name = db := by
  simp [Database.removeKeyspace, absent]

theorem remove_existing (name : Name) (ks : Keyspace) (found : db.keyspaces.lookup name = some ks) : db.removeKeyspace name =
      { db with seqno := db.seqno + 2, metaNames := db.metaNames.erase ks.id, keyspaces := db.keyspaces.erase name } := by
  simp [Database.removeKeyspace, found]

-- Apart from the folder this is the deletion by name.
theorem remove_matches_delete (name : Name) : (db.removeKeyspace name).metaNames = (db.trimmed.deleteKeyspace name).metaNames ∧
      (db.removeKeyspace name).keyspaces = (db.trimmed.deleteKeyspace name).keyspaces := by
  cases found : db.keyspaces.lookup name with
  | none =>
    rw [remove_missing db name found, delete_missing db.trimmed name found]
    exact ⟨rfl, rfl⟩
  | some ks =>
    rw [remove_existing db name ks found, delete_existing db.trimmed name ks found]
    exact ⟨rfl, rfl⟩

theorem live_after_remove (shelved : Shelved db) (name : Name) (removed : Keyspace)
    (found : db.keyspaces.lookup name = some removed) (ks : Keyspace) :
    (db.removeKeyspace name).Live ks ↔ db.Live ks ∧ ks.id ≠ removed.id := by
  have deleted := live_after_delete db.trimmed (shelved_trimmed db shelved) name removed found ks
  rw [Database.Live, ← (remove_matches_delete db name).2] at deleted
  exact deleted

theorem shelved_remove (shelved : Shelved db) (name : Name) : Shelved (db.removeKeyspace name) := by
  cases found : db.keyspaces.lookup name with
  | none => rwa [remove_missing db name found]
  | some removed =>
    have lives := live_after_remove db shelved name removed found
    obtain ⟨names, keyspaces⟩ := remove_matches_delete db name
    have shape := remove_existing db name removed found
    refine ⟨?_, ?_, ?_, ?_⟩
    · rw [names, keyspaces]
      exact (cataloged_delete db.trimmed (shelved_trimmed db shelved) name).named
    · intro ks live
      rw [shape]
      exact shelved.stored ks ((lives ks).mp live).1
    · intro ks member named
      rw [shape] at member named
      have different : ks.id ≠ removed.id := by
        intro same
        rw [same, AList.lookup_erase] at named
        cases named
      rw [AList.lookup_erase_ne different] at named
      exact (lives ks).mpr ⟨shelved.known ks member named, different⟩
    · intro ks live
      rw [shape]
      exact shelved.numbered ks ((lives ks).mp live).1

theorem ledger_remove (shelved : Shelved db) (ledger : Ledger db) (name : Name) : Ledger (db.removeKeyspace name) := by
  cases found : db.keyspaces.lookup name with
  | none => rwa [remove_missing db name found]
  | some removed =>
    have lives := live_after_remove db shelved name removed found
    rw [remove_existing db name removed found] at lives ⊢
    refine ⟨ledger.intact, ledger.issued, ?_⟩
    intro ks live
    obtain ⟨evicted, accounted⟩ := ledger.accounted ks ((lives ks).mp live).1
    exact ⟨evicted, accounted_bound _ _ _ _ accounted (Nat.le_add_right _ _)⟩

theorem shelved_created (shelved : Shelved db) (name : Name) (absent : db.keyspaces.lookup name = none)
    (unknown : ∀ ks ∈ db.folders, ks.id < db.keyspaceIdCounter) :
    Shelved (db.keyspace name) := by
  have cataloged := cataloged_keyspace db.trimmed (shelved_trimmed db shelved) name
  have lives := live_after_keyspace db name absent
  have shape := keyspace_created db name absent
  have trimmed := keyspace_created db.trimmed name absent
  refine ⟨?_, ?_, ?_, ?_⟩
  · rw [shape]
    rw [trimmed] at cataloged
    exact cataloged.named
  · intro ks live
    rw [shape]
    cases (lives ks).mp live with
    | inl fresh => exact List.mem_cons.mpr (.inl fresh)
    | inr old => exact List.mem_cons_of_mem _ (shelved.stored ks old)
  · intro ks member named
    rw [shape] at member named
    cases List.mem_cons.mp member with
    | inl fresh => exact (lives ks).mpr (.inl fresh)
    | inr old =>
      rw [AList.lookup_insert_ne (Nat.ne_of_lt (unknown ks old))] at named
      exact (lives ks).mpr (.inr (shelved.known ks old named))
  · intro ks live
    rw [shape]
    cases (lives ks).mp live with
    | inl fresh =>
      rw [fresh]
      exact Nat.lt_succ_self _
    | inr old => exact Nat.lt_succ_of_lt (shelved.numbered ks old)

-- What holds whatever handles are passed to delete_keyspace.
structure ClientInv (c : Clients Name K V) : Prop where
  shelved : Shelved c.db
  ledger : Ledger c.db
  folders : ∀ ks ∈ c.db.folders, ks.id < c.db.keyspaceIdCounter
  held : ∀ h ∈ c.handles, h ∈ c.obtained
  issued : ∀ h ∈ c.obtained, h.keyspace.id < c.db.keyspaceIdCounter
  same : ∀ h ∈ c.obtained, ∀ other ∈ c.obtained, h.keyspace.id = other.keyspace.id → h = other
  listed : ∀ name ks, c.db.keyspaces.lookup name = some ks → ⟨name, ks⟩ ∈ c.obtained
  flagged : ∀ ks ∈ c.flagged, ∃ h ∈ c.obtained, h.keyspace = ks
  gone : ∀ ks ∈ c.flagged, ¬ c.db.Live ks
  silent : ∀ batch ∈ c.acked, ∀ id, c.db.keyspaceIdCounter ≤ id → batch.events id = []
  replayed : ∀ h ∈ c.obtained, c.db.trees h.keyspace.id = c.acknowledged h.keyspace

theorem client_inv_new : ClientInv (Clients.new : Clients Name K V) := by
  have shelved : Shelved (Database.new : Database Name K V) := by
    have cataloged : Cataloged (Database.new : Database Name K V) := cataloged_new
    refine ⟨cataloged.named, fun ks => (cataloged.stored ks).mpr, fun _ member => ?_, cataloged.numbered⟩
    cases member
  refine ⟨shelved, sound_new.ledger, ?_, ?_, ?_, ?_, ?_, ?_, ?_, ?_, ?_⟩ <;> simp [Clients.new, Database.new]

variable (c : Clients Name K V)

omit [DecidableEq Name] in
theorem acknowledged_append (ks : Keyspace) (batches : List (Batch K V)) (db : Database Name K V) :
    ({ c with db := db, acked := c.acked ++ batches }).acknowledged ks =
      (journalEvents ks.id batches).foldl Tree.replay (c.acknowledged ks) := by
  rw [Clients.acknowledged, Clients.acknowledged, journalEvents, List.flatMap_append, List.foldl_append]
  rfl

theorem live_obtained (inv : ClientInv c) (ks : Keyspace) (live : c.db.Live ks) (h : Handle Name) (member : h ∈ c.obtained)
    (same : ks.id = h.keyspace.id) : c.db.keyspaces.lookup h.name = some ks ∧ ks = h.keyspace := by
  obtain ⟨name, found⟩ := live
  have equal := inv.same ⟨name, ks⟩ (inv.listed name ks found) h member same
  subst equal
  exact ⟨found, rfl⟩

theorem client_inv_release (inv : ClientInv c) (ks : Keyspace) : ClientInv (c.release ks) := by
  rw [Clients.release]
  split
  · rename_i unused
    obtain ⟨deleted, _⟩ := unused
    obtain ⟨h, member, same⟩ := inv.flagged ks deleted
    have apart : ∀ other, c.db.Live other → other.id ≠ ks.id := by
      intro other live equal
      have found := (live_obtained c inv other live h member (equal.trans (congrArg Keyspace.id same.symm))).2
      exact inv.gone ks deleted (same ▸ found ▸ live)
    refine { inv with shelved := ⟨inv.shelved.named, ?_, ?_, inv.shelved.numbered⟩, folders := ?_
                      ledger := ⟨inv.ledger.intact, inv.ledger.issued, inv.ledger.accounted⟩ }
    · exact fun other live => List.mem_filter.mpr ⟨inv.shelved.stored other live, by simpa using apart other live⟩
    · exact fun other kept => inv.shelved.known other (List.mem_filter.mp kept).1
    · exact fun other kept => inv.folders other (List.mem_filter.mp kept).1
  · exact inv

theorem lookup_after_remove (removed name : Name) (ks : Keyspace)
    (found : (db.removeKeyspace removed).keyspaces.lookup name = some ks) : db.keyspaces.lookup name = some ks := by
  cases there : db.keyspaces.lookup removed with
  | none => rwa [remove_missing db removed there] at found
  | some other =>
    rw [remove_existing db removed other there] at found
    by_cases same : name = removed
    · rw [same, AList.lookup_erase] at found
      cases found
    · rwa [AList.lookup_erase_ne same] at found

theorem remove_frame (name : Name) : (db.removeKeyspace name).folders = db.folders ∧ (db.removeKeyspace name).trees = db.trees ∧
      (db.removeKeyspace name).keyspaceIdCounter = db.keyspaceIdCounter := by
  rw [Database.removeKeyspace]
  split <;> exact ⟨rfl, rfl, rfl⟩

theorem deleted_not_live (inv : ClientInv c) (h : Handle Name) (member : h ∈ c.obtained) :
    ¬ (c.db.removeKeyspace h.name).Live h.keyspace := by
  intro live
  have before : c.db.Live h.keyspace := live.imp fun name found => lookup_after_remove c.db h.name name h.keyspace found
  obtain ⟨found, _⟩ := live_obtained c inv h.keyspace before h member rfl
  exact ((live_after_remove c.db inv.shelved h.name h.keyspace found h.keyspace).mp live).2 rfl

theorem client_inv_delete (inv : ClientInv c) (h : Handle Name) (held : h ∈ c.handles) : ClientInv (c.deleteKeyspace h) := by
  obtain ⟨folders, trees, counter⟩ := remove_frame c.db h.name
  have member := inv.held h held
  apply client_inv_release
  refine { inv with
    shelved := shelved_remove c.db inv.shelved h.name, ledger := ledger_remove c.db inv.shelved inv.ledger h.name
    folders := ?_, held := ?_, issued := ?_, listed := ?_, flagged := ?_, gone := ?_, silent := ?_, replayed := ?_ }
  · rw [folders, counter]
    exact inv.folders
  · exact fun other kept => inv.held other (List.mem_of_mem_erase kept)
  · rw [counter]
    exact inv.issued
  · exact fun name ks found => inv.listed name ks (lookup_after_remove c.db h.name name ks found)
  · exact List.forall_mem_cons.mpr ⟨⟨h, member, rfl⟩, inv.flagged⟩
  · refine List.forall_mem_cons.mpr ⟨deleted_not_live c inv h member, ?_⟩
    exact fun ks deleted live => inv.gone ks deleted
      (live.imp fun name found => lookup_after_remove c.db h.name name ks found)
  · rw [counter]
    exact inv.silent
  · rw [trees]
    exact inv.replayed

theorem client_inv_created (inv : ClientInv c) (name : Name) (absent : c.db.keyspaces.lookup name = none) :
    ClientInv (c.openKeyspace name) := by
  have shape := keyspace_created c.db name absent
  have lives := live_after_keyspace c.db name absent
  have fresh : ∀ h ∈ c.obtained, h.keyspace.id ≠ c.db.keyspaceIdCounter := fun h member => Nat.ne_of_lt (inv.issued h member)
  have counter : (c.db.keyspace name).keyspaceIdCounter = c.db.keyspaceIdCounter + 1 := by rw [shape]
  rw [Clients.openKeyspace, absent, Option.getD_none]
  constructor
  · exact shelved_created c.db inv.shelved name absent inv.folders
  · exact ledger_created c.db inv.ledger inv.shelved.numbered name absent
  · rw [shape]
    exact List.forall_mem_cons.mpr ⟨Nat.lt_succ_self _, fun ks member => Nat.lt_succ_of_lt (inv.folders ks member)⟩
  · exact List.forall_mem_cons.mpr ⟨List.mem_cons_self, fun h member => List.mem_cons_of_mem _ (inv.held h member)⟩
  · rw [counter]
    exact List.forall_mem_cons.mpr ⟨Nat.lt_succ_self _, fun h member => Nat.lt_succ_of_lt (inv.issued h member)⟩
  · intro h member other otherMember same
    cases List.mem_cons.mp member with
    | inl first =>
      cases List.mem_cons.mp otherMember with
      | inl second => rw [first, second]
      | inr old =>
        rw [first] at same
        exact absurd same.symm (fresh other old)
    | inr old =>
      cases List.mem_cons.mp otherMember with
      | inl second =>
        rw [second] at same
        exact absurd same (fresh h old)
      | inr older => exact inv.same h old other older same
  · intro other ks found
    rw [shape] at found
    by_cases same : other = name
    · rw [same, AList.lookup_insert, Option.some.injEq] at found
      rw [same, ← found]
      exact List.mem_cons_self
    · rw [AList.lookup_insert_ne same] at found
      exact List.mem_cons_of_mem _ (inv.listed other ks found)
  · intro ks deleted
    obtain ⟨h, member, same⟩ := inv.flagged ks deleted
    exact ⟨h, List.mem_cons_of_mem _ member, same⟩
  · intro ks deleted live
    cases (lives ks).mp live with
    | inr old => exact inv.gone ks deleted old
    | inl first =>
      obtain ⟨h, member, same⟩ := inv.flagged ks deleted
      exact fresh h member (by rw [same, first])
  · rw [counter]
    exact fun batch member id unissued => inv.silent batch member id (Nat.le_of_succ_le unissued)
  · refine List.forall_mem_cons.mpr ⟨?_, ?_⟩
    · have nothing : journalEvents c.db.keyspaceIdCounter c.acked = [] := by
        rw [journalEvents, List.flatMap_eq_nil_iff]
        exact fun batch member => inv.silent batch member _ (Nat.le_refl _)
      rw [shape]
      simp [Clients.acknowledged, nothing]
    · intro h member
      rw [shape]
      simp only [Function.update_of_ne (fresh h member)]
      exact inv.replayed h member

theorem client_inv_opened (inv : ClientInv c) (name : Name) : ClientInv (c.openKeyspace name) := by
  cases found : c.db.keyspaces.lookup name with
  | none => exact client_inv_created c inv name found
  | some ks =>
    have known := inv.listed name ks found
    have listed : ∀ h, h ∈ (⟨name, ks⟩ : Handle Name) :: c.obtained → h ∈ c.obtained :=
      List.forall_mem_cons.mpr ⟨known, fun _ => id⟩
    rw [Clients.openKeyspace, keyspace_existing c.db name ks found, found, Option.getD_some]
    refine { inv with held := ?_, issued := ?_, same := ?_, listed := ?_, flagged := ?_, replayed := ?_ }
    · exact List.forall_mem_cons.mpr ⟨List.mem_cons_self, fun h member => List.mem_cons_of_mem _ (inv.held h member)⟩
    · exact fun h member => inv.issued h (listed h member)
    · exact fun h member other otherMember => inv.same h (listed h member) other (listed other otherMember)
    · exact fun other ks found => List.mem_cons_of_mem _ (inv.listed other ks found)
    · intro ks deleted
      obtain ⟨h, member, same⟩ := inv.flagged ks deleted
      exact ⟨h, List.mem_cons_of_mem _ member, same⟩
    · exact fun h member => inv.replayed h (listed h member)

theorem unlogged_write_idle (db next : Database Name K V) (op : Op Name K V) (writes : op.writes = true)
    (performed : db.perform op = .ok next) (unlogged : op.batch db.seqno = none) : next = db := by
  cases perform_silent db next op performed unlogged with
  | emptyCommit batch => rfl
  | _ => cases writes

theorem client_inv_written (inv : ClientInv c) (op : Op Name K V) (next : Database Name K V) (writes : op.writes = true)
    (held : op.Through fun ks => ∃ h ∈ c.handles, h.keyspace = ks)
    (performed : c.db.perform op = .ok next) :
    ClientInv { c with db := next, acked := c.acked ++ (op.batch c.db.seqno).toList } := by
  cases logged : op.batch c.db.seqno with
  | none =>
    rw [Option.toList_none, List.append_nil, unlogged_write_idle c.db next op writes performed logged]
    exact inv
  | some batch =>
    obtain ⟨rfl, seqno, intact⟩ := perform_writes c.db next op performed batch logged
    have numbered : ∀ ks, (∃ h ∈ c.handles, h.keyspace = ks) → ks.id < c.db.keyspaceIdCounter := by
      intro ks used
      obtain ⟨h, member, same⟩ := used
      rw [← same]
      exact inv.issued h (inv.held h member)
    obtain ⟨items, marks⟩ := batch_through _ op c.db.seqno batch held logged
    have silent := numbered_events c.db.keyspaceIdCounter batch (fun item member => numbered _ (items item member))
      fun mark member => numbered _ (marks mark member)
    refine { inv with
      shelved := ⟨inv.shelved.named, inv.shelved.stored, inv.shelved.known, inv.shelved.numbered⟩
      ledger := ledger_wrote c.db inv.ledger batch seqno intact silent, silent := ?_, replayed := ?_ }
    · refine List.forall_mem_append.mpr ⟨inv.silent, ?_⟩
      intro other member
      rw [List.mem_singleton.mp member]
      exact silent
    · intro h member
      rw [acknowledged_append, ← inv.replayed h member]
      simp [journalEvents, Database.batched, Database.journaled]

theorem client_step_inv (c next : Clients Name K V) (op : ClientOp Name K V) (inv : ClientInv c) (step : ClientStep c op next) :
    ClientInv next := by
  cases step with
  | keyspace name => exact client_inv_opened c inv name
  | clone h held => exact { inv with held := List.forall_mem_cons.mpr ⟨inv.held h held, inv.held⟩ }
  | drop h held =>
    apply client_inv_release
    exact { inv with held := fun other kept => inv.held other (List.mem_of_mem_erase kept) }
  | refused op deleted => exact inv
  | written op after writes held accepted performed => exact client_inv_written c inv op after writes held performed
  | deleteKeyspace h held => exact client_inv_delete c inv h held

def Clients.Kept (c : Clients Name K V) : Prop :=
  ∀ h ∈ c.obtained, h.keyspace ∉ c.flagged → c.db.keyspaces.lookup h.name = some h.keyspace

theorem durable_iff_kept [DecidableEq K] (c : Clients Name K V) (inv : ClientInv c) : c.Durable ↔ c.Kept := by
  have recovers (order : IterationOrder Nat) := ledger_recovers order c.db inv.ledger (shelved_reopens c.db inv.shelved)
  constructor
  · intro durable h member alive
    obtain ⟨next, recovered, found⟩ := durable CountMap.inStoredOrder
    obtain ⟨other, completed, keyspaces, _⟩ := recovers CountMap.inStoredOrder
    rw [completed] at recovered
    cases recovered
    rw [← keyspaces]
    exact (found h member alive).1
  · intro kept order
    obtain ⟨next, recovered, keyspaces, trees⟩ := recovers order
    refine ⟨next, recovered, ?_⟩
    intro h member alive
    have found := kept h member alive
    refine ⟨(keyspaces h.name).trans found, ?_⟩
    intro key
    rw [trees h.keyspace ⟨h.name, found⟩, inv.replayed h member]

omit [DecidableEq Name] in
theorem release_frame (ks : Keyspace) :
    (c.release ks).db.keyspaces = c.db.keyspaces ∧ (c.release ks).db.metaNames = c.db.metaNames ∧
      (c.release ks).obtained = c.obtained ∧ (c.release ks).flagged = c.flagged := by
  rw [Clients.release]
  split <;> exact ⟨rfl, rfl, rfl, rfl⟩

theorem delete_frame (h : Handle Name) : (c.deleteKeyspace h).db.keyspaces = (c.db.removeKeyspace h.name).keyspaces ∧
      (c.deleteKeyspace h).db.metaNames = (c.db.removeKeyspace h.name).metaNames ∧
      (c.deleteKeyspace h).obtained = c.obtained ∧ (c.deleteKeyspace h).flagged = h.keyspace :: c.flagged :=
  release_frame _ _

theorem delete_kept (h : Handle Name) (kept : c.Kept)
    (owns : ∀ ks, c.db.keyspaces.lookup h.name = some ks → ks = h.keyspace) : (c.deleteKeyspace h).Kept := by
  obtain ⟨keyspaces, _, obtained, flagged⟩ := delete_frame c h
  intro other member alive
  rw [obtained] at member
  rw [flagged, List.mem_cons, not_or] at alive
  have found := kept other member alive.2
  rw [keyspaces]
  cases there : c.db.keyspaces.lookup h.name with
  | none => rwa [remove_missing c.db h.name there]
  | some ks =>
    have different : other.name ≠ h.name := by
      intro same
      rw [same, there, Option.some.injEq] at found
      exact alive.1 (found.symm.trans (owns ks there))
    rw [remove_existing c.db h.name ks there]
    exact (AList.lookup_erase_ne different).trans found

-- A name that went to another keyspace takes that one away.
theorem delete_loses (inv : ClientInv c) (h : Handle Name) (other : Keyspace)
    (taken : c.db.keyspaces.lookup h.name = some other) (different : other ≠ h.keyspace) : ¬ (c.deleteKeyspace h).Kept := by
  obtain ⟨keyspaces, _, obtained, flagged⟩ := delete_frame c h
  intro kept
  have alive : other ∉ h.keyspace :: c.flagged := by
    rw [List.mem_cons, not_or]
    exact ⟨different, fun deleted => inv.gone other deleted ⟨h.name, taken⟩⟩
  have found := kept ⟨h.name, other⟩ (by rw [obtained]; exact inv.listed h.name other taken)
    (by rw [flagged]; exact alive)
  rw [keyspaces, remove_existing c.db h.name other taken] at found
  exact nomatch (AList.lookup_erase h.name c.db.keyspaces).symm.trans found

theorem only_removes_iff (inv : ClientInv c) (h : Handle Name) (member : h ∈ c.obtained) :
    OnlyRemoves h.keyspace c.db (c.db.removeKeyspace h.name) ↔
      ∀ ks, c.db.keyspaces.lookup h.name = some ks → ks = h.keyspace := by
  constructor
  · intro only ks taken
    by_contra different
    have otherId : ks.id ≠ h.keyspace.id := fun same => different (live_obtained c inv ks ⟨h.name, taken⟩ h member same).2
    have kept := (only.keyspaces h.name ks otherId).mpr taken
    rw [remove_existing c.db h.name ks taken] at kept
    exact nomatch (AList.lookup_erase h.name c.db.keyspaces).symm.trans kept
  · intro owns
    cases there : c.db.keyspaces.lookup h.name with
    | none =>
      rw [remove_missing c.db h.name there]
      exact ⟨fun _ _ _ => Iff.rfl, fun _ _ => rfl⟩
    | some ks =>
      have own := owns ks there
      subst own
      rw [remove_existing c.db h.name h.keyspace there]
      constructor
      · intro name other otherId
        by_cases same : name = h.name
        · rw [same, there, Option.some.injEq]
          constructor
          · exact fun found => nomatch (AList.lookup_erase h.name c.db.keyspaces).symm.trans found
          · exact fun equal => absurd (congrArg Keyspace.id equal.symm) otherId
        · exact Iff.of_eq (congrArg (· = some other) (AList.lookup_erase_ne same))
      · exact fun id otherId => AList.lookup_erase_ne otherId

theorem step_kept (c next : Clients Name K V) (op : ClientOp Name K V) (kept : c.Kept) (step : ClientStep c op next)
    (owns : OwnsName c op) : next.Kept := by
  cases step with
  | deleteKeyspace h held => exact delete_kept c h kept owns
  | clone h held => exact kept
  | refused op deleted => exact kept
  | drop h held =>
    obtain ⟨keyspaces, _, obtained, flagged⟩ := release_frame { c with handles := c.handles.erase h } h.keyspace
    rw [Clients.Kept, Clients.dropHandle, keyspaces, obtained, flagged]
    exact kept
  | written op after writes held accepted performed =>
    have keyspaces : after.keyspaces = c.db.keyspaces := by
      cases logged : op.batch c.db.seqno with
      | some batch => rw [(perform_writes c.db after op performed batch logged).1]; rfl
      | none =>
        rw [unlogged_write_idle c.db after op writes performed logged]
    intro h member alive
    rw [keyspaces]
    exact kept h member alive
  | keyspace name =>
    intro h member alive
    cases found : c.db.keyspaces.lookup name with
    | some ks =>
      rw [Clients.openKeyspace, found, Option.getD_some] at member
      rw [Clients.openKeyspace, keyspace_existing c.db name ks found]
      cases List.mem_cons.mp member with
      | inl first =>
        rw [first]
        exact found
      | inr old => exact kept h old alive
    | none =>
      rw [Clients.openKeyspace, found, Option.getD_none] at member
      rw [Clients.openKeyspace, keyspace_created c.db name found]
      cases List.mem_cons.mp member with
      | inl first =>
        rw [first]
        exact AList.lookup_insert _
      | inr old =>
        have there := kept h old alive
        have different : h.name ≠ name := by
          intro same
          rw [same, found] at there
          cases there
        exact (AList.lookup_insert_ne different).trans there

theorem deletion_stays_with_its_keyspace [DecidableEq K] (ops : List (ClientOp Name K V)) (c : Clients Name K V)
    (run : Run (Guarded ClientStep OwnsName) Clients.new ops c) :
    c.Durable ∧ ∀ h next, ClientStep c (.deleteKeyspace h) next →
      (OnlyRemoves h.keyspace c.db next.db ↔ OwnsName c (.deleteKeyspace h)) ∧
        (next.Durable ↔ OwnsName c (.deleteKeyspace h)) := by
  have reached : ClientInv c ∧ c.Kept := by
    refine run_invariant _ (fun c => ClientInv c ∧ c.Kept) ?_ run ⟨client_inv_new, fun _ member => nomatch member⟩
    intro c op next inv step
    exact ⟨client_step_inv c next op inv.1 step.2, step_kept c next op inv.2 step.2 step.1⟩
  obtain ⟨inv, kept⟩ := reached
  refine ⟨(durable_iff_kept c inv).mpr kept, ?_⟩
  intro h next step
  have nextInv := client_step_inv c next _ inv step
  cases step with
  | deleteKeyspace _ held =>
    constructor
    · obtain ⟨keyspaces, names, _, _⟩ := delete_frame c h
      have same : OnlyRemoves h.keyspace c.db (c.deleteKeyspace h).db ↔
          OnlyRemoves h.keyspace c.db (c.db.removeKeyspace h.name) :=
        ⟨fun removes => ⟨keyspaces ▸ removes.keyspaces, names ▸ removes.metaNames⟩,
          fun removes => ⟨keyspaces ▸ removes.keyspaces, names ▸ removes.metaNames⟩⟩
      exact same.trans (only_removes_iff c inv h (inv.held h held))
    · rw [durable_iff_kept _ nextInv]
      constructor
      · intro nextKept ks taken
        by_contra different
        exact delete_loses c inv h ks taken different nextKept
      · exact delete_kept c h kept

theorem recreated_keyspace_kept :
    ∃ c : Clients Nat Nat Nat,
      Run (Guarded ClientStep OwnsName) Clients.new
          [.keyspace 0, .write (.insert ⟨1, 0⟩ 5 50), .clone ⟨0, ⟨1, 0⟩⟩, .deleteKeyspace ⟨0, ⟨1, 0⟩⟩, .keyspace 0,
            .write (.insert ⟨2, 1⟩ 5 51)] c ∧
        ⟨0, ⟨2, 1⟩⟩ ∈ c.obtained ∧ ⟨2, 1⟩ ∉ c.flagged ∧ (c.acknowledged ⟨2, 1⟩).get 5 = some 51 ∧ c.Durable := by
  have session : ∃ c : Clients Nat Nat Nat,
      Run (Guarded ClientStep OwnsName) Clients.new
          [.keyspace 0, .write (.insert ⟨1, 0⟩ 5 50), .clone ⟨0, ⟨1, 0⟩⟩, .deleteKeyspace ⟨0, ⟨1, 0⟩⟩, .keyspace 0,
            .write (.insert ⟨2, 1⟩ 5 51)] c ∧
        ⟨0, ⟨2, 1⟩⟩ ∈ c.obtained ∧ ⟨2, 1⟩ ∉ c.flagged ∧ (c.acknowledged ⟨2, 1⟩).get 5 = some 51 :=
    ⟨_, .cons _ _ ⟨trivial, .keyspace _ _⟩
      (.cons _ _ ⟨trivial, .written _ _ _ rfl ⟨⟨0, ⟨1, 0⟩⟩, by decide, rfl⟩ rfl rfl⟩
      (.cons _ _ ⟨trivial, .clone _ _ (by decide)⟩
      (.cons _ _ ⟨fun _ found => (Option.some.inj found).symm, .deleteKeyspace _ _ (by decide)⟩
      (.cons _ _ ⟨trivial, .keyspace _ _⟩
      (.cons _ _ ⟨trivial, .written _ _ _ rfl ⟨⟨0, ⟨2, 1⟩⟩, by decide, rfl⟩ rfl rfl⟩ (.nil _)))))),
      by decide, by decide, by decide⟩
  obtain ⟨c, run, obtained, alive, found⟩ := session
  exact ⟨c, run, obtained, alive, found, (deletion_stays_with_its_keyspace _ c run).1⟩

-- The clone of the old handle takes the new keyspace of the same name with it; its own handle goes on writing.
theorem stale_handle_deletes_new_keyspace :
    ∃ c : Clients Nat Nat Nat,
      Run ClientStep Clients.new
          [.keyspace 0, .clone ⟨0, ⟨1, 0⟩⟩, .deleteKeyspace ⟨0, ⟨1, 0⟩⟩, .keyspace 0, .write (.insert ⟨2, 1⟩ 5 51),
            .deleteKeyspace ⟨0, ⟨1, 0⟩⟩, .write (.insert ⟨2, 1⟩ 6 61)] c ∧
        ⟨0, ⟨2, 1⟩⟩ ∈ c.obtained ∧ ⟨2, 1⟩ ∉ c.flagged ∧ c.acked.length = 2 ∧
        ∃ next, recover CountMap.inStoredOrder c.db.crash = .ok next ∧ next.keyspaces.lookup 0 = none ∧
          (next.trees 2).get 5 = none ∧ (next.trees 2).get 6 = none :=
  ⟨_, .cons _ _ (.keyspace _ _) (.cons _ _ (.clone _ _ (by decide)) (.cons _ _ (.deleteKeyspace _ _ (by decide))
    (.cons _ _ (.keyspace _ _) (.cons _ _ (.written _ _ _ rfl ⟨⟨0, ⟨2, 1⟩⟩, by decide, rfl⟩ rfl rfl)
    (.cons _ _ (.deleteKeyspace _ _ (by decide))
    (.cons _ _ (.written _ _ _ rfl ⟨⟨0, ⟨2, 1⟩⟩, by decide, rfl⟩ rfl rfl) (.nil _))))))),
    by decide, by decide, rfl, _, rfl, by decide, by decide, by decide⟩

end OmryaKv.Storage
