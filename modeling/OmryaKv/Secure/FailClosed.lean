import OmryaKv.Secure.Keyspace
import OmryaKv.Secure.Tx

set_option autoImplicit false

namespace OmryaKv.Secure

open Lib

variable {I D α β : Type}

-- A failed call leaves the data alone, unless one of its effects is an excuse.
def FailsUntouched (excuse : Effect I → Prop) (m : SecureM I D α) : Prop :=
  ∀ w e next, m.run w = .error e next →
    ∃ effects, next.trace = w.trace ++ effects ∧ ((∀ effect ∈ effects, ¬ excuse effect) → next.data = w.data)

variable (security : SecurityProviders I)

section

variable (excuse : Effect I → Prop)

theorem fails_untouched_of_passive (m : SecureM I D α) (passive : Respects Passive m) : FailsUntouched excuse m := by
  intro w e next failed
  have moved := respects_error Passive m passive w next e failed
  obtain ⟨effects, traced, _⟩ := moved.traced
  exact ⟨effects, traced, fun _ => moved.data⟩

theorem fails_untouched_bind (m : SecureM I D α) (f : α → SecureM I D β) (first : Respects Passive m)
    (second : ∀ a, FailsUntouched excuse (f a)) : FailsUntouched excuse (m >>= f) := by
  intro w e last failed
  rcases bind_error m f w last e failed with early | ⟨a, next, completed, late⟩
  · exact fails_untouched_of_passive excuse m first w e last early
  · have moved := respects_ok Passive m first w next a completed
    obtain ⟨quiet, quietTrace, _⟩ := moved.traced
    obtain ⟨effects, traced, untouched⟩ := second a next e last late
    refine ⟨quiet ++ effects, by rw [traced, quietTrace, List.append_assoc], ?_⟩
    intro unexcused
    have same := untouched fun effect member => unexcused effect (List.mem_append_right _ member)
    exact same.trans moved.data

theorem fails_untouched_then (m : SecureM I D α) (b : β) (untouched : FailsUntouched excuse m) :
    FailsUntouched excuse (m >>= fun _ => pure b) := by
  intro w e last failed
  rcases bind_error m _ w last e failed with early | ⟨_, _, _, late⟩
  · exact untouched w e last early
  · cases late

-- Writing starts the same way everywhere: the permission, the canonical cell and
-- its key come before anything is touched.
theorem keyed_write_untouched (identity : I) (keyspace : String) (permission : KeyspacePermission) (cell : VersionedCell)
    (write : UserKey → SecureM I D α)
    (written : ∀ key, FailsUntouched excuse (write key)) :
    FailsUntouched excuse (do
      security.checkKeyspacePermission identity keyspace permission
      let canonicalCell ← lift (canonicalizeCell cell)
      let encodedKey ← lift canonicalCell.encode
      write encodedKey) := by
  apply fails_untouched_bind _ _ _ (SecurityProviders.check_passive _ _ _ _)
  intro _
  apply fails_untouched_bind _ _ _ (lift_passive _)
  intro canonicalCell
  apply fails_untouched_bind _ _ _ (lift_passive _)
  exact written

end

-- The only excuse a keyspace has: the raw write itself failed.
theorem raw_write_excused (raw : RawKeyspace) (change : Store → Store) :
    FailsUntouched (· = .rawWrite false) (raw.write change : SecureM I Store Unit) := by
  intro w e next failed
  rw [EStateM.run, RawKeyspace.write] at failed
  split at failed
  · cases failed
    exact ⟨[.rawWrite false], rfl, fun unexcused => absurd rfl (unexcused _ (by simp))⟩
  · cases failed

theorem stage_untouched (change : D → D) :
    FailsUntouched (fun _ => False) (Backend.stage change : SecureM I D Unit) := by
  intro w e next failed
  cases failed

namespace SecureKeyspace

variable (keyspace : SecureKeyspace I) (session : Session I)

section

variable (excuse : Effect I → Prop)
  (written : ∀ change, FailsUntouched excuse (keyspace.inner.write change : SecureM I Store Unit))

include written

theorem insert_version_untouched (cell : VersionedCell) (value : Bytes) :
    FailsUntouched excuse (keyspace.insertVersion session cell value) := by
  apply keyed_write_untouched
  intro encodedKey
  apply fails_untouched_bind _ _ _ (maybe_encrypt_passive _ _ _)
  intro storedValue
  exact written _

theorem delete_version_untouched (cell : VersionedCell) : FailsUntouched excuse (keyspace.deleteVersion session cell) := by
  apply keyed_write_untouched
  intro encodedKey
  exact written _

theorem write_untouched (prefixToRange : UserKey → KeyBounds) (operation : Operation)
    (writes : operation.isRead = false) : FailsUntouched excuse (keyspace.perform prefixToRange session operation) := by
  cases operation with
  | insertVersion cell value =>
    exact fails_untouched_then _ _ _ (keyspace.insert_version_untouched session excuse written cell value)
  | getVersion cell => cases writes
  | scanVersionedPrefix pfx scan => cases writes
  | deleteVersion cell => exact fails_untouched_then _ _ _ (keyspace.delete_version_untouched session excuse written cell)

end

end SecureKeyspace

namespace SecureTransaction

variable (tx : SecureTransaction I) (keyspace : SecureTxKeyspace)

theorem insert_version_untouched (backend : Backend D) (cell : VersionedCell) (value : Bytes) :
    FailsUntouched (fun _ => False) (tx.insertVersion backend keyspace cell value) := by
  apply keyed_write_untouched
  intro encodedKey
  apply fails_untouched_bind _ _ _ (maybe_encrypt_passive _ _ _)
  intro storedValue
  exact stage_untouched _

theorem delete_version_untouched (backend : Backend D) (cell : VersionedCell) :
    FailsUntouched (fun _ => False) (tx.deleteVersion backend keyspace cell) := by
  apply keyed_write_untouched
  intro encodedKey
  exact stage_untouched _

theorem write_untouched (prefixToRange : UserKey → KeyBounds) (backend : Backend D) (operation : Operation)
    (writes : operation.isRead = false) :
    FailsUntouched (fun _ => False) (tx.perform prefixToRange backend keyspace operation) := by
  cases operation with
  | insertVersion cell value => exact fails_untouched_then _ _ _ (tx.insert_version_untouched keyspace backend cell value)
  | getVersion cell => cases writes
  | scanVersionedPrefix pfx scan => cases writes
  | deleteVersion cell => exact fails_untouched_then _ _ _ (tx.delete_version_untouched keyspace backend cell)

end SecureTransaction

-- The trace only grows.
def Extends (w next : World I D) : Prop := ∃ effects, next.trace = w.trace ++ effects

theorem extends_bind (m : SecureM I D α) (f : α → SecureM I D β) (first : Respects Extends m)
    (second : ∀ a, Respects Extends (f a)) : Respects Extends (m >>= f) := by
  apply respects_bind Extends _ m f first second
  rintro a b c ⟨early, earlyTrace⟩ ⟨late, lateTrace⟩
  exact ⟨early ++ late, by rw [lateTrace, earlyTrace, List.append_assoc]⟩

theorem extends_of_passive (m : SecureM I D α) (passive : Respects Passive m) : Respects Extends m := by
  intro w
  obtain ⟨effects, traced, _⟩ := (passive w).traced
  exact ⟨effects, traced⟩

theorem read_extends (access : D → D × α) : Respects Extends (Backend.read access : SecureM I D α) :=
  fun _ => ⟨[.dataRead], rfl⟩

theorem RawKeyspace.get_extends (key : UserKey) : Respects Extends (RawKeyspace.get key : SecureM I Store (Option Bytes)) :=
  fun _ => ⟨[.dataRead], rfl⟩

theorem RawKeyspace.range_extends (bounds : KeyBounds) :
    Respects Extends (RawKeyspace.range bounds : SecureM I Store (List (UserKey × Bytes))) :=
  fun _ => ⟨[.dataRead], rfl⟩

-- What was on record when the data was first read.
def GrantedFirst (security : SecurityProviders I) (identity : I) (keyspace : String) (w last : World I D) : Prop :=
  ∃ before after, last.trace = w.trace ++ before ++ after ∧ (∀ effect ∈ before, effect.onData = false) ∧
    .asked identity keyspace .read true ∈ before ∧
    ∀ audit, security.audit = some audit → audit.failureMode = .failClosed →
      .audited (.keyspaceAccess identity keyspace) true ∈ before

theorem granted_first (identity : I) (keyspace : String) (f : Unit → SecureM I D α) (rest : ∀ a, Respects Extends (f a))
    (w last : World I D) (a : α)
    (completed : (security.checkKeyspacePermission identity keyspace .read >>= f).run w = .ok a last) :
    GrantedFirst security identity keyspace w last := by
  obtain ⟨_, next, passed, continued⟩ := bind_ok _ _ _ _ _ completed
  obtain ⟨before, beforeTrace, quiet, asked, audited⟩ := security.check_ok identity keyspace .read w next passed
  obtain ⟨after, afterTrace⟩ := respects_ok Extends _ (rest ()) next last a continued
  exact ⟨before, after, by rw [afterTrace, beforeTrace], quiet, asked, audited⟩

theorem granted_first_map (identity : I) (keyspace : String) (m : SecureM I D α) (f : α → β)
    (granted : ∀ w last a, m.run w = .ok a last → GrantedFirst security identity keyspace w last) (w last : World I D) (b : β)
    (completed : (m >>= fun a => pure (f a)).run w = .ok b last) : GrantedFirst security identity keyspace w last := by
  obtain ⟨a, next, ran, returned⟩ := bind_ok _ _ _ _ _ completed
  cases returned
  exact granted w last a ran

namespace SecureKeyspace

variable (keyspace : SecureKeyspace I) (session : Session I)

theorem read_granted (prefixToRange : UserKey → KeyBounds) (operation : Operation) (reads : operation.isRead = true)
    (w last : World I Store) (reply : Reply)
    (completed : (keyspace.perform prefixToRange session operation).run w = .ok reply last) :
    GrantedFirst keyspace.security session.identity keyspace.name w last := by
  cases operation with
  | insertVersion cell value => cases reads
  | deleteVersion cell => cases reads
  | getVersion cell =>
    refine granted_first_map _ _ _ _ _ (granted_first _ _ _ _ ?_) w last reply completed
    intro _
    apply extends_bind _ _ (extends_of_passive _ (lift_passive _))
    intro visible
    split
    · apply extends_bind _ _ (extends_of_passive _ (lift_passive _))
      intro encodedKey
      apply extends_bind _ _ (RawKeyspace.get_extends encodedKey)
      intro stored
      exact extends_of_passive _ (open_found_passive _ _ _)
    · exact extends_of_passive _ passive_refl
  | scanVersionedPrefix pfx scan =>
    refine granted_first_map _ _ _ _ _ (granted_first _ _ _ _ ?_) w last reply completed
    intro _
    apply extends_bind _ _ (extends_of_passive _ (lift_passive _))
    intro bounds
    apply extends_bind _ _ (RawKeyspace.range_extends bounds)
    intro records
    exact extends_of_passive _ (scan_entries_passive _ _ _ _ _)

end SecureKeyspace

namespace SecureTransaction

variable (tx : SecureTransaction I) (keyspace : SecureTxKeyspace)

theorem read_granted (prefixToRange : UserKey → KeyBounds) (backend : Backend D) (operation : Operation)
    (reads : operation.isRead = true) (w last : World I D) (reply : Reply)
    (completed : (tx.perform prefixToRange backend keyspace operation).run w = .ok reply last) :
    GrantedFirst tx.security tx.session.identity keyspace.name w last := by
  cases operation with
  | insertVersion cell value => cases reads
  | deleteVersion cell => cases reads
  | getVersion cell =>
    refine granted_first_map _ _ _ _ _ (granted_first _ _ _ _ ?_) w last reply completed
    intro _
    apply extends_bind _ _ (extends_of_passive _ (lift_passive _))
    intro encodedKey
    apply extends_bind _ _ (read_extends _)
    intro value
    apply extends_bind _ _ (extends_of_passive _ (lift_passive _))
    intro visible
    split
    · exact extends_of_passive _ (open_found_passive _ _ _)
    · exact extends_of_passive _ passive_refl
  | scanVersionedPrefix pfx scan =>
    refine granted_first_map _ _ _ _ _ (granted_first _ _ _ _ ?_) w last reply completed
    intro _
    apply extends_bind _ _ (extends_of_passive _ (lift_passive _))
    intro bounds
    apply extends_bind _ _ (read_extends _)
    intro records
    exact extends_of_passive _ (scan_entries_passive _ _ _ _ _)

end SecureTransaction

theorem secure_operations_fail_closed (prefixToRange : UserKey → KeyBounds) (trees : TxTrees) (operation : Operation) :
    (operation.isRead = false →
      (∀ (keyspace : SecureKeyspace I) (session : Session I) (w next : World I Store) (e : Error),
        (keyspace.perform prefixToRange session operation).run w = .error e next →
        ∃ effects, next.trace = w.trace ++ effects ∧ (.rawWrite false ∉ effects → next.data = w.data)) ∧
      (∀ (tx : SecureTransaction I) (keyspace : SecureTxKeyspace) (w next : World I SingleWriterTx) (e : Error),
        (singleWriterPerform prefixToRange trees tx keyspace operation).run w = .error e next → next.data = w.data) ∧
      ∀ (tx : SecureTransaction I) (keyspace : SecureTxKeyspace) (w next : World I OptimisticTx) (e : Error),
        (optimisticPerform prefixToRange trees tx keyspace operation).run w = .error e next → next.data = w.data) ∧
    (operation.isRead = true →
      (∀ (keyspace : SecureKeyspace I) (session : Session I) (w next : World I Store) (reply : Reply),
        (keyspace.perform prefixToRange session operation).run w = .ok reply next →
        GrantedFirst keyspace.security session.identity keyspace.name w next) ∧
      (∀ (tx : SecureTransaction I) (keyspace : SecureTxKeyspace) (w next : World I SingleWriterTx) (reply : Reply),
        (singleWriterPerform prefixToRange trees tx keyspace operation).run w = .ok reply next →
        GrantedFirst tx.security tx.session.identity keyspace.name w next) ∧
      ∀ (tx : SecureTransaction I) (keyspace : SecureTxKeyspace) (w next : World I OptimisticTx) (reply : Reply),
        (optimisticPerform prefixToRange trees tx keyspace operation).run w = .ok reply next →
        GrantedFirst tx.security tx.session.identity keyspace.name w next) := by
  constructor
  · intro writes
    refine ⟨?_, ?_, ?_⟩
    · intro keyspace session w next e failed
      obtain ⟨effects, traced, untouched⟩ := keyspace.write_untouched session _
        (raw_write_excused keyspace.inner) prefixToRange operation writes w e next failed
      exact ⟨effects, traced, fun written => untouched fun effect member same => written (same ▸ member)⟩
    · intro tx keyspace w next e failed
      obtain ⟨_, _, untouched⟩ := tx.write_untouched keyspace prefixToRange _ operation writes w e next failed
      exact untouched fun _ _ => id
    · intro tx keyspace w next e failed
      obtain ⟨_, _, untouched⟩ := tx.write_untouched keyspace prefixToRange _ operation writes w e next failed
      exact untouched fun _ _ => id
  · intro reads
    exact ⟨fun keyspace session => keyspace.read_granted session prefixToRange operation reads,
      fun tx keyspace => tx.read_granted keyspace prefixToRange _ operation reads,
      fun tx keyspace => tx.read_granted keyspace prefixToRange _ operation reads⟩

-- The grant stands, but the sink refuses and the door stays closed.
def closedKeyspace : SecureKeyspace Unit :=
  ⟨⟨fun _ => none⟩, "cells", ⟨fun _ _ _ _ => true, some ⟨fun _ _ => .error .io, .failClosed⟩⟩, none⟩

theorem refused_audit_leaves_store :
    ∃ next : World Unit Store, (closedKeyspace.perform CompositePrefix.lsmPrefixToRange ⟨(), .empty⟩
        (.insertVersion ⟨⟨[1], [], [], []⟩, 5⟩ [7])).run ⟨0, [], .empty⟩ = .error (.audit "audit sink failed") next ∧
      next.data = .empty := by
  have refused : (closedKeyspace.perform CompositePrefix.lsmPrefixToRange ⟨(), .empty⟩
      (.insertVersion ⟨⟨[1], [], [], []⟩, 5⟩ [7])).run ⟨0, [], .empty⟩ = .error (.audit "audit sink failed")
        ⟨2, [.asked () "cells" .write true, .audited (.keyspaceAccess () "cells") false], .empty⟩ := rfl
  obtain ⟨effects, traced, untouched⟩ := ((secure_operations_fail_closed CompositePrefix.lsmPrefixToRange (fun _ => [])
    (.insertVersion ⟨⟨[1], [], [], []⟩, 5⟩ [7])).1 rfl).1 closedKeyspace ⟨(), .empty⟩ _ _ _ refused
  have known : [.asked () "cells" .write true, .audited (.keyspaceAccess () "cells") false] = effects := traced
  exact ⟨_, refused, untouched (known ▸ by decide)⟩

end OmryaKv.Secure
