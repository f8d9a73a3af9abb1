import OmryaKv.Secure.FailClosed
import Mathlib.Logic.Function.Basic

set_option autoImplicit false

namespace OmryaKv.Secure

open Lib

variable {I : Type}

-- What a secure keyspace is for: a map of cell versions.
abbrev CellMap := VersionedCell → Option Bytes

def Operation.applyTo (map : CellMap) : Operation → CellMap
  | .insertVersion cell value => Function.update map cell (some value)
  | .deleteVersion cell => Function.update map cell none
  | _ => map

def Operation.cell : Operation → Option VersionedCell
  | .insertVersion cell _ => some cell
  | .getVersion cell => some cell
  | .deleteVersion cell => some cell
  | .scanVersionedPrefix _ _ => none

theorem Operation.applied_elsewhere (operation : Operation) (map : CellMap) (cell : VersionedCell)
    (apart : operation.cell ≠ some cell) : operation.applyTo map cell = map cell := by
  cases operation with
  | insertVersion other value => exact Function.update_of_ne (fun same => apart (congrArg some same.symm)) _ _
  | deleteVersion other => exact Function.update_of_ne (fun same => apart (congrArg some same.symm)) _ _
  | getVersion other => rfl
  | scanVersionedPrefix pfx scan => rfl

-- The operation and whether it succeeded.
abbrev History := List (Operation × Bool)

def History.cells (history : History) : CellMap :=
  history.foldl (fun map call => if call.2 then call.1.applyTo map else map) fun _ => none

theorem History.cells_append (history : History) (operation : Operation) (succeeded : Bool) :
    History.cells (history ++ [(operation, succeeded)]) = if succeeded then operation.applyTo history.cells else history.cells :=
  List.foldl_append

def CryptoProvider.Undoes (provider : CryptoProvider) : Prop :=
  ∀ context plaintext ciphertext now later,
    provider.encrypt now context plaintext = .ok ciphertext → provider.decrypt later context ciphertext = .ok plaintext

-- The stored bytes give the value back, whenever the provider is asked.
def Opens (encryption : Option ValueEncryption) (key stored value : Bytes) : Prop :=
  match encryption with
  | none => stored = value
  | some encryption => ∃ ciphertext, parseStoredCiphertext stored = .ok ciphertext ∧
      ∀ now, encryption.config.provider.decrypt now (encryption.context key) ciphertext = .ok value

def Holds (encryption : Option ValueEncryption) (key : Bytes) : Option Bytes → Option Bytes → Prop
  | none, none => True
  | some stored, some value => Opens encryption key stored value
  | _, _ => False

theorem maybe_encrypt_opens {D : Type} (encryption : Option ValueEncryption)
    (undoes : ∀ provided, encryption = some provided → provided.config.provider.Undoes) (key value stored : Bytes)
    (w next : World I D) (encrypted : (maybeEncryptValue encryption key value).run w = .ok stored next) :
    Opens encryption key stored value := by
  cases encryption with
  | none =>
    cases encrypted
    rfl
  | some encryption =>
    obtain ⟨now, ticked, tick, encrypted⟩ := bind_ok _ _ _ _ _ encrypted
    cases tick
    obtain ⟨_, _, emitted, encrypted⟩ := bind_ok _ _ _ _ _ encrypted
    cases emitted
    obtain ⟨ciphertext, _, provided, wrapped⟩ := bind_ok _ _ _ _ _ encrypted
    refine ⟨ciphertext, parse_stored_ciphertext _ _ (lift_ok _ _ _ _ wrapped).1, ?_⟩
    exact fun later => undoes encryption rfl _ _ _ _ later (lift_ok _ _ _ _ provided).1

theorem maybe_decrypt_opens {D : Type} (encryption : Option ValueEncryption) (key stored value : Bytes)
    (opens : Opens encryption key stored value) (w : World I D) :
    ∃ next, (maybeDecryptEntry encryption key stored).run w = .ok value next := by
  cases encryption with
  | none =>
    cases opens
    exact ⟨w, rfl⟩
  | some encryption =>
    obtain ⟨ciphertext, parsed, decrypts⟩ := opens
    exact ⟨_, maybe_decrypt_ok encryption key stored ciphertext value parsed w (decrypts w.clock)⟩

theorem open_found_holds {D : Type} (encryption : Option ValueEncryption) (key : Bytes) (found value : Option Bytes)
    (holds : Holds encryption key found value) (w : World I D) : answer ((openFound encryption key found).run w) = .ok value := by
  cases found with
  | none =>
    cases value with
    | none => rfl
    | some value => exact False.elim holds
  | some stored =>
    cases value with
    | none => exact False.elim holds
    | some value =>
      obtain ⟨next, decrypted⟩ := maybe_decrypt_opens encryption key stored value holds w
      rw [openFound, EStateM.run_bind, decrypted]
      rfl

-- A read leaves the data as it was.
def Keeps {D : Type} (w next : World I D) : Prop := next.data = w.data

theorem keeps_bind {D α β : Type} (m : SecureM I D α) (f : α → SecureM I D β) (first : Respects Keeps m)
    (second : ∀ a, Respects Keeps (f a)) : Respects Keeps (m >>= f) :=
  respects_bind Keeps (fun _ _ _ early late => late.trans early) m f first second

theorem keeps_of_passive {D α : Type} (m : SecureM I D α) (passive : Respects Passive m) : Respects Keeps m :=
  fun w => (passive w).data

namespace SecureKeyspace

variable (keyspace : SecureKeyspace I)

def Represents (store : Store) (map : CellMap) : Prop :=
  ∀ cell key, cell.encode = .ok key → Holds keyspace.encryption key (store.get key) (map cell)

theorem represents_empty : keyspace.Represents .empty fun _ => none := fun _ _ _ => trivial

-- Different cells have different keys, whatever bytes their fields are made of.
theorem encode_injective (one two : VersionedCell) (key : UserKey) (oneEncoded : one.encode = .ok key)
    (twoEncoded : two.encode = .ok key) : one = two := by
  have oneBytes := ((CompositeKey.encode_iff one.toKey key).mp oneEncoded).1
  have twoBytes := ((CompositeKey.encode_iff two.toKey key).mp twoEncoded).1
  have same := CompositeKey.bytes_injective _ _ (oneBytes.symm.trans twoBytes)
  exact congrArg VersionedCell.ofKey same

theorem represents_update (store next : Store) (map : CellMap) (represents : keyspace.Represents store map) (cell : VersionedCell)
    (key : UserKey) (encoded : cell.encode = .ok key) (value : Option Bytes)
    (others : ∀ other, other ≠ key → next.get other = store.get other)
    (own : Holds keyspace.encryption key (next.get key) value) : keyspace.Represents next (Function.update map cell value) := by
  intro other otherKey otherEncoded
  rcases eq_or_ne other cell with rfl | different
  · cases encoded.symm.trans otherEncoded
    rw [Function.update_self]
    exact own
  · have apart : otherKey ≠ key := fun same => different (encode_injective other cell key (same ▸ otherEncoded) encoded)
    rw [Function.update_of_ne different, others otherKey apart]
    exact represents other otherKey otherEncoded

theorem insert_version_ok (undoes : ∀ provided, keyspace.encryption = some provided → provided.config.provider.Undoes)
    (session : Session I) (cell : VersionedCell) (value : Bytes) (w next : World I Store)
    (completed : (keyspace.insertVersion session cell value).run w = .ok () next) :
    ∃ key stored, cell.encode = .ok key ∧ Opens keyspace.encryption key stored value ∧ next.data = w.data.insert key stored := by
  obtain ⟨_, checked, passed, afterCheck⟩ := bind_ok _ _ _ _ _ completed
  have untouched := (respects_ok Passive _ (SecurityProviders.check_passive _ _ _ _) _ _ _ passed).data
  obtain ⟨canonicalCell, canonical, afterCell⟩ := lift_bind_ok _ _ _ _ _ afterCheck
  obtain ⟨key, encoded, afterKey⟩ := lift_bind_ok _ _ _ _ _ afterCell
  obtain ⟨stored, ready, encrypted, written⟩ := bind_ok _ _ _ _ _ afterKey
  have unread := (respects_ok Passive _ (maybe_encrypt_passive _ _ _) _ _ _ encrypted).data
  have same := canonicalize_cell_ok cell canonicalCell canonical
  have changed := RawKeyspace.write_ok keyspace.inner _ ready next written
  exact ⟨key, stored, same ▸ encoded, maybe_encrypt_opens _ undoes key value stored _ _ encrypted,
    by rw [changed, unread, untouched]⟩

theorem delete_version_ok (session : Session I) (cell : VersionedCell) (w next : World I Store)
    (completed : (keyspace.deleteVersion session cell).run w = .ok () next) :
    ∃ key, cell.encode = .ok key ∧ next.data = w.data.erase key := by
  obtain ⟨_, checked, passed, afterCheck⟩ := bind_ok _ _ _ _ _ completed
  have untouched := (respects_ok Passive _ (SecurityProviders.check_passive _ _ _ _) _ _ _ passed).data
  obtain ⟨canonicalCell, canonical, afterCell⟩ := lift_bind_ok _ _ _ _ _ afterCheck
  obtain ⟨key, encoded, written⟩ := lift_bind_ok _ _ _ _ _ afterCell
  have same := canonicalize_cell_ok cell canonicalCell canonical
  have changed := RawKeyspace.write_ok keyspace.inner _ _ next written
  exact ⟨key, same ▸ encoded, by rw [changed, untouched]⟩

theorem read_keeps (prefixToRange : UserKey → KeyBounds) (session : Session I) (operation : Operation)
    (reads : operation.isRead = true) : Respects Keeps (keyspace.perform prefixToRange session operation) := by
  have checked : Respects Keeps (keyspace.check session .read) := keeps_of_passive _ (SecurityProviders.check_passive _ _ _ _)
  cases operation with
  | insertVersion cell value => cases reads
  | deleteVersion cell => cases reads
  | getVersion cell =>
    refine keeps_bind _ _ (keeps_bind _ _ checked ?_) fun _ _ => rfl
    intro _
    apply keeps_bind _ _ (keeps_of_passive _ (lift_passive _))
    intro visible
    split
    · apply keeps_bind _ _ (keeps_of_passive _ (lift_passive _))
      intro encodedKey
      exact keeps_bind (RawKeyspace.get encodedKey) _ (fun _ => rfl) fun stored =>
        keeps_of_passive _ (open_found_passive _ _ stored)
    · exact fun _ => rfl
  | scanVersionedPrefix pfx scan =>
    refine keeps_bind _ _ (keeps_bind _ _ checked ?_) fun _ _ => rfl
    intro _
    apply keeps_bind _ _ (keeps_of_passive _ (lift_passive _))
    intro bounds
    exact keeps_bind (RawKeyspace.range bounds) _ (fun _ => rfl) fun records =>
      keeps_of_passive _ (scan_entries_passive _ _ _ _ records)

structure Recorded (I : Type) where
  world : World I Store
  history : History

def call (prefixToRange : UserKey → KeyBounds) (state : Recorded I) (call : Session I × Operation) :
    Recorded I :=
  match (keyspace.perform prefixToRange call.1 call.2).run state.world with
  | .ok _ next => ⟨next, state.history ++ [(call.2, true)]⟩
  | .error _ next => ⟨next, state.history ++ [(call.2, false)]⟩

def callAll (prefixToRange : UserKey → KeyBounds) (state : Recorded I)
    (calls : List (Session I × Operation)) : Recorded I :=
  calls.foldl (keyspace.call prefixToRange) state

section

variable (prefixToRange : UserKey → KeyBounds) (faultless : ∀ now, keyspace.inner.writeFault now = none)
  (undoes : ∀ provided, keyspace.encryption = some provided → provided.config.provider.Undoes)

include faultless in
theorem failure_keeps (session : Session I) (operation : Operation) (w next : World I Store) (e : Error)
    (failed : (keyspace.perform prefixToRange session operation).run w = .error e next) : next.data = w.data := by
  cases reads : operation.isRead with
  | true => exact respects_error Keeps _ (keyspace.read_keeps prefixToRange session operation reads) w next e failed
  | false =>
    have written : ∀ change, FailsUntouched (fun _ => False) (keyspace.inner.write change : SecureM I Store Unit) := by
      intro change w e next failed
      rw [EStateM.run, RawKeyspace.write, faultless] at failed
      cases failed
    obtain ⟨_, _, untouched⟩ := keyspace.write_untouched session _ written prefixToRange operation reads w e next failed
    exact untouched fun _ _ => id

include undoes in
theorem success_represents (session : Session I) (operation : Operation) (w next : World I Store) (reply : Reply)
    (completed : (keyspace.perform prefixToRange session operation).run w = .ok reply next) (map : CellMap)
    (represents : keyspace.Represents w.data map) : keyspace.Represents next.data (operation.applyTo map) := by
  cases operation with
  | insertVersion cell value =>
    obtain ⟨_, last, inserted, returned⟩ := bind_ok _ _ _ _ _ completed
    cases returned
    obtain ⟨key, stored, encoded, opens, changed⟩ := keyspace.insert_version_ok undoes session cell value w next inserted
    rw [changed]
    apply keyspace.represents_update w.data _ map represents cell key encoded
    · exact fun other apart => (OrderedMap.get_insert _ _ _ _).trans (if_neg apart)
    · rw [OrderedMap.get_insert, if_pos rfl]
      exact opens
  | deleteVersion cell =>
    obtain ⟨_, last, deleted, returned⟩ := bind_ok _ _ _ _ _ completed
    cases returned
    obtain ⟨key, encoded, changed⟩ := keyspace.delete_version_ok session cell w next deleted
    rw [changed]
    apply keyspace.represents_update w.data _ map represents cell key encoded
    · exact fun other apart => (OrderedMap.get_erase _ _ _).trans (if_neg apart)
    · rw [OrderedMap.get_erase, if_pos rfl]
      trivial
  | getVersion cell =>
    have kept := respects_ok Keeps _ (keyspace.read_keeps prefixToRange session _ rfl) w next reply completed
    exact kept.symm ▸ represents
  | scanVersionedPrefix pfx scan =>
    have kept := respects_ok Keeps _ (keyspace.read_keeps prefixToRange session _ rfl) w next reply completed
    exact kept.symm ▸ represents

include faultless undoes in
theorem call_represents (state : Recorded I) (call : Session I × Operation)
    (represents : keyspace.Represents state.world.data state.history.cells) :
    keyspace.Represents (keyspace.call prefixToRange state call).world.data
      (keyspace.call prefixToRange state call).history.cells := by
  rw [SecureKeyspace.call]
  cases outcome : (keyspace.perform prefixToRange call.1 call.2).run state.world with
  | ok reply next =>
    rw [History.cells_append]
    exact keyspace.success_represents prefixToRange undoes call.1 call.2 _ _ reply outcome _ represents
  | error e next =>
    rw [History.cells_append]
    have kept := keyspace.failure_keeps prefixToRange faultless call.1 call.2 _ _ e outcome
    exact kept.symm ▸ represents

theorem call_elsewhere (state : Recorded I) (call : Session I × Operation) (cell : VersionedCell)
    (apart : call.2.cell ≠ some cell) :
    (keyspace.call prefixToRange state call).history.cells cell = state.history.cells cell := by
  have elsewhere : ∀ succeeded, History.cells (state.history ++ [(call.2, succeeded)]) cell = state.history.cells cell := by
    intro succeeded
    rw [History.cells_append]
    split
    · exact call.2.applied_elsewhere _ cell apart
    · rfl
  rw [SecureKeyspace.call]
  split
  · exact elsewhere true
  · exact elsewhere false

include faultless undoes in
theorem calls_represent (calls : List (Session I × Operation)) (state : Recorded I)
    (represents : keyspace.Represents state.world.data state.history.cells) :
    keyspace.Represents (keyspace.callAll prefixToRange state calls).world.data
      (keyspace.callAll prefixToRange state calls).history.cells := by
  induction calls generalizing state with
  | nil => exact represents
  | cons call calls ih => exact ih _ (keyspace.call_represents prefixToRange faultless undoes state call represents)

theorem get_version_holds (session : Session I) (cell : VersionedCell) (visibility : VisibilityExpr)
    (valid : parseVisibility cell.cell.visibility = .ok visibility) (key : UserKey) (fits : cell.encode = .ok key)
    (w next : World I Store) (permitted : (keyspace.check session .read).run w = .ok () next) (map : CellMap)
    (represents : keyspace.Represents w.data map) :
    answer ((keyspace.getVersion session cell).run w) = .ok (if visibility.evaluate session.auths then map cell else none) := by
  have untouched := (respects_ok Passive _ (SecurityProviders.check_passive _ _ _ _) _ _ _ permitted).data
  have visible : isVisible cell.cell.visibility session.auths = .ok (visibility.evaluate session.auths) := by
    rw [isVisible, valid]
    rfl
  rw [getVersion, EStateM.run_bind, permitted]
  dsimp only
  rw [visible, lift_ok_bind]
  cases visibility.evaluate session.auths with
  | false => rfl
  | true =>
    rw [if_pos rfl, if_pos rfl, fits, lift_ok_bind, RawKeyspace.get_bind, untouched]
    exact open_found_holds keyspace.encryption key _ _ (represents cell key fits) _

include faultless undoes in
theorem keyspace_is_cell_map (calls : List (Session I × Operation)) (start : World I Store) (fresh : start.data = .empty)
    (session : Session I) (cell : VersionedCell) (visibility : VisibilityExpr)
    (valid : parseVisibility cell.cell.visibility = .ok visibility) (key : UserKey) (fits : cell.encode = .ok key)
    (next : World I Store)
    (permitted : (keyspace.check session .read).run (keyspace.callAll prefixToRange ⟨start, []⟩ calls).world = .ok () next) :
    answer ((keyspace.getVersion session cell).run (keyspace.callAll prefixToRange ⟨start, []⟩ calls).world) =
        .ok (if visibility.evaluate session.auths then (keyspace.callAll prefixToRange ⟨start, []⟩ calls).history.cells cell
          else none) ∧
      ∀ (other : Session I × Operation) (later : World I Store), other.2.cell ≠ some cell →
        (keyspace.check session .read).run (keyspace.callAll prefixToRange ⟨start, []⟩ (calls ++ [other])).world = .ok () later →
        answer ((keyspace.getVersion session cell).run (keyspace.callAll prefixToRange ⟨start, []⟩ (calls ++ [other])).world) =
          answer ((keyspace.getVersion session cell).run (keyspace.callAll prefixToRange ⟨start, []⟩ calls).world) := by
  have initial : keyspace.Represents start.data (History.cells []) := fresh ▸ keyspace.represents_empty
  have got : ∀ calls next,
      (keyspace.check session .read).run (keyspace.callAll prefixToRange ⟨start, []⟩ calls).world = .ok () next →
      answer ((keyspace.getVersion session cell).run (keyspace.callAll prefixToRange ⟨start, []⟩ calls).world) =
        .ok (if visibility.evaluate session.auths then (keyspace.callAll prefixToRange ⟨start, []⟩ calls).history.cells cell
          else none) := fun calls next permitted =>
    keyspace.get_version_holds session cell visibility valid key fits _ next permitted _
      (keyspace.calls_represent prefixToRange faultless undoes calls ⟨start, []⟩ initial)
  refine ⟨got calls next permitted, ?_⟩
  intro other later apart permittedLater
  rw [got _ later permittedLater, got calls next permitted, callAll, List.foldl_append]
  change Except.ok
    (if _ then (keyspace.call prefixToRange (keyspace.callAll prefixToRange ⟨start, []⟩ calls) other).history.cells cell else none) = _
  rw [keyspace.call_elsewhere prefixToRange _ other cell apart]

end

end SecureKeyspace

-- A provider whose ciphertexts are never the same twice.
def countingProvider : CryptoProvider where
  encrypt now _ plaintext := .ok (UInt8.ofNat now :: plaintext)
  decrypt _ _ ciphertext := .ok ciphertext.tail

def vaultKeyspace : SecureKeyspace Unit :=
  ⟨⟨fun _ => none⟩, "cells", ⟨fun _ _ _ _ => true, none⟩, some ⟨"cells", countingProvider, .value⟩⟩

def writerSession : Session Unit := ⟨(), .empty⟩

def vaultCalls : List (Session Unit × Operation) :=
  [(writerSession, .insertVersion ⟨⟨[0], [], [], []⟩, 5⟩ [7]), (writerSession, .insertVersion ⟨⟨[0], [], [], []⟩, 5⟩ [8]),
    (writerSession, .deleteVersion ⟨⟨[], [0], [], []⟩, 5⟩)]

theorem vault_returns_last_insert :
    answer ((vaultKeyspace.getVersion writerSession ⟨⟨[0], [], [], []⟩, 5⟩).run
      (vaultKeyspace.callAll CompositePrefix.lsmPrefixToRange ⟨⟨0, [], .empty⟩, []⟩ vaultCalls).world) = .ok (some [8]) := by
  have got := (vaultKeyspace.keyspace_is_cell_map CompositePrefix.lsmPrefixToRange (fun _ => rfl)
    (by rintro provided ⟨⟩ context plaintext ciphertext now later ⟨⟩; rfl) vaultCalls ⟨0, [], .empty⟩ rfl writerSession
    ⟨⟨[0], [], [], []⟩, 5⟩ .publicVisibility rfl _ rfl _ rfl).1
  rw [got]
  rfl

end OmryaKv.Secure
