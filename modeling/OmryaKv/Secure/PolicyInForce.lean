import OmryaKv.Secure.Retention
import OmryaKv.Storage.Refill

set_option autoImplicit false

namespace OmryaKv.Secure

open Lib

def rawKeyspacePrefix : String := "$fjall.secure."

def isReservedRawKeyspaceName (name : String) : Bool := rawKeyspacePrefix.toList.isPrefixOf name.toList

def physicalKeyspaceName (name : String) : String := rawKeyspacePrefix ++ name

def isValidKeyspaceName (name : String) : Bool := !name.isEmpty && decide (name.utf8ByteSize ≤ 255)

structure CreateOptions (I : Type) where
  compactionFilterFactory : Option (FilterFactory I)

structure SecureKeyspaceOptions (I : Type) where
  createOptions : CreateOptions I
  retention : Option RetentionPolicy

structure SessionConfig (I : Type) where
  compactionFilterFactoryAssigner : Option (String → Option (FilterFactory I))
  audit : Option (AuditConfig I)

-- filters is the compaction filter factory in the configuration of each tree. It
-- is set when the tree is opened and is not written anywhere.
structure SecureDatabase (I K V : Type) where
  inner : Storage.Database String K V
  config : SessionConfig I
  filters : Nat → Option (FilterFactory I)

variable {I K V : Type}

def SessionConfig.assigned (config : SessionConfig I) (name : String) : Option (FilterFactory I) :=
  config.compactionFilterFactoryAssigner.bind fun assigner => assigner name

def installRetentionPolicy (name : String) (createOptions : CreateOptions I) (retention : Option RetentionPolicy)
    (audit : Option (AuditConfig I)) : Except Error (CreateOptions I) :=
  match retention with
  | none => .ok createOptions
  | some retention => do
      let policy ← SecureCompactionPolicy.new name retention audit
      return ⟨some policy.factory⟩

namespace SecureDatabase

def new (config : SessionConfig I) : SecureDatabase I K V := ⟨.new, config, fun _ => none⟩

-- None where the assertion on the name fails.
def rawKeyspace (db : SecureDatabase I K V) (name : String) (createOptions : CreateOptions I) :
    Option (Storage.Keyspace × SecureDatabase I K V) :=
  if isValidKeyspaceName name then
    match db.inner.keyspaces.lookup name with
    | some keyspace => some (keyspace, db)
    | none =>
      let factory := (db.config.assigned name).or createOptions.compactionFilterFactory
      some (⟨db.inner.keyspaceIdCounter, db.inner.births⟩,
        { db with
          inner := db.inner.keyspace name
          filters := Function.update db.filters db.inner.keyspaceIdCounter factory })
  else none

def secureKeyspace (db : SecureDatabase I K V) (name : String) (options : SecureKeyspaceOptions I) :
    Except Error (Option (Storage.Keyspace × SecureDatabase I K V)) := do
  let createOptions ← installRetentionPolicy name options.createOptions options.retention db.config.audit
  return db.rawKeyspace (physicalKeyspaceName name) createOptions

-- Recovery reads the options of a keyspace back from the meta keyspace, where
-- there is no factory among them.
def reopen (order : IterationOrder Nat) (db : SecureDatabase I K V) (config : SessionConfig I) :
    Except Storage.Failure (SecureDatabase I K V) := do
  let inner ← Storage.recover order db.inner.crash
  return ⟨inner, config, fun id => (inner.metaNames.lookup id).bind config.assigned⟩

end SecureDatabase

inductive SecureLife (I K V : Type) where
  | session (op : Storage.Op String K V)
  | secureKeyspace (name : String) (options : SecureKeyspaceOptions I)
  | reopen (order : IterationOrder Nat) (config : SessionConfig I)

-- A name of a secure keyspace cannot be had from the raw database.
inductive SecureStep (db : SecureDatabase I K V) : SecureLife I K V → SecureDatabase I K V → Prop where
  | created (name : String) (keyspace : Storage.Keyspace) (next : SecureDatabase I K V)
      (free : isReservedRawKeyspaceName name = false) (returned : db.rawKeyspace name ⟨none⟩ = some (keyspace, next)) :
      SecureStep db (.session (.keyspace name)) next
  | worked (op : Storage.Op String K V) (inner : Storage.Database String K V) (other : ∀ name, op ≠ .keyspace name)
      (step : Storage.Step db.inner op inner) : SecureStep db (.session op) { db with inner := inner }
  | secured (name : String) (options : SecureKeyspaceOptions I) (keyspace : Storage.Keyspace) (next : SecureDatabase I K V)
      (returned : db.secureKeyspace name options = .ok (some (keyspace, next))) :
      SecureStep db (.secureKeyspace name options) next
  | reopened (order : IterationOrder Nat) (config : SessionConfig I) (next : SecureDatabase I K V)
      (recovered : db.reopen order config = .ok next) : SecureStep db (.reopen order config) next

def SecureLife.inSession : SecureLife I K V → Prop
  | .reopen _ _ => False
  | _ => True

-- The policy can come into force: nothing is in its place yet, or what is does
-- the same.
def SecureDatabase.Prepared (db : SecureDatabase I K V) (name : String) (policy : SecureCompactionPolicy I) : Prop :=
  match db.inner.keyspaces.lookup (physicalKeyspaceName name) with
  | some keyspace => FilteredBy policy (db.filters keyspace.id)
  | none => ∀ factory, db.config.assigned (physicalKeyspaceName name) = some factory → FilteredBy policy (some factory)

variable (db next : SecureDatabase I K V)

theorem raw_keyspace_inner (name : String) (createOptions : CreateOptions I) (keyspace : Storage.Keyspace)
    (returned : db.rawKeyspace name createOptions = some (keyspace, next)) :
    next.inner = db.inner.keyspace name := by
  rw [SecureDatabase.rawKeyspace] at returned
  split at returned
  · split at returned
    · next found =>
        cases returned
        exact (Storage.keyspace_existing db.inner name _ found).symm
    · cases returned
      rfl
  · cases returned

theorem secure_keyspace_raw (name : String) (options : SecureKeyspaceOptions I) (keyspace : Storage.Keyspace)
    (returned : db.secureKeyspace name options = .ok (some (keyspace, next))) :
    ∃ createOptions, installRetentionPolicy name options.createOptions options.retention db.config.audit = .ok createOptions ∧
      db.rawKeyspace (physicalKeyspaceName name) createOptions = some (keyspace, next) := by
  obtain ⟨createOptions, installed, rest⟩ := except_bind_ok _ _ _ returned
  exact ⟨createOptions, installed, Except.ok.inj rest⟩

theorem installed_factory (name : String) (createOptions installed : CreateOptions I) (policy : RetentionPolicy)
    (audit : Option (AuditConfig I)) (done : installRetentionPolicy name createOptions (some policy) audit = .ok installed) :
    installed.compactionFilterFactory = some (SecureCompactionPolicy.factory ⟨name, policy, audit⟩) := by
  obtain ⟨secured, checked, returned⟩ := except_bind_ok _ _ _ done
  obtain ⟨_, _, made⟩ := except_bind_ok _ _ _ checked
  cases made
  cases returned
  rfl

theorem secure_step_cataloged (label : SecureLife I K V) (cataloged : Storage.Cataloged db.inner)
    (step : SecureStep db label next) : Storage.Cataloged next.inner := by
  cases step with
  | created name keyspace _ free returned =>
    rw [raw_keyspace_inner db next name _ keyspace returned]
    exact Storage.cataloged_keyspace db.inner cataloged name
  | worked op inner other step => exact Storage.cataloged_step db.inner inner op cataloged step
  | secured name options keyspace _ returned =>
    obtain ⟨createOptions, _, raw⟩ := secure_keyspace_raw db next name options keyspace returned
    rw [raw_keyspace_inner db next _ _ keyspace raw]
    exact Storage.cataloged_keyspace db.inner cataloged _
  | reopened order config _ recovered =>
    obtain ⟨inner, opened, done⟩ := except_bind_ok _ _ _ recovered
    cases done
    exact Storage.cataloged_reopened order db.inner inner cataloged opened

-- The keyspace is there, and its tree has the factory.
def Installed (id : Nat) (factory : Option (FilterFactory I)) (db : SecureDatabase I K V) : Prop :=
  id < db.inner.keyspaceIdCounter ∧ db.filters id = factory

theorem installed_raw (id : Nat) (factory : Option (FilterFactory I)) (db next : SecureDatabase I K V)
    (installed : Installed id factory db) (name : String) (createOptions : CreateOptions I) (keyspace : Storage.Keyspace)
    (returned : db.rawKeyspace name createOptions = some (keyspace, next)) : Installed id factory next := by
  rw [SecureDatabase.rawKeyspace] at returned
  split at returned
  · split at returned
    · cases returned
      exact installed
    · next absent =>
        cases returned
        refine ⟨?_, (Function.update_of_ne (Nat.ne_of_lt installed.1) _ _).trans installed.2⟩
        rw [Storage.keyspace_created db.inner name absent]
        exact Nat.lt_succ_of_lt installed.1
  · cases returned

theorem installed_step (id : Nat) (factory : Option (FilterFactory I)) (db next : SecureDatabase I K V) (label : SecureLife I K V)
    (installed : Installed id factory db) (stays : label.inSession) (step : SecureStep db label next) :
    Installed id factory next := by
  cases step with
  | created name keyspace _ free returned => exact installed_raw id factory db next installed name _ keyspace returned
  | worked op inner other step =>
    exact ⟨Nat.lt_of_lt_of_le installed.1 (Storage.counter_grows db.inner inner op step), installed.2⟩
  | secured name options keyspace _ returned =>
    obtain ⟨createOptions, _, raw⟩ := secure_keyspace_raw db next name options keyspace returned
    exact installed_raw id factory db next installed _ createOptions keyspace raw
  | reopened order config _ recovered => exact False.elim stays

theorem secured_installs (cataloged : Storage.Cataloged db.inner) (name : String) (options : SecureKeyspaceOptions I)
    (policy : RetentionPolicy) (asked : options.retention = some policy)
    (keyspace : Storage.Keyspace) (returned : db.secureKeyspace name options = .ok (some (keyspace, next))) :
    Installed keyspace.id (next.filters keyspace.id) next ∧
      (FilteredBy ⟨name, policy, db.config.audit⟩ (next.filters keyspace.id) ↔
        db.Prepared name ⟨name, policy, db.config.audit⟩) := by
  obtain ⟨createOptions, installed, raw⟩ := secure_keyspace_raw db next name options keyspace returned
  rw [asked] at installed
  have factory := installed_factory name _ createOptions policy _ installed
  rw [SecureDatabase.rawKeyspace] at raw
  rw [SecureDatabase.Prepared]
  split at raw
  · cases found : db.inner.keyspaces.lookup (physicalKeyspaceName name) with
    | some existing =>
      rw [found] at raw
      cases raw
      exact ⟨⟨cataloged.numbered keyspace ⟨_, found⟩, rfl⟩, Iff.rfl⟩
    | none =>
      rw [found] at raw
      cases raw
      refine ⟨⟨?_, rfl⟩, ?_⟩
      · rw [Storage.keyspace_created db.inner _ found]
        exact Nat.lt_succ_self _
      · dsimp only
        rw [Function.update_self, factory]
        cases assigned : db.config.assigned (physicalKeyspaceName name) with
        | none => exact ⟨fun _ _ impossible => (by cases impossible), fun _ _ _ => rfl⟩
        | some other => exact ⟨fun filtered _ same => Option.some.inj same ▸ filtered, fun prepared => prepared other rfl⟩
  · cases raw

-- The factory comes with the tree: it stays for the session, and a handle to an
-- open keyspace brings no new one.
theorem retention_in_force_iff (config : SessionConfig I) (labels : List (SecureLife I K V)) (db next : SecureDatabase I K V)
    (run : Run SecureStep (SecureDatabase.new config) labels db) (name : String) (options : SecureKeyspaceOptions I)
    (policy : RetentionPolicy) (asked : options.retention = some policy) (keyspace : Storage.Keyspace)
    (returned : db.secureKeyspace name options = .ok (some (keyspace, next))) :
    (∀ laterLabels later, Run (Guarded SecureStep fun _ label => label.inSession) next laterLabels later →
        FilteredBy ⟨name, policy, db.config.audit⟩ (later.filters keyspace.id)) ↔
      db.Prepared name ⟨name, policy, db.config.audit⟩ := by
  have cataloged : Storage.Cataloged db.inner :=
    run_invariant SecureStep (fun db => Storage.Cataloged db.inner)
      (fun state label next cataloged step => secure_step_cataloged state next label cataloged step) run Storage.cataloged_new
  obtain ⟨installed, prepared⟩ := secured_installs db next cataloged name options policy asked keyspace returned
  rw [← prepared]
  constructor
  · exact fun always => always [] next (.nil next)
  · intro filtered laterLabels later laterRun
    have kept := run_invariant _ (Installed keyspace.id (next.filters keyspace.id))
      (fun state label next installed step => installed_step _ _ state next label installed step.1 step.2) laterRun installed
    exact kept.2 ▸ filtered

def plainConfig : SessionConfig Unit := ⟨none, none⟩

def oneVersion : RetentionPolicy := ⟨some 1, none⟩

def keepingOne : SecureKeyspaceOptions Unit := ⟨⟨none⟩, some oneVersion⟩

-- The policy of a keyspace that the call creates is in force.
theorem policy_of_new_keyspace_in_force :
    ∃ next : SecureDatabase Unit Nat Nat,
      (SecureDatabase.new plainConfig).secureKeyspace "cells" keepingOne = .ok (some (⟨1, 0⟩, next)) ∧
        FilteredBy ⟨"cells", oneVersion, none⟩ (next.filters 1) := by
  refine ⟨_, rfl, ?_⟩
  exact (retention_in_force_iff plainConfig [] (SecureDatabase.new plainConfig) _ (.nil _) "cells" keepingOne oneVersion rfl ⟨1, 0⟩
    rfl).mpr nofun [] _ (.nil _)

-- The same call in the next session returns the recovered keyspace, and nothing
-- filters its compactions.
theorem policy_lost_on_reopen :
    ∃ db next : SecureDatabase Unit Nat Nat,
      Run SecureStep (SecureDatabase.new plainConfig)
          [.secureKeyspace "cells" keepingOne, .reopen CountMap.inStoredOrder plainConfig] db ∧
        db.secureKeyspace "cells" keepingOne = .ok (some (⟨1, 0⟩, next)) ∧
        ¬ FilteredBy ⟨"cells", oneVersion, none⟩ (next.filters 1) := by
  refine ⟨_, _, .cons _ _ (.secured _ _ _ _ rfl) (.cons _ _ (.reopened _ _ _ rfl) (.nil _)), rfl, ?_⟩
  intro filtered
  have idle := (unfiltered_iff _).mp filtered
  exact absurd idle.1 (by decide)

end OmryaKv.Secure
