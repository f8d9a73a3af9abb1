import OmryaKv.Lib.Effect
import OmryaKv.Secure.Visibility

set_option autoImplicit false

namespace OmryaKv.Secure

open Lib

inductive KeyspacePermission where
  | read
  | write
  | delete
  | compact
  | alter
deriving DecidableEq

def KeyspacePermission.asStr : KeyspacePermission → String
  | .read => "keyspace:read"
  | .write => "keyspace:write"
  | .delete => "keyspace:delete"
  | .compact => "keyspace:compact"
  | .alter => "keyspace:alter"

inductive AuditFailureMode where
  | bestEffort
  | failClosed
deriving DecidableEq

inductive CompactionDeleteReason where
  | maxVersions
  | ttl
deriving DecidableEq

inductive AuditEvent (I : Type) where
  | authorizationDenied (identity : I) (keyspace : String)
  | keyspaceAccess (identity : I) (keyspace : String)
  | compactionDeleted (keyspace : String) (reason : CompactionDeleteReason)
deriving DecidableEq

-- What a secure operation does to the world around it, in the order in which it
-- does it. The trace is a ghost; so is the outcome each entry carries.
inductive Effect (I : Type) where
  | asked (identity : I) (keyspace : String) (permission : KeyspacePermission) (granted : Bool)
  | audited (event : AuditEvent I) (recorded : Bool)
  | encrypted
  | decrypted
  | dataRead
  | rawWrite (succeeded : Bool)
deriving DecidableEq

-- The clock numbers the calls made to providers. A provider answers as a function
-- of it, and so may answer the same question differently each time.
structure World (I D : Type) where
  clock : Nat
  trace : List (Effect I)
  data : D

abbrev SecureM (I D α : Type) := EStateM Error (World I D) α

structure AuditConfig (I : Type) where
  sink : Nat → AuditEvent I → Except Error Unit
  failureMode : AuditFailureMode

structure SecurityProviders (I : Type) where
  permissionHandler : Nat → I → String → KeyspacePermission → Bool
  audit : Option (AuditConfig I)

structure Session (I : Type) where
  identity : I
  auths : Authorizations

variable {I D α : Type}

def tick : SecureM I D Nat := fun w => .ok w.clock { w with clock := w.clock + 1 }

def emit (effect : Effect I) : SecureM I D Unit := fun w => .ok () { w with trace := w.trace ++ [effect] }

def lift (x : Except Error α) : SecureM I D α := fun w =>
  match x with
  | .ok a => .ok a w
  | .error e => .error e w

theorem lift_ok_bind {β : Type} (a : α) (f : α → SecureM I D β) : (lift (.ok a) >>= f) = f a := rfl

theorem lift_ok (x : Except Error α) (w next : World I D) (a : α) (completed : (lift x).run w = .ok a next) :
    x = .ok a ∧ next = w := by
  cases x with
  | ok b =>
    cases completed
    exact ⟨rfl, rfl⟩
  | error e => cases completed

theorem lift_bind_ok {β : Type} (x : Except Error α) (f : α → SecureM I D β) (w last : World I D) (b : β)
    (completed : (lift x >>= f).run w = .ok b last) : ∃ a, x = .ok a ∧ (f a).run w = .ok b last := by
  cases x with
  | ok a => exact ⟨a, rfl, completed⟩
  | error e => cases completed

def AuditConfig.record (audit : AuditConfig I) (event : AuditEvent I) : SecureM I D Unit := do
  let now ← tick
  match audit.sink now event with
  | .ok () => emit (.audited event true)
  | .error _ => do
      emit (.audited event false)
      if audit.failureMode = .bestEffort then return ()
      else throw (.audit "audit sink failed")

namespace SecurityProviders

def recordAudit (security : SecurityProviders I) (event : AuditEvent I) : SecureM I D Unit :=
  match security.audit with
  | some audit => audit.record event
  | none => return ()

def checkKeyspacePermission (security : SecurityProviders I) (identity : I) (keyspace : String)
    (permission : KeyspacePermission) : SecureM I D Unit := do
  let now ← tick
  let granted := security.permissionHandler now identity keyspace permission
  emit (.asked identity keyspace permission granted)
  if granted then security.recordAudit (.keyspaceAccess identity keyspace)
  else do
    security.recordAudit (.authorizationDenied identity keyspace)
    throw (.permissionDenied permission.asStr)

end SecurityProviders

def Effect.onData : Effect I → Bool
  | .dataRead => true
  | .rawWrite _ => true
  | _ => false

-- Between the two worlds there were calls to providers and nothing else.
structure Passive (w next : World I D) : Prop where
  data : next.data = w.data
  traced : ∃ effects, next.trace = w.trace ++ effects ∧ ∀ effect ∈ effects, effect.onData = false

theorem passive_refl (w : World I D) : Passive w w := ⟨rfl, [], by simp, by simp⟩

theorem passive_trans (a b c : World I D) (first : Passive a b) (second : Passive b c) : Passive a c := by
  obtain ⟨early, earlyTrace, earlyQuiet⟩ := first.traced
  obtain ⟨late, lateTrace, lateQuiet⟩ := second.traced
  refine ⟨second.data.trans first.data, early ++ late, by rw [lateTrace, earlyTrace, List.append_assoc], ?_⟩
  intro effect member
  rcases List.mem_append.mp member with earlier | later
  · exact earlyQuiet effect earlier
  · exact lateQuiet effect later

theorem passive_bind {β : Type} (m : SecureM I D α) (f : α → SecureM I D β) (first : Respects Passive m)
    (second : ∀ a, Respects Passive (f a)) : Respects Passive (m >>= f) :=
  respects_bind Passive passive_trans m f first second

theorem tick_passive : Respects Passive (tick : SecureM I D Nat) := fun w =>
  ⟨rfl, [], by simp [tick, EStateM.run, finalState], by simp⟩

theorem emit_passive (effect : Effect I) (quiet : effect.onData = false) : Respects Passive (emit effect : SecureM I D Unit) :=
  fun _ => ⟨rfl, [effect], rfl, by simpa using quiet⟩

theorem lift_passive (x : Except Error α) : Respects Passive (lift x : SecureM I D α) := by
  intro w
  cases x <;> exact passive_refl w

theorem record_passive (audit : AuditConfig I) (event : AuditEvent I) : Respects Passive (audit.record event : SecureM I D Unit) := by
  apply passive_bind _ _ tick_passive
  intro now
  cases audit.sink now event with
  | ok _ => exact emit_passive _ rfl
  | error e =>
    apply passive_bind _ _ (emit_passive _ rfl)
    intro _
    split
    · exact passive_refl
    · exact passive_refl

theorem record_ok (audit : AuditConfig I) (event : AuditEvent I) (w : World I D)
    (accepted : audit.failureMode = .failClosed → audit.sink w.clock event = .ok ()) :
    ∃ next, (audit.record event : SecureM I D Unit).run w = .ok () next := by
  have step : (audit.record event : SecureM I D Unit).run w =
      (match audit.sink w.clock event with
        | .ok () => emit (.audited event true)
        | .error _ => do
            emit (.audited event false)
            if audit.failureMode = .bestEffort then return ()
            else throw (.audit "audit sink failed") : SecureM I D Unit).run ⟨w.clock + 1, w.trace, w.data⟩ := rfl
  rw [step]
  cases outcome : audit.sink w.clock event with
  | ok _ => exact ⟨⟨w.clock + 1, w.trace ++ [.audited event true], w.data⟩, rfl⟩
  | error e =>
    cases mode : audit.failureMode with
    | bestEffort => exact ⟨⟨w.clock + 1, w.trace ++ [.audited event false], w.data⟩, rfl⟩
    | failClosed =>
      rw [accepted mode] at outcome
      cases outcome

variable (security : SecurityProviders I)

namespace SecurityProviders

theorem record_audit_passive (event : AuditEvent I) : Respects Passive (security.recordAudit event : SecureM I D Unit) := by
  unfold recordAudit
  cases security.audit with
  | none => exact passive_refl
  | some audit => exact record_passive audit event

theorem check_passive (identity : I) (keyspace : String) (permission : KeyspacePermission) :
    Respects Passive (security.checkKeyspacePermission identity keyspace permission : SecureM I D Unit) := by
  apply passive_bind _ _ tick_passive
  intro now
  apply passive_bind _ _ (emit_passive _ rfl)
  intro _
  split
  · exact security.record_audit_passive _
  · exact passive_bind _ _ (security.record_audit_passive _) fun _ => passive_refl

theorem record_audit_ok (event : AuditEvent I) (w next : World I D)
    (recorded : (security.recordAudit event : SecureM I D Unit).run w = .ok () next) (audit : AuditConfig I)
    (configured : security.audit = some audit) (closed : audit.failureMode = .failClosed) :
    next.trace = w.trace ++ [.audited event true] := by
  rw [recordAudit, configured] at recorded
  obtain ⟨now, later, ticked, recorded⟩ := bind_ok _ _ _ _ _ recorded
  cases ticked
  split at recorded
  · cases recorded
    rfl
  · obtain ⟨_, _, _, refused⟩ := bind_ok _ _ _ _ _ recorded
    rw [if_neg (by rw [closed]; decide)] at refused
    cases refused

-- What a successful check has behind it: the grant and, where a failing sink
-- closes the door, the record of the access.
theorem check_ok (identity : I) (keyspace : String) (permission : KeyspacePermission) (w next : World I D)
    (passed : (security.checkKeyspacePermission identity keyspace permission : SecureM I D Unit).run w = .ok () next) :
    ∃ effects, next.trace = w.trace ++ effects ∧ (∀ effect ∈ effects, effect.onData = false) ∧
      .asked identity keyspace permission true ∈ effects ∧
      ∀ audit, security.audit = some audit → audit.failureMode = .failClosed →
        .audited (.keyspaceAccess identity keyspace) true ∈ effects := by
  obtain ⟨now, later, ticked, passed⟩ := bind_ok _ _ _ _ _ passed
  cases ticked
  obtain ⟨_, asked, emitted, passed⟩ := bind_ok _ _ _ _ _ passed
  cases emitted
  cases granted : security.permissionHandler w.clock identity keyspace permission with
  | false =>
    rw [granted, if_neg (by decide)] at passed
    obtain ⟨_, _, _, thrown⟩ := bind_ok _ _ _ _ _ passed
    cases thrown
  | true =>
    rw [granted, if_pos rfl] at passed
    have recorded := security.record_audit_passive (.keyspaceAccess identity keyspace)
      ⟨w.clock + 1, w.trace ++ [.asked identity keyspace permission true], w.data⟩
    rw [passed] at recorded
    obtain ⟨effects, traced, quiet⟩ := recorded.traced
    refine ⟨.asked identity keyspace permission true :: effects, ?_, ?_, by simp, ?_⟩
    · simpa [finalState] using traced
    · simpa using ⟨rfl, quiet⟩
    · intro audit configured closed
      have logged := security.record_audit_ok _ _ _ passed audit configured closed
      have same := List.append_cancel_left (traced.symm.trans logged)
      simp [same]

end SecurityProviders

def InStep {E : Type} (agree : D → E → Prop) (w : World I D) (v : World I E) : Prop :=
  w.clock = v.clock ∧ agree w.data v.data

section

variable {E : Type} (agree : D → E → Prop)

theorem tick_coupled : Coupled (InStep agree) (tick : SecureM I D Nat) tick := by
  intro w v start
  exact ⟨congrArg Except.ok start.1, congrArg Nat.succ start.1, start.2⟩

theorem emit_coupled (effect : Effect I) : Coupled (InStep agree) (emit effect : SecureM I D Unit) (emit effect) :=
  fun _ _ start => ⟨rfl, start⟩

theorem lift_coupled (x : Except Error α) : Coupled (InStep agree) (lift x : SecureM I D α) (lift x) := by
  intro w v start
  cases x <;> exact ⟨rfl, start⟩

theorem record_coupled (audit : AuditConfig I) (event : AuditEvent I) :
    Coupled (InStep agree) (audit.record event : SecureM I D Unit) (audit.record event) := by
  apply coupled_bind _ _ _ _ _ (tick_coupled agree)
  intro now
  cases audit.sink now event with
  | ok _ => exact emit_coupled agree _
  | error e =>
    apply coupled_bind _ _ _ _ _ (emit_coupled agree _)
    intro _
    split
    · exact coupled_pure _ _
    · exact coupled_throw _ _

theorem check_coupled (security : SecurityProviders I) (identity : I) (keyspace : String) (permission : KeyspacePermission) :
    Coupled (InStep agree) (security.checkKeyspacePermission identity keyspace permission : SecureM I D Unit)
      (security.checkKeyspacePermission identity keyspace permission) := by
  have recorded : ∀ event, Coupled (InStep agree) (security.recordAudit event : SecureM I D Unit) (security.recordAudit event) := by
    intro event
    unfold SecurityProviders.recordAudit
    cases security.audit with
    | none => exact coupled_pure _ _
    | some audit => exact record_coupled agree audit event
  apply coupled_bind _ _ _ _ _ (tick_coupled agree)
  intro now
  apply coupled_bind _ _ _ _ _ (emit_coupled agree _)
  intro _
  split
  · exact recorded _
  · exact coupled_bind _ _ _ _ _ (recorded _) fun _ => coupled_throw _ _

end

end OmryaKv.Secure
