import OmryaKv.Lib.Threads
import OmryaKv.Types

set_option autoImplicit false

namespace OmryaKv.Storage

open Lib

inductive FormatVersion where
  | v1
  | v2
  | v3
deriving DecidableEq

namespace FormatVersion

def toByte : FormatVersion → Byte
  | .v1 => 1
  | .v2 => 2
  | .v3 => 3

def tryFrom (byte : Byte) : Option FormatVersion :=
  if byte = 1 then some .v1 else if byte = 2 then some .v2 else if byte = 3 then some .v3 else none

def magicBytes : Bytes := [70, 74, 76]

def fileHeader (version : FormatVersion) : Bytes := magicBytes ++ [version.toByte]

def parseFileHeader (bytes : Bytes) : Option FormatVersion :=
  if bytes.length < 3 then none
  else if bytes.take 3 = magicBytes then bytes[3]?.bind tryFrom else none

end FormatVersion

-- The folder of a database as those see it who want to open it: the lock file, the
-- ids of the journals, the version marker, whether the rest of Database::recover gets
-- through what it finds there, and which process has the lock.
structure DatabaseFolder where
  lockFile : Bool
  journals : List Nat
  marker : Option Bytes
  recoverable : Bool
  holder : Option Nat

inductive Refusal where
  | locked
  | alreadyExists
  | invalidVersion (version : Option FormatVersion)
  | unrecoverable
  | io

-- How far a process has come with Database::open. marking holds what is left to write.
inductive OpenPhase where
  | idle
  | creating
  | locking
  | locked
  | journaled
  | marking (rest : Bytes)
  | checking
  | acquiring (attempt : Nat)
  | recovering
  | opened
  | refused (why : Refusal)

inductive OpenMove where
  | tryExists
  | lockFile
  | tryLock
  | createJournal
  | createMarker
  | writeMarker
  | checkVersion
  | finish
  | work (journals : List Nat) (recoverable : Bool)
  | close
  | fail
  | retry
  | kill

def OpenPhase.holds : OpenPhase → Bool
  | .locked | .journaled | .marking _ | .recovering | .opened => true
  | _ => false

def lockRetries : Nat := 3

def DatabaseFolder.hold (s : DatabaseFolder) (p : Nat) : DatabaseFolder := { s with holder := some p }

-- The lock goes with the guard, and with the process.
def DatabaseFolder.release (s : DatabaseFolder) (p : Nat) : DatabaseFolder :=
  if s.holder = some p then { s with holder := none } else s

-- create_or_recover, create_new, check_version, recover and the locks, call by call.
-- fail is an error of any of the calls in between, kill the end of the process.
inductive OpenAct (p : Nat) (s : DatabaseFolder) : OpenPhase → OpenMove → DatabaseFolder → OpenPhase → Prop where
  | new (absent : s.marker = none) : OpenAct p s .idle .tryExists s .creating
  | lockFile : OpenAct p s .creating .lockFile { s with lockFile := true } .locking
  | lock (free : s.holder = none) : OpenAct p s .locking .tryLock (s.hold p) .locked
  | lockTaken (taken : s.holder ≠ none) : OpenAct p s .locking .tryLock s (.refused .locked)
  | createJournal (absent : 0 ∉ s.journals) :
      OpenAct p s .locked .createJournal { s with journals := 0 :: s.journals } .journaled
  | journalExists (found : 0 ∈ s.journals) : OpenAct p s .locked .createJournal (s.release p) (.refused .alreadyExists)
  | createMarker (absent : s.marker = none) :
      OpenAct p s .journaled .createMarker { s with marker := some [] } (.marking (FormatVersion.fileHeader .v3))
  | markerExists (found : s.marker ≠ none) : OpenAct p s .journaled .createMarker (s.release p) (.refused .alreadyExists)
  | writeMarker (bytes rest : Bytes) (byte : Byte) (found : s.marker = some bytes) :
      OpenAct p s (.marking (byte :: rest)) .writeMarker { s with marker := some (bytes ++ [byte]) } (.marking rest)
  | created : OpenAct p s (.marking []) .finish s .opened
  | existing (found : s.marker ≠ none) : OpenAct p s .idle .tryExists s .checking
  | checked (bytes : Bytes) (found : s.marker = some bytes) (current : FormatVersion.parseFileHeader bytes = some .v3) :
      OpenAct p s .checking .checkVersion s (.acquiring 1)
  | mismatch (bytes : Bytes) (found : s.marker = some bytes) (other : FormatVersion.parseFileHeader bytes ≠ some .v3) :
      OpenAct p s .checking .checkVersion s (.refused (.invalidVersion (FormatVersion.parseFileHeader bytes)))
  | acquire (attempt : Nat) (found : s.lockFile = true) (free : s.holder = none) :
      OpenAct p s (.acquiring attempt) .tryLock (s.hold p) .recovering
  | again (attempt : Nat) (taken : s.holder ≠ none) (left : attempt < lockRetries) :
      OpenAct p s (.acquiring attempt) .tryLock s (.acquiring (attempt + 1))
  | gaveUp (attempt : Nat) (taken : s.holder ≠ none) (last : lockRetries ≤ attempt) :
      OpenAct p s (.acquiring attempt) .tryLock s (.refused .locked)
  | recovered (sound : s.recoverable = true) : OpenAct p s .recovering .finish s .opened
  | unrecovered (broken : s.recoverable = false) : OpenAct p s .recovering .finish (s.release p) (.refused .unrecoverable)
  -- Writes, clears, rotation and eviction: the first journal does not stay forever,
  -- and what is left may be more than a recovery can take.
  | work (journals : List Nat) (recoverable : Bool) :
      OpenAct p s .opened (.work journals recoverable) { s with journals, recoverable } .opened
  | close : OpenAct p s .opened .close (s.release p) .idle
  | fail (phase : OpenPhase) (opening : phase ≠ .opened) : OpenAct p s phase .fail (s.release p) (.refused .io)
  | retry (why : Refusal) : OpenAct p s (.refused why) .retry s .idle
  | kill (phase : OpenPhase) : OpenAct p s phase .kill (s.release p) .idle

abbrev Openers := Threads Nat DatabaseFolder OpenPhase

def Openers.fresh : Openers := ⟨⟨false, [], none, true, none⟩, fun _ => .idle⟩

-- A creation has come past the journal and not to the last byte of the marker.
def DatabaseFolder.HalfCreated (s : DatabaseFolder) : Prop :=
  0 ∈ s.journals ∧ s.marker ≠ some (FormatVersion.fileHeader .v3)

theorem short_header_refused (bytes : Bytes) (part : bytes <+: FormatVersion.fileHeader .v3) :
    FormatVersion.parseFileHeader bytes = some .v3 ↔ bytes = FormatVersion.fileHeader .v3 := by
  have cut : ∀ n < 5, FormatVersion.parseFileHeader ((FormatVersion.fileHeader .v3).take n) = some .v3 ↔
      (FormatVersion.fileHeader .v3).take n = FormatVersion.fileHeader .v3 := by decide
  rw [List.prefix_iff_eq_take.mp part]
  exact cut _ (Nat.lt_succ_of_le part.length_le)

example (version : FormatVersion) : FormatVersion.parseFileHeader version.fileHeader = some version := by
  cases version <;> decide

section

variable {p : Nat} {s next : DatabaseFolder} {old phase : OpenPhase} {m : OpenMove}

@[simp] theorem release_lock_file : (s.release p).lockFile = s.lockFile := by
  unfold DatabaseFolder.release
  split <;> rfl

@[simp] theorem release_journals : (s.release p).journals = s.journals := by
  unfold DatabaseFolder.release
  split <;> rfl

@[simp] theorem release_marker : (s.release p).marker = s.marker := by
  unfold DatabaseFolder.release
  split <;> rfl

theorem release_holder (q : Nat) : (s.release p).holder = some q ↔ q ≠ p ∧ s.holder = some q := by
  unfold DatabaseFolder.release
  split
  · next mine => simp [mine, eq_comm]
  · next other => exact ⟨fun held => ⟨fun same => other (same ▸ held), held⟩, And.right⟩

-- What a process knows of the folder.
def Point (s : DatabaseFolder) : OpenPhase → Prop
  | .locking | .locked => s.lockFile = true
  | .journaled => s.lockFile = true ∧ 0 ∈ s.journals
  | .marking rest => ∃ bytes, s.marker = some bytes ∧ bytes ++ rest = FormatVersion.fileHeader .v3
  | .checking => s.marker ≠ none
  | .acquiring _ | .recovering | .opened => s.marker = some (FormatVersion.fileHeader .v3)
  | _ => True

structure FolderSound (s : DatabaseFolder) : Prop where
  locked : s.marker ≠ none → s.lockFile = true
  part : ∀ bytes, s.marker = some bytes → bytes <+: FormatVersion.fileHeader .v3
  begun : s.marker ≠ none → s.marker ≠ some (FormatVersion.fileHeader .v3) → 0 ∈ s.journals

structure OpenInv (threads : Openers) : Prop where
  folder : FolderSound threads.shared
  holder : ∀ p, (threads.phase p).holds = true ↔ threads.shared.holder = some p
  point : ∀ p, Point threads.shared (threads.phase p)

-- Only the one that has the lock touches anything but the lock file.
theorem act_files (act : OpenAct p s old m next phase) :
    (s.lockFile = true → next.lockFile = true) ∧ (next.journals = s.journals ∧ next.marker = s.marker ∨ old.holds = true) := by
  cases act with
  | lockFile => exact ⟨fun _ => rfl, .inl ⟨rfl, rfl⟩⟩
  | createJournal | createMarker | writeMarker | work => exact ⟨id, .inr rfl⟩
  | journalExists | markerExists | unrecovered | close | fail | kill => simp
  | _ => exact ⟨id, .inl ⟨rfl, rfl⟩⟩

theorem act_holder (act : OpenAct p s old m next phase) (own : old.holds = true ↔ s.holder = some p) :
    (phase.holds = true ↔ next.holder = some p) ∧ ∀ q, q ≠ p → (next.holder = some q ↔ s.holder = some q) := by
  cases act with
  | lock free | acquire attempt found free =>
    exact ⟨by simp [OpenPhase.holds, DatabaseFolder.hold], fun q other => by simp [DatabaseFolder.hold, free, other.symm]⟩
  | journalExists | markerExists | unrecovered | close | fail | kill =>
    exact ⟨by simp [release_holder, OpenPhase.holds], fun q other => by simp [release_holder, other]⟩
  | _ => exact ⟨own, fun _ _ => Iff.rfl⟩

theorem act_marker (act : OpenAct p s old m next phase) (point : Point s old) :
    (s.marker ≠ none → next.marker ≠ none) ∧
      (s.marker = some (FormatVersion.fileHeader .v3) → next.marker = some (FormatVersion.fileHeader .v3)) := by
  cases act with
  | createMarker absent => simp [absent]
  | writeMarker bytes rest byte found =>
    refine ⟨by simp, fun whole => ?_⟩
    obtain ⟨written, marked, split⟩ := point
    cases whole.symm.trans marked
    exact absurd split (by simp)
  | journalExists | markerExists | unrecovered | close | fail | kill => simp
  | _ => exact ⟨id, id⟩

theorem act_point (act : OpenAct p s old m next phase) (point : Point s old)
    (part : ∀ bytes, s.marker = some bytes → bytes <+: FormatVersion.fileHeader .v3) : Point next phase := by
  cases act with
  | createJournal absent => exact ⟨point, List.mem_cons_self⟩
  | createMarker absent => exact ⟨[], rfl, rfl⟩
  | writeMarker bytes rest byte found =>
    obtain ⟨written, marked, split⟩ := point
    cases found.symm.trans marked
    exact ⟨_, rfl, by rw [List.append_assoc]; exact split⟩
  | created =>
    obtain ⟨written, marked, split⟩ := point
    rw [Point, marked, ← split, List.append_nil]
  | existing found => exact found
  | checked bytes found current => rw [Point, found, (short_header_refused bytes (part bytes found)).mp current]
  | lockFile => exact rfl
  | lock | acquire | again | recovered | work => exact point
  | _ => trivial

theorem act_sound (act : OpenAct p s old m next phase) (point : Point s old) (sound : FolderSound s) : FolderSound next := by
  have same : ∀ after : DatabaseFolder, after.lockFile = s.lockFile → after.journals = s.journals → after.marker = s.marker →
      FolderSound after := by
    intro after lockFile journals marker
    exact ⟨by rw [marker, lockFile]; exact sound.locked, by rw [marker]; exact sound.part,
      by rw [marker, journals]; exact sound.begun⟩
  cases act with
  | lockFile => exact ⟨fun _ => rfl, sound.part, sound.begun⟩
  | createJournal absent => exact ⟨sound.locked, sound.part, fun _ _ => List.mem_cons_self⟩
  | createMarker absent =>
    refine ⟨fun _ => point.1, ?_, fun _ _ => point.2⟩
    rintro bytes ⟨⟩
    exact List.nil_prefix
  | writeMarker bytes rest byte found =>
    obtain ⟨written, marked, split⟩ := point
    cases found.symm.trans marked
    have some : s.marker ≠ none := by simp [found]
    refine ⟨fun _ => sound.locked some, ?_, fun _ _ => sound.begun some ?_⟩
    · rintro bytes ⟨⟩
      exact ⟨rest, by rw [List.append_assoc]; exact split⟩
    · rw [found, ← split]
      simp
  | work => exact ⟨sound.locked, sound.part, fun _ torn => absurd point torn⟩
  | journalExists | markerExists | unrecovered | close | fail | kill => exact same _ (by simp) (by simp) (by simp)
  | _ => exact same _ rfl rfl rfl

theorem open_step_inv (threads after : Openers) (label : Nat × OpenMove) (inv : OpenInv threads)
    (step : ThreadStep OpenAct threads label after) : OpenInv after := by
  cases step with
  | move p m next phase act =>
    have point := inv.point p
    obtain ⟨lockFile, files⟩ := act_files act
    obtain ⟨marker, whole⟩ := act_marker act point
    obtain ⟨own, others⟩ := act_holder act (inv.holder p)
    -- A process that has the lock finds the files as it left them.
    have held : ∀ q, q ≠ p → (threads.phase q).holds = true →
        next.journals = threads.shared.journals ∧ next.marker = threads.shared.marker := by
      intro q other holds
      refine files.resolve_right fun mine => other ?_
      exact Option.some.inj (((inv.holder q).mp holds).symm.trans ((inv.holder p).mp mine))
    refine ⟨act_sound act point inv.folder, ?_, ?_⟩
    · refine thread_step_all (fun s q phase => phase.holds = true ↔ s.holder = some q) next threads.phase p phase own ?_
      exact fun q other => (inv.holder q).trans (others q other).symm
    · refine thread_step_all (fun s _ phase => Point s phase) next threads.phase p phase (act_point act point inv.folder.part) ?_
      intro q other
      have theirs := inv.point q
      have same := held q other
      cases here : threads.phase q with
      | locking | locked =>
        rw [here] at theirs
        exact lockFile theirs
      | journaled =>
        rw [here] at theirs same
        rw [Point, (same rfl).1]
        exact ⟨lockFile theirs.1, theirs.2⟩
      | marking rest =>
        rw [here] at theirs same
        rw [Point, (same rfl).2]
        exact theirs
      | checking =>
        rw [here] at theirs
        exact marker theirs
      | acquiring attempt | recovering | opened =>
        rw [here] at theirs
        exact whole theirs
      | idle | creating | refused why => trivial

-- The points up to which a process can still come once a creation has been left half done.
def OpenPhase.early : OpenPhase → Bool
  | .idle | .creating | .locking | .locked | .checking | .refused _ => true
  | _ => false

theorem act_stays_early (act : OpenAct p s old m next phase) (sound : FolderSound s) (half : s.HalfCreated)
    (early : old.early = true) : next.HalfCreated ∧ phase.early = true := by
  cases act with
  | createJournal absent => exact absurd half.1 absent
  | checked bytes found current =>
    have whole := (short_header_refused bytes (sound.part bytes found)).mp current
    exact absurd (whole ▸ found) half.2
  | journalExists | fail | kill => exact ⟨by simpa [DatabaseFolder.HalfCreated] using half, rfl⟩
  | new | lockFile | lock | lockTaken | existing | mismatch | retry => exact ⟨half, rfl⟩
  | _ => cases early

structure Wedged (threads : Openers) : Prop where
  inv : OpenInv threads
  half : threads.shared.HalfCreated
  early : ∀ p, (threads.phase p).early = true

theorem wedged_step (threads after : Openers) (label : Nat × OpenMove) (wedged : Wedged threads)
    (step : ThreadStep OpenAct threads label after) : Wedged after := by
  have inv := open_step_inv threads after label wedged.inv step
  cases step with
  | move p m next phase act =>
    obtain ⟨half, early⟩ := act_stays_early act wedged.inv.folder wedged.half (wedged.early p)
    exact ⟨inv, half, thread_step_all (fun _ _ phase => phase.early = true) next threads.phase p phase early
      fun q _ => wedged.early q⟩

end

-- What a process that finds the lock free comes to: a new database or a recovered one,
-- unless recovery does not get through.
def DatabaseFolder.outcome (s : DatabaseFolder) : OpenPhase :=
  if s.marker = none ∨ s.recoverable = true then .opened else .refused .unrecoverable

end OmryaKv.Storage
