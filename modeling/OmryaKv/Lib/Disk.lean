import Mathlib.Data.List.Nodup

set_option autoImplicit false

namespace OmryaKv.Lib

-- A file that is written from its start, over the zeros that lie ahead. Of what was
-- written only the first synced bytes are sure to outlive the machine.
structure DiskFile where
  data : List UInt8
  padding : Nat
  synced : Nat
deriving DecidableEq

namespace DiskFile

def new : DiskFile := ⟨[], 0, 0⟩

def contents (f : DiskFile) : List UInt8 := f.data ++ List.replicate f.padding 0

def write (f : DiskFile) (byte : UInt8) : DiskFile := { f with data := f.data ++ [byte], padding := f.padding - 1 }

def extend (f : DiskFile) (length : Nat) : DiskFile := { f with padding := length - f.data.length }

def sync (f : DiskFile) : DiskFile := { f with synced := f.data.length }

-- Cut to a length and synced at once: a machine that stops in between has cut it or has not.
def truncate (f : DiskFile) (length : Nat) : DiskFile :=
  { f with data := f.data.take length, padding := length - f.data.length }.sync

-- What a machine that stops may leave of a file: all that was synced, some of the
-- rest from its start on, and any number of zeros.
structure Torn (before after : DiskFile) : Prop where
  data : ∃ kept, before.synced ≤ kept ∧ after.data = before.data.take kept
  synced : after.synced = after.data.length

end DiskFile

-- The files of one folder. created holds the names that the folder may not keep if the
-- machine stops, removed the files that may then be back.
structure Disk (N : Type) where
  files : List (N × DiskFile)
  created : List N
  removed : List (N × DiskFile)

inductive SysCall (N : Type) where
  | create (name : N)
  | extend (name : N) (length : Nat)
  | write (name : N) (byte : UInt8)
  | sync (name : N)
  | truncate (name : N) (length : Nat)
  | unlink (name : N)
  | syncFolder

variable {N : Type}

-- The files that are left, in the same order; those named may be missing.
inductive Remains (vanishing : N → Prop) : List (N × DiskFile) → List (N × DiskFile) → Prop where
  | nil : Remains vanishing [] []
  | kept (name : N) (before after : DiskFile) (files left : List (N × DiskFile)) (torn : before.Torn after)
      (later : Remains vanishing files left) : Remains vanishing ((name, before) :: files) ((name, after) :: left)
  | lost (name : N) (before : DiskFile) (files left : List (N × DiskFile)) (may : vanishing name)
      (later : Remains vanishing files left) : Remains vanishing ((name, before) :: files) left

namespace Disk

def names (d : Disk N) : List N := (d.removed ++ d.files).map Prod.fst

def PowerLost (d after : Disk N) : Prop :=
  after.created = [] ∧ after.removed = [] ∧
    Remains (fun name => name ∈ d.created ∨ name ∈ d.removed.map Prod.fst) (d.removed ++ d.files) after.files

variable [DecidableEq N]

def update (d : Disk N) (name : N) (change : DiskFile → DiskFile) : Disk N :=
  { d with files := d.files.map fun file => if file.1 = name then (file.1, change file.2) else file }

end Disk

section

variable [DecidableEq N]

def SysCall.run (d : Disk N) : SysCall N → Disk N
  | .create name => { d with files := d.files ++ [(name, .new)], created := d.created ++ [name] }
  | .extend name length => d.update name (·.extend length)
  | .write name byte => d.update name (·.write byte)
  | .sync name => d.update name .sync
  | .truncate name length => d.update name (·.truncate length)
  | .unlink name =>
    { d with
      files := d.files.filter (·.1 ≠ name)
      removed := d.removed ++ d.files.filter (·.1 = name) }
  | .syncFolder => { d with created := [], removed := [] }

def runCalls (d : Disk N) (calls : List (SysCall N)) : Disk N := calls.foldl SysCall.run d

theorem run_calls_append (d : Disk N) (front back : List (SysCall N)) :
    runCalls d (front ++ back) = runCalls (runCalls d front) back := List.foldl_append

theorem map_absent (files : List (N × DiskFile)) (name : N) (change : DiskFile → DiskFile) (absent : name ∉ files.map Prod.fst) :
    files.map (fun file => if file.1 = name then (file.1, change file.2) else file) = files := by
  induction files with
  | nil => rfl
  | cons file files ih =>
    rw [List.map_cons, List.mem_cons, not_or] at absent
    rw [List.map_cons, if_neg (Ne.symm absent.1), ih absent.2]

-- The one file of that name changes, wherever it stands.
theorem update_at (d : Disk N) (front back : List (N × DiskFile)) (name : N) (f : DiskFile) (change : DiskFile → DiskFile)
    (here : d.files = front ++ (name, f) :: back) (distinct : (d.files.map Prod.fst).Nodup) :
    d.update name change = { d with files := front ++ (name, change f) :: back } := by
  rw [here, List.map_append, List.map_cons, List.nodup_middle, List.nodup_cons, List.mem_append, not_or] at distinct
  rw [Disk.update, here, List.map_append, List.map_cons, if_pos rfl, map_absent _ _ _ distinct.1.1, map_absent _ _ _ distinct.1.2]

theorem update_names (d : Disk N) (name : N) (change : DiskFile → DiskFile) :
    (d.update name change).files.map Prod.fst = d.files.map Prod.fst := by
  rw [Disk.update, List.map_map]
  refine List.map_congr_left fun file _ => ?_
  rw [Function.comp_apply]
  split <;> rfl

theorem unlink_first (d : Disk N) (first : N × DiskFile) (rest : List (N × DiskFile)) (here : d.files = first :: rest)
    (distinct : (d.files.map Prod.fst).Nodup) :
    SysCall.run d (.unlink first.1) = { d with files := rest, removed := d.removed ++ [first] } := by
  rw [here, List.map_cons, List.nodup_cons] at distinct
  have other : ∀ file ∈ rest, file.1 ≠ first.1 := by
    intro file member same
    refine distinct.1 ?_
    rw [← same]
    exact List.mem_map_of_mem member
  have kept : rest.filter (fun file => decide (file.1 ≠ first.1)) = rest := by
    rw [List.filter_eq_self]
    exact fun file member => decide_eq_true (other file member)
  have taken : rest.filter (fun file => decide (file.1 = first.1)) = [] := by
    rw [List.filter_eq_nil_iff]
    exact fun file member same => other file member (of_decide_eq_true same)
  rw [SysCall.run, here, List.filter_cons, List.filter_cons, kept, taken]
  simp

theorem run_writes (d : Disk N) (front : List (N × DiskFile)) (name : N) (f : DiskFile) (bytes : List UInt8)
    (here : d.files = front ++ [(name, f)]) (distinct : (d.files.map Prod.fst).Nodup) :
    runCalls d (bytes.map (SysCall.write name)) =
      { d with files := front ++ [(name, { f with data := f.data ++ bytes, padding := f.padding - bytes.length })] } := by
  induction bytes generalizing d f with
  | nil =>
    rw [List.map_nil, List.append_nil, List.length_nil, Nat.sub_zero, ← here]
    rfl
  | cons byte bytes ih =>
    have first := update_at d front [] name f (·.write byte) here distinct
    have names := update_names d name (·.write byte)
    rw [← names] at distinct
    rw [List.map_cons, runCalls, List.foldl_cons, SysCall.run]
    refine (ih _ (f.write byte) (by rw [first]) distinct).trans ?_
    rw [first, DiskFile.write, List.append_assoc, List.singleton_append, Nat.sub_sub, List.length_cons, Nat.add_comm 1]

end

theorem forall_snoc {P : Type} (holds : N × DiskFile → P → Prop) (files : List (N × DiskFile)) (ps : List P) (p : P)
    (all : List.Forall₂ holds files (ps ++ [p])) :
    ∃ front file, files = front ++ [file] ∧ List.Forall₂ holds front ps ∧ holds file p := by
  induction ps generalizing files with
  | nil =>
    cases all with
    | cons first rest =>
      cases rest
      exact ⟨[], _, rfl, .nil, first⟩
  | cons other ps ih =>
    cases all with
    | cons first rest =>
      obtain ⟨front, file, split, each, last⟩ := ih _ rest
      exact ⟨_ :: front, file, by rw [split, List.cons_append], .cons first each, last⟩

theorem remains_append {vanishing : N → Prop} (front back left : List (N × DiskFile))
    (remains : Remains vanishing (front ++ back) left) :
    ∃ leftFront leftBack, left = leftFront ++ leftBack ∧ Remains vanishing front leftFront ∧ Remains vanishing back leftBack := by
  induction front generalizing left with
  | nil => exact ⟨[], left, rfl, .nil, remains⟩
  | cons file front ih =>
    cases remains with
    | kept name before after _ rest torn later =>
      obtain ⟨leftFront, leftBack, split, first, second⟩ := ih rest later
      exact ⟨(name, after) :: leftFront, leftBack, by rw [split, List.cons_append], .kept name before after _ _ torn first, second⟩
    | lost name before _ _ may later =>
      obtain ⟨leftFront, leftBack, split, first, second⟩ := ih left later
      exact ⟨leftFront, leftBack, split, .lost name before _ _ may first, second⟩

-- Where a property of a file is one that torn files keep, it is one of what is left.
theorem remains_all {P : Type} {vanishing : N → Prop} (holds : N × DiskFile → P → Prop)
    (torn : ∀ name before after p, holds (name, before) p → before.Torn after → holds (name, after) p)
    {files left : List (N × DiskFile)} {ps : List P} (remains : Remains vanishing files left) (all : List.Forall₂ holds files ps) :
    ∃ kept, kept.Sublist ps ∧ List.Forall₂ holds left kept := by
  induction remains generalizing ps with
  | nil =>
    cases all
    exact ⟨[], .refl _, .nil⟩
  | kept name before after files left tears _ ih =>
    cases all with
    | cons first rest =>
      obtain ⟨kept, sub, each⟩ := ih rest
      exact ⟨_ :: kept, sub.cons_cons _, .cons (torn name before after _ first tears) each⟩
  | lost name before files left _ _ ih =>
    cases all with
    | cons first rest =>
      obtain ⟨kept, sub, each⟩ := ih rest
      exact ⟨kept, sub.cons _, each⟩

theorem remains_whole {P : Type} {vanishing : N → Prop} (holds : N × DiskFile → P → Prop)
    (torn : ∀ name before after p, holds (name, before) p → before.Torn after → holds (name, after) p)
    {files left : List (N × DiskFile)} {ps : List P} (remains : Remains vanishing files left) (all : List.Forall₂ holds files ps)
    (stay : ∀ name ∈ files.map Prod.fst, ¬ vanishing name) : List.Forall₂ holds left ps := by
  induction remains generalizing ps with
  | nil =>
    cases all
    exact .nil
  | kept name before after files left tears _ ih =>
    cases all with
    | cons first rest =>
      exact .cons (torn name before after _ first tears) (ih rest fun other member => stay other (List.mem_cons_of_mem _ member))
  | lost name before files left may _ _ => exact absurd may (stay name List.mem_cons_self)

theorem remains_names {vanishing : N → Prop} {files left : List (N × DiskFile)} (remains : Remains vanishing files left) :
    (left.map Prod.fst).Sublist (files.map Prod.fst) := by
  induction remains with
  | nil => exact .refl _
  | kept name before after files left _ _ ih => exact ih.cons_cons name
  | lost name before files left _ _ ih => exact ih.cons name

end OmryaKv.Lib
