import OmryaKv.Lib.Run
import Mathlib.Algebra.Group.Nat.Defs
import Mathlib.Data.List.AList
import Mathlib.Data.List.Perm.Basic
import Mathlib.Order.Lattice

set_option autoImplicit false

namespace OmryaKv.Journal

open Lib

abbrev FileName := List Char

def jnl : FileName := ['.', 'j', 'n', 'l']

-- Path::extension: what follows the last dot, unless the name only starts with it.
def extension (name : FileName) : Option FileName :=
  match name.reverse.dropWhile (· ≠ '.') with
  | [] => none
  | [_] => none
  | _ :: _ :: _ => some (name.reverse.takeWhile (· ≠ '.')).reverse

def stripSuffix (suffix name : FileName) : Option FileName :=
  if suffix.isSuffixOf name then some (name.take (name.length - suffix.length)) else none

def unsigned : FileName → FileName
  | '+' :: digits => digits
  | digits => digits

-- str::parse for u64, which takes a plus sign and leading zeros.
def parseU64 (text : FileName) : Option Nat :=
  let digits := unsigned text
  if digits.isEmpty ∨ ¬ digits.all Char.isDigit then none
  else if Nat.ofDigitChars 10 digits 0 < 2 ^ 64 then some (Nat.ofDigitChars 10 digits 0)
  else none

def hasJournalExtension (name : FileName) : Bool :=
  (extension name).any fun ext => ext.map Char.toLower == ['j', 'n', 'l']

def journalId (name : FileName) : Option Nat := (stripSuffix jnl name).bind parseU64

def journalName (id : Nat) : FileName := Nat.toDigits 10 id ++ jnl

inductive FolderError where
  | invalidFileName
  | alreadyExists
deriving DecidableEq

-- The files of the database folder by name, in the order read_dir lists them. A
-- journal is taken as the batches in it.
abbrev Folder (B : Type) := AList fun _ : FileName => List B

structure RecoveryResult (B : Type) where
  folder : Folder B
  active : FileName
  sealedJournals : List (Nat × FileName)

variable {B : Type}

def createNew (folder : Folder B) (name : FileName) : Except FolderError (Folder B) :=
  if name ∈ folder then .error .alreadyExists else .ok (folder.insert name [])

def fragment (name : FileName) : Except FolderError (Option (Nat × FileName)) :=
  if hasJournalExtension name then
    match journalId name with
    | none => .error .invalidFileName
    | some id => .ok (some (id, name))
  else .ok none

def fragments : List FileName → Except FolderError (List (Nat × FileName))
  | [] => .ok []
  | name :: names => do
      let first ← fragment name
      let rest ← fragments names
      return first.toList ++ rest

def byId (a b : Nat × FileName) : Bool := decide (a.1 ≤ b.1)

-- The name made up when there is no journal has no extension.
def recoverJournals (folder : Folder B) : Except FolderError (RecoveryResult B) := do
  let listed ← fragments folder.keys
  let sorted := listed.mergeSort byId
  match sorted.getLast? with
  | some (_, active) => return ⟨folder, active, sorted.dropLast⟩
  | none =>
    let maxJournalId := listed.foldl (fun highest listed => max highest listed.1) 0
    let name := Nat.toDigits 10 (maxJournalId + 1)
    let folder ← createNew folder name
    return ⟨folder, name, []⟩

-- sealedJournals are the items of the journal manager, oldest first. held remembers the
-- acknowledged batches apart from those in journals that were deleted.
structure OpenJournals (B : Type) where
  folder : Folder B
  active : FileName
  sealedJournals : List FileName
  held : List B

namespace OpenJournals

def contents (folder : Folder B) (names : List FileName) : List B := names.flatMap fun name => (folder.lookup name).getD []

def write (s : OpenJournals B) (batch : B) : OpenJournals B :=
  { s with
    folder := s.folder.insert s.active ((s.folder.lookup s.active).getD [] ++ [batch])
    held := s.held ++ [batch] }

-- The new id is computed in 64 bits.
def rotate (s : OpenJournals B) : Except FolderError (OpenJournals B) :=
  match journalId s.active with
  | none => .error .invalidFileName
  | some id => do
      let name := journalName ((id + 1) % 2 ^ 64)
      let folder ← createNew s.folder name
      return { s with folder := folder, active := name, sealedJournals := s.sealedJournals ++ [s.active] }

def opened (result : RecoveryResult B) : OpenJournals B :=
  let names := result.sealedJournals.map Prod.snd
  ⟨result.folder, result.active, names, contents result.folder (names ++ [result.active])⟩

end OpenJournals

inductive JournalOp (B : Type) where
  | write (batch : B)
  | rotate
  | deleteOldest
  | restart

inductive JournalStep : OpenJournals B → JournalOp B → OpenJournals B → Prop where
  | write (s : OpenJournals B) (batch : B) : JournalStep s (.write batch) (s.write batch)
  | rotate (s next : OpenJournals B) (rotated : s.rotate = .ok next) : JournalStep s .rotate next
  | rotateFails (s : OpenJournals B) (e : FolderError) (failed : s.rotate = .error e) : JournalStep s .rotate s
  | deleteOldest (s : OpenJournals B) (oldest : FileName) (rest : List FileName) (queued : s.sealedJournals = oldest :: rest) :
      JournalStep s .deleteOldest
        { s with
          folder := s.folder.erase oldest
          sealedJournals := rest
          held := s.held.drop ((s.folder.lookup oldest).getD []).length }
  -- The folder may be listed in another order each time.
  | restart (s : OpenJournals B) (folder : Folder B) (result : RecoveryResult B)
      (same : folder.entries.Perm s.folder.entries) (recovered : recoverJournals folder = .ok result) :
      JournalStep s .restart { OpenJournals.opened result with held := s.held }

-- The files with the extension of a journal have numbers for names, all different.
structure Numbered (folder : Folder B) : Prop where
  numeric : ∀ name ∈ folder.keys, hasJournalExtension name = true → (journalId name).isSome
  distinct : ∀ name ∈ folder.keys, ∀ other ∈ folder.keys, hasJournalExtension name = true →
    hasJournalExtension other = true → journalId name = journalId other → name = other

-- What the next recovery gives back, and that the active journal can be rotated.
structure Good (s : OpenJournals B) : Prop where
  recovers : ∀ folder : Folder B, folder.entries.Perm s.folder.entries →
    ∃ result, recoverJournals folder = .ok result ∧ result.active = s.active ∧
      result.sealedJournals.map Prod.snd = s.sealedJournals ∧
      (result.sealedJournals.map Prod.fst).Pairwise (· < ·) ∧
      OpenJournals.contents result.folder (s.sealedJournals ++ [s.active]) = s.held ∧
      ∃ id, journalId result.active = some id ∧ ∀ sealed ∈ result.sealedJournals, sealed.1 < id
  rotates : ∀ id, journalId s.active = some id → id < 2 ^ 64 - 1 → ∃ next, s.rotate = .ok next

-- Rotation stays below the largest id there is.
def IdLeft (s : OpenJournals B) : JournalOp B → Prop
  | .rotate => ∀ id, journalId s.active = some id → id < 2 ^ 64 - 1
  | _ => True

variable (id : Nat)

theorem digits_not_dot : ∀ char ∈ Nat.toDigits 10 id, char ≠ '.' := by
  intro char member dot
  have digit := Nat.isDigit_of_mem_toDigits (by decide) (by decide) member
  rw [dot] at digit
  cases digit

theorem journal_name_extension : hasJournalExtension (journalName id) = true := by
  have shape : (journalName id).reverse = ['l', 'n', 'j', '.'] ++ (Nat.toDigits 10 id).reverse := by
    simp [journalName, jnl]
  rw [hasJournalExtension, extension, shape]
  cases stem : (Nat.toDigits 10 id).reverse with
  | nil => exact absurd (List.reverse_eq_nil_iff.mp stem) Nat.toDigits_ne_nil
  | cons last others => rfl

theorem digits_extension : hasJournalExtension (Nat.toDigits 10 id) = false := by
  have undotted : ∀ char ∈ (Nat.toDigits 10 id).reverse, decide (char ≠ '.') = true := by
    intro char member
    simpa using digits_not_dot id char (List.mem_reverse.mp member)
  have none : (Nat.toDigits 10 id).reverse.dropWhile (· ≠ '.') = [] := by
    have dropped := @List.dropWhile_append_of_pos _ _ _ [] undotted
    rwa [List.append_nil] at dropped
  rw [hasJournalExtension, extension, none]
  rfl

theorem unsigned_digits : unsigned (Nat.toDigits 10 id) = Nat.toDigits 10 id := by
  cases text : Nat.toDigits 10 id with
  | nil => rfl
  | cons first rest =>
    have digit : first.isDigit = true :=
      Nat.isDigit_of_mem_toDigits (by decide) (by decide) (text ▸ List.mem_cons_self : first ∈ Nat.toDigits 10 id)
    unfold unsigned
    split
    · rename_i digits signed
      rw [(List.cons.inj signed).1] at digit
      cases digit
    · rfl

theorem parse_digits (fits : id < 2 ^ 64) : parseU64 (Nat.toDigits 10 id) = some id := by
  have read : Nat.ofDigitChars 10 (Nat.toDigits 10 id) 0 = id := Nat.ofDigitChars_toDigits (by decide) (by decide)
  have digits : (Nat.toDigits 10 id).all Char.isDigit = true :=
    List.all_eq_true.mpr fun char member => Nat.isDigit_of_mem_toDigits (by decide) (by decide) member
  simp only [parseU64, unsigned_digits, read, digits, List.isEmpty_iff, Nat.toDigits_ne_nil, not_true_eq_false, or_self, if_false,
    fits, if_true]

theorem journal_name_id (fits : id < 2 ^ 64) : journalId (journalName id) = some id := by
  have suffixed : jnl.isSuffixOf (journalName id) = true := List.isSuffixOf_iff_suffix.mpr (List.suffix_append _ _)
  have stripped : stripSuffix jnl (journalName id) = some (Nat.toDigits 10 id) := by
    rw [stripSuffix, if_pos suffixed, journalName, List.length_append, Nat.add_sub_cancel, List.take_left]
  rw [journalId, stripped, Option.bind_some, parse_digits id fits]

def tag (name : FileName) : Nat × FileName := ((journalId name).getD 0, name)

def Before (a b : FileName) : Prop := ∃ i j, journalId a = some i ∧ journalId b = some j ∧ i < j

-- The journals of a folder, in ascending order of their ids.
structure Listed (folder : Folder B) (names : List FileName) : Prop where
  exact : ∀ name, name ∈ names ↔ name ∈ folder.keys ∧ hasJournalExtension name = true
  numeric : ∀ name ∈ names, (journalId name).isSome
  ordered : names.Pairwise Before

theorem fragments_ok (names : List FileName)
    (numeric : ∀ name ∈ names, hasJournalExtension name = true → (journalId name).isSome) :
    fragments names = .ok ((names.filter hasJournalExtension).map tag) := by
  induction names with
  | nil => rfl
  | cons name names ih =>
    have rest := ih fun other member => numeric other (List.mem_cons_of_mem _ member)
    cases kind : hasJournalExtension name with
    | false =>
      have skipped : fragment name = .ok none := by rw [fragment, if_neg (by simp [kind])]
      rw [fragments, skipped, rest, List.filter_cons_of_neg (by simp [kind])]
      rfl
    | true =>
      obtain ⟨id, found⟩ := Option.isSome_iff_exists.mp (numeric name List.mem_cons_self kind)
      have read : fragment name = .ok (some (tag name)) := by
        rw [fragment, if_pos kind, found, tag, found]
        rfl
      rw [fragments, read, rest, List.filter_cons_of_pos kind]
      rfl

theorem before_ne (a b : FileName) (before : Before a b) : a ≠ b := by
  obtain ⟨i, j, first, second, less⟩ := before
  intro same
  rw [same, second, Option.some.injEq] at first
  omega

theorem tag_before (a b : FileName) (before : Before a b) : (tag a).1 < (tag b).1 := by
  obtain ⟨i, j, first, second, less⟩ := before
  simpa [tag, first, second] using less

variable (folder : Folder B)

-- Whatever order the folder is read in, sorting by id gives the one ascending list.
theorem sorted_listed (names : List FileName) (listed : Listed folder names) :
    ((folder.keys.filter hasJournalExtension).map tag).mergeSort byId = names.map tag := by
  have perm : (((folder.keys.filter hasJournalExtension).map tag).mergeSort byId).Perm (names.map tag) := by
    refine (List.mergeSort_perm _ _).trans ?_
    refine List.Perm.map tag ((List.perm_ext_iff_of_nodup (folder.keys_nodup.filter _) ?_).mpr ?_)
    · exact listed.ordered.imp fun {a b} before => before_ne a b before
    · intro name
      rw [List.mem_filter, listed.exact]
  have ascending : (names.map tag).Pairwise fun a b => a.1 < b.1 := by
    rw [List.pairwise_map]
    exact listed.ordered.imp fun {a b} before => tag_before a b before
  have distinct : ((names.map tag).map Prod.fst).Nodup := by
    rw [List.Nodup, List.pairwise_map]
    exact ascending.imp fun less => Nat.ne_of_lt less
  refine List.Perm.eq_of_pairwise ?_ (List.pairwise_mergeSort ?_ ?_ _)
    (ascending.imp fun {a b} less => decide_eq_true (Nat.le_of_lt less)) perm
  · intro a b aMember bMember forward backward
    exact List.inj_on_of_nodup_map distinct (perm.subset aMember) bMember
      (Nat.le_antisymm (of_decide_eq_true forward) (of_decide_eq_true backward))
  · intro a b c first second
    exact decide_eq_true (Nat.le_trans (of_decide_eq_true first) (of_decide_eq_true second))
  · intro a b
    simpa [byId] using Nat.le_total a.1 b.1

theorem listed_recovers (front : List FileName) (last : FileName) (listed : Listed folder (front ++ [last])) :
    recoverJournals folder = .ok ⟨folder, last, front.map tag⟩ := by
  have numeric : ∀ name ∈ folder.keys, hasJournalExtension name = true → (journalId name).isSome := fun name member kind =>
    listed.numeric name ((listed.exact name).mpr ⟨member, kind⟩)
  rw [recoverJournals, fragments_ok folder.keys numeric]
  simp only [bind, Except.bind, sorted_listed folder _ listed, List.map_append, List.map_cons, List.map_nil,
    List.getLast?_append, List.getLast?_singleton, Option.some_or, List.dropLast_concat]
  rfl

theorem numbered_listed (numbered : Numbered folder) (name : FileName) (member : name ∈ folder.keys)
    (kind : hasJournalExtension name = true) : ∃ front last, Listed folder (front ++ [last]) := by
  let journals := folder.keys.filter hasJournalExtension
  let sorted := journals.mergeSort fun a b => byId (tag a) (tag b)
  have perm : sorted.Perm journals := List.mergeSort_perm _ _
  have exact : ∀ other, other ∈ sorted ↔ other ∈ folder.keys ∧ hasJournalExtension other = true := fun other =>
    perm.mem_iff.trans List.mem_filter
  have numeric : ∀ other ∈ sorted, (journalId other).isSome := by
    intro other listed
    obtain ⟨stored, journal⟩ := (exact other).mp listed
    exact numbered.numeric other stored journal
  have ordered : sorted.Pairwise Before := by
    have weak : sorted.Pairwise fun a b => byId (tag a) (tag b) = true := by
      refine List.pairwise_mergeSort ?_ ?_ _
      · intro a b c first second
        exact decide_eq_true (Nat.le_trans (of_decide_eq_true first) (of_decide_eq_true second))
      · intro a b
        simpa [byId] using Nat.le_total (tag a).1 (tag b).1
    have unique : sorted.Nodup := perm.nodup_iff.mpr (folder.keys_nodup.filter _)
    refine (weak.and unique).imp_of_mem ?_
    intro a b aListed bListed pair
    obtain ⟨i, first⟩ := Option.isSome_iff_exists.mp (numeric a aListed)
    obtain ⟨j, second⟩ := Option.isSome_iff_exists.mp (numeric b bListed)
    have atMost : i ≤ j := by simpa [byId, tag, first, second] using pair.1
    refine ⟨i, j, first, second, Nat.lt_of_le_of_ne atMost ?_⟩
    intro same
    obtain ⟨aStored, aJournal⟩ := (exact a).mp aListed
    obtain ⟨bStored, bJournal⟩ := (exact b).mp bListed
    exact pair.2 (numbered.distinct a aStored b bStored aJournal bJournal (by rw [first, second, same]))
  have nonempty : sorted ≠ [] := List.ne_nil_of_mem ((exact name).mpr ⟨member, kind⟩)
  have listed : Listed folder sorted := ⟨exact, numeric, ordered⟩
  rw [← List.dropLast_append_getLast nonempty] at listed
  exact ⟨_, _, listed⟩

theorem listed_same_keys (folder next : Folder B) (names : List FileName) (keys : ∀ name, name ∈ next.keys ↔ name ∈ folder.keys)
    (listed : Listed folder names) : Listed next names :=
  { listed with exact := fun name => by rw [listed.exact, keys] }

theorem listed_created (front : List FileName) (last : FileName) (id : Nat) (listed : Listed folder (front ++ [last]))
    (found : journalId last = some id) (fits : id + 1 < 2 ^ 64) :
    journalName (id + 1) ∉ folder ∧ Listed (folder.insert (journalName (id + 1)) []) (front ++ [last] ++ [journalName (id + 1)]) := by
  have fresh := journal_name_id (id + 1) fits
  have kind := journal_name_extension (id + 1)
  have below : ∀ name ∈ front ++ [last], ∃ i, journalId name = some i ∧ i ≤ id := by
    intro name member
    cases List.mem_append.mp member with
    | inl early =>
      obtain ⟨i, j, first, second, less⟩ := (List.pairwise_append.mp listed.ordered).2.2 name early last (by simp)
      rw [found, Option.some.injEq] at second
      exact ⟨i, first, by omega⟩
    | inr here =>
      rw [List.mem_singleton.mp here]
      exact ⟨id, found, Nat.le_refl _⟩
  refine ⟨?_, ?_, ?_, ?_⟩
  · intro member
    obtain ⟨i, first, bounded⟩ := below _ ((listed.exact _).mpr ⟨AList.mem_keys.mp member, kind⟩)
    rw [fresh, Option.some.injEq] at first
    omega
  · intro name
    rw [List.mem_append, List.mem_singleton, listed.exact, ← AList.mem_keys, ← AList.mem_keys, AList.mem_insert]
    constructor
    · intro either
      cases either with
      | inl old => exact ⟨.inr old.1, old.2⟩
      | inr new => exact ⟨.inl new, new ▸ kind⟩
    · intro both
      cases both.1 with
      | inl new => exact .inr new
      | inr old => exact .inl ⟨old, both.2⟩
  · intro name member
    cases List.mem_append.mp member with
    | inl old => exact listed.numeric name old
    | inr new =>
      rw [List.mem_singleton.mp new, fresh]
      rfl
  · refine List.pairwise_append.mpr ⟨listed.ordered, List.pairwise_singleton _ _, ?_⟩
    intro name member other new
    obtain ⟨i, first, bounded⟩ := below name member
    rw [List.mem_singleton.mp new]
    exact ⟨i, id + 1, first, fresh, by omega⟩

theorem listed_deleted (first : FileName) (rest : List FileName) (listed : Listed folder (first :: rest)) :
    Listed (folder.erase first) rest := by
  obtain ⟨head, tail⟩ := List.pairwise_cons.mp listed.ordered
  refine ⟨?_, fun name member => listed.numeric name (List.mem_cons_of_mem _ member), tail⟩
  intro name
  rw [← AList.mem_keys, AList.mem_erase, and_assoc, AList.mem_keys, ← listed.exact, List.mem_cons]
  constructor
  · exact fun member => ⟨(before_ne first name (head name member)).symm, .inr member⟩
  · exact fun kept => kept.2.resolve_left kept.1

namespace OpenJournals

theorem contents_append (front back : List FileName) :
    contents folder (front ++ back) = contents folder front ++ contents folder back := List.flatMap_append

theorem contents_singleton (name : FileName) : contents folder [name] = (folder.lookup name).getD [] :=
  List.flatMap_singleton _ _

theorem contents_congr (folder next : Folder B) (names : List FileName)
    (same : ∀ name ∈ names, next.lookup name = folder.lookup name) : contents next names = contents folder names := by
  induction names with
  | nil => rfl
  | cons name names ih =>
    have rest := ih fun other member => same other (List.mem_cons_of_mem _ member)
    simp only [contents, List.flatMap_cons] at rest ⊢
    rw [rest, same name List.mem_cons_self]

end OpenJournals

open OpenJournals

structure Tracked (s : OpenJournals B) : Prop where
  listed : Listed s.folder (s.sealedJournals ++ [s.active])
  held : contents s.folder (s.sealedJournals ++ [s.active]) = s.held

theorem tracked_active (s : OpenJournals B) (tracked : Tracked s) :
    (∃ id, journalId s.active = some id ∧ ∀ name ∈ s.sealedJournals, (tag name).1 < id) ∧ s.active ∈ s.folder ∧
      ∀ name ∈ s.sealedJournals, name ≠ s.active := by
  obtain ⟨id, found⟩ := Option.isSome_iff_exists.mp (tracked.listed.numeric s.active (by simp))
  have before := (List.pairwise_append.mp tracked.listed.ordered).2.2
  refine ⟨⟨id, found, ?_⟩, ?_, ?_⟩
  · intro name member
    have less := tag_before _ _ (before name member s.active (by simp))
    rwa [tag, tag, found] at less
  · exact AList.mem_keys.mpr ((tracked.listed.exact s.active).mp (by simp)).1
  · exact fun name member => before_ne _ _ (before name member s.active (by simp))

theorem tracked_rotates (s : OpenJournals B) (tracked : Tracked s) (id : Nat) (found : journalId s.active = some id)
    (room : id < 2 ^ 64 - 1) :
    s.rotate = .ok { s with
      folder := s.folder.insert (journalName (id + 1)) [], active := journalName (id + 1),
      sealedJournals := s.sealedJournals ++ [s.active] } := by
  have fits : id + 1 < 2 ^ 64 := by omega
  obtain ⟨absent, _⟩ := listed_created s.folder s.sealedJournals s.active id tracked.listed found fits
  rw [rotate, found]
  simp only [Nat.mod_eq_of_lt fits, createNew, if_neg absent]
  rfl

theorem tracked_good (s : OpenJournals B) (tracked : Tracked s) : Good s := by
  constructor
  · intro folder same
    have keys : ∀ name, name ∈ folder.keys ↔ name ∈ s.folder.keys := fun name => (same.map Sigma.fst).mem_iff
    have listed := listed_same_keys s.folder folder _ keys tracked.listed
    obtain ⟨⟨id, found, below⟩, _, _⟩ := tracked_active s tracked
    refine ⟨_, listed_recovers folder s.sealedJournals s.active listed, rfl, ?_, ?_, ?_, id, found, ?_⟩
    · rw [List.map_map]
      exact List.map_id _
    · rw [List.map_map, List.pairwise_map]
      exact (List.pairwise_append.mp listed.ordered).1.imp fun {a b} before => tag_before a b before
    · rw [← tracked.held]
      exact contents_congr _ _ _ fun name _ => AList.perm_lookup same
    · intro sealed member
      obtain ⟨name, listedName, rfl⟩ := List.mem_map.mp member
      exact below name listedName
  · intro id found room
    exact ⟨_, tracked_rotates s tracked id found room⟩

theorem journal_step_tracked (s next : OpenJournals B) (op : JournalOp B) (tracked : Tracked s) (left : IdLeft s op)
    (step : JournalStep s op next) : Tracked next := by
  obtain ⟨⟨id, found, _⟩, stored, apart⟩ := tracked_active s tracked
  have held := tracked.held
  cases step with
  | write batch =>
    constructor
    · refine listed_same_keys s.folder _ _ ?_ tracked.listed
      intro name
      change name ∈ (s.folder.insert s.active _).keys ↔ _
      rw [← AList.mem_keys, ← AList.mem_keys, AList.mem_insert]
      exact ⟨fun either => either.elim (fun same => same ▸ stored) fun kept => kept, .inr⟩
    · rw [contents_append, contents_singleton] at held ⊢
      change contents (s.folder.insert s.active _) s.sealedJournals ++ ((s.folder.insert s.active _).lookup s.active).getD [] =
        s.held ++ [batch]
      rw [contents_congr s.folder _ _ fun name member => AList.lookup_insert_ne (apart name member), AList.lookup_insert,
        Option.getD_some, ← List.append_assoc, held]
  | rotate after rotated =>
    have room := left id found
    rw [tracked_rotates s tracked id found room] at rotated
    cases rotated
    obtain ⟨absent, listed⟩ := listed_created s.folder s.sealedJournals s.active id tracked.listed found (by omega)
    refine ⟨listed, ?_⟩
    rw [contents_append, contents_singleton, AList.lookup_insert, Option.getD_some, List.append_nil, ← held]
    refine contents_congr _ _ _ fun name member => AList.lookup_insert_ne ?_
    intro same
    exact absent (same ▸ AList.mem_keys.mpr ((tracked.listed.exact name).mp member).1)
  | rotateFails e failed => exact tracked
  | deleteOldest oldest rest queued =>
    have listed := tracked.listed
    rw [queued, List.cons_append] at listed held
    obtain ⟨head, _⟩ := List.pairwise_cons.mp listed.ordered
    refine ⟨listed_deleted s.folder oldest _ listed, ?_⟩
    change contents (s.folder.erase oldest) (rest ++ [s.active]) = s.held.drop _
    rw [← held, contents_congr s.folder _ _ fun name member =>
      AList.lookup_erase_ne (before_ne _ _ (head name member)).symm]
    exact List.drop_left.symm
  | restart folder result same recovered =>
    obtain ⟨found, completed, active, sealedNames, _, contained, _⟩ := (tracked_good s tracked).recovers folder same
    rw [completed] at recovered
    cases recovered
    have keys : ∀ name, name ∈ folder.keys ↔ name ∈ s.folder.keys := fun name => (same.map Sigma.fst).mem_iff
    have listed := listed_same_keys s.folder folder _ keys tracked.listed
    rw [listed_recovers folder s.sealedJournals s.active listed] at completed
    cases completed
    constructor
    · change Listed folder ((s.sealedJournals.map tag).map Prod.snd ++ [s.active])
      rw [sealedNames]
      exact listed
    · change contents folder ((s.sealedJournals.map tag).map Prod.snd ++ [s.active]) = s.held
      rw [sealedNames]
      exact contained

theorem recovered_tracked (front : List FileName) (last : FileName)
    (listed : Listed folder (front ++ [last])) : Tracked (opened ⟨folder, last, front.map tag⟩) := by
  have names : (front.map tag).map Prod.snd = front := by
    rw [List.map_map]
    exact List.map_id _
  constructor
  · change Listed folder ((front.map tag).map Prod.snd ++ [last])
    rw [names]
    exact listed
  · rfl

theorem recover_unlisted (unlisted : ∀ name ∈ folder.keys, hasJournalExtension name = false) :
    recoverJournals folder = (createNew folder (Nat.toDigits 10 1)).map fun next => ⟨next, Nat.toDigits 10 1, []⟩ := by
  have none : folder.keys.filter hasJournalExtension = [] := by
    rw [List.filter_eq_nil_iff]
    intro name member
    simp [unlisted name member]
  have numeric : ∀ name ∈ folder.keys, hasJournalExtension name = true → (journalId name).isSome := by
    intro name member kind
    rw [unlisted name member] at kind
    cases kind
  rw [recoverJournals, fragments_ok folder.keys numeric, none]
  simp only [bind, Except.bind, List.map_nil, List.mergeSort_nil, List.getLast?_nil, List.foldl_nil, Nat.zero_add]
  cases createNew folder (Nat.toDigits 10 1) <;> rfl

-- Without a journal the file that is made up is no journal to the next recovery, which fails to make it up again.
theorem unlisted_not_good (unlisted : ∀ name ∈ folder.keys, hasJournalExtension name = false) (result : RecoveryResult B)
    (recovered : recoverJournals folder = .ok result) : ¬ Good (opened result) := by
  rw [recover_unlisted folder unlisted, createNew] at recovered
  split at recovered
  · cases recovered
  · cases recovered
    intro good
    obtain ⟨again, recovered, _⟩ := good.recovers _ (List.Perm.refl _)
    have stillUnlisted : ∀ name ∈ (folder.insert (Nat.toDigits 10 1) []).keys, hasJournalExtension name = false := by
      intro name member
      cases (AList.mem_insert folder).mp (AList.mem_keys.mpr member) with
      | inl made =>
        rw [made]
        exact digits_extension 1
      | inr old => exact unlisted name (AList.mem_keys.mp old)
    have present : Nat.toDigits 10 1 ∈ folder.insert (Nat.toDigits 10 1) [] := (AList.mem_insert folder).mpr (.inl rfl)
    have failed := recover_unlisted (folder.insert (Nat.toDigits 10 1) []) stillUnlisted
    rw [createNew, if_pos present] at failed
    exact nomatch failed.symm.trans recovered

theorem recovered_journals_stay_listed (folder : Folder B) (numbered : Numbered folder) :
    (∃ name ∈ folder.keys, hasJournalExtension name = true) ↔
      ∃ result, recoverJournals folder = .ok result ∧
        ∀ ops s, Run (Guarded JournalStep IdLeft) (opened result) ops s → Good s := by
  constructor
  · intro journal
    obtain ⟨name, member, kind⟩ := journal
    obtain ⟨front, last, listed⟩ := numbered_listed folder numbered name member kind
    refine ⟨_, listed_recovers folder front last listed, ?_⟩
    intro ops s run
    refine tracked_good s (run_invariant _ Tracked ?_ run (recovered_tracked folder front last listed))
    exact fun state op next tracked step => journal_step_tracked state next op tracked step.1 step.2
  · intro recovered
    obtain ⟨result, completed, good⟩ := recovered
    by_contra none
    have unlisted : ∀ name ∈ folder.keys, hasJournalExtension name = false := by
      intro name member
      by_contra kind
      exact none ⟨name, member, by simpa using kind⟩
    exact unlisted_not_good folder unlisted result completed (good [] _ (.nil _))

def twoJournals : Folder Nat :=
  ((∅ : Folder Nat).insert ['l', 'o', 'c', 'k'] []).insert (journalName 5) [] |>.insert (journalName 3) [10]

theorem two_journals_stay_listed :
    Numbered twoJournals ∧ ∃ result, recoverJournals twoJournals = .ok result ∧
      ∀ ops s, Run (Guarded JournalStep IdLeft) (opened result) ops s → Good s := by
  have numbered : Numbered twoJournals := ⟨by decide, by decide⟩
  exact ⟨numbered, (recovered_journals_stay_listed twoJournals numbered).mp ⟨journalName 5, by decide, by decide⟩⟩

-- The batch is acknowledged, rotation fails and the next start does so as well.
theorem made_up_journal_is_lost :
    Numbered (∅ : Folder Nat) ∧ ∃ result : RecoveryResult Nat, recoverJournals ∅ = .ok result ∧ result.active = ['1'] ∧
      ((opened result).write 7).rotate = .error .invalidFileName ∧
      recoverJournals ((opened result).write 7).folder = .error .alreadyExists := by
  refine ⟨⟨by decide, by decide⟩, ⟨(∅ : Folder Nat).insert ['1'] [], ['1'], []⟩, ?_, rfl, rfl, ?_⟩
  · rw [recover_unlisted ∅ (by decide)]
    rfl
  · rw [recover_unlisted _ (by decide)]
    rfl

end OmryaKv.Journal
