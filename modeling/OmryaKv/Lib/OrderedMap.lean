import Mathlib.Data.List.Sort
import Mathlib.Order.Lattice

set_option autoImplicit false

namespace OmryaKv.Lib

variable {K V : Type} [LinearOrder K]

-- Keys strictly ascending, so that no key stands twice.
def Ascending (entries : List (K × V)) : Prop := (entries.map Prod.fst).Pairwise (· < ·)

structure OrderedMap (K V : Type) [LinearOrder K] where
  entries : List (K × V)
  sorted : Ascending entries

theorem ascending_cons (entry : K × V) (entries : List (K × V)) :
    Ascending (entry :: entries) ↔ (∀ other ∈ entries, entry.1 < other.1) ∧ Ascending entries := by
  rw [Ascending, List.map_cons, List.pairwise_cons]
  simp [Ascending]

theorem ascending_filter (keep : K × V → Bool) (entries : List (K × V)) (sorted : Ascending entries) :
    Ascending (entries.filter keep) :=
  sorted.sublist (List.filter_sublist.map Prod.fst)

theorem ascending_append_last (entries : List (K × V)) (key : K) (value : V) (sorted : Ascending entries)
    (above : ∀ entry ∈ entries, entry.1 < key) : Ascending (entries ++ [(key, value)]) := by
  rw [Ascending, List.map_append, List.map_singleton, List.pairwise_append]
  refine ⟨sorted, List.pairwise_singleton _ _, ?_⟩
  simpa using above

theorem ascending_unique (entries : List (K × V)) (sorted : Ascending entries) (key : K) (value other : V)
    (member : (key, value) ∈ entries) (otherMember : (key, other) ∈ entries) : value = other := by
  induction entries with
  | nil => cases member
  | cons entry entries ih =>
    obtain ⟨least, rest⟩ := (ascending_cons entry entries).mp sorted
    rcases List.mem_cons.mp member with first | later
    · rcases List.mem_cons.mp otherMember with otherFirst | otherLater
      · exact congrArg Prod.snd (first.trans otherFirst.symm)
      · exact absurd (least _ otherLater) (first ▸ lt_irrefl _)
    · rcases List.mem_cons.mp otherMember with otherFirst | otherLater
      · exact absurd (least _ later) (otherFirst ▸ lt_irrefl _)
      · exact ih rest later otherLater

theorem ascending_ext (left right : List (K × V)) (leftSorted : Ascending left) (rightSorted : Ascending right)
    (same : ∀ entry, entry ∈ left ↔ entry ∈ right) : left = right := by
  have leftStrict : left.Pairwise fun a b => a.1 < b.1 := List.pairwise_map.mp leftSorted
  have rightStrict : right.Pairwise fun a b => a.1 < b.1 := List.pairwise_map.mp rightSorted
  have distinct : ∀ entries : List (K × V), entries.Pairwise (fun a b => a.1 < b.1) → entries.Nodup := by
    intro entries strict
    refine strict.imp ?_
    rintro a b less rfl
    exact lt_irrefl _ less
  have perm : left.Perm right := (List.perm_ext_iff_of_nodup (distinct _ leftStrict) (distinct _ rightStrict)).mpr same
  exact perm.eq_of_pairwise (fun a b _ _ less more => absurd (lt_trans less more) (lt_irrefl _)) leftStrict rightStrict

namespace OrderedMap

def empty : OrderedMap K V := ⟨[], List.Pairwise.nil⟩

def get (map : OrderedMap K V) (key : K) : Option V :=
  (map.entries.find? fun entry => decide (entry.1 = key)).map Prod.snd

def insertEntry (key : K) (value : V) : List (K × V) → List (K × V)
  | [] => [(key, value)]
  | entry :: entries =>
    if key < entry.1 then (key, value) :: entry :: entries
    else if key = entry.1 then (key, value) :: entries
    else entry :: insertEntry key value entries

theorem mem_insert_entry (key : K) (value : V) (entries : List (K × V)) (sorted : Ascending entries) (entry : K × V) :
    entry ∈ insertEntry key value entries ↔ entry = (key, value) ∨ entry.1 ≠ key ∧ entry ∈ entries := by
  induction entries with
  | nil => simp [insertEntry]
  | cons first entries ih =>
    obtain ⟨least, rest⟩ := (ascending_cons first entries).mp sorted
    rw [insertEntry]
    split
    · next less =>
        have apart : entry ∈ first :: entries → entry.1 ≠ key := by
          intro member same
          rcases List.mem_cons.mp member with rfl | later
          · exact lt_irrefl _ (same ▸ less)
          · exact lt_irrefl _ (lt_trans less (same ▸ least entry later))
        rw [List.mem_cons]
        exact or_congr_right ⟨fun member => ⟨apart member, member⟩, And.right⟩
    · split
      · next same =>
          have apart : entry ∈ entries → entry.1 ≠ key := fun later equal =>
            lt_irrefl _ ((same.symm.trans equal.symm) ▸ least entry later)
          rw [List.mem_cons, List.mem_cons]
          refine or_congr_right ⟨fun member => ⟨apart member, .inr member⟩, ?_⟩
          rintro ⟨different, rfl | later⟩
          · exact absurd same.symm different
          · exact later
      · next notLess different =>
          rw [List.mem_cons, ih rest, List.mem_cons]
          constructor
          · rintro (rfl | rfl | ⟨apart, later⟩)
            · exact .inr ⟨fun same => different same.symm, .inl rfl⟩
            · exact .inl rfl
            · exact .inr ⟨apart, .inr later⟩
          · rintro (rfl | ⟨apart, rfl | later⟩)
            · exact .inr (.inl rfl)
            · exact .inl rfl
            · exact .inr (.inr ⟨apart, later⟩)

theorem insert_entry_sorted (key : K) (value : V) (entries : List (K × V)) (sorted : Ascending entries) :
    Ascending (insertEntry key value entries) := by
  induction entries with
  | nil => exact List.pairwise_singleton _ _
  | cons first entries ih =>
    obtain ⟨least, rest⟩ := (ascending_cons first entries).mp sorted
    rw [insertEntry]
    split
    · next less =>
        refine (ascending_cons _ _).mpr ⟨?_, sorted⟩
        intro other member
        rcases List.mem_cons.mp member with rfl | later
        · exact less
        · exact lt_trans less (least other later)
    · split
      · next same => exact (ascending_cons _ _).mpr ⟨fun other later => same ▸ least other later, rest⟩
      · next notLess different =>
          refine (ascending_cons _ _).mpr ⟨?_, ih rest⟩
          intro other member
          rcases (mem_insert_entry key value entries rest other).mp member with rfl | ⟨_, later⟩
          · exact lt_of_le_of_ne (not_lt.mp notLess) (Ne.symm different)
          · exact least other later

def insert (map : OrderedMap K V) (key : K) (value : V) : OrderedMap K V :=
  ⟨insertEntry key value map.entries, insert_entry_sorted key value map.entries map.sorted⟩

def erase (map : OrderedMap K V) (key : K) : OrderedMap K V :=
  ⟨map.entries.filter fun entry => decide (entry.1 ≠ key), ascending_filter _ map.entries map.sorted⟩

theorem get_eq_some_iff (map : OrderedMap K V) (key : K) (value : V) : map.get key = some value ↔ (key, value) ∈ map.entries := by
  rw [get, Option.map_eq_some_iff]
  constructor
  · rintro ⟨⟨found, _⟩, first, rfl⟩
    have same : found = key := by simpa using List.find?_some first
    exact same ▸ List.mem_of_find?_eq_some first
  · intro member
    cases first : map.entries.find? fun entry => decide (entry.1 = key) with
    | none => exact absurd (List.find?_eq_none.mp first _ member) (by simp)
    | some entry =>
      have same : entry.1 = key := by simpa using List.find?_some first
      have stored := List.mem_of_find?_eq_some first
      exact ⟨entry, rfl, ascending_unique map.entries map.sorted key _ _ (same ▸ stored) member⟩

theorem get_insert (map : OrderedMap K V) (key other : K) (value : V) :
    (map.insert key value).get other = if other = key then some value else map.get other := by
  apply Option.ext
  intro found
  rw [get_eq_some_iff, insert, mem_insert_entry _ _ _ map.sorted]
  split
  · next same => simp [same, eq_comm]
  · next different => simp [different, get_eq_some_iff]

theorem get_erase (map : OrderedMap K V) (key other : K) :
    (map.erase key).get other = if other = key then none else map.get other := by
  apply Option.ext
  intro found
  rw [get_eq_some_iff, erase, List.mem_filter]
  split
  · next same => simp [same]
  · next different => simp [different, get_eq_some_iff]

-- Each write puts a value under its key, or takes the key away.
def overlay (map : OrderedMap K V) (writes : OrderedMap K (Option V)) : OrderedMap K V :=
  writes.entries.foldl (fun current write => write.2.elim (current.erase write.1) (current.insert write.1)) map

theorem get_write (map : OrderedMap K V) (key other : K) (value : Option V) :
    (value.elim (map.erase key) (map.insert key)).get other = if other = key then value else map.get other := by
  cases value with
  | none => exact get_erase map key other
  | some value => exact get_insert map key other value

theorem get_cons (entry : K × V) (entries : List (K × V)) (sorted : Ascending (entry :: entries)) (key : K) :
    (⟨entry :: entries, sorted⟩ : OrderedMap K V).get key =
      if key = entry.1 then some entry.2 else (⟨entries, ((ascending_cons entry entries).mp sorted).2⟩ : OrderedMap K V).get key := by
  by_cases same : entry.1 = key
  · simp [get, same]
  · simp [get, same, Ne.symm same]

theorem get_eq_none (map : OrderedMap K V) (key : K) (absent : ∀ entry ∈ map.entries, entry.1 ≠ key) : map.get key = none := by
  cases found : map.get key with
  | none => rfl
  | some value => exact absurd rfl (absent _ ((get_eq_some_iff map key value).mp found))

theorem get_overlay (map : OrderedMap K V) (writes : OrderedMap K (Option V)) (key : K) :
    (map.overlay writes).get key = (writes.get key).getD (map.get key) := by
  obtain ⟨entries, sorted⟩ := writes
  induction entries generalizing map with
  | nil => rfl
  | cons entry entries ih =>
    obtain ⟨least, rest⟩ := (ascending_cons entry entries).mp sorted
    change ((entry.2.elim (map.erase entry.1) (map.insert entry.1)).overlay ⟨entries, rest⟩).get key = _
    rw [ih _ rest, get_cons, get_write]
    by_cases same : key = entry.1
    · have absent : (⟨entries, rest⟩ : OrderedMap K (Option V)).get key = none :=
        get_eq_none _ _ fun other member => same ▸ (least other member).ne'
      rw [absent, if_pos same, if_pos same]
      rfl
    · rw [if_neg same, if_neg same]

end OrderedMap

end OmryaKv.Lib
