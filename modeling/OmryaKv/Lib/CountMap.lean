import Mathlib.Data.List.Nodup
import Mathlib.Data.List.Perm.Basic

set_option autoImplicit false

namespace OmryaKv.Lib

-- A finite map from keys to counts. Nothing fixes the order of its entries, so
-- an operation that visits all of them takes the order as an argument.
structure IterationOrder (K : Type) where
  visit : List (K × Nat) → List (K × Nat)
  perm : ∀ entries, (visit entries).Perm entries

structure CountMap (K : Type) where
  entries : List (K × Nat)
  keysNodup : (entries.map Prod.fst).Nodup
deriving DecidableEq

namespace CountMap

variable {K : Type} [DecidableEq K]

def empty : CountMap K := ⟨[], List.nodup_nil⟩

def count (m : CountMap K) (key : K) : Nat := (m.entries.lookup key).getD 0

theorem alter_keys (entries : List (K × Nat)) (key : K) (f : Nat → Nat) :
    (entries.map fun entry => if entry.1 = key then (key, f entry.2) else entry).map Prod.fst = entries.map Prod.fst := by
  rw [List.map_map]
  apply List.map_congr_left
  intro entry _
  by_cases same : entry.1 = key <;> simp [same]

def alter (m : CountMap K) (key : K) (f : Nat → Nat) : CountMap K where
  entries := m.entries.map fun entry => if entry.1 = key then (key, f entry.2) else entry
  keysNodup := by rw [alter_keys]; exact m.keysNodup

def increment (m : CountMap K) (key : K) : CountMap K :=
  if absent : key ∈ m.entries.map Prod.fst then m.alter key (· + 1)
  else ⟨(key, 1) :: m.entries, List.nodup_cons.mpr ⟨absent, m.keysNodup⟩⟩

def decrement (m : CountMap K) (key : K) : CountMap K := m.alter key (· - 1)

def retain (m : CountMap K) (order : IterationOrder K) (keep : K × Nat → Bool) : CountMap K where
  entries := (order.visit m.entries).filter keep
  keysNodup := (((order.perm m.entries).map Prod.fst).nodup_iff.mpr m.keysNodup).sublist ((List.filter_sublist).map Prod.fst)

def inStoredOrder : IterationOrder K := ⟨id, fun _ => .rfl⟩

theorem lookup_of_mem (entries : List (K × Nat)) (nodup : (entries.map Prod.fst).Nodup) (key : K) (value : Nat)
    (member : (key, value) ∈ entries) : entries.lookup key = some value := by
  induction entries with
  | nil => simp at member
  | cons entry tail ih =>
    obtain ⟨head, tailNodup⟩ := List.nodup_cons.mp nodup
    rcases List.mem_cons.mp member with same | later
    · simp [← same]
    · have different : key ≠ entry.1 := by
        rintro rfl
        exact head (List.mem_map.mpr ⟨_, later, rfl⟩)
      rw [List.lookup_cons, beq_false_of_ne different]
      exact ih tailNodup later

theorem count_of_mem (m : CountMap K) (key : K) (value : Nat) (member : (key, value) ∈ m.entries) :
    m.count key = value := by
  simp [count, lookup_of_mem m.entries m.keysNodup key value member]

theorem lookup_of_absent (entries : List (K × Nat)) (key : K) (absent : key ∉ entries.map Prod.fst) :
    entries.lookup key = none := by
  rw [List.lookup_eq_none_iff]
  intro entry member
  exact bne_iff_ne.mpr fun same => absent (List.mem_map.mpr ⟨entry, member, same.symm⟩)

theorem count_of_absent (m : CountMap K) (key : K) (absent : key ∉ m.entries.map Prod.fst) : m.count key = 0 := by
  simp [count, lookup_of_absent m.entries key absent]

theorem mem_of_count_pos (m : CountMap K) (key : K) (positive : 0 < m.count key) : (key, m.count key) ∈ m.entries := by
  by_cases present : key ∈ m.entries.map Prod.fst
  · obtain ⟨⟨_, value⟩, member, rfl⟩ := List.mem_map.mp present
    rwa [count_of_mem m _ value member]
  · rw [count_of_absent m key present] at positive
    omega

theorem count_alter (m : CountMap K) (key other : K) (f : Nat → Nat) (zero : f 0 = 0 ∨ key ∈ m.entries.map Prod.fst) :
    (m.alter key f).count other = if other = key then f (m.count key) else m.count other := by
  by_cases present : other ∈ m.entries.map Prod.fst
  · obtain ⟨⟨stored, value⟩, member, rfl⟩ := List.mem_map.mp present
    have before := count_of_mem m stored value member
    by_cases same : stored = key
    · have after : (stored, f value) ∈ (m.alter key f).entries :=
        List.mem_map.mpr ⟨_, member, by simp [same]⟩
      rw [count_of_mem _ _ _ after, if_pos same, ← same, before]
    · have after : (stored, value) ∈ (m.alter key f).entries := List.mem_map.mpr ⟨_, member, by simp [same]⟩
      rw [count_of_mem _ _ _ after, if_neg same, before]
  · have after : other ∉ (m.alter key f).entries.map Prod.fst := by rwa [alter, alter_keys]
    rw [count_of_absent _ _ after, count_of_absent _ _ present]
    split
    · next same =>
        subst same
        rcases zero with zero | present'
        · rw [count_of_absent _ _ present, zero]
        · exact absurd present' present
    · rfl

@[simp] theorem count_increment (m : CountMap K) (key other : K) :
    (m.increment key).count other = if other = key then m.count key + 1 else m.count other := by
  unfold increment
  split
  · next present => exact count_alter m key other (· + 1) (.inr present)
  · next absent =>
      by_cases same : other = key
      · subst same
        rw [if_pos rfl, count_of_absent m other absent]
        simp [count]
      · rw [if_neg same]
        simp [count, List.lookup_cons, beq_false_of_ne same]

@[simp] theorem count_decrement (m : CountMap K) (key other : K) :
    (m.decrement key).count other = if other = key then m.count key - 1 else m.count other :=
  count_alter m key other (· - 1) (.inl rfl)

theorem count_retain (m : CountMap K) (order : IterationOrder K) (keep : K × Nat → Bool)
    (kept : ∀ entry, 0 < entry.2 → keep entry = true) (key : K) : (m.retain order keep).count key = m.count key := by
  have visited := order.perm m.entries
  by_cases positive : 0 < m.count key
  · have member := mem_of_count_pos m key positive
    apply count_of_mem
    exact List.mem_filter.mpr ⟨visited.mem_iff.mpr member, kept _ positive⟩
  · by_contra different
    have stored := mem_of_count_pos (m.retain order keep) key (by omega)
    have original := count_of_mem m key _ (visited.mem_iff.mp (List.mem_filter.mp stored).1)
    omega

end CountMap

end OmryaKv.Lib
