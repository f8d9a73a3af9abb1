import Mathlib.Data.List.Basic
import Mathlib.Data.List.Pairwise
import Mathlib.Data.List.Sort
import Mathlib.Order.Lattice

set_option autoImplicit false

namespace OmryaKv.Lib

section Versions

variable {α K : Type} [DecidableEq K] (key : α → K) (rank : α → Nat)

-- The version of a key with the highest rank. Among equals the one nearer to
-- the front of the list wins, which is the one that was added later.
def newest (wanted : K) : List α → Option α
  | [] => none
  | head :: tail =>
    match newest wanted tail with
    | none => if key head = wanted then some head else none
    | some found => if key head = wanted ∧ rank found ≤ rank head then some head else some found

def highest (versions : List α) : Option Nat := (versions.map rank).max?

def Descending (versions : List α) : Prop := versions.Pairwise fun later earlier => rank earlier ≤ rank later

variable (wanted : K)
variable (versions : List α)

theorem newest_mem (found : α) (result : newest key rank wanted versions = some found) : found ∈ versions := by
  induction versions with
  | nil => simp [newest] at result
  | cons head tail ih =>
    rw [newest] at result
    split at result
    · split at result
      · simp_all
      · cases result
    · rename_i other otherFound
      split at result
      · simp_all
      · cases result
        exact List.mem_cons_of_mem _ (ih otherFound)

theorem newest_key (found : α) (result : newest key rank wanted versions = some found) : key found = wanted := by
  induction versions with
  | nil => simp [newest] at result
  | cons head tail ih =>
    rw [newest] at result
    split at result
    · split at result
      · simp_all
      · cases result
    · split at result
      · simp_all
      · simp_all

theorem newest_some (version : α) (member : version ∈ versions)
    (matched : key version = wanted) : newest key rank wanted versions ≠ none := by
  induction versions with
  | nil => cases member
  | cons head tail ih =>
    rw [newest]
    cases below : newest key rank wanted tail with
    | some found => by_cases wins : key head = wanted ∧ rank found ≤ rank head <;> simp [wins]
    | none =>
      cases List.mem_cons.mp member with
      | inl first =>
        subst first
        simp [matched]
      | inr later => exact absurd below (ih later)

theorem rank_le_newest (found : α) (result : newest key rank wanted versions = some found) (version : α)
    (member : version ∈ versions) (matched : key version = wanted) : rank version ≤ rank found := by
  induction versions generalizing found with
  | nil => cases member
  | cons head tail ih =>
    rw [newest] at result
    cases below : newest key rank wanted tail with
    | none =>
      rw [below] at result
      cases List.mem_cons.mp member with
      | inl first =>
        subst first
        simp only [matched, if_true, Option.some.injEq] at result
        exact Nat.le_of_eq (congrArg rank result)
      | inr later => exact absurd below (newest_some key rank wanted tail version later matched)
    | some other =>
      simp only [below] at result
      split at result
      · rename_i wins
        cases result
        cases List.mem_cons.mp member with
        | inl first => exact Nat.le_of_eq (congrArg rank first)
        | inr later => exact Nat.le_trans (ih other below later) wins.2
      · rename_i loses
        cases result
        cases List.mem_cons.mp member with
        | inl first =>
          subst first
          exact Nat.le_of_not_le fun higher => loses ⟨matched, higher⟩
        | inr later => exact ih found below later

theorem newest_iff (ranked : ∀ one ∈ versions, ∀ two ∈ versions, key one = key two → rank one = rank two → one = two)
    (wanted : K) (version : α) :
    newest key rank wanted versions = some version ↔
      version ∈ versions ∧ key version = wanted ∧ ∀ other ∈ versions, key other = wanted → rank other ≤ rank version := by
  constructor
  · intro found
    exact ⟨newest_mem key rank wanted versions version found, newest_key key rank wanted versions version found,
      rank_le_newest key rank wanted versions version found⟩
  · rintro ⟨member, matched, highest⟩
    obtain ⟨top, found⟩ := Option.ne_none_iff_exists'.mp (newest_some key rank wanted versions version member matched)
    have topMember := newest_mem key rank wanted versions top found
    have topKey := newest_key key rank wanted versions top found
    have below := rank_le_newest key rank wanted versions top found version member matched
    have same := Nat.le_antisymm (highest top topMember topKey) below
    rw [found, ranked top topMember version member (topKey.trans matched.symm) same]

theorem newest_filter_congr (p q : α → Bool) (versions : List α)
    (agree : ∀ version ∈ versions, key version = wanted → p version = q version) :
    newest key rank wanted (versions.filter p) = newest key rank wanted (versions.filter q) := by
  induction versions with
  | nil => rfl
  | cons head tail ih =>
    have rest := ih fun version member => agree version (List.mem_cons_of_mem _ member)
    have skipped (matched : key head ≠ wanted) (versions : List α) :
        newest key rank wanted (head :: versions) = newest key rank wanted versions := by
      rw [newest]
      cases newest key rank wanted versions <;> simp [matched]
    by_cases matched : key head = wanted
    · have same := agree head List.mem_cons_self matched
      cases kept : p head with
      | true => simp only [List.filter_cons, kept, ← same, if_true, newest, rest]
      | false => simpa [List.filter_cons, kept, ← same] using rest
    · by_cases left : p head = true <;> by_cases right : q head = true <;>
        simp [left, right, skipped matched, rest]

-- Where every version of the first source outranks those of the second, a
-- merged search asks the first source first.
theorem newest_append (front back : List α) (outrank : ∀ high ∈ front, ∀ low ∈ back, rank low ≤ rank high) :
    newest key rank wanted (front ++ back) = (newest key rank wanted front).or (newest key rank wanted back) := by
  induction front with
  | nil => rfl
  | cons head tail ih =>
    have rest := ih fun high member => outrank high (List.mem_cons_of_mem _ member)
    rw [List.cons_append, newest, rest, newest]
    cases below : newest key rank wanted tail with
    | some found => by_cases wins : key head = wanted ∧ rank found ≤ rank head <;> simp [wins]
    | none =>
      cases under : newest key rank wanted back with
      | none => by_cases matched : key head = wanted <;> simp [matched]
      | some found =>
        have higher := outrank head (by simp) found (newest_mem key rank wanted back found under)
        by_cases matched : key head = wanted <;> simp [matched, higher]

-- Two sources are merged by rank, and the first wins a tie.
def newer (front back : Option α) : Option α :=
  match front, back with
  | none, found => found
  | some found, none => some found
  | some first, some second => if rank second ≤ rank first then some first else some second

theorem newest_cons (head : α) (versions : List α) (outranks : ∀ low ∈ versions, rank low ≤ rank head) :
    newest key rank wanted (head :: versions) =
      if key head = wanted then some head else newest key rank wanted versions := by
  have merged := newest_append key rank wanted [head] versions (by simpa using outranks)
  rw [List.singleton_append] at merged
  rw [merged]
  by_cases matched : key head = wanted <;> simp [newest, matched]

theorem newest_of_descending (ordered : Descending rank versions) :
    newest key rank wanted versions = versions.find? fun version => decide (key version = wanted) := by
  induction versions with
  | nil => rfl
  | cons head tail ih =>
    obtain ⟨headLast, tailOrdered⟩ := List.pairwise_cons.mp ordered
    by_cases matched : key head = wanted
    · cases found : newest key rank wanted tail with
      | none => simp [newest, found, matched]
      | some other =>
        have older := headLast other (newest_mem key rank wanted tail other found)
        simp [newest, found, matched, older]
    · rw [List.find?_cons_of_neg (by simpa using matched), ← ih tailOrdered]
      cases found : newest key rank wanted tail <;> simp [newest, found, matched]

theorem newest_in_layers (layers : List (List α)) (ordered : ∀ layer ∈ layers, Descending rank layer) :
    layers.findSome? (newest key rank wanted) = layers.flatten.find? fun version => decide (key version = wanted) := by
  induction layers with
  | nil => rfl
  | cons layer below ih =>
    have top := newest_of_descending key rank wanted layer (ordered layer (by simp))
    have rest := ih fun other member => ordered other (List.mem_cons_of_mem _ member)
    rw [List.findSome?_cons, top, rest, List.flatten_cons, List.find?_append]
    cases layer.find? fun version => decide (key version = wanted) <;> rfl

theorem highest_eq_none_iff : highest rank versions = none ↔ versions = [] := by
  simp [highest]

theorem rank_le_highest (top : Nat) (result : highest rank versions = some top) (version : α)
    (member : version ∈ versions) : rank version ≤ top :=
  (List.max?_eq_some_iff.mp result).2 _ (List.mem_map_of_mem member)

theorem highest_attained (top : Nat) (result : highest rank versions = some top) : ∃ version ∈ versions, rank version = top :=
  List.mem_map.mp (List.max?_eq_some_iff.mp result).1

theorem highest_of_bound (version : α) (member : version ∈ versions)
    (bound : ∀ other ∈ versions, rank other ≤ rank version) : highest rank versions = some (rank version) := by
  rw [highest, List.max?_eq_some_iff]
  refine ⟨List.mem_map_of_mem member, ?_⟩
  intro other otherMember
  obtain ⟨source, sourceMember, rfl⟩ := List.mem_map.mp otherMember
  exact bound source sourceMember

end Versions

section Iteration

variable {α K : Type} [LinearOrder K] (key : α → K) (rank : α → Nat)

-- A memtable is iterated by key, and newest first among the versions of one key.
def Before (first second : α) : Prop := key first < key second ∨ key first = key second ∧ rank second ≤ rank first

instance : DecidableRel (Before key rank) := fun first second =>
  inferInstanceAs (Decidable (key first < key second ∨ key first = key second ∧ rank second ≤ rank first))

def iterated (versions : List α) : List α := versions.insertionSort (Before key rank)

-- A pass that leaves out whatever has the key of the version before it.
def firstOfEach (previous : Option K) : List α → List α
  | [] => []
  | head :: tail =>
    if previous = some (key head) then firstOfEach previous tail else head :: firstOfEach (some (key head)) tail

theorem iterated_ordered (versions : List α) : (iterated key rank versions).Pairwise (Before key rank) := by
  have total : Std.Total (Before key rank) := ⟨fun first second => by
    unfold Before
    rcases lt_trichotomy (key first) (key second) with less | same | greater
    · exact .inl (.inl less)
    · rcases Nat.le_total (rank second) (rank first) with older | newer
      · exact .inl (.inr ⟨same, older⟩)
      · exact .inr (.inr ⟨same.symm, newer⟩)
    · exact .inr (.inl greater)⟩
  have trans : IsTrans α (Before key rank) := ⟨fun first second third one two => by
    unfold Before at one two ⊢
    rcases one with less | ⟨same, older⟩
    · exact .inl (two.elim (less.trans ·) fun next => next.1 ▸ less)
    · rcases two with later | ⟨equal, oldest⟩
      · exact .inl (same ▸ later)
      · exact .inr ⟨same.trans equal, Nat.le_trans oldest older⟩⟩
  exact List.pairwise_insertionSort _ _

theorem mem_iterated (versions : List α) (version : α) : version ∈ iterated key rank versions ↔ version ∈ versions :=
  (List.perm_insertionSort _ _).mem_iff

theorem key_le_of_ordered (head : α) (tail : List α) (ordered : (head :: tail).Pairwise (Before key rank)) :
    ∀ version ∈ tail, key head ≤ key version := by
  intro version member
  rcases (List.pairwise_cons.mp ordered).1 version member with less | same
  · exact le_of_lt less
  · exact le_of_eq same.1

theorem first_of_each_above (versions : List α) (previous : K) (ordered : versions.Pairwise (Before key rank))
    (above : ∀ version ∈ versions, previous ≤ key version) :
    ∀ version ∈ firstOfEach key (some previous) versions, previous < key version := by
  induction versions generalizing previous with
  | nil => simp [firstOfEach]
  | cons head tail ih =>
    have tailOrdered := (List.pairwise_cons.mp ordered).2
    have next := key_le_of_ordered key rank head tail ordered
    rw [firstOfEach]
    split
    · exact ih previous tailOrdered fun version member => above version (List.mem_cons_of_mem _ member)
    · rename_i different
      have later : previous < key head :=
        lt_of_le_of_ne (above head List.mem_cons_self) fun same => different (congrArg some same)
      intro version member
      rcases List.mem_cons.mp member with rfl | rest
      · exact later
      · exact later.trans (ih (key head) tailOrdered next version rest)

theorem first_of_each_ascending (versions : List α) (previous : Option K) (ordered : versions.Pairwise (Before key rank)) :
    (firstOfEach key previous versions).Pairwise fun first second => key first < key second := by
  induction versions generalizing previous with
  | nil => exact List.Pairwise.nil
  | cons head tail ih =>
    have tailOrdered := (List.pairwise_cons.mp ordered).2
    have next := key_le_of_ordered key rank head tail ordered
    rw [firstOfEach]
    split
    · exact ih previous tailOrdered
    · exact List.pairwise_cons.mpr ⟨first_of_each_above key rank tail (key head) tailOrdered next, ih _ tailOrdered⟩

theorem mem_first_of_each (versions : List α) (previous : Option K) (ordered : versions.Pairwise (Before key rank))
    (above : ∀ bound, previous = some bound → ∀ version ∈ versions, bound ≤ key version) (version : α) :
    version ∈ firstOfEach key previous versions ↔
      previous ≠ some (key version) ∧ versions.find? (fun other => decide (key other = key version)) = some version := by
  induction versions generalizing previous with
  | nil => simp [firstOfEach]
  | cons head tail ih =>
    have tailOrdered := (List.pairwise_cons.mp ordered).2
    have next : ∀ bound, some (key head) = some bound → ∀ other ∈ tail, bound ≤ key other := by
      rintro bound ⟨⟩
      exact key_le_of_ordered key rank head tail ordered
    rw [firstOfEach]
    by_cases matched : key head = key version
    · rw [List.find?_cons_of_pos (by simpa using matched)]
      split
      · rename_i repeated
        rw [ih previous tailOrdered fun bound found other member => above bound found other (List.mem_cons_of_mem _ member)]
        simp [repeated, matched]
      · rename_i different
        rw [List.mem_cons, ih (some (key head)) tailOrdered next, matched]
        simp [matched ▸ different, eq_comm]
    · rw [List.find?_cons_of_neg (by simpa using matched)]
      split
      · exact ih previous tailOrdered fun bound found other member => above bound found other (List.mem_cons_of_mem _ member)
      · rename_i different
        have apart : version ≠ head := fun same => matched (congrArg key same).symm
        rw [List.mem_cons, or_iff_right apart, ih (some (key head)) tailOrdered next]
        refine ⟨fun found => ⟨?_, found.2⟩, fun found => ⟨fun same => matched (Option.some.inj same), found.2⟩⟩
        intro same
        have low := above (key version) same head List.mem_cons_self
        have high := next (key head) rfl version (List.mem_of_find?_eq_some found.2)
        exact matched (le_antisymm high low)

-- No two versions of one key have the same rank.
def Ranked (versions : List α) : Prop :=
  ∀ one ∈ versions, ∀ two ∈ versions, key one = key two → rank one = rank two → one = two

theorem find_iterated (versions : List α) (ranked : Ranked key rank versions) (wanted : K) :
    (iterated key rank versions).find? (fun version => decide (key version = wanted)) = newest key rank wanted versions := by
  cases found : (iterated key rank versions).find? fun version => decide (key version = wanted) with
  | none =>
    cases result : newest key rank wanted versions with
    | none => rfl
    | some version =>
      have member := (mem_iterated key rank versions version).mpr (newest_mem key rank wanted versions version result)
      have missing := List.find?_eq_none.mp found version member
      exact absurd (newest_key key rank wanted versions version result) (by simpa using missing)
  | some version =>
    have matched : key version = wanted := by simpa using List.find?_some found
    have member := (mem_iterated key rank versions version).mp (List.mem_of_find?_eq_some found)
    obtain ⟨top, result⟩ := Option.ne_none_iff_exists'.mp (newest_some key rank wanted versions version member matched)
    have topMember := newest_mem key rank wanted versions top result
    have topKey := newest_key key rank wanted versions top result
    have below := rank_le_newest key rank wanted versions top result version member matched
    -- The other one of that key comes later in the iteration, so it is no newer.
    have above : rank top ≤ rank version := by
      obtain ⟨_, front, back, split, skipped⟩ := List.find?_eq_some_iff_append.mp found
      have ordered := iterated_ordered key rank versions
      have listed := (mem_iterated key rank versions top).mpr topMember
      rw [split] at ordered listed
      rcases List.mem_append.mp listed with early | late
      · exact absurd topKey (by simpa using skipped top early)
      · rcases List.mem_cons.mp late with rfl | rest
        · exact Nat.le_refl _
        · have order := (List.pairwise_cons.mp (List.pairwise_append.mp ordered).2.1).1 top rest
          rcases order with less | same
          · exact absurd (matched.trans topKey.symm) (ne_of_lt less)
          · exact same.2
    rw [result, ranked version member top topMember (matched.trans topKey.symm) (Nat.le_antisymm below above)]

theorem first_of_each_sublist (versions : List α) (previous : Option K) : (firstOfEach key previous versions).Sublist versions := by
  induction versions generalizing previous with
  | nil => exact List.Sublist.refl _
  | cons head tail ih =>
    rw [firstOfEach]
    split
    · exact (ih previous).cons head
    · exact (ih (some (key head))).cons_cons head

theorem mem_first_iterated (versions : List α) (ranked : Ranked key rank versions) (version : α) :
    version ∈ firstOfEach key none (iterated key rank versions) ↔ newest key rank (key version) versions = some version := by
  rw [mem_first_of_each key rank _ none (iterated_ordered key rank versions) (by simp), find_iterated key rank versions ranked]
  simp

theorem first_iterated_iff (versions : List α) (ranked : Ranked key rank versions) (version : α) :
    version ∈ firstOfEach key none (iterated key rank versions) ↔
      version ∈ versions ∧ ∀ other ∈ versions, key other = key version → rank other ≤ rank version := by
  rw [mem_first_iterated key rank versions ranked, newest_iff key rank versions ranked]
  exact and_congr_right fun _ => and_iff_right rfl

end Iteration

def latest {α β : Type} (f : α → Option β) (l : List α) : Option β := l.reverse.findSome? f

theorem latest_append {α β : Type} (f : α → Option β) (front back : List α) :
    latest f (front ++ back) = (latest f back).or (latest f front) := by
  rw [latest, List.reverse_append, List.findSome?_append]
  rfl

theorem latest_singleton {α β : Type} (f : α → Option β) (a : α) : latest f [a] = f a := by
  simp [latest]

theorem latest_none {α β : Type} (f : α → Option β) (l : List α) (silent : ∀ a ∈ l, f a = none) : latest f l = none := by
  rw [latest, List.findSome?_eq_none_iff]
  intro a member
  exact silent a (List.mem_reverse.mp member)

theorem latest_before_silent {α β : Type} (f : α → Option β) (front back : List α) (a : α) (silent : ∀ b ∈ back, f b = none) :
    latest f (front ++ a :: back) = (f a).or (latest f front) := by
  rw [List.append_cons, latest_append, latest_none f back silent, Option.none_or, latest_append, latest_singleton]

theorem find_overlap {α : Type} (p : α → Bool) (front shared back : List α) :
    ((front ++ shared) ++ (shared ++ back)).find? p = (front ++ (shared ++ back)).find? p := by
  simp only [List.find?_append]
  cases front.find? p <;> cases shared.find? p <;> rfl

theorem cut_above {α : Type} (rank : α → Nat) (above below front back : List α) (same : above ++ below = front ++ back)
    (outranked : ∀ high ∈ above, ∀ low ∈ back, rank low < rank high) :
    ∃ shared, front = above ++ shared ∧ below = shared ++ back := by
  rcases List.append_eq_append_iff.mp same with ⟨shared, rfl, rfl⟩ | ⟨shared, rfl, rfl⟩
  · exact ⟨shared, rfl, rfl⟩
  · have empty : shared = [] := by
      rw [List.eq_nil_iff_forall_not_mem]
      intro element member
      exact Nat.lt_irrefl _
        (outranked element (List.mem_append_right _ member) element (List.mem_append_left _ member))
    subst empty
    exact ⟨[], by simp, by simp⟩

end OmryaKv.Lib
