import OmryaKv.Lib.Run
import Mathlib.Data.List.Basic

set_option autoImplicit false

namespace OmryaKv.Lib

variable {S P M : Type}

-- Finitely many threads over one shared state, numbered by their place in the list,
-- each at a point of its own program.
structure Crew (S P : Type) where
  shared : S
  phases : List P

inductive CrewStep (act : Nat → S → P → M → S → P → Prop) : Crew S P → Nat × M → Crew S P → Prop where
  | move (crew : Crew S P) (i : Nat) (m : M) (old : P) (next : S) (phase : P) (here : crew.phases[i]? = some old)
      (step : act i crew.shared old m next phase) : CrewStep act crew (i, m) ⟨next, crew.phases.set i phase⟩

theorem crew_count (kind : P → Bool) (phases : List P) (i : Nat) (old phase : P) (here : phases[i]? = some old) :
    (phases.set i phase).countP kind + (if kind old then 1 else 0) = phases.countP kind + if kind phase then 1 else 0 := by
  obtain ⟨bound, rfl⟩ := List.getElem?_eq_some_iff.mp here
  rw [List.countP_set bound]
  cases there : kind phases[i] with
  | false => rfl
  | true =>
    have counted : 0 < phases.countP kind := List.countP_pos_iff.mpr ⟨_, List.getElem_mem bound, there⟩
    simp only [if_true]
    omega

-- A thread at a point of one kind stays found when another thread moves, or when it moves to such a point itself.
theorem crew_some (kind : P → Prop) (phases : List P) (i : Nat) (old phase : P) (here : phases[i]? = some old)
    (found : ∃ point ∈ phases, kind point) (kept : kind old → kind phase) : ∃ point ∈ phases.set i phase, kind point := by
  obtain ⟨bound, -⟩ := List.getElem?_eq_some_iff.mp here
  obtain ⟨point, member, there⟩ := found
  obtain ⟨j, place⟩ := List.mem_iff_getElem?.mp member
  by_cases same : j = i
  · subst same
    rw [place] at here
    cases here
    exact ⟨phase, List.mem_iff_getElem?.mpr ⟨j, List.getElem?_set_self bound⟩, kept there⟩
  · exact ⟨point, List.mem_iff_getElem?.mpr ⟨j, by rwa [List.getElem?_set_ne (Ne.symm same)]⟩, there⟩

theorem crew_moved (phases : List P) (i : Nat) (old phase : P) (here : phases[i]? = some old) : phase ∈ phases.set i phase := by
  obtain ⟨bound, -⟩ := List.getElem?_eq_some_iff.mp here
  exact List.mem_iff_getElem?.mpr ⟨i, List.getElem?_set_self bound⟩

-- What holds at every point holds after a move if it holds at the new one.
theorem crew_all (ok : Nat → P → Prop) (phases : List P) (i : Nat) (phase : P) (own : ok i phase)
    (others : ∀ j point, j ≠ i → phases[j]? = some point → ok j point) (j : Nat) (point : P)
    (place : (phases.set i phase)[j]? = some point) : ok j point := by
  by_cases same : j = i
  · subst same
    by_cases bound : j < phases.length
    · rw [List.getElem?_set_self bound] at place
      cases place
      exact own
    · rw [List.getElem?_eq_none (by simpa using bound)] at place
      cases place
  · rw [List.getElem?_set_ne (Ne.symm same)] at place
    exact others j point same place

-- Threads that never get to a kind of point are not among those counted there.
theorem crew_count_le (kind : P → Bool) (phases : List P) (few : Nat)
    (never : ∀ i point, i < few → phases[i]? = some point → kind point = false) : phases.countP kind ≤ phases.length - few := by
  have front : (phases.take few).countP kind = 0 := by
    rw [List.countP_eq_zero]
    intro point member
    obtain ⟨i, place⟩ := List.mem_iff_getElem?.mp member
    rw [List.getElem?_take] at place
    split at place
    · simp [never i point (by assumption) place]
    · cases place
  calc phases.countP kind = (phases.take few).countP kind + (phases.drop few).countP kind := by
        rw [← List.countP_append, List.take_append_drop]
    _ ≤ phases.length - few := by
        rw [front, Nat.zero_add, ← List.length_drop]
        exact List.countP_le_length

end OmryaKv.Lib
