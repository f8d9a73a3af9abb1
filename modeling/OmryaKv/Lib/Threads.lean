import OmryaKv.Lib.Run
import Mathlib.Logic.Function.Basic

set_option autoImplicit false

namespace OmryaKv.Lib

variable {T S P M : Type}

-- Threads over one shared state, each at a point of its own program.
structure Threads (T S P : Type) where
  shared : S
  phase : T → P

variable [DecidableEq T]

-- act says what one thread may do next from the point it is at; the others stay where they are.
inductive ThreadStep (act : T → S → P → M → S → P → Prop) : Threads T S P → T × M → Threads T S P → Prop where
  | move (threads : Threads T S P) (t : T) (m : M) (next : S) (phase : P)
      (step : act t threads.shared (threads.phase t) m next phase) :
      ThreadStep act threads (t, m) ⟨next, Function.update threads.phase t phase⟩

-- The moving thread establishes what is asked of its new point, and does not disturb the others.
theorem thread_step_all (ok : S → T → P → Prop) (next : S) (phases : T → P) (t : T) (phase : P) (own : ok next t phase)
    (others : ∀ u, u ≠ t → ok next u (phases u)) (u : T) : ok next u (Function.update phases t phase u) := by
  by_cases same : u = t
  · rw [same, Function.update_self]
    exact own
  · rw [Function.update_of_ne same]
    exact others u same

theorem thread_step_moved (kind : P → Prop) (phases : T → P) (t : T) (phase : P) (there : kind phase) :
    ∃ u, kind (Function.update phases t phase u) := by
  refine ⟨t, ?_⟩
  rw [Function.update_self]
  exact there

-- A thread at a point of one kind stays found when another thread moves, or when it moves to such a point itself.
theorem thread_step_some (kind : P → Prop) (phases : T → P) (t : T) (phase : P) (found : ∃ u, kind (phases u))
    (kept : kind (phases t) → kind phase) : ∃ u, kind (Function.update phases t phase u) := by
  obtain ⟨u, there⟩ := found
  by_cases same : u = t
  · rw [same] at there
    exact thread_step_moved kind phases t phase (kept there)
  · exact ⟨u, by rw [Function.update_of_ne same]; exact there⟩

-- One thread at most is at a point of a kind, if a thread only gets there while no other one is.
theorem thread_step_one (kind : P → Prop) (phases : T → P) (t : T) (phase : P)
    (one : ∀ u w, kind (phases u) → kind (phases w) → u = w) (alone : kind phase → ∀ u, u ≠ t → ¬ kind (phases u)) (u w : T)
    (first : kind (Function.update phases t phase u)) (second : kind (Function.update phases t phase w)) : u = w := by
  by_cases firstHere : u = t
  · by_cases secondHere : w = t
    · rw [firstHere, secondHere]
    · rw [firstHere, Function.update_self] at first
      rw [Function.update_of_ne secondHere] at second
      exact absurd second (alone first w secondHere)
  · rw [Function.update_of_ne firstHere] at first
    by_cases secondHere : w = t
    · rw [secondHere, Function.update_self] at second
      exact absurd first (alone second u firstHere)
    · rw [Function.update_of_ne secondHere] at second
      exact one u w first second

end OmryaKv.Lib
