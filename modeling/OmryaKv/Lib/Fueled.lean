import Mathlib.Logic.Basic

set_option autoImplicit false

namespace OmryaKv.Lib

-- A computation on a state that may fail, run with fuel: no outcome at all means
-- that the fuel ran out.
abbrev Fueled (σ ε α : Type) := StateT σ (ExceptT ε Option) α

variable {σ ε α β : Type}

namespace Fueled

def outOfFuel : Fueled σ ε α := fun _ => ExceptT.mk none

def outcome (m : Fueled σ ε α) (s : σ) : Option (Except ε (α × σ)) := m s

theorem outcome_pure (a : α) (s : σ) : outcome (pure a : Fueled σ ε α) s = some (.ok (a, s)) := rfl

theorem outcome_throw (e : ε) (s : σ) : outcome (throw e : Fueled σ ε α) s = some (.error e) := rfl

theorem outcome_bind (m : Fueled σ ε α) (f : α → Fueled σ ε β) (s : σ) :
    outcome (m >>= f) s = match outcome m s with
      | none => none
      | some (.error e) => some (.error e)
      | some (.ok (a, next)) => outcome (f a) next := by
  change (ExceptT.bind (m s) fun pair => f pair.1 pair.2) = _
  unfold ExceptT.bind ExceptT.mk outcome
  change Option.bind (m s) _ = _
  cases result : (m s : Option (Except ε (α × σ))) with
  | none => rfl
  | some inner => cases inner <;> rfl

-- The fuel lasts, and every success meets the postcondition.
def Settles (m : Fueled σ ε α) (s : σ) (post : α → σ → Prop) : Prop :=
  ∃ result, outcome m s = some result ∧ ∀ a next, result = .ok (a, next) → post a next

theorem settles_pure (a : α) (s : σ) (post : α → σ → Prop) (holds : post a s) : Settles (pure a : Fueled σ ε α) s post := by
  refine ⟨_, outcome_pure a s, ?_⟩
  intro other next same
  cases same
  exact holds

theorem settles_throw (e : ε) (s : σ) (post : α → σ → Prop) : Settles (throw e : Fueled σ ε α) s post :=
  ⟨_, outcome_throw e s, nofun⟩

theorem settles_bind (m : Fueled σ ε α) (f : α → Fueled σ ε β) (s : σ) (mid : α → σ → Prop) (post : β → σ → Prop)
    (first : Settles m s mid) (second : ∀ a next, mid a next → Settles (f a) next post) : Settles (m >>= f) s post := by
  obtain ⟨result, finished, holds⟩ := first
  cases result with
  | error e => exact ⟨.error e, by rw [outcome_bind, finished], nofun⟩
  | ok pair =>
    obtain ⟨last, lastFinished, lastHolds⟩ := second pair.1 pair.2 (holds pair.1 pair.2 rfl)
    exact ⟨last, by rw [outcome_bind, finished]; exact lastFinished, lastHolds⟩

-- Whatever the fuel, every success meets the postcondition.
def Yields (m : Fueled σ ε α) (s : σ) (post : α → σ → Prop) : Prop :=
  ∀ a next, outcome m s = some (.ok (a, next)) → post a next

theorem yields_out_of_fuel (s : σ) (post : α → σ → Prop) : Yields (outOfFuel : Fueled σ ε α) s post :=
  fun _ _ returned => nomatch returned

theorem yields_pure (a : α) (s : σ) (post : α → σ → Prop) (holds : post a s) : Yields (pure a : Fueled σ ε α) s post := by
  intro other next returned
  cases returned
  exact holds

theorem yields_throw (e : ε) (s : σ) (post : α → σ → Prop) : Yields (throw e : Fueled σ ε α) s post :=
  fun _ _ returned => nomatch returned

theorem yields_bind (m : Fueled σ ε α) (f : α → Fueled σ ε β) (s : σ) (mid : α → σ → Prop) (post : β → σ → Prop)
    (first : Yields m s mid) (second : ∀ a next, mid a next → Yields (f a) next post) : Yields (m >>= f) s post := by
  intro b last returned
  rw [outcome_bind] at returned
  split at returned
  · cases returned
  · cases returned
  · rename_i a next finished
    exact second a next (first a next finished) b last returned

theorem yields_of_settles (m : Fueled σ ε α) (s : σ) (post : α → σ → Prop) (settles : Settles m s post) :
    Yields m s post := by
  obtain ⟨result, finished, holds⟩ := settles
  intro a next returned
  rw [finished] at returned
  exact holds a next (Option.some.inj returned)

theorem outcome_bind_ok (m : Fueled σ ε α) (f : α → Fueled σ ε β) (s : σ) (a : α) (next : σ)
    (finished : outcome m s = some (.ok (a, next))) : outcome (m >>= f) s = outcome (f a) next := by
  rw [outcome_bind, finished]

end Fueled

end OmryaKv.Lib
