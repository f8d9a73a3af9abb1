import Mathlib.Logic.Basic

set_option autoImplicit false

namespace OmryaKv.Lib

variable {ε σ τ α β : Type}

def finalState : EStateM.Result ε σ α → σ
  | .ok _ s => s
  | .error _ s => s

def answer : EStateM.Result ε σ α → Except ε α
  | .ok a _ => .ok a
  | .error e _ => .error e

theorem answer_ok (outcome : EStateM.Result ε σ α) (a : α) (returned : answer outcome = .ok a) : ∃ last, outcome = .ok a last := by
  cases outcome with
  | ok b last =>
    cases returned
    exact ⟨last, rfl⟩
  | error e last => cases returned

theorem bind_ok (m : EStateM ε σ α) (f : α → EStateM ε σ β) (s last : σ) (b : β) (completed : (m >>= f).run s = .ok b last) :
    ∃ a next, m.run s = .ok a next ∧ (f a).run next = .ok b last := by
  rw [EStateM.run_bind] at completed
  cases first : m.run s with
  | error e next =>
    rw [first] at completed
    cases completed
  | ok a next =>
    rw [first] at completed
    exact ⟨a, next, rfl, completed⟩

theorem bind_error (m : EStateM ε σ α) (f : α → EStateM ε σ β) (s last : σ) (e : ε) (failed : (m >>= f).run s = .error e last) :
    m.run s = .error e last ∨ ∃ a next, m.run s = .ok a next ∧ (f a).run next = .error e last := by
  rw [EStateM.run_bind] at failed
  cases first : m.run s with
  | error other next =>
    rw [first] at failed
    cases failed
    exact .inl rfl
  | ok a next =>
    rw [first] at failed
    exact .inr ⟨a, next, rfl, failed⟩

-- However it ends, the computation moves the state along the relation.
def Respects (related : σ → σ → Prop) (m : EStateM ε σ α) : Prop := ∀ s, related s (finalState (m.run s))

theorem respects_ok (related : σ → σ → Prop) (m : EStateM ε σ α) (respects : Respects related m) (s next : σ) (a : α)
    (completed : m.run s = .ok a next) : related s next := by
  have moved := respects s
  rwa [completed] at moved

theorem respects_error (related : σ → σ → Prop) (m : EStateM ε σ α) (respects : Respects related m) (s next : σ) (e : ε)
    (failed : m.run s = .error e next) : related s next := by
  have moved := respects s
  rwa [failed] at moved

theorem respects_bind (related : σ → σ → Prop) (trans : ∀ a b c, related a b → related b c → related a c)
    (m : EStateM ε σ α) (f : α → EStateM ε σ β) (first : Respects related m) (second : ∀ a, Respects related (f a)) :
    Respects related (m >>= f) := by
  intro s
  have moved := first s
  rw [EStateM.run_bind]
  cases outcome : m.run s with
  | error e next =>
    rw [outcome] at moved
    exact moved
  | ok a next =>
    rw [outcome] at moved
    exact trans _ _ _ moved (second a next)

-- Two computations in step with each other: started in related states they give
-- the same answer and end in related states.
def Coupled (related : σ → τ → Prop) (m : EStateM ε σ α) (n : EStateM ε τ α) : Prop :=
  ∀ s t, related s t → answer (m.run s) = answer (n.run t) ∧ related (finalState (m.run s)) (finalState (n.run t))

variable (related : σ → τ → Prop)

theorem coupled_pure (a : α) : Coupled related (pure a : EStateM ε σ α) (pure a) :=
  fun _ _ start => ⟨rfl, start⟩

theorem coupled_throw (e : ε) : Coupled related (throw e : EStateM ε σ α) (throw e) :=
  fun _ _ start => ⟨rfl, start⟩

theorem coupled_outcomes (m : EStateM ε σ α) (n : EStateM ε τ α) (coupled : Coupled related m n) (s : σ) (t : τ)
    (start : related s t) :
    (∃ e s' t', m.run s = .error e s' ∧ n.run t = .error e t' ∧ related s' t') ∨
      ∃ a s' t', m.run s = .ok a s' ∧ n.run t = .ok a t' ∧ related s' t' := by
  obtain ⟨same, next⟩ := coupled s t start
  cases left : m.run s with
  | error e s' =>
    cases right : n.run t with
    | error e' t' =>
      rw [left, right] at same next
      cases same
      exact .inl ⟨e, s', t', rfl, rfl, next⟩
    | ok b t' =>
      rw [left, right] at same
      cases same
  | ok a s' =>
    cases right : n.run t with
    | error e' t' =>
      rw [left, right] at same
      cases same
    | ok b t' =>
      rw [left, right] at same next
      cases same
      exact .inr ⟨a, s', t', rfl, rfl, next⟩

theorem coupled_bind (m : EStateM ε σ α) (n : EStateM ε τ α) (f : α → EStateM ε σ β) (g : α → EStateM ε τ β)
    (first : Coupled related m n) (second : ∀ a, Coupled related (f a) (g a)) :
    Coupled related (m >>= f) (n >>= g) := by
  intro s t start
  rw [EStateM.run_bind, EStateM.run_bind]
  rcases coupled_outcomes related m n first s t start with ⟨e, s', t', left, right, next⟩ | ⟨a, s', t', left, right, next⟩
  · rw [left, right]
    exact ⟨rfl, next⟩
  · rw [left, right]
    exact second a s' t' next

-- The end of a computation may leave the states apart, as long as the answers are
-- the same.
def SameAnswer (related : σ → τ → Prop) (m : EStateM ε σ α) (n : EStateM ε τ α) : Prop :=
  ∀ s t, related s t → answer (m.run s) = answer (n.run t)

theorem same_answer_bind (m : EStateM ε σ α) (n : EStateM ε τ α) (f : α → EStateM ε σ β) (g : α → EStateM ε τ β)
    (first : Coupled related m n) (second : ∀ a, SameAnswer related (f a) (g a)) :
    SameAnswer related (m >>= f) (n >>= g) := by
  intro s t start
  rw [EStateM.run_bind, EStateM.run_bind]
  rcases coupled_outcomes related m n first s t start with ⟨e, s', t', left, right, _⟩ | ⟨a, s', t', left, right, next⟩
  · rw [left, right]
    rfl
  · rw [left, right]
    exact second a s' t' next

theorem answer_map (m : EStateM ε σ α) (f : α → β) (s : σ) :
    answer ((m >>= fun a => pure (f a)).run s) = (answer (m.run s)).map f := by
  rw [EStateM.run_bind]
  cases m.run s <;> rfl

theorem same_answer_map (m : EStateM ε σ α) (n : EStateM ε τ α) (f : α → β) (same : SameAnswer related m n) :
    SameAnswer related (m >>= fun a => pure (f a)) (n >>= fun a => pure (f a)) := by
  intro s t start
  rw [answer_map, answer_map, same s t start]

-- Two computations that move the state alike, whatever they answer.
def SameMove (m : EStateM ε σ α) (n : EStateM ε σ β) : Prop := ∀ s, finalState (m.run s) = finalState (n.run s)

theorem same_move_bind {γ : Type} (m : EStateM ε σ α) (f : α → EStateM ε σ β) (g : α → EStateM ε σ γ)
    (second : ∀ a, SameMove (f a) (g a)) : SameMove (m >>= f) (m >>= g) := by
  intro s
  rw [EStateM.run_bind, EStateM.run_bind]
  cases m.run s with
  | error e next => rfl
  | ok a next => exact second a next

theorem same_move_of_still (m : EStateM ε σ α) (n : EStateM ε σ β) (first : Respects Eq m) (second : Respects Eq n) :
    SameMove m n :=
  fun s => (first s).symm.trans (second s)

theorem same_move_map (m n : EStateM ε σ α) (f : α → β) (same : SameMove m n) :
    SameMove (m >>= fun a => pure (f a)) (n >>= fun a => pure (f a)) := by
  intro s
  have moved : ∀ k : EStateM ε σ α, finalState ((k >>= fun a => pure (f a)).run s) = finalState (k.run s) := by
    intro k
    rw [EStateM.run_bind]
    cases k.run s <;> rfl
  rw [moved, moved, same s]

end OmryaKv.Lib
