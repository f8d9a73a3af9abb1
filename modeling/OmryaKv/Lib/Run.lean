import Mathlib.Logic.Basic

set_option autoImplicit false

namespace OmryaKv.Lib

variable {State Label : Type}

-- A run records the labels of its steps in the order they were taken.
inductive Run (step : State → Label → State → Prop) : State → List Label → State → Prop where
  | nil (state : State) : Run step state [] state
  | cons {state next last : State} (label : Label) (labels : List Label)
      (first : step state label next) (rest : Run step next labels last) : Run step state (label :: labels) last

-- The steps of a run that all meet a condition on the state they start from.
def Guarded (step : State → Label → State → Prop) (allowed : State → Label → Prop)
    (state : State) (label : Label) (next : State) : Prop :=
  allowed state label ∧ step state label next

theorem run_of_guarded {step : State → Label → State → Prop} {allowed : State → Label → Prop} {state last : State}
    {labels : List Label} (run : Run (Guarded step allowed) state labels last) : Run step state labels last := by
  induction run with
  | nil state => exact .nil state
  | cons label labels first _ ih => exact .cons label labels first.2 ih

theorem run_append {step : State → Label → State → Prop} {state middle last : State} {front back : List Label}
    (first : Run step state front middle) (rest : Run step middle back last) : Run step state (front ++ back) last := by
  induction first with
  | nil state => exact rest
  | cons label labels taken _ ih => exact .cons label _ taken (ih rest)

theorem run_split {step : State → Label → State → Prop} {state last : State} (front back : List Label)
    (run : Run step state (front ++ back) last) : ∃ middle, Run step state front middle ∧ Run step middle back last := by
  induction front generalizing state with
  | nil => exact ⟨state, .nil state, run⟩
  | cons label front ih =>
    cases run with
    | cons _ _ first rest =>
      obtain ⟨middle, before, after⟩ := ih rest
      exact ⟨middle, .cons label front first before, after⟩

theorem run_invariant (step : State → Label → State → Prop) (inv : State → Prop)
    (preserved : ∀ state label next, inv state → step state label next → inv next)
    {state last : State} {labels : List Label} (run : Run step state labels last) (initial : inv state) : inv last := by
  induction run with
  | nil => exact initial
  | cons label labels first _ ih => exact ih (preserved _ label _ initial first)

theorem run_invariant_while (step : State → Label → State → Prop) (allowed : Label → Prop) (inv : State → Prop)
    (preserved : ∀ state label next, allowed label → inv state → step state label next → inv next)
    {state last : State} {labels : List Label} (run : Run step state labels last) (kept : ∀ label ∈ labels, allowed label)
    (initial : inv state) : inv last := by
  induction run with
  | nil => exact initial
  | cons label labels first _ ih =>
    obtain ⟨now, later⟩ := List.forall_mem_cons.mp kept
    exact ih later (preserved _ label _ now initial first)

theorem run_history (step : State → Label → State → Prop) (inv : List Label → State → Prop)
    (preserved : ∀ past state label next, inv past state → step state label next → inv (past ++ [label]) next)
    {state last : State} {labels : List Label} (run : Run step state labels last) (past : List Label)
    (initial : inv past state) : inv (past ++ labels) last := by
  induction run generalizing past with
  | nil => rwa [List.append_nil]
  | cons label labels first _ ih =>
    have later := ih (past ++ [label]) (preserved past _ label _ initial first)
    rwa [List.append_assoc] at later

theorem run_related (step : State → Label → State → Prop) (inv : State → Prop) (related : State → State → Prop)
    (preserved : ∀ state label next, inv state → step state label next → inv next)
    (refl : ∀ state, related state state) (trans : ∀ a b c, related a b → related b c → related a c)
    (stepped : ∀ state label next, inv state → step state label next → related state next)
    {state last : State} {labels : List Label} (run : Run step state labels last) (initial : inv state) :
    related state last := by
  induction run with
  | nil state => exact refl state
  | cons label labels first _ ih =>
    exact trans _ _ _ (stepped _ label _ initial first) (ih (preserved _ label _ initial first))

theorem fold_ok_invariant {α β ε : Type} (f : β → α → Except ε β) (inv : β → Prop) (l : List α)
    (preserved : ∀ acc, ∀ a ∈ l, ∀ next, inv acc → f acc a = .ok next → inv next) (init last : β)
    (completed : l.foldlM f init = .ok last) (initial : inv init) : inv last := by
  induction l generalizing init with
  | nil =>
    cases completed
    exact initial
  | cons a rest ih =>
    rw [List.foldlM_cons] at completed
    cases first : f init a with
    | error e =>
      rw [first] at completed
      cases completed
    | ok middle =>
      rw [first] at completed
      exact ih (fun acc b member => preserved acc b (List.mem_cons_of_mem _ member)) middle completed
        (preserved init a (by simp) middle initial first)

theorem except_bind_ok {α β ε : Type} (x : Except ε α) (f : α → Except ε β) (b : β) (completed : (x >>= f) = .ok b) :
    ∃ a, x = .ok a ∧ f a = .ok b := by
  cases x with
  | error e => cases completed
  | ok a => exact ⟨a, rfl, completed⟩

theorem except_bind_error {α β ε : Type} (x : Except ε α) (f : α → Except ε β) (e : ε) (failed : (x >>= f) = .error e) :
    x = .error e ∨ ∃ a, x = .ok a ∧ f a = .error e := by
  cases x with
  | error other =>
    cases failed
    exact .inl rfl
  | ok a => exact .inr ⟨a, rfl, failed⟩

end OmryaKv.Lib
