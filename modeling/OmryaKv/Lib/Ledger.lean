import OmryaKv.Lib.Run

set_option autoImplicit false

namespace OmryaKv.Lib

variable {State Label : Type}

-- The books of a system: drift says how far they are off, no step ever brings
-- them back, and the allowed steps are those that leave them as they were.
structure Ledger (step : State → Label → State → Prop) (allowed : State → Label → Prop) (drift : State → Nat → Prop) : Prop where
  unique : ∀ state one two, drift state one → drift state two → one = two
  stepped : ∀ state label next amount, drift state amount → step state label next →
    ∃ more, drift next (amount + more) ∧ (more = 0 ↔ allowed state label)

variable {step : State → Label → State → Prop} {allowed : State → Label → Prop} {drift : State → Nat → Prop}

theorem ledger_guarded (ledger : Ledger step allowed drift) {state last : State} {labels : List Label} (amount : Nat)
    (run : Run (Guarded step allowed) state labels last) (start : drift state amount) : drift last amount := by
  refine run_invariant _ (fun state => drift state amount) ?_ run start
  rintro state label next here ⟨permitted, taken⟩
  obtain ⟨more, there, exact⟩ := ledger.stepped state label next amount here taken
  rwa [exact.mpr permitted] at there

-- Induction on the run: what is lost in the first step and what is lost later
-- add up, so nothing is lost over the whole run only if neither part lost any.
theorem ledger_run (ledger : Ledger step allowed drift) {state last : State} {labels : List Label} (amount : Nat)
    (run : Run step state labels last) (start : drift state amount) :
    ∃ more, drift last (amount + more) ∧ (more = 0 ↔ Run (Guarded step allowed) state labels last) := by
  induction run generalizing amount with
  | nil state => exact ⟨0, start, iff_of_true rfl (.nil state)⟩
  | cons label labels first rest ih =>
    obtain ⟨lost, there, exact⟩ := ledger.stepped _ label _ amount start first
    obtain ⟨later, ended, laterExact⟩ := ih (amount + lost) there
    refine ⟨lost + later, by rwa [← Nat.add_assoc], ?_⟩
    constructor
    · intro nothing
      exact .cons label labels ⟨exact.mp (by omega), first⟩ (laterExact.mp (by omega))
    · intro guarded
      have same := ledger.unique _ _ _ (ledger_guarded ledger amount guarded start) ended
      omega

theorem ledger_balanced_iff (ledger : Ledger step allowed drift) {state last : State} {labels : List Label}
    (run : Run step state labels last) (start : drift state 0) :
    drift last 0 ↔ Run (Guarded step allowed) state labels last := by
  obtain ⟨more, ended, exact⟩ := ledger_run ledger 0 run start
  rw [Nat.zero_add] at ended
  rw [← exact]
  constructor
  · intro balanced
    exact ledger.unique _ _ _ ended balanced
  · rintro rfl
    exact ended

end OmryaKv.Lib
