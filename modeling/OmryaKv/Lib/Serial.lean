import Mathlib.Data.List.Basic
import Mathlib.Logic.Function.Basic

set_option autoImplicit false

namespace OmryaKv.Lib

section Serial

-- An action is an operation together with the answer it gave. Holds says that
-- the answer is the one a view gives, apply what the operation makes of the view.
variable {Place Value Action : Type} (Holds : Action → (Place → Value) → Prop)
  (apply : Action → (Place → Value) → Place → Value)

abbrev after (view : Place → Value) (history : List Action) : Place → Value :=
  history.foldl (fun current action => apply action current) view

abbrev afterAll (view : Place → Value) (histories : List (List Action)) : Place → Value :=
  histories.foldl (after apply) view

-- Run alone from this view, the operations of the history give the answers on record.
def Replays (view : Place → Value) : List Action → Prop
  | [] => True
  | action :: rest => Holds action view ∧ Replays (apply action view) rest

def Serial (view : Place → Value) : List (List Action) → Prop
  | [] => True
  | history :: rest => Replays Holds apply view history ∧ Serial (after apply view history) rest

def Frames (written : Place → Prop) (history : List Action) : Prop :=
  ∀ view place, ¬ written place → after apply view history place = view place

theorem replays_append (view : Place → Value) (front back : List Action) :
    Replays Holds apply view (front ++ back) ↔
      Replays Holds apply view front ∧ Replays Holds apply (after apply view front) back := by
  induction front generalizing view with
  | nil => simp [Replays]
  | cons action rest ih => simp [Replays, ih, and_assoc]

theorem replays_snoc (view : Place → Value) (history : List Action) (action : Action) :
    Replays Holds apply view (history ++ [action]) ↔
      Replays Holds apply view history ∧ Holds action (after apply view history) := by
  simp [replays_append, Replays]

theorem serial_snoc (view : Place → Value) (histories : List (List Action)) (history : List Action) :
    Serial Holds apply view (histories ++ [history]) ↔
      Serial Holds apply view histories ∧ Replays Holds apply (afterAll apply view histories) history := by
  induction histories generalizing view with
  | nil => simp [Serial]
  | cons head rest ih => simp [Serial, ih, and_assoc]

theorem frames_snoc (written written' : Place → Prop) (history : List Action) (action : Action)
    (framed : Frames apply written history) (grown : ∀ place, written place → written' place)
    (untouched : ∀ view place, ¬ written' place → apply action view place = view place) :
    Frames apply written' (history ++ [action]) := by
  intro view place outside
  have kept := framed view place (fun inside => outside (grown place inside))
  rw [after, List.foldl_append, List.foldl_cons, List.foldl_nil, untouched _ place outside]
  exact kept

theorem after_all_unwritten (histories : List (List Action)) (place : Place)
    (unwritten : ∀ history ∈ histories, ∃ written : Place → Prop, Frames apply written history ∧ ¬ written place)
    (view : Place → Value) : afterAll apply view histories place = view place := by
  induction histories generalizing view with
  | nil => rfl
  | cons history rest ih =>
    obtain ⟨written, framed, outside⟩ := unwritten history (by simp)
    rw [afterAll, List.foldl_cons]
    have later := ih (fun other member => unwritten other (List.mem_cons_of_mem _ member)) (after apply view history)
    exact later.trans (framed view place outside)

end Serial

def updateAll {Place Value : Type} [DecidableEq Place] (view : Place → Value) (items : List (Place × Value)) :
    Place → Value :=
  items.foldl (fun current item => Function.update current item.1 item.2) view

-- Point updates that all carry the target's values reach the target, once they
-- cover every place where it differs.
theorem update_all_eq {Place Value : Type} [DecidableEq Place] (items : List (Place × Value)) (base target : Place → Value)
    (values : ∀ item ∈ items, item.2 = target item.1)
    (rest : ∀ place, place ∈ items.map Prod.fst ∨ base place = target place) :
    updateAll base items = target := by
  induction items generalizing base with
  | nil =>
    funext place
    exact (rest place).resolve_left (by simp)
  | cons item later ih =>
    rw [updateAll, List.foldl_cons]
    apply ih _ fun other member => values other (List.mem_cons_of_mem _ member)
    intro place
    by_cases same : place = item.1
    · subst same
      exact .inr (by simpa using values item (by simp))
    · rcases rest place with covered | equal
      · exact .inl (by simpa [same] using covered)
      · exact .inr (by simpa [same] using equal)

end OmryaKv.Lib
