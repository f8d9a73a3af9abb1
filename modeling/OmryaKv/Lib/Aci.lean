import Mathlib.Logic.Basic

set_option autoImplicit false

namespace OmryaKv.Lib

variable {α : Type}

def joined (op : α → α → α) : α → List α → α
  | first, [] => first
  | first, second :: rest => op first (joined op second rest)

-- Associative, commutative and idempotent up to a relation that the operation respects.
structure Aci (same : α → α → Prop) (op : α → α → α) : Prop where
  equivalence : Equivalence same
  respects : ∀ a b c d, same a b → same c d → same (op a c) (op b d)
  assoc : ∀ a b c, same (op (op a b) c) (op a (op b c))
  comm : ∀ a b, same (op a b) (op b a)
  idem : ∀ a, same (op a a) a

namespace Aci

variable {same : α → α → Prop} {op : α → α → α} (laws : Aci same op)

include laws

theorem under (a b c : α) (equal : same b c) : same (op a b) (op a c) :=
  laws.respects a a b c (laws.equivalence.refl a) equal

theorem joined_append (first second : α) (front back : List α) :
    same (joined op first (front ++ second :: back)) (op (joined op first front) (joined op second back)) := by
  induction front generalizing first with
  | nil => exact laws.equivalence.refl _
  | cons next front ih =>
    exact laws.equivalence.trans (laws.under first _ _ (ih next)) (laws.equivalence.symm (laws.assoc _ _ _))

theorem joined_absorbs (first : α) (rest : List α) (a : α) (member : a ∈ first :: rest) :
    same (op (joined op first rest) a) (joined op first rest) := by
  have flipped := laws.comm (joined op first rest) a
  refine laws.equivalence.trans flipped ?_
  clear flipped
  induction rest generalizing first with
  | nil =>
    rw [List.mem_singleton.mp member]
    exact laws.idem first
  | cons second rest ih =>
    rcases List.mem_cons.mp member with rfl | later
    · exact laws.equivalence.trans (laws.equivalence.symm (laws.assoc _ _ _))
        (laws.respects _ _ _ _ (laws.idem a) (laws.equivalence.refl _))
    · have inner := laws.under first _ _ (ih second later)
      have swapped : same (op a (op first (joined op second rest))) (op first (op a (joined op second rest))) :=
        laws.equivalence.trans (laws.equivalence.symm (laws.assoc _ _ _))
          (laws.equivalence.trans (laws.respects _ _ _ _ (laws.comm a first) (laws.equivalence.refl _)) (laws.assoc _ _ _))
      exact laws.equivalence.trans swapped inner

theorem joined_covers (first second : α) (front back : List α) (inside : ∀ a ∈ second :: back, a ∈ first :: front) :
    same (op (joined op first front) (joined op second back)) (joined op first front) := by
  induction back generalizing second with
  | nil => exact laws.joined_absorbs first front second (inside second List.mem_cons_self)
  | cons third back ih =>
    have absorbed := laws.joined_absorbs first front second (inside second List.mem_cons_self)
    have later := ih third fun a member => inside a (List.mem_cons_of_mem _ member)
    exact laws.equivalence.trans (laws.equivalence.symm (laws.assoc _ _ _))
      (laws.equivalence.trans (laws.respects _ _ _ _ absorbed (laws.equivalence.refl _)) later)

-- What a join comes to depends only on which elements are in it.
theorem joined_same_members (first second : α) (front back : List α) (equal : ∀ a, a ∈ first :: front ↔ a ∈ second :: back) :
    same (joined op first front) (joined op second back) := by
  have left := laws.joined_covers first second front back fun a member => (equal a).mpr member
  have right := laws.joined_covers second first back front fun a member => (equal a).mp member
  exact laws.equivalence.trans (laws.equivalence.symm left) (laws.equivalence.trans (laws.comm _ _) right)

end Aci

end OmryaKv.Lib
