import OmryaKv.Secure.Canonical

set_option autoImplicit false

namespace OmryaKv.Secure

open Lib

-- A parse tree means what it says: '&' joins what stands between two '|'.
def Tree.evaluate (auths : Authorizations) : {category : Category} → Tree category → Bool
  | _, .expr inner => inner.evaluate auths
  | _, .or head tail => head.evaluate auths || tail.evaluate auths
  | _, .orEnd => false
  | _, .orNext head tail => head.evaluate auths || tail.evaluate auths
  | _, .and head tail => head.evaluate auths && tail.evaluate auths
  | _, .andEnd => true
  | _, .andNext head tail => head.evaluate auths && tail.evaluate auths
  | _, .label name _ _ => decide (name ∈ auths.labels)
  | _, .group inner => inner.evaluate auths

def evaluateTree (auths : Authorizations) : Option (Tree .expr) → Bool
  | none => true
  | some tree => tree.evaluate auths

variable (auths : Authorizations)

def Operator.apply : Operator → Bool → Bool → Bool
  | .and, left, right => left && right
  | .or, left, right => left || right

def Operator.combine (operator : Operator) {α : Type} (value : α → Bool) (children : List α) : Bool :=
  match operator with
  | .and => children.all value
  | .or => children.any value

section Combine

variable {α : Type} (value : α → Bool) (operator : Operator)

theorem combine_singleton (only : α) : operator.combine value [only] = value only := by
  cases operator with
  | and => exact Bool.and_true _
  | or => exact Bool.or_false _

theorem combine_cons (first : α) (rest : List α) :
    operator.combine value (first :: rest) = operator.apply (value first) (operator.combine value rest) := by
  cases operator <;> rfl

theorem combine_append (left right : List α) :
    operator.combine value (left ++ right) = operator.apply (operator.combine value left) (operator.combine value right) := by
  cases operator with
  | and => exact List.all_append
  | or => exact List.any_append

theorem combine_same_members (left right : List α) (same : ∀ a, a ∈ left ↔ a ∈ right) :
    operator.combine value left = operator.combine value right := by
  cases operator with
  | and =>
    rw [Operator.combine, Operator.combine, Bool.eq_iff_iff, List.all_eq_true, List.all_eq_true]
    simp only [same]
  | or =>
    rw [Operator.combine, Operator.combine, Bool.eq_iff_iff, List.any_eq_true, List.any_eq_true]
    simp only [same]

end Combine

variable (operator : Operator)

namespace Expr

theorem all_evaluate_eq (children : List Expr) : allEvaluate auths children = children.all (evaluate auths) := by
  induction children with
  | nil => rfl
  | cons child children ih => rw [allEvaluate, ih, List.all_cons]

theorem any_evaluate_eq (children : List Expr) : anyEvaluate auths children = children.any (evaluate auths) := by
  induction children with
  | nil => rfl
  | cons child children ih => rw [anyEvaluate, ih, List.any_cons]

theorem build_evaluate (children : List Expr) :
    (operator.build children).evaluate auths = operator.combine (evaluate auths) children := by
  cases operator with
  | and => exact all_evaluate_eq auths children
  | or => exact any_evaluate_eq auths children

theorem collapse_evaluate (children : List Expr) (some : children ≠ []) :
    (collapse operator children).evaluate auths = operator.combine (evaluate auths) children := by
  match children, some with
  | [only], _ => exact (combine_singleton _ operator only).symm
  | first :: second :: rest, _ => exact build_evaluate auths operator _

theorem join_evaluate (left right : Expr) (leftNormal : left.Normal) (rightNormal : right.Normal) :
    (joinChildren operator [left, right]).evaluate auths = operator.apply (left.evaluate auths) (right.evaluate auths) := by
  have each : ∀ child ∈ [left, right], child.Normal :=
    List.forall_mem_cons.mpr ⟨leftNormal, List.forall_mem_singleton.mpr rightNormal⟩
  have parts (expr : Expr) (normal : expr.Normal) :
      operator.combine (evaluate auths) (expr.parts operator) = expr.evaluate auths := by
    obtain ⟨_, _, some, whole⟩ := normal_parts operator expr normal
    rw [← collapse_evaluate auths operator _ some, whole]
  obtain ⟨normal, joinParts⟩ := join_normal operator [left, right] (List.cons_ne_nil _ _) each
  have members := mem_arranged_normal _ fun part member => (normal_flat operator [left, right] each part member).1
  rw [← parts _ normal, joinParts, combine_same_members _ operator _ _ members, List.flatMap_cons, List.flatMap_singleton,
    combine_append, parts left leftNormal, parts right rightNormal]

end Expr

namespace Formula

def evaluate : Formula → Bool
  | .label name => auths.contains name
  | .group inner => inner.evaluate
  | .node operator left right => operator.apply left.evaluate right.evaluate

theorem normalized_evaluate (f : Formula) (valid : f.Valid) : f.normalized.evaluate auths = f.evaluate auths := by
  induction f with
  | label name => rfl
  | group inner ih => exact ih valid
  | node operator left right ihLeft ihRight =>
    rw [normalized, Expr.join_evaluate auths operator _ _ (left.normalized_normal valid.1) (right.normalized_normal valid.2),
      ihLeft valid.1, ihRight valid.2, evaluate]

theorem joined_evaluate (first : Formula) (rest : List Formula) : (joined (node operator) first rest).evaluate auths =
      operator.apply (first.evaluate auths) (operator.combine (evaluate auths) rest) := by
  induction rest generalizing first with
  | nil => rw [← combine_cons, combine_singleton, joined]
  | cons second rest ih => rw [joined, evaluate, ih, combine_cons]

end Formula

def Means : (category : Category) → Result Formula category → Bool → Prop
  | .orMore => fun (formulas : List Formula) value => Operator.or.combine (Formula.evaluate auths) formulas = value
  | .andMore => fun (formulas : List Formula) value => Operator.and.combine (Formula.evaluate auths) formulas = value
  | .expr | .or | .and | .primary => fun (formula : Formula) value => formula.evaluate auths = value

theorem tree_means {category : Category} (tree : Tree category) : Means auths category tree.formula (tree.evaluate auths) := by
  induction tree with
  | expr inner ih => exact ih
  | or head tail ihHead ihTail =>
    exact (Formula.joined_evaluate auths .or _ _).trans (congrArg₂ _ ihHead ihTail)
  | orEnd => rfl
  | orNext head tail ihHead ihTail => exact (combine_cons _ .or _ _).trans (congrArg₂ _ ihHead ihTail)
  | and head tail ihHead ihTail =>
    exact (Formula.joined_evaluate auths .and _ _).trans (congrArg₂ _ ihHead ihTail)
  | andEnd => rfl
  | andNext head tail ihHead ihTail => exact (combine_cons _ .and _ _).trans (congrArg₂ _ ihHead ihTail)
  | label name nonempty all => rfl
  | group inner ih => exact ih

theorem normalization_preserves_meaning (input : Text) (visibility : VisibilityExpr)
    (parsed : VisibilityExpr.parse input = .ok visibility) :
    (∃ tree, HasTree input tree) ∧
      ∀ tree, HasTree input tree → visibility.evaluate auths = evaluateTree auths tree := by
  refine ⟨accepted_has_tree input visibility parsed, ?_⟩
  intro tree has
  cases tree with
  | none =>
    have empty : input = [] := has
    subst empty
    rw [parsed_public visibility parsed]
    rfl
  | some tree =>
    have text : tree.text = input := has
    subst text
    obtain ⟨same, valid⟩ := parsed_expr tree visibility parsed
    rw [VisibilityExpr.evaluate, same, Formula.normalized_evaluate auths _ valid]
    exact tree_means auths tree

def letterTree (ch : Char) (one : isLabelChar ch = true) : Tree .primary :=
  .label [ch] (List.cons_ne_nil _ _) (List.forall_mem_singleton.mpr ((is_label_char_iff ch).mp one))

def precedenceTree : Tree .expr :=
  .expr (.or (.and (letterTree 'a' rfl) .andEnd)
    (.orNext (.and (letterTree 'b' rfl) (.andNext (letterTree 'c' rfl) .andEnd)) .orEnd))

theorem or_of_and_evaluated :
    ∃ visibility, VisibilityExpr.parse ['a', '|', 'b', '&', 'c'] = .ok visibility ∧
      visibility.evaluate ⟨[['a']], List.forall_mem_singleton.mpr rfl⟩ = true ∧
      visibility.evaluate ⟨[['b']], List.forall_mem_singleton.mpr rfl⟩ = false := by
  have parsed := parse_tree precedenceTree
  refine ⟨_, parsed, ?_, ?_⟩
  · exact (normalization_preserves_meaning _ _ _ parsed).2 (some precedenceTree) rfl
  · exact (normalization_preserves_meaning _ _ _ parsed).2 (some precedenceTree) rfl

end OmryaKv.Secure
