import OmryaKv.Lib.Fueled
import OmryaKv.Secure.Composite
import Mathlib.Data.List.Sort

set_option autoImplicit false

namespace OmryaKv.Secure

open Lib

abbrev Text := List Char

def isLabelChar (ch : Char) : Bool := ch.isAlphanum || ch == '_' || ch == '-' || ch == '.' || ch == ':'

def isValidLabel (label : Text) : Bool := !label.isEmpty && label.all isLabelChar

-- The only way into the set is insert, which refuses a label that is not valid.
structure Authorizations where
  labels : List Text
  valid : ∀ label ∈ labels, isValidLabel label = true

namespace Authorizations

def empty : Authorizations := ⟨[], by simp⟩

def insert (auths : Authorizations) (label : Text) : Except Error Authorizations :=
  if valid : isValidLabel label = true then
    .ok ⟨label :: auths.labels, by
      intro other member
      rcases List.mem_cons.mp member with rfl | earlier
      · exact valid
      · exact auths.valid other earlier⟩
  else .error (.invalidVisibilityExpression "authorization label must be a valid identifier")

def fromLabels (labels : List Text) : Except Error Authorizations := labels.foldlM insert empty

def contains (auths : Authorizations) (label : Text) : Bool := decide (label ∈ auths.labels)

end Authorizations

inductive Expr where
  | publicExpr
  | label (name : Text)
  | and (children : List Expr)
  | or (children : List Expr)

inductive Operator where
  | and
  | or
deriving DecidableEq

namespace Expr

mutual
def evaluate (auths : Authorizations) : Expr → Bool
  | .publicExpr => true
  | .label name => auths.contains name
  | .and children => allEvaluate auths children
  | .or children => anyEvaluate auths children
def allEvaluate (auths : Authorizations) : List Expr → Bool
  | [] => true
  | child :: children => child.evaluate auths && allEvaluate auths children
def anyEvaluate (auths : Authorizations) : List Expr → Bool
  | [] => false
  | child :: children => child.evaluate auths || anyEvaluate auths children
end

def precedence : Expr → Nat
  | .publicExpr => 3
  | .label _ => 3
  | .and _ => 2
  | .or _ => 1

def wrap (expr : Expr) (parentPrecedence : Nat) (text : Text) : Text :=
  if expr.precedence < parentPrecedence then ['('] ++ text ++ [')'] else text

-- What write_canonical pushes. The first child of a list stands without a separator.
mutual
def writeCanonical (parentPrecedence : Nat) : Expr → Text
  | .publicExpr => wrap .publicExpr parentPrecedence []
  | .label name => wrap (.label name) parentPrecedence name
  | .and children =>
    wrap (.and children) parentPrecedence (writeJoined '&' (precedence (.and children)) children)
  | .or children =>
    wrap (.or children) parentPrecedence (writeJoined '|' (precedence (.or children)) children)
def writeJoined (separator : Char) (precedence : Nat) : List Expr → Text
  | [] => []
  | child :: children => child.writeCanonical precedence ++ writeMore separator precedence children
def writeMore (separator : Char) (precedence : Nat) : List Expr → Text
  | [] => []
  | child :: children => separator :: child.writeCanonical precedence ++ writeMore separator precedence children
end

def canonical (expr : Expr) : Text := expr.writeCanonical 0

end Expr

def Operator.build : Operator → List Expr → Expr
  | .and, children => .and children
  | .or, children => .or children

-- The loop of normalize_children over children that are normalized already. No
-- result stands for its early return of Public.
def collectPairs : Operator → List Expr → Option (List (Text × Expr))
  | _, [] => some []
  | .and, .and grandchildren :: children => do
      let pairs ← collectPairs .and children
      return grandchildren.map (fun child => (child.canonical, child)) ++ pairs
  | .or, .or grandchildren :: children => do
      let pairs ← collectPairs .or children
      return grandchildren.map (fun child => (child.canonical, child)) ++ pairs
  | .and, .publicExpr :: children => collectPairs .and children
  | .or, .publicExpr :: _ => none
  | operator, child :: children => do
      let pairs ← collectPairs operator children
      return (child.canonical, child) :: pairs

def sortPairs (pairs : List (Text × Expr)) : List (Text × Expr) :=
  pairs.insertionSort fun left right => (compare left.1 right.1).isLE = true

def dedupFrom (kept : Text × Expr) : List (Text × Expr) → List (Text × Expr)
  | [] => [kept]
  | next :: pairs => if kept.1 = next.1 then dedupFrom kept pairs else kept :: dedupFrom next pairs

def dedupPairs : List (Text × Expr) → List (Text × Expr)
  | [] => []
  | first :: pairs => dedupFrom first pairs

def joinChildren (operator : Operator) (children : List Expr) : Expr :=
  match collectPairs operator children with
  | none => .publicExpr
  | some pairs =>
    match (dedupPairs (sortPairs pairs)).map Prod.snd with
    | [] => .publicExpr
    | [first] => first
    | all => operator.build all

namespace Expr

mutual
def normalized : Expr → Expr
  | .publicExpr => .publicExpr
  | .label name => .label name
  | .and children => joinChildren .and (allNormalized children)
  | .or children => joinChildren .or (allNormalized children)
def allNormalized : List Expr → List Expr
  | [] => []
  | child :: children => child.normalized :: allNormalized children
end

end Expr

abbrev Parser (α : Type) := Fueled Text Error α

namespace Parser

def consume (expected : Char) : Parser Bool
  | [] => pure (false, [])
  | next :: rest => if next = expected then pure (true, rest) else pure (false, next :: rest)

def parseLabel : Parser Text := fun chars => pure (chars.takeWhile isLabelChar, chars.dropWhile isLabelChar)

-- The while loops are the functions that return the children after the first.
mutual
def parseOrExpr : Nat → Parser Expr
  | 0 => Fueled.outOfFuel
  | fuel + 1 => do
      let first ← parseAndExpr fuel
      let children ← parseOrChildren fuel
      return if children.isEmpty then first else .or (first :: children)
def parseOrChildren : Nat → Parser (List Expr)
  | 0 => Fueled.outOfFuel
  | fuel + 1 => do
      if ← consume '|' then
        let child ← parseAndExpr fuel
        let children ← parseOrChildren fuel
        return child :: children
      else return []
def parseAndExpr : Nat → Parser Expr
  | 0 => Fueled.outOfFuel
  | fuel + 1 => do
      let first ← parsePrimary fuel
      let children ← parseAndChildren fuel
      return if children.isEmpty then first else .and (first :: children)
def parseAndChildren : Nat → Parser (List Expr)
  | 0 => Fueled.outOfFuel
  | fuel + 1 => do
      if ← consume '&' then
        let child ← parsePrimary fuel
        let children ← parseAndChildren fuel
        return child :: children
      else return []
def parsePrimary : Nat → Parser Expr
  | 0 => Fueled.outOfFuel
  | fuel + 1 => do
      if ← consume '(' then
        let expr ← parseOrExpr fuel
        if ← consume ')' then return expr
        else throw (.invalidVisibilityExpression "expected closing parenthesis")
      else
        let label ← parseLabel
        if label.isEmpty then throw (.invalidVisibilityExpression "expected label or parenthesized expression")
        else return .label label
end

end Parser

structure VisibilityExpr where
  expr : Expr
  canonical : Text
  written : canonical = expr.canonical

namespace VisibilityExpr

def publicVisibility : VisibilityExpr := ⟨.publicExpr, [], rfl⟩

def ofExpr (expr : Expr) : VisibilityExpr := ⟨expr.normalized, expr.normalized.canonical, rfl⟩

def enoughFuel (input : Text) : Nat := 3 * input.length + 3

-- The fuel lasts for every input, so the last case is never taken.
def parse (input : Text) : Except Error VisibilityExpr :=
  if input.isEmpty then .ok publicVisibility
  else
    match Fueled.outcome (Parser.parseOrExpr (enoughFuel input)) input with
    | some (.ok (expr, rest)) =>
      if rest.isEmpty then .ok (ofExpr expr)
      else .error (.invalidVisibilityExpression "unexpected trailing visibility token")
    | some (.error e) => .error e
    | none => .error .io

def evaluate (visibility : VisibilityExpr) (auths : Authorizations) : Bool := visibility.expr.evaluate auths

def asBytes (visibility : VisibilityExpr) : Bytes := visibility.canonical.flatMap String.utf8EncodeChar

end VisibilityExpr

def fromUtf8 (bytes : Bytes) : Option Text := bytes.toByteArray.utf8Decode?.map Array.toList

def parseVisibility (bytes : Bytes) : Except Error VisibilityExpr :=
  match fromUtf8 bytes with
  | none => .error (.invalidVisibilityExpression "visibility expression must be valid UTF-8")
  | some expr => VisibilityExpr.parse expr

def isVisible (bytes : Bytes) (auths : Authorizations) : Except Error Bool := do
  let visibility ← parseVisibility bytes
  return visibility.evaluate auths

namespace Parser

theorem consume_settles (expected : Char) (chars : Text) :
    Fueled.Settles (consume expected) chars fun consumed rest =>
      if consumed = true then chars = expected :: rest else rest = chars := by
  cases chars with
  | nil => exact Fueled.settles_pure false [] _ rfl
  | cons next rest =>
    by_cases same : next = expected
    · refine ⟨.ok (true, rest), by rw [Fueled.outcome, consume, if_pos same]; rfl, ?_⟩
      intro consumed left returned
      cases returned
      rw [if_pos rfl, same]
    · refine ⟨.ok (false, next :: rest), by rw [Fueled.outcome, consume, if_neg same]; rfl, ?_⟩
      intro consumed left returned
      cases returned
      rfl

theorem parse_label_settles (chars : Text) :
    Fueled.Settles parseLabel chars fun label rest => chars = label ++ rest := by
  refine ⟨_, rfl, ?_⟩
  intro label rest returned
  cases returned
  exact List.takeWhile_append_dropWhile.symm

def Shrinks {α : Type} (chars : Text) (_ : α) (rest : Text) : Prop := rest.length < chars.length

def Keeps {α : Type} (chars : Text) (_ : α) (rest : Text) : Prop := rest.length ≤ chars.length

theorem primary_settles (fuel : Nat)
    (nested : ∀ chars : Text, 3 * chars.length + 3 ≤ fuel → Fueled.Settles (parseOrExpr fuel) chars (Shrinks chars))
    (chars : Text) (enough : 3 * chars.length ≤ fuel) : Fueled.Settles (parsePrimary (fuel + 1)) chars (Shrinks chars) := by
  rw [parsePrimary]
  apply Fueled.settles_bind _ _ _ _ _ (consume_settles '(' chars)
  intro opened rest eaten
  cases opened with
  | true =>
    rw [if_pos rfl] at eaten ⊢
    subst eaten
    rw [List.length_cons] at enough
    apply Fueled.settles_bind _ _ _ _ _ (nested rest (by omega))
    intro expr inner shorter
    apply Fueled.settles_bind _ _ _ _ _ (consume_settles ')' inner)
    intro closed last eaten
    cases closed with
    | true =>
      rw [if_pos rfl] at eaten ⊢
      apply Fueled.settles_pure
      rw [eaten] at shorter
      simp only [Shrinks, List.length_cons] at shorter ⊢
      omega
    | false => exact Fueled.settles_throw _ _ _
  | false =>
    have same : rest = chars := eaten
    subst same
    apply Fueled.settles_bind _ _ _ _ _ (parse_label_settles rest)
    intro label last split
    cases label with
    | nil => exact Fueled.settles_throw _ _ _
    | cons first label =>
      apply Fueled.settles_pure
      rw [Shrinks, split, List.length_append, List.length_cons]
      omega

-- A list of children: the separator before each takes a character, and so does the child.
theorem children_settle (separator : Char) (child : Nat → Parser Expr) (children : Nat → Parser (List Expr))
    (unfolds : ∀ fuel, children (fuel + 1) = do
      if ← consume separator then
        let first ← child fuel
        let rest ← children fuel
        return first :: rest
      else return [])
    (fuel : Nat)
    (each : ∀ fuel' ≤ fuel, ∀ chars : Text, 3 * chars.length + 2 ≤ fuel' → Fueled.Settles (child fuel') chars (Shrinks chars))
    (chars : Text) (enough : 3 * chars.length + 1 ≤ fuel) : Fueled.Settles (children fuel) chars (Keeps chars) := by
  induction fuel generalizing chars with
  | zero => omega
  | succ fuel ih =>
    rw [unfolds]
    apply Fueled.settles_bind _ _ _ _ _ (consume_settles separator chars)
    intro found rest eaten
    cases found with
    | false =>
      have same : rest = chars := eaten
      exact Fueled.settles_pure _ _ _ (Nat.le_of_eq (congrArg List.length same))
    | true =>
      rw [if_pos rfl] at eaten ⊢
      subst eaten
      rw [List.length_cons] at enough
      apply Fueled.settles_bind _ _ _ _ _ (each fuel (Nat.le_succ fuel) rest (by omega))
      intro first middle shorter
      have less : middle.length < rest.length := shorter
      apply Fueled.settles_bind _ _ _ _ _
        (ih (fun fuel' le => each fuel' (Nat.le_succ_of_le le)) middle (by omega))
      intro more last kept
      have fewer : last.length ≤ middle.length := kept
      apply Fueled.settles_pure
      rw [Keeps, List.length_cons]
      omega

theorem joined_settles (separator : Char) (child : Nat → Parser Expr) (children : Nat → Parser (List Expr))
    (join : Expr → List Expr → Expr)
    (unfolds : ∀ fuel, children (fuel + 1) = do
      if ← consume separator then
        let first ← child fuel
        let rest ← children fuel
        return first :: rest
      else return [])
    (fuel slack : Nat) (few : slack ≤ 2)
    (each : ∀ fuel' ≤ fuel, ∀ chars : Text, 3 * chars.length + slack ≤ fuel' →
      Fueled.Settles (child fuel') chars (Shrinks chars))
    (chars : Text) (enough : 3 * chars.length + slack ≤ fuel) :
    Fueled.Settles (do
      let first ← child fuel
      let rest ← children fuel
      return join first rest) chars (Shrinks chars) := by
  apply Fueled.settles_bind _ _ _ _ _ (each fuel (Nat.le_refl fuel) chars enough)
  intro first middle shorter
  have less : middle.length < chars.length := shorter
  have later := children_settle separator child children unfolds fuel
    (fun fuel' le other more => each fuel' le other (by omega)) middle (by omega)
  apply Fueled.settles_bind _ _ _ _ _ later
  intro rest last kept
  exact Fueled.settles_pure _ _ _ (Nat.lt_of_le_of_lt kept less)

theorem parse_or_settles (fuel : Nat) (chars : Text) (enough : 3 * chars.length + 3 ≤ fuel) :
    Fueled.Settles (parseOrExpr fuel) chars (Shrinks chars) := by
  induction fuel using Nat.strong_induction_on generalizing chars with
  | _ fuel ih =>
    have primary : ∀ fuel' < fuel, ∀ chars : Text, 3 * chars.length + 1 ≤ fuel' →
        Fueled.Settles (parsePrimary fuel') chars (Shrinks chars) := by
      intro fuel' less chars enough
      cases fuel' with
      | zero => omega
      | succ fuel' => exact primary_settles fuel' (ih fuel' (by omega)) chars (by omega)
    have conjunction : ∀ fuel' < fuel, ∀ chars : Text, 3 * chars.length + 2 ≤ fuel' →
        Fueled.Settles (parseAndExpr fuel') chars (Shrinks chars) := by
      intro fuel' less chars enough
      cases fuel' with
      | zero => omega
      | succ fuel' =>
        exact joined_settles '&' parsePrimary parseAndChildren
          (fun first children => if children.isEmpty then first else .and (first :: children)) (fun _ => rfl) fuel' 1
          (by decide) (fun other le => primary other (by omega)) chars (by omega)
    cases fuel with
    | zero => omega
    | succ fuel =>
      exact joined_settles '|' parseAndExpr parseOrChildren
        (fun first children => if children.isEmpty then first else .or (first :: children)) (fun _ => rfl) fuel 2
        (by decide) (fun other le => conjunction other (by omega)) chars (by omega)

end Parser

theorem parse_fuel_lasts (input : Text) :
    ∃ result, Fueled.outcome (Parser.parseOrExpr (VisibilityExpr.enoughFuel input)) input = some result := by
  obtain ⟨result, finished, _⟩ := Parser.parse_or_settles (VisibilityExpr.enoughFuel input) input (Nat.le_refl _)
  exact ⟨result, finished⟩

end OmryaKv.Secure
