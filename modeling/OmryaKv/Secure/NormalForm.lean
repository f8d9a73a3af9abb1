import OmryaKv.Secure.Grammar

set_option autoImplicit false

namespace OmryaKv.Secure

open Lib

namespace Expr

-- What normalize_children puts into its list for a child that is not public.
def parts : Operator → Expr → List Expr
  | .and, .and children => children
  | .or, .or children => children
  | _, expr => [expr]

def collapse (operator : Operator) : List Expr → Expr
  | [] => .publicExpr
  | [only] => only
  | children => operator.build children

def Before (left right : Expr) : Prop := compare left.canonical right.canonical = .lt

-- The normal forms of expressions that are not public: no node below one of the
-- same kind, and the children in order of their texts, none of them twice.
inductive Normal : Expr → Prop where
  | label (name : Text) (valid : isValidLabel name = true) : Normal (.label name)
  | node (operator : Operator) (children : List Expr) (several : 2 ≤ children.length)
      (each : ∀ child ∈ children, Normal child) (flat : ∀ child ∈ children, ∀ inner, child ≠ operator.build inner)
      (sorted : children.Pairwise Before) : Normal (operator.build children)

end Expr

def canonicalPair (expr : Expr) : Text × Expr := (expr.canonical, expr)

def arranged (children : List Expr) : List Expr := (dedupPairs (sortPairs (children.map canonicalPair))).map Prod.snd

variable (operator : Operator) (children : List Expr)

section Sorting

theorem mem_dedup_from (kept : Text × Expr) (pairs : List (Text × Expr)) :
    ∀ pair ∈ dedupFrom kept pairs, pair ∈ kept :: pairs := by
  induction pairs generalizing kept with
  | nil => exact fun pair member => member
  | cons next pairs ih =>
    intro pair member
    rw [dedupFrom] at member
    split at member
    · rcases List.mem_cons.mp (ih kept pair member) with rfl | later
      · exact List.mem_cons_self
      · exact List.mem_cons_of_mem _ (List.mem_cons_of_mem _ later)
    · rcases List.mem_cons.mp member with rfl | later
      · exact List.mem_cons_self
      · exact List.mem_cons_of_mem _ (ih next pair later)

theorem dedup_from_keys (kept : Text × Expr) (pairs : List (Text × Expr)) :
    ∀ pair ∈ kept :: pairs, ∃ found ∈ dedupFrom kept pairs, found.1 = pair.1 := by
  induction pairs generalizing kept with
  | nil => exact fun pair member => ⟨kept, List.mem_cons_self, by rw [List.mem_singleton.mp member]⟩
  | cons next pairs ih =>
    intro pair member
    rw [dedupFrom]
    split
    · rename_i twice
      rcases List.mem_cons.mp member with rfl | later
      · exact ih pair pair List.mem_cons_self
      · rcases List.mem_cons.mp later with rfl | rest
        · obtain ⟨found, kept, key⟩ := ih kept kept List.mem_cons_self
          exact ⟨found, kept, key.trans twice⟩
        · exact ih kept pair (List.mem_cons_of_mem _ rest)
    · rcases List.mem_cons.mp member with rfl | later
      · exact ⟨pair, List.mem_cons_self, rfl⟩
      · obtain ⟨found, kept, key⟩ := ih next pair later
        exact ⟨found, List.mem_cons_of_mem _ kept, key⟩

theorem dedup_from_sorted (kept : Text × Expr) (pairs : List (Text × Expr))
    (sorted : (kept :: pairs).Pairwise fun left right => (compare left.1 right.1).isLE = true) :
    (dedupFrom kept pairs).Pairwise fun left right => compare left.1 right.1 = .lt := by
  induction pairs generalizing kept with
  | nil => exact List.pairwise_singleton _ _
  | cons next pairs ih =>
    obtain ⟨below, rest⟩ := List.pairwise_cons.mp sorted
    rw [dedupFrom]
    split
    · exact ih kept (List.pairwise_cons.mpr
        ⟨fun pair member => below pair (List.mem_cons_of_mem _ member), (List.pairwise_cons.mp rest).2⟩)
    · rename_i different
      refine List.pairwise_cons.mpr ⟨?_, ih next rest⟩
      intro pair member
      have less : compare kept.1 next.1 = .lt := by
        have atMost := below next List.mem_cons_self
        cases order : compare kept.1 next.1 with
        | lt => rfl
        | eq => exact absurd (Std.LawfulEqCmp.eq_of_compare order) different
        | gt => rw [order] at atMost; cases atMost
      rcases List.mem_cons.mp (mem_dedup_from next pairs pair member) with rfl | later
      · exact less
      · exact Std.TransCmp.lt_of_lt_of_isLE less ((List.pairwise_cons.mp rest).1 pair later)

theorem sort_pairs_sorted (pairs : List (Text × Expr)) :
    (sortPairs pairs).Pairwise fun left right => (compare left.1 right.1).isLE = true := by
  have total : Std.Total fun left right : Text × Expr => (compare left.1 right.1).isLE = true := by
    refine ⟨fun left right => ?_⟩
    rw [@Std.OrientedCmp.eq_swap Text compare _ right.1 left.1]
    cases compare left.1 right.1 <;> simp
  have trans : IsTrans (Text × Expr) fun left right => (compare left.1 right.1).isLE = true :=
    ⟨fun _ _ _ one two => Std.TransCmp.isLE_trans one two⟩
  exact List.pairwise_insertionSort _ pairs

theorem before_ext (left right : List Expr) (leftSorted : left.Pairwise Expr.Before) (rightSorted : right.Pairwise Expr.Before)
    (same : ∀ expr, expr ∈ left ↔ expr ∈ right) : left = right := by
  have distinct : ∀ children : List Expr, children.Pairwise Expr.Before → children.Nodup := by
    intro children sorted
    refine sorted.imp ?_
    rintro a b less rfl
    have equal : compare a.canonical a.canonical = .eq := Std.ReflCmp.compare_self
    rw [Expr.Before, equal] at less
    cases less
  have perm : left.Perm right :=
    (List.perm_ext_iff_of_nodup (distinct left leftSorted) (distinct right rightSorted)).mpr same
  refine perm.eq_of_pairwise ?_ leftSorted rightSorted
  intro a b _ _ less more
  rw [Expr.Before, Std.OrientedCmp.gt_of_lt less] at more
  cases more

theorem arranged_sorted : (arranged children).Pairwise Expr.Before := by
  have pairs : ∀ pair ∈ dedupPairs (sortPairs (children.map canonicalPair)), pair.1 = pair.2.canonical := by
    intro pair member
    have stored : pair ∈ sortPairs (children.map canonicalPair) := by
      cases sorted : sortPairs (children.map canonicalPair) with
      | nil =>
        rw [sorted] at member
        cases member
      | cons first rest =>
        rw [sorted] at member
        exact mem_dedup_from first rest pair member
    obtain ⟨child, _, rfl⟩ := List.mem_map.mp ((List.mem_insertionSort _).mp stored)
    rfl
  have strict : (dedupPairs (sortPairs (children.map canonicalPair))).Pairwise fun left right => compare left.1 right.1 = .lt := by
    have sorted := sort_pairs_sorted (children.map canonicalPair)
    cases same : sortPairs (children.map canonicalPair) with
    | nil => exact List.Pairwise.nil
    | cons first rest => exact dedup_from_sorted first rest (same ▸ sorted)
  refine List.pairwise_map.mpr (strict.imp_of_mem ?_)
  intro left right leftMember rightMember less
  rw [Expr.Before, ← pairs left leftMember, ← pairs right rightMember]
  exact less

-- Two children that are written alike are one child, so none gets lost.
theorem mem_arranged (written : ∀ one ∈ children, ∀ two ∈ children, one.canonical = two.canonical → one = two) (expr : Expr) :
    expr ∈ arranged children ↔ expr ∈ children := by
  have stored : ∀ pair, pair ∈ sortPairs (children.map canonicalPair) ↔ ∃ child ∈ children, canonicalPair child = pair := by
    intro pair
    rw [sortPairs, List.mem_insertionSort, List.mem_map]
  rw [arranged, List.mem_map]
  cases sorted : sortPairs (children.map canonicalPair) with
  | nil =>
    rw [sorted] at stored
    constructor
    · rintro ⟨pair, member, _⟩
      cases member
    · intro member
      exact absurd ((stored _).mpr ⟨expr, member, rfl⟩) List.not_mem_nil
  | cons first rest =>
    rw [sorted] at stored
    constructor
    · rintro ⟨pair, member, rfl⟩
      obtain ⟨child, listed, rfl⟩ := (stored pair).mp (mem_dedup_from first rest pair member)
      exact listed
    · intro member
      obtain ⟨found, kept, key⟩ := dedup_from_keys first rest _ ((stored _).mpr ⟨expr, member, rfl⟩)
      obtain ⟨child, listed, rfl⟩ := (stored found).mp (mem_dedup_from first rest found kept)
      exact ⟨canonicalPair child, kept, written child listed expr member key⟩

end Sorting

variable (expr : Expr)

namespace Expr

theorem parts_other (other : ∀ inner, expr ≠ operator.build inner) : expr.parts operator = [expr] := by
  cases operator with
  | and =>
    cases expr with
    | and children => exact absurd rfl (other children)
    | publicExpr | label name | or children => rfl
  | or =>
    cases expr with
    | or children => exact absurd rfl (other children)
    | publicExpr | label name | and children => rfl

theorem parts_build : (operator.build children).parts operator = children := by
  cases operator <;> rfl

theorem normal_parts (normal : expr.Normal) :
    (∀ part ∈ expr.parts operator, part.Normal ∧ ∀ inner, part ≠ operator.build inner) ∧
      (expr.parts operator).Pairwise Before ∧ expr.parts operator ≠ [] ∧ collapse operator (expr.parts operator) = expr := by
  have alone (other : ∀ inner, expr ≠ operator.build inner) :
      (∀ part ∈ expr.parts operator, part.Normal ∧ ∀ inner, part ≠ operator.build inner) ∧
        (expr.parts operator).Pairwise Before ∧ expr.parts operator ≠ [] ∧ collapse operator (expr.parts operator) = expr := by
    rw [parts_other operator expr other]
    refine ⟨?_, List.pairwise_singleton _ _, List.cons_ne_nil _ _, rfl⟩
    intro part member
    rw [List.mem_singleton.mp member]
    exact ⟨normal, other⟩
  cases normal with
  | label name valid => exact alone (by cases operator <;> exact fun inner => nofun)
  | node nodeOperator children several each flat sorted =>
    by_cases same : operator = nodeOperator
    · subst same
      rw [parts_build]
      refine ⟨fun part member => ⟨each part member, flat part member⟩, sorted, ?_, ?_⟩
      · rintro rfl
        cases several
      · match children, several with
        | first :: second :: rest, _ => rfl
    · refine alone ?_
      cases operator <;> cases nodeOperator
      all_goals first | exact absurd rfl same | exact fun inner => nofun

-- The canonical text of a normal form, with parentheses where the precedence asks for
-- them, is a phrase that the parser turns back into the form as it is.
structure ReadBack (expr : Expr) : Prop where
  or : ∃ tree : Tree .or, tree.text = expr.writeCanonical 0 ∧ tree.built = expr
  and : (∀ inner, expr ≠ .or inner) → ∃ tree : Tree .and, tree.text = expr.writeCanonical 1 ∧ tree.built = expr
  primary : (∀ inner, expr ≠ .and inner) → ∃ tree : Tree .primary, tree.text = expr.writeCanonical 2 ∧ tree.built = expr

theorem label_char_of_valid (name : Text) (valid : isValidLabel name = true) : name ≠ [] ∧ ∀ ch ∈ name, LabelChar ch := by
  rw [isValidLabel, Bool.and_eq_true, List.all_eq_true] at valid
  refine ⟨?_, fun ch member => (is_label_char_iff ch).mp (valid.2 ch member)⟩
  rintro rfl
  exact Bool.noConfusion valid.1

theorem primaries_read_back
    (each : ∀ child ∈ children, ∃ tree : Tree .primary, tree.text = child.writeCanonical 2 ∧ tree.built = child) :
    ∃ tree : Tree .andMore, tree.text = writeMore '&' 2 children ∧ tree.built = children := by
  induction children with
  | nil => exact ⟨.andEnd, rfl, rfl⟩
  | cons child children ih =>
    obtain ⟨head, headText, headBuilt⟩ := each child List.mem_cons_self
    obtain ⟨tail, tailText, tailBuilt⟩ := ih fun other member => each other (List.mem_cons_of_mem _ member)
    refine ⟨.andNext head tail, ?_, ?_⟩
    · rw [Tree.text, headText, tailText, writeMore, List.cons_append]
    · rw [Tree.built, headBuilt, tailBuilt]

theorem conjunctions_read_back
    (each : ∀ child ∈ children, ∃ tree : Tree .and, tree.text = child.writeCanonical 1 ∧ tree.built = child) :
    ∃ tree : Tree .orMore, tree.text = writeMore '|' 1 children ∧ tree.built = children := by
  induction children with
  | nil => exact ⟨.orEnd, rfl, rfl⟩
  | cons child children ih =>
    obtain ⟨head, headText, headBuilt⟩ := each child List.mem_cons_self
    obtain ⟨tail, tailText, tailBuilt⟩ := ih fun other member => each other (List.mem_cons_of_mem _ member)
    refine ⟨.orNext head tail, ?_, ?_⟩
    · rw [Tree.text, headText, tailText, writeMore, List.cons_append]
    · rw [Tree.built, headBuilt, tailBuilt]

theorem and_read_back (several : 2 ≤ children.length)
    (each : ∀ child ∈ children, ∃ tree : Tree .primary, tree.text = child.writeCanonical 2 ∧ tree.built = child) :
    ∃ tree : Tree .and, tree.text = writeJoined '&' 2 children ∧ tree.built = .and children := by
  match children, several with
  | first :: second :: rest, _ =>
    obtain ⟨head, headText, headBuilt⟩ := each first List.mem_cons_self
    obtain ⟨tail, tailText, tailBuilt⟩ :=
      primaries_read_back (second :: rest) fun other member => each other (List.mem_cons_of_mem _ member)
    refine ⟨.and head tail, ?_, ?_⟩
    · rw [Tree.text, headText, tailText, writeJoined]
    · rw [Tree.built, headBuilt, tailBuilt]
      rfl

theorem or_read_back (several : 2 ≤ children.length)
    (each : ∀ child ∈ children, ∃ tree : Tree .and, tree.text = child.writeCanonical 1 ∧ tree.built = child) :
    ∃ tree : Tree .or, tree.text = writeJoined '|' 1 children ∧ tree.built = .or children := by
  match children, several with
  | first :: second :: rest, _ =>
    obtain ⟨head, headText, headBuilt⟩ := each first List.mem_cons_self
    obtain ⟨tail, tailText, tailBuilt⟩ :=
      conjunctions_read_back (second :: rest) fun other member => each other (List.mem_cons_of_mem _ member)
    refine ⟨.or head tail, ?_, ?_⟩
    · rw [Tree.text, headText, tailText, writeJoined]
    · rw [Tree.built, headBuilt, tailBuilt]
      rfl

theorem normal_read_back (normal : expr.Normal) : ReadBack expr := by
  induction normal with
  | label name valid =>
    obtain ⟨nonempty, all⟩ := label_char_of_valid name valid
    exact {
      or := ⟨.or (.and (.label name nonempty all) .andEnd) .orEnd, by simp [Tree.text, writeCanonical, wrap, precedence], rfl⟩
      and := fun _ => ⟨.and (.label name nonempty all) .andEnd, by simp [Tree.text, writeCanonical, wrap, precedence], rfl⟩
      primary := fun _ => ⟨.label name nonempty all, by simp [Tree.text, writeCanonical, wrap, precedence], rfl⟩ }
  | node operator children several each flat sorted ih =>
    cases operator with
    | and =>
      obtain ⟨tree, text, built⟩ := and_read_back children several fun child member =>
        (ih child member).primary (flat child member)
      exact {
        or := ⟨.or tree .orEnd, by rw [Tree.text, text, Tree.text, List.append_nil]; rfl, built⟩
        and := fun _ => ⟨tree, text, built⟩
        primary := fun other => absurd rfl (other children) }
    | or =>
      obtain ⟨tree, text, built⟩ := or_read_back children several fun child member =>
        (ih child member).and (flat child member)
      exact {
        or := ⟨tree, text, built⟩
        and := fun other => absurd rfl (other children)
        primary := fun _ => ⟨.group (.expr tree), by rw [Tree.text, Tree.text, text]; rfl, built⟩ }

end Expr

theorem Tree.built_of_text (one two : Tree .or) (same : one.text = two.text) : one.built = two.built := by
  have oneRead := Parser.tree_read_back one (3 * one.text.length + 3) [] (Nat.le_refl _) fun ch member => nomatch member
  have twoRead := Parser.tree_read_back two (3 * two.text.length + 3) [] (Nat.le_refl _) fun ch member => nomatch member
  rw [← same, oneRead] at twoRead
  exact congrArg Prod.fst (Except.ok.inj (Option.some.inj twoRead))

namespace Expr

theorem canonical_injective (one two : Expr) (oneNormal : one.Normal) (twoNormal : two.Normal)
    (same : one.canonical = two.canonical) : one = two := by
  obtain ⟨oneTree, oneText, oneBuilt⟩ := (normal_read_back one oneNormal).or
  obtain ⟨twoTree, twoText, twoBuilt⟩ := (normal_read_back two twoNormal).or
  rw [← oneBuilt, ← twoBuilt]
  exact oneTree.built_of_text twoTree (oneText.trans (same.trans twoText.symm))

theorem normal_not_public (normal : expr.Normal) : expr ≠ .publicExpr := by
  cases normal with
  | label name valid => exact nofun
  | node operator children several each flat sorted => cases operator <;> exact nofun

theorem collect_pairs_cons (child : Expr) (children : List Expr) (notPublic : child ≠ .publicExpr) :
    collectPairs operator (child :: children) =
      (collectPairs operator children).map fun pairs => (child.parts operator).map canonicalPair ++ pairs := by
  have collected : (collectPairs operator children >>= fun pairs => pure ((child.parts operator).map canonicalPair ++ pairs)) =
      (collectPairs operator children).map fun pairs => (child.parts operator).map canonicalPair ++ pairs := by
    cases collectPairs operator children <;> rfl
  rw [← collected]
  cases operator with
  | and =>
    cases child with
    | publicExpr => exact absurd rfl notPublic
    | label name | and inner | or inner => rfl
  | or =>
    cases child with
    | publicExpr => exact absurd rfl notPublic
    | label name | and inner | or inner => rfl

theorem collect_pairs_eq (each : ∀ child ∈ children, child.Normal) :
    collectPairs operator children = some ((children.flatMap (parts operator)).map canonicalPair) := by
  induction children with
  | nil => cases operator <;> rfl
  | cons child children ih =>
    have later := ih fun other member => each other (List.mem_cons_of_mem _ member)
    rw [collect_pairs_cons operator child children (normal_not_public child (each child List.mem_cons_self)), later,
      List.flatMap_cons, List.map_append, Option.map_some]

theorem join_eq (each : ∀ child ∈ children, child.Normal) :
    joinChildren operator children = collapse operator (arranged (children.flatMap (parts operator))) := by
  rw [joinChildren, collect_pairs_eq operator children each, arranged]
  dsimp only
  generalize (dedupPairs (sortPairs ((children.flatMap (parts operator)).map canonicalPair))).map Prod.snd = all
  match all with
  | [] => rfl
  | [only] => rfl
  | first :: second :: rest => rfl

theorem normal_flat (each : ∀ child ∈ children, child.Normal) :
    ∀ part ∈ children.flatMap (parts operator), part.Normal ∧ ∀ inner, part ≠ operator.build inner := by
  intro part member
  obtain ⟨child, listed, inside⟩ := List.mem_flatMap.mp member
  exact (normal_parts operator child (each child listed)).1 part inside

theorem mem_arranged_normal (each : ∀ child ∈ children, child.Normal) (expr : Expr) :
    expr ∈ arranged children ↔ expr ∈ children :=
  mem_arranged children (fun one oneMember two twoMember =>
    canonical_injective one two (each one oneMember) (each two twoMember)) expr

theorem arranged_ext (left right : List Expr) (leftNormal : ∀ child ∈ left, child.Normal)
    (rightNormal : ∀ child ∈ right, child.Normal) (same : ∀ expr, expr ∈ left ↔ expr ∈ right) : arranged left = arranged right := by
  refine before_ext _ _ (arranged_sorted left) (arranged_sorted right) ?_
  intro expr
  rw [mem_arranged_normal left leftNormal, mem_arranged_normal right rightNormal, same]

theorem collapse_normal (some : children ≠ []) (each : ∀ child ∈ children, child.Normal ∧ ∀ inner, child ≠ operator.build inner)
    (sorted : children.Pairwise Before) :
    (collapse operator children).Normal ∧ (collapse operator children).parts operator = children := by
  match children, some with
  | [only], _ =>
    obtain ⟨normal, other⟩ := each only List.mem_cons_self
    exact ⟨normal, parts_other operator only other⟩
  | first :: second :: rest, _ =>
    refine ⟨.node operator _ (Nat.le_add_left 2 _) ?_ ?_ sorted, parts_build operator _⟩
    · exact fun child member => (each child member).1
    · exact fun child member => (each child member).2

-- A join is normal, and its parts are those of its children put in order.
theorem join_normal (some : children ≠ []) (each : ∀ child ∈ children, child.Normal) : (joinChildren operator children).Normal ∧
      (joinChildren operator children).parts operator = arranged (children.flatMap (parts operator)) := by
  have flat := normal_flat operator children each
  have members := mem_arranged_normal (children.flatMap (parts operator)) fun part member => (flat part member).1
  rw [join_eq operator children each]
  refine collapse_normal operator _ ?_ (fun part member => flat part ((members part).mp member)) (arranged_sorted _)
  obtain ⟨first, rest, rfl⟩ := List.exists_cons_of_ne_nil some
  obtain ⟨_, _, someParts, _⟩ := normal_parts operator first (each first List.mem_cons_self)
  obtain ⟨part, more, parts⟩ := List.exists_cons_of_ne_nil someParts
  have inside : part ∈ arranged ((first :: rest).flatMap (Expr.parts operator)) := by
    rw [members, List.flatMap_cons, parts]
    exact List.mem_cons_self
  exact List.ne_nil_of_mem inside

theorem join_ext (left right : List Expr) (leftNormal : ∀ child ∈ left, child.Normal)
    (rightNormal : ∀ child ∈ right, child.Normal)
    (same : ∀ part, part ∈ left.flatMap (parts operator) ↔ part ∈ right.flatMap (parts operator)) :
    joinChildren operator left = joinChildren operator right := by
  rw [join_eq operator left leftNormal, join_eq operator right rightNormal]
  exact congrArg (collapse operator) (arranged_ext _ _ (fun part member => (normal_flat operator left leftNormal part member).1)
    (fun part member => (normal_flat operator right rightNormal part member).1) same)

theorem join_singleton (normal : expr.Normal) : joinChildren operator [expr] = expr := by
  have each : ∀ child ∈ [expr], child.Normal := List.forall_mem_singleton.mpr normal
  obtain ⟨flat, sorted, _, whole⟩ := normal_parts operator expr normal
  have kept : arranged (expr.parts operator) = expr.parts operator :=
    before_ext _ _ (arranged_sorted _) sorted (mem_arranged_normal _ fun part member => (flat part member).1)
  rw [join_eq operator [expr] each, List.flatMap_singleton, kept, whole]

-- A child that is itself a join of the same kind may be replaced by its children.
theorem join_nested (inner outer : List Expr) (some : inner ≠ []) (innerNormal : ∀ child ∈ inner, child.Normal)
    (outerNormal : ∀ child ∈ outer, child.Normal) :
    joinChildren operator (joinChildren operator inner :: outer) = joinChildren operator (inner ++ outer) := by
  obtain ⟨normal, parts⟩ := join_normal operator inner some innerNormal
  refine join_ext operator _ _ (List.forall_mem_cons.mpr ⟨normal, outerNormal⟩)
    (List.forall_mem_append.mpr ⟨innerNormal, outerNormal⟩) ?_
  intro part
  rw [List.flatMap_cons, List.flatMap_append, List.mem_append, List.mem_append, parts,
    mem_arranged_normal _ fun part member => (normal_flat operator inner innerNormal part member).1]

theorem join_perm (left right : List Expr) (leftNormal : ∀ child ∈ left, child.Normal)
    (same : ∀ child, child ∈ left ↔ child ∈ right) : joinChildren operator left = joinChildren operator right := by
  refine join_ext operator left right leftNormal (fun child member => leftNormal child ((same child).mpr member)) ?_
  intro part
  simp only [List.mem_flatMap, same]

end Expr

end OmryaKv.Secure
