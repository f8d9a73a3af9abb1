import OmryaKv.Lib.Aci
import OmryaKv.Secure.NormalForm

set_option autoImplicit false

namespace OmryaKv.Secure

open Lib

-- Parse trees as terms of two binary operators. Parentheses are nodes of their own.
inductive Formula where
  | label (name : Text)
  | group (inner : Formula)
  | node (operator : Operator) (left right : Formula)

namespace Formula

def Valid : Formula → Prop
  | .label name => isValidLabel name = true
  | .group inner => inner.Valid
  | .node _ left right => left.Valid ∧ right.Valid

-- The steps that may be taken anywhere in a tree, in either direction.
inductive Rearranges : Formula → Formula → Prop where
  | refl (f : Formula) : Rearranges f f
  | symm (f g : Formula) (step : Rearranges f g) : Rearranges g f
  | trans (f g h : Formula) (first : Rearranges f g) (second : Rearranges g h) : Rearranges f h
  | within (operator : Operator) (f g h k : Formula) (left : Rearranges f g) (right : Rearranges h k) :
      Rearranges (.node operator f h) (.node operator g k)
  | parentheses (f : Formula) : Rearranges (.group f) f
  | assoc (operator : Operator) (f g h : Formula) :
      Rearranges (.node operator (.node operator f g) h) (.node operator f (.node operator g h))
  | comm (operator : Operator) (f g : Formula) : Rearranges (.node operator f g) (.node operator g f)
  | idem (operator : Operator) (f : Formula) : Rearranges (.node operator f f) f

theorem rearranges_aci (operator : Operator) : Aci Rearranges (node operator) where
  equivalence := ⟨.refl, fun step => .symm _ _ step, fun first second => .trans _ _ _ first second⟩
  respects f g h k := .within operator f g h k
  assoc := .assoc operator
  comm := .comm operator
  idem := .idem operator

def normalized : Formula → Expr
  | .label name => .label name
  | .group inner => inner.normalized
  | .node operator left right => joinChildren operator [left.normalized, right.normalized]

theorem normalized_normal (f : Formula) (valid : f.Valid) : f.normalized.Normal := by
  induction f with
  | label name => exact .label name valid
  | group inner ih => exact ih valid
  | node operator left right ihLeft ihRight =>
    exact (Expr.join_normal operator _ (List.cons_ne_nil _ _)
      (List.forall_mem_cons.mpr ⟨ihLeft valid.1, List.forall_mem_singleton.mpr (ihRight valid.2)⟩)).1

-- No step changes the normal form.
theorem rearranged_normalized (f g : Formula) (steps : Rearranges f g) :
    (f.Valid ↔ g.Valid) ∧ (f.Valid → f.normalized = g.normalized) := by
  induction steps with
  | refl f => exact ⟨Iff.rfl, fun _ => rfl⟩
  | symm f g step ih => exact ⟨ih.1.symm, fun valid => (ih.2 (ih.1.mpr valid)).symm⟩
  | trans f g h first second ihFirst ihSecond =>
    exact ⟨ihFirst.1.trans ihSecond.1, fun valid => (ihFirst.2 valid).trans (ihSecond.2 (ihFirst.1.mp valid))⟩
  | within operator f g h k left right ihLeft ihRight =>
    refine ⟨and_congr ihLeft.1 ihRight.1, ?_⟩
    intro valid
    rw [normalized, normalized, ihLeft.2 valid.1, ihRight.2 valid.2]
  | parentheses f => exact ⟨Iff.rfl, fun _ => rfl⟩
  | assoc operator f g h =>
    refine ⟨and_assoc, ?_⟩
    rintro ⟨⟨fValid, gValid⟩, hValid⟩
    have fNormal := f.normalized_normal fValid
    have gNormal := g.normalized_normal gValid
    have hNormal := h.normalized_normal hValid
    have left : ∀ child ∈ [f.normalized, g.normalized], child.Normal :=
      List.forall_mem_cons.mpr ⟨fNormal, List.forall_mem_singleton.mpr gNormal⟩
    have right : ∀ child ∈ [g.normalized, h.normalized], child.Normal :=
      List.forall_mem_cons.mpr ⟨gNormal, List.forall_mem_singleton.mpr hNormal⟩
    have rightJoin := (Expr.join_normal operator _ (List.cons_ne_nil _ _) right).1
    simp only [normalized]
    rw [Expr.join_nested operator _ _ (List.cons_ne_nil _ _) left (List.forall_mem_singleton.mpr hNormal),
      Expr.join_perm operator [f.normalized, _] [joinChildren operator [g.normalized, h.normalized], f.normalized]
        (List.forall_mem_cons.mpr ⟨fNormal, List.forall_mem_singleton.mpr rightJoin⟩) (by simp [or_comm]),
      Expr.join_nested operator _ _ (List.cons_ne_nil _ _) right (List.forall_mem_singleton.mpr fNormal)]
    exact Expr.join_perm operator _ _ (List.forall_mem_append.mpr ⟨left, List.forall_mem_singleton.mpr hNormal⟩)
      fun child => by simp only [List.cons_append, List.nil_append, List.mem_cons, List.not_mem_nil, or_false]; tauto
  | comm operator f g =>
    refine ⟨and_comm, ?_⟩
    rintro ⟨fValid, gValid⟩
    exact Expr.join_perm operator _ _ (List.forall_mem_cons.mpr
      ⟨f.normalized_normal fValid, List.forall_mem_singleton.mpr (g.normalized_normal gValid)⟩) (by simp [or_comm])
  | idem operator f =>
    refine ⟨and_self_iff, ?_⟩
    rintro ⟨valid, _⟩
    have normal := f.normalized_normal valid
    exact (Expr.join_perm operator _ [f.normalized] (List.forall_mem_cons.mpr
      ⟨normal, List.forall_mem_singleton.mpr normal⟩) (by simp)).trans (Expr.join_singleton operator _ normal)

def joinAll (operator : Operator) : List Formula → Formula
  | [] => .label []
  | first :: rest => joined (node operator) first rest

end Formula

namespace Expr

-- A normal form as a term again. The public expression has none and gets a placeholder.
mutual
def formula : Expr → Formula
  | .publicExpr => .label []
  | .label name => .label name
  | .and children => Formula.joinAll .and (allFormulas children)
  | .or children => Formula.joinAll .or (allFormulas children)
def allFormulas : List Expr → List Formula
  | [] => []
  | child :: children => child.formula :: allFormulas children
end

theorem all_formulas_eq (children : List Expr) : allFormulas children = children.map formula := by
  induction children with
  | nil => rfl
  | cons child children ih => rw [allFormulas, ih, List.map_cons]

variable (operator : Operator)

theorem build_formula (children : List Expr) :
    (operator.build children).formula = Formula.joinAll operator (children.map formula) := by
  rw [← all_formulas_eq]
  cases operator <;> rfl

theorem collapse_formula (children : List Expr) :
    (collapse operator children).formula = Formula.joinAll operator (children.map formula) := by
  match children with
  | [] => rfl
  | [only] => rfl
  | first :: second :: rest => exact build_formula operator _

theorem parts_formula (expr : Expr) (normal : expr.Normal) :
    Formula.joinAll operator ((expr.parts operator).map formula) = expr.formula := by
  rw [← collapse_formula, (normal_parts operator expr normal).2.2.2]

theorem join_formula (left right : Expr) (leftNormal : left.Normal) (rightNormal : right.Normal) :
    Formula.Rearranges (.node operator left.formula right.formula) (joinChildren operator [left, right]).formula := by
  have each : ∀ child ∈ [left, right], child.Normal :=
    List.forall_mem_cons.mpr ⟨leftNormal, List.forall_mem_singleton.mpr rightNormal⟩
  have members := mem_arranged_normal _ fun part member => (normal_flat operator [left, right] each part member).1
  rw [join_eq operator _ each, collapse_formula, ← parts_formula operator left leftNormal, ← parts_formula operator right rightNormal]
  rw [List.flatMap_cons, List.flatMap_singleton] at members ⊢
  obtain ⟨first, front, leftParts⟩ := List.exists_cons_of_ne_nil (normal_parts operator left leftNormal).2.2.1
  obtain ⟨second, back, rightParts⟩ := List.exists_cons_of_ne_nil (normal_parts operator right rightNormal).2.2.1
  rw [leftParts, rightParts] at members ⊢
  obtain ⟨least, rest, shape⟩ := List.exists_cons_of_ne_nil
    (List.ne_nil_of_mem ((members first).mpr (List.mem_append_left _ List.mem_cons_self)))
  rw [shape] at members ⊢
  refine .trans _ _ _ (.symm _ _ ((Formula.rearranges_aci operator).joined_append _ _ _ _)) ?_
  refine (Formula.rearranges_aci operator).joined_same_members _ _ _ _ fun f => ?_
  rw [← List.map_cons, ← List.map_append, ← List.map_cons, ← List.cons_append, ← List.map_cons, List.mem_map, List.mem_map]
  simp only [members]

end Expr

namespace Formula

theorem rearranges_to_normalized (f : Formula) (valid : f.Valid) : f.Rearranges f.normalized.formula := by
  induction f with
  | label name => exact .refl _
  | group inner ih => exact .trans _ _ _ (.parentheses inner) (ih valid)
  | node operator left right ihLeft ihRight =>
    exact .trans _ _ _ (.within operator _ _ _ _ (ihLeft valid.1) (ihRight valid.2))
      (Expr.join_formula operator _ _ (left.normalized_normal valid.1) (right.normalized_normal valid.2))

theorem normalized_eq_iff (f g : Formula) (fValid : f.Valid) (gValid : g.Valid) :
    f.normalized = g.normalized ↔ f.Rearranges g := by
  constructor
  · intro same
    have back := rearranges_to_normalized g gValid
    rw [← same] at back
    exact .trans _ _ _ (rearranges_to_normalized f fValid) (.symm _ _ back)
  · intro steps
    exact (rearranged_normalized f g steps).2 fValid

theorem joined_normalized (operator : Operator) (first : Formula) (rest : List Formula) (firstValid : first.Valid)
    (restValid : ∀ f ∈ rest, f.Valid) :
    (joined (node operator) first rest).normalized = joinChildren operator (first.normalized :: rest.map normalized) := by
  induction rest generalizing first with
  | nil => exact (Expr.join_singleton operator _ (first.normalized_normal firstValid)).symm
  | cons second rest ih =>
    obtain ⟨secondValid, laterValid⟩ := List.forall_mem_cons.mp restValid
    have firstNormal := first.normalized_normal firstValid
    have restNormal : ∀ child ∈ second.normalized :: rest.map normalized, child.Normal := by
      rw [← List.map_cons]
      exact List.forall_mem_map.mpr fun f member => f.normalized_normal (restValid f member)
    have join := (Expr.join_normal operator _ (List.cons_ne_nil _ _) restNormal).1
    rw [joined, normalized, ih second secondValid laterValid,
      Expr.join_perm operator [first.normalized, _] [joinChildren operator (second.normalized :: rest.map normalized), first.normalized]
        (List.forall_mem_cons.mpr ⟨firstNormal, List.forall_mem_singleton.mpr join⟩) (by simp [or_comm]),
      Expr.join_nested operator _ _ (List.cons_ne_nil _ _) restNormal (List.forall_mem_singleton.mpr firstNormal)]
    refine Expr.join_perm operator _ _ (List.forall_mem_append.mpr ⟨restNormal, List.forall_mem_singleton.mpr firstNormal⟩) ?_
    intro child
    rw [List.mem_append, List.mem_singleton, or_comm, ← List.mem_cons, List.map_cons]

end Formula

namespace Tree

-- A chain of one operator is read from the right; by associativity it does not matter.
def formula : {category : Category} → Tree category → Result Formula category
  | _, .expr inner => inner.formula
  | _, .or head tail => joined (.node .or) head.formula tail.formula
  | _, .orEnd => ([] : List Formula)
  | _, .orNext head tail => ((head.formula :: tail.formula : List Formula))
  | _, .and head tail => joined (.node .and) head.formula tail.formula
  | _, .andEnd => ([] : List Formula)
  | _, .andNext head tail => ((head.formula :: tail.formula : List Formula))
  | _, .label name _ _ => .label name
  | _, .group inner => .group inner.formula

end Tree

def Normalizes : (category : Category) → Result Expr category → Result Formula category → Prop
  | .orMore | .andMore => fun (exprs : List Expr) (formulas : List Formula) =>
    (∀ f ∈ formulas, f.Valid) ∧ exprs.map Expr.normalized = formulas.map Formula.normalized
  | .expr | .or | .and | .primary => fun (expr : Expr) (formula : Formula) => formula.Valid ∧ expr.normalized = formula.normalized

theorem all_normalized_eq (children : List Expr) : Expr.allNormalized children = children.map Expr.normalized := by
  induction children with
  | nil => rfl
  | cons child children ih => rw [Expr.allNormalized, ih, List.map_cons]

theorem build_normalized (operator : Operator) (children : List Expr) :
    (operator.build children).normalized = joinChildren operator (children.map Expr.normalized) := by
  rw [← all_normalized_eq]
  cases operator <;> rfl

theorem joined_valid (operator : Operator) (first : Formula) (rest : List Formula) (firstValid : first.Valid)
    (restValid : ∀ f ∈ rest, f.Valid) : (joined (.node operator) first rest).Valid := by
  induction rest generalizing first with
  | nil => exact firstValid
  | cons second rest ih =>
    obtain ⟨secondValid, laterValid⟩ := List.forall_mem_cons.mp restValid
    exact ⟨firstValid, ih second secondValid laterValid⟩

theorem chain_normalizes (operator : Operator) (first : Expr) (rest : List Expr) (f : Formula) (fs : List Formula)
    (fValid : f.Valid) (firstSame : first.normalized = f.normalized) (restValid : ∀ g ∈ fs, g.Valid)
    (restSame : rest.map Expr.normalized = fs.map Formula.normalized) :
    (joined (.node operator) f fs).Valid ∧
      (if rest.isEmpty then first else operator.build (first :: rest)).normalized = (joined (.node operator) f fs).normalized := by
  refine ⟨joined_valid operator f fs fValid restValid, ?_⟩
  rw [Formula.joined_normalized operator f fs fValid restValid, ← firstSame, ← restSame]
  cases rest with
  | nil => exact (Expr.join_singleton operator _ (firstSame ▸ f.normalized_normal fValid)).symm
  | cons second rest => exact build_normalized operator _

theorem tree_normalizes {category : Category} (tree : Tree category) : Normalizes category tree.built tree.formula := by
  induction tree with
  | expr inner ih => exact ih
  | or head tail ihHead ihTail => exact chain_normalizes .or _ _ _ _ ihHead.1 ihHead.2 ihTail.1 ihTail.2
  | orEnd => exact ⟨nofun, rfl⟩
  | orNext head tail ihHead ihTail =>
    exact ⟨List.forall_mem_cons.mpr ⟨ihHead.1, ihTail.1⟩, List.cons_eq_cons.mpr ⟨ihHead.2, ihTail.2⟩⟩
  | and head tail ihHead ihTail => exact chain_normalizes .and _ _ _ _ ihHead.1 ihHead.2 ihTail.1 ihTail.2
  | andEnd => exact ⟨nofun, rfl⟩
  | andNext head tail ihHead ihTail =>
    exact ⟨List.forall_mem_cons.mpr ⟨ihHead.1, ihTail.1⟩, List.cons_eq_cons.mpr ⟨ihHead.2, ihTail.2⟩⟩
  | label name nonempty all =>
    refine ⟨?_, rfl⟩
    change isValidLabel name = true
    rw [isValidLabel, Bool.and_eq_true, List.all_eq_true]
    exact ⟨by simpa using nonempty, fun ch member => (is_label_char_iff ch).mpr (all ch member)⟩
  | group inner ih => exact ih

theorem Tree.text_ne_nil {category : Category} (tree : Tree category) (notOrMore : category ≠ .orMore) (notAndMore : category ≠ .andMore) :
    tree.text ≠ [] := by
  induction tree with
  | expr inner ih => exact ih nofun nofun
  | or head tail ihHead _ => exact List.append_ne_nil_of_left_ne_nil (ihHead nofun nofun) _
  | orEnd | orNext head tail => exact absurd rfl notOrMore
  | and head tail ihHead _ => exact List.append_ne_nil_of_left_ne_nil (ihHead nofun nofun) _
  | andEnd | andNext head tail => exact absurd rfl notAndMore
  | label name nonempty all => exact nonempty
  | group inner ih => exact List.cons_ne_nil _ _

theorem parse_tree (tree : Tree .expr) : VisibilityExpr.parse tree.text = .ok (VisibilityExpr.ofExpr tree.built) := by
  have stops : Parser.Follows .expr [] := by
    intro ch member
    cases member
  have read := Parser.tree_read_back tree (VisibilityExpr.enoughFuel tree.text) [] (Nat.le_refl _) stops
  have finished : Fueled.outcome (Parser.parseOrExpr (VisibilityExpr.enoughFuel tree.text)) tree.text =
      some (.ok (tree.built, [])) := by
    rw [List.append_nil] at read
    exact read
  have nonempty : tree.text ≠ [] := by
    apply tree.text_ne_nil
    · intro same
      cases same
    · intro same
      cases same
  rw [VisibilityExpr.parse, if_neg (by simpa using nonempty), finished]
  rfl

-- The parse tree of an accepted string. The empty string has none.
def HasTree (input : Text) : Option (Tree .expr) → Prop
  | none => input = []
  | some tree => tree.text = input

theorem accepted_has_tree (input : Text) (visibility : VisibilityExpr) (parsed : VisibilityExpr.parse input = .ok visibility) :
    ∃ tree, HasTree input tree := by
  rcases parsed_derives input visibility parsed with rfl | derives
  · exact ⟨none, rfl⟩
  · obtain ⟨tree, text⟩ := Tree.of_derives .expr input derives
    exact ⟨some tree, text⟩

theorem parsed_expr (tree : Tree .expr) (visibility : VisibilityExpr)
    (parsed : VisibilityExpr.parse tree.text = .ok visibility) :
    visibility.expr = Formula.normalized tree.formula ∧ Formula.Valid tree.formula := by
  rw [parse_tree] at parsed
  cases parsed
  exact ⟨(tree_normalizes tree).2, (tree_normalizes tree).1⟩

theorem parsed_normal (tree : Tree .expr) (visibility : VisibilityExpr)
    (parsed : VisibilityExpr.parse tree.text = .ok visibility) : visibility.expr.Normal := by
  obtain ⟨same, valid⟩ := parsed_expr tree visibility parsed
  exact same ▸ Formula.normalized_normal _ valid

theorem normal_normalized (expr : Expr) (normal : expr.Normal) : expr.normalized = expr := by
  induction normal with
  | label name valid => rfl
  | node operator children several each flat sorted ih =>
    have kept : children.map Expr.normalized = children := by
      conv_rhs => rw [← List.map_id children]
      exact List.map_congr_left ih
    have parts : children.flatMap (Expr.parts operator) = children := by
      conv_rhs => rw [← List.flatMap_singleton' children]
      exact List.flatMap_congr fun child member => Expr.parts_other operator child (flat child member)
    have arrangement : arranged children = children :=
      before_ext _ _ (arranged_sorted children) sorted (Expr.mem_arranged_normal children each)
    rw [build_normalized, kept, Expr.join_eq operator children each, parts, arrangement]
    match children, several with
    | first :: second :: rest, _ => rfl

theorem visibility_ext (one two : VisibilityExpr) (same : one.expr = two.expr) : one = two := by
  obtain ⟨expr, canonical, written⟩ := one
  obtain ⟨otherExpr, otherCanonical, otherWritten⟩ := two
  cases same
  rw [VisibilityExpr.mk.injEq]
  exact ⟨rfl, written.trans otherWritten.symm⟩

variable (visibility : VisibilityExpr)

theorem reparse_normal (normal : visibility.expr.Normal) : VisibilityExpr.parse visibility.canonical = .ok visibility := by
  obtain ⟨tree, text, built⟩ := (Expr.normal_read_back visibility.expr normal).or
  have whole : Tree.text (.expr tree) = visibility.canonical := text.trans visibility.written.symm
  rw [← whole, parse_tree]
  refine congrArg Except.ok (visibility_ext _ _ ?_)
  change Expr.normalized tree.built = visibility.expr
  rw [built, normal_normalized _ normal]

-- Trees that can be turned into each other; the empty string stands alone.
def SameUpToRearranging : Option (Tree .expr) → Option (Tree .expr) → Prop
  | none, none => True
  | some one, some two => Formula.Rearranges one.formula two.formula
  | none, some _ => False
  | some _, none => False

theorem normal_canonical_ne_nil (normal : visibility.expr.Normal) : visibility.canonical ≠ [] := by
  obtain ⟨tree, text, _⟩ := (Expr.normal_read_back visibility.expr normal).or
  rw [visibility.written]
  exact fun empty => tree.text_ne_nil nofun nofun (text.trans empty)

theorem parsed_public (parsed : VisibilityExpr.parse [] = .ok visibility) : visibility = VisibilityExpr.publicVisibility :=
  (Except.ok.inj parsed).symm

theorem same_canonical_iff (oneTree twoTree : Tree .expr) (oneVisibility twoVisibility : VisibilityExpr)
    (oneParsed : VisibilityExpr.parse oneTree.text = .ok oneVisibility)
    (twoParsed : VisibilityExpr.parse twoTree.text = .ok twoVisibility) :
    oneVisibility.canonical = twoVisibility.canonical ↔ SameUpToRearranging (some oneTree) (some twoTree) := by
  obtain ⟨oneSame, oneValid⟩ := parsed_expr oneTree oneVisibility oneParsed
  obtain ⟨twoSame, twoValid⟩ := parsed_expr twoTree twoVisibility twoParsed
  have oneNormal := parsed_normal oneTree oneVisibility oneParsed
  have twoNormal := parsed_normal twoTree twoVisibility twoParsed
  have written : oneVisibility.canonical = twoVisibility.canonical ↔ oneVisibility.expr = twoVisibility.expr := by
    rw [oneVisibility.written, twoVisibility.written]
    exact ⟨Expr.canonical_injective _ _ oneNormal twoNormal, congrArg Expr.canonical⟩
  rw [written, oneSame, twoSame]
  exact Formula.normalized_eq_iff _ _ oneValid twoValid

theorem canonical_strings_are_normal_forms :
    (∀ input visibility, VisibilityExpr.parse input = .ok visibility →
      VisibilityExpr.parse visibility.canonical = .ok visibility ∧ ∃ tree, HasTree input tree) ∧
    ∀ one two oneVisibility twoVisibility oneTree twoTree,
      VisibilityExpr.parse one = .ok oneVisibility → VisibilityExpr.parse two = .ok twoVisibility →
      HasTree one oneTree → HasTree two twoTree →
        (oneVisibility.canonical = twoVisibility.canonical ↔ SameUpToRearranging oneTree twoTree) := by
  constructor
  · intro input visibility parsed
    obtain ⟨tree, has⟩ := accepted_has_tree input visibility parsed
    refine ⟨?_, tree, has⟩
    cases tree with
    | none =>
      have empty : input = [] := has
      subst empty
      rw [parsed_public visibility parsed]
      rfl
    | some tree =>
      have text : tree.text = input := has
      exact reparse_normal visibility (parsed_normal tree visibility (text ▸ parsed))
  · intro one two oneVisibility twoVisibility oneTree twoTree oneParsed twoParsed oneHas twoHas
    cases oneTree with
    | none =>
      have oneEmpty : one = [] := oneHas
      subst oneEmpty
      rw [parsed_public oneVisibility oneParsed]
      cases twoTree with
      | none =>
        have twoEmpty : two = [] := twoHas
        subst twoEmpty
        rw [parsed_public twoVisibility twoParsed]
        exact iff_of_true rfl trivial
      | some twoTree =>
        have twoText : twoTree.text = two := twoHas
        have twoNormal := parsed_normal twoTree twoVisibility (twoText ▸ twoParsed)
        exact iff_of_false (fun same => normal_canonical_ne_nil twoVisibility twoNormal same.symm) id
    | some oneTree =>
      have oneText : oneTree.text = one := oneHas
      subst oneText
      cases twoTree with
      | none =>
        have twoEmpty : two = [] := twoHas
        subst twoEmpty
        rw [parsed_public twoVisibility twoParsed]
        exact iff_of_false (normal_canonical_ne_nil oneVisibility (parsed_normal oneTree oneVisibility oneParsed)) id
      | some twoTree =>
        have twoText : twoTree.text = two := twoHas
        subst twoText
        exact same_canonical_iff oneTree twoTree oneVisibility twoVisibility oneParsed twoParsed

end OmryaKv.Secure
