import OmryaKv.Secure.Visibility
import Mathlib.Data.List.TakeWhile

set_option autoImplicit false

namespace OmryaKv.Secure

open Lib

-- ASCII letters, digits, '_', '-', '.' and ':'.
def LabelChar (ch : Char) : Prop :=
  ('a' ≤ ch ∧ ch ≤ 'z') ∨ ('A' ≤ ch ∧ ch ≤ 'Z') ∨ ('0' ≤ ch ∧ ch ≤ '9') ∨ ch = '_' ∨ ch = '-' ∨ ch = '.' ∨ ch = ':'

-- The starred parts of the grammar are the two categories of more.
inductive Category where
  | expr
  | or
  | orMore
  | and
  | andMore
  | primary

inductive Derives : Category → Text → Prop where
  | expr (text : Text) (inner : Derives .or text) : Derives .expr text
  | or (first more : Text) (head : Derives .and first) (tail : Derives .orMore more) : Derives .or (first ++ more)
  | orEnd : Derives .orMore []
  | orNext (child more : Text) (head : Derives .and child) (tail : Derives .orMore more) :
      Derives .orMore ('|' :: (child ++ more))
  | and (first more : Text) (head : Derives .primary first) (tail : Derives .andMore more) : Derives .and (first ++ more)
  | andEnd : Derives .andMore []
  | andNext (child more : Text) (head : Derives .primary child) (tail : Derives .andMore more) :
      Derives .andMore ('&' :: (child ++ more))
  | label (name : Text) (nonempty : name ≠ []) (all : ∀ ch ∈ name, LabelChar ch) : Derives .primary name
  | group (inner : Text) (expr : Derives .expr inner) : Derives .primary ('(' :: (inner ++ [')']))

-- The derivations themselves, as data.
inductive Tree : Category → Type where
  | expr (inner : Tree .or) : Tree .expr
  | or (head : Tree .and) (tail : Tree .orMore) : Tree .or
  | orEnd : Tree .orMore
  | orNext (head : Tree .and) (tail : Tree .orMore) : Tree .orMore
  | and (head : Tree .primary) (tail : Tree .andMore) : Tree .and
  | andEnd : Tree .andMore
  | andNext (head : Tree .primary) (tail : Tree .andMore) : Tree .andMore
  | label (name : Text) (nonempty : name ≠ []) (all : ∀ ch ∈ name, LabelChar ch) : Tree .primary
  | group (inner : Tree .expr) : Tree .primary

-- A starred part stands for the list of what is in it.
def Result (α : Type) : Category → Type
  | .orMore | .andMore => List α
  | .expr | .or | .and | .primary => α

variable (category : Category)

namespace Tree

def text : {category : Category} → Tree category → Text
  | _, .expr inner => inner.text
  | _, .or head tail => head.text ++ tail.text
  | _, .orEnd => []
  | _, .orNext head tail => '|' :: (head.text ++ tail.text)
  | _, .and head tail => head.text ++ tail.text
  | _, .andEnd => []
  | _, .andNext head tail => '&' :: (head.text ++ tail.text)
  | _, .label name _ _ => name
  | _, .group inner => '(' :: (inner.text ++ [')'])

-- What the parser makes of the tree. It keeps no parentheses.
def built : {category : Category} → Tree category → Result Expr category
  | _, .expr inner => inner.built
  | _, .or head tail =>
    let children : List Expr := tail.built
    if children.isEmpty then head.built else .or (head.built :: children)
  | _, .orEnd => ([] : List Expr)
  | _, .orNext head tail => ((head.built :: tail.built : List Expr))
  | _, .and head tail =>
    let children : List Expr := tail.built
    if children.isEmpty then head.built else .and (head.built :: children)
  | _, .andEnd => ([] : List Expr)
  | _, .andNext head tail => ((head.built :: tail.built : List Expr))
  | _, .label name _ _ => .label name
  | _, .group inner => inner.built

theorem derives {category : Category} (tree : Tree category) : Derives category tree.text := by
  induction tree with
  | expr inner ih => exact .expr _ ih
  | or head tail ihHead ihTail => exact .or _ _ ihHead ihTail
  | orEnd => exact .orEnd
  | orNext head tail ihHead ihTail => exact .orNext _ _ ihHead ihTail
  | and head tail ihHead ihTail => exact .and _ _ ihHead ihTail
  | andEnd => exact .andEnd
  | andNext head tail ihHead ihTail => exact .andNext _ _ ihHead ihTail
  | label name nonempty all => exact .label name nonempty all
  | group inner ih => exact .group _ ih

theorem of_derives (text : Text) (derives : Derives category text) : ∃ tree : Tree category, tree.text = text := by
  induction derives with
  | expr text inner ih =>
    obtain ⟨tree, rfl⟩ := ih
    exact ⟨.expr tree, rfl⟩
  | or first more head tail ihHead ihTail =>
    obtain ⟨one, rfl⟩ := ihHead
    obtain ⟨two, rfl⟩ := ihTail
    exact ⟨.or one two, rfl⟩
  | orEnd => exact ⟨.orEnd, rfl⟩
  | orNext child more head tail ihHead ihTail =>
    obtain ⟨one, rfl⟩ := ihHead
    obtain ⟨two, rfl⟩ := ihTail
    exact ⟨.orNext one two, rfl⟩
  | and first more head tail ihHead ihTail =>
    obtain ⟨one, rfl⟩ := ihHead
    obtain ⟨two, rfl⟩ := ihTail
    exact ⟨.and one two, rfl⟩
  | andEnd => exact ⟨.andEnd, rfl⟩
  | andNext child more head tail ihHead ihTail =>
    obtain ⟨one, rfl⟩ := ihHead
    obtain ⟨two, rfl⟩ := ihTail
    exact ⟨.andNext one two, rfl⟩
  | label name nonempty all => exact ⟨.label name nonempty all, rfl⟩
  | group inner expr ih =>
    obtain ⟨tree, rfl⟩ := ih
    exact ⟨.group tree, rfl⟩

end Tree

theorem is_alphanum_iff (ch : Char) :
    ch.isAlphanum = true ↔ ('a' ≤ ch ∧ ch ≤ 'z') ∨ ('A' ≤ ch ∧ ch ≤ 'Z') ∨ ('0' ≤ ch ∧ ch ≤ '9') := by
  have lower : ch.isLower = true ↔ 'a' ≤ ch ∧ ch ≤ 'z' :=
    Bool.and_eq_true_iff.trans (and_congr decide_eq_true_iff decide_eq_true_iff)
  have upper : ch.isUpper = true ↔ 'A' ≤ ch ∧ ch ≤ 'Z' := decide_eq_true_iff
  have digit : ch.isDigit = true ↔ '0' ≤ ch ∧ ch ≤ '9' :=
    Bool.and_eq_true_iff.trans (and_congr decide_eq_true_iff decide_eq_true_iff)
  have letter : ch.isAlpha = true ↔ ch.isUpper = true ∨ ch.isLower = true := Bool.or_eq_true_iff
  have either : ch.isAlphanum = true ↔ ch.isAlpha = true ∨ ch.isDigit = true := Bool.or_eq_true_iff
  rw [either, letter, lower, upper, digit, or_assoc, or_left_comm]

theorem is_label_char_iff (ch : Char) : isLabelChar ch = true ↔ LabelChar ch := by
  simp only [isLabelChar, LabelChar, Bool.or_eq_true, beq_iff_eq, is_alphanum_iff, or_assoc]

def Allowed (ch : Char) : Prop := LabelChar ch ∨ ch ∈ ['&', '|', '(', ')']

theorem joined_allowed (first more : Text) (head : ∀ ch ∈ first, Allowed ch) (tail : ∀ ch ∈ more, Allowed ch) :
    ∀ ch ∈ first ++ more, Allowed ch := by
  intro ch member
  rcases List.mem_append.mp member with inFirst | inMore
  · exact head ch inFirst
  · exact tail ch inMore

theorem derived_chars_allowed (text : Text) (derives : Derives category text) : ∀ ch ∈ text, Allowed ch := by
  induction derives with
  | expr text inner ih => exact ih
  | or first more head tail ihHead ihTail => exact joined_allowed first more ihHead ihTail
  | orEnd => simp
  | orNext child more head tail ihHead ihTail =>
    exact List.forall_mem_cons.mpr ⟨.inr (by simp), joined_allowed child more ihHead ihTail⟩
  | and first more head tail ihHead ihTail => exact joined_allowed first more ihHead ihTail
  | andEnd => simp
  | andNext child more head tail ihHead ihTail =>
    exact List.forall_mem_cons.mpr ⟨.inr (by simp), joined_allowed child more ihHead ihTail⟩
  | label name nonempty all => exact fun ch member => .inl (all ch member)
  | group inner expr ih =>
    refine List.forall_mem_cons.mpr ⟨.inr (by simp), joined_allowed inner [')'] ih ?_⟩
    exact List.forall_mem_singleton.mpr (.inr (by simp))

namespace Parser

-- What a successful parse took off the front is a phrase of the category.
def Reads (category : Category) {α : Type} (chars : Text) (_ : α) (rest : Text) : Prop :=
  ∃ taken, chars = taken ++ rest ∧ Derives category taken

structure SoundAt (fuel : Nat) : Prop where
  or : ∀ chars, Fueled.Yields (parseOrExpr fuel) chars (Reads .or chars)
  orMore : ∀ chars, Fueled.Yields (parseOrChildren fuel) chars (Reads .orMore chars)
  and : ∀ chars, Fueled.Yields (parseAndExpr fuel) chars (Reads .and chars)
  andMore : ∀ chars, Fueled.Yields (parseAndChildren fuel) chars (Reads .andMore chars)
  primary : ∀ chars, Fueled.Yields (parsePrimary fuel) chars (Reads .primary chars)

theorem sequence_sound (first more whole : Category) (child : Parser Expr) (children : Parser (List Expr))
    (join : Expr → List Expr → Expr)
    (rule : ∀ one two, Derives first one → Derives more two → Derives whole (one ++ two))
    (each : ∀ chars, Fueled.Yields child chars (Reads first chars))
    (later : ∀ chars, Fueled.Yields children chars (Reads more chars)) (chars : Text) :
    Fueled.Yields (do
      let first ← child
      let rest ← children
      return join first rest) chars (Reads whole chars) := by
  refine Fueled.yields_bind _ _ _ _ _ (each chars) ?_
  rintro expr middle ⟨one, taken, oneDerives⟩
  refine Fueled.yields_bind _ _ _ _ _ (later middle) ?_
  rintro exprs last ⟨two, takenLater, twoDerives⟩
  apply Fueled.yields_pure
  exact ⟨one ++ two, by rw [taken, takenLater, List.append_assoc], rule one two oneDerives twoDerives⟩

theorem children_sound (separator : Char) (first more : Category) (child : Parser Expr) (children : Parser (List Expr))
    (done : Derives more [])
    (rule : ∀ one two, Derives first one → Derives more two → Derives more (separator :: (one ++ two)))
    (each : ∀ chars, Fueled.Yields child chars (Reads first chars))
    (later : ∀ chars, Fueled.Yields children chars (Reads more chars)) (chars : Text) :
    Fueled.Yields (do
      if ← consume separator then
        let first ← child
        let rest ← children
        return first :: rest
      else return []) chars (Reads more chars) := by
  refine Fueled.yields_bind _ _ _ _ _ (Fueled.yields_of_settles _ _ _ (consume_settles separator chars)) ?_
  intro found rest eaten
  cases found with
  | false =>
    have same : rest = chars := eaten
    exact Fueled.yields_pure _ _ _ ⟨[], same.symm, done⟩
  | true =>
    have split : chars = separator :: rest := eaten
    subst split
    refine Fueled.yields_bind _ _ _ _ _ (each rest) ?_
    rintro expr middle ⟨one, taken, oneDerives⟩
    refine Fueled.yields_bind _ _ _ _ _ (later middle) ?_
    rintro exprs last ⟨two, takenLater, twoDerives⟩
    apply Fueled.yields_pure
    exact ⟨separator :: (one ++ two), by simp [taken, takenLater], rule one two oneDerives twoDerives⟩

theorem label_sound (chars : Text) :
    Fueled.Yields parseLabel chars fun label rest => chars = label ++ rest ∧ ∀ ch ∈ label, LabelChar ch := by
  intro label rest returned
  cases returned
  refine ⟨List.takeWhile_append_dropWhile.symm, ?_⟩
  intro ch member
  exact (is_label_char_iff ch).mp (List.mem_takeWhile_imp member)

theorem primary_sound (fuel : Nat) (nested : ∀ chars, Fueled.Yields (parseOrExpr fuel) chars (Reads .or chars)) (chars : Text) :
    Fueled.Yields (parsePrimary (fuel + 1)) chars (Reads .primary chars) := by
  rw [parsePrimary]
  refine Fueled.yields_bind _ _ _ _ _ (Fueled.yields_of_settles _ _ _ (consume_settles '(' chars)) ?_
  intro opened rest eaten
  cases opened with
  | true =>
    have split : chars = '(' :: rest := eaten
    subst split
    refine Fueled.yields_bind _ _ _ _ _ (nested rest) ?_
    rintro expr inner ⟨text, taken, derives⟩
    refine Fueled.yields_bind _ _ _ _ _ (Fueled.yields_of_settles _ _ _ (consume_settles ')' inner)) ?_
    intro closed last eaten
    cases closed with
    | true =>
      have closing : inner = ')' :: last := eaten
      apply Fueled.yields_pure
      exact ⟨'(' :: (text ++ [')']), by simp [taken, closing], .group text (.expr text derives)⟩
    | false => exact Fueled.yields_throw _ _ _
  | false =>
    have same : rest = chars := eaten
    subst same
    refine Fueled.yields_bind _ _ _ _ _ (label_sound rest) ?_
    intro label last read
    cases label with
    | nil => exact Fueled.yields_throw _ _ _
    | cons first label => exact Fueled.yields_pure _ _ _ ⟨first :: label, read.1, .label _ (List.cons_ne_nil _ _) read.2⟩

theorem sound_at (fuel : Nat) : SoundAt fuel := by
  induction fuel with
  | zero =>
    exact ⟨fun _ => Fueled.yields_out_of_fuel _ _, fun _ => Fueled.yields_out_of_fuel _ _,
      fun _ => Fueled.yields_out_of_fuel _ _, fun _ => Fueled.yields_out_of_fuel _ _,
      fun _ => Fueled.yields_out_of_fuel _ _⟩
  | succ fuel ih =>
    exact {
      or := sequence_sound .and .orMore .or _ _ _ .or ih.and ih.orMore
      orMore := children_sound '|' .and .orMore _ _ .orEnd .orNext ih.and ih.orMore
      and := sequence_sound .primary .andMore .and _ _ _ .and ih.primary ih.andMore
      andMore := children_sound '&' .primary .andMore _ _ .andEnd .andNext ih.primary ih.andMore
      primary := primary_sound fuel ih.or }

def Accepts {α : Type} (parser : Parser α) (text rest : Text) : Prop :=
  ∃ a, Fueled.outcome parser (text ++ rest) = some (.ok (a, rest))

-- The parser takes as much as it can, so a phrase is read back only before a
-- character that cannot belong to it.
def follow : Category → List Char
  | .primary => ['&', '|', ')']
  | .and => ['|', ')']
  | .andMore => ['|', ')']
  | .or => [')']
  | .orMore => [')']
  | .expr => [')']

def Follows (category : Category) (rest : Text) : Prop := ∀ ch ∈ rest.head?, ch ∈ follow category

def AcceptsAt : Category → Nat → Text → Text → Prop
  | .primary, fuel => Accepts (parsePrimary fuel)
  | .and, fuel => Accepts (parseAndExpr fuel)
  | .andMore, fuel => Accepts (parseAndChildren fuel)
  | .or, fuel => Accepts (parseOrExpr fuel)
  | .orMore, fuel => Accepts (parseOrChildren fuel)
  | .expr, fuel => Accepts (parseOrExpr fuel)

def slack : Category → Nat
  | .primary => 1
  | .and => 2
  | .andMore => 1
  | .or => 3
  | .orMore => 1
  | .expr => 3

theorem consume_found (expected : Char) (rest : Text) :
    Fueled.outcome (consume expected) (expected :: rest) = some (.ok (true, rest)) := by
  rw [Fueled.outcome, consume, if_pos rfl]
  rfl

theorem consume_absent (expected : Char) (chars : Text) (other : ∀ ch ∈ chars.head?, ch ≠ expected) :
    Fueled.outcome (consume expected) chars = some (.ok (false, chars)) := by
  cases chars with
  | nil => rfl
  | cons next rest =>
    rw [Fueled.outcome, consume, if_neg (other next rfl)]
    rfl

theorem sequence_reads (child : Parser Expr) (children : Parser (List Expr)) (join : Expr → List Expr → Expr)
    (one two rest : Text) (expr : Expr) (exprs : List Expr)
    (first : Fueled.outcome child (one ++ (two ++ rest)) = some (.ok (expr, two ++ rest)))
    (later : Fueled.outcome children (two ++ rest) = some (.ok (exprs, rest))) :
    Fueled.outcome (do
      let first ← child
      let rest ← children
      return join first rest) (one ++ two ++ rest) = some (.ok (join expr exprs, rest)) := by
  rw [List.append_assoc, Fueled.outcome_bind_ok _ _ _ _ _ first, Fueled.outcome_bind_ok _ _ _ _ _ later]
  rfl

theorem children_next (separator : Char) (child : Parser Expr) (children : Parser (List Expr)) (one two rest : Text)
    (expr : Expr) (exprs : List Expr)
    (first : Fueled.outcome child (one ++ (two ++ rest)) = some (.ok (expr, two ++ rest)))
    (later : Fueled.outcome children (two ++ rest) = some (.ok (exprs, rest))) :
    Fueled.outcome (do
      if ← consume separator then
        let first ← child
        let rest ← children
        return first :: rest
      else return []) (separator :: (one ++ two) ++ rest) = some (.ok (expr :: exprs, rest)) := by
  rw [List.cons_append, List.append_assoc, Fueled.outcome_bind_ok _ _ _ _ _ (consume_found separator _), if_pos rfl,
    Fueled.outcome_bind_ok _ _ _ _ _ first, Fueled.outcome_bind_ok _ _ _ _ _ later]
  rfl

theorem children_end (separator : Char) (child : Parser Expr) (children : Parser (List Expr)) (rest : Text)
    (other : ∀ ch ∈ rest.head?, ch ≠ separator) :
    Fueled.outcome (do
      if ← consume separator then
        let first ← child
        let rest ← children
        return first :: rest
      else return []) rest = some (.ok ([], rest)) := by
  rw [Fueled.outcome_bind_ok _ _ _ _ _ (consume_absent separator rest other)]
  rfl

theorem follows_ne (rest : Text) (follows : Follows category rest) (ch : Char)
    (outside : ch ∉ follow category) : ∀ next ∈ rest.head?, next ≠ ch := by
  rintro next member rfl
  exact outside (follows next member)

theorem label_reads (name rest : Text) (nonempty : name ≠ []) (all : ∀ ch ∈ name, LabelChar ch)
    (follows : Follows .primary rest) (fuel : Nat) :
    Fueled.outcome (parsePrimary (fuel + 1)) (name ++ rest) = some (.ok (.label name, rest)) := by
  have valid : ∀ ch ∈ name, isLabelChar ch = true := fun ch member => (is_label_char_iff ch).mpr (all ch member)
  have stops : ∀ ch ∈ follow .primary, isLabelChar ch = false := by
    intro ch member
    simp only [follow, List.mem_cons, List.not_mem_nil, or_false] at member
    rcases member with rfl | rfl | rfl <;> rfl
  have taken : (name ++ rest).takeWhile isLabelChar = name := by
    rw [List.takeWhile_append_of_pos valid]
    cases rest with
    | nil => simp
    | cons next rest => simp [stops next (follows next rfl)]
  have left : (name ++ rest).dropWhile isLabelChar = rest := by
    rw [List.dropWhile_append_of_pos valid]
    cases rest with
    | nil => rfl
    | cons next rest => simp [stops next (follows next rfl)]
  have unopened : ∀ ch ∈ (name ++ rest).head?, ch ≠ '(' := by
    cases name with
    | nil => exact absurd rfl nonempty
    | cons first name =>
      rintro ch member rfl
      cases member
      exact absurd (valid '(' (List.mem_cons_self)) (by decide)
  have read : Fueled.outcome parseLabel (name ++ rest) = some (.ok (name, rest)) := by
    rw [Fueled.outcome, parseLabel, taken, left]
    rfl
  rw [parsePrimary, Fueled.outcome_bind_ok _ _ _ _ _ (consume_absent '(' _ unopened), if_neg Bool.false_ne_true,
    Fueled.outcome_bind_ok _ _ _ _ _ read, if_neg (by simp [nonempty])]
  rfl

theorem group_reads (inner rest : Text) (fuel : Nat) (expr : Expr)
    (nested : Fueled.outcome (parseOrExpr fuel) (inner ++ ')' :: rest) = some (.ok (expr, ')' :: rest))) :
    Fueled.outcome (parsePrimary (fuel + 1)) ('(' :: (inner ++ [')']) ++ rest) = some (.ok (expr, rest)) := by
  rw [parsePrimary, List.cons_append, List.append_assoc, List.singleton_append,
    Fueled.outcome_bind_ok _ _ _ _ _ (consume_found '(' _), if_pos rfl, Fueled.outcome_bind_ok _ _ _ _ _ nested,
    Fueled.outcome_bind_ok _ _ _ _ _ (consume_found ')' rest)]
  rfl

theorem and_more_follows (more rest : Text) (derives : Derives .andMore more) (follows : Follows .and rest) :
    Follows .primary (more ++ rest) := by
  cases derives with
  | andEnd => exact fun ch member => List.mem_cons_of_mem _ (follows ch member)
  | andNext child more head tail =>
    intro ch member
    cases member
    exact List.mem_cons_self

theorem or_more_follows (more rest : Text) (derives : Derives .orMore more) (follows : Follows .or rest) :
    Follows .and (more ++ rest) := by
  cases derives with
  | orEnd => exact fun ch member => List.mem_cons_of_mem _ (follows ch member)
  | orNext child more head tail =>
    intro ch member
    cases member
    exact List.mem_cons_self

def parserOf : (category : Category) → Nat → Parser (Result Expr category)
  | .primary, fuel => parsePrimary fuel
  | .and, fuel => parseAndExpr fuel
  | .andMore, fuel => parseAndChildren fuel
  | .or, fuel => parseOrExpr fuel
  | .orMore, fuel => parseOrChildren fuel
  | .expr, fuel => parseOrExpr fuel

-- The induction is on the tree; the fuel that a phrase needs is counted on its own length.
theorem tree_read_back {category : Category} (tree : Tree category) :
    ∀ fuel rest, 3 * tree.text.length + slack category ≤ fuel → Follows category rest →
      Fueled.outcome (parserOf category fuel) (tree.text ++ rest) = some (.ok (tree.built, rest)) := by
  induction tree with
  | expr inner ih => exact ih
  | or head tail ihHead ihTail =>
    intro fuel rest enough follows
    simp only [Tree.text, slack, List.length_append] at enough ihHead ihTail
    cases fuel with
    | zero => omega
    | succ fuel =>
      exact sequence_reads _ _ _ head.text tail.text rest head.built tail.built
        (ihHead fuel _ (by omega) (or_more_follows tail.text rest tail.derives follows)) (ihTail fuel rest (by omega) follows)
  | orEnd =>
    intro fuel rest enough follows
    cases fuel with
    | zero => exact absurd enough (by decide)
    | succ fuel => exact children_end '|' _ _ rest (follows_ne .orMore rest follows '|' (by decide))
  | orNext head tail ihHead ihTail =>
    intro fuel rest enough follows
    simp only [Tree.text, slack, List.length_cons, List.length_append] at enough ihHead ihTail
    cases fuel with
    | zero => omega
    | succ fuel =>
      exact children_next '|' _ _ head.text tail.text rest head.built tail.built
        (ihHead fuel _ (by omega) (or_more_follows tail.text rest tail.derives follows)) (ihTail fuel rest (by omega) follows)
  | and head tail ihHead ihTail =>
    intro fuel rest enough follows
    simp only [Tree.text, slack, List.length_append] at enough ihHead ihTail
    cases fuel with
    | zero => omega
    | succ fuel =>
      exact sequence_reads _ _ _ head.text tail.text rest head.built tail.built
        (ihHead fuel _ (by omega) (and_more_follows tail.text rest tail.derives follows)) (ihTail fuel rest (by omega) follows)
  | andEnd =>
    intro fuel rest enough follows
    cases fuel with
    | zero => exact absurd enough (by decide)
    | succ fuel => exact children_end '&' _ _ rest (follows_ne .andMore rest follows '&' (by decide))
  | andNext head tail ihHead ihTail =>
    intro fuel rest enough follows
    simp only [Tree.text, slack, List.length_cons, List.length_append] at enough ihHead ihTail
    cases fuel with
    | zero => omega
    | succ fuel =>
      exact children_next '&' _ _ head.text tail.text rest head.built tail.built
        (ihHead fuel _ (by omega) (and_more_follows tail.text rest tail.derives follows)) (ihTail fuel rest (by omega) follows)
  | label name nonempty all =>
    intro fuel rest enough follows
    cases fuel with
    | zero => exact absurd enough (by simp [slack])
    | succ fuel => exact label_reads name rest nonempty all follows fuel
  | group inner ih =>
    intro fuel rest enough follows
    simp only [Tree.text, slack, List.length_cons, List.length_append] at enough ih
    cases fuel with
    | zero => omega
    | succ fuel =>
      refine group_reads inner.text rest fuel inner.built (ih fuel (')' :: rest) (by simp at enough; omega) ?_)
      intro ch member
      cases member
      exact List.mem_cons_self

theorem derived_accepted (text : Text) (derives : Derives category text) :
    ∀ fuel rest, 3 * text.length + slack category ≤ fuel → Follows category rest → AcceptsAt category fuel text rest := by
  obtain ⟨tree, rfl⟩ := Tree.of_derives category text derives
  intro fuel rest enough follows
  have read := tree_read_back tree fuel rest enough follows
  cases category <;> exact ⟨_, read⟩

end Parser

theorem parsed_derives (input : Text) (visibility : VisibilityExpr) (parsed : VisibilityExpr.parse input = .ok visibility) :
    input = [] ∨ Derives .expr input := by
  cases input with
  | nil => exact .inl rfl
  | cons first rest =>
    rw [VisibilityExpr.parse, if_neg (by simp)] at parsed
    split at parsed
    · rename_i expr left finished
      obtain ⟨taken, split, derives⟩ := (Parser.sound_at _).or _ expr left finished
      cases left with
      | nil =>
        rw [List.append_nil] at split
        exact .inr (.expr _ (split ▸ derives))
      | cons next left => cases parsed
    · cases parsed
    · cases parsed

theorem derived_parses (input : Text) (derives : Derives .expr input) :
    ∃ visibility, VisibilityExpr.parse input = .ok visibility := by
  obtain ⟨expr, finished⟩ := Parser.derived_accepted .expr input derives (VisibilityExpr.enoughFuel input) []
    (Nat.le_refl _) (fun ch member => nomatch member)
  rw [List.append_nil] at finished
  by_cases empty : input.isEmpty = true
  · exact ⟨_, by rw [VisibilityExpr.parse, if_pos empty]⟩
  · refine ⟨VisibilityExpr.ofExpr expr, ?_⟩
    rw [VisibilityExpr.parse, if_neg empty, finished]
    rfl

theorem parse_ok_iff_derives (input : Text) :
    ((∃ visibility, VisibilityExpr.parse input = .ok visibility) ↔ input = [] ∨ Derives .expr input) ∧
      ∀ visibility, VisibilityExpr.parse input = .ok visibility → ∀ ch ∈ input, Allowed ch := by
  refine ⟨⟨fun ⟨visibility, parsed⟩ => parsed_derives input visibility parsed, ?_⟩, ?_⟩
  · intro documented
    rcases documented with rfl | derives
    · exact ⟨_, rfl⟩
    · exact derived_parses input derives
  · intro visibility parsed
    rcases parsed_derives input visibility parsed with rfl | derives
    · simp
    · exact derived_chars_allowed .expr input derives

end OmryaKv.Secure
