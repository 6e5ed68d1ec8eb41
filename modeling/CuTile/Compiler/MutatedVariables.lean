import CuTile.Foundation.Fallible
import Mathlib.Data.Finset.Basic

/-! # Variables mutated in a block

The statements and expressions through which the compiler carries variables out of a
region, and `collect_mutated_variables_from_block`, which decides what is carried. The
reference is lexical: an assignment inside a block targets a variable declared outside it
unless a `let` or a loop pattern of the block declares the name around it.
-/

namespace CuTile.Source

open Fallible List

inductive PatGroup where
  | tuple
  | slice
  | struct
  | tupleStruct
  | alternatives
deriving DecidableEq, Repr

mutual

/-- A pattern; `name @ sub` is `bound`, and `unsupported` stands for every other form. -/
inductive Pat where
  | ident (name : String)
  | bound (name : String) (sub : Pat)
  | typed (pat : Pat)
  | paren (pat : Pat)
  | reference (pat : Pat)
  | group (kind : PatGroup) (elems : Pats)
  | wild
  | rest
  | unsupported

inductive Pats where
  | nil
  | cons (head : Pat) (tail : Pats)

end

deriving instance DecidableEq for Pat, Pats
deriving instance Repr for Pat, Pats

mutual

/-- An expression, as far as it can hold statements. `operation` is any other form the
compiler lowers operand by operand; `known` is what the compiler knows about a condition
when it lowers the `if`. -/
inductive Expr where
  | path (name : String)
  | operation (operands : Exprs)
  | assign (target value : Expr)
  | block (body : Stmts)
  | unsafeBlock (body : Stmts)
  | ifElse (known : Option Bool) (condition : Expr) (body : Stmts) (otherwise : Else)
  | forLoop (pat : Pat) (iterator : Expr) (body : Stmts)
  | whileLoop (condition : Expr) (body : Stmts)
  | loop (body : Stmts)

inductive Exprs where
  | nil
  | cons (head : Expr) (tail : Exprs)

/-- What can stand after `else`. -/
inductive Else where
  | none
  | block (body : Stmts)
  | elseIf (known : Option Bool) (condition : Expr) (body : Stmts) (otherwise : Else)

inductive Stmt where
  | letBind (pat : Pat) (init : Expr)
  | expr (expr : Expr)

inductive Stmts where
  | nil
  | cons (head : Stmt) (tail : Stmts)

end

deriving instance DecidableEq for Expr, Exprs, Else, Stmt, Stmts
deriving instance Repr for Expr, Exprs, Else, Stmt, Stmts

/-! ## What the compiler collects -/

inductive CollectError where
  /-- "Local pattern type not supported" -/
  | pattern (pat : Pat)
  /-- "LHS assign expression not implemented" -/
  | target (expr : Expr)
deriving DecidableEq, Repr

mutual

def Pat.collectBindings : Pat → Except CollectError (List String)
  | .ident name => .ok [name]
  | .bound name sub => do
    let names ← sub.collectBindings
    return name :: names
  | .typed pat | .paren pat | .reference pat => pat.collectBindings
  | .group _ elems => elems.collectBindings
  | .wild | .rest => .ok []
  | .unsupported => .error (.pattern .unsupported)

def Pats.collectBindings : Pats → Except CollectError (List String)
  | .nil => .ok []
  | .cons head tail => do
    let names ← head.collectBindings
    let others ← tail.collectBindings
    return names ++ others

end

def Expr.assignedName : Expr → Except CollectError String
  | .path name => .ok name
  | target => .error (.target target)

mutual

def Expr.collectMutated : Expr → Except CollectError (Finset String)
  | .assign target _ => do
    let name ← target.assignedName
    return {name}
  | .block body => body.collectMutated ∅
  | .forLoop pat _ body => do
    let names ← body.collectMutated ∅
    let loopVars ← pat.collectBindings
    return names \ loopVars.toFinset
  | .whileLoop _ body | .loop body => body.collectMutated ∅
  | .ifElse _ _ body otherwise => do
    let names ← body.collectMutated ∅
    let others ← otherwise.collectMutated
    return names ∪ others
  | .path _ | .operation _ | .unsafeBlock _ => .ok ∅

def Else.collectMutated : Else → Except CollectError (Finset String)
  | .none => .ok ∅
  | .block body => body.collectMutated ∅
  | .elseIf _ _ body otherwise => do
    let names ← body.collectMutated ∅
    let others ← otherwise.collectMutated
    return names ∪ others

/-- The loop of `collect_mutated_variables_from_block`, whose arms for loops repeat those
of the expressions. -/
def Stmts.collectMutated (localVars : Finset String) : Stmts → Except CollectError (Finset String)
  | .nil => .ok ∅
  | .cons (.letBind pat _) tail => do
    let names ← pat.collectBindings
    tail.collectMutated (localVars ∪ names.toFinset)
  | .cons (.expr expr) tail => do
    let inner ← expr.collectMutated
    let others ← tail.collectMutated localVars
    return (inner \ localVars) ∪ others

end

def collectMutatedVariablesFromBlock (block : Stmts) : Except CollectError (Finset String) :=
  block.collectMutated ∅

/-! ## What a block assigns -/

mutual

def Pat.names : Pat → List String
  | .ident name => [name]
  | .bound name sub => name :: sub.names
  | .typed pat | .paren pat | .reference pat => pat.names
  | .group _ elems => elems.names
  | .wild | .rest | .unsupported => []

def Pats.names : Pats → List String
  | .nil => []
  | .cons head tail => head.names ++ tail.names

end

/-- An assignment to a variable declared outside. It is hidden when it stands in an unsafe
block or in a subexpression: an initialiser, a right-hand side, a condition, an iterator
or an operand. -/
structure Assignment where
  name : String
  hidden : Bool
deriving DecidableEq, Repr

/-- Where an expression stands: as a statement, which may be hidden, or as an operand. The
compiler lowers an assignment as a statement only. -/
inductive Place where
  | statement (hidden : Bool)
  | operand
deriving DecidableEq, Repr

def Place.hidden : Place → Bool
  | .statement hidden => hidden
  | .operand => true

mutual

/-- The assignments in an expression to names that `scope` does not declare. -/
def Expr.assignments (scope : List String) (place : Place) : Expr → List Assignment
  | .path _ => []
  | .operation operands => operands.assignments scope
  | .assign target value =>
    match place, target with
    | .statement hidden, .path name =>
      (if name ∈ scope then [] else [⟨name, hidden⟩]) ++ value.assignments scope .operand
    | _, _ => []
  | .block body => body.assignments scope place.hidden
  | .unsafeBlock body => body.assignments scope true
  | .ifElse _ condition body otherwise =>
    condition.assignments scope .operand ++ body.assignments scope place.hidden ++
      otherwise.assignments scope place.hidden
  | .forLoop pat iterator body =>
    iterator.assignments scope .operand ++ body.assignments (pat.names ++ scope) place.hidden
  | .whileLoop condition body =>
    condition.assignments scope .operand ++ body.assignments scope place.hidden
  | .loop body => body.assignments scope place.hidden

def Exprs.assignments (scope : List String) : Exprs → List Assignment
  | .nil => []
  | .cons head tail => head.assignments scope .operand ++ tail.assignments scope

def Else.assignments (scope : List String) (hidden : Bool) : Else → List Assignment
  | .none => []
  | .block body => body.assignments scope hidden
  | .elseIf _ condition body otherwise =>
    condition.assignments scope .operand ++ body.assignments scope hidden ++
      otherwise.assignments scope hidden

def Stmts.assignments (scope : List String) (hidden : Bool) : Stmts → List Assignment
  | .nil => []
  | .cons (.letBind pat init) tail =>
    init.assignments scope .operand ++ tail.assignments (pat.names ++ scope) hidden
  | .cons (.expr expr) tail =>
    expr.assignments scope (.statement hidden) ++ tail.assignments scope hidden

end

/-- The variables declared outside a block that the block assigns. -/
def Stmts.Assigns (block : Stmts) (name : String) : Prop :=
  ∃ hidden, ⟨name, hidden⟩ ∈ block.assignments [] false

mutual

theorem Pat.names_of_collect : (pat : Pat) → {names : List String} →
    pat.collectBindings = .ok names → pat.names = names
  | .ident name, _, collects => by
    cases collects
    rfl
  | .bound name sub, _, collects => by
    simp only [Pat.collectBindings, bind_eq_ok_iff, pure_eq_ok_iff] at collects
    rcases collects with ⟨names, collects, rfl⟩
    rw [Pat.names, sub.names_of_collect collects]
  | .typed pat, _, collects | .paren pat, _, collects | .reference pat, _, collects => by
    exact pat.names_of_collect collects
  | .group _ elems, _, collects => elems.names_of_collect collects
  | .wild, _, collects | .rest, _, collects => by
    cases collects
    rfl

theorem Pats.names_of_collect : (pats : Pats) → {names : List String} →
    pats.collectBindings = .ok names → pats.names = names
  | .nil, _, collects => by
    cases collects
    rfl
  | .cons head tail, _, collects => by
    simp only [Pats.collectBindings, bind_eq_ok_iff, pure_eq_ok_iff] at collects
    rcases collects with ⟨names, first, _, second, rfl⟩
    rw [Pats.names, head.names_of_collect first, tail.names_of_collect second]

end

/-! ### Scopes -/

section Scopes

variable {assignment : Assignment}

mutual

/-- A declared name hides exactly its own assignments. -/
theorem Expr.mem_assignments (scope : List String) (place : Place) : (expr : Expr) →
    (assignment ∈ expr.assignments scope place ↔
      assignment ∈ expr.assignments [] place ∧ assignment.name ∉ scope)
  | .path _ => by simp [Expr.assignments]
  | .operation operands => operands.mem_assignments scope
  | .assign target value => by
    have inner := value.mem_assignments scope .operand
    unfold Expr.assignments
    split
    · simp only [mem_append, inner]
      split_ifs with declared <;> grind
    · simp
  | .block body | .loop body => body.mem_assignments scope place.hidden
  | .unsafeBlock body => body.mem_assignments scope true
  | .ifElse _ condition body otherwise => by
    simp only [Expr.assignments, mem_append, condition.mem_assignments scope,
      body.mem_assignments scope, otherwise.mem_assignments scope]
    tauto
  | .forLoop pat iterator body => by
    simp only [Expr.assignments, mem_append, iterator.mem_assignments scope,
      body.mem_assignments (pat.names ++ scope), body.mem_assignments (pat.names ++ [])]
    simp
    tauto
  | .whileLoop condition body => by
    simp only [Expr.assignments, mem_append, condition.mem_assignments scope,
      body.mem_assignments scope]
    tauto

theorem Exprs.mem_assignments (scope : List String) : (exprs : Exprs) →
    (assignment ∈ exprs.assignments scope ↔
      assignment ∈ exprs.assignments [] ∧ assignment.name ∉ scope)
  | .nil => by simp [Exprs.assignments]
  | .cons head tail => by
    simp only [Exprs.assignments, mem_append, head.mem_assignments scope,
      tail.mem_assignments scope]
    tauto

theorem Else.mem_assignments (scope : List String) (hidden : Bool) : (otherwise : Else) →
    (assignment ∈ otherwise.assignments scope hidden ↔
      assignment ∈ otherwise.assignments [] hidden ∧ assignment.name ∉ scope)
  | .none => by simp [Else.assignments]
  | .block body => body.mem_assignments scope hidden
  | .elseIf _ condition body otherwise => by
    simp only [Else.assignments, mem_append, condition.mem_assignments scope,
      body.mem_assignments scope, otherwise.mem_assignments scope]
    tauto

theorem Stmts.mem_assignments (scope : List String) (hidden : Bool) : (stmts : Stmts) →
    (assignment ∈ stmts.assignments scope hidden ↔
      assignment ∈ stmts.assignments [] hidden ∧ assignment.name ∉ scope)
  | .nil => by simp [Stmts.assignments]
  | .cons (.letBind pat init) tail => by
    simp only [Stmts.assignments, mem_append, init.mem_assignments scope,
      tail.mem_assignments (pat.names ++ scope), tail.mem_assignments (pat.names ++ [])]
    simp
    tauto
  | .cons (.expr expr) tail => by
    simp only [Stmts.assignments, mem_append, expr.mem_assignments scope,
      tail.mem_assignments scope]
    tauto

end

mutual

theorem Expr.hidden_of_mem (scope : List String) (place : Place) (isHidden : place.hidden = true) :
    (expr : Expr) → assignment ∈ expr.assignments scope place → assignment.hidden = true
  | .path _, member => by simp [Expr.assignments] at member
  | .operation operands, member => operands.hidden_of_mem scope member
  | .assign target value, member => by
    have inner := value.hidden_of_mem scope .operand rfl
    unfold Expr.assignments at member
    split at member
    · rcases mem_append.mp member with own | deeper
      · split_ifs at own
        · cases own
        · rw [mem_singleton.mp own]
          exact isHidden
      · exact inner deeper
    · cases member
  | .block body, member | .loop body, member => by
    rw [Expr.assignments, isHidden] at member
    exact body.hidden_of_mem scope member
  | .unsafeBlock body, member => body.hidden_of_mem scope member
  | .ifElse _ condition body otherwise, member => by
    simp only [Expr.assignments, isHidden, mem_append] at member
    rcases member with (first | second) | third
    · exact condition.hidden_of_mem scope .operand rfl first
    · exact body.hidden_of_mem scope second
    · exact otherwise.hidden_of_mem scope third
  | .forLoop pat iterator body, member => by
    simp only [Expr.assignments, isHidden, mem_append] at member
    rcases member with first | second
    · exact iterator.hidden_of_mem scope .operand rfl first
    · exact body.hidden_of_mem _ second
  | .whileLoop condition body, member => by
    simp only [Expr.assignments, isHidden, mem_append] at member
    rcases member with first | second
    · exact condition.hidden_of_mem scope .operand rfl first
    · exact body.hidden_of_mem scope second

theorem Exprs.hidden_of_mem (scope : List String) : (exprs : Exprs) →
    assignment ∈ exprs.assignments scope → assignment.hidden = true
  | .nil, member => by simp [Exprs.assignments] at member
  | .cons head tail, member => by
    rcases mem_append.mp member with first | second
    · exact head.hidden_of_mem scope .operand rfl first
    · exact tail.hidden_of_mem scope second

theorem Else.hidden_of_mem (scope : List String) : (otherwise : Else) →
    assignment ∈ otherwise.assignments scope true → assignment.hidden = true
  | .none, member => by simp [Else.assignments] at member
  | .block body, member => body.hidden_of_mem scope member
  | .elseIf _ condition body otherwise, member => by
    simp only [Else.assignments, mem_append] at member
    rcases member with (first | second) | third
    · exact condition.hidden_of_mem scope .operand rfl first
    · exact body.hidden_of_mem scope second
    · exact otherwise.hidden_of_mem scope third

theorem Stmts.hidden_of_mem (scope : List String) : (stmts : Stmts) →
    assignment ∈ stmts.assignments scope true → assignment.hidden = true
  | .nil, member => by simp [Stmts.assignments] at member
  | .cons (.letBind pat init) tail, member => by
    rcases mem_append.mp member with first | second
    · exact init.hidden_of_mem scope .operand rfl first
    · exact tail.hidden_of_mem _ second
  | .cons (.expr expr) tail, member => by
    rcases mem_append.mp member with first | second
    · exact expr.hidden_of_mem scope _ rfl first
    · exact tail.hidden_of_mem scope second

end

end Scopes

/-! ## Collection finds the visible assignments -/

section Collection

variable {name : String} {names : Finset String}

theorem Expr.not_visible_operand {scope : List String} (expr : Expr) :
    ⟨name, false⟩ ∉ expr.assignments scope .operand := by
  intro member
  cases expr.hidden_of_mem scope .operand rfl member

mutual

theorem Expr.mem_collect : (expr : Expr) → {names : Finset String} →
    expr.collectMutated = .ok names →
    (name ∈ names ↔ ⟨name, false⟩ ∈ expr.assignments [] (.statement false))
  | .path _, _, collects => by
    cases collects
    simp [Expr.assignments]
  | .operation operands, _, collects => by
    cases collects
    simp only [Finset.notMem_empty, false_iff]
    intro member
    cases operands.hidden_of_mem [] member
  | .assign target value, _, collects => by
    simp only [Expr.collectMutated, bind_eq_ok_iff, pure_eq_ok_iff] at collects
    rcases collects with ⟨_, isTarget, rfl⟩
    cases target with
    | path =>
      cases isTarget
      simp [Expr.assignments, value.not_visible_operand]
    | _ => cases isTarget
  | .block body, _, collects | .loop body, _, collects => body.mem_collect [] collects
  | .unsafeBlock body, _, collects => by
    cases collects
    simp only [Finset.notMem_empty, false_iff]
    intro member
    cases body.hidden_of_mem [] member
  | .ifElse _ condition body otherwise, _, collects => by
    simp only [Expr.collectMutated, bind_eq_ok_iff, pure_eq_ok_iff] at collects
    rcases collects with ⟨names, inBody, _, inElse, rfl⟩
    simp [Expr.assignments, Place.hidden, body.mem_collect [] inBody, otherwise.mem_collect inElse,
      condition.not_visible_operand]
  | .forLoop pat iterator body, _, collects => by
    simp only [Expr.collectMutated, bind_eq_ok_iff, pure_eq_ok_iff] at collects
    rcases collects with ⟨names, inBody, _, inPat, rfl⟩
    simp only [Expr.assignments, Place.hidden, mem_append, iterator.not_visible_operand,
      false_or]
    rw [body.mem_assignments (pat.names ++ []), ← body.mem_collect [] inBody,
      pat.names_of_collect inPat]
    simp
  | .whileLoop condition body, _, collects => by
    simp only [Expr.assignments, Place.hidden, mem_append, condition.not_visible_operand,
      false_or]
    exact body.mem_collect [] collects

theorem Else.mem_collect : (otherwise : Else) → {names : Finset String} →
    otherwise.collectMutated = .ok names →
    (name ∈ names ↔ ⟨name, false⟩ ∈ otherwise.assignments [] false)
  | .none, _, collects => by
    cases collects
    simp [Else.assignments]
  | .block body, _, collects => body.mem_collect [] collects
  | .elseIf _ condition body otherwise, _, collects => by
    simp only [Else.collectMutated, bind_eq_ok_iff, pure_eq_ok_iff] at collects
    rcases collects with ⟨names, inBody, _, inElse, rfl⟩
    simp [Else.assignments, body.mem_collect [] inBody, otherwise.mem_collect inElse,
      condition.not_visible_operand]

theorem Stmts.mem_collect (scope : List String) : (stmts : Stmts) → {names : Finset String} →
    stmts.collectMutated scope.toFinset = .ok names →
    (name ∈ names ↔ ⟨name, false⟩ ∈ stmts.assignments scope false)
  | .nil, _, collects => by
    cases collects
    simp [Stmts.assignments]
  | .cons (.letBind pat init) tail, _, collects => by
    simp only [Stmts.collectMutated, bind_eq_ok_iff] at collects
    rcases collects with ⟨bound, inPat, inTail⟩
    have extended : scope.toFinset ∪ bound.toFinset = (pat.names ++ scope).toFinset := by
      ext name
      simp [pat.names_of_collect inPat, or_comm]
    rw [extended] at inTail
    simp only [Stmts.assignments, mem_append, init.not_visible_operand, false_or]
    exact tail.mem_collect _ inTail
  | .cons (.expr expr) tail, _, collects => by
    simp only [Stmts.collectMutated, bind_eq_ok_iff, pure_eq_ok_iff] at collects
    rcases collects with ⟨_, inExpr, _, inTail, rfl⟩
    simp only [Stmts.assignments, mem_append, Finset.mem_union, Finset.mem_sdiff,
      mem_toFinset, expr.mem_assignments scope, expr.mem_collect inExpr,
      tail.mem_collect scope inTail]

end

/-- The collected set is the set of assigned outer variables exactly when every variable
with a hidden assignment has a visible one too. -/
theorem collectMutated_exact_iff {block : Stmts}
    (collects : collectMutatedVariablesFromBlock block = .ok names) :
    (∀ name, name ∈ names ↔ block.Assigns name) ↔
      ∀ name, ⟨name, true⟩ ∈ block.assignments [] false →
        ⟨name, false⟩ ∈ block.assignments [] false := by
  have visible : ∀ name, name ∈ names ↔ ⟨name, false⟩ ∈ block.assignments [] false :=
    fun name => block.mem_collect [] collects
  constructor
  · intro exact name isHidden
    exact (visible name).mp ((exact name).mpr ⟨true, isHidden⟩)
  · intro shown name
    rw [visible]
    constructor
    · exact fun member => ⟨false, member⟩
    · rintro ⟨_ | _, member⟩
      · exact member
      · exact shown name member

end Collection

/-- The body of `for i in 0..n { unsafe { x = i; } }`. -/
def unsafeUpdate : Stmts :=
  .cons (.expr (.unsafeBlock (.cons (.expr (.assign (.path "x") (.path "i"))) .nil))) .nil

/-- The update in the unsafe block is not carried. -/
theorem collectMutated_misses_unsafe :
    collectMutatedVariablesFromBlock unsafeUpdate = .ok ∅ ∧ unsafeUpdate.Assigns "x" :=
  ⟨rfl, true, by decide⟩

/-- The same with `x = y;` before the unsafe block. -/
def visibleUpdate : Stmts :=
  .cons (.expr (.assign (.path "x") (.path "y"))) unsafeUpdate

theorem collectMutated_exact_iff_visible :
    collectMutatedVariablesFromBlock visibleUpdate = .ok {"x"} ∧
      ∀ name, name ∈ ({"x"} : Finset String) ↔ visibleUpdate.Assigns name := by
  have collects : collectMutatedVariablesFromBlock visibleUpdate = .ok {"x"} := by decide
  refine ⟨collects, (collectMutated_exact_iff collects).mpr fun name member => ?_⟩
  have isX : name = "x" := by
    simpa [visibleUpdate, unsafeUpdate, Stmts.assignments, Expr.assignments] using member
  subst isX
  decide

end CuTile.Source
