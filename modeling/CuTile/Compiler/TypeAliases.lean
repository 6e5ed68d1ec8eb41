import CuTile.Foundation.Logged

/-! # Names inside types

Expansion of type aliases and replacement of const paths, as `type_aliases.rs` does them.
The log keeps which definition was taken for which identifier.
-/

namespace CuTile.TypeNames

/-- The kinds of types with one element that alias expansion descends into. -/
inductive Wrapper where
  | reference (isMut : Bool)
  | ptr (isMut : Bool)
  | slice
  | paren
  | group
deriving DecidableEq, Repr

inductive Brackets where
  | none
  | angle
  | parenthesized
deriving DecidableEq, Repr

mutual

/-- A path by its last segment; `outer` holds the arguments of the segments before it and
of a qualified self type, which counts as a qualifier. -/
inductive Path where
  | mk (qualifiers : List String) (outer : Args) (name : String) (brackets : Brackets)
      (args : Args)

inductive Ty where
  | path (path : Path)
  | wrapped (wrapper : Wrapper) (elem : Ty)
  | tuple (elems : Tys)
  | array (elem : Ty) (length : Expr)
  /-- A form that alias expansion leaves as it is. -/
  | other (form : String) (parts : Args)

inductive Tys where
  | nil
  | cons (head : Ty) (tail : Tys)

inductive Expr where
  | path (path : Path)
  | bool (value : Bool)
  | int (digits : String)
  | unary (operator : String) (operand : Expr)
  /-- Any other form, with the types and expressions in it. -/
  | compound (form : String) (parts : Args)

/-- A generic argument, or another part of a type or an expression. -/
inductive Arg where
  | type (ty : Ty)
  | const (expr : Expr)
  /-- A form that alias expansion leaves as it is. -/
  | other (form : String) (parts : Args)

inductive Args where
  | nil
  | cons (head : Arg) (tail : Args)

end

deriving instance DecidableEq for Path, Ty, Tys, Expr, Arg, Args
deriving instance Repr for Path, Ty, Tys, Expr, Arg, Args

def Args.toList : Args → List Arg
  | .nil => []
  | .cons head tail => head :: tail.toList

namespace Path

def ident (name : String) : Path :=
  .mk [] .nil name .none .nil

def lastIdent : Path → String
  | .mk _ _ name _ _ => name

/-- `single_segment_ident` and `single_segment_expr_ident`. -/
def singleSegmentIdent : Path → Option String
  | .mk [] _ name _ _ => some name
  | .mk (_ :: _) _ _ _ _ => none

end Path

inductive GenericParam where
  | type (name : String)
  | const (name : String)
  | lifetime
deriving DecidableEq, Repr

/-- A `type` item; `header` is what precedes the keyword. -/
structure ItemType where
  header : String
  ident : String
  generics : List GenericParam
  ty : Ty
deriving DecidableEq, Repr

structure ItemConst where
  header : String
  ident : String
  ty : Ty
  expr : Expr
deriving DecidableEq, Repr

namespace ItemConst

/-- `const_item_scalar_expr`. -/
def scalarExpr (item : ItemConst) : Option Expr :=
  match item.ty with
  | .path path =>
    if path.lastIdent = "bool" then
      match item.expr with
      | .bool _ => some item.expr
      | _ => none
    else if path.lastIdent ∈ ["i32", "i64", "u32", "u64"] then
      match item.expr with
      | .int _ | .unary _ (.int _) => some item.expr
      | _ => none
    else none
  | _ => none

end ItemConst

/-- `outOfFuel` is of the model only. -/
inductive AliasError where
  | recursionLimit
  | recursive (name : String)
  | parenthesizedArguments (ident : String)
  | argumentCount (ident : String) (expected count : Nat)
  | expectedType (ident param : String) (got : Arg)
  | expectedConst (ident param : String) (got : Arg)
  | outOfFuel
deriving DecidableEq, Repr

/-- The texts; `tokens` prints an argument. -/
def AliasError.message (tokens : Arg → String) : AliasError → String
  | .recursionLimit => "type alias expansion exceeded recursion limit"
  | .recursive name => s!"recursive type alias expansion involving `{name}`"
  | .parenthesizedArguments ident =>
    s!"type alias `{ident}` uses unsupported parenthesized generic arguments"
  | .argumentCount ident expected count =>
    s!"type alias `{ident}` expects {expected} generic argument(s), got {count}"
  | .expectedType ident param got =>
    s!"type alias `{ident}` expected type argument for `{param}`, got `{tokens got}`"
  | .expectedConst ident param got =>
    s!"type alias `{ident}` expected const argument for `{param}`, got `{tokens got}`"
  | .outOfFuel => "out of fuel"

/-- A definition taken for an identifier. -/
inductive Use where
  | typeAlias (isSingleSegment : Bool) (name : String) (item : ItemType)
  | const (name : String) (item : ItemConst)
deriving DecidableEq, Repr

abbrev NormalizeM := Logged AliasError Use

/-! ## Replacing paths in expressions -/

section Visit

variable (replace : String → Option (NormalizeM Expr))

mutual

/-- The visitors of `ConstPathNormalizer` and `substitute_expr_in_place`: a replacement is
not visited again. -/
def Expr.visit : Expr → NormalizeM Expr
  | .path path =>
    match path.singleSegmentIdent.bind replace with
    | some replacement => replacement
    | none => do
      let path ← path.visit
      return .path path
  | .bool value => pure (.bool value)
  | .int digits => pure (.int digits)
  | .unary operator operand => do
    let operand ← operand.visit
    return .unary operator operand
  | .compound form parts => do
    let parts ← parts.visit
    return .compound form parts

def Path.visit : Path → NormalizeM Path
  | .mk qualifiers outer name brackets args => do
    let outer ← outer.visit
    let args ← args.visit
    return .mk qualifiers outer name brackets args

def Ty.visit : Ty → NormalizeM Ty
  | .path path => do
    let path ← path.visit
    return .path path
  | .wrapped wrapper elem => do
    let elem ← elem.visit
    return .wrapped wrapper elem
  | .tuple elems => do
    let elems ← elems.visit
    return .tuple elems
  | .array elem length => do
    let elem ← elem.visit
    let length ← length.visit
    return .array elem length
  | .other form parts => do
    let parts ← parts.visit
    return .other form parts

def Tys.visit : Tys → NormalizeM Tys
  | .nil => pure .nil
  | .cons head tail => do
    let head ← head.visit
    let tail ← tail.visit
    return .cons head tail

def Arg.visit : Arg → NormalizeM Arg
  | .type ty => do
    let ty ← ty.visit
    return .type ty
  | .const expr => do
    let expr ← expr.visit
    return .const expr
  | .other form parts => do
    let parts ← parts.visit
    return .other form parts

def Args.visit : Args → NormalizeM Args
  | .nil => pure .nil
  | .cons head tail => do
    let head ← head.visit
    let tail ← tail.visit
    return .cons head tail

end

end Visit

/-- How `ConstPathNormalizer` replaces a name. -/
def constReplacement (consts : String → Option ItemConst) (name : String) :
    Option (NormalizeM Expr) :=
  (consts name).bind fun item => item.scalarExpr.map fun replacement => do
    Logged.record (.const name item)
    return replacement

def normalizeConstPathsInType (consts : String → Option ItemConst) (ty : Ty) : NormalizeM Ty :=
  ty.visit (constReplacement consts)

/-! ## Alias expansion -/

/-- Maps in which the last insertion of a name counts. -/
structure AliasSubstitution where
  types : List (String × Ty)
  consts : List (String × Expr)

namespace AliasSubstitution

def empty : AliasSubstitution :=
  ⟨[], []⟩

def type (subst : AliasSubstitution) (name : String) : Option Ty :=
  subst.types.lookup name

def const (subst : AliasSubstitution) (name : String) : Option Expr :=
  subst.consts.lookup name

end AliasSubstitution

/-- One formal parameter of a type alias and its argument. -/
def bindFormal (ident : String) (subst : AliasSubstitution) :
    GenericParam → Arg → Except AliasError AliasSubstitution
  | .type param, .type ty => .ok { subst with types := (param, ty) :: subst.types }
  | .const param, .const expr => .ok { subst with consts := (param, expr) :: subst.consts }
  | .const param, .type (.path path) =>
    .ok { subst with consts := (param, .path path) :: subst.consts }
  | .type param, got => .error (.expectedType ident param got)
  | .const param, got => .error (.expectedConst ident param got)
  | .lifetime, _ => .ok subst

def buildAliasSubstitution (item : ItemType) (brackets : Brackets) (args : Args) :
    Except AliasError AliasSubstitution :=
  let bindAll (actualArgs : List Arg) : Except AliasError AliasSubstitution :=
    let formals := item.generics.filter (· ≠ .lifetime)
    if formals.length ≠ actualArgs.length then
      .error (.argumentCount item.ident formals.length actualArgs.length)
    else
      (formals.zip actualArgs).foldlM (fun subst pair => bindFormal item.ident subst pair.1 pair.2)
        .empty
  match brackets with
  | .angle => bindAll args.toList
  | .none => bindAll []
  | .parenthesized => .error (.parenthesizedArguments item.ident)

def substituteExprInPlace (subst : AliasSubstitution) (expr : Expr) : NormalizeM Expr :=
  expr.visit fun name => (subst.const name).map pure

def Arg.ofConstExpr : Expr → Arg
  | .path path => .type (.path path)
  | expr => .const expr

def maxAliasExpansionDepth : Nat :=
  64

def Tys.mapM (transform : Ty → NormalizeM Ty) : Tys → NormalizeM Tys
  | .nil => pure .nil
  | .cons head tail => do
    let head ← transform head
    let tail ← tail.mapM transform
    return .cons head tail

def Args.mapM (transform : Arg → NormalizeM Arg) : Args → NormalizeM Args
  | .nil => pure .nil
  | .cons head tail => do
    let head ← transform head
    let tail ← tail.mapM transform
    return .cons head tail

/-- Substitution in the arguments of the last segment, if they are in angle brackets. -/
def Path.mapArgsM (transform : Arg → NormalizeM Arg) : Path → NormalizeM Path
  | .mk qualifiers outer name .angle args => do
    let args ← args.mapM transform
    return .mk qualifiers outer name .angle args
  | path => pure path

def Path.aliasSubstitution (item : ItemType) : Path → Except AliasError AliasSubstitution
  | .mk _ _ _ brackets args => buildAliasSubstitution item brackets args

/-- The const that an argument written as a type stands for. -/
def AliasSubstitution.constFor (subst : AliasSubstitution) : Ty → Option Expr
  | .path path => path.singleSegmentIdent.bind subst.const
  | _ => none

section Aliases

variable (aliases : String → Option ItemType)

mutual

/-- The source has no `fuel`: it bounds the depth of the calls. -/
def normalizeTypeAliasesInner (fuel : Nat) (stack : List String) (ty : Ty) : NormalizeM Ty :=
  match fuel with
  | 0 => .fail .outOfFuel
  | fuel + 1 =>
    if maxAliasExpansionDepth < stack.length then
      .fail .recursionLimit
    else match ty with
      | .path path => normalizePathType fuel stack path
      | .wrapped wrapper elem => do
        let elem ← normalizeTypeAliasesInner fuel stack elem
        return .wrapped wrapper elem
      | .tuple elems => do
        let elems ← elems.mapM (normalizeTypeAliasesInner fuel stack)
        return .tuple elems
      | .array elem length => do
        let elem ← normalizeTypeAliasesInner fuel stack elem
        return .array elem length
      | .other form parts => pure (.other form parts)

/-- The lookup is by the last segment of the path. -/
def normalizePathType (fuel : Nat) (stack : List String) (path : Path) : NormalizeM Ty :=
  match fuel with
  | 0 => .fail .outOfFuel
  | fuel + 1 =>
    match aliases path.lastIdent with
    | some item =>
      if path.lastIdent ∈ stack then
        .fail (.recursive path.lastIdent)
      else do
        Logged.record (.typeAlias path.singleSegmentIdent.isSome path.lastIdent item)
        let subst ← Logged.ofExcept (path.aliasSubstitution item)
        let substituted ← substituteType fuel (path.lastIdent :: stack) subst item.ty
        normalizeTypeAliasesInner fuel (path.lastIdent :: stack) substituted
    | none => do
      let path ← path.mapArgsM (substituteGenericArg fuel stack .empty)
      return .path path

def substituteType (fuel : Nat) (stack : List String) (subst : AliasSubstitution) (ty : Ty) :
    NormalizeM Ty :=
  match fuel with
  | 0 => .fail .outOfFuel
  | fuel + 1 =>
    match ty with
    | .path path =>
      match path.singleSegmentIdent.bind subst.type with
      | some replacement => normalizeTypeAliasesInner fuel stack replacement
      | none => do
        let path ← path.mapArgsM (substituteGenericArg fuel stack subst)
        normalizeTypeAliasesInner fuel stack (.path path)
    | .wrapped wrapper elem => do
      let elem ← substituteType fuel stack subst elem
      return .wrapped wrapper elem
    | .tuple elems => do
      let elems ← elems.mapM (substituteType fuel stack subst)
      return .tuple elems
    | .array elem length => do
      let elem ← substituteType fuel stack subst elem
      let length ← substituteExprInPlace subst length
      return .array elem length
    | .other form parts => pure (.other form parts)

def substituteGenericArg (fuel : Nat) (stack : List String) (subst : AliasSubstitution)
    (arg : Arg) : NormalizeM Arg :=
  match fuel with
  | 0 => .fail .outOfFuel
  | fuel + 1 =>
    match arg with
    | .type ty =>
      match subst.constFor ty with
      | some expr => pure (Arg.ofConstExpr expr)
      | none => do
        let ty ← substituteType fuel stack subst ty
        return .type ty
    | .const expr => do
      let expr ← substituteExprInPlace subst expr
      return .const expr
    | .other form parts => pure (.other form parts)

end

/-- Expansion starts with an empty stack. -/
def normalizeTypeAliases (fuel : Nat) (ty : Ty) : NormalizeM Ty :=
  normalizeTypeAliasesInner aliases fuel [] ty

end Aliases

/-! ## What is logged -/

section All

open Logged

variable {property : Use → Prop}

section Visit

variable {replace : String → Option (NormalizeM Expr)}

/-- What every replacement logs. -/
def ReplacesAll (property : Use → Prop) (replace : String → Option (NormalizeM Expr)) : Prop :=
  ∀ name replacement, replace name = some replacement → All property replacement

mutual

theorem Expr.visit_all (holds : ReplacesAll property replace) (expr : Expr) :
    All property (expr.visit replace) := by
  match expr with
  | .path path =>
    rw [Expr.visit]
    split
    · rename_i replaced
      obtain ⟨name, -, isReplaced⟩ := Option.bind_eq_some_iff.mp replaced
      exact holds name _ isReplaced
    · exact .bind (path.visit_all holds) fun _ => .pure _
  | .bool _ => exact .pure _
  | .int _ => exact .pure _
  | .unary _ operand => exact .bind (operand.visit_all holds) fun _ => .pure _
  | .compound _ parts => exact .bind (parts.visit_all holds) fun _ => .pure _

theorem Path.visit_all (holds : ReplacesAll property replace) (path : Path) :
    All property (path.visit replace) := by
  match path with
  | .mk _ outer _ _ args =>
    exact .bind (outer.visit_all holds) fun _ => .bind (args.visit_all holds) fun _ => .pure _

theorem Ty.visit_all (holds : ReplacesAll property replace) (ty : Ty) :
    All property (ty.visit replace) := by
  match ty with
  | .path path => exact .bind (path.visit_all holds) fun _ => .pure _
  | .wrapped _ elem => exact .bind (elem.visit_all holds) fun _ => .pure _
  | .tuple elems => exact .bind (elems.visit_all holds) fun _ => .pure _
  | .array elem length =>
    exact .bind (elem.visit_all holds) fun _ => .bind (length.visit_all holds) fun _ => .pure _
  | .other _ parts => exact .bind (parts.visit_all holds) fun _ => .pure _

theorem Tys.visit_all (holds : ReplacesAll property replace) (tys : Tys) :
    All property (tys.visit replace) := by
  match tys with
  | .nil => exact .pure _
  | .cons head tail =>
    exact .bind (head.visit_all holds) fun _ => .bind (tail.visit_all holds) fun _ => .pure _

theorem Arg.visit_all (holds : ReplacesAll property replace) (arg : Arg) :
    All property (arg.visit replace) := by
  match arg with
  | .type ty => exact .bind (ty.visit_all holds) fun _ => .pure _
  | .const expr => exact .bind (expr.visit_all holds) fun _ => .pure _
  | .other _ parts => exact .bind (parts.visit_all holds) fun _ => .pure _

theorem Args.visit_all (holds : ReplacesAll property replace) (args : Args) :
    All property (args.visit replace) := by
  match args with
  | .nil => exact .pure _
  | .cons head tail =>
    exact .bind (head.visit_all holds) fun _ => .bind (tail.visit_all holds) fun _ => .pure _

end

end Visit

theorem substituteExprInPlace_all (subst : AliasSubstitution) (expr : Expr) :
    All property (substituteExprInPlace subst expr) := by
  apply Expr.visit_all
  intro _ _ isReplaced
  obtain ⟨_, -, rfl⟩ := Option.map_eq_some_iff.mp isReplaced
  exact .pure _

theorem Tys.mapM_all {transform : Ty → NormalizeM Ty} (holds : ∀ ty, All property (transform ty))
    (tys : Tys) : All property (tys.mapM transform) := by
  match tys with
  | .nil => exact .pure _
  | .cons head tail =>
    exact .bind (holds head) fun _ => .bind (tail.mapM_all holds) fun _ => .pure _

theorem Args.mapM_all {transform : Arg → NormalizeM Arg}
    (holds : ∀ arg, All property (transform arg)) (args : Args) :
    All property (args.mapM transform) := by
  match args with
  | .nil => exact .pure _
  | .cons head tail =>
    exact .bind (holds head) fun _ => .bind (tail.mapM_all holds) fun _ => .pure _

theorem Path.mapArgsM_all {transform : Arg → NormalizeM Arg}
    (holds : ∀ arg, All property (transform arg)) (path : Path) :
    All property (path.mapArgsM transform) := by
  unfold Path.mapArgsM
  split
  · exact .bind (Args.mapM_all holds _) fun _ => .pure _
  · exact .pure _

/-- What all four functions log with one amount of fuel. -/
structure ExpansionAll (property : Use → Prop) (aliases : String → Option ItemType) (fuel : Nat) :
    Prop where
  inner : ∀ stack ty, All property (normalizeTypeAliasesInner aliases fuel stack ty)
  path : ∀ stack path, All property (normalizePathType aliases fuel stack path)
  type : ∀ stack subst ty, All property (substituteType aliases fuel stack subst ty)
  arg : ∀ stack subst arg, All property (substituteGenericArg aliases fuel stack subst arg)

section Expansion

variable {aliases : String → Option ItemType} {fuel : Nat}

section

variable (smaller : ExpansionAll property aliases fuel)

include smaller

theorem ExpansionAll.inner_succ (stack : List String) (ty : Ty) :
    All property (normalizeTypeAliasesInner aliases (fuel + 1) stack ty) := by
  rw [normalizeTypeAliasesInner.eq_def]
  dsimp only
  split
  · exact .fail _
  · cases ty with
    | path path => exact smaller.path stack path
    | wrapped _ elem => exact .bind (smaller.inner stack elem) fun _ => .pure _
    | tuple elems => exact .bind (Tys.mapM_all (smaller.inner stack) elems) fun _ => .pure _
    | array elem => exact .bind (smaller.inner stack elem) fun _ => .pure _
    | other => exact .pure _

theorem ExpansionAll.path_succ
    (holds : ∀ isSingleSegment name item, aliases name = some item →
      property (.typeAlias isSingleSegment name item)) (stack : List String) (path : Path) :
    All property (normalizePathType aliases (fuel + 1) stack path) := by
  rw [normalizePathType.eq_def]
  dsimp only
  split
  · rename_i item isAlias
    split
    · exact .fail _
    · refine .bind (.record (holds _ _ _ isAlias)) fun _ => ?_
      refine .bind (.ofExcept _) fun subst => ?_
      refine .bind (smaller.type _ subst _) fun substituted => ?_
      exact smaller.inner _ substituted
  · exact .bind (Path.mapArgsM_all (smaller.arg stack _) path) fun _ => .pure _

theorem ExpansionAll.type_succ (stack : List String) (subst : AliasSubstitution) (ty : Ty) :
    All property (substituteType aliases (fuel + 1) stack subst ty) := by
  rw [substituteType.eq_def]
  dsimp only
  cases ty with
  | path path =>
    dsimp only
    split
    · exact smaller.inner _ _
    · exact .bind (Path.mapArgsM_all (smaller.arg stack _) path) fun _ => smaller.inner _ _
  | wrapped _ elem => exact .bind (smaller.type stack subst elem) fun _ => .pure _
  | tuple elems => exact .bind (Tys.mapM_all (smaller.type stack subst) elems) fun _ => .pure _
  | array elem length =>
    exact .bind (smaller.type stack subst elem) fun _ =>
      .bind (substituteExprInPlace_all subst length) fun _ => .pure _
  | other => exact .pure _

theorem ExpansionAll.arg_succ (stack : List String) (subst : AliasSubstitution) (arg : Arg) :
    All property (substituteGenericArg aliases (fuel + 1) stack subst arg) := by
  rw [substituteGenericArg.eq_def]
  dsimp only
  cases arg with
  | type ty =>
    dsimp only
    split
    · exact .pure _
    · exact .bind (smaller.type stack subst ty) fun _ => .pure _
  | const expr => exact .bind (substituteExprInPlace_all subst expr) fun _ => .pure _
  | other => exact .pure _

end

theorem expansionAll (holds : ∀ isSingleSegment name item, aliases name = some item →
    property (.typeAlias isSingleSegment name item)) (fuel : Nat) :
    ExpansionAll property aliases fuel := by
  induction fuel with
  | zero =>
    constructor
    · intro stack ty
      exact .fail _
    · intro stack path
      exact .fail _
    · intro stack subst ty
      exact .fail _
    · intro stack subst arg
      exact .fail _
  | succ _ smaller =>
    exact ⟨smaller.inner_succ, smaller.path_succ holds, smaller.type_succ, smaller.arg_succ⟩

end Expansion

/-- Const paths are the only uses that const normalisation logs. -/
theorem normalizeConstPathsInType_all {consts : String → Option ItemConst}
    (holds : ∀ name item, consts name = some item → item.scalarExpr.isSome →
      property (.const name item)) (ty : Ty) :
    All property (normalizeConstPathsInType consts ty) := by
  apply Ty.visit_all
  intro name _ isReplaced
  obtain ⟨item, isConst, scalar⟩ := Option.bind_eq_some_iff.mp isReplaced
  obtain ⟨_, isScalar, rfl⟩ := Option.map_eq_some_iff.mp scalar
  exact .bind (.record (holds name item isConst (by rw [isScalar]; rfl))) fun _ => .pure _

end All

end CuTile.TypeNames
