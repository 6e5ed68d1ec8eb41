import CuTile.Compiler.TypeAliases

/-! # The definitions that names in types are replaced by

`normalize_type_aliases_in` expands type aliases through one map for all modules, and
replaces const paths by the consts visible from the module that spelled the type.
-/

namespace CuTile.TypeNames

open List

mutual

inductive UseTree where
  | path (ident : String) (tree : UseTree)
  | name (ident : String)
  | rename (ident rename : String)
  | glob
  | group (trees : UseTrees)

inductive UseTrees where
  | nil
  | cons (head : UseTree) (tail : UseTrees)

end

/-- A module as it is indexed: submodules are flattened into it, in the order of its items. -/
structure Module where
  name : String
  aliases : List ItemType
  consts : List ItemConst
  /-- The names of functions, structs and traits. -/
  others : List String
  uses : UseTrees
  /-- Whether an impl in it is annotated with `cuda_tile::ty`. -/
  isCore : Bool

namespace Module

/-- A later alias of a name replaces an earlier one. -/
def typeAlias (module : Module) (name : String) : Option ItemType :=
  module.aliases.reverse.find? fun item => item.ident = name

/-- A module that defines a const twice is rejected when it is indexed. -/
def const (module : Module) (name : String) : Option ItemConst :=
  module.consts.find? fun item => item.ident = name

def names (module : Module) : List String :=
  module.others ++ module.aliases.map ItemType.ident ++ module.consts.map ItemConst.ident

end Module

/-- The modules by name: a later one replaces an earlier one. -/
def items : List Module → List Module
  | [] => []
  | module :: rest =>
    if rest.any fun other => other.name = module.name then items rest else module :: items rest

def findModule (modules : List Module) (name : String) : Option Module :=
  (items modules).find? fun module => module.name = name

section Imports

variable (modules : List Module)

mutual

/-- `process_use_tree`: local names with the module each comes from, in the order of
insertion. Of the path before a leaf only the last segment is read. -/
def UseTree.process (source : Option String) : UseTree → List (String × String)
  | .path ident tree => tree.process (some ident)
  | .name ident => source.toList.map fun source => (ident, source)
  | .rename _ rename => source.toList.map fun source => (rename, source)
  | .glob => source.toList.flatMap fun source =>
    (findModule modules source).toList.flatMap fun module =>
      module.names.map fun name => (name, source)
  | .group trees => trees.process source

def UseTrees.process (source : Option String) : UseTrees → List (String × String)
  | .nil => []
  | .cons head tail => head.process source ++ tail.process source

end

def importedFrom (module name : String) : Option String :=
  (findModule modules module).bind fun module =>
    (module.uses.process modules none).reverse.lookup name

def coreModule : Option String :=
  (modules.reverse.find? Module.isCore).map Module.name

/-- The scope chain: the module's own item, an explicit import, core, and last a definition
on which all modules that have one agree. -/
def resolve {α : Type} [DecidableEq α] (pick : Module → Option α) (callingModule name : String) :
    Option α :=
  let inModule module := (findModule modules module).bind pick
  let anywhere := match (items modules).filterMap pick with
    | [] => none
    | first :: definitions => if definitions.all (· = first) then some first else none
  inModule callingModule <|> (importedFrom modules callingModule name).bind inModule <|>
    (coreModule modules).bind inModule <|> anywhere

def resolveConst (callingModule name : String) : Option ItemConst :=
  resolve modules (fun module => module.const name) callingModule name

/-- The type alias that the scope chain of consts finds. -/
def visibleAlias (callingModule name : String) : Option ItemType :=
  resolve modules (fun module => module.typeAlias name) callingModule name

/-- The flat map of all type aliases: the last indexed definition wins. -/
def typeAliases (name : String) : Option ItemType :=
  (modules.flatMap Module.aliases).reverse.find? fun item => item.ident = name

def consts (name : String) : Option ItemConst :=
  (modules.flatMap Module.consts).reverse.find? fun item => item.ident = name

/-- The error that `normalize_type_aliases_in` reports. -/
def normalizeError (tokens : Arg → String) (ty : Ty) (error : AliasError) : String :=
  let type := tokens (.type ty)
  let msg := error.message tokens
  s!"failed to normalize type `{type}`: {msg}"

def normalizeTypeAliasesIn (tokens : Arg → String) (fuel : Nat) (ty : Ty)
    (module : Option String) : Logged String Use Ty :=
  let constsFor := match module with
    | some module => resolveConst modules module
    | none => consts modules
  Logged.mapError (normalizeError tokens ty) do
    let normalized ← normalizeTypeAliases (typeAliases modules) fuel ty
    normalizeConstPathsInType constsFor normalized

end Imports

/-! ## Uses of visible definitions -/

/-- The definition taken is the one visible from `module`, and the identifier is no generic
parameter. The last segment of a longer path is not the generic of that name. -/
def Use.Visible (modules : List Module) (module : String) (generics : List String) : Use → Prop
  | .typeAlias isSingleSegment name item =>
    (isSingleSegment = true → name ∉ generics) ∧ visibleAlias modules module name = some item
  | .const name item => name ∉ generics ∧ resolveConst modules module name = some item

/-- No alias of another module takes a name from the one that is visible, and no alias or
visible scalar const has the name of a generic parameter. -/
structure Scoped (modules : List Module) (module : String) (generics : List String) : Prop where
  visible : ∀ name item, typeAliases modules name = some item →
    visibleAlias modules module name = some item
  aliases : ∀ name ∈ generics, typeAliases modules name = none
  consts : ∀ name ∈ generics, ∀ item, resolveConst modules module name = some item →
    item.scalarExpr = none

section Uses

variable {modules : List Module} {module : String} {generics : List String}

theorem Scoped.all_visible (inScope : Scoped modules module generics) (tokens : Arg → String)
    (fuel : Nat) (ty : Ty) :
    (normalizeTypeAliasesIn modules tokens fuel ty (some module)).All
      (Use.Visible modules module generics) := by
  have visibleAliases : ∀ isSingleSegment name item, typeAliases modules name = some item →
      Use.Visible modules module generics (.typeAlias isSingleSegment name item) := by
    intro _ name item isAlias
    refine ⟨fun _ isGeneric => ?_, inScope.visible name item isAlias⟩
    rw [inScope.aliases name isGeneric] at isAlias
    cases isAlias
  have visibleConsts : ∀ name item, resolveConst modules module name = some item →
      item.scalarExpr.isSome → Use.Visible modules module generics (.const name item) := by
    intro name item isConst isScalar
    refine ⟨fun isGeneric => ?_, isConst⟩
    rw [inScope.consts name isGeneric item isConst] at isScalar
    cases isScalar
  exact Logged.All.bind ((expansionAll visibleAliases fuel).inner [] ty)
    (normalizeConstPathsInType_all visibleConsts)

theorem mem_log_of_typeAliases {name : String} {item : ItemType} (tokens : Arg → String)
    (isAlias : typeAliases modules name = some item) :
    .typeAlias true name item ∈
      (normalizeTypeAliasesIn modules tokens 2 (.path (.ident name)) (some module)).log := by
  have own : ∃ rest, normalizePathType (typeAliases modules) 1 [] (.ident name) =
      Logged.record (.typeAlias true name item) >>= rest := by
    rw [normalizePathType.eq_def]
    simp only [Path.ident, Path.lastIdent, isAlias, not_mem_nil, if_false,
      Path.singleSegmentIdent, Option.isSome_some]
    exact ⟨_, rfl⟩
  obtain ⟨rest, isRecord⟩ := own
  have expands : normalizeTypeAliases (typeAliases modules) 2 (.path (.ident name)) =
      Logged.record (.typeAlias true name item) >>= rest := isRecord
  simp only [normalizeTypeAliasesIn, Logged.mapError, expands]
  apply Logged.mem_log_bind
  apply Logged.mem_log_bind
  exact mem_singleton_self _

theorem mem_log_of_resolveConst {name : String} {item : ItemConst} (tokens : Arg → String)
    (isConst : resolveConst modules module name = some item) (isScalar : item.scalarExpr.isSome) :
    .const name item ∈ (normalizeTypeAliasesIn modules tokens 2
      (.array (.other "infer" .nil) (.path (.ident name))) (some module)).log := by
  obtain ⟨expr, isExpr⟩ := Option.isSome_iff_exists.mp isScalar
  have replaced : constReplacement (resolveConst modules module) name =
      some (Logged.record (.const name item) >>= fun _ => pure expr) := by
    simp only [constReplacement, isConst, Option.bind_some, isExpr, Option.map_some]
  have visited : Expr.visit (constReplacement (resolveConst modules module)) (.path (.ident name)) =
      Logged.record (.const name item) >>= fun _ => pure expr := by
    rw [Expr.visit]
    simp only [Path.ident, Path.singleSegmentIdent, Option.bind_some, replaced]
  have expands : normalizeTypeAliases (typeAliases modules) 2
      (.array (.other "infer" .nil) (.path (.ident name))) =
      pure (.array (.other "infer" .nil) (.path (.ident name))) := rfl
  simp only [normalizeTypeAliasesIn, Logged.mapError, expands, Logged.pure_bind,
    normalizeConstPathsInType, Ty.visit, Args.visit, visited]
  apply Logged.mem_log_bind
  apply Logged.mem_log_bind
  exact mem_singleton_self _

end Uses

/-! ## An unrelated module -/

mutual

/-- Whether a path in the tree goes through `module`. -/
def UseTree.Mentions (module : String) : UseTree → Prop
  | .path ident tree => ident = module ∨ tree.Mentions module
  | .name _ | .rename _ _ | .glob => False
  | .group trees => trees.Mentions module

def UseTrees.Mentions (module : String) : UseTrees → Prop
  | .nil => False
  | .cons head tail => head.Mentions module ∨ tail.Mentions module

end

/-- `extra` is a new module that is neither core nor used by `module`. Its aliases and
consts have names of generic parameters or of items of `module` itself. -/
structure Unrelated (modules : List Module) (module : String) (generics : List String)
    (extra : Module) : Prop where
  isNew : ∀ other ∈ modules, other.name ≠ extra.name
  notOwn : module ≠ extra.name
  notCore : extra.isCore = false
  notUsed : ∀ own, findModule modules module = some own → ¬ own.uses.Mentions extra.name
  aliases : ∀ item ∈ extra.aliases, item.ident ∈ generics ∨
    ((findModule modules module).bind fun own => own.typeAlias item.ident).isSome
  consts : ∀ item ∈ extra.consts, item.ident ∈ generics ∨
    ((findModule modules module).bind fun own => own.const item.ident).isSome

variable {modules : List Module} {module : Module}

theorem mem_of_mem_items (member : module ∈ items modules) : module ∈ modules := by
  induction modules with
  | nil => cases member
  | cons _ _ induction =>
    rw [items] at member
    split at member
    · exact mem_cons_of_mem _ (induction member)
    · rcases mem_cons.mp member with rfl | inRest
      · exact mem_cons_self
      · exact mem_cons_of_mem _ (induction inRest)

theorem mem_of_findModule {name : String} (isFound : findModule modules name = some module) :
    module ∈ modules :=
  mem_of_mem_items (mem_of_find?_eq_some isFound)

theorem typeAliases_isSome {name : String} (member : module ∈ modules)
    (isAlias : (module.typeAlias name).isSome) : (typeAliases modules name).isSome := by
  simp only [Module.typeAlias, typeAliases, find?_isSome, mem_reverse] at isAlias ⊢
  obtain ⟨item, isItem, named⟩ := isAlias
  exact ⟨item, mem_flatMap.mpr ⟨module, member, isItem⟩, named⟩

section Own

variable {α : Type} [DecidableEq α] {modules : List Module} {module name : String}

theorem resolve_of_own {pick : Module → Option α} {item : α}
    (isOwn : (findModule modules module).bind pick = some item) :
    resolve modules pick module name = some item := by
  simp only [resolve, isOwn]
  rfl

end Own

section Insert

variable {before after : List Module} {extra : Module} {module : String} {generics : List String}

/-- A module of a new name takes its own place among the items. -/
theorem items_insert (isNew : ∀ other ∈ before ++ after, other.name ≠ extra.name) :
    ∃ left right, items (before ++ extra :: after) = left ++ extra :: right ∧
      items (before ++ after) = left ++ right := by
  induction before with
  | nil =>
    refine ⟨[], items after, ?_, rfl⟩
    rw [nil_append, items, if_neg]
    · rfl
    · simp only [any_eq_true, decide_eq_true_eq, not_exists, not_and]
      exact isNew
  | cons head before induction =>
    obtain ⟨left, right, inserted, original⟩ :=
      induction fun other member => isNew other (mem_cons_of_mem _ member)
    have headNew : extra.name ≠ head.name := (isNew head mem_cons_self).symm
    have sameAny : ((before ++ extra :: after).any fun other => other.name = head.name) =
        (before ++ after).any fun other => other.name = head.name := by
      simp [headNew]
    simp only [cons_append, items, sameAny, inserted, original]
    split
    · exact ⟨left, right, rfl, rfl⟩
    · exact ⟨head :: left, right, rfl, rfl⟩

variable {name : String}

section

variable (isNew : ∀ other ∈ before ++ after, other.name ≠ extra.name)

include isNew

theorem findModule_insert (otherName : name ≠ extra.name) :
    findModule (before ++ extra :: after) name = findModule (before ++ after) name := by
  obtain ⟨_, _, inserted, original⟩ := items_insert isNew
  have notFound : decide (extra.name = name) = false := by simp [otherName.symm]
  simp only [findModule, inserted, original, find?_append, find?_cons, notFound]

theorem filterMap_items_insert {α : Type} {pick : Module → Option α}
    (notPicked : pick extra = none) :
    (items (before ++ extra :: after)).filterMap pick =
      (items (before ++ after)).filterMap pick := by
  obtain ⟨_, _, inserted, original⟩ := items_insert isNew
  simp only [inserted, original, filterMap_append, filterMap_cons, notPicked]

/-- A lookup in a module does not see one that has no such item. -/
theorem findModule_bind_insert {α : Type} {pick : Module → Option α}
    (notPicked : pick extra = none) (name : String) :
    (findModule (before ++ extra :: after) name).bind pick =
      (findModule (before ++ after) name).bind pick := by
  by_cases isExtra : name = extra.name
  · obtain ⟨_, _, _, _⟩ := items_insert isNew
    have absent : findModule (before ++ after) name = none := by
      simp only [findModule, find?_eq_none, decide_eq_true_eq, isExtra]
      intro other member
      exact isNew other (mem_of_mem_items member)
    rw [absent, Option.bind_none]
    cases isFound : findModule (before ++ extra :: after) name with
    | none => rfl
    | some found =>
      have foundName : found.name = extra.name := by
        have named := find?_some isFound
        rw [decide_eq_true_eq] at named
        rw [named, isExtra]
      have member := mem_of_findModule isFound
      simp only [mem_append, mem_cons] at member
      rcases member with inBefore | rfl | inAfter
      · exact absurd foundName (isNew found (mem_append_left _ inBefore))
      · exact notPicked
      · exact absurd foundName (isNew found (mem_append_right _ inAfter))
  · rw [findModule_insert isNew isExtra]

end

mutual

theorem UseTree.process_insert (isNew : ∀ other ∈ before ++ after, other.name ≠ extra.name)
    (source : Option String) (otherSource : source ≠ some extra.name) (tree : UseTree)
    (notMentioned : ¬ tree.Mentions extra.name) :
    tree.process (before ++ extra :: after) source = tree.process (before ++ after) source := by
  match tree with
  | .path ident tree =>
    rw [UseTree.Mentions, not_or] at notMentioned
    exact tree.process_insert isNew (some ident) (by simpa using notMentioned.1) notMentioned.2
  | .name _ => rfl
  | .rename _ _ => rfl
  | .glob =>
    cases source with
    | none => rfl
    | some source =>
      have otherName : source ≠ extra.name := by simpa using otherSource
      simp only [UseTree.process, Option.toList_some, flatMap_cons, flatMap_nil,
        findModule_insert isNew otherName]
  | .group trees => exact trees.process_insert isNew source otherSource notMentioned

theorem UseTrees.process_insert (isNew : ∀ other ∈ before ++ after, other.name ≠ extra.name)
    (source : Option String) (otherSource : source ≠ some extra.name) (trees : UseTrees)
    (notMentioned : ¬ trees.Mentions extra.name) :
    trees.process (before ++ extra :: after) source = trees.process (before ++ after) source := by
  match trees with
  | .nil => rfl
  | .cons head tail =>
    rw [UseTrees.Mentions, not_or] at notMentioned
    simp only [UseTrees.process, head.process_insert isNew source otherSource notMentioned.1,
      tail.process_insert isNew source otherSource notMentioned.2]

end

theorem importedFrom_insert (unrelated : Unrelated (before ++ after) module generics extra)
    (name : String) :
    importedFrom (before ++ extra :: after) module name =
      importedFrom (before ++ after) module name := by
  simp only [importedFrom, findModule_insert unrelated.isNew unrelated.notOwn]
  cases isOwn : findModule (before ++ after) module with
  | none => rfl
  | some own =>
    simp only [Option.bind_some, own.uses.process_insert unrelated.isNew none (by simp)
      (unrelated.notUsed own isOwn)]

theorem coreModule_insert (notCore : extra.isCore = false) :
    coreModule (before ++ extra :: after) = coreModule (before ++ after) := by
  simp [coreModule, find?_append, notCore]

theorem resolve_insert {α : Type} [DecidableEq α] {pick : Module → Option α}
    (unrelated : Unrelated (before ++ after) module generics extra) (notPicked : pick extra = none)
    (name : String) :
    resolve (before ++ extra :: after) pick module name =
      resolve (before ++ after) pick module name := by
  simp only [resolve, findModule_bind_insert unrelated.isNew notPicked,
    importedFrom_insert unrelated, coreModule_insert unrelated.notCore,
    filterMap_items_insert unrelated.isNew notPicked]

theorem typeAliases_insert_of_none (notDefined : extra.typeAlias name = none) :
    typeAliases (before ++ extra :: after) name = typeAliases (before ++ after) name := by
  simp only [Module.typeAlias] at notDefined
  simp [typeAliases, find?_append, notDefined]

/-- In scoped modules a name of an own alias is mapped to that alias. -/
theorem Scoped.typeAliases_of_own {modules : List Module} {item : ItemType}
    (inScope : Scoped modules module generics)
    (isOwn : ((findModule modules module).bind fun own => own.typeAlias name) = some item) :
    typeAliases modules name = some item := by
  obtain ⟨own, isFound, isAlias⟩ := Option.bind_eq_some_iff.mp isOwn
  have defined := typeAliases_isSome (mem_of_findModule isFound) (by rw [isAlias]; rfl)
  obtain ⟨flat, isFlat⟩ := Option.isSome_iff_exists.mp defined
  have isVisible := inScope.visible name flat isFlat
  rw [visibleAlias, resolve_of_own isOwn] at isVisible
  rw [isFlat, isVisible]

theorem typeAliases_insert (unrelated : Unrelated (before ++ after) module generics extra)
    (inScope : Scoped (before ++ after) module generics)
    (inScopeAfter : Scoped (before ++ extra :: after) module generics) :
    typeAliases (before ++ extra :: after) = typeAliases (before ++ after) := by
  funext name
  cases isExtra : extra.typeAlias name with
  | none => exact typeAliases_insert_of_none isExtra
  | some item =>
    have named : item.ident = name := by simpa using find?_some isExtra
    have member := mem_reverse.mp (mem_of_find?_eq_some isExtra)
    rcases unrelated.aliases item member with isGeneric | isOwn
    · rw [named] at isGeneric
      rw [inScope.aliases name isGeneric, inScopeAfter.aliases name isGeneric]
    · rw [named] at isOwn
      obtain ⟨_, isOwn⟩ := Option.isSome_iff_exists.mp isOwn
      rw [inScope.typeAliases_of_own isOwn, inScopeAfter.typeAliases_of_own]
      rw [findModule_insert unrelated.isNew unrelated.notOwn, isOwn]

/-- The name of a generic parameter has no replacement. -/
theorem Scoped.constReplacement_eq_none {modules : List Module}
    (inScope : Scoped modules module generics) (isGeneric : name ∈ generics) :
    constReplacement (resolveConst modules module) name = none := by
  rw [constReplacement]
  cases isConst : resolveConst modules module name with
  | none => rfl
  | some item => simp [inScope.consts name isGeneric item isConst]

section

variable (unrelated : Unrelated (before ++ after) module generics extra)
  (inScope : Scoped (before ++ after) module generics)
  (inScopeAfter : Scoped (before ++ extra :: after) module generics)

include unrelated inScope inScopeAfter

theorem constReplacement_insert :
    constReplacement (resolveConst (before ++ extra :: after) module) =
      constReplacement (resolveConst (before ++ after) module) := by
  funext name
  have same : resolveConst (before ++ extra :: after) module name =
      resolveConst (before ++ after) module name →
      constReplacement (resolveConst (before ++ extra :: after) module) name =
        constReplacement (resolveConst (before ++ after) module) name := by
    intro same
    rw [constReplacement, constReplacement, same]
  cases isExtra : extra.const name with
  | none => exact same (resolve_insert unrelated isExtra name)
  | some item =>
    have named : item.ident = name := by simpa using find?_some isExtra
    rcases unrelated.consts item (mem_of_find?_eq_some isExtra) with isGeneric | isOwn
    · rw [named] at isGeneric
      rw [inScope.constReplacement_eq_none isGeneric,
        inScopeAfter.constReplacement_eq_none isGeneric]
    · rw [named] at isOwn
      obtain ⟨_, isOwn⟩ := Option.isSome_iff_exists.mp isOwn
      apply same
      rw [resolveConst, resolveConst, resolve_of_own isOwn]
      apply resolve_of_own
      rw [findModule_insert unrelated.isNew unrelated.notOwn, isOwn]

theorem normalizeTypeAliasesIn_insert (tokens : Arg → String) (fuel : Nat) (ty : Ty) :
    normalizeTypeAliasesIn (before ++ extra :: after) tokens fuel ty (some module) =
      normalizeTypeAliasesIn (before ++ after) tokens fuel ty (some module) := by
  simp only [normalizeTypeAliasesIn, normalizeConstPathsInType,
    typeAliases_insert unrelated inScope inScopeAfter,
    constReplacement_insert unrelated inScope inScopeAfter]

end

end Insert

/-- The names in all types of a function are replaced by visible definitions exactly when
its module is scoped, and then a module that defines only names which the generics or the
own module resolve does not change the result. -/
theorem normalized_names_visible_iff (tokens : Arg → String) (modules : List Module)
    (module : String) (generics : List String) :
    ((∀ fuel ty, (normalizeTypeAliasesIn modules tokens fuel ty (some module)).All
        (Use.Visible modules module generics)) ↔
      Scoped modules module generics) ∧
    (Scoped modules module generics → ∀ before after extra, modules = before ++ after →
      Unrelated modules module generics extra →
      Scoped (before ++ extra :: after) module generics → ∀ fuel ty,
        normalizeTypeAliasesIn (before ++ extra :: after) tokens fuel ty (some module) =
          normalizeTypeAliasesIn modules tokens fuel ty (some module)) := by
  refine ⟨⟨fun visible => ⟨?_, ?_, ?_⟩, fun inScope => inScope.all_visible tokens⟩, ?_⟩
  · intro name item isAlias
    exact (visible 2 _ _ (mem_log_of_typeAliases tokens isAlias)).2
  · intro name isGeneric
    cases isAlias : typeAliases modules name with
    | none => rfl
    | some =>
      have isVisible := visible 2 _ _ (mem_log_of_typeAliases tokens isAlias)
      exact absurd isGeneric (isVisible.1 rfl)
  · intro name isGeneric item isConst
    cases isScalar : item.scalarExpr with
    | none => rfl
    | some =>
      have replaced := mem_log_of_resolveConst tokens isConst (by rw [isScalar]; rfl)
      exact absurd isGeneric (visible 2 _ _ replaced).1
  · rintro inScope before after extra rfl unrelated inScopeAfter fuel ty
    exact normalizeTypeAliasesIn_insert unrelated inScope inScopeAfter tokens fuel ty

/-- A module with aliases of scalar types and `i32` consts, and no `use`. -/
def plainModule (name : String) (aliases consts : List (String × String)) : Module where
  name
  aliases := aliases.map fun (ident, ty) => ⟨"", ident, [], .path (.ident ty)⟩
  consts := consts.map fun (ident, digits) => ⟨"", ident, .path (.ident "i32"), .int digits⟩
  others := []
  uses := .nil
  isCore := false

/-- `Tensor<elem, {[length]}>` -/
def tensorType (elem : String) (length : Expr) : Ty :=
  .path (.mk [] .nil "Tensor" .angle (.cons (.type (.path (.ident elem)))
    (.cons (.const (.compound "array" (.cons (.const length) .nil))) .nil)))

theorem plainModule_unrelated {own extra : String} {aliases consts : List (String × String)}
    {ownAliases ownConsts : List (String × String)} {generics : List String}
    (otherName : own ≠ extra)
    (resolvedAliases : ∀ item ∈ (plainModule extra aliases consts).aliases,
      item.ident ∈ generics ∨
        ((plainModule own ownAliases ownConsts).typeAlias item.ident).isSome)
    (resolvedConsts : ∀ item ∈ (plainModule extra aliases consts).consts,
      item.ident ∈ generics ∨ ((plainModule own ownAliases ownConsts).const item.ident).isSome) :
    Unrelated [plainModule own ownAliases ownConsts] own generics
      (plainModule extra aliases consts) := by
  have isOwn : findModule [plainModule own ownAliases ownConsts] own =
      some (plainModule own ownAliases ownConsts) := by
    simp [findModule, items, plainModule]
  constructor
  · intro other member
    rw [mem_singleton.mp member]
    exact otherName
  · exact otherName
  · rfl
  · intro found isFound
    rw [isOwn, Option.some_inj] at isFound
    rw [← isFound]
    exact id
  · rw [isOwn]
    exact resolvedAliases
  · rw [isOwn]
    exact resolvedConsts

/-- The kernel's own `N` is 128, with and without a helper whose `N` is 64. -/
theorem normalized_names_visible_iff_own_const :
    let kernel := plainModule "kernel" [] [("N", "128")]
    let helper := plainModule "helper" [] [("N", "64")]
    (∀ fuel ty, normalizeTypeAliasesIn [kernel, helper] (fun _ => "") fuel ty (some "kernel") =
      normalizeTypeAliasesIn [kernel] (fun _ => "") fuel ty (some "kernel")) ∧
    (normalizeTypeAliasesIn [kernel] (fun _ => "") 20 (tensorType "E" (.path (.ident "N")))
      (some "kernel")).result = .ok (tensorType "E" (.int "128")) := by
  intro kernel helper
  have inScope : Scoped [kernel] "kernel" ["E"] := by
    refine ⟨fun name item isAlias => ?_, by decide, by decide⟩
    cases isAlias
  have inScopeAfter : Scoped [kernel, helper] "kernel" ["E"] := by
    refine ⟨fun name item isAlias => ?_, by decide, by decide⟩
    cases isAlias
  have unrelated : Unrelated [kernel] "kernel" ["E"] helper :=
    plainModule_unrelated (by decide) (by decide) (by decide)
  exact ⟨(normalized_names_visible_iff (fun _ => "") [kernel] "kernel" ["E"]).2 inScope [kernel] []
    helper rfl unrelated inScopeAfter, rfl⟩

/-- The kernel's own `T` becomes `f64` when a module with another `T` is indexed after it,
and the const generic `N` of a function becomes the `N` of another module. -/
theorem unrelated_module_changes_names :
    let kernel := plainModule "kernel" [("T", "f32")] []
    let helper := plainModule "helper" [("T", "f64")] [("N", "64")]
    let type := tensorType "T" (.path (.ident "N"))
    Unrelated [kernel] "kernel" ["N"] helper ∧
    (normalizeTypeAliasesIn [kernel] (fun _ => "") 20 type (some "kernel")).result =
      .ok (tensorType "f32" (.path (.ident "N"))) ∧
    (normalizeTypeAliasesIn [kernel, helper] (fun _ => "") 20 type (some "kernel")).result =
      .ok (tensorType "f64" (.int "64")) := by
  exact ⟨plainModule_unrelated (by decide) (by decide) (by decide), rfl, rfl⟩

end CuTile.TypeNames
