import CuTile.Foundation.Fallible
import CuTile.Foundation.Interning
import CuTile.IR.Attribute

/-! # Emission

What the functions of the writer do to the tables of a module: they append bytes, intern
strings, types and debug attributes, add constants and note the attribute of each
operation. A function that does only this is an `Emission`, a program of such steps.
-/

namespace CuTile.Bytecode

open IR List

def varint64 (value : Nat) : Bytes := varint (value % 2 ^ 64)

/-! ## Tables -/

/-- `TypeManager::get_or_insert`: what a type depends on is registered first. -/
def registerType (types : List Ty) (type : Ty) : List Ty :=
  if type ∈ types then types
  else
    type.dependencies.attach.foldl (fun types other => registerType types other.1) types ++
      [type]
termination_by sizeOf type
decreasing_by exact Ty.sizeOf_dependency other.2

/-- A debug attribute by its fields, which are the indices of strings and of other
attributes, lines and columns. -/
inductive DebugAttribute where
  | unknown
  | compileUnit (file : Nat)
  | file (name directory : Nat)
  | lexicalBlock (parent file line column : Nat)
  | loc (scope file line column : Nat)
  | subprogram (file line name linkageName compileUnit scopeLine : Nat)
  | callSite (callee caller : Nat)
deriving DecidableEq, Repr

namespace DebugAttribute

def tag : DebugAttribute → DebugTag
  | unknown => .unknown
  | compileUnit .. => .diCompileUnit
  | file .. => .diFile
  | lexicalBlock .. => .diLexicalBlock
  | loc .. => .diLoc
  | subprogram .. => .diSubprogram
  | callSite .. => .callSite

def fields : DebugAttribute → List Nat
  | unknown => []
  | compileUnit unitFile => [unitFile]
  | file name directory => [name, directory]
  | lexicalBlock parent inFile line column => [parent, inFile, line, column]
  | loc scope inFile line column => [scope, inFile, line, column]
  | subprogram inFile line name linkageName inUnit scopeLine =>
    [inFile, line, name, linkageName, inUnit, scopeLine]
  | callSite callee caller => [callee, caller]

def encode (attr : DebugAttribute) : Bytes :=
  attr.tag.code :: attr.fields.flatMap varint64

end DebugAttribute

/-- `DebugInfoCollector`: the interned attributes by their bytes, and for each function the
attribute of the function followed by those of its operations. -/
structure DebugInfo where
  attrs : List Bytes
  perFunction : List (List Nat)
  currentScope : Nat

structure WriterCtx where
  strings : List String
  types : List Ty
  constants : List Bytes
  debug : DebugInfo
  /-- The type indices given out so far, which the source does not keep. -/
  typeUses : List (Ty × Nat)

def WriterCtx.empty : WriterCtx := ⟨[], [], [], ⟨[], [], 0⟩, []⟩

/-! ## Programs -/

inductive Command where
  | bytes (data : Bytes)
  | string (text : String)
  | type (type : Ty)
  | constant (data : Bytes)
  | debugAttribute (attr : DebugAttribute)
  | currentScope
  | setScope (id : Nat)
  /-- A list of attributes for a new function, with that of the function. -/
  | beginList (id : Nat)
  /-- The attribute of the next operation of the last function. -/
  | appendId (id : Nat)

namespace Command

def output : Command → Bytes
  | bytes data => data
  | _ => []

/-- The index a command gives back, or the scope. -/
def answer (ctx : WriterCtx) : Command → Nat
  | string text => (Interning.intern ctx.strings text).idxOf text
  | type ty => (registerType ctx.types ty).idxOf ty
  | constant _ => ctx.constants.length
  | debugAttribute attr =>
    (Interning.intern ctx.debug.attrs attr.encode).idxOf attr.encode + 1
  | currentScope => ctx.debug.currentScope
  | beginList _ => ctx.debug.perFunction.length + 1
  | bytes _ | setScope _ | appendId _ => 0

def update (ctx : WriterCtx) : Command → WriterCtx
  | string text => { ctx with strings := Interning.intern ctx.strings text }
  | type ty =>
    let types := registerType ctx.types ty
    { ctx with types := types, typeUses := ctx.typeUses ++ [(ty, types.idxOf ty)] }
  | constant data => { ctx with constants := ctx.constants ++ [data] }
  | debugAttribute attr =>
    { ctx with debug := { ctx.debug with attrs := Interning.intern ctx.debug.attrs attr.encode } }
  | setScope id => { ctx with debug := { ctx.debug with currentScope := id } }
  | beginList id =>
    { ctx with debug := { ctx.debug with perFunction := ctx.debug.perFunction ++ [[id]] } }
  | appendId id =>
    { ctx with debug := { ctx.debug with
        perFunction := ctx.debug.perFunction.modifyLast (· ++ [id]) } }
  | bytes _ | currentScope => ctx

end Command

inductive Emission (α : Type) where
  | done (value : α)
  | fail (message : String)
  | step (command : Command) (next : Nat → Emission α)

namespace Emission

variable {α β : Type}

def andThen : Emission α → (α → Emission β) → Emission β
  | done value, continuation => continuation value
  | fail message, _ => fail message
  | step command next, continuation => step command fun answer =>
    (next answer).andThen continuation

instance : Monad Emission where
  pure := done
  bind := andThen

def perform (command : Command) : Emission Nat := step command done

def emitBytes (data : Bytes) : Emission Unit := step (.bytes data) fun _ => done ()

def emitVarint (value : Nat) : Emission Unit := emitBytes (varint64 value)

def internString (text : String) : Emission Nat := perform (.string text)

def internType (type : Ty) : Emission Nat := perform (.type type)

def addConstant (data : Bytes) : Emission Nat := perform (.constant data)

def internAttribute (attr : DebugAttribute) : Emission Nat := perform (.debugAttribute attr)

def forEach (program : β → Emission α) : List β → Emission (List α)
  | [] => pure []
  | item :: rest => do
    let value ← program item
    let values ← forEach program rest
    return value :: values

/-- What a program leaves: its value, the bytes it appended and the tables. -/
structure Written (α : Type) where
  value : α
  bytes : Bytes
  ctx : WriterCtx

def run : Emission α → WriterCtx → Except String (Written α)
  | done value, ctx => .ok ⟨value, [], ctx⟩
  | fail message, _ => .error message
  | step command next, ctx => do
    let rest ← (next (command.answer ctx)).run (command.update ctx)
    return { rest with bytes := command.output ++ rest.bytes }

end Emission

/-! ## What the tables keep -/

theorem registerType_eq (types : List Ty) (type : Ty) :
    registerType types type =
      if type ∈ types then types else type.dependencies.foldl registerType types ++ [type] := by
  rw [registerType]
  split_ifs
  · rfl
  · rw [foldl_attach]

/-- A type table that was filled by registering types. -/
abbrev TypesClosed (types : List Ty) : Prop := Interning.Closed Ty.dependencies types

/-- What registering some types does: what is there stays, the types are there, and
everything a type depends on is in front of it. Nothing larger than the types is new. -/
structure Registered (before after : List Ty) (types : List Ty) : Prop where
  grows : before <+: after
  member : ∀ type ∈ types, type ∈ after
  new : ∀ entry ∈ after, entry ∈ before ∨ ∃ type ∈ types, sizeOf entry ≤ sizeOf type
  closed : TypesClosed before → TypesClosed after
  distinct : before.Nodup → after.Nodup

theorem Registered.foldl {others : List Ty}
    (each : ∀ other ∈ others, ∀ before, Registered before (registerType before other) [other])
    (before : List Ty) : Registered before (others.foldl registerType before) others := by
  induction others generalizing before with
  | nil =>
    exact ⟨prefix_refl before, forall_mem_nil _, fun _ => Or.inl, id, id⟩
  | cons head _ induction =>
    rcases forall_mem_cons.mp each with ⟨here, later⟩
    have first := here before
    have rest := induction later (registerType before head)
    refine ⟨first.grows.trans rest.grows, forall_mem_cons.mpr ⟨?_, rest.member⟩, ?_,
      rest.closed ∘ first.closed, rest.distinct ∘ first.distinct⟩
    · exact rest.grows.subset (first.member head (mem_singleton_self head))
    · intro entry member
      rcases rest.new entry member with early | ⟨type, isType, small⟩
      · exact (first.new entry early).imp_right fun ⟨type, isHead, small⟩ =>
          ⟨type, mem_singleton.mp isHead ▸ mem_cons_self, small⟩
      · exact .inr ⟨type, mem_cons_of_mem head isType, small⟩

theorem registerType_registered (before : List Ty) (type : Ty) :
    Registered before (registerType before type) [type] := by
  rw [registerType_eq]
  split_ifs with known
  · exact ⟨prefix_refl before, forall_mem_singleton.mpr known, fun _ => Or.inl, id, id⟩
  · have others : Registered before (type.dependencies.foldl registerType before)
        type.dependencies :=
      Registered.foldl
        (fun other isDependency before => registerType_registered before other) before
    have smaller : ∀ entry ∈ type.dependencies.foldl registerType before,
        entry ∈ before ∨ sizeOf entry < sizeOf type := by
      intro entry member
      apply (others.new entry member).imp_right
      rintro ⟨other, isDependency, small⟩
      exact Nat.lt_of_le_of_lt small (Ty.sizeOf_dependency isDependency)
    have isNew : type ∉ type.dependencies.foldl registerType before := fun member =>
      (smaller type member).elim known (Nat.lt_irrefl _)
    have self : type ∈ [type] := mem_singleton_self type
    refine ⟨others.grows.trans (prefix_append _ _), forall_mem_singleton.mpr ?_, ?_, ?_,
      ?_⟩
    · exact mem_append_right _ self
    · intro entry member
      rcases mem_append.mp member with early | isType
      · exact (smaller entry early).imp_right fun small => ⟨type, self, small.le⟩
      · exact .inr ⟨type, self, mem_singleton.mp isType ▸ Nat.le_refl _⟩
    · exact fun closed => (others.closed closed).concat others.member
    · exact fun distinct =>
        concat_eq_append ▸ Nodup.concat isNew (others.distinct distinct)
termination_by sizeOf type
decreasing_by exact Ty.sizeOf_dependency isDependency

theorem registerType_of_mem {types : List Ty} {type : Ty} (known : type ∈ types) :
    registerType types type = types := by
  rw [registerType_eq, if_pos known]

/-- The tables of `after` continue those of `before`. -/
structure WriterCtx.Grows (before after : WriterCtx) : Prop where
  strings : before.strings <+: after.strings
  types : before.types <+: after.types
  attrs : before.debug.attrs <+: after.debug.attrs

namespace WriterCtx

theorem Grows.refl (ctx : WriterCtx) : ctx.Grows ctx :=
  ⟨prefix_refl _, prefix_refl _, prefix_refl _⟩

theorem Grows.trans {first second third : WriterCtx} (early : first.Grows second)
    (late : second.Grows third) : first.Grows third :=
  ⟨early.strings.trans late.strings, early.types.trans late.types, early.attrs.trans late.attrs⟩

/-- A type table that the writer can have reached. -/
structure Sound (ctx : WriterCtx) : Prop where
  distinct : ctx.types.Nodup
  closed : TypesClosed ctx.types
  /-- An index that was given out stands for its type still. -/
  uses : ∀ use ∈ ctx.typeUses, ctx.types[use.2]? = some use.1

theorem sound_empty : empty.Sound :=
  ⟨nodup_nil, Interning.closed_nil, forall_mem_nil _⟩

end WriterCtx

theorem Command.grows_update (command : Command) (ctx : WriterCtx) :
    ctx.Grows (command.update ctx) := by
  cases command with
  | string =>
    exact ⟨Interning.prefix_intern _ _, prefix_refl _, prefix_refl _⟩
  | type ty =>
    exact ⟨prefix_refl _, (registerType_registered ctx.types ty).grows, prefix_refl _⟩
  | debugAttribute =>
    exact ⟨prefix_refl _, prefix_refl _, Interning.prefix_intern _ _⟩
  | bytes | constant | currentScope | setScope | beginList | appendId =>
    exact ⟨prefix_refl _, prefix_refl _, prefix_refl _⟩

theorem Command.sound_update (command : Command) {ctx : WriterCtx} (sound : ctx.Sound) :
    (command.update ctx).Sound := by
  cases command with
  | type ty =>
    have registered := registerType_registered ctx.types ty
    have member := registered.member ty (mem_singleton_self ty)
    refine ⟨registered.distinct sound.distinct, registered.closed sound.closed, ?_⟩
    refine forall_mem_append.mpr ⟨fun use isUse => ?_, forall_mem_singleton.mpr ?_⟩
    · exact Interning.getElem?_of_prefix registered.grows (sound.uses use isUse)
    · exact Interning.getElem?_idxOf member
  | bytes | string | constant | debugAttribute | currentScope | setScope | beginList | appendId =>
    exact { sound with }

namespace Emission

variable {α β : Type}

variable {ctx : WriterCtx}

theorem run_step_of_ok {command : Command} {next : Nat → Emission α} {rest : Written α}
    (ok : (next (command.answer ctx)).run (command.update ctx) = .ok rest) :
    (step command next).run ctx = .ok { rest with bytes := command.output ++ rest.bytes } := by
  rw [run, ok]
  rfl

variable {program : Emission α}

/-- A program that does not fail has only added to the tables. -/
theorem run_spec {written : Written α} (ok : program.run ctx = .ok written) :
    ctx.Grows written.ctx ∧ (ctx.Sound → written.ctx.Sound) := by
  induction program generalizing ctx written with
  | done =>
    cases ok
    exact ⟨.refl ctx, id⟩
  | fail => cases ok
  | step command _ induction =>
    rcases Fallible.bind_eq_ok_iff.mp ok with ⟨_, isRest, ok⟩
    cases Fallible.pure_eq_ok_iff.mp ok
    have later := induction _ isRest
    exact ⟨(command.grows_update ctx).trans later.1, later.2 ∘ command.sound_update⟩

/-! ## Programs that keep to some commands -/

/-- Every command that the program can come to is allowed. -/
def OnlyDoes (Allowed : Command → Prop) : Emission α → Prop
  | done _ | fail _ => True
  | step command next => Allowed command ∧ ∀ answer, (next answer).OnlyDoes Allowed

variable {Allowed : Command → Prop}

theorem onlyDoes_perform {command : Command} (allowed : Allowed command) :
    (perform command).OnlyDoes Allowed :=
  ⟨allowed, fun _ => trivial⟩

theorem OnlyDoes.bind (first : program.OnlyDoes Allowed) {continuation : α → Emission β}
    (second : ∀ value, (continuation value).OnlyDoes Allowed) :
    (program >>= continuation).OnlyDoes Allowed := by
  induction program with
  | done value => exact second value
  | fail => exact trivial
  | step _ _ induction =>
    exact ⟨first.1, fun answer => induction answer (first.2 answer)⟩

theorem OnlyDoes.forEach {program : β → Emission α} {items : List β}
    (each : ∀ item ∈ items, (program item).OnlyDoes Allowed) :
    (forEach program items).OnlyDoes Allowed := by
  induction items with
  | nil => exact trivial
  | cons _ _ induction =>
    rcases forall_mem_cons.mp each with ⟨here, later⟩
    exact here.bind fun _ => (induction later).bind fun _ => trivial

end Emission

end CuTile.Bytecode
