import CuTile.Bytecode.Writer

/-! # The type table

A type stands behind everything that it refers to, so that the entries of the type section
refer to earlier entries only and writing them registers no further type.
-/

namespace CuTile.Bytecode

open IR Emission Fallible

variable {α : Type}

/-! ## Programs that look up types -/

/-- Writing bytes, and asking for the index of one of the types. -/
def Command.RefersTo (types : List Ty) : Command → Prop
  | .bytes _ => True
  | .type ty => ty ∈ types
  | _ => False

/-- If the types are in the table, it is the table alone that counts, and it stays as it is. -/
theorem run_of_known {types referred : List Ty} (known : ∀ type ∈ referred, type ∈ types)
    {program : Emission α} (only : program.OnlyDoes (Command.RefersTo referred))
    {ctx : WriterCtx} (isTable : ctx.types = types) {written : Written α}
    (ok : program.run ctx = .ok written) :
    ∃ uses : List (Ty × Nat), (∀ use ∈ uses, use.1 ∈ referred ∧ use.2 = types.idxOf use.1) ∧
      ∀ other : WriterCtx, other.types = types → program.run other =
        .ok ⟨written.value, written.bytes, { other with typeUses := other.typeUses ++ uses }⟩ := by
  induction program generalizing ctx written with
  | done =>
    cases ok
    refine ⟨[], List.forall_mem_nil _, fun other _ => ?_⟩
    rw [List.append_nil]
    rfl
  | fail => cases ok
  | step command next induction =>
    rcases bind_eq_ok_iff.mp ok with ⟨_, isRest, ok⟩
    cases pure_eq_ok_iff.mp ok
    cases command with
    | bytes data =>
      rcases induction _ (only.2 _) isTable isRest with ⟨uses, referring, same⟩
      refine ⟨uses, referring, fun other isOther => ?_⟩
      have later : (next (Command.answer other (.bytes data))).run
          (Command.update other (.bytes data)) = _ := same other isOther
      exact run_step_of_ok later
    | type ty =>
      have found : ∀ {other : WriterCtx}, other.types = types →
          registerType other.types ty = types := fun isOther =>
        (registerType_of_mem (isOther ▸ known ty only.1)).trans isOther
      rcases induction _ (only.2 _) (found isTable) isRest with ⟨uses, referring, same⟩
      refine ⟨(ty, types.idxOf ty) :: uses,
        List.forall_mem_cons.mpr ⟨⟨only.1, rfl⟩, referring⟩, fun other isOther => ?_⟩
      have answers : Command.answer other (.type ty) = Command.answer ctx (.type ty) := by
        rw [Command.answer, Command.answer, found isOther, found isTable]
      have later := same (Command.update other (.type ty)) (found isOther)
      rw [← answers] at later
      rw [run_step_of_ok later, Command.update, found isOther, List.append_assoc, ← isOther]
      rfl
    | string | constant | debugAttribute | currentScope | setScope | beginList | appendId =>
      exact only.1.elim

/-! ## Entries -/

section Entries

variable {referred : List Ty}

theorem refersTo_emitBytes (data : Bytes) :
    (emitBytes data).OnlyDoes (Command.RefersTo referred) :=
  ⟨trivial, fun _ => trivial⟩

theorem refersTo_emitIndexOf {type : Ty} (member : type ∈ referred) :
    (emitIndexOf type).OnlyDoes (Command.RefersTo referred) :=
  (onlyDoes_perform member).bind fun _ => refersTo_emitBytes _

theorem refersTo_emitIndicesOf {types : List Ty} (members : ∀ type ∈ types, type ∈ referred) :
    (emitIndicesOf types).OnlyDoes (Command.RefersTo referred) :=
  (refersTo_emitBytes _).bind fun _ =>
    (OnlyDoes.forEach fun type isType => refersTo_emitIndexOf (members type isType)).bind
      fun _ => trivial

theorem refersTo_requireVersion (feature : String) (required version : BytecodeVersion) :
    (requireVersion feature required version).OnlyDoes (Command.RefersTo referred) := by
  unfold requireVersion
  split_ifs <;> exact trivial

theorem refersTo_emitFlags {ι : Type} (version since : BytecodeVersion) (item : Option ι) :
    (emitFlags version since item).OnlyDoes (Command.RefersTo referred) := by
  unfold emitFlags
  by_cases known : version.atLeast since
  · rw [if_pos known]
    exact refersTo_emitBytes _
  · rw [if_neg known]
    exact trivial

end Entries

theorem qualify_mem_dependencies {attr : Option PointerAttribute} {type part : Ty}
    (plain : type.dependencies = [part]) (isPart : type.pointerDependency = some part) :
    qualify attr part ∈ (qualify attr type).dependencies := by
  cases attr with
  | none => exact plain ▸ List.mem_singleton_self part
  | some attr =>
    change part.withPointerAttribute attr ∈ type.qualifiedDependencies attr
    unfold Ty.qualifiedDependencies
    split
    · cases isPart
    · cases isPart
    · exact isPart ▸ List.mem_singleton_self _

theorem refersTo_serializeType (version : BytecodeVersion) (type : Ty)
    (attr : Option PointerAttribute) (supported : attr.isSome → supportsPointerAttribute type) :
    (serializeType version type attr).OnlyDoes
      (Command.RefersTo (qualify attr type).dependencies) := by
  have write := @refersTo_emitBytes (qualify attr type).dependencies
  cases type with
  | scalar => exact (refersTo_requireVersion _ _ _).bind fun _ => write _
  | token => exact write _
  | pointer type =>
    have member : .scalar type.pointee ∈ (qualify attr (.pointer type)).dependencies := by
      cases attr <;> exact List.mem_singleton_self _
    exact (write _).bind fun _ => (refersTo_emitFlags _ _ _).bind fun _ =>
      (refersTo_emitIndexOf member).bind fun _ => write _
  | tile type =>
    have member : elementReference attr type.elementType ∈
        (qualify attr (.tile type)).dependencies := by
      rcases type with ⟨_, element | element⟩
      · cases attr with
        | none => exact List.mem_singleton_self _
        | some => cases supported rfl
      · exact qualify_mem_dependencies rfl rfl
    exact (write _).bind fun _ => (refersTo_emitIndexOf member).bind fun _ => write _
  | tensorView type =>
    have member : .scalar type.elementType ∈ (qualify attr (.tensorView type)).dependencies := by
      cases attr <;> exact List.mem_singleton_self _
    exact (write _).bind fun _ => (refersTo_emitFlags _ _ _).bind fun _ =>
      (refersTo_emitIndexOf member).bind fun _ => (write _).bind fun _ => (write _).bind fun _ =>
        write _
  | partitionView =>
    exact (write _).bind fun _ => (refersTo_emitFlags _ _ _).bind fun _ => (write _).bind fun _ =>
      (refersTo_emitIndexOf (qualify_mem_dependencies rfl rfl)).bind fun _ =>
        (write _).bind fun _ => write _
  | gatherScatterView =>
    exact (refersTo_requireVersion _ _ _).bind fun _ => (write _).bind fun _ =>
      (write _).bind fun _ => (write _).bind fun _ =>
        (refersTo_emitIndexOf (qualify_mem_dependencies rfl rfl)).bind fun _ =>
          (write _).bind fun _ => write _
  | stridedView =>
    exact (refersTo_requireVersion _ _ _).bind fun _ => (write _).bind fun _ =>
      (write _).bind fun _ => (write _).bind fun _ => (write _).bind fun _ =>
        (refersTo_emitIndexOf (qualify_mem_dependencies rfl rfl)).bind fun _ =>
          (write _).bind fun _ => write _
  | func =>
    cases attr with
    | some => cases supported rfl
    | none =>
      exact (write _).bind fun _ =>
        (refersTo_emitIndicesOf fun _ => List.mem_append_left _).bind fun _ =>
          refersTo_emitIndicesOf fun _ => List.mem_append_right _
  | withPointerAttribute base inner =>
    cases attr with
    | some => cases supported rfl
    | none =>
      refine (refersTo_requireVersion _ _ _).bind fun _ => ?_
      by_cases isSupported : supportsPointerAttribute base
      · rw [if_pos isSupported]
        exact refersTo_serializeType version base (some inner) fun _ => isSupported
      · rw [if_neg isSupported]
        exact trivial

/-! ## The table of a module -/

/-- The entries that are written for the types `rest` behind `front`. -/
theorem serializeTypes_spec {version : BytecodeVersion} {types : List Ty}
    (closed : TypesClosed types) {front rest : List Ty} (split : types = front ++ rest)
    {ctx : WriterCtx} (isTable : ctx.types = types) {entries : List Bytes}
    (ok : serializeTypes version rest ctx = .ok entries) :
    ∀ index type, rest[index]? = some type → ∀ other : WriterCtx, other.types = types →
      ∃ entry uses, entries[index]? = some entry ∧
        (serializeType version type none).run other =
          .ok ⟨(), entry, { other with typeUses := other.typeUses ++ uses }⟩ ∧
        ∀ use ∈ uses, use.2 < front.length + index := by
  induction rest generalizing front ctx entries with
  | nil => exact nofun
  | cons head tail induction =>
    rcases bind_eq_ok_iff.mp ok with ⟨first, isFirst, ok⟩
    rcases bind_eq_ok_iff.mp ok with ⟨_, areOthers, ok⟩
    cases pure_eq_ok_iff.mp ok
    have refers := refersTo_serializeType version head none nofun
    have known : ∀ type ∈ head.dependencies, type ∈ types := fun type isDependency => by
      rw [split]
      exact List.mem_append_left _ (closed front head tail split type isDependency)
    rcases run_of_known known refers isTable isFirst with ⟨uses, referring, same⟩
    intro index type found other isOther
    cases index with
    | zero =>
      cases found
      refine ⟨first.bytes, uses, rfl, same other isOther, fun use isUse => ?_⟩
      rcases referring use isUse with ⟨isDependency, isIndex⟩
      exact isIndex ▸ (closed.idxOf_lt split isDependency).1
    | succ index =>
      have isTable' : first.ctx.types = types := by
        have again := isFirst.symm.trans (same ctx isTable)
        rw [Except.ok.inj again]
        exact isTable
      have split' : types = (front ++ [head]) ++ tail := by
        rw [split, List.append_assoc]
        rfl
      have later := induction split' isTable' areOthers index type found other isOther
      rw [List.length_append, List.length_singleton, Nat.add_assoc, Nat.add_comm 1] at later
      exact later

section Functions

variable {version : BytecodeVersion} {ctx : WriterCtx}

theorem writeNamedFunction_sound {function : Function} {name : String} {type : Ty}
    {result : FunctionRecord × WriterCtx}
    (ok : writeNamedFunction version function name type ctx = .ok result) (sound : ctx.Sound) :
    result.2.Sound := by
  rcases bind_eq_ok_iff.mp ok with ⟨_, isHead, ok⟩
  rcases bind_eq_ok_iff.mp ok with ⟨_, areHints, ok⟩
  rcases bind_eq_ok_iff.mp ok with ⟨_, isBody, ok⟩
  cases pure_eq_ok_iff.mp ok
  exact (run_spec isBody).2 ((run_spec areHints).2 ((run_spec isHead).2 sound))

theorem writeFunction_eq_ok {function : Function} {result : FunctionRecord × WriterCtx}
    (ok : writeFunction version function ctx = .ok result) :
    ∃ name type, writeNamedFunction version function name type ctx = .ok result := by
  unfold writeFunction at ok
  split at ok
  · cases ok
  · split at ok
    · cases ok
    · exact ⟨_, _, ok⟩

theorem writeFunctions_sound {functions : List Function}
    {result : List FunctionRecord × WriterCtx}
    (ok : writeFunctions version functions ctx = .ok result) (sound : ctx.Sound) :
    result.2.Sound := by
  induction functions generalizing ctx result with
  | nil =>
    cases ok
    exact sound
  | cons _ _ induction =>
    rcases bind_eq_ok_iff.mp ok with ⟨_, isFirst, ok⟩
    rcases bind_eq_ok_iff.mp ok with ⟨_, areOthers, ok⟩
    cases pure_eq_ok_iff.mp ok
    rcases writeFunction_eq_ok isFirst with ⟨_, _, named⟩
    have later := induction areOthers (writeNamedFunction_sound named sound)
    exact later

end Functions

theorem writeModule_eq_ok {gate : Function → Option String} {module : SourceModule}
    {version : BytecodeVersion} {output : Output}
    (ok : writeModule gate module version = .ok output) :
    ∃ scanned globals functions types, (prescan gate version module).run .empty = .ok scanned ∧
      (forEach (writeGlobal version) module.globals).run scanned.ctx = .ok globals ∧
      writeFunctions version module.functions globals.ctx = .ok functions ∧
      serializeTypes version functions.2.types functions.2 = .ok types ∧
      output = ⟨version, module.producer, functions.2, globals.value, functions.1, types⟩ := by
  unfold writeModule at ok
  split_ifs at ok
  simp only [bind_eq_ok_iff] at ok
  rcases ok with ⟨scanned, isScanned, globals, areGlobals, functions, areFunctions, types,
    areTypes, ok⟩
  exact ⟨scanned, globals, functions, types, isScanned, areGlobals, areFunctions, areTypes,
    (pure_eq_ok_iff.mp ok).symm⟩

structure Output.TypesOrdered (output : Output) : Prop where
  distinct : output.ctx.types.Nodup
  /-- An index given out by the table, wherever it is written, is that of its type. -/
  inside : ∀ use ∈ output.ctx.typeUses, use.2 < output.ctx.types.length ∧
    output.ctx.types[use.2]? = some use.1
  /-- Serialising an entry leaves the tables as they are, and refers to earlier entries. -/
  backward : ∀ index type, output.ctx.types[index]? = some type →
    ∀ ctx : WriterCtx, ctx.types = output.ctx.types →
      ∃ entry uses, output.types[index]? = some entry ∧
        (serializeType output.version type none).run ctx =
          .ok ⟨(), entry, { ctx with typeUses := ctx.typeUses ++ uses }⟩ ∧
        ∀ use ∈ uses, use.2 < index

end CuTile.Bytecode
