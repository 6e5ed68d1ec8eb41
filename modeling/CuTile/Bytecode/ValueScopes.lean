import CuTile.Bytecode.OperationWriter
import CuTile.Foundation.Fallible

/-! # Value indices follow the scopes

The values visible at a point of a function are those that the enclosing blocks have
defined so far. Wherever the writer is, it has numbered exactly these, in the order of
their definitions.
-/

namespace CuTile.IR

open List

/-! ## Points -/

/-- A point that the writer comes to, with what is visible there, and with the operation
whose operands are written next. -/
structure Point where
  numbering : Numbering Value
  visible : List Value
  operation : Option OpHeader

def OpHeader.definitions (values : List ValueData) (header : OpHeader) : List Value :=
  (header.results values).reduceOption

mutual

/-- The points on the way through an operation, and the numbering behind it. -/
def Operation.points (values : List ValueData) :
    Operation → Numbering Value → List Value → List Point × Numbering Value
  | .mk header regions, numbering, visible =>
    let inner := if header.opcode.writesRegions then regions.points values numbering visible
      else ([], numbering)
    let last := inner.2.registerAll (header.definitions values)
    (⟨numbering, visible, some header⟩ :: inner.1 ++
      [⟨last, visible ++ header.definitions values, none⟩], last)

def Regions.points (values : List ValueData) :
    Regions → Numbering Value → List Value → List Point × Numbering Value
  | .nil, numbering, _ => ([], numbering)
  | .cons blocks rest, numbering, visible =>
    let first := blocks.points values numbering visible
    let others := rest.points values first.2 visible
    (first.1 ++ others.1, others.2)

/-- Behind a block the values from before it are visible. -/
def Blocks.points (values : List ValueData) :
    Blocks → Numbering Value → List Value → List Point × Numbering Value
  | .nil, numbering, _ => ([], numbering)
  | .cons args ops rest, numbering, visible =>
    let opened : Point := ⟨numbering.registerAll args, visible ++ args, none⟩
    let body := ops.points values opened.numbering opened.visible
    let closed : Point := ⟨body.2.rollback numbering.next, visible, none⟩
    let others := rest.points values closed.numbering closed.visible
    (opened :: body.1 ++ closed :: others.1, others.2)

def Operations.points (values : List ValueData) :
    Operations → Numbering Value → List Value → List Point × Numbering Value
  | .nil, numbering, _ => ([], numbering)
  | .cons head tail, numbering, visible =>
    let first := head.points values numbering visible
    let others := tail.points values first.2 (visible ++ head.header.definitions values)
    (first.1 ++ others.1, others.2)

end

/-- The points of a function; its arguments are visible from the start. -/
def Operation.functionPoints (values : List ValueData) (function : Operation) : List Point :=
  match function.entryBlock with
  | some (args, ops) =>
    let start : Point := ⟨Numbering.empty.registerAll args, args, none⟩
    start :: (ops.points values start.numbering start.visible).1
  | none => []

namespace Point

/-- Every operand is visible, and every value that is visible was defined once. -/
structure Scoped (point : Point) : Prop where
  defined : ∀ header ∈ point.operation, ∀ operand ∈ header.operands, operand ∈ point.visible
  once : point.visible.Nodup

instance (point : Point) : Decidable point.Scoped :=
  decidable_of_iff ((∀ header ∈ point.operation, ∀ operand ∈ header.operands,
    operand ∈ point.visible) ∧ point.visible.Nodup)
    ⟨fun both => ⟨both.1, both.2⟩, fun inScope => ⟨inScope.defined, inScope.once⟩⟩

def written (values : List ValueData) (point : Point) : List (Value × Nat) :=
  point.operation.elim [] fun header => (header.writtenOperands values).map fun operand =>
    (operand, (point.numbering.lookup operand).getD 0)

end Point

/-! ## From point to point -/

variable {values : List ValueData}

/-- At every point exactly what is visible is numbered. -/
def Numbered (points : List Point) : Prop :=
  ∀ point ∈ points, point.numbering.Numbers point.visible

/-- A course along numbered points that ends with `visible` numbered. The writer fails on it
for a reason of its own, or writes what the points say. -/
structure Serialises (values : List ValueData) (visible : List Value)
    (course : List Point × Numbering Value)
    (result : Except WriteError (Numbering Value × List (Value × Nat))) : Prop where
  numbered : Numbered course.1
  last : course.2.Numbers visible
  writes : result = .error .other ∨
    result = .ok (course.2, course.1.flatMap (Point.written values))

section Serialises

variable {visible : List Value} {first second : List Point × Numbering Value}
  {result : Except WriteError (Numbering Value × List (Value × Nat))}

theorem serialises_nil {numbering : Numbering Value} (numbers : numbering.Numbers visible) :
    Serialises values visible ([], numbering) (.ok (numbering, [])) :=
  ⟨forall_mem_nil _, numbers, .inr rfl⟩

theorem Serialises.append {middle : List Value}
    (next : Numbering Value → Except WriteError (Numbering Value × List (Value × Nat)))
    (early : Serialises values middle first result)
    (late : Serialises values visible second (next first.2)) :
    Serialises values visible (first.1 ++ second.1, second.2)
      (do
        let head ← result
        let others ← next head.1
        return (others.1, head.2 ++ others.2)) := by
  refine ⟨forall_mem_append.mpr ⟨early.numbered, late.numbered⟩, late.last, ?_⟩
  rcases early.writes with fails | succeeds
  · rw [fails]
    exact .inl rfl
  · rw [succeeds, Fallible.ok_bind]
    rcases late.writes with fails | succeeds
    · rw [fails]
      exact .inl rfl
    · rw [succeeds, Fallible.ok_bind]
      exact .inr (congrArg Except.ok (congrArg (Prod.mk second.2) flatMap_append.symm))

/-- Nothing is written where a block is opened and where it is closed. -/
theorem Serialises.quiet {numbering : Numbering Value} {here : List Value}
    (numbers : numbering.Numbers here) (later : Serialises values visible second result) :
    Serialises values visible (⟨numbering, here, none⟩ :: second.1, second.2) result :=
  ⟨forall_mem_cons.mpr ⟨numbers, later.numbered⟩, later.last, later.writes⟩

end Serialises

theorem Point.Scoped.lookup {point : Point} (inScope : point.Scoped)
    (numbers : point.numbering.Numbers point.visible) {header : OpHeader}
    (isHeader : header ∈ point.operation) {operand : Value}
    (isOperand : operand ∈ header.writtenOperands values) :
    ∃ index, point.numbering.lookup operand = some index ∧
      point.visible[index]? = some operand := by
  have member := inScope.defined header isHeader operand
    (mem_operands_of_mem_writtenOperands isOperand)
  rcases getElem?_of_mem member with ⟨index, isIndex⟩
  exact ⟨index, numbers.found.mpr isIndex, isIndex⟩

theorem OpHeader.writeOperands_eq (header : OpHeader) {numbering : Numbering Value}
    {operands : List Value}
    (found : ∀ operand ∈ operands, ∃ index, numbering.lookup operand = some index) :
    header.writeOperands numbering operands =
      .ok (operands.map fun operand => (operand, (numbering.lookup operand).getD 0)) := by
  induction operands with
  | nil => rfl
  | cons _ _ induction =>
    rcases forall_mem_cons.mp found with ⟨⟨index, isIndex⟩, later⟩
    rw [OpHeader.writeOperands, isIndex, map_cons, isIndex, induction later]
    rfl

mutual

theorem Operation.serialises (encodes : OpHeader → Bool) (op : Operation)
    {numbering : Numbering Value} {visible : List Value} (numbers : numbering.Numbers visible)
    (inScope : ∀ point ∈ (op.points values numbering visible).1, point.Scoped) :
    Serialises values (visible ++ op.header.definitions values)
      (op.points values numbering visible) (op.write values encodes numbering) := by
  rcases op with ⟨header, regions⟩
  rw [Operation.points, forall_mem_append, forall_mem_singleton,
    forall_mem_cons] at inScope
  have inner : Serialises values visible (if header.opcode.writesRegions
        then regions.points values numbering visible else ([], numbering))
      (if header.opcode.writesRegions then regions.write values encodes numbering
        else .ok (numbering, [])) := by
    by_cases writes : header.opcode.writesRegions
    · rw [if_pos writes] at inScope ⊢
      rw [if_pos writes]
      exact regions.serialises encodes numbers inScope.1.2
    · rw [if_neg writes, if_neg writes]
      exact serialises_nil numbers
  have last := inner.last.registerAll inScope.2.once
  rw [Operation.write, Operation.points]
  refine ⟨forall_mem_append.mpr ⟨forall_mem_cons.mpr ⟨numbers, inner.numbered⟩,
    forall_mem_singleton.mpr last⟩, last, ?_⟩
  by_cases encoded : encodes header
  · have found : ∀ operand ∈ header.writtenOperands values,
        ∃ index, numbering.lookup operand = some index := fun operand isOperand =>
      (inScope.1.1.lookup numbers rfl isOperand).imp fun _ found => found.1
    have operands := header.writeOperands_eq found
    rw [if_pos encoded, operands, Fallible.ok_bind]
    rcases inner.writes with fails | succeeds
    · rw [fails]
      exact .inl rfl
    · rw [succeeds, Fallible.ok_bind]
      refine .inr ?_
      rw [flatMap_append, flatMap_cons, flatMap_singleton, Point.written,
        Point.written, Option.elim_some, Option.elim_none, append_nil]
      rfl
  · rw [if_neg encoded]
    exact .inl rfl

theorem Regions.serialises (encodes : OpHeader → Bool) (regions : Regions)
    {numbering : Numbering Value} {visible : List Value} (numbers : numbering.Numbers visible)
    (inScope : ∀ point ∈ (regions.points values numbering visible).1, point.Scoped) :
    Serialises values visible (regions.points values numbering visible)
      (regions.write values encodes numbering) := by
  cases regions with
  | nil => exact serialises_nil numbers
  | cons blocks rest =>
    rw [Regions.points, forall_mem_append] at inScope
    have first := blocks.serialises encodes numbers inScope.1
    exact first.append _ (rest.serialises encodes first.last inScope.2)

theorem Blocks.serialises (encodes : OpHeader → Bool) (blocks : Blocks)
    {numbering : Numbering Value} {visible : List Value} (numbers : numbering.Numbers visible)
    (inScope : ∀ point ∈ (blocks.points values numbering visible).1, point.Scoped) :
    Serialises values visible (blocks.points values numbering visible)
      (blocks.write values encodes numbering) := by
  cases blocks with
  | nil => exact serialises_nil numbers
  | cons _ ops rest =>
    rw [Blocks.points, forall_mem_append, forall_mem_cons,
      forall_mem_cons] at inScope
    have opened := numbers.registerAll inScope.1.1.once
    rcases ops.serialises encodes opened inScope.1.2 with ⟨_, body⟩
    have closed := body.last
    rw [append_assoc] at closed
    have closed := closed.rollback
    rw [← numbers.next] at closed
    have others := rest.serialises encodes closed inScope.2.2
    exact (body.quiet opened).append
      (fun last => rest.write values encodes (last.rollback numbering.next)) (others.quiet closed)

theorem Operations.serialises (encodes : OpHeader → Bool) (ops : Operations)
    {numbering : Numbering Value} {visible : List Value} (numbers : numbering.Numbers visible)
    (inScope : ∀ point ∈ (ops.points values numbering visible).1, point.Scoped) :
    ∃ more, Serialises values (visible ++ more) (ops.points values numbering visible)
      (ops.write values encodes numbering) := by
  cases ops with
  | nil => exact ⟨[], serialises_nil ((append_nil visible).symm ▸ numbers)⟩
  | cons head tail =>
    rw [Operations.points, forall_mem_append] at inScope
    have first := head.serialises encodes numbers inScope.1
    rcases tail.serialises encodes first.last inScope.2 with ⟨more, others⟩
    rw [append_assoc] at others
    exact ⟨_, first.append _ others⟩

end

/-! ## Functions -/

theorem Operation.serialises_function (encodes : OpHeader → Bool) (function : Operation)
    (inScope : ∀ point ∈ function.functionPoints values, point.Scoped) :
    Numbered (function.functionPoints values) ∧
      (function.writeFunctionBody values encodes = .error .other ∨
        function.writeFunctionBody values encodes =
          .ok ((function.functionPoints values).flatMap (Point.written values))) := by
  revert inScope
  unfold Operation.functionPoints Operation.writeFunctionBody
  cases function.entryBlock with
  | none => exact fun _ => ⟨forall_mem_nil _, .inr rfl⟩
  | some entry =>
    intro inScope
    rw [forall_mem_cons] at inScope
    have start := Numbering.numbers_empty.registerAll inScope.1.once
    rcases entry.2.serialises encodes start inScope.2 with ⟨_, body⟩
    let finish (result : Except WriteError (Numbering Value × List (Value × Nat))) :
        Except WriteError (List (Value × Nat)) := do
      let body ← result
      return body.2
    exact ⟨forall_mem_cons.mpr ⟨start, body.numbered⟩,
      body.writes.imp (congrArg finish) (congrArg finish)⟩

/-- In a function with visible operands, the visible values have the indices from zero on at
every point, the indices are the same again behind a block, and an operand is written with
the index that its definition got. -/
theorem writeFunctionBody_follows_scopes (values : List ValueData) (encodes : OpHeader → Bool)
    (function : Operation) (inScope : ∀ point ∈ function.functionPoints values, point.Scoped) :
    Numbered (function.functionPoints values) ∧
    (∀ first ∈ function.functionPoints values, ∀ second ∈ function.functionPoints values,
      first.visible = second.visible → first.numbering = second.numbering) ∧
    (function.writeFunctionBody values encodes = .error .other ∨
      function.writeFunctionBody values encodes =
        .ok ((function.functionPoints values).flatMap (Point.written values))) ∧
    ∀ point ∈ function.functionPoints values, ∀ operand ∈ point.written values,
      point.visible[operand.2]? = some operand.1 := by
  have course := function.serialises_function encodes inScope
  refine ⟨course.1, fun first isFirst second isSecond same => ?_, course.2,
    fun point isPoint operand isOperand => ?_⟩
  · have others := course.1 second isSecond
    rw [← same] at others
    exact (course.1 first isFirst).unique others
  · unfold Point.written at isOperand
    cases isHeader : point.operation with
    | none =>
      rw [isHeader] at isOperand
      cases isOperand
    | some =>
      rw [isHeader, Option.elim_some] at isOperand
      rcases mem_map.mp isOperand with ⟨_, isValue, rfl⟩
      rcases (inScope point isPoint).lookup (course.1 point isPoint) isHeader isValue with
        ⟨index, isIndex, visible⟩
      rw [isIndex]
      exact visible

/-- A branch with a constant on each side that is yielded: both constants have the index one. -/
theorem writeFunctionBody_follows_scopes_branch :
    let side (op : Nat) (value : Value) : Blocks :=
      .cons [] (.cons (.mk ⟨op, .constant, [], .absent, 1, none⟩ .nil)
        (.cons (.mk ⟨op + 1, .yield, [value], .absent, 0, none⟩ .nil) .nil)) .nil
    let branch : Operation :=
      .mk ⟨1, .ifOp, [0], .absent, 0, none⟩ (.cons (side 2 1) (.cons (side 4 2) .nil))
    let function : Operation :=
      .mk ⟨0, .entry, [], .absent, 0, none⟩ (.cons (.cons [0] (.cons branch .nil) .nil) .nil)
    let values : List ValueData :=
      [⟨false, .blockArg 0 0⟩, ⟨false, .opResult 2 0⟩, ⟨false, .opResult 4 0⟩]
    (∀ point ∈ function.functionPoints values, point.Scoped) ∧
    function.writeFunctionBody values (fun _ => true) = .ok [(0, 0), (1, 1), (2, 1)] ∧
    Numbered (function.functionPoints values) := by
  intro side branch function values
  have inScope : ∀ point ∈ function.functionPoints values, point.Scoped := by decide +kernel
  exact ⟨inScope, by rfl,
    (writeFunctionBody_follows_scopes values (fun _ => true) function inScope).1⟩

end CuTile.IR
