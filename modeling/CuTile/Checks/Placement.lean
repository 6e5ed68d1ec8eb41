import CuTile.Checks.Goals
import CuTile.Compiler.BinaryOp
import CuTile.Compiler.ForLoop

/-! # Residual checks

A goal that no earlier stage settled becomes an assert in the kernel. When every
iteration of the surrounding loops performs the access, the assert moves to a
loop preheader and tests an extreme instance of the index instead.
-/

namespace CuTile

/-- How the index of a hoisted check is instantiated. -/
inductive HoistIndex where
  /-- A static range: `max` is tested above, `min` decides the lower goal. -/
  | const (min max : Int)
  | invariant
  /-- `scale * induction + offset` over the bounds of the classified loop. -/
  | inductionAffine (scale offset : Int) (lower upper : SsaValue)
deriving DecidableEq, Repr

/-- A static range in the machine type of the index. -/
def HoistIndex.ofRange (range : Bounds Int) : HoistIndex :=
  .const (IntegerFormat.i32.wrap range.start) (IntegerFormat.i32.wrap range.last)

def fitsI32 (bounds : Bounds Int) : Bool :=
  IntegerFormat.i32.minValue ≤ bounds.start ∧ bounds.last ≤ IntegerFormat.i32.maxValue

/-! ## Classification -/

/-- The index as an affine function of the loop's induction variable. -/
def innermostAffine (index : TileRustValue SsaValue) (value : SsaValue)
    (innermost : LoopFrame) : Option (SsaValue × Int × Int) :=
  if innermost.inductionValues.contains value then some (value, 1, 0)
  else
    match index.term.bind Term.asSingleAffine with
    | some (.iv id, scale, offset) =>
      if innermost.inductionValues.contains id then some (id, scale, offset) else none
    | _ => none

/-- The range of an affine index over a loop whose bounds are constants. -/
def affineRange (innermost : LoopFrame) (id : SsaValue) (scale offset : Int) :
    Option (Bounds Int) :=
  innermost.inductionRange.bind fun range =>
    termRange (.affine (.iv id) scale offset) fun name =>
      if name = .iv id then some range else none

/-- Instantiate an affine index, with the values the check will refer to. -/
def classifyAffine (innermost : LoopFrame) (id : SsaValue) (scale offset : Int) :
    Except String (HoistIndex × List SsaValue) :=
  if !innermost.unitStep then
    .error "index depends on a non-unit-step induction variable"
  else if scale = 0 then .error "degenerate affine index"
  else
    match (affineRange innermost id scale offset).filter fitsI32 with
    | some range => .ok (.ofRange range, [])
    | none =>
      -- only the identity is exact without a range: its instance is the bound
      if scale = 1 ∧ offset = 0 then
        .ok (.inductionAffine scale offset innermost.lower innermost.upper,
          [innermost.upper, innermost.lower])
      else .error "non-identity affine instance could overflow i32"

def classifyIndex (index : TileRustValue SsaValue) (innermost : LoopFrame) :
    Except String (HoistIndex × List SsaValue) :=
  match index.bounds.filter fitsI32, index.value with
  | some bounds, _ => .ok (.ofRange bounds, [])
  | none, none => .error "index has no direct value"
  | none, some value =>
    match innermostAffine index value innermost with
    | some (id, scale, offset) => classifyAffine innermost id scale offset
    | none =>
      if value < innermost.valueWatermark then .ok (.invariant, [value])
      else .error "index is computed inside the loop body"

/-- Whether a check can leave the inner loop for the preheader of the outer one. -/
def crosses (dependencies : List SsaValue) (inner outer : LoopFrame) : Bool :=
  inner.preheaderBlock = outer.bodyBlock ∧ inner.knownNonEmpty ∧ !outer.hasEarlyExit ∧
    dependencies.all (· < outer.valueWatermark)

/-- Walk outward, over frames listed from the innermost, while the check may
cross. -/
def walkOutward (dependencies : List SsaValue) (inner : LoopFrame) :
    List LoopFrame → LoopFrame
  | [] => inner
  | outer :: rest =>
    if crosses dependencies inner outer then walkOutward dependencies outer rest else inner

/-- The run-time value of an extent operand, if the extent is not static. -/
def extentDependencies : Option (TileRustValue SsaValue) → Except String (List SsaValue)
  | none => .ok []
  | some extent =>
    match extent.value with
    | some value => .ok [value]
    | none => .error "dynamic shape operand has no direct value"

/-- Classify against the innermost loop, then walk outward. -/
def hoistFrom (index : TileRustValue SsaValue)
    (dynamicExtent : Option (TileRustValue SsaValue)) (block : Nat)
    (innermost : LoopFrame) (outer : List LoopFrame) :
    Except (Option String) (LoopFrame × HoistIndex) :=
  if block ≠ innermost.bodyBlock then
    .error (some "check sits inside a conditional block")
  else if innermost.hasEarlyExit then
    .error (some "the loop body has an early exit (`continue`)")
  else do
    let extentValues ← (extentDependencies dynamicExtent).mapError some
    let (kind, used) ← (classifyIndex index innermost).mapError some
    return (walkOutward (extentValues ++ used) innermost outer, kind)

/-- Where a check can go. Frames are listed from the innermost. A refusal may
carry the reason that diagnostics report. -/
def classifyHoist (policy : CheckOptimizations) (index : TileRustValue SsaValue)
    (dynamicExtent : Option (TileRustValue SsaValue)) (block : Nat)
    (frames : List LoopFrame) : Except (Option String) (LoopFrame × HoistIndex) :=
  if !policy.hoistToPreheaders then
    .error (some "preheader hoisting disabled by the check policy")
  else
    match frames with
    | [] => .error none
    | innermost :: outer => hoistFrom index dynamicExtent block innermost outer

/-! ## Emission -/

abbrev Emitted := TileRustValue (IrExpr SsaValue)

def compileConstant (value : Int) : Except Failure Emitted :=
  compileConstantFromExactBounds (.exact value) .i32

def newPrimitive (value : SsaValue) (type : ElementType) : Emitted :=
  { kind := .primitiveType, value := some (.leaf value), type }

def emitOp (op : TileBinaryOp) (lhs rhs : Emitted) : Except Failure Emitted :=
  compileBinaryOpFromValues lhs rhs op none

/-- Which extreme of an affine index a goal substitutes. -/
inductive Extreme where
  | strongest
  | weakest
deriving DecidableEq

def extremeBound (lower upper : SsaValue) (type : ElementType) :
    Bool → Except Failure Emitted
  | true => do emitOp .sub (newPrimitive upper type) (← compileConstant 1)
  | false => .ok (newPrimitive lower type)

def scaleInstance (scale : Int) (instance_ : Emitted) : Except Failure Emitted :=
  if scale = 1 then .ok instance_
  else do emitOp .mul instance_ (← compileConstant (IntegerFormat.i32.wrap scale))

def offsetInstance (offset : Int) (instance_ : Emitted) : Except Failure Emitted :=
  if offset = 0 then .ok instance_
  else do emitOp .add instance_ (← compileConstant (IntegerFormat.i32.wrap offset))

/-- One extreme instance of `scale * j + offset` for `j` in `[lower, upper)`. -/
def affineExtremeInstance (lower upper : SsaValue) (scale offset : Int)
    (extreme : Extreme) (type : ElementType) : Except Failure Emitted := do
  let atLastIteration : Bool := (0 < scale) = (extreme = .strongest)
  let bound ← extremeBound lower upper type atLastIteration
  let scaled ← scaleInstance scale bound
  offsetInstance offset scaled

/-- `shape / tile + min(shape % tile, 1)`: the tile count, in operations that
cannot overflow for a nonnegative extent. -/
def emitNumTiles (shape tile : Emitted) : Except Failure Emitted := do
  let quotient ← emitOp .div shape tile
  let remainder ← emitOp .rem shape tile
  let carry ← emitOp .min remainder (← compileConstant 1)
  emitOp .add quotient carry

structure ResidualCheck where
  block : Nat
  condition : IrExpr SsaValue
  message : String
  hoisted : Bool

/-- The smallest value a check may assume for its index, when one is known. -/
def lowerStatic (policy : CheckOptimizations) (index : TileRustValue SsaValue)
    (kind : Option HoistIndex) : Option Int :=
  if !policy.dischargeProofs then none
  else
    ((index.bounds.filter fitsI32).map Bounds.start).or
      (match kind with
       | some (.const min _) => some min
       | _ => none)

/-- The operand of the upper comparison: the strongest instance of the index. -/
def upperOperand (index : TileRustValue SsaValue) :
    Option HoistIndex → Except Failure Emitted
  | some (.inductionAffine scale offset lower upper) =>
    affineExtremeInstance lower upper scale offset .strongest index.type
  | some (.const _ max) => compileConstant max
  | some .invariant | none => .ok (index.mapHandle .leaf)

/-- The operand of the lower guard: the weakest instance of the index. -/
def lowerOperand (index : TileRustValue SsaValue) :
    Option HoistIndex → Except Failure Emitted
  | some (.inductionAffine scale offset lower upper) =>
    affineExtremeInstance lower upper scale offset .weakest index.type
  | _ => .ok (index.mapHandle .leaf)

/-- The extent operand: the run-time value, or the static extent as a constant. -/
def extentOperand (goals : AxisGoals) :
    Option (TileRustValue SsaValue) → Except Failure Emitted
  | some extent => .ok (extent.mapHandle .leaf)
  | none =>
    match goals.staticExtent with
    | some extent => compileConstant extent
    | none => .error
        (.panic "residual check without a dynamic extent has a static one")

def emitBelow (goals : AxisGoals) (dynamicExtent : Option (TileRustValue SsaValue))
    (kind : Option HoistIndex) : Except Failure Emitted := do
  let tile ← compileConstant goals.tile
  let index ← upperOperand goals.index kind
  let shape ← extentOperand goals dynamicExtent
  let numTiles ← emitNumTiles shape tile
  emitOp .lt index numTiles

/-- The lower goal, unless it is already decided. -/
def guardLower (index : TileRustValue SsaValue) (kind : Option HoistIndex)
    (below : Emitted) : Bool → Except Failure Emitted
  | true => do
    let operand ← lowerOperand index kind
    let zero ← compileConstant 0
    let nonneg ← emitOp .ge operand zero
    emitOp .bitAnd nonneg below
  | false => .ok below

/-- A loop that does not run has no access to check. -/
def guardVacuous (inBounds : Emitted) : Option (SsaValue × SsaValue) →
    Except Failure Emitted
  | some (lower, upper) => do
    let vacuous ← emitOp .le (newPrimitive upper .i32) (newPrimitive lower .i32)
    emitOp .bitOr vacuous inBounds
  | none => .ok inBounds

def emitCondition (goals : AxisGoals) (dynamicExtent : Option (TileRustValue SsaValue))
    (kind : Option HoistIndex) (needsLowerGuard : Bool)
    (guardBounds : Option (SsaValue × SsaValue)) : Except Failure Emitted := do
  let below ← emitBelow goals dynamicExtent kind
  let inBounds ← guardLower goals.index kind below needsLowerGuard
  guardVacuous inBounds guardBounds

def residualMessage (goals : AxisGoals) (needsLowerGuard : Bool) : String :=
  let shape := match goals.staticExtent with
    | some extent => s!"{extent}"
    | none => "?"
  s!"partition access out of bounds: dim {goals.axis}, block index >= ceil({shape}/"
    ++ s!"{goals.tile})" ++ (if needsLowerGuard then " or index < 0" else "")

def denyRemedy (axis : Nat) : String :=
  s!"For a loop counter, iterate `0..num_tiles(&partition, {axis})`, whose result "
    ++ "carries the axis it counts (a hand-computed `n / TILE` is the same number but "
    ++ "proves nothing); for an index from a different tensor, relate the extents with "
    ++ "`preconditions = (dim(a, i) == dim(b, j),)`; a tile-block id cannot be proven "
    ++ "against a partition's tile count today, since the launch grid counts CTA slabs "
    ++ "rather than tiles"

structure Placement where
  block : Nat
  /-- Bounds of a loop that may turn out empty. -/
  guardBounds : Option (SsaValue × SsaValue)
  kind : Option HoistIndex
  why : Option String

def choosePlacement (policy : CheckOptimizations) (index : TileRustValue SsaValue)
    (dynamicExtent : Option (TileRustValue SsaValue)) (block : Nat)
    (frames : List LoopFrame) : Placement :=
  match classifyHoist policy index dynamicExtent block frames with
  | .ok (frame, kind) =>
    { block := frame.preheaderBlock
      guardBounds := if frame.knownNonEmpty then none else some (frame.lower, frame.upper)
      kind := some kind
      why := none }
  | .error why => { block, guardBounds := none, kind := none, why }

/-- A negative smallest index is an error at compile time. -/
def rejectNegative (axis : Nat) : Option Int → Except Failure Unit
  | some min =>
    if min < 0 then
      .error (.jitError (s!"partition access out of bounds: dim {axis}, block index can "
        ++ s!"be {min} (0 <= index is required)"))
    else .ok ()
  | none => .ok ()

def FunctionCompiler.placeResidualCheck (compiler : FunctionCompiler) (goals : AxisGoals)
    (dynamicExtent : Option (TileRustValue SsaValue)) (block : Nat)
    (frames : List LoopFrame) : Except Failure ResidualCheck := do
  let placement := choosePlacement compiler.checkOpts goals.index dynamicExtent block frames
  let known := lowerStatic compiler.checkOpts goals.index placement.kind
  rejectNegative goals.axis known
  let detail := match placement.why with
    | some why => s!" ({why})"
    | none => ""
  compiler.denyResidualCheck
    s!"the bounds check for partition axis {goals.axis}{detail}" (denyRemedy goals.axis)
  let checked ← emitCondition goals dynamicExtent placement.kind known.isNone
    placement.guardBounds
  match checked.value with
  | some condition =>
    return { block := placement.block, condition, hoisted := placement.kind.isSome
             message := residualMessage goals known.isNone }
  | none => .error (.jitError "failed to compile a binary expression operand")

end CuTile
