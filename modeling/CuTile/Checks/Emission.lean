import CuTile.Checks.Placement

/-! # What an emitted check computes

The comparison chain of a residual check, as the machine evaluates it: wrapping
arithmetic, operands folded where the compiler knows them, and the exact tile
count of the extent.
-/

namespace CuTile

open IntegerFormat

variable {shifts : ShiftSemantics} {environment : Environment}

/-- The generator succeeds, and the code it leaves computes `value`. -/
def Emits (shifts : ShiftSemantics) (environment : Environment)
    (generator : Except Failure Emitted) (type : ElementType) (value : Int) : Prop :=
  ∃ lowered, generator = .ok lowered ∧ NodeSound shifts environment lowered type value

namespace Emits

theorem pure {lowered : Emitted} {type : ElementType} {value : Int}
    (sound : NodeSound shifts environment lowered type value) :
    Emits shifts environment (.ok lowered) type value :=
  ⟨lowered, rfl, sound⟩

/-- Code is emitted in sequence: what follows may use what came before. -/
theorem bind {generator : Except Failure Emitted} {next : Emitted → Except Failure Emitted}
    {type result : ElementType} {value output : Int}
    (first : Emits shifts environment generator type value)
    (rest : ∀ lowered, NodeSound shifts environment lowered type value →
      Emits shifts environment (next lowered) result output) :
    Emits shifts environment (generator >>= next) result output := by
  rcases first with ⟨lowered, rfl, sound⟩
  exact rest lowered sound

end Emits

variable {type : ElementType}

section Operation

variable (op : TileBinaryOp) {lhs rhs : Emitted} {x y value : Int}

theorem emitOp_machine (left : NodeSound shifts environment lhs type x)
    (right : NodeSound shifts environment rhs type y) (supported : op ≠ .trueDiv)
    (machine : machineOp shifts op type x y = some value) :
    Emits shifts environment (emitOp op lhs rhs) (op.resultType type) value := by
  rcases compileBinaryOpFromValues_sound left right supported Option.getD_none
    with ⟨lowered, _, compiled, computed, sound⟩
  cases machine.symm.trans computed
  exact ⟨lowered, compiled, sound⟩

/-- A scalar operation that does not leave its result type. -/
theorem emitOp_emits {format : IntegerFormat} (left : NodeSound shifts environment lhs type x)
    (right : NodeSound shifts environment rhs type y) (supported : op ≠ .trueDiv)
    (isValue : op.mathematical x y = some value)
    (isFormat : (op.resultType type).format = some format) (fits : format.Represents value) :
    Emits shifts environment (emitOp op lhs rhs) (op.resultType type) value :=
  emitOp_machine op left right supported (machineOp_of_represents isValue isFormat fits)

theorem emitOp_wraps (left : NodeSound shifts environment lhs .i32 x)
    (right : NodeSound shifts environment rhs .i32 y) (supported : op ≠ .trueDiv)
    (isType : op.resultType .i32 = .i32) (isValue : op.mathematical x y = some value) :
    Emits shifts environment (emitOp op lhs rhs) .i32 (i32.wrap value) := by
  have machine : machineOp shifts op .i32 x y = some (i32.wrap value) := by
    rw [machineOp, isType, isValue]
    rfl
  exact isType ▸ emitOp_machine op left right supported machine

end Operation

theorem compileConstant_emits {value : Int} (fits : i32.Represents value) :
    Emits shifts environment (compileConstant value) .i32 value := by
  have wide : i64.Represents value := by
    rw [represents_i32] at fits
    rw [represents_i64]
    omega
  have isExact : (Bounds.exact value).isExact := by simp [Bounds.isExact, Bounds.exact]
  exact compileConstant_sound shifts environment isExact rfl rfl fits ⟨wide, wide⟩
    ⟨le_rfl, le_rfl⟩

theorem newPrimitive_sound (handle : SsaValue) (tracked : (intValueDomain type).isSome) :
    NodeSound shifts environment (newPrimitive handle type) type (environment handle) :=
  ⟨rfl, rfl, tracked, ⟨_, rfl, rfl⟩, nofun⟩

theorem mapHandle_sound {value : TileRustValue SsaValue} {handle : SsaValue} {number : Int}
    (kind : value.kind = .primitiveType) (typed : value.type = .i32)
    (isHandle : value.value = some handle) (reads : environment handle = number)
    (interval : ∀ bounds, value.bounds = some bounds → bounds.Fits ∧ number ∈ bounds) :
    NodeSound shifts environment (value.mapHandle .leaf) .i32 number :=
  ⟨kind, typed, rfl, ⟨.leaf handle, by simp [TileRustValue.mapHandle, isHandle],
    by rw [IrExpr.eval, reads]⟩, interval⟩

variable {extent : Int}

section NumTiles

variable {size : Int} (nonneg : 0 ≤ extent) (small : extent ≤ 2147483647) (positive : 1 ≤ size)

include nonneg small positive

/-- No step on the way to the tile count is above the extent. -/
theorem numTiles_represents : i32.Represents (extent.tdiv size) ∧
    i32.Represents (extent.tmod size) ∧ i32.Represents (min (extent.tmod size) 1) ∧
    i32.Represents (ceilQuotient extent size) := by
  have quotient : 0 ≤ extent.tdiv size ∧ extent.tdiv size ≤ extent :=
    ⟨Int.tdiv_nonneg nonneg (by omega), Int.tdiv_le_self size nonneg⟩
  have remainder : 0 ≤ extent.tmod size := Int.tmod_nonneg size nonneg
  have split := Int.mul_tdiv_add_tmod extent size
  have product : 0 ≤ size * extent.tdiv size := mul_nonneg (by omega) quotient.1
  have count := Division.ceilQuotient_le_self nonneg positive
  have countNonneg := Division.ceilQuotient_nonneg nonneg positive
  simp only [represents_i32]
  omega

theorem emitNumTiles_emits {shape tile : Emitted}
    (isShape : NodeSound shifts environment shape .i32 extent)
    (isTile : NodeSound shifts environment tile .i32 size) :
    Emits shifts environment (emitNumTiles shape tile) .i32 (ceilQuotient extent size) := by
  rcases numTiles_represents nonneg small positive with ⟨quotient, remainder, carry, count⟩
  unfold emitNumTiles
  apply Emits.bind (emitOp_emits .div isShape isTile nofun rfl rfl quotient)
  intro quotientCode isQuotient
  apply Emits.bind (emitOp_emits .rem isShape isTile nofun rfl rfl remainder)
  intro remainderCode isRemainder
  apply Emits.bind (compileConstant_emits (by decide : i32.Represents 1))
  intro one isOne
  apply Emits.bind (emitOp_emits .min isRemainder isOne nofun rfl rfl carry)
  intro carryCode isCarry
  apply emitOp_emits .add isQuotient isCarry nofun _ rfl count
  exact congrArg some (Division.tdiv_add_min_tmod nonneg positive)

end NumTiles

/-! ## The comparison chain -/

/-- The extent a check compares against, where the check runs. -/
structure ExtentFacts (goals : AxisGoals) (dynamicExtent : Option (TileRustValue SsaValue))
    (environment : Environment) (extent : Int) : Prop where
  nonneg : 0 ≤ extent
  small : extent ≤ 2147483647
  static : dynamicExtent = none → goals.staticExtent = some extent
  kind : ∀ operand, dynamicExtent = some operand →
    operand.kind = .primitiveType ∧ operand.type = .i32
  value : ∀ operand, dynamicExtent = some operand →
    ∃ handle, operand.value = some handle ∧ environment handle = extent
  interval : ∀ operand, dynamicExtent = some operand →
    ∀ bounds, operand.bounds = some bounds → bounds.Fits ∧ extent ∈ bounds

variable {goals : AxisGoals} {dynamicExtent : Option (TileRustValue SsaValue)}

theorem extentOperand_emits (facts : ExtentFacts goals dynamicExtent environment extent) :
    Emits shifts environment (extentOperand goals dynamicExtent) .i32 extent := by
  have nonneg := facts.nonneg
  have small := facts.small
  cases dynamicExtent with
  | none =>
    rw [extentOperand, facts.static rfl]
    apply compileConstant_emits
    rw [represents_i32]
    omega
  | some operand =>
    rcases facts.kind operand rfl with ⟨kind, typed⟩
    rcases facts.value operand rfl with ⟨_, isHandle, reads⟩
    exact Emits.pure (mapHandle_sound kind typed isHandle reads (facts.interval operand rfl))

theorem emitOp_flag (op : TileBinaryOp) {lhs rhs : Emitted} {x y : Int} {verdict : Prop}
    [Decidable verdict] (left : NodeSound shifts environment lhs type x)
    (right : NodeSound shifts environment rhs type y) (supported : op ≠ .trueDiv)
    (isBool : op.resultType type = .bool)
    (isValue : op.mathematical x y = some (indicator verdict)) :
    Emits shifts environment (emitOp op lhs rhs) .bool (indicator verdict) := by
  have bit : Represents ⟨1, false, by decide⟩ (indicator verdict) := by
    unfold indicator
    split_ifs
    · decide
    · decide
  rw [← isBool]
  exact emitOp_emits op left right supported isValue (isBool ▸ rfl) bit

theorem mathematical_bitAnd (first second : Prop) [Decidable first] [Decidable second] :
    TileBinaryOp.bitAnd.mathematical (indicator first) (indicator second) =
      some (indicator (first ∧ second)) := by
  by_cases isFirst : first <;> by_cases isSecond : second <;>
    simp only [indicator, isFirst, isSecond, and_true, and_false, if_true, if_false] <;> rfl

theorem mathematical_bitOr (first second : Prop) [Decidable first] [Decidable second] :
    TileBinaryOp.bitOr.mathematical (indicator first) (indicator second) =
      some (indicator (first ∨ second)) := by
  by_cases isFirst : first <;> by_cases isSecond : second <;>
    simp only [indicator, isFirst, isSecond, or_true, or_false, if_true, if_false] <;> rfl

variable {kind : Option HoistIndex}

theorem emitBelow_emits {strongest : Int}
    (facts : ExtentFacts goals dynamicExtent environment extent) (positive : 1 ≤ goals.tile)
    (machine : i32.Represents goals.tile)
    (upper : Emits shifts environment (upperOperand goals.index kind) .i32 strongest) :
    Emits shifts environment (emitBelow goals dynamicExtent kind) .bool
      (indicator (strongest < ceilQuotient extent goals.tile)) := by
  unfold emitBelow
  apply Emits.bind (compileConstant_emits machine)
  intro _ isTile
  apply Emits.bind upper
  intro _ isIndex
  apply Emits.bind (extentOperand_emits facts)
  intro _ isShape
  apply Emits.bind (emitNumTiles_emits facts.nonneg facts.small positive isShape isTile)
  intro _ isCount
  exact emitOp_flag .lt isIndex isCount nofun rfl rfl

theorem guardLower_emits {index : TileRustValue SsaValue} {below : Emitted} {isBelow : Prop}
    [Decidable isBelow] {needed : Bool} {weakest : Int}
    (sound : NodeSound shifts environment below .bool (indicator isBelow))
    (lower : needed = true → Emits shifts environment (lowerOperand index kind) .i32 weakest) :
    Emits shifts environment (guardLower index kind below needed) .bool
      (indicator ((needed = true → 0 ≤ weakest) ∧ isBelow)) := by
  cases needed with
  | false => simpa [guardLower] using Emits.pure sound
  | true =>
    unfold guardLower
    apply Emits.bind (lower rfl)
    intro operand isOperand
    apply Emits.bind (compileConstant_emits (by decide : i32.Represents 0))
    intro _ isZero
    apply Emits.bind (emitOp_flag .ge isOperand isZero nofun rfl rfl)
    intro _ isNonneg
    simpa only [true_implies] using
      emitOp_flag .bitAnd isNonneg sound nofun rfl (mathematical_bitAnd _ _)

theorem guardVacuous_emits {inBounds : Emitted} {isInBounds : Prop} [Decidable isInBounds]
    (sound : NodeSound shifts environment inBounds .bool (indicator isInBounds))
    (guardBounds : Option (SsaValue × SsaValue)) :
    Emits shifts environment (guardVacuous inBounds guardBounds) .bool
      (indicator ((∃ bounds ∈ guardBounds, environment bounds.2 ≤ environment bounds.1) ∨
        isInBounds)) := by
  cases guardBounds with
  | none => simpa [guardVacuous] using Emits.pure sound
  | some bounds =>
    unfold guardVacuous
    apply Emits.bind (emitOp_flag .le (newPrimitive_sound bounds.2 rfl)
      (newPrimitive_sound bounds.1 rfl) nofun rfl rfl)
    intro _ isVacuous
    simpa using emitOp_flag .bitOr isVacuous sound nofun rfl (mathematical_bitOr _ _)

/-- The whole chain: it tests the strongest instance against the tile count and,
where needed, the weakest against zero, unless the guarded loop is empty. -/
theorem emitCondition_emits {needed : Bool} {strongest weakest : Int}
    (facts : ExtentFacts goals dynamicExtent environment extent) (positive : 1 ≤ goals.tile)
    (machine : i32.Represents goals.tile)
    (upper : Emits shifts environment (upperOperand goals.index kind) .i32 strongest)
    (lower : needed = true →
      Emits shifts environment (lowerOperand goals.index kind) .i32 weakest)
    (guardBounds : Option (SsaValue × SsaValue)) :
    Emits shifts environment (emitCondition goals dynamicExtent kind needed guardBounds) .bool
      (indicator ((∃ bounds ∈ guardBounds, environment bounds.2 ≤ environment bounds.1) ∨
        ((needed = true → 0 ≤ weakest) ∧
          strongest < ceilQuotient extent goals.tile))) := by
  unfold emitCondition
  apply Emits.bind (emitBelow_emits facts positive machine upper)
  intro _ isBelow
  apply Emits.bind (guardLower_emits isBelow lower)
  intro _ isInBounds
  exact guardVacuous_emits isInBounds guardBounds

/-- The static rung decides the same two goals, for both ends of the range of the index. -/
theorem foldStatic_ok_iff {bounds : Bounds Int} (ranged : goals.index.bounds = some bounds)
    (known : goals.staticExtent = some extent) (nonneg : 0 ≤ extent) (positive : 1 ≤ goals.tile) :
    foldStatic goals = some (.ok ()) ↔
      0 ≤ bounds.start ∧ bounds.last * goals.tile < extent := by
  rw [← Division.lt_ceilQuotient_iff positive, ← Division.add_sub_one_tdiv nonneg positive]
  simp only [foldStatic, ranged, known, bind, Option.bind_some, pure, Option.some_inj]
  split_ifs with both
  · exact iff_of_true rfl both
  · exact iff_of_false (by simp) both

/-- A residual check on an index that it reads as it is. The tile count is exact, no step
of it wraps, and the comparisons decide the linear goals, as the static rung does. -/
theorem residualCheck_decides_goals (shifts : ShiftSemantics) (environment : Environment)
    (goals : AxisGoals) (dynamicExtent : Option (TileRustValue SsaValue)) (extent : Int)
    (facts : ExtentFacts goals dynamicExtent environment extent) (positive : 1 ≤ goals.tile)
    (small : goals.tile ≤ 2147483647) (handle : SsaValue)
    (isKind : goals.index.kind = .primitiveType) (typed : goals.index.type = .i32)
    (isHandle : goals.index.value = some handle)
    (interval : ∀ bounds, goals.index.bounds = some bounds →
      bounds.Fits ∧ environment handle ∈ bounds)
    (kind : Option HoistIndex) (direct : kind = none ∨ kind = some .invariant)
    (guardBounds : Option (SsaValue × SsaValue)) :
    (machineOp shifts .div .i32 extent goals.tile = some (extent.tdiv goals.tile) ∧
      machineOp shifts .rem .i32 extent goals.tile = some (extent.tmod goals.tile) ∧
      machineOp shifts .min .i32 (extent.tmod goals.tile) 1 =
        some (min (extent.tmod goals.tile) 1) ∧
      machineOp shifts .add .i32 (extent.tdiv goals.tile) (min (extent.tmod goals.tile) 1) =
        some (ceilQuotient extent goals.tile)) ∧
    Emits shifts environment
      (do emitNumTiles (← extentOperand goals dynamicExtent) (← compileConstant goals.tile))
      .i32 (ceilQuotient extent goals.tile) ∧
    Emits shifts environment (emitCondition goals dynamicExtent kind true guardBounds) .bool
      (indicator ((∃ bounds ∈ guardBounds, environment bounds.2 ≤ environment bounds.1) ∨
        (0 ≤ environment handle ∧ environment handle * goals.tile < extent))) ∧
    ∀ bounds, goals.index.bounds = some bounds → goals.staticExtent = some extent →
      (foldStatic goals = some (.ok ()) ↔
        0 ≤ bounds.start ∧ bounds.last * goals.tile < extent) := by
  have machine : i32.Represents goals.tile := by
    rw [represents_i32]
    omega
  have index : Emits shifts environment (.ok (goals.index.mapHandle .leaf)) .i32
      (environment handle) := .pure (mapHandle_sound isKind typed isHandle rfl interval)
  have operands : upperOperand goals.index kind = .ok (goals.index.mapHandle .leaf) ∧
      lowerOperand goals.index kind = .ok (goals.index.mapHandle .leaf) := by
    rcases direct with rfl | rfl <;> exact ⟨rfl, rfl⟩
  rcases numTiles_represents facts.nonneg facts.small positive
    with ⟨quotient, remainder, carry, count⟩
  have sum := congrArg some (Division.tdiv_add_min_tmod facts.nonneg positive)
  refine ⟨⟨machineOp_of_represents rfl rfl quotient, machineOp_of_represents rfl rfl remainder,
    machineOp_of_represents rfl rfl carry, machineOp_of_represents sum rfl count⟩, ?_, ?_, ?_⟩
  · apply Emits.bind (extentOperand_emits facts)
    intro _ isShape
    apply Emits.bind (compileConstant_emits machine)
    intro _ isTile
    exact emitNumTiles_emits facts.nonneg facts.small positive isShape isTile
  · have condition := emitCondition_emits facts positive machine (operands.1 ▸ index)
      (fun _ : true = true => operands.2 ▸ index) guardBounds
    simpa only [true_implies, Division.lt_ceilQuotient_iff positive] using condition
  · intro bounds ranged known
    exact foldStatic_ok_iff ranged known facts.nonneg positive

/-- The largest extent, of which the last tile is cut. -/
theorem residualCheck_decides_goals_largest :
    let index : TileRustValue SsaValue :=
      { kind := .primitiveType, value := some 1, type := .i32 }
    Emits (fun _ _ _ _ => 0) (fun handle => if handle = 0 then 2147483647 else 2147483)
      (emitCondition ⟨0, 0, 1000, none, index⟩ (some { index with value := some 0 }) none true
        none) .bool 1 := by
  intro index
  have decides := residualCheck_decides_goals (fun _ _ _ _ => 0)
    (fun handle => if handle = 0 then 2147483647 else 2147483) ⟨0, 0, 1000, none, index⟩
    (some { index with value := some 0 }) 2147483647
    ⟨by decide, by decide, nofun, by simp [index], by simp [index], by simp [index]⟩ (by decide)
    (by decide) 1 rfl rfl rfl nofun none (.inl rfl) none
  simpa [indicator] using decides.2.2.1

end CuTile
