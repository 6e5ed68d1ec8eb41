import CuTile.Checks.Emission
import CuTile.Foundation.Tiling
import CuTile.Tensor.LaunchGrid

/-! # Nested mutable partitions

A kernel may cut the slab of its block into smaller tiles. The tiles are those of
the whole tensor, so the compiler adds an offset to every local index. This
module models the offset and says when it keeps a block inside its slab.
-/

namespace CuTile

open IntegerFormat List Division

/-! ## The generated offset -/

/-- Tiles per slab, computed in `i64` and kept as `i32`. -/
def nestedRatio (outerDim nestedDim : Int) : Int :=
  IntegerFormat.i32.wrap ((outerDim + nestedDim - 1).tdiv nestedDim)

/-- The offset of one axis. `pid` is the block id along it. -/
def nestedOffset (pid : SsaValue) (outerDim nestedDim : Int) : Except Failure Emitted :=
  if nestedRatio outerDim nestedDim = 1 then .ok (newPrimitive pid .i32)
  else do
    emitOp .mul (newPrimitive pid .i32) (← compileConstant (nestedRatio outerDim nestedDim))

/-- The offsets of all axes; the block ids are consecutive values. -/
def nestedOffsets : SsaValue → List Int → List Int → Except Failure (List Emitted)
  | pid, outerDim :: outer, nestedDim :: nested => do
    let offset ← nestedOffset pid outerDim nestedDim
    let rest ← nestedOffsets (pid + 1) outer nested
    return offset :: rest
  | _, _, _ => .ok []

/-- Offsets exist only for a static slab. `pid` is the first of the block ids. -/
def compileNestedMutableAccessOffsetMetadata (outerShape nestedShape : List Int)
    (pid : SsaValue) : Except Failure (Option (List Emitted)) :=
  if outerShape.length ≠ nestedShape.length then
    .error (.jitError (s!"nested mutable partition rank mismatch: outer tile rank "
      ++ s!"{outerShape.length}, nested tile rank {nestedShape.length}"))
  else if 3 < outerShape.length then
    .error (.jitError ("nested mutable partition access offsets are only supported up to "
      ++ "rank 3"))
  else
    match nestedShape.zipIdx.find? (·.1 ≤ 0) with
    | some (nestedDim, axis) =>
      .error (.jitError ("nested mutable partition requires static positive nested tile "
        ++ s!"dimensions, got nested dim {nestedDim} at axis {axis}"))
    | none =>
      if outerShape.any (· ≤ 0) then .ok none
      else (nestedOffsets pid outerShape nestedShape).map some

def adjustIndex (offset index : Emitted) : Except Failure Emitted :=
  if index.bounds.any fun bounds => bounds.isExact ∧ bounds.start = 0 ∧ bounds.last = 0 then
    .ok offset
  else emitOp .add offset index

def adjustIndices : List Emitted → List Emitted → Except Failure (List Emitted)
  | offset :: offsets, index :: indexes => do
    let adjusted ← adjustIndex offset index
    let rest ← adjustIndices offsets indexes
    return adjusted :: rest
  | _, _ => .ok []

def offsetNestedMutableIndices (offsets indexes : List Emitted) :
    Except Failure (List Emitted) :=
  if offsets.length ≠ indexes.length then
    .error (.jitError (s!"nested mutable partition access offset rank mismatch: offset rank "
      ++ s!"{offsets.length}, index rank {indexes.length}"))
  else adjustIndices offsets indexes

/-! ## What the offset computes -/

/-- One axis of a tensor that is cut into slabs and tiles. -/
structure NestedAxis where
  extent : Int
  slab : Int
  tile : Int
  extentPositive : 0 < extent
  slabPositive : 0 < slab
  tilePositive : 0 < tile
  extentSmall : extent ≤ 2147483647
  slabSmall : slab ≤ 2147483647

namespace NestedAxis

variable (axis : NestedAxis)

/-- The tile of the tensor that a local index addresses, in wrapping `i32`. -/
def locate (block index : Int) : Int :=
  IntegerFormat.i32.wrap
    (IntegerFormat.i32.wrap (block * nestedRatio axis.slab axis.tile) + index)

theorem nestedRatio_eq :
    nestedRatio axis.slab axis.tile = ceilQuotient axis.slab axis.tile := by
  have small := axis.slabSmall
  have nonneg := ceilQuotient_nonneg axis.slabPositive.le axis.tilePositive
  have below := ceilQuotient_le_self axis.slabPositive.le axis.tilePositive
  rw [nestedRatio, add_sub_one_tdiv axis.slabPositive.le axis.tilePositive]
  exact wrap_i32 (by omega)

theorem locate_numbers :
    Tiling.Numbers axis.extent axis.slab axis.tile axis.locate := by
  intro block index blockNonneg indexNonneg inside
  have small := axis.extentSmall
  have count := ceilQuotient_nonneg axis.slabPositive.le axis.tilePositive
  have product := mul_nonneg blockNonneg count
  have start : i32.wrap (block * ceilQuotient axis.slab axis.tile) =
      block * ceilQuotient axis.slab axis.tile := by
    exact wrap_i32 (by omega)
  rw [locate, nestedRatio_eq, start]
  exact wrap_i32 (by omega)

theorem represents_block {block : Int}
    (inGrid : 0 ≤ block ∧ block < ceilQuotient axis.extent axis.slab) :
    i32.Represents block := by
  have below := ceilQuotient_le_self axis.extentPositive.le axis.slabPositive
  have small := axis.extentSmall
  rw [represents_i32]
  omega

def Safe : Prop := Tiling.AllConfined axis.extent axis.slab axis.tile axis.locate

theorem safe_iff :
    axis.Safe ↔ (axis.extent ≤ axis.slab ∨ axis.tile ∣ axis.slab) ∧
      (ceilQuotient axis.extent axis.slab * ceilQuotient axis.slab axis.tile - 1) *
        axis.tile < axis.extent :=
  Tiling.allConfined_iff axis.extentPositive axis.slabPositive axis.tilePositive
    axis.locate_numbers

end NestedAxis

/-- What one axis of an access does at run time. -/
structure AxisAccess where
  axis : NestedAxis
  block : Int
  index : Int
  tile : Int

section Lowering

variable {shifts : ShiftSemantics} {environment : Environment}

theorem nestedOffset_emits (axis : NestedAxis) {pid : SsaValue}
    (machine : i32.Represents (environment pid)) :
    Emits shifts environment (nestedOffset pid axis.slab axis.tile) .i32
      (i32.wrap (environment pid * nestedRatio axis.slab axis.tile)) := by
  unfold nestedOffset
  split_ifs with unit
  · rw [unit, mul_one, wrap_of_represents _ machine]
    exact Emits.pure (newPrimitive_sound pid rfl)
  · apply Emits.bind (compileConstant_emits (wrap_represents _ _))
    intro _ isRatio
    exact emitOp_wraps .mul (newPrimitive_sound pid rfl) isRatio nofun rfl rfl

theorem adjustIndex_emits {offset index : Emitted} {start value : Int}
    (isOffset : NodeSound shifts environment offset .i32 start)
    (machine : i32.Represents start)
    (isIndex : NodeSound shifts environment index .i32 value) :
    Emits shifts environment (adjustIndex offset index) .i32
      (i32.wrap (start + value)) := by
  unfold adjustIndex
  split_ifs with zero
  · rcases (Option.any_eq_true _ _).mp zero with ⟨bounds, known, isZero⟩
    have inside := (isIndex.interval bounds known).2
    rcases of_decide_eq_true isZero with ⟨_, startZero, lastZero⟩
    have valueZero : value = 0 := le_antisymm (lastZero ▸ inside.2) (startZero ▸ inside.1)
    rw [valueZero, add_zero, wrap_of_represents _ machine]
    exact Emits.pure isOffset
  · exact emitOp_wraps .add isOffset isIndex (by simp) rfl rfl

abbrev Computes (shifts : ShiftSemantics) (environment : Environment)
    (value : AxisAccess → Int) : List Emitted → List AxisAccess → Prop :=
  List.Forall₂ fun code access => NodeSound shifts environment code .i32 (value access)

theorem nestedOffsets_sound {axes : List AxisAccess} {pid : SsaValue}
    (blocks : ∀ (position : Nat) (access : AxisAccess), axes[position]? = some access →
      environment (pid + position) = access.block)
    (machine : ∀ access ∈ axes, i32.Represents access.block) :
    ∃ offsets, nestedOffsets pid (axes.map (·.axis.slab)) (axes.map (·.axis.tile)) =
        .ok offsets ∧
      Computes shifts environment (fun access => i32.wrap
        (access.block * nestedRatio access.axis.slab access.axis.tile)) offsets axes := by
  induction axes generalizing pid with
  | nil => exact ⟨[], rfl, .nil⟩
  | cons access rest induction =>
    have first : environment pid = access.block := blocks 0 access rfl
    have isMachine := machine access mem_cons_self
    rw [← first] at isMachine
    rcases nestedOffset_emits access.axis isMachine with ⟨offset, isOffset, sound⟩
    rw [first] at sound
    have restBlocks : ∀ (position : Nat) (other : AxisAccess), rest[position]? = some other →
        environment (pid + 1 + position) = other.block := by
      intro position other isOther
      rw [add_assoc, add_comm 1 position]
      exact blocks (position + 1) other isOther
    rcases induction restBlocks fun other member => machine other (mem_cons_of_mem _ member)
      with ⟨offsets, isOffsets, restSound⟩
    refine ⟨offset :: offsets, ?_, .cons sound restSound⟩
    simp only [map_cons, nestedOffsets, isOffset, isOffsets, bind, Except.bind, pure,
      Except.pure]

theorem adjustIndices_sound {start : AxisAccess → Int}
    {axes : List AxisAccess} {offsets operands : List Emitted}
    (machine : ∀ access, i32.Represents (start access))
    (isOffsets : Computes shifts environment start offsets axes)
    (isOperands : Computes shifts environment AxisAccess.index operands axes) :
    ∃ adjusted, adjustIndices offsets operands = .ok adjusted ∧
      Computes shifts environment
        (fun access => i32.wrap (start access + access.index)) adjusted axes := by
  induction isOffsets generalizing operands with
  | nil =>
    cases isOperands
    exact ⟨[], rfl, .nil⟩
  | cons isOffset _ induction =>
    cases isOperands with
    | cons isOperand rest =>
      rcases adjustIndex_emits isOffset (machine _) isOperand
        with ⟨code, isCode, sound⟩
      rcases induction rest with ⟨codes, isCodes, restSound⟩
      refine ⟨code :: codes, ?_, .cons sound restSound⟩
      simp only [adjustIndices, isCode, isCodes, bind, Except.bind, pure, Except.pure]

/-- A local index of every axis becomes the tile that `locate` says. -/
theorem offsetNestedMutableIndices_sound {axes : List AxisAccess}
    {offsets operands : List Emitted} {pid : SsaValue}
    (compiled : nestedOffsets pid (axes.map (·.axis.slab)) (axes.map (·.axis.tile)) =
      .ok offsets)
    (blocks : ∀ (position : Nat) (access : AxisAccess), axes[position]? = some access →
      environment (pid + position) = access.block)
    (machine : ∀ access ∈ axes, i32.Represents access.block)
    (isOperands : Computes shifts environment AxisAccess.index operands axes) :
    ∃ adjusted, offsetNestedMutableIndices offsets operands = .ok adjusted ∧
      Computes shifts environment
        (fun access => access.axis.locate access.block access.index) adjusted axes := by
  rcases nestedOffsets_sound blocks machine with ⟨_, isFound, isOffsets⟩
  rw [compiled] at isFound
  cases isFound
  have ranks : offsets.length = operands.length :=
    isOffsets.length_eq.trans isOperands.length_eq.symm
  rw [offsetNestedMutableIndices, if_neg (not_not.mpr ranks)]
  exact adjustIndices_sound (fun _ => wrap_represents _ _) isOffsets isOperands

end Lowering

theorem compileNestedMutableAccessOffsetMetadata_spec {outerShape nestedShape : List Int}
    {pid : SsaValue} {offsets : List Emitted}
    (compiled : compileNestedMutableAccessOffsetMetadata outerShape nestedShape pid =
      .ok (some offsets)) : nestedOffsets pid outerShape nestedShape = .ok offsets := by
  unfold compileNestedMutableAccessOffsetMetadata at compiled
  split_ifs at compiled with ranks high dynamic
  · split at compiled
    · cases compiled
    · cases compiled
  · split at compiled
    · cases compiled
    · cases found : nestedOffsets pid outerShape nestedShape with
      | error =>
        rw [found] at compiled
        cases compiled
      | ok =>
        rw [found] at compiled
        cases compiled
        rfl

/-! ## Blocks and their slabs -/

/-- An access through a nested view, in some block of the launch: the local
indices pass the bounds checks, and `tile` is what the generated code addresses. -/
structure NestedAccess (shifts : ShiftSemantics) (axes : List NestedAxis) (grid : Grid)
    (pid : SsaValue) (offsets : List Emitted) where
  environment : Environment
  accesses : List AxisAccess
  operands : List Emitted
  adjusted : List Emitted
  isAxes : accesses.map AxisAccess.axis = axes
  blocks : ∀ (position : Nat) (access : AxisAccess), accesses[position]? = some access →
    environment (pid + position) = access.block
  inGrid : ∀ (position : Nat) (access : AxisAccess), accesses[position]? = some access →
    0 ≤ access.block ∧ access.block < grid.axis position
  accepted : ∀ access ∈ accesses,
    0 ≤ access.index ∧ access.index * access.axis.tile < access.axis.slab
  indexed : Computes shifts environment AxisAccess.index operands accesses
  lowered : offsetNestedMutableIndices offsets operands = .ok adjusted
  addressed : List.Forall₂ (fun code access => ∃ ir, code.value = some ir ∧
    ir.eval shifts environment = some access.tile) adjusted accesses

namespace NestedAccess

variable {shifts : ShiftSemantics} {axes : List NestedAxis} {grid : Grid} {pid : SsaValue}
  {offsets : List Emitted}

/-- The access stays inside the tensor and inside the block's slab. -/
def Confined (access : NestedAccess shifts axes grid pid offsets) : Prop :=
  ∀ one ∈ access.accesses,
    Tiling.Confined one.axis.extent one.axis.slab one.axis.tile one.block one.tile

/-- The element of the tensor is in the tile of the access. -/
def Touches (access : NestedAccess shifts axes grid pid offsets) (element : Nat → Int) :
    Prop :=
  ∀ (position : Nat) (one : AxisAccess), access.accesses[position]? = some one →
    element position < one.axis.extent ∧ one.tile * one.axis.tile ≤ element position ∧
      element position < (one.tile + 1) * one.axis.tile

def OtherBlock (access other : NestedAccess shifts axes grid pid offsets) : Prop :=
  ∃ (position : Nat) (one another : AxisAccess), access.accesses[position]? = some one ∧
    other.accesses[position]? = some another ∧ one.block ≠ another.block

theorem axis_getElem? (access : NestedAccess shifts axes grid pid offsets) {position : Nat}
    {one : AxisAccess} (isOne : access.accesses[position]? = some one) :
    axes[position]? = some one.axis := by
  rw [← access.isAxes, getElem?_map, isOne, Option.map_some]

theorem forall_of_forall₂ {property : β → Prop} {left : List α} {right : List β}
    (related : Forall₂ (fun _ entry => property entry) left right) :
    ∀ entry ∈ right, property entry := by
  have both := related.flip.imp fun _ _ holds => And.intro holds trivial
  exact ((forall₂_and_left ..).mp both).1

/-- A chosen block and index along one axis, and zero elsewhere. -/
def choose (axes : List NestedAxis) (position : Nat) (block index : Int) :
    List AxisAccess :=
  axes.mapIdx fun other axis =>
    let chosenBlock := if other = position then block else 0
    let chosenIndex := if other = position then index else 0
    ⟨axis, chosenBlock, chosenIndex, axis.locate chosenBlock chosenIndex⟩

theorem choose_getElem? (axes : List NestedAxis) (position : Nat) (block index : Int)
    {other : Nat} {one : AxisAccess}
    (isOne : (choose axes position block index)[other]? = some one) :
    axes[other]? = some one.axis ∧ one.tile = one.axis.locate one.block one.index ∧
      one.block = (if other = position then block else 0) ∧
      one.index = (if other = position then index else 0) := by
  rw [choose, getElem?_mapIdx] at isOne
  rcases Option.map_eq_some_iff.mp isOne with ⟨axis, isAxis, rfl⟩
  exact ⟨isAxis, rfl, rfl, rfl⟩

theorem choose_axes (axes : List NestedAxis) (position : Nat) (block index : Int) :
    (choose axes position block index).map AxisAccess.axis = axes := by
  apply ext_getElem?
  intro other
  rw [getElem?_map, choose, getElem?_mapIdx, Option.map_map]
  cases axes[other]? <;> rfl

theorem computes_congr {environment : Environment} {first second : AxisAccess → Int}
    {codes : List Emitted} {accesses : List AxisAccess}
    (computes : Computes shifts environment first codes accesses)
    (same : ∀ one ∈ accesses, first one = second one) :
    Computes shifts environment second codes accesses := by
  apply ((forall₂_and_left ..).mpr ⟨same, computes.flip⟩).flip.imp
  intro code one ⟨equal, sound⟩
  rwa [← equal]

theorem exists_operands (environment : Environment) {accesses : List AxisAccess}
    (machine : ∀ one ∈ accesses, i32.Represents one.index) :
    ∃ operands, Computes shifts environment AxisAccess.index operands accesses := by
  induction accesses with
  | nil => exact ⟨[], .nil⟩
  | cons one _ induction =>
    rcases compileConstant_emits (machine one mem_cons_self)
      with ⟨operand, _, sound⟩
    rcases induction fun other member => machine other (mem_cons_of_mem _ member)
      with ⟨operands, computes⟩
    exact ⟨operand :: operands, .cons sound computes⟩

section Launched

variable (launched : partitionLaunchGrid (axes.map NestedAxis.extent)
  (axes.map fun axis => axis.slab.toNat) = .ok grid)

include launched

theorem grid_axis {position : Nat} {axis : NestedAxis} (isAxis : axes[position]? = some axis) :
    grid.axis position = ceilQuotient axis.extent axis.slab := by
  have blocks := (partitionLaunchGrid_axis launched).2 position axis.extent
    axis.slab.toNat (by rw [getElem?_map, isAxis, Option.map_some])
    (by rw [getElem?_map, isAxis, Option.map_some])
  rwa [Int.toNat_of_nonneg axis.slabPositive.le] at blocks

theorem block_inGrid (access : NestedAccess shifts axes grid pid offsets) {position : Nat}
    {one : AxisAccess} (isOne : access.accesses[position]? = some one) :
    0 ≤ one.block ∧ one.block < ceilQuotient one.axis.extent one.axis.slab := by
  rw [← grid_axis launched (access.axis_getElem? isOne)]
  exact access.inGrid position one isOne

variable (compiled : nestedOffsets pid (axes.map NestedAxis.slab) (axes.map NestedAxis.tile) =
  .ok offsets)

include compiled

/-- The tile addressed along each axis is the one `locate` gives. -/
theorem tile_eq (access : NestedAccess shifts axes grid pid offsets) :
    ∀ one ∈ access.accesses, one.tile = one.axis.locate one.block one.index := by
  have machine : ∀ one ∈ access.accesses, i32.Represents one.block := by
    intro one member
    rcases mem_iff_getElem?.mp member with ⟨_, isOne⟩
    exact one.axis.represents_block (access.block_inGrid launched isOne)
  rw [← access.isAxes, map_map, map_map] at compiled
  rcases offsetNestedMutableIndices_sound compiled access.blocks machine access.indexed
    with ⟨adjusted, isAdjusted, sound⟩
  rw [access.lowered] at isAdjusted
  cases isAdjusted
  -- both relations hold of the same code, axis by axis
  have same : Forall₂ (fun _ one => one.tile = one.axis.locate one.block one.index)
      access.adjusted access.accesses := by
    refine Forall₂.mp ?_ access.addressed sound
    rintro code one ⟨_, isCode, evaluates⟩ node
    rcases node.code with ⟨_, isCode', evaluates'⟩
    rw [isCode] at isCode'
    cases isCode'
    exact Option.some.inj (evaluates.symm.trans evaluates')
  exact forall_of_forall₂ same

/-- Every choice within the grid and the slab is an access of some block. -/
theorem exists_access (shifts : ShiftSemantics) {position : Nat} {axis : NestedAxis}
    {block index : Int} (isAxis : axes[position]? = some axis)
    (inGrid : 0 ≤ block ∧ block < ceilQuotient axis.extent axis.slab)
    (accepted : 0 ≤ index ∧ index * axis.tile < axis.slab) :
    ∃ access : NestedAccess shifts axes grid pid offsets,
      access.accesses = choose axes position block index := by
  let accesses := choose axes position block index
  let environment : Environment := fun value => if value = pid + position then block else 0
  have blockRange : ∀ (other : Nat) (one : AxisAccess), accesses[other]? = some one →
      0 ≤ one.block ∧ one.block < ceilQuotient one.axis.extent one.axis.slab := by
    intro other one isOne
    rcases choose_getElem? axes position block index isOne with ⟨isOther, _, isBlock, _⟩
    rw [isBlock]
    split_ifs with same
    · rw [same, isAxis] at isOther
      cases isOther
      exact inGrid
    · exact ⟨le_rfl, Tiling.count_pos one.axis.extentPositive one.axis.slabPositive⟩
  have indexRange : ∀ one ∈ accesses,
      0 ≤ one.index ∧ one.index * one.axis.tile < one.axis.slab := by
    intro one member
    rcases mem_iff_getElem?.mp member with ⟨other, isOne⟩
    rcases choose_getElem? axes position block index isOne with ⟨isOther, _, _, isIndex⟩
    rw [isIndex]
    split_ifs with same
    · rw [same, isAxis] at isOther
      cases isOther
      exact accepted
    · rw [zero_mul]
      exact ⟨le_rfl, one.axis.slabPositive⟩
  have blocks : ∀ (other : Nat) (one : AxisAccess), accesses[other]? = some one →
      environment (pid + other) = one.block := by
    intro other one isOne
    rw [(choose_getElem? axes position block index isOne).2.2.1]
    simp only [environment, Nat.add_left_cancel_iff]
  have machine : ∀ one ∈ accesses, i32.Represents one.block := by
    intro one member
    rcases mem_iff_getElem?.mp member with ⟨other, isOne⟩
    exact one.axis.represents_block (blockRange other one isOne)
  have indexMachine : ∀ one ∈ accesses, i32.Represents one.index := by
    intro one member
    have range := indexRange one member
    have small := one.axis.slabSmall
    have below := le_mul_of_one_le_right range.1 one.axis.tilePositive
    rw [represents_i32]
    omega
  have isAxes : accesses.map AxisAccess.axis = axes := choose_axes axes position block index
  rw [← isAxes, map_map, map_map] at compiled
  rcases exists_operands environment indexMachine with ⟨operands, indexed⟩
  rcases offsetNestedMutableIndices_sound compiled blocks machine indexed
    with ⟨adjusted, lowered, sound⟩
  have located : ∀ one ∈ accesses, one.axis.locate one.block one.index = one.tile := by
    intro _ member
    rcases mem_iff_getElem?.mp member with ⟨other, isOne⟩
    exact (choose_getElem? axes position block index isOne).2.1.symm
  refine ⟨⟨environment, accesses, operands, adjusted, isAxes, blocks, ?_, indexRange, indexed,
    lowered, (computes_congr sound located).imp fun _ _ node => node.code⟩, rfl⟩
  intro other one isOne
  have isOther := (choose_getElem? axes position block index isOne).1
  rw [grid_axis launched isOther]
  exact blockRange other one isOne

theorem confined_of_safe (access : NestedAccess shifts axes grid pid offsets)
    (safe : ∀ axis ∈ axes, axis.Safe) : access.Confined := by
  intro one member
  rcases mem_iff_getElem?.mp member with ⟨_, isOne⟩
  have isAxis := mem_of_getElem? (access.axis_getElem? isOne)
  have accepted := access.accepted one member
  rw [access.tile_eq launched compiled one member]
  have inGrid := access.block_inGrid launched isOne
  exact safe one.axis isAxis one.block one.index inGrid.1 inGrid.2 accepted.1 accepted.2

theorem safe_of_confined
    (confined : ∀ access : NestedAccess shifts axes grid pid offsets, access.Confined) :
    ∀ axis ∈ axes, axis.Safe := by
  intro axis member block index blockNonneg blockInGrid indexNonneg accepted
  rcases mem_iff_getElem?.mp member with ⟨position, isAxis⟩
  rcases exists_access launched compiled shifts isAxis ⟨blockNonneg, blockInGrid⟩
    ⟨indexNonneg, accepted⟩ with ⟨access, chosen⟩
  let one : AxisAccess := ⟨axis, block, index, axis.locate block index⟩
  have isOne : access.accesses[position]? = some one := by
    rw [chosen, choose, getElem?_mapIdx, isAxis]
    simp only [Option.map_some, if_pos, one]
  exact confined access one (mem_of_getElem? isOne)

end Launched

/-- Confined accesses of different blocks have no element in common. -/
theorem Confined.disjoint {access other : NestedAccess shifts axes grid pid offsets}
    (first : access.Confined) (second : other.Confined) (different : access.OtherBlock other)
    {element : Nat → Int} (touches : access.Touches element) :
    ¬other.Touches element := by
  intro touches'
  rcases different with ⟨position, one, another, isOne, isAnother, blocks⟩
  have sameAxis : one.axis = another.axis :=
    Option.some.inj ((access.axis_getElem? isOne).symm.trans (other.axis_getElem? isAnother))
  have confined := first one (mem_of_getElem? isOne)
  have confined' := second another (mem_of_getElem? isAnother)
  have inside := touches position one isOne
  have inside' := touches' position another isAnother
  rw [← sameAxis] at confined' inside'
  exact confined.disjoint one.axis.slabPositive confined' blocks inside.1 inside.2 inside'.2

end NestedAccess

/-- Nested tiles stay in the slab of their block, so that different blocks never
touch a common element, exactly when along every axis the tiles fill the slab (or
there is one slab only) and the last tile of the last slab starts in the tensor. -/
theorem nestedAccess_confined_iff {shifts : ShiftSemantics} {axes : List NestedAxis}
    {grid : Grid} {pid : SsaValue} {offsets : List Emitted}
    (launched : partitionLaunchGrid (axes.map NestedAxis.extent)
      (axes.map fun axis => axis.slab.toNat) = .ok grid)
    (compiled : compileNestedMutableAccessOffsetMetadata (axes.map NestedAxis.slab)
      (axes.map NestedAxis.tile) pid = .ok (some offsets)) :
    ((∀ access : NestedAccess shifts axes grid pid offsets, access.Confined) ∧
      ∀ access other : NestedAccess shifts axes grid pid offsets, access.OtherBlock other →
        ¬∃ element, access.Touches element ∧ other.Touches element) ↔
      ∀ axis ∈ axes, (axis.extent ≤ axis.slab ∨ axis.tile ∣ axis.slab) ∧
        (ceilQuotient axis.extent axis.slab * ceilQuotient axis.slab axis.tile - 1) *
          axis.tile < axis.extent := by
  have offsetsCompiled := compileNestedMutableAccessOffsetMetadata_spec compiled
  constructor
  · rintro ⟨confined, _⟩ axis member
    exact axis.safe_iff.mp
      (NestedAccess.safe_of_confined launched offsetsCompiled confined axis member)
  · intro condition
    have confined : ∀ access : NestedAccess shifts axes grid pid offsets, access.Confined := by
      intro access
      exact access.confined_of_safe launched offsetsCompiled fun axis member =>
        axis.safe_iff.mpr (condition axis member)
    refine ⟨confined, ?_⟩
    rintro access other different ⟨element, touches, touches'⟩
    exact (confined access).disjoint (confined other) different touches touches'

def NestedAxis.ofSizes (extent slab tile : Int) (positive : 0 < extent ∧ 0 < slab ∧ 0 < tile)
    (small : extent ≤ 2147483647 ∧ slab ≤ 2147483647) : NestedAxis :=
  ⟨extent, slab, tile, positive.1, positive.2.1, positive.2.2, small.1, small.2⟩

def evenAxis : NestedAxis :=
  .ofSizes 8 4 2 (by decide) (by decide)

theorem nestedAccess_confined_iff_even :
    ∃ offsets, compileNestedMutableAccessOffsetMetadata [4] [2] 0 = .ok (some offsets) ∧
      ∀ shifts, ∀ access : NestedAccess shifts [evenAxis] (2, 1, 1) 0 offsets,
        access.Confined := by
  have launched : partitionLaunchGrid ([evenAxis].map NestedAxis.extent)
      ([evenAxis].map fun axis => axis.slab.toNat) = .ok (2, 1, 1) := rfl
  refine ⟨_, rfl, fun shifts => ((nestedAccess_confined_iff launched rfl).mpr ?_).1⟩
  intro axis member
  rw [mem_singleton.mp member]
  decide

def raggedAxis : NestedAxis :=
  .ofSizes 20 10 4 (by decide) (by decide)

/-- The last tile of the first block covers elements of the second slab, and the
last tile of the second block starts after the tensor. -/
theorem nestedAccess_escapes :
    ∃ offsets, partitionLaunchGrid [20] [10] = .ok (2, 1, 1) ∧
      compileNestedMutableAccessOffsetMetadata [10] [4] 0 = .ok (some offsets) ∧
      ∀ shifts, ∃ first second : NestedAccess shifts [raggedAxis] (2, 1, 1) 0 offsets,
        first.accesses = [⟨raggedAxis, 0, 2, 2⟩] ∧ ¬first.Confined ∧
        second.accesses = [⟨raggedAxis, 1, 2, 5⟩] ∧ ¬second.Confined := by
  have launched : partitionLaunchGrid ([raggedAxis].map NestedAxis.extent)
      ([raggedAxis].map fun axis => axis.slab.toNat) = .ok (2, 1, 1) := rfl
  have isAxis : [raggedAxis][0]? = some raggedAxis := rfl
  refine ⟨_, rfl, rfl, ?_⟩
  intro shifts
  rcases NestedAccess.exists_access launched rfl shifts isAxis
    (show (0 : Int) ≤ 0 ∧ _ by decide) (show (0 : Int) ≤ 2 ∧ _ by decide) with ⟨first, isFirst⟩
  rcases NestedAccess.exists_access launched rfl shifts isAxis
    (show (0 : Int) ≤ 1 ∧ _ by decide) (show (0 : Int) ≤ 2 ∧ _ by decide)
    with ⟨second, isSecond⟩
  refine ⟨first, second, isFirst, ?_, isSecond, ?_⟩
  · intro confined
    have tile := confined ⟨raggedAxis, 0, 2, 2⟩ (isFirst ▸ mem_singleton_self _)
    exact absurd (tile.covered 10 (by decide) (by decide) (by decide)).2 (by decide)
  · intro confined
    have tile := confined ⟨raggedAxis, 1, 2, 5⟩ (isSecond ▸ mem_singleton_self _)
    exact absurd tile.starts (by decide)

end CuTile
