import CuTile.Foundation.Selection
import CuTile.Tensor.Specialization

/-! # Kernel entries

The entry of a kernel receives a tensor as a pointer, its extents and its strides,
and rebuilds the tensor from them. On the way it tells the compiler what the
specialization promised. This module models the entry and says when the promises it
passes on are true.
-/

namespace CuTile

inductive TensorParamKind where
  | tensor
  | mappedPartitionMut (mapShape : List Int)
deriving DecidableEq, Repr

/-- A tensor parameter of a kernel; `-1` in a shape or stride is dynamic. -/
structure TensorInput where
  fnName : String
  varName : String
  inputTensorShape : List Int
  paramKind : TensorParamKind
  staticStrides : List Int
  mutable : Bool
  maxDivisibility : Option Int
  spec : Option SpecializationBits

inductive EntryVariable where
  | ptr
  | dim (axis : Nat)
  | stride (axis : Nat)
deriving DecidableEq, Repr

inductive EntryStatement where
  | assumeNonNegative (assumed : EntryVariable)
  | assumeDivBy (assumed : EntryVariable) (divisor : Int)
  | dims (dynamic : List EntryVariable)
  | shape (shapeParam : List Int)
  | strides (dynamic : List EntryVariable)
  | stridesArray (stridesParam : List Int)
  | token
  | makeTensorView (shapeParam : List Int)
  | partitionShape (shapeParam : List Int)
  | makeMappedPartitionView (shapeParam mapShape : List Int)
deriving DecidableEq, Repr

namespace TensorInput

variable (input : TensorInput)

def rank : Nat := input.inputTensorShape.length

def validate : Except String Unit := do
  if input.paramKind ≠ .tensor ∧ (input.rank < 1 ∨ 3 < input.rank) then
    throw "MappedPartitionMut parameters must have rank 1 through 3."
  if input.mutable ∧ 3 < input.rank then
    throw ("Unable to partition tensors with rank > 3. "
      ++ "Try collapsing dimensions to obtain rank 3 partitioned tensors.")
  if input.staticStrides.length ≠ input.rank then
    throw (s!"The tensor provided for parameter {input.varName} "
      ++ s!"may not have the rank expected by kernel {input.fnName}: "
      ++ s!"Tensor parameter {input.varName} "
      ++ s!"expects a tensor of rank {input.rank}, but {input.staticStrides.length} "
      ++ "strides were provided.")

def isDynamic (element : Int) : Bool := element == -1

def getDynamicElements (staticElements : List Int) : List Nat :=
  Selection.positionsFrom isDynamic 0 staticElements

/-- What was inferred, capped; the cap alone when nothing was inferred. -/
def effectiveDiv : Option Int → Int
  | some inferred => (input.maxDivisibility.map (min inferred)).getD inferred
  | none => input.maxDivisibility.getD 1

/-- The entry sees the whole tensor behind a mutable parameter. -/
def tensorViewShape : List Int :=
  if input.mutable then List.replicate input.rank (-1) else input.inputTensorShape

def assumeDiv (assumed : EntryVariable) (inferred : Option Int) : List EntryStatement :=
  if 1 < input.effectiveDiv inferred then
    [.assumeDivBy assumed (input.effectiveDiv inferred)]
  else []

/-- The assumptions on dynamic extents or strides. A hint is found by the position
of the axis among the dynamic ones. -/
def assumeElements (assumed : Nat → EntryVariable) (hints : Option (List DivHint))
    (dynamic : List Nat) : List EntryStatement :=
  dynamic.zipIdx.flatMap fun (axis, i) =>
    .assumeNonNegative (assumed axis) ::
      input.assumeDiv (assumed axis) ((hints.bind (·[i]?)).map DivHint.divisor)

def makeView : List EntryStatement :=
  match input.paramKind with
  | .tensor => [.makeTensorView input.inputTensorShape]
  | .mappedPartitionMut mapShape =>
    [.makeTensorView input.inputTensorShape, .partitionShape input.inputTensorShape,
      .makeMappedPartitionView input.inputTensorShape mapShape]

def generateStatements : List EntryStatement :=
  let dynamicDims := getDynamicElements input.tensorViewShape
  let dynamicStrides := getDynamicElements input.staticStrides
  input.assumeElements .dim (input.spec.map SpecializationBits.shapeDiv) dynamicDims
    ++ [.dims (dynamicDims.map .dim), .shape input.tensorViewShape]
    ++ input.assumeElements .stride (input.spec.map SpecializationBits.strideDiv)
      dynamicStrides
    ++ [.strides (dynamicStrides.map .stride), .stridesArray input.staticStrides, .token]
    ++ input.assumeDiv .ptr (input.spec.map (·.basePtrDiv.divisor))
    ++ input.makeView

/-! ## Which assumptions are made -/

@[simp] theorem mem_assumeDiv_iff {assumed who : EntryVariable} {inferred : Option Int}
    {divisor : Int} :
    .assumeDivBy who divisor ∈ input.assumeDiv assumed inferred ↔
      who = assumed ∧ divisor = input.effectiveDiv inferred ∧ 1 < divisor := by
  unfold assumeDiv
  split_ifs with assumes
  · simp only [List.mem_singleton, EntryStatement.assumeDivBy.injEq]
    exact ⟨fun ⟨same, equal⟩ => ⟨same, equal, equal ▸ assumes⟩,
      fun ⟨same, equal, _⟩ => ⟨same, equal⟩⟩
  · simp only [List.not_mem_nil, false_iff, not_and]
    intro _ equal
    rwa [equal]

theorem mem_assumeElements_iff {assumed : Nat → EntryVariable} {who : EntryVariable}
    {hints : Option (List DivHint)} {staticElements : List Int} {divisor : Int} :
    .assumeDivBy who divisor ∈
        input.assumeElements assumed hints (getDynamicElements staticElements) ↔
      ∃ axis, staticElements[axis]?.any isDynamic = true ∧ who = assumed axis ∧
        divisor = input.effectiveDiv
          ((hints.bind (·[Selection.rank isDynamic staticElements axis]?)).map
            DivHint.divisor) ∧ 1 < divisor := by
  have position (axis number : Nat) :
      (axis, number) ∈ (getDynamicElements staticElements).zipIdx ↔
        staticElements[axis]?.any isDynamic = true ∧
          number = Selection.rank isDynamic staticElements axis := by
    rw [List.mem_zipIdx_iff_getElem?, getDynamicElements,
      ← Selection.getElem?_positionsFrom isDynamic staticElements 0 number axis, zero_add]
  constructor
  · intro member
    rcases List.mem_flatMap.mp member with ⟨⟨axis, number⟩, isPosition, assumes⟩
    rcases (position axis number).mp isPosition with ⟨dynamic, rfl⟩
    rcases List.mem_cons.mp assumes with other | made
    · cases other
    · exact ⟨axis, dynamic, input.mem_assumeDiv_iff.mp made⟩
  · rintro ⟨axis, dynamic, made⟩
    exact List.mem_flatMap.mpr ⟨(axis, _), (position axis _).mpr ⟨dynamic, rfl⟩,
      List.mem_cons_of_mem _ (input.mem_assumeDiv_iff.mpr made)⟩

theorem mem_generateStatements_iff {who : EntryVariable} {divisor : Int} :
    .assumeDivBy who divisor ∈ input.generateStatements ↔
      .assumeDivBy who divisor ∈ input.assumeElements .dim
          (input.spec.map SpecializationBits.shapeDiv)
          (getDynamicElements input.tensorViewShape) ∨
      .assumeDivBy who divisor ∈ input.assumeElements .stride
          (input.spec.map SpecializationBits.strideDiv)
          (getDynamicElements input.staticStrides) ∨
      .assumeDivBy who divisor ∈ input.assumeDiv .ptr
          (input.spec.map (·.basePtrDiv.divisor)) := by
  have notView : .assumeDivBy who divisor ∉ input.makeView := by
    unfold makeView
    cases input.paramKind <;> simp
  simp only [generateStatements, List.mem_append, List.mem_cons, notView, reduceCtorEq,
    List.not_mem_nil, or_false, or_assoc]

theorem effectiveDiv_of_uncapped {inferred : Int} (uncapped : input.maxDivisibility = none) :
    input.effectiveDiv (some inferred) = inferred := by
  rw [effectiveDiv, uncapped, Option.map_none, Option.getD_none]

theorem strides_length_of_validate (valid : input.validate = .ok ()) :
    input.staticStrides.length = input.rank := by
  by_contra differ
  unfold validate at valid
  split_ifs at valid <;> cases valid

@[simp] theorem tensorViewShape_length : input.tensorViewShape.length = input.rank := by
  unfold tensorViewShape
  split_ifs
  · exact List.length_replicate
  · rfl

end TensorInput

/-! ## When they are true -/

/-- Every dynamic axis has the power-of-two divisors, up to sixteen, of the axis
whose position is its own position among the dynamic ones. -/
def CarriesDivisors (dynamic : α → Bool) (pattern : List α) (values : List Int) : Prop :=
  ∀ (axis : Nat) (value other : Int), pattern[axis]?.any dynamic = true →
    values[axis]? = some value →
    values[Selection.rank dynamic pattern axis]? = some other →
    ∀ exponent ≤ 4, (2 : Int) ^ exponent ∣ other → (2 : Int) ^ exponent ∣ value

theorem carriesDivisors_of_all_dynamic {dynamic : α → Bool} {pattern : List α}
    (all : ∀ element ∈ pattern, dynamic element) (values : List Int) :
    CarriesDivisors dynamic pattern values := by
  intro axis value other isDynamic isValue isOther exponent _ divides
  have inside : axis ≤ pattern.length := by
    by_contra outside
    rw [List.getElem?_eq_none (by omega)] at isDynamic
    cases isDynamic
  rw [Selection.rank_of_all all inside, isValue] at isOther
  rwa [Option.some.inj isOther]

theorem carriesDivisors_map {dynamic : β → Bool} {f : α → β} {pattern : List α}
    {values : List Int} :
    CarriesDivisors dynamic (pattern.map f) values ↔
      CarriesDivisors (dynamic ∘ f) pattern values := by
  simp only [CarriesDivisors, Selection.rank_map, List.getElem?_map, Option.any_map,
    Function.comp_def]

structure LaunchedTensor where
  ptr : Nat
  shape : List Int
  strides : List Int
  sameRank : strides.length = shape.length

namespace LaunchedTensor

variable (tensor : LaunchedTensor)

def spec : SpecializationBits := computeSpec tensor.ptr tensor.shape tensor.strides

def value : EntryVariable → Option Int
  | .ptr => some tensor.ptr
  | .dim axis => tensor.shape[axis]?
  | .stride axis => tensor.strides[axis]?

theorem strideDiv_eq : tensor.spec.strideDiv = tensor.strides.map DivHint.fromValue := by
  rw [spec, computeSpec, ← tensor.sameRank, List.take_length]

theorem stridesHint_eq :
    tensor.spec.stridesHint = tensor.strides.map fun stride => if stride == 1 then 1 else -1 := by
  rw [SpecializationBits.stridesHint, spec, computeSpec, ← tensor.sameRank, List.take_length,
    List.map_map]
  rfl

end LaunchedTensor

namespace TensorInput

variable {input : TensorInput}

/-- The assumptions on one vector are true exactly when hints read by rank carry
over to the axes they are read for. -/
theorem assumeElements_true_iff {assumed : Nat → EntryVariable}
    (injective : Function.Injective assumed) (uncapped : input.maxDivisibility = none)
    {staticElements values : List Int} (sameRank : staticElements.length = values.length) :
    (∀ axis divisor, .assumeDivBy (assumed axis) divisor ∈
        input.assumeElements assumed (some (values.map DivHint.fromValue))
          (getDynamicElements staticElements) →
        ∃ value, values[axis]? = some value ∧ divisor ∣ value) ↔
      CarriesDivisors isDynamic staticElements values := by
  have hinted {number : Nat} {other : Int} (isOther : values[number]? = some other) :
      input.effectiveDiv (((some (values.map DivHint.fromValue)).bind (·[number]?)).map
        DivHint.divisor) = (DivHint.fromValue other).divisor := by
    rw [Option.bind_some, List.getElem?_map, isOther, Option.map_some, Option.map_some,
      input.effectiveDiv_of_uncapped uncapped]
  constructor
  · intro allTrue axis value other dynamic isValue isOther
    apply ((DivHint.fromValue_largest other).dvd_other_iff value).mp
    rcases (DivHint.fromValue_largest other).one_le.eq_or_lt with trivial | assumes
    · rw [← trivial]
      exact one_dvd value
    · have made : .assumeDivBy (assumed axis) (DivHint.fromValue other).divisor ∈
          input.assumeElements assumed (some (values.map DivHint.fromValue))
            (getDynamicElements staticElements) :=
        input.mem_assumeElements_iff.mpr
          ⟨axis, dynamic, rfl, (hinted isOther).symm, assumes⟩
      rcases allTrue axis _ made with ⟨_, isFound, divides⟩
      rw [isValue] at isFound
      cases isFound
      exact divides
  · intro carries axis divisor made
    rcases input.mem_assumeElements_iff.mp made with ⟨_, dynamic, sameName, isDivisor, _⟩
    cases injective sameName
    have inside : axis < values.length := by
      rcases (Option.any_eq_true _ _).mp dynamic with ⟨_, isElement, _⟩
      rw [← sameRank]
      exact (List.getElem?_eq_some_iff.mp isElement).1
    have ranked := Selection.rank_le isDynamic staticElements axis
    have isValue := List.getElem?_eq_getElem inside
    have isOther := List.getElem?_eq_getElem (ranked.trans_lt inside)
    refine ⟨_, isValue, ?_⟩
    rw [isDivisor, hinted isOther]
    exact ((DivHint.fromValue_largest _).dvd_other_iff _).mpr
      (carries axis _ _ dynamic isValue isOther)

/-- What the entry knows of a tensor that it was specialized to. -/
theorem specialized_spec {tensor : LaunchedTensor} (valid : input.validate = .ok ())
    (specialized : input.spec = some tensor.spec)
    (hinted : input.staticStrides = tensor.spec.stridesHint) :
    input.tensorViewShape.length = tensor.shape.length ∧
      input.staticStrides.length = tensor.strides.length ∧
      input.spec.map SpecializationBits.shapeDiv = some (tensor.shape.map DivHint.fromValue) ∧
      input.spec.map SpecializationBits.strideDiv =
        some (tensor.strides.map DivHint.fromValue) := by
  have stridesRank : input.staticStrides.length = tensor.strides.length := by
    rw [hinted, tensor.stridesHint_eq, List.length_map]
  refine ⟨?_, stridesRank, ?_, ?_⟩
  · rw [input.tensorViewShape_length, ← input.strides_length_of_validate valid, stridesRank,
      tensor.sameRank]
  · rw [specialized]
    rfl
  · rw [specialized, Option.map_some, tensor.strideDiv_eq]

end TensorInput

/-- Every divisibility the entry assumes is true of the launched tensor exactly
when the dynamic axes have the divisors of the axes whose hints they read. The
pointer is always as aligned as assumed. -/
theorem generateStatements_divisible_iff (input : TensorInput) (tensor : LaunchedTensor)
    (valid : input.validate = .ok ()) (specialized : input.spec = some tensor.spec)
    (hinted : input.staticStrides = tensor.spec.stridesHint)
    (uncapped : input.maxDivisibility = none) :
    (∀ assumed divisor, .assumeDivBy assumed divisor ∈ input.generateStatements →
        ∃ value, tensor.value assumed = some value ∧ divisor ∣ value) ↔
      CarriesDivisors TensorInput.isDynamic input.tensorViewShape tensor.shape ∧
        CarriesDivisors (fun stride => stride != 1) tensor.strides tensor.strides := by
  rcases TensorInput.specialized_spec valid specialized hinted
    with ⟨shapeRank, stridesRank, shapeHints, strideHints⟩
  have dynamicStride : (TensorInput.isDynamic ∘ fun stride : Int => if stride == 1 then 1 else -1) =
      fun stride => stride != 1 := by
    funext stride
    by_cases isOne : stride = 1 <;> simp [TensorInput.isDynamic, isOne, bne]
  have dims := TensorInput.assumeElements_true_iff
    (fun _ _ same => EntryVariable.dim.inj same) uncapped shapeRank
  have strides := TensorInput.assumeElements_true_iff
    (fun _ _ same => EntryVariable.stride.inj same) uncapped stridesRank
  rw [← shapeHints] at dims
  rw [← strideHints, hinted, tensor.stridesHint_eq, carriesDivisors_map, dynamicStride,
    ← tensor.stridesHint_eq, ← hinted] at strides
  rw [← dims, ← strides]
  constructor
  · intro allTrue
    constructor
    · intro axis divisor made
      exact allTrue (.dim axis) divisor (input.mem_generateStatements_iff.mpr (.inl made))
    · intro axis divisor made
      exact allTrue (.stride axis) divisor
        (input.mem_generateStatements_iff.mpr (.inr (.inl made)))
  · rintro ⟨dimsTrue, stridesTrue⟩ assumed divisor made
    rcases input.mem_generateStatements_iff.mp made with ofDim | ofStride | ofPtr
    · rcases input.mem_assumeElements_iff.mp ofDim with ⟨axis, _, rfl, _⟩
      exact dimsTrue axis divisor ofDim
    · rcases input.mem_assumeElements_iff.mp ofStride with ⟨axis, _, rfl, _⟩
      exact stridesTrue axis divisor ofStride
    · rcases input.mem_assumeDiv_iff.mp ofPtr with ⟨rfl, isDivisor, _⟩
      rw [specialized, Option.map_some, input.effectiveDiv_of_uncapped uncapped] at isDivisor
      rw [isDivisor]
      exact ⟨tensor.ptr, rfl, (DivHint.fromPtr_largest tensor.ptr).dvd⟩

/-- Eight rows of sixty-four, of a kernel that declares no extent. -/
def eightRows : LaunchedTensor := ⟨4096, [8, 64], [64, 1], rfl⟩

def dynamicRows : TensorInput :=
  ⟨"kernel", "x", [-1, -1], .tensor, [-1, 1], false, none, some eightRows.spec⟩

theorem generateStatements_divisible_iff_dynamic :
    dynamicRows.validate = .ok () ∧
      ∀ assumed divisor, .assumeDivBy assumed divisor ∈ dynamicRows.generateStatements →
        ∃ value, eightRows.value assumed = some value ∧ divisor ∣ value := by
  refine ⟨rfl, ?_⟩
  apply (generateStatements_divisible_iff dynamicRows eightRows rfl rfl rfl rfl).mpr
  refine ⟨carriesDivisors_of_all_dynamic (by decide) _, ?_⟩
  intro axis _ _ dynamic isStride isOther _ _ divides
  match axis with
  | 0 =>
    cases isStride
    cases isOther
    exact divides
  | 1 => cases dynamic
  | _ + 2 => cases isStride

/-- Rows of three columns, of a kernel that declares the number of rows. -/
def threeColumns : LaunchedTensor := ⟨4096, [128, 3], [3, 1], rfl⟩

def staticRows : TensorInput :=
  ⟨"kernel", "x", [128, -1], .tensor, [-1, 1], false, none, some threeColumns.spec⟩

/-- The three columns are assumed to be a multiple of sixteen, as the rows are. -/
theorem generateStatements_assumes_false :
    staticRows.validate = .ok () ∧ staticRows.staticStrides = threeColumns.spec.stridesHint ∧
      .assumeDivBy (.dim 1) 16 ∈ staticRows.generateStatements ∧
      threeColumns.value (.dim 1) = some 3 ∧ ¬(16 : Int) ∣ 3 := by
  have hint : (DivHint.fromValue 128).divisor = 16 :=
    (DivHint.fromValue_largest 128).unique (PowerOfTwo.LargestUpTo.of_dvd (by decide))
  refine ⟨rfl, rfl, ?_, rfl, by decide⟩
  apply staticRows.mem_generateStatements_iff.mpr
  exact .inl (staticRows.mem_assumeElements_iff.mpr ⟨1, rfl, rfl, hint.symm, by decide⟩)

end CuTile
