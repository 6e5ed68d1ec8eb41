import CuTile.Compiler.KernelEntry
import CuTile.Foundation.Fallible
import Mathlib.Data.Nat.Prime.Basic

/-! # Capped divisibility hints

A kernel may cap the divisors that are inferred from its arguments, by an optimization
hint of the entry or by a compile option. The cap is any number, and a hint is capped by
taking the minimum. This module says which caps keep the assumptions of the entry true.
-/

namespace CuTile

open IntegerFormat Fallible Option DivHint

/-! ## Where caps come from -/

/-- The expressions that optimization hints are read from. -/
inductive HintExpr where
  | intLiteral (value : Nat)
  | otherLiteral
  | path (segments : List String)
  | assign (left right : HintExpr)
  | tuple (elems : List HintExpr)
  | other

/-- Hints for one architecture. -/
structure SMHints where
  gpuName : String
  numCtaInCga : Option Int := none
  occupancy : Option Int := none
  maxDivisibility : Option Int := none
  numWorkerWarpsPerCta : Option Int := none

def getIntHint : HintExpr → Except String Int
  | .intLiteral value =>
    if IntegerFormat.i32.Represents value then .ok value
    else .error "Failed to parse int hint: number too large to fit in target type"
  | .otherLiteral => .error "expected an integer literal for optimization hint"
  | _ => .error "expected a literal value for optimization hint"

/-- A hint may be set once. -/
def setHint (name : String) (current : Option Int) (hint : HintExpr) :
    Except String (Option Int) :=
  if current.isSome then .error s!"{name} hint has already been set"
  else (getIntHint hint).map some

namespace SMHints

variable (hints : SMHints)

def setNumCtaInCga (hint : HintExpr) : Except String SMHints := do
  return { hints with numCtaInCga := ← setHint "num_cta_in_cga" hints.numCtaInCga hint }

def setOccupancy (hint : HintExpr) : Except String SMHints := do
  return { hints with occupancy := ← setHint "occupancy" hints.occupancy hint }

def setMaxDivisibility (hint : HintExpr) : Except String SMHints := do
  return { hints with
    maxDivisibility := ← setHint "max_divisibility" hints.maxDivisibility hint }

def setNumWorkerWarpsPerCta (hint : HintExpr) : Except String SMHints := do
  return { hints with
    numWorkerWarpsPerCta :=
      ← setHint "num_worker_warps_per_cta" hints.numWorkerWarpsPerCta hint }

def set (key : String) (hint : HintExpr) : Except String SMHints :=
  match key with
  | "num_cta_in_cga" => hints.setNumCtaInCga hint
  | "occupancy" => hints.setOccupancy hint
  | "max_divisibility" => hints.setMaxDivisibility hint
  | "num_worker_warps_per_cta" => hints.setNumWorkerWarpsPerCta hint
  | "allow_tma" | "latency" =>
    .error (s!"'{key}' is a per-op hint and cannot be set at the entry level. "
      ++ "Use it as a parameter on individual load/store operations instead.")
  | _ => .error s!"Unexpected optimization hint key '{key}'."

end SMHints

structure OptimizationHints where
  targetGpuName : Option String := none
  tileAsHints : String → Option SMHints := fun _ => none

/-- Options of one launch, as far as they become hints. -/
structure CompileOptions where
  occupancy : Option Int := none
  numCtaInCga : Option Int := none
  maxDivisibility : Option Int := none
  numWorkerWarpsPerCta : Option Int := none

namespace OptimizationHints

def insert (hints : OptimizationHints) (key : String) (value : SMHints) : OptimizationHints :=
  { hints with
    tileAsHints := fun other => if other = key then some value else hints.tileAsHints other }

def parseKeyValue : HintExpr → Except String (String × HintExpr)
  | .assign (.path [key]) value => .ok (key, value)
  | .assign (.path segments) _ =>
    .error (s!"Expected single-segment path in optimization hints key, got "
      ++ s!"{segments.length} segments.")
  | .assign _ _ =>
    .error "Expected path expression on LHS of optimization hints assignment."
  | _ => .error "expected an assignment expression in optimization hints"

/-- The hints of one architecture. `tokens` prints an expression as it was written. -/
def parseArchitecture (tokens : HintExpr → String) (result : OptimizationHints)
    (elem : HintExpr) : Except String OptimizationHints := do
  let (key, value) ← parseKeyValue elem
  if ¬key.startsWith "sm_" then
    throw s!"Unexpected optimization hint {tokens elem}."
  match value with
  | .tuple hints =>
    let architecture ← hints.foldlM (fun (architecture : SMHints) hint => do
      let (key, value) ← parseKeyValue hint
      architecture.set key value) { gpuName := key }
    if (result.tileAsHints key).isSome then
      throw s!"Duplicate optimization hint key '{key}'."
    return result.insert key architecture
  | _ => throw "expected a tuple expression for architecture-specific optimization hints"

def parse (tokens : HintExpr → String) (expr : HintExpr) (targetGpuName : String) :
    Except String OptimizationHints :=
  match expr with
  | .tuple elems =>
    elems.foldlM (parseArchitecture tokens) { targetGpuName := some targetGpuName }
  | _ => .error "expected a tuple expression for optimization hints"

/-- Options of the launch go before hints of the entry. -/
def applyCompileOptions (hints : OptimizationHints) (options : CompileOptions) :
    OptimizationHints :=
  if options.occupancy.isNone ∧ options.numCtaInCga.isNone ∧ options.maxDivisibility.isNone ∧
      options.numWorkerWarpsPerCta.isNone then hints
  else
    let targetArch := hints.targetGpuName.getD "sm_100"
    let found := (hints.tileAsHints targetArch).getD { gpuName := targetArch }
    hints.insert targetArch { found with
      occupancy := options.occupancy.or found.occupancy
      numCtaInCga := options.numCtaInCga.or found.numCtaInCga
      maxDivisibility := options.maxDivisibility.or found.maxDivisibility
      numWorkerWarpsPerCta := options.numWorkerWarpsPerCta.or found.numWorkerWarpsPerCta }

/-- The cap on divisors, for scalars, pointers and tensors alike. -/
def maxDivisibility (hints : OptimizationHints) : Option Int := do
  let target ← hints.targetGpuName
  (← hints.tileAsHints target).maxDivisibility

end OptimizationHints

def entryHints (tokens : HintExpr → String) (gpuName : String) :
    Option HintExpr → Except String OptimizationHints
  | some expr => OptimizationHints.parse tokens expr gpuName
  | none => .ok { targetGpuName := some gpuName }

def compileHints (tokens : HintExpr → String) (gpuName : String) (expr : Option HintExpr)
    (options : CompileOptions) : Except String OptimizationHints := do
  return (← entryHints tokens gpuName expr).applyCompileOptions options

namespace OptimizationHints

theorem target_of_parseArchitecture {tokens : HintExpr → String} {elem : HintExpr}
    {before after : OptimizationHints}
    (ok : parseArchitecture tokens before elem = .ok after) :
    after.targetGpuName = before.targetGpuName := by
  rcases bind_eq_ok_iff.mp ok with ⟨⟨key, value⟩, _, ok⟩
  simp only at ok
  by_cases unexpected : ¬key.startsWith "sm_" = true
  · rw [if_pos unexpected] at ok
    cases ok
  rw [if_neg unexpected] at ok
  cases value with
  | tuple =>
    rcases bind_eq_ok_iff.mp ok with ⟨_, _, ok⟩
    by_cases duplicate : (before.tileAsHints key).isSome = true
    · rw [if_pos duplicate] at ok
      cases ok
    rw [if_neg duplicate] at ok
    cases ok
    rfl
  | _ => cases ok

theorem target_of_entryHints {tokens : HintExpr → String} {gpuName : String}
    {expr : Option HintExpr} {hints : OptimizationHints}
    (ok : entryHints tokens gpuName expr = .ok hints) :
    hints.targetGpuName = some gpuName := by
  have fold (elems : List HintExpr) (before : OptimizationHints)
      (isTarget : before.targetGpuName = some gpuName)
      (ok : elems.foldlM (parseArchitecture tokens) before = .ok hints) :
      hints.targetGpuName = some gpuName := by
    induction elems generalizing before with
    | nil =>
      cases ok
      exact isTarget
    | cons _ _ induction =>
      rw [List.foldlM_cons] at ok
      rcases bind_eq_ok_iff.mp ok with ⟨next, isNext, ok⟩
      exact induction next ((target_of_parseArchitecture isNext).trans isTarget) ok
  cases expr with
  | none =>
    cases ok
    rfl
  | some expr =>
    cases expr with
    | tuple elems => exact fold elems _ rfl ok
    | _ => cases ok

/-- An option of the launch goes before the hint of the entry. -/
theorem maxDivisibility_applyCompileOptions {hints : OptimizationHints} {gpuName : String}
    (isTarget : hints.targetGpuName = some gpuName) (options : CompileOptions) :
    (hints.applyCompileOptions options).maxDivisibility =
      options.maxDivisibility.or hints.maxDivisibility := by
  unfold applyCompileOptions
  split_ifs with unset
  · rw [isNone_iff_eq_none.mp unset.2.2.1, none_or]
  · cases known : hints.tileAsHints gpuName with
    | none => simp [maxDivisibility, insert, isTarget, known]
    | some => simp [maxDivisibility, insert, isTarget, known]

end OptimizationHints

/-! ## Where they are applied -/

/-- The hint of a scalar or a raw pointer, capped. -/
def scalarHint (cap : Option Int) (hint : DivHint) : DivHint :=
  (cap.map hint.withMax).getD hint

/-- The divisor that the entry assumes for a scalar or a raw pointer. -/
def assumedDivisor (hint : DivHint) : Option Int :=
  if 1 < hint.divisor then some hint.divisor else none

/-- The assumptions an entry makes for a tensor are true of it. -/
def AssumesTrue (input : TensorInput) (tensor : LaunchedTensor) : Prop :=
  ∀ assumed divisor, .assumeDivBy assumed divisor ∈ input.generateStatements →
    ∃ value, tensor.value assumed = some value ∧ divisor ∣ value

/-- Capping keeps assumptions true: those on scalars, whose low bits are read as an `i32`,
those on raw pointers, and those on a tensor when they are true without a cap. -/
structure KeepsTrue (cap : Option Int) : Prop where
  scalar : ∀ value divisor : Int,
    assumedDivisor (scalarHint cap (.fromValue (IntegerFormat.i32.wrap value))) =
      some divisor → divisor ∣ value
  pointer : ∀ (ptr : Nat) (divisor : Int),
    assumedDivisor (scalarHint cap (.fromPtr ptr)) = some divisor → divisor ∣ ptr
  tensor : ∀ (input : TensorInput) (tensor : LaunchedTensor),
    input.validate = .ok () → input.spec = some tensor.spec →
    input.staticStrides = tensor.spec.stridesHint → input.maxDivisibility = cap →
    AssumesTrue { input with maxDivisibility := none } tensor → AssumesTrue input tensor

/-- A cap that is a power of two, or leaves no divisor, or leaves every divisor. -/
def CapFits : Option Int → Prop
  | none => True
  | some cap => cap ≤ 1 ∨ (∃ power : Nat, cap = 2 ^ power) ∨ 16 ≤ cap

section Caps

theorem min_dvd_of_fits {cap : Int} (fits : CapFits (some cap)) {exponent : Nat}
    (small : exponent ≤ 4) (assumes : 1 < min ((2 : Int) ^ exponent) cap) :
    min ((2 : Int) ^ exponent) cap ∣ 2 ^ exponent := by
  rcases fits with none | power | all
  · exact absurd ((min_le_right _ _).trans none) (not_le.mpr assumes)
  · rcases power with ⟨power, rfl⟩
    have monotone : Monotone fun exponent : Nat => (2 : Int) ^ exponent :=
      pow_right_mono₀ (by decide)
    rw [← monotone.map_min]
    exact pow_dvd_pow 2 (min_le_left exponent power)
  · have below : (2 : Int) ^ exponent ≤ cap := by
      have power : (2 : Int) ^ exponent ≤ 2 ^ 4 := pow_le_pow_right₀ (by decide) small
      omega
    rw [min_eq_left below]

theorem fits_of_dvd_sixteen {cap : Int} (divides : 1 < cap → cap < 16 → cap ∣ 16) :
    CapFits (some cap) := by
  by_cases low : cap ≤ 1
  · exact .inl low
  by_cases high : 16 ≤ cap
  · exact .inr (.inr high)
  have natural : cap.toNat ∣ 2 ^ 4 := by
    have cast : ((cap.toNat : Nat) : Int) ∣ ((2 ^ 4 : Nat) : Int) := by
      rw [Int.toNat_of_nonneg (by omega)]
      exact divides (by omega) (by omega)
    exact Int.natCast_dvd_natCast.mp cast
  rcases (Nat.dvd_prime_pow Nat.prime_two).mp natural with ⟨power, _, isPower⟩
  refine .inr (.inl ⟨power, ?_⟩)
  rw [← Int.toNat_of_nonneg (by omega : 0 ≤ cap), isPower]
  exact Nat.cast_pow 2 power

theorem dvd_of_largest {cap : Option Int} (fits : CapFits cap) {value inferred : Int}
    (largest : PowerOfTwo.LargestUpTo 4 value inferred)
    (assumes : 1 < (cap.map (min inferred)).getD inferred) :
    (cap.map (min inferred)).getD inferred ∣ inferred := by
  cases cap with
  | none => exact dvd_rfl
  | some =>
    rcases largest.isPower with ⟨_, small, rfl⟩
    exact min_dvd_of_fits fits small assumes

theorem scalarHint_divisor (cap : Option Int) (hint : DivHint) :
    (scalarHint cap hint).divisor = (cap.map (min hint.divisor)).getD hint.divisor := by
  cases cap <;> rfl

theorem dvd_of_assumedDivisor {cap : Option Int} (fits : CapFits cap) {hint : DivHint}
    {value divisor : Int} (largest : PowerOfTwo.LargestUpTo 4 value hint.divisor)
    (assumed : assumedDivisor (scalarHint cap hint) = some divisor) : divisor ∣ value := by
  rw [assumedDivisor, scalarHint_divisor] at assumed
  split_ifs at assumed with assumes
  cases assumed
  exact (dvd_of_largest fits largest assumes).trans largest.dvd

/-- The low 32 bits have the small divisors of the whole. -/
theorem fromValue_wrap_largest (value : Int) : PowerOfTwo.LargestUpTo 4 value
    (fromValue (i32.wrap value)).divisor := by
  have largest := fromValue_largest (i32.wrap value)
  refine ⟨largest.isPower, ?_⟩
  intro exponent small
  rw [largest.dvd_iff exponent small]
  have congruent := wrap_modEq i32 value
  have modulus : (2 : Int) ^ exponent ∣ (i32.modulus : Int) := by
    have power : (i32.modulus : Int) = 2 ^ 32 := by decide
    rw [power]
    exact pow_dvd_pow 2 (by omega)
  have difference := modulus.trans congruent.dvd
  exact (dvd_iff_dvd_of_dvd_sub difference).symm

theorem fromValue_wrap_sixteen :
    (fromValue (i32.wrap 16)).divisor = 16 :=
  (fromValue_wrap_largest 16).unique (PowerOfTwo.LargestUpTo.of_dvd (by decide))

end Caps

namespace TensorInput

variable {input : TensorInput}

def uncapped (input : TensorInput) : TensorInput := { input with maxDivisibility := none }

theorem effectiveDiv_some (inferred : Int) :
    input.effectiveDiv (some inferred) =
      (input.maxDivisibility.map (min inferred)).getD inferred := rfl

theorem one_lt_of_effectiveDiv {inferred : Int}
    (assumes : 1 < input.effectiveDiv (some inferred)) : 1 < inferred := by
  rw [effectiveDiv_some] at assumes
  cases cap : input.maxDivisibility with
  | none => rwa [cap] at assumes
  | some =>
    rw [cap] at assumes
    exact assumes.trans_le (min_le_left _ _)

/-- A capped assumption goes back to one that is made without the cap. -/
theorem mem_assumeElements_uncapped {assumed : Nat → EntryVariable} {who : EntryVariable}
    {staticElements values : List Int} {divisor : Int}
    (sameRank : staticElements.length = values.length)
    (made : .assumeDivBy who divisor ∈
      input.assumeElements assumed (some (values.map fromValue))
        (getDynamicElements staticElements)) :
    ∃ other, divisor = input.effectiveDiv (some (fromValue other).divisor) ∧
      1 < divisor ∧ .assumeDivBy who (fromValue other).divisor ∈
        input.uncapped.assumeElements assumed (some (values.map fromValue))
          (getDynamicElements staticElements) := by
  rcases input.mem_assumeElements_iff.mp made with ⟨axis, dynamic, rfl, isDivisor, assumes⟩
  have inside : axis < values.length := by
    rcases (any_eq_true _ _).mp dynamic with ⟨_, isElement, _⟩
    rw [← sameRank]
    exact (List.getElem?_eq_some_iff.mp isElement).1
  have ranked := Selection.rank_le isDynamic staticElements axis
  have isOther := List.getElem?_eq_getElem (ranked.trans_lt inside)
  rw [bind_some, List.getElem?_map, isOther, map_some, map_some]
    at isDivisor
  refine ⟨_, isDivisor, assumes, ?_⟩
  apply input.uncapped.mem_assumeElements_iff.mpr
  refine ⟨axis, dynamic, rfl, ?_, one_lt_of_effectiveDiv (isDivisor ▸ assumes)⟩
  rw [bind_some, List.getElem?_map, isOther]
  rfl

/-- Every capped assumption on a tensor goes back to an assumption without the cap, whose
divisor is a power of two up to sixteen. -/
theorem mem_generateStatements_uncapped {tensor : LaunchedTensor} {who : EntryVariable}
    {divisor : Int} (valid : input.validate = .ok ())
    (specialized : input.spec = some tensor.spec)
    (hinted : input.staticStrides = tensor.spec.stridesHint)
    (made : .assumeDivBy who divisor ∈ input.generateStatements) :
    ∃ value inferred, PowerOfTwo.LargestUpTo 4 value inferred ∧
      divisor = input.effectiveDiv (some inferred) ∧ 1 < divisor ∧
      .assumeDivBy who inferred ∈ input.uncapped.generateStatements := by
  rcases specialized_spec valid specialized hinted
    with ⟨shapeRank, stridesRank, shapeHints, strideHints⟩
  rcases input.mem_generateStatements_iff.mp made with ofDim | ofStride | ofPtr
  · rw [shapeHints] at ofDim
    rcases mem_assumeElements_uncapped shapeRank ofDim with ⟨other, isDivisor, assumes, free⟩
    refine ⟨other, _, fromValue_largest other, isDivisor, assumes, ?_⟩
    rw [← shapeHints] at free
    exact input.uncapped.mem_generateStatements_iff.mpr (.inl free)
  · rw [strideHints] at ofStride
    rcases mem_assumeElements_uncapped stridesRank ofStride
      with ⟨other, isDivisor, assumes, free⟩
    refine ⟨other, _, fromValue_largest other, isDivisor, assumes, ?_⟩
    rw [← strideHints] at free
    exact input.uncapped.mem_generateStatements_iff.mpr (.inr (.inl free))
  · rcases input.mem_assumeDiv_iff.mp ofPtr with ⟨rfl, isDivisor, assumes⟩
    rw [specialized, map_some] at isDivisor
    refine ⟨tensor.ptr, _, fromPtr_largest tensor.ptr, isDivisor, assumes, ?_⟩
    apply input.uncapped.mem_generateStatements_iff.mpr
    refine .inr (.inr (input.uncapped.mem_assumeDiv_iff.mpr ⟨rfl, ?_, ?_⟩))
    · change _ = input.uncapped.effectiveDiv (input.spec.map _)
      rw [specialized]
      rfl
    · exact one_lt_of_effectiveDiv (isDivisor ▸ assumes)

end TensorInput

theorem keepsTrue_of_fits {cap : Option Int} (fits : CapFits cap) : KeepsTrue cap where
  scalar value _ assumed := dvd_of_assumedDivisor fits (fromValue_wrap_largest value) assumed
  pointer ptr _ assumed := dvd_of_assumedDivisor fits (fromPtr_largest ptr) assumed
  tensor input tensor valid specialized hinted capped free := by
    intro who _ made
    rcases TensorInput.mem_generateStatements_uncapped valid specialized hinted made
      with ⟨value, inferred, largest, isDivisor, assumes, uncappedMade⟩
    rcases free who inferred uncappedMade with ⟨found, isFound, divides⟩
    rw [TensorInput.effectiveDiv_some, capped] at isDivisor
    rw [isDivisor] at assumes ⊢
    exact ⟨found, isFound, (dvd_of_largest fits largest assumes).trans divides⟩

/-- Sixteen tells the caps apart. -/
theorem fits_of_keepsTrue {cap : Option Int} (keeps : KeepsTrue cap) : CapFits cap := by
  cases cap with
  | none => exact trivial
  | some cap =>
    apply fits_of_dvd_sixteen
    intro aboveOne belowSixteen
    apply keeps.scalar 16 cap
    rw [assumedDivisor, scalarHint_divisor, fromValue_wrap_sixteen, map_some, getD_some,
      min_eq_right belowSixteen.le, if_pos aboveOne]

/-- With the options and the entry hints of any compilation, the capped assumptions are
true for every value exactly when the option, or else the hint, is a power of two, or at
most one, or at least sixteen. -/
theorem compileHints_keepsTrue_iff {tokens : HintExpr → String} {gpuName : String}
    {expr : Option HintExpr} {options : CompileOptions} {entry hints : OptimizationHints}
    (isEntry : entryHints tokens gpuName expr = .ok entry)
    (compiled : compileHints tokens gpuName expr options = .ok hints) :
    KeepsTrue hints.maxDivisibility ↔
      CapFits (options.maxDivisibility.or entry.maxDivisibility) := by
  rw [compileHints, isEntry, ok_bind] at compiled
  cases compiled
  rw [← OptimizationHints.maxDivisibility_applyCompileOptions
    (OptimizationHints.target_of_entryHints isEntry)]
  constructor
  · intro keeps
    exact fits_of_keepsTrue keeps
  · intro fits
    exact keepsTrue_of_fits fits

theorem compileHints_keepsTrue_iff_eight :
    ∃ hints, compileHints (fun _ => "") "sm_100" none { maxDivisibility := some 8 } =
      .ok hints ∧ hints.maxDivisibility = some 8 ∧ KeepsTrue hints.maxDivisibility := by
  have fits : CapFits (some 8) := .inr (.inl ⟨3, by decide⟩)
  have ok : ∃ hints, compileHints (fun _ => "") "sm_100" none { maxDivisibility := some 8 } =
      .ok hints ∧ hints.maxDivisibility = some 8 := ⟨_, rfl, rfl⟩
  rcases ok with ⟨hints, ok, isCap⟩
  exact ⟨hints, ok, isCap, (compileHints_keepsTrue_iff rfl ok).mpr fits⟩

/-- A cap of twelve makes the entry assume that sixteen is a multiple of twelve. -/
theorem compileHints_assumes_false :
    ∃ hints, compileHints (fun _ => "") "sm_100" none { maxDivisibility := some 12 } =
        .ok hints ∧
      assumedDivisor (scalarHint hints.maxDivisibility
        (.fromValue (IntegerFormat.i32.wrap 16))) = some 12 ∧ ¬(12 : Int) ∣ 16 := by
  refine ⟨_, rfl, ?_, by decide⟩
  change assumedDivisor (scalarHint (some 12) _) = some 12
  rw [assumedDivisor, scalarHint_divisor, fromValue_wrap_sixteen]
  rfl

end CuTile
