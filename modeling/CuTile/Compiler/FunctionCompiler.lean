import CuTile.Compiler.Obligation
import CuTile.Compiler.Value

/-! # The function compiler

What one kernel compilation carries besides the code it generates: the
parameters, the declared preconditions, the check policy, and the launch checks
collected so far. The queries here decide in which frame an extent is named.
-/

namespace CuTile

/-- Which check optimisations a compilation may apply. No policy hoists checks
without also discharging proofs. -/
structure CheckOptimizations where
  hoistToPreheaders : Bool
  relocateToLaunch : Bool
  dischargeProofs : Bool
  hoistNeedsProofs : hoistToPreheaders = true → dischargeProofs = true

namespace CheckOptimizations

def release : CheckOptimizations := ⟨true, true, true, fun _ => rfl⟩

def deviceDebug : CheckOptimizations := ⟨false, true, true, fun _ => rfl⟩

def disabled : CheckOptimizations := ⟨false, false, false, id⟩

def fromEnv (forceDeviceChecks disableCheckHoisting : Bool) : CheckOptimizations :=
  if forceDeviceChecks then disabled
  else ⟨!disableCheckHoisting, true, true, fun _ => rfl⟩

end CheckOptimizations

/-- What the launcher validates about a parameter. -/
inductive ValidParamType where
  | scalar
  | pointer
  | tensor (shape : List Int)
deriving DecidableEq, Repr

structure FunctionCompiler where
  paramIndex : String → Option Nat
  paramIsMutable : List Bool
  validator : List ValidParamType
  preconditions : List MetadataFact
  checkOpts : CheckOptimizations
  denyInKernelChecks : Bool

namespace FunctionCompiler

variable (compiler : FunctionCompiler)

def assumptions : Assumptions :=
  .fromPreconditions compiler.preconditions compiler.paramIndex

/-- The atom that names a parameter's extent in the frame the kernel sees: the
whole tensor when it is passed immutably, its slab otherwise. -/
def extentAtom (param axis : Nat) : Atom :=
  if compiler.paramIsMutable[param]?.getD true then .viewExtent param axis
  else .dim param axis

/-- A tensor's parameter, when what the kernel sees of it is the whole tensor. -/
def rootFramedParam (tensor : String) : Option Nat :=
  (compiler.paramIndex tensor).filter fun param =>
    match compiler.extentAtom param 0 with
    | .dim .. => true
    | _ => false

def lower (checks : List LaunchCheck) (predicate : Predicate) (cause : String) :
    Bool × List LaunchCheck :=
  lowerObligation compiler.assumptions checks predicate cause

/-- Whether an axis of one tensor has at most as many tiles as an axis of
another. A declared equality decides it outright; otherwise the inequality
itself is lowered. -/
def resolveDimLe (checks : List LaunchCheck) (aTensor : String) (aAxis : Nat)
    (bTensor : String) (bAxis : Nat) (tile : Int) : Bool × List LaunchCheck :=
  match compiler.paramIndex aTensor, compiler.paramIndex bTensor with
  | some aParam, some bParam =>
    let declared := (Predicate.eq (.atom (.dim aParam aAxis))
      (.atom (.dim bParam bAxis))).any fun predicate =>
        (Obligation.resolve ⟨predicate, ""⟩ compiler.assumptions) = .jit
    if declared then (true, checks)
    else if !compiler.checkOpts.relocateToLaunch then (false, checks)
    else if tile < 1 then (false, checks)
    else
      match Predicate.le (.atom (.tileCount aParam aAxis tile))
          (.atom (.tileCount bParam bAxis tile)) with
      | none => (false, checks)
      | some predicate =>
        compiler.lower checks predicate
          (s!"ceil(dim({aTensor}, {aAxis})/{tile}) <= "
            ++ s!"ceil(dim({bTensor}, {bAxis})/{tile})")
  | _, _ => (false, checks)

/-- The extent of a tensor axis as the signature declares it. -/
def declaredExtent (tensor : Option String) (axis : Nat) : Option Int := do
  let param ← compiler.paramIndex (← tensor)
  match ← compiler.validator[param]? with
  | .tensor shape => (shape[axis]?).filter (0 ≤ ·)
  | _ => none

/-- The gate in front of every check that would run in the kernel. -/
def denyResidualCheck (what remedy : String) : Except Failure Unit :=
  if compiler.denyInKernelChecks then
    .error (.jitError (s!"`deny_in_kernel_checks`: {what} could not be discharged at "
      ++ "compile time or hoisted to launch, so it would be emitted in the kernel and "
      ++ s!"cost device registers. {remedy}. Or drop the flag."))
  else .ok ()

/-! ## What the queries settle -/

theorem lower_spec (checks : List LaunchCheck) (predicate : Predicate) (cause : String) :
    checks ⊆ (compiler.lower checks predicate cause).2 ∧
      ((compiler.lower checks predicate cause).1 = true →
        Settled compiler.assumptions (compiler.lower checks predicate cause).2 predicate) :=
  have spec := lowerObligation_spec compiler.assumptions checks predicate cause
  ⟨spec.1, spec.2.1⟩

theorem extentAtom_cases (param axis : Nat) :
    (compiler.extentAtom param axis = .dim param axis ∧
        ∀ other, compiler.extentAtom param other = .dim param other) ∨
      compiler.extentAtom param axis = .viewExtent param axis := by
  unfold extentAtom
  split_ifs
  · exact .inr rfl
  · exact .inl ⟨rfl, fun _ => rfl⟩

theorem rootFramedParam_spec {tensor : String} {param : Nat}
    (rooted : compiler.rootFramedParam tensor = some param) :
    compiler.paramIndex tensor = some param ∧
      ∀ axis, compiler.extentAtom param axis = .dim param axis := by
  rcases Option.filter_eq_some_iff.mp rooted with ⟨index, isDim⟩
  refine ⟨index, fun axis => ?_⟩
  rcases compiler.extentAtom_cases param 0 with ⟨_, every⟩ | isView
  · exact every axis
  · simp [isView] at isDim

/-- A positive answer settles an equality of the extents, or an inequality of
the tile counts. -/
theorem resolveDimLe_spec (checks : List LaunchCheck) (aTensor : String) (aAxis : Nat)
    (bTensor : String) (bAxis : Nat) (tile : Int) :
    let answer := compiler.resolveDimLe checks aTensor aAxis bTensor bAxis tile
    checks ⊆ answer.2 ∧ (answer.1 = true →
      ∃ aParam bParam, compiler.paramIndex aTensor = some aParam ∧
        compiler.paramIndex bTensor = some bParam ∧
        ((∃ predicate, Predicate.eq (.atom (.dim aParam aAxis))
            (.atom (.dim bParam bAxis)) = some predicate ∧
            Settled compiler.assumptions answer.2 predicate) ∨
          (1 ≤ tile ∧ ∃ predicate, Predicate.le (.atom (.tileCount aParam aAxis tile))
            (.atom (.tileCount bParam bAxis tile)) = some predicate ∧
            Settled compiler.assumptions answer.2 predicate))) := by
  intro answer
  simp only [answer, resolveDimLe]
  split
  · rename_i aParam bParam aIndex bIndex
    split_ifs with declared stays degenerate
    · refine ⟨List.Subset.refl _, fun _ => ⟨aParam, bParam, aIndex, bIndex, .inl ?_⟩⟩
      rcases (Option.any_eq_true _ _).mp declared with ⟨predicate, built, decided⟩
      exact ⟨predicate, built,
        (resolve_eq_jit_iff.mp (of_decide_eq_true decided)).imp_right .inl⟩
    · exact ⟨List.Subset.refl _, nofun⟩
    · exact ⟨List.Subset.refl _, nofun⟩
    · split
      · exact ⟨List.Subset.refl _, nofun⟩
      · rename_i predicate built
        have spec := compiler.lower_spec checks predicate
          (s!"ceil(dim({aTensor}, {aAxis})/{tile}) <= "
            ++ s!"ceil(dim({bTensor}, {bAxis})/{tile})")
        exact ⟨spec.1, fun positive => ⟨aParam, bParam, aIndex, bIndex,
          .inr ⟨not_lt.mp degenerate, predicate, built, spec.2 positive⟩⟩⟩
  · exact ⟨List.Subset.refl _, nofun⟩

end FunctionCompiler

end CuTile
