import CuTile.Launch.Checks

/-! # Staged obligations

A safety obligation is settled at the earliest stage that can decide it: from
declared facts while compiling, by a host check at launch, or by an assert in
the kernel. This module covers the first two and shows that moving an
obligation to an earlier stage neither loses nor adds a requirement.
-/

namespace CuTile

open Predicate

/-- A fact declared in a kernel's `preconditions`, which the generated launcher
verifies before the kernel runs. -/
inductive MetadataFact where
  | dimEq (leftTensor : String) (leftAxis : Nat) (rightTensor : String) (rightAxis : Nat)
  | dimDivisible (tensor : String) (axis : Nat) (divisor : Int)
deriving DecidableEq, Repr

namespace MetadataFact

/-- The predicate a fact contributes. A fact about something that is not a
parameter, or that has no canonical form, contributes nothing. -/
def predicate? (paramIndex : String → Option Nat) : MetadataFact → Option Predicate
  | dimEq leftTensor leftAxis rightTensor rightAxis => do
    let leftParam ← paramIndex leftTensor
    let rightParam ← paramIndex rightTensor
    Predicate.eq (.atom (.dim leftParam leftAxis)) (.atom (.dim rightParam rightAxis))
  | dimDivisible tensor axis divisor => do
    let param ← paramIndex tensor
    Predicate.ofDivisibleBy (.atom (.dim param axis)) divisor

/-- What the fact says of the root extents of a launch. A name that is not a
parameter has no extent to speak of. -/
def TrueOf (paramIndex : String → Option Nat) (shapes : List (List Int)) :
    MetadataFact → Prop
  | dimEq leftTensor leftAxis rightTensor rightAxis =>
    ∀ leftParam, paramIndex leftTensor = some leftParam →
    ∀ rightParam, paramIndex rightTensor = some rightParam →
      ∃ extent, LaunchFrame.extent shapes leftParam leftAxis = some extent ∧
        LaunchFrame.extent shapes rightParam rightAxis = some extent
  | dimDivisible tensor axis divisor =>
    ∀ param, paramIndex tensor = some param →
      ∃ extent, LaunchFrame.extent shapes param axis = some extent ∧ divisor ∣ extent

end MetadataFact

/-- The predicates believed while compiling. -/
structure Assumptions where
  believed : List Predicate

namespace Assumptions

def fromPreconditions (facts : List MetadataFact) (paramIndex : String → Option Nat) :
    Assumptions :=
  ⟨facts.filterMap (MetadataFact.predicate? paramIndex)⟩

/-- Predicates are canonical, so membership stands for entailment. -/
def entails (assumptions : Assumptions) (predicate : Predicate) : Bool :=
  assumptions.believed.contains predicate

end Assumptions

structure Obligation where
  predicate : Predicate
  cause : String

inductive Resolution where
  | jit
  | launch (check : LaunchCheck)
  | device
deriving DecidableEq

/-- The earliest stage that settles an obligation. A constant predicate is
decided on the spot; a constant false one falls through to a check that fails. -/
def Obligation.resolve (obligation : Obligation) (assumptions : Assumptions) :
    Resolution :=
  if obligation.predicate.eval (fun _ => none) = some true then .jit
  else if assumptions.entails obligation.predicate then .jit
  else if obligation.predicate.stage ≤ .launch then
    .launch ⟨obligation.predicate, obligation.cause⟩
  else .device

/-- Add a launch check unless one with the same predicate is already collected. -/
def collect (checks : List LaunchCheck) (check : LaunchCheck) : List LaunchCheck :=
  if checks.any (·.predicate = check.predicate) then checks else checks ++ [check]

/-- Route an obligation to its stage. The answer says whether it was placed
without any check in the kernel; the checks are the compiler's running list. -/
def lowerObligation (assumptions : Assumptions) (checks : List LaunchCheck)
    (predicate : Predicate) (cause : String) : Bool × List LaunchCheck :=
  match Obligation.resolve ⟨predicate, cause⟩ assumptions with
  | .jit => (true, checks)
  | .launch check => (true, collect checks check)
  | .device => (false, checks)

/-- A history of calls on one function compiler, with the answers in order. -/
def lowerObligations (assumptions : Assumptions) (checks : List LaunchCheck) :
    List (Predicate × String) → List Bool × List LaunchCheck
  | [] => ([], checks)
  | (predicate, cause) :: rest =>
    let (answer, next) := lowerObligation assumptions checks predicate cause
    let (answers, final) := lowerObligations assumptions next rest
    (answer :: answers, final)

/-! ## What a call settles -/

/-- The three ways an obligation can be settled outside the kernel. -/
def Settled (assumptions : Assumptions) (checks : List LaunchCheck)
    (predicate : Predicate) : Prop :=
  predicate.eval (fun _ => none) = some true ∨ predicate ∈ assumptions.believed ∨
    ∃ check ∈ checks, check.predicate = predicate

theorem Settled.mono {assumptions : Assumptions} {checks more : List LaunchCheck}
    {predicate : Predicate} (included : checks ⊆ more)
    (settled : Settled assumptions checks predicate) :
    Settled assumptions more predicate := by
  rcases settled with constant | believed | ⟨check, member, same⟩
  · exact .inl constant
  · exact .inr (.inl believed)
  · exact .inr (.inr ⟨check, included member, same⟩)

theorem resolve_eq_jit_iff {obligation : Obligation} {assumptions : Assumptions} :
    obligation.resolve assumptions = .jit ↔
      obligation.predicate.eval (fun _ => none) = some true ∨
        obligation.predicate ∈ assumptions.believed := by
  unfold Obligation.resolve Assumptions.entails
  split_ifs <;> simp_all

theorem resolve_eq_launch {obligation : Obligation} {assumptions : Assumptions}
    {check : LaunchCheck} (launched : obligation.resolve assumptions = .launch check) :
    check = ⟨obligation.predicate, obligation.cause⟩ := by
  unfold Obligation.resolve at launched
  split_ifs at launched
  exact (Resolution.launch.inj launched).symm

theorem subset_collect (checks : List LaunchCheck) (check : LaunchCheck) :
    checks ⊆ collect checks check := by
  unfold collect
  split_ifs
  · exact List.Subset.refl _
  · exact List.subset_append_left _ _

theorem exists_mem_collect (checks : List LaunchCheck) (check : LaunchCheck) :
    ∃ kept ∈ collect checks check, kept.predicate = check.predicate := by
  unfold collect
  split_ifs with present
  · simpa using present
  · exact ⟨check, by simp, rfl⟩

theorem mem_collect {checks : List LaunchCheck} {check kept : LaunchCheck}
    (member : kept ∈ collect checks check) : kept ∈ checks ∨ kept = check := by
  unfold collect at member
  split_ifs at member
  · exact .inl member
  · simpa using member

/-- Everything one call can do: the checks only grow, a positive answer leaves
the predicate settled, and a new check is there for this predicate only. -/
theorem lowerObligation_spec (assumptions : Assumptions) (checks : List LaunchCheck)
    (predicate : Predicate) (cause : String) :
    checks ⊆ (lowerObligation assumptions checks predicate cause).2 ∧
      ((lowerObligation assumptions checks predicate cause).1 = true →
        Settled assumptions (lowerObligation assumptions checks predicate cause).2
          predicate) ∧
      ∀ check ∈ (lowerObligation assumptions checks predicate cause).2,
        check ∈ checks ∨
          (lowerObligation assumptions checks predicate cause).1 = true ∧
            check.predicate = predicate := by
  unfold lowerObligation
  cases resolution : Obligation.resolve ⟨predicate, cause⟩ assumptions with
  | jit =>
    refine ⟨List.Subset.refl _, fun _ => ?_, fun _ => .inl⟩
    exact (resolve_eq_jit_iff.mp resolution).imp_right .inl
  | launch =>
    have same := resolve_eq_launch resolution
    subst same
    refine ⟨subset_collect _ _, fun _ => .inr (.inr (exists_mem_collect _ _)), ?_⟩
    intro _ member
    rcases mem_collect member with old | rfl
    · exact .inl old
    · exact .inr ⟨rfl, rfl⟩
  | device =>
    refine ⟨List.Subset.refl _, ?_, fun _ => .inl⟩
    nofun

/-! ## Whole histories -/

section History

variable {assumptions : Assumptions} {checks : List LaunchCheck}
  {calls : List (Predicate × String)}

theorem lowerObligations_cons (call : Predicate × String)
    (rest : List (Predicate × String)) :
    lowerObligations assumptions checks (call :: rest) =
      let first := lowerObligation assumptions checks call.1 call.2
      let later := lowerObligations assumptions first.2 rest
      (first.1 :: later.1, later.2) := rfl

theorem subset_lowerObligations :
    checks ⊆ (lowerObligations assumptions checks calls).2 := by
  induction calls generalizing checks with
  | nil => exact List.Subset.refl _
  | cons call rest induction =>
    exact List.Subset.trans (lowerObligation_spec assumptions checks call.1 call.2).1
      induction

/-- Every call answered positively is settled by the checks collected at the
end, whatever calls came between. -/
theorem settled_of_answered {call : Predicate × String}
    (answered : (call, true) ∈ calls.zip (lowerObligations assumptions checks calls).1) :
    Settled assumptions (lowerObligations assumptions checks calls).2 call.1 := by
  induction calls generalizing checks with
  | nil => cases answered
  | cons head rest induction =>
    rw [lowerObligations_cons] at answered ⊢
    rcases List.mem_cons.mp answered with here | later
    · rcases Prod.mk.inj here with ⟨rfl, positive⟩
      exact ((lowerObligation_spec assumptions checks call.1 call.2).2.1
        positive.symm).mono subset_lowerObligations
    · exact induction later

/-- A check collected by the history states the predicate of a call answered
positively. -/
theorem answered_of_mem_checks {check : LaunchCheck}
    (member : check ∈ (lowerObligations assumptions checks calls).2) :
    check ∈ checks ∨ ∃ call,
      (call, true) ∈ calls.zip (lowerObligations assumptions checks calls).1 ∧
        call.1 = check.predicate := by
  induction calls generalizing checks with
  | nil => exact .inl member
  | cons head rest induction =>
    rw [lowerObligations_cons] at member ⊢
    rcases induction member with early | ⟨call, answered, same⟩
    · rcases (lowerObligation_spec assumptions checks head.1 head.2).2.2 check early
        with old | ⟨positive, same⟩
      · exact .inl old
      · exact .inr ⟨head, List.mem_cons.mpr (.inl (by rw [positive])), same.symm⟩
    · exact .inr ⟨call, List.mem_cons_of_mem _ answered, same⟩

end History

/-! ## Soundness of the stages -/

section Soundness

variable {facts : List MetadataFact} {paramIndex : String → Option Nat}
  {frame : LaunchFrame} {predicate : Predicate}

/-- A declared fact that is true of the launch makes its predicate true. -/
theorem MetadataFact.holdsAt {fact : MetadataFact}
    (declared : fact.TrueOf paramIndex frame.paramShapes)
    (contributes : fact.predicate? paramIndex = some predicate) :
    predicate.HoldsAt frame.resolveAtom := by
  cases fact with
  | dimEq leftTensor leftAxis rightTensor rightAxis =>
    rcases Option.bind_eq_some_iff.mp contributes with ⟨leftParam, leftKnown, rest⟩
    rcases Option.bind_eq_some_iff.mp rest with ⟨rightParam, rightKnown, built⟩
    rcases declared leftParam leftKnown rightParam rightKnown
      with ⟨extent, leftExtent, rightExtent⟩
    refine ⟨fun name member => ?_, (holds_eq _ built).mpr ?_⟩
    · rcases mem_atoms_eq built member with left | right
      · simp_all [LaunchFrame.resolveAtom]
      · simp_all [LaunchFrame.resolveAtom]
    · simp [Term.resolved, LaunchFrame.resolveAtom, leftExtent, rightExtent]
  | dimDivisible tensor axis divisor =>
    rcases Option.bind_eq_some_iff.mp contributes with ⟨param, known, built⟩
    rcases declared param known with ⟨extent, isExtent, divides⟩
    refine ⟨fun name member => ?_, (holds_ofDivisibleBy _ built).mpr ?_⟩
    · have same := mem_atoms_ofDivisibleBy built member
      simp_all [LaunchFrame.resolveAtom]
    · simpa [Term.resolved, LaunchFrame.resolveAtom, isExtent] using divides

/-- An obligation settled at an earlier stage is true of every launch that stage
lets through. -/
theorem Settled.holdsAt {checks : List LaunchCheck}
    (declared : ∀ fact ∈ facts, fact.TrueOf paramIndex frame.paramShapes)
    (valid : validateLaunchChecks checks frame = .ok ())
    (settled : Settled (.fromPreconditions facts paramIndex) checks predicate) :
    predicate.HoldsAt frame.resolveAtom := by
  rcases settled with constant | believed | ⟨_, member, rfl⟩
  · exact holdsAt_of_eval_none _ constant
  · rcases List.mem_filterMap.mp believed with ⟨fact, member, contributes⟩
    exact MetadataFact.holdsAt (declared fact member) contributes
  · exact holdsAt_of_validated valid member

/-- Over any history of calls, the launch checks require exactly what the calls
settled: a launch they accept makes every settled predicate true, and a launch
in which every settled predicate is true (and evaluates without overflow) is
accepted. -/
theorem lowerObligations_exact (facts : List MetadataFact)
    (paramIndex : String → Option Nat) (calls : List (Predicate × String))
    (frame : LaunchFrame) :
    let assumptions := Assumptions.fromPreconditions facts paramIndex
    let answers := (lowerObligations assumptions [] calls).1
    let checks := (lowerObligations assumptions [] calls).2
    ((∀ fact ∈ facts, fact.TrueOf paramIndex frame.paramShapes) →
      validateLaunchChecks checks frame = .ok () →
      ∀ call, (call, true) ∈ calls.zip answers → call.1.HoldsAt frame.resolveAtom) ∧
    ((∀ call, (call, true) ∈ calls.zip answers →
        call.1.HoldsAt frame.resolveAtom ∧ call.1.term.EvalFits frame.resolveAtom) →
      validateLaunchChecks checks frame = .ok ()) := by
  intro assumptions answers checks
  constructor
  · intro declared valid call answered
    exact (settled_of_answered answered).holdsAt declared valid
  · intro allTrue
    rw [validateLaunchChecks_ok_iff]
    intro _ member
    rcases answered_of_mem_checks member with impossible | ⟨call, answered, same⟩
    · cases impossible
    · rcases allTrue call answered with ⟨holds, fits⟩
      rw [← same]
      exact (eval_eq_true_iff _ _).mpr ⟨fits, holds⟩

/-- A matrix product's inner extents are declared equal and its rows tested at
launch: one obligation is settled while compiling, the other by a check. -/
theorem lowerObligations_exact_matmul :
    let facts := [MetadataFact.dimEq "x" 1 "y" 0]
    let paramIndex := fun name => if name = "x" then some 0 else
      if name = "y" then some 1 else none
    let inner := (eq (.atom (.dim 0 1)) (.atom (.dim 1 0))).toList
    let rows := [ofNonzero (.atom (.dim 0 0))]
    let calls := (inner ++ rows ++ rows).map (·, "matmul")
    let frame : LaunchFrame := ⟨[[4, 8], [8, 2]], [[4, 8], [8, 2]], (1, 1, 1)⟩
    let outcome := lowerObligations (.fromPreconditions facts paramIndex) [] calls
    outcome.1 = [true, true, true] ∧ outcome.2.length = 1 ∧
      validateLaunchChecks outcome.2 frame = .ok () ∧
      ∀ call, (call, true) ∈ calls.zip outcome.1 → call.1.HoldsAt frame.resolveAtom := by
  intro facts paramIndex inner rows calls frame outcome
  have declared : ∀ fact ∈ facts, fact.TrueOf paramIndex frame.paramShapes := by
    simp [facts, MetadataFact.TrueOf, paramIndex, frame, LaunchFrame.extent]
  have valid : validateLaunchChecks outcome.2 frame = .ok () := by decide
  exact ⟨by decide, by decide, valid,
    (lowerObligations_exact facts paramIndex calls frame).1 declared valid⟩

end Soundness

end CuTile
