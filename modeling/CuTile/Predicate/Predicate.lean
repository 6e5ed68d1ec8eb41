import CuTile.Predicate.Term

/-! # Predicates over terms

The propositions that obligations and launch checks are made of. Constructors
canonicalise, so that two ways of writing one proposition compare equal.
-/

namespace CuTile

open Option Term

inductive Predicate where
  | zero (term : Term)
  | nonzero (term : Term)
  | positive (term : Term)
  | divisibleBy (term : Term) (divisor : Int) (valid : 1 ≤ divisor)
deriving DecidableEq

namespace Predicate

/-! ## Construction -/

def eq (left right : Term) : Option Predicate := do
  return .zero (← left.sub right).signCanonical

def ofNonzero (term : Term) : Predicate := .nonzero term.signCanonical

def lt (left right : Term) : Option Predicate := do
  return .positive (← right.sub left)

def le (left right : Term) : Option Predicate := do
  return .positive (← (← right.add (.constant 1)).sub left)

/-- A coefficient modulo the divisor, dropped when it vanishes. -/
def residue (divisor coefficient : Int) : Option Int :=
  if coefficient % divisor = 0 then none else some (coefficient % divisor)

def reduceModulo (term : Term) (divisor : Int) : Term where
  coeffs := term.coeffs.filterMap (residue divisor)
  constantPart := term.constantPart % divisor
  reduced := by
    intro entry member
    rcases OrderedMap.mem_filterMap.mp member with ⟨old, _, reduced⟩
    simp only [residue] at reduced
    split_ifs at reduced with vanishes
    exact Option.some.inj reduced ▸ vanishes

/-- Only the residues of the coefficients matter to divisibility. -/
def ofDivisibleBy (term : Term) (divisor : Int) : Option Predicate :=
  if valid : divisor < 1 then none
  else some (.divisibleBy (reduceModulo term divisor).signCanonical divisor
    (not_lt.mp valid))

def term : Predicate → Term
  | zero term | nonzero term | positive term | divisibleBy term .. => term

def stage (predicate : Predicate) : Stage := predicate.term.stage

/-! ## Evaluation -/

/-- The test a predicate applies to the value of its term. -/
def test : Predicate → Int → Bool
  | zero _, value => value = 0
  | nonzero _, value => value ≠ 0
  | positive _, value => 0 < value
  | divisibleBy _ divisor _, value => value % divisor = 0

def eval (resolve : Atom → Option Int) (predicate : Predicate) : Option Bool := do
  return predicate.test (← predicate.term.eval resolve)

/-- The proposition a predicate denotes over the integers. -/
def Holds (valuation : Atom → Int) : Predicate → Prop
  | zero term => term.value valuation = 0
  | nonzero term => term.value valuation ≠ 0
  | positive term => 0 < term.value valuation
  | divisibleBy term divisor _ => divisor ∣ term.value valuation

/-- The predicate is a statement about atoms the resolver knows, and true. -/
def HoldsAt (resolve : Atom → Option Int) (predicate : Predicate) : Prop :=
  predicate.term.Resolves resolve ∧ predicate.Holds (Term.resolved resolve)

theorem test_value_iff (valuation : Atom → Int) (predicate : Predicate) :
    predicate.test (predicate.term.value valuation) = true ↔
      predicate.Holds valuation := by
  cases predicate with
  | zero term | nonzero term | positive term => exact decide_eq_true_iff
  | divisibleBy term divisor valid =>
    exact decide_eq_true_iff.trans Int.dvd_iff_emod_eq_zero.symm

/-- A check that evaluates to true is true over the integers; and a true
predicate evaluates to true unless a step overflows. -/
theorem eval_eq_true_iff (resolve : Atom → Option Int) (predicate : Predicate) :
    predicate.eval resolve = some true ↔
      predicate.term.EvalFits resolve ∧ predicate.HoldsAt resolve := by
  simp only [eval, bind, bind_eq_some_iff, eval_eq_some_iff, pure,
    some.injEq, HoldsAt]
  constructor
  · rintro ⟨value, ⟨known, fits, rfl⟩, tested⟩
    exact ⟨fits, known, (test_value_iff _ predicate).mp tested⟩
  · rintro ⟨fits, known, holds⟩
    exact ⟨_, ⟨known, fits, rfl⟩, (test_value_iff _ predicate).mpr holds⟩

theorem holds_congr {valuation other : Atom → Int} {predicate : Predicate}
    (agree : ∀ name ∈ predicate.term.atoms, valuation name = other name) :
    predicate.Holds valuation ↔ predicate.Holds other := by
  have same := value_congr agree
  cases predicate <;> simp only [term] at same <;> simp only [Holds, same]

/-- A predicate that is true without resolving any atom is true everywhere. -/
theorem holdsAt_of_eval_none {predicate : Predicate} (resolve : Atom → Option Int)
    (constantTrue : predicate.eval (fun _ => none) = some true) :
    predicate.HoldsAt resolve := by
  rcases ((eval_eq_true_iff _ predicate).mp constantTrue).2 with ⟨noAtoms, holds⟩
  refine ⟨fun name member => absurd (noAtoms name member) (by simp), ?_⟩
  refine (holds_congr fun name member => ?_).mp holds
  exact absurd (noAtoms name member) (by simp)

/-! ## Meaning of the constructors -/

section Meaning

variable (valuation : Atom → Int) {left right : Term} {predicate : Predicate}

theorem holds_eq (built : eq left right = some predicate) :
    predicate.Holds valuation ↔ left.value valuation = right.value valuation := by
  rcases bind_eq_some_iff.mp built with ⟨difference, subtraction, returned⟩
  cases returned
  rw [← sub_eq_zero, ← value_sub valuation subtraction]
  rcases value_signCanonical valuation difference with same | negated
  · rw [Holds, same]
  · rw [Holds, negated, neg_eq_zero]

theorem holds_ofNonzero (term : Term) :
    (ofNonzero term).Holds valuation ↔ term.value valuation ≠ 0 := by
  rcases value_signCanonical valuation term with same | negated
  · rw [ofNonzero, Holds, same]
  · rw [ofNonzero, Holds, negated, neg_ne_zero]

theorem holds_lt (built : lt left right = some predicate) :
    predicate.Holds valuation ↔ left.value valuation < right.value valuation := by
  rcases bind_eq_some_iff.mp built with ⟨_, subtraction, returned⟩
  cases returned
  rw [Holds, value_sub valuation subtraction, sub_pos]

theorem holds_le (built : le left right = some predicate) :
    predicate.Holds valuation ↔ left.value valuation ≤ right.value valuation := by
  rcases bind_eq_some_iff.mp built with ⟨_, addition, rest⟩
  rcases bind_eq_some_iff.mp rest with ⟨_, subtraction, returned⟩
  cases returned
  rw [Holds, value_sub valuation subtraction, value_add valuation addition,
    value_constant, sub_pos, Int.lt_add_one_iff]

theorem reduceModulo_value (term : Term) (divisor : Int) :
    divisor ∣ term.value valuation - (reduceModulo term divisor).value valuation := by
  have coefficients : divisor ∣ 1 * term.coeffs.weightedSum valuation -
      (reduceModulo term divisor).coeffs.weightedSum valuation := by
    apply OrderedMap.weightedSum_filterMap
    intro _ _
    simp only [residue]
    split_ifs with vanishes
    · simpa using Int.dvd_of_emod_eq_zero vanishes
    · simpa using Int.dvd_self_sub_emod
  have constants : divisor ∣ term.constantPart - term.constantPart % divisor :=
    Int.dvd_self_sub_emod
  convert Int.dvd_add coefficients constants using 1
  simp only [value, reduceModulo]
  ring

theorem holds_ofDivisibleBy {term : Term} {divisor : Int}
    (built : ofDivisibleBy term divisor = some predicate) :
    predicate.Holds valuation ↔ divisor ∣ term.value valuation := by
  unfold ofDivisibleBy at built
  split_ifs at built
  cases built
  have reduced := reduceModulo_value valuation term divisor
  have reducedIff :
      divisor ∣ (reduceModulo term divisor).value valuation ↔
        divisor ∣ term.value valuation :=
    (Int.dvd_iff_dvd_of_dvd_sub reduced).symm
  rcases value_signCanonical valuation (reduceModulo term divisor) with same | negated
  · rw [Holds, same, reducedIff]
  · rw [Holds, negated, Int.dvd_neg, reducedIff]

end Meaning

/-! ## Atoms of the constructors -/

section Atoms

variable {left right : Term} {predicate : Predicate} {name : Atom}

theorem mem_atoms_eq (built : eq left right = some predicate)
    (member : name ∈ predicate.term.atoms) : name ∈ left.atoms ∨ name ∈ right.atoms := by
  rcases bind_eq_some_iff.mp built with ⟨_, subtraction, returned⟩
  cases returned
  exact mem_atoms_sub subtraction (mem_atoms_signCanonical member)

theorem mem_atoms_ofDivisibleBy {term : Term} {divisor : Int}
    (built : ofDivisibleBy term divisor = some predicate)
    (member : name ∈ predicate.term.atoms) : name ∈ term.atoms := by
  unfold ofDivisibleBy at built
  split_ifs at built
  cases built
  rcases mem_atoms_iff.mp (mem_atoms_signCanonical member) with ⟨_, inside⟩
  rcases OrderedMap.mem_filterMap.mp inside with ⟨old, before, _⟩
  exact mem_atoms_iff.mpr ⟨old, before⟩

end Atoms

end Predicate

/-- A predicate the host tests at launch, with the text it reports. -/
structure LaunchCheck where
  predicate : Predicate
  cause : String
deriving DecidableEq

end CuTile
