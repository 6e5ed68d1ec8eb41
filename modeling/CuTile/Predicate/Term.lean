import CuTile.Foundation.MachineInteger
import CuTile.Foundation.OrderedMap
import Mathlib.Data.Prod.Lex

/-! # Symbolic terms

The compiler and the launcher share one symbolic vocabulary: linear terms over
atoms that name launch dimensions, grid quantities and loop counters. A term is
kept in the canonical form that `Predicate` equality relies on.
-/

namespace CuTile

open IntegerFormat OrderedMap

/-- When a value first becomes known. -/
inductive Stage where
  | jit
  | launch
  | device
deriving DecidableEq, Repr

namespace Stage

def rank : Stage → Nat
  | jit => 0
  | launch => 1
  | device => 2

instance : LinearOrder Stage :=
  LinearOrder.lift' rank (by intro left right; cases left <;> cases right <;> simp [rank])

end Stage

/-- An opaque quantity a term can mention. -/
inductive Atom where
  /-- Extent of an axis of the tensor passed for a parameter. -/
  | dim (param axis : Nat)
  /-- The counter of a loop, by the loop's alias number. -/
  | iv (id : Nat)
  | tileBlockId (axis : Nat)
  | numTileBlocks (axis : Nat)
  /-- Extent of an axis of the view the kernel body sees for a parameter. -/
  | viewExtent (param axis : Nat)
  /-- Number of tiles of a given extent that cover an axis. -/
  | tileCount (param axis : Nat) (tile : Int)
deriving DecidableEq, Repr

namespace Atom

/-- The derived order: first the variant, then its fields from left to right. -/
def key : Atom → Nat ×ₗ Nat ×ₗ Nat ×ₗ Int
  | dim param axis => toLex (0, toLex (param, toLex (axis, 0)))
  | iv id => toLex (1, toLex (id, toLex (0, 0)))
  | tileBlockId axis => toLex (2, toLex (axis, toLex (0, 0)))
  | numTileBlocks axis => toLex (3, toLex (axis, toLex (0, 0)))
  | viewExtent param axis => toLex (4, toLex (param, toLex (axis, 0)))
  | tileCount param axis tile => toLex (5, toLex (param, toLex (axis, tile)))

theorem key_injective : Function.Injective key := by
  intro left right same
  cases left <;> cases right <;> simp_all [key]

instance : LinearOrder Atom := LinearOrder.lift' key key_injective

def stage : Atom → Stage
  | dim .. | numTileBlocks _ | viewExtent .. | tileCount .. => .launch
  | iv _ | tileBlockId _ => .device

end Atom

/-- A linear combination of atoms plus a constant. No coefficient is zero, so a
term that does not depend on an atom does not mention it. -/
@[ext] structure Term where
  coeffs : OrderedMap Atom Int
  constantPart : Int
  reduced : ∀ entry ∈ coeffs.entries, entry.2 ≠ 0

namespace Term

instance : DecidableEq Term := fun left right =>
  decidable_of_iff (left.coeffs = right.coeffs ∧ left.constantPart = right.constantPart)
    Term.ext_iff.symm

def constant (value : Int) : Term := ⟨.empty, value, by simp [OrderedMap.empty]⟩

def atom (name : Atom) : Term :=
  ⟨.singleton name 1, 0, by simp [OrderedMap.singleton]⟩

def affine (name : Atom) (scale offset : Int) : Term :=
  if nonzero : scale = 0 then constant offset
  else ⟨.singleton name scale, offset, by simpa [OrderedMap.singleton] using nonzero⟩

def asConstant (term : Term) : Option Int :=
  if term.coeffs.entries.isEmpty then some term.constantPart else none

def atoms (term : Term) : List Atom := term.coeffs.keys

/-- The latest stage of any atom: the first stage at which the term is known. -/
def stage (term : Term) : Stage :=
  (term.atoms.map Atom.stage).foldl max .jit

/-! ## Checked arithmetic -/

/-- One round of the loop of `add`: fold a coefficient into its atom's entry and
drop the entry when it cancels. -/
def accumulate (coeffs : OrderedMap Atom Int) (entry : Atom × Int) :
    Option (OrderedMap Atom Int) := do
  let sum ← IntegerFormat.i64.checked ((coeffs.find? entry.1).getD 0 + entry.2)
  return if sum = 0 then coeffs.erase entry.1 else coeffs.insert entry.1 sum

variable {coeffs result : OrderedMap Atom Int} {entry : Atom × Int}

theorem accumulate_cases (accumulated : accumulate coeffs entry = some result) :
    ((coeffs.find? entry.1).getD 0 + entry.2 = 0 ∧ result = coeffs.erase entry.1) ∨
      ∃ sum, sum ≠ 0 ∧ (coeffs.find? entry.1).getD 0 + entry.2 = sum ∧
        result = coeffs.insert entry.1 sum := by
  simp only [accumulate, bind, Option.bind_eq_some_iff,
    checked_eq_some_iff] at accumulated
  rcases accumulated with ⟨sum, ⟨_, equal⟩, returned⟩
  split_ifs at returned with zero
  · exact .inl ⟨equal.trans zero, (Option.some.inj returned).symm⟩
  · exact .inr ⟨sum, zero, equal, (Option.some.inj returned).symm⟩

/-- Entries of an accumulated map come from the map or name the folded atom. -/
theorem mem_accumulate {member : Atom × Int} (accumulated : accumulate coeffs entry = some result)
    (inside : member ∈ result.entries) :
    member ∈ coeffs.entries ∨ (member.1 = entry.1 ∧ member.2 ≠ 0) := by
  rcases accumulate_cases accumulated with ⟨_, rfl⟩ | ⟨_, nonzero, _, rfl⟩
  · exact .inl (mem_of_mem_erase inside)
  · rcases mem_of_mem_insert inside with same | old
    · exact .inr (same ▸ ⟨rfl, nonzero⟩)
    · exact .inl old

theorem weightedSum_accumulate (valuation : Atom → Int)
    (accumulated : accumulate coeffs entry = some result) :
    result.weightedSum valuation =
      coeffs.weightedSum valuation + entry.2 * valuation entry.1 := by
  rcases accumulate_cases accumulated with ⟨cancelled, rfl⟩ | ⟨_, _, equal, rfl⟩
  · rw [weightedSum_erase, ← neg_eq_of_add_eq_zero_right cancelled]
    ring
  · rw [weightedSum_insert, ← equal]
    ring

theorem mem_foldlM_accumulate {entries : List (Atom × Int)} {member : Atom × Int}
    (accumulated : entries.foldlM accumulate coeffs = some result)
    (inside : member ∈ result.entries) :
    member ∈ coeffs.entries ∨ (member.1 ∈ entries.map Prod.fst ∧ member.2 ≠ 0) := by
  induction entries generalizing coeffs with
  | nil =>
    cases accumulated
    exact .inl inside
  | cons _ _ induction =>
    rw [List.foldlM_cons] at accumulated
    rcases Option.bind_eq_some_iff.mp accumulated with ⟨_, first, rest⟩
    rcases induction rest with old | ⟨later, nonzero⟩
    · rcases mem_accumulate first old with older | ⟨here, nonzero⟩
      · exact .inl older
      · exact .inr ⟨here ▸ List.mem_cons_self, nonzero⟩
    · exact .inr ⟨List.mem_cons_of_mem _ later, nonzero⟩

theorem weightedSum_foldlM_accumulate (valuation : Atom → Int) {entries : List (Atom × Int)}
    (accumulated : entries.foldlM accumulate coeffs = some result) :
    result.weightedSum valuation = coeffs.weightedSum valuation +
      (entries.map fun entry => entry.2 * valuation entry.1).sum := by
  induction entries generalizing coeffs with
  | nil =>
    cases accumulated
    simp
  | cons _ _ induction =>
    rw [List.foldlM_cons] at accumulated
    rcases Option.bind_eq_some_iff.mp accumulated with ⟨_, first, rest⟩
    rw [induction rest, weightedSum_accumulate valuation first,
      List.map_cons, List.sum_cons, add_assoc]

def add (left right : Term) : Option Term :=
  match accumulated : right.coeffs.entries.foldlM accumulate left.coeffs with
  | none => none
  | some coeffs =>
    (IntegerFormat.i64.checked (left.constantPart + right.constantPart)).map
      fun sum =>
        { coeffs
          constantPart := sum
          reduced := fun entry member =>
            (mem_foldlM_accumulate accumulated member).elim
              (left.reduced entry) And.right }

/-- Multiply by a nonzero constant, coefficient by coefficient. Negation is the
case `-1`: a checked negation and a checked product by `-1` overflow alike. -/
def scale (factor : Int) (nonzero : factor ≠ 0) (term : Term) : Option Term :=
  match scaled : term.coeffs.traverse
      (fun coefficient => IntegerFormat.i64.checked (coefficient * factor)) with
  | none => none
  | some coeffs =>
    (IntegerFormat.i64.checked (term.constantPart * factor)).map fun product =>
      { coeffs
        constantPart := product
        reduced := by
          intro entry member
          rw [← (OrderedMap.traverse_eq_some_iff.mp scaled).2] at member
          rcases OrderedMap.mem_filterMap.mp member with ⟨old, inside, fits⟩
          rw [← (IntegerFormat.checked_eq_some_iff _).mp fits |>.2]
          exact mul_ne_zero (term.reduced _ inside) nonzero }

def neg (term : Term) : Option Term := term.scale (-1) (by decide)

def sub (left right : Term) : Option Term := do left.add (← right.neg)

def mulConst (term : Term) (factor : Int) : Option Term :=
  if zero : factor = 0 then some (constant 0) else term.scale factor zero

def leadingNegative (term : Term) : Bool :=
  match term.coeffs.entries with
  | (_, coefficient) :: _ => coefficient < 0
  | [] => term.constantPart < 0

/-- Give the term a nonnegative leading coefficient (or constant, without atoms)
so that a difference and its opposite have one spelling. A negation that
overflows leaves the term as it is. -/
def signCanonical (term : Term) : Term :=
  if term.leadingNegative then term.neg.getD term else term

def asSingleAffine (term : Term) : Option (Atom × Int × Int) :=
  match term.coeffs.entries with
  | [(name, scale)] => some (name, scale, term.constantPart)
  | _ => none

/-! ## Meaning -/

def value (valuation : Atom → Int) (term : Term) : Int :=
  term.coeffs.weightedSum valuation + term.constantPart

section Value

variable (valuation : Atom → Int) {left right term result : Term}

@[simp] theorem value_constant (number : Int) :
    (constant number).value valuation = number := by
  simp [value, constant]

@[simp] theorem value_atom (name : Atom) :
    (atom name).value valuation = valuation name := by
  simp [value, atom]

@[simp] theorem value_affine (name : Atom) (scale offset : Int) :
    (affine name scale offset).value valuation = scale * valuation name + offset := by
  unfold affine
  split_ifs with zero
  · simp [zero]
  · simp [value]

theorem value_of_asConstant {number : Int} (isConstant : term.asConstant = some number) :
    term.value valuation = number := by
  unfold asConstant at isConstant
  split_ifs at isConstant with empty
  cases isConstant
  simp [value, weightedSum, List.isEmpty_iff.mp empty]

theorem value_of_asSingleAffine {name : Atom} {scale offset : Int}
    (single : term.asSingleAffine = some (name, scale, offset)) :
    term.value valuation = scale * valuation name + offset := by
  unfold asSingleAffine at single
  split at single
  · rename_i entryName coefficient entries
    cases single
    simp [value, weightedSum, entries]
  · cases single

theorem value_congr {valuation other : Atom → Int}
    (agree : ∀ name ∈ term.atoms, valuation name = other name) :
    term.value valuation = term.value other := by
  rw [value, value, weightedSum_congr agree]

theorem add_eq_some (sum : left.add right = some result) :
    right.coeffs.entries.foldlM accumulate left.coeffs = some result.coeffs ∧
      i64.Represents result.constantPart ∧
      left.constantPart + right.constantPart = result.constantPart := by
  unfold add at sum
  split at sum
  · cases sum
  · rename_i coeffs accumulated
    rcases Option.map_eq_some_iff.mp sum with ⟨_, fits, rfl⟩
    rcases (checked_eq_some_iff _).mp fits with ⟨machine, rfl⟩
    exact ⟨accumulated, machine, rfl⟩

theorem value_add (sum : left.add right = some result) :
    result.value valuation = left.value valuation + right.value valuation := by
  rcases add_eq_some sum with ⟨accumulated, -, constant⟩
  rw [value, weightedSum_foldlM_accumulate valuation accumulated, ← constant]
  simp only [value, weightedSum]
  ring

theorem scale_eq_some {factor : Int} {nonzero : factor ≠ 0}
    (product : term.scale factor nonzero = some result) :
    term.coeffs.traverse
        (fun coefficient => i64.checked (coefficient * factor)) =
      some result.coeffs ∧ i64.Represents result.constantPart ∧
    term.constantPart * factor = result.constantPart := by
  unfold scale at product
  split at product
  · cases product
  · rename_i coeffs scaled
    rcases Option.map_eq_some_iff.mp product with ⟨_, fits, rfl⟩
    rcases (checked_eq_some_iff _).mp fits with ⟨machine, rfl⟩
    exact ⟨scaled, machine, rfl⟩

theorem value_scale {factor : Int} {nonzero : factor ≠ 0}
    (product : term.scale factor nonzero = some result) :
    result.value valuation = term.value valuation * factor := by
  rcases scale_eq_some product with ⟨scaled, -, constant⟩
  rcases traverse_eq_some_iff.mp scaled with ⟨allFit, filtered⟩
  have exact : (0 : Int) ∣ factor * term.coeffs.weightedSum valuation -
      result.coeffs.weightedSum valuation := by
    rw [← filtered]
    apply weightedSum_filterMap
    intro entry member
    rcases Option.isSome_iff_exists.mp (allFit entry member) with ⟨_, fits⟩
    rw [fits, Option.getD_some, ← ((checked_eq_some_iff _).mp fits).2]
    exact ⟨0, by ring⟩
  rw [zero_dvd_iff, sub_eq_zero] at exact
  rw [value, value, ← exact, ← constant]
  ring

theorem value_neg (negated : term.neg = some result) :
    result.value valuation = -term.value valuation := by
  rw [value_scale valuation negated, mul_neg_one]

theorem value_sub (difference : left.sub right = some result) :
    result.value valuation = left.value valuation - right.value valuation := by
  rcases Option.bind_eq_some_iff.mp difference with ⟨_, negation, sum⟩
  rw [value_add valuation sum, value_neg valuation negation, sub_eq_add_neg]

theorem value_mulConst {factor : Int} (product : term.mulConst factor = some result) :
    result.value valuation = term.value valuation * factor := by
  unfold mulConst at product
  split_ifs at product with zero
  · cases product
    simp [zero]
  · exact value_scale valuation product

theorem signCanonical_cases (term : Term) :
    term.signCanonical = term ∨ term.neg = some term.signCanonical := by
  unfold signCanonical
  split_ifs
  · cases negation : term.neg with
    | none => exact .inl rfl
    | some => exact .inr rfl
  · exact .inl rfl

/-- The canonical sign does not change the magnitude, which is all that a test
against zero or for divisibility can see. -/
theorem value_signCanonical (term : Term) :
    term.signCanonical.value valuation = term.value valuation ∨
      term.signCanonical.value valuation = -term.value valuation := by
  rcases signCanonical_cases term with same | negated
  · exact .inl (by rw [same])
  · exact .inr (value_neg valuation negated)

end Value

/-! ## Atoms of results -/

section Atoms

variable {left right term result : Term} {name : Atom}

@[simp] theorem atoms_constant (number : Int) : (constant number).atoms = [] := rfl

@[simp] theorem atoms_atom (name : Atom) : (atom name).atoms = [name] := rfl

theorem mem_atoms_iff : name ∈ term.atoms ↔ ∃ c, (name, c) ∈ term.coeffs.entries := by
  simp [atoms, keys]

theorem mem_atoms_add (sum : left.add right = some result)
    (member : name ∈ result.atoms) : name ∈ left.atoms ∨ name ∈ right.atoms := by
  rcases mem_atoms_iff.mp member with ⟨coefficient, inside⟩
  rcases mem_foldlM_accumulate (add_eq_some sum).1 inside with old | ⟨new, _⟩
  · exact .inl (mem_atoms_iff.mpr ⟨coefficient, old⟩)
  · exact .inr new

theorem mem_atoms_scale {factor : Int} {nonzero : factor ≠ 0}
    (product : term.scale factor nonzero = some result)
    (member : name ∈ result.atoms) : name ∈ term.atoms := by
  rcases mem_atoms_iff.mp member with ⟨_, inside⟩
  rw [← (traverse_eq_some_iff.mp (scale_eq_some product).1).2] at inside
  rcases mem_filterMap.mp inside with ⟨old, before, _⟩
  exact mem_atoms_iff.mpr ⟨old, before⟩

theorem mem_atoms_sub (difference : left.sub right = some result)
    (member : name ∈ result.atoms) : name ∈ left.atoms ∨ name ∈ right.atoms := by
  rcases Option.bind_eq_some_iff.mp difference with ⟨_, negation, sum⟩
  exact (mem_atoms_add sum member).imp_right (mem_atoms_scale negation)

theorem mem_atoms_signCanonical (member : name ∈ term.signCanonical.atoms) :
    name ∈ term.atoms := by
  rcases signCanonical_cases term with same | negated
  · rwa [same] at member
  · exact mem_atoms_scale negated member

end Atoms

/-! ## Checked evaluation -/

section Evaluation

variable (resolve : Atom → Option Int)

/-- One round of the loop of `eval`. -/
def evalStep (accumulator : Int) (entry : Atom × Int) : Option Int := do
  let atomValue ← resolve entry.1
  let product ← IntegerFormat.i64.checked (entry.2 * atomValue)
  IntegerFormat.i64.checked (accumulator + product)

/-- Evaluate in checked `i64` arithmetic; an atom the resolver does not know and
an overflow both give nothing. -/
def eval (term : Term) : Option Int :=
  term.coeffs.entries.foldlM (evalStep resolve) term.constantPart

/-- The total valuation a resolver stands for. Unresolved atoms are never
looked at under `Resolves`. -/
def resolved (name : Atom) : Int := (resolve name).getD 0

def Resolves (term : Term) : Prop := ∀ name ∈ term.atoms, (resolve name).isSome

/-- Every product and partial sum of the evaluation loop is an `i64`. -/
def StepsFit (accumulator : Int) : List (Atom × Int) → Prop
  | [] => True
  | (name, coefficient) :: rest =>
    IntegerFormat.i64.Represents (coefficient * resolved resolve name) ∧
      IntegerFormat.i64.Represents
        (accumulator + coefficient * resolved resolve name) ∧
      StepsFit (accumulator + coefficient * resolved resolve name) rest

def EvalFits (term : Term) : Prop :=
  StepsFit resolve term.constantPart term.coeffs.entries

theorem evalStep_eq_some_iff {accumulator next : Int} {entry : Atom × Int} :
    evalStep resolve accumulator entry = some next ↔
      (resolve entry.1).isSome ∧
        i64.Represents (entry.2 * resolved resolve entry.1) ∧
        i64.Represents
          (accumulator + entry.2 * resolved resolve entry.1) ∧
        accumulator + entry.2 * resolved resolve entry.1 = next := by
  cases known : resolve entry.1 with
  | none => simp [evalStep, known]
  | some atomValue =>
    have same : resolved resolve entry.1 = atomValue := by simp [resolved, known]
    simp only [evalStep, known, same, bind, Option.bind_some, Option.bind_eq_some_iff,
      checked_eq_some_iff, Option.isSome_some, true_and]
    constructor
    · rintro ⟨_, ⟨productFits, rfl⟩, sumFits, equal⟩
      exact ⟨productFits, sumFits, equal⟩
    · rintro ⟨productFits, sumFits, equal⟩
      exact ⟨_, ⟨productFits, rfl⟩, sumFits, equal⟩

theorem foldlM_evalStep_eq_some_iff {accumulator total : Int}
    {entries : List (Atom × Int)} :
    entries.foldlM (evalStep resolve) accumulator = some total ↔
      (∀ name ∈ entries.map Prod.fst, (resolve name).isSome) ∧
        StepsFit resolve accumulator entries ∧
        accumulator + (entries.map fun e => e.2 * resolved resolve e.1).sum = total := by
  induction entries generalizing accumulator with
  | nil => simp [StepsFit, pure]
  | cons _ _ induction =>
    rw [List.foldlM_cons]
    change Option.bind _ _ = _ ↔ _
    rw [Option.bind_eq_some_iff]
    simp only [evalStep_eq_some_iff, induction, StepsFit, List.map_cons, List.sum_cons,
      List.forall_mem_cons]
    constructor
    · rintro ⟨_, ⟨known, productFits, sumFits, rfl⟩, rest, restFit, equal⟩
      exact ⟨⟨known, rest⟩, ⟨productFits, sumFits, restFit⟩, by rw [← equal]; ring⟩
    · rintro ⟨⟨known, rest⟩, ⟨productFits, sumFits, restFit⟩, equal⟩
      exact ⟨_, ⟨known, productFits, sumFits, rfl⟩, rest, restFit, by rw [← equal]; ring⟩

/-- What a checked evaluation says: every atom was known, no step overflowed,
and the result is the exact value. -/
theorem eval_eq_some_iff {term : Term} {result : Int} :
    term.eval resolve = some result ↔
      term.Resolves resolve ∧ term.EvalFits resolve ∧
        term.value (resolved resolve) = result := by
  rw [eval, foldlM_evalStep_eq_some_iff, add_comm]
  rfl

end Evaluation

end Term

end CuTile
