import CuTile.Predicate.Predicate

/-! # Canonical terms and predicates

A term is determined by the values it takes, and the constructors of predicates
pick one term for each meaning. Lists of known predicates can therefore be
searched by structural comparison.
-/

namespace CuTile

open IntegerFormat Option

namespace Term

/-! ## Coefficients -/

/-- The coefficient of an atom, zero when the term does not mention it. -/
def coefficient (term : Term) (name : Atom) : Int := (term.coeffs.find? name).getD 0

theorem find?_ne_zero (term : Term) (name : Atom) : term.coeffs.find? name ≠ some 0 := by
  intro found
  exact term.reduced _ ((term.coeffs.find?_eq_some_iff).mp found) rfl

variable {term : Term} {number : Int}

theorem coefficient_of_mem {name : Atom} (member : (name, number) ∈ term.coeffs.entries) :
    term.coefficient name = number := by
  rw [coefficient, (term.coeffs.find?_eq_some_iff).mpr member, getD_some]

variable {left right : Term}

/-- No coefficient is zero, so an atom with coefficient zero has no entry and the
coefficients determine the map. -/
theorem eq_of_coefficient_eq
    (coefficients : ∀ name, left.coefficient name = right.coefficient name)
    (constants : left.constantPart = right.constantPart) : left = right := by
  apply Term.ext _ constants
  apply OrderedMap.eq_of_find?_eq
  intro name
  have same := coefficients name
  have leftNonzero := left.find?_ne_zero name
  have rightNonzero := right.find?_ne_zero name
  simp only [coefficient] at same
  cases inLeft : left.coeffs.find? name <;> cases inRight : right.coeffs.find? name <;>
    simp_all [eq_comm]

theorem value_zero (term : Term) : term.value (fun _ => 0) = term.constantPart := by
  simp [value, OrderedMap.weightedSum]

theorem value_indicator (term : Term) (name : Atom) :
    term.value (OrderedMap.indicator name) = term.coefficient name + term.constantPart := by
  rw [value, coefficient, OrderedMap.weightedSum_indicator]

/-- The zero valuation and the indicators separate terms, also up to a modulus.
Modulus zero is equality. -/
theorem coefficient_modEq {modulus : Int}
    (same : ∀ valuation, left.value valuation ≡ right.value valuation [ZMOD modulus]) :
    (∀ name, left.coefficient name ≡ right.coefficient name [ZMOD modulus]) ∧
      left.constantPart ≡ right.constantPart [ZMOD modulus] := by
  have constants : left.constantPart ≡ right.constantPart [ZMOD modulus] := by
    simpa only [value_zero] using same fun _ => 0
  refine ⟨fun name => ?_, constants⟩
  have shifted := same (OrderedMap.indicator name)
  rw [value_indicator, value_indicator] at shifted
  exact Int.ModEq.add_right_cancel constants shifted

theorem eq_of_value_eq (same : ∀ valuation, left.value valuation = right.value valuation) :
    left = right := by
  have separated := coefficient_modEq fun valuation => Int.modEq_zero_iff.mpr (same valuation)
  exact eq_of_coefficient_eq (fun name => Int.modEq_zero_iff.mp (separated.1 name))
    (Int.modEq_zero_iff.mp separated.2)

variable {name : Atom} {difference : Term}

theorem atom_sub_constant
    (subtraction : (atom name).sub (constant number) = some difference) :
    difference = affine name 1 (-number) := by
  apply eq_of_value_eq
  intro valuation
  rw [value_sub valuation subtraction, value_atom, value_constant, value_affine]
  ring

theorem constant_sub_atom
    (subtraction : (constant number).sub (atom name) = some difference) :
    difference = affine name (-1) number := by
  apply eq_of_value_eq
  intro valuation
  rw [value_sub valuation subtraction, value_atom, value_constant, value_affine]
  ring

/-! ## Terms in range

The source stores coefficients and constants as `i64`. The checked operations
keep every number of a term in that range. -/

/-- Every number the term stores is an `i64`. -/
def Fits (term : Term) : Prop :=
  (∀ entry ∈ term.coeffs.entries, IntegerFormat.i64.Represents entry.2) ∧
    IntegerFormat.i64.Represents term.constantPart

theorem Fits.coefficient (fits : term.Fits) (name : Atom) :
    i64.Represents (term.coefficient name) := by
  rw [Term.coefficient]
  cases found : term.coeffs.find? name with
  | none => decide
  | some => exact fits.1 _ ((term.coeffs.find?_eq_some_iff).mp found)

theorem fits_constant (fits : i64.Represents number) : (constant number).Fits :=
  ⟨by simp [constant, OrderedMap.empty], fits⟩

theorem fits_atom (name : Atom) : (atom name).Fits :=
  ⟨by simp [atom, OrderedMap.singleton], by simp [atom]⟩

theorem fits_affine (name : Atom) {scale offset : Int}
    (scaleFits : i64.Represents scale)
    (offsetFits : i64.Represents offset) :
    (affine name scale offset).Fits := by
  unfold affine
  split_ifs with zero
  · exact fits_constant offsetFits
  · exact ⟨by simpa [OrderedMap.singleton] using scaleFits, offsetFits⟩

theorem represents_of_mem_accumulate {coeffs result : OrderedMap Atom Int}
    {entry member : Atom × Int} (accumulated : accumulate coeffs entry = some result)
    (fits : ∀ old ∈ coeffs.entries, i64.Represents old.2)
    (inside : member ∈ result.entries) : i64.Represents member.2 := by
  rcases bind_eq_some_iff.mp accumulated with ⟨_, sumFits, _⟩
  rcases (checked_eq_some_iff _).mp sumFits with ⟨representable, rfl⟩
  rcases accumulate_cases accumulated with ⟨_, rfl⟩ | ⟨_, _, rfl, rfl⟩
  · exact fits member (OrderedMap.mem_of_mem_erase inside)
  · rcases OrderedMap.mem_of_mem_insert inside with rfl | old
    · exact representable
    · exact fits member old

theorem represents_of_mem_foldlM_accumulate {coeffs result : OrderedMap Atom Int}
    {entries : List (Atom × Int)} {member : Atom × Int}
    (accumulated : entries.foldlM accumulate coeffs = some result)
    (fits : ∀ old ∈ coeffs.entries, i64.Represents old.2)
    (inside : member ∈ result.entries) : i64.Represents member.2 := by
  induction entries generalizing coeffs with
  | nil =>
    cases accumulated
    exact fits member inside
  | cons _ _ induction =>
    rw [List.foldlM_cons] at accumulated
    rcases bind_eq_some_iff.mp accumulated with ⟨_, first, rest⟩
    exact induction rest fun old => represents_of_mem_accumulate first fits

variable {result : Term}

theorem fits_add (leftFits : left.Fits) (sum : left.add right = some result) : result.Fits := by
  rcases add_eq_some sum with ⟨accumulated, fits, -⟩
  exact ⟨fun entry => represents_of_mem_foldlM_accumulate accumulated leftFits.1, fits⟩

theorem fits_scale {factor : Int} {nonzero : factor ≠ 0}
    (product : term.scale factor nonzero = some result) : result.Fits := by
  rcases scale_eq_some product with ⟨scaled, fits, -⟩
  refine ⟨fun entry member => ?_, fits⟩
  rw [← (OrderedMap.traverse_eq_some_iff.mp scaled).2] at member
  rcases OrderedMap.mem_filterMap.mp member with ⟨_, _, fits⟩
  have exact := (checked_eq_some_iff _).mp fits
  exact exact.2 ▸ exact.1

theorem fits_sub (leftFits : left.Fits) (difference : left.sub right = some result) :
    result.Fits := by
  rcases bind_eq_some_iff.mp difference with ⟨_, _, sum⟩
  exact fits_add leftFits sum

theorem fits_mulConst {factor : Int} (product : term.mulConst factor = some result) :
    result.Fits := by
  unfold mulConst at product
  split_ifs at product with zero
  · cases product
    exact fits_constant (by decide)
  · exact fits_scale product

/-- The terms a program can build: `i64` arguments and results that did not
overflow. -/
inductive Built : Term → Prop
  | constant {number : Int} (fits : IntegerFormat.i64.Represents number) :
      Built (.constant number)
  | atom (name : Atom) : Built (.atom name)
  | affine (name : Atom) {scale offset : Int}
      (scaleFits : IntegerFormat.i64.Represents scale)
      (offsetFits : IntegerFormat.i64.Represents offset) :
      Built (.affine name scale offset)
  | add {left right result : Term} (builtLeft : Built left) (builtRight : Built right)
      (sum : left.add right = some result) : Built result
  | neg {term result : Term} (built : Built term) (negated : term.neg = some result) :
      Built result
  | sub {left right result : Term} (builtLeft : Built left) (builtRight : Built right)
      (difference : left.sub right = some result) : Built result
  | mulConst {term result : Term} {factor : Int} (built : Built term)
      (factorFits : IntegerFormat.i64.Represents factor)
      (product : term.mulConst factor = some result) : Built result

theorem Built.fits (built : Built term) : term.Fits := by
  induction built with
  | constant fits => exact fits_constant fits
  | atom name => exact fits_atom name
  | affine name scaleFits offsetFits => exact fits_affine name scaleFits offsetFits
  | add _ _ sum leftFits => exact fits_add leftFits sum
  | neg _ negated => exact fits_scale negated
  | sub _ _ difference leftFits => exact fits_sub leftFits difference
  | mulConst _ _ product => exact fits_mulConst product

/-- Terms are canonical: they store nonzero `i64` coefficients only, they denote
the same function exactly when they are equal, and the checked operations
compute the exact ones. -/
theorem built_terms_canonical {left right : Term} (builtLeft : Built left)
    (builtRight : Built right) :
    (∀ name number, left.coeffs.find? name = some number →
      number ≠ 0 ∧ IntegerFormat.i64.Represents number) ∧
    (∀ name number, right.coeffs.find? name = some number →
      number ≠ 0 ∧ IntegerFormat.i64.Represents number) ∧
    ((∀ valuation, left.value valuation = right.value valuation) ↔ left = right) ∧
    (∀ result, left.add right = some result → ∀ valuation,
      result.value valuation = left.value valuation + right.value valuation) ∧
    (∀ result, left.sub right = some result → ∀ valuation,
      result.value valuation = left.value valuation - right.value valuation) ∧
    (∀ result, left.neg = some result → ∀ valuation,
      result.value valuation = -left.value valuation) ∧
    (∀ factor result, left.mulConst factor = some result → ∀ valuation,
      result.value valuation = left.value valuation * factor) := by
  have stored : ∀ term : Term, Built term → ∀ name number,
      term.coeffs.find? name = some number →
        number ≠ 0 ∧ i64.Represents number := by
    intro term built _ _ found
    have member := (term.coeffs.find?_eq_some_iff).mp found
    exact ⟨term.reduced _ member, built.fits.1 _ member⟩
  refine ⟨stored left builtLeft, stored right builtRight, ⟨eq_of_value_eq, ?_⟩,
    ?_, ?_, ?_, ?_⟩
  · intro same valuation
    rw [same]
  · exact fun result sum valuation => value_add valuation sum
  · exact fun result difference valuation => value_sub valuation difference
  · exact fun result negated valuation => value_neg valuation negated
  · exact fun factor result product valuation => value_mulConst valuation product

theorem built_terms_canonical_tileBlock :
    let left := Term.atom (.tileBlockId 0)
    let right := Term.affine (.dim 1 0) (-1) 4
    Built left ∧ Built right ∧ ¬ ∀ valuation, left.value valuation = right.value valuation := by
  have builtLeft := Built.atom (.tileBlockId 0)
  have builtRight : Built (Term.affine (.dim 1 0) (-1) 4) :=
    Built.affine _ (by decide) (by decide)
  refine ⟨builtLeft, builtRight, ?_⟩
  rw [(built_terms_canonical builtLeft builtRight).2.2.1]
  decide

/-! ## Canonical signs -/

/-- The number whose sign `signCanonical` makes nonnegative. -/
def leading (term : Term) : Int :=
  match term.coeffs.entries with
  | (_, coefficient) :: _ => coefficient
  | [] => term.constantPart

theorem leadingNegative_iff (term : Term) : term.leadingNegative = true ↔ term.leading < 0 := by
  cases entries : term.coeffs.entries <;> simp [leadingNegative, leading, entries]

theorem eq_zero_of_leading (term : Term) (zero : term.leading = 0) : term = constant 0 := by
  unfold leading at zero
  split at zero
  · rename_i name number rest entries
    exact absurd zero (term.reduced (name, number) (entries ▸ List.mem_cons_self))
  · rename_i entries
    exact Term.ext (OrderedMap.ext entries) zero

theorem leading_neg (negated : term.neg = some result) : result.leading = -term.leading := by
  rcases scale_eq_some negated with ⟨scaled, -, constants⟩
  rcases OrderedMap.traverse_eq_some_iff.mp scaled with ⟨allFit, filtered⟩
  unfold leading
  cases entries : term.coeffs.entries with
  | nil =>
    have none : result.coeffs.entries = [] := by
      rw [← filtered, OrderedMap.entries_filterMap, entries, List.filterMap_nil]
    rw [none, ← constants, mul_neg_one]
  | cons head =>
    have headFits := allFit head (entries ▸ List.mem_cons_self)
    rcases isSome_iff_exists.mp headFits with ⟨number, fits⟩
    have some : ∃ rest, result.coeffs.entries = (head.1, number) :: rest := by
      rw [← filtered, OrderedMap.entries_filterMap, entries, List.filterMap_cons, fits]
      exact ⟨_, rfl⟩
    rcases some with ⟨rest, some⟩
    rw [some, ← ((checked_eq_some_iff _).mp fits).2]
    exact mul_neg_one _

/-- A negation that can be stored is the result of `neg`. -/
theorem neg_eq_some_of_value (fits : result.Fits)
    (opposite : ∀ valuation, result.value valuation = -term.value valuation) :
    term.neg = some result := by
  have constants : term.constantPart * -1 = result.constantPart := by
    have atZero := opposite fun _ => 0
    rw [value_zero, value_zero] at atZero
    rw [atZero, mul_neg_one]
  have coefficients : ∀ entry ∈ term.coeffs.entries,
      entry.2 * -1 = result.coefficient entry.1 := by
    intro entry member
    have atEntry := opposite (OrderedMap.indicator entry.1)
    rw [value_indicator, value_indicator, coefficient_of_mem member] at atEntry
    linarith
  have allFit : ∀ entry ∈ term.coeffs.entries,
      (i64.checked (entry.2 * -1)).isSome := by
    intro entry member
    apply isSome_iff_exists.mpr
    exact ⟨_, (checked_eq_some_iff _).mpr
      ⟨coefficients entry member ▸ fits.coefficient entry.1, rfl⟩⟩
  cases negation : term.neg with
  | none =>
    unfold neg scale at negation
    split at negation
    · rename_i failed
      rw [OrderedMap.traverse_eq_some_iff.mpr ⟨allFit, rfl⟩] at failed
      cases failed
    · rw [map_eq_none_iff, (checked_eq_some_iff _).mpr
        ⟨constants ▸ fits.2, rfl⟩] at negation
      cases negation
  | some =>
    congr 1
    apply eq_of_value_eq
    intro valuation
    rw [value_neg valuation negation, opposite]

theorem signCanonical_eq_of_neg {opposite : Term} (negated : term.neg = some opposite)
    (back : opposite.neg = some term) : term.signCanonical = opposite.signCanonical := by
  have leadings := leading_neg negated
  unfold signCanonical
  rw [negated, back, getD_some, getD_some]
  rcases lt_trichotomy term.leading 0 with below | zero | above
  · rw [if_pos (term.leadingNegative_iff.mpr below),
      if_neg (mt opposite.leadingNegative_iff.mp (by omega))]
  · have same : term = opposite := by
      rw [term.eq_zero_of_leading zero, opposite.eq_zero_of_leading (by omega)]
    rw [same, ite_self]
  · rw [if_neg (mt term.leadingNegative_iff.mp (by omega)),
      if_pos (opposite.leadingNegative_iff.mpr (by omega))]

theorem signCanonical_of_leading_nonneg (nonneg : 0 ≤ term.leading) : term.signCanonical = term :=
  if_neg (mt term.leadingNegative_iff.mp (by omega))

end Term

namespace Predicate

/-- The predicate says `proposition` at a valuation: it holds exactly then, and a
checked evaluation against known atoms can only return that answer. -/
def Says (predicate : Predicate) (valuation : Atom → Int) (proposition : Prop) : Prop :=
  (predicate.Holds valuation ↔ proposition) ∧
    ∀ (resolve : Atom → Option Int) (answer : Bool),
      (∀ name number, resolve name = some number → valuation name = number) →
      predicate.eval resolve = some answer → (answer = true ↔ proposition)

/-- Evaluation applies the predicate's test to the exact value of its term. -/
theorem says_of_holds {predicate : Predicate} {valuation : Atom → Int} {proposition : Prop}
    (meaning : predicate.Holds valuation ↔ proposition) : predicate.Says valuation proposition := by
  refine ⟨meaning, ?_⟩
  intro resolve _ agrees evaluated
  rcases bind_eq_some_iff.mp evaluated with ⟨_, known, returned⟩
  rcases (Term.eval_eq_some_iff resolve).mp known with ⟨resolves, _, exact⟩
  have same : predicate.term.value (Term.resolved resolve) = predicate.term.value valuation := by
    apply Term.value_congr
    intro name member
    rcases isSome_iff_exists.mp (resolves name member) with ⟨atomValue, found⟩
    rw [Term.resolved, found, getD_some, agrees name atomValue found]
  rw [← meaning, ← test_value_iff, ← same, exact]
  cases returned
  rfl

theorem eval_positive_affine {resolve : Atom → Option Int} {name : Atom}
    {scale offset number : Int} (nonzero : scale ≠ 0) (known : resolve name = some number)
    (product : i64.Represents (scale * number))
    (sum : i64.Represents (offset + scale * number)) :
    (Predicate.positive (.affine name scale offset)).eval resolve = some true ↔
      0 < scale * number + offset := by
  have isNumber : Term.resolved resolve name = number := by rw [Term.resolved, known]; rfl
  have shape : (Term.affine name scale offset).coeffs.entries = [(name, scale)] ∧
      (Term.affine name scale offset).constantPart = offset := by
    rw [Term.affine, dif_neg nonzero]
    exact ⟨rfl, rfl⟩
  have resolves : (Term.affine name scale offset).Resolves resolve := by
    intro _ member
    rw [Term.atoms, OrderedMap.keys, shape.1, List.map_singleton, List.mem_singleton] at member
    rw [member, known, isSome_some]
  have fits : (Term.affine name scale offset).EvalFits resolve := by
    rw [Term.EvalFits, shape.1, shape.2]
    exact ⟨isNumber.symm ▸ product, isNumber.symm ▸ sum, trivial⟩
  rw [eval_eq_true_iff, HoldsAt, Holds, Term.value_affine, isNumber]
  exact ⟨fun holds => holds.2.2, fun holds => ⟨fits, resolves, holds⟩⟩

/-! ## Residues -/

theorem coefficient_reduceModulo (term : Term) (divisor : Int) (name : Atom) :
    (reduceModulo term divisor).coefficient name = term.coefficient name % divisor := by
  unfold Term.coefficient reduceModulo
  rw [OrderedMap.find?_filterMap]
  cases term.coeffs.find? name with
  | none => simp
  | some =>
    rw [bind_some, getD_some, residue]
    split_ifs with vanishes
    · exact vanishes.symm
    · rfl

/-- Residues are nonnegative, so the canonical sign leaves a residue term alone. -/
theorem signCanonical_reduceModulo (term : Term) {divisor : Int} (valid : 1 ≤ divisor) :
    (reduceModulo term divisor).signCanonical = reduceModulo term divisor := by
  apply Term.signCanonical_of_leading_nonneg
  unfold Term.leading
  split
  · rename_i name number rest entries
    have member : (name, number) ∈ (reduceModulo term divisor).coeffs.entries :=
      entries ▸ List.mem_cons_self
    rw [← Term.coefficient_of_mem member, coefficient_reduceModulo]
    exact Int.emod_nonneg _ (by omega)
  · exact Int.emod_nonneg _ (by omega)

theorem reduceModulo_eq_iff (left right : Term) (divisor : Int) :
    reduceModulo left divisor = reduceModulo right divisor ↔
      ∀ valuation, left.value valuation ≡ right.value valuation [ZMOD divisor] := by
  constructor
  · intro same valuation
    have leftResidue := Int.modEq_iff_dvd.mpr (reduceModulo_value valuation left divisor)
    have rightResidue := Int.modEq_iff_dvd.mpr (reduceModulo_value valuation right divisor)
    rw [same] at leftResidue
    exact leftResidue.symm.trans rightResidue
  · intro congruent
    rcases Term.coefficient_modEq congruent with ⟨coefficients, constants⟩
    apply Term.eq_of_coefficient_eq
    · intro name
      rw [coefficient_reduceModulo, coefficient_reduceModulo]
      exact coefficients name
    · exact constants

theorem ofDivisibleBy_eq_iff (left right : Term) {divisor : Int} (valid : 1 ≤ divisor) :
    ofDivisibleBy left divisor = ofDivisibleBy right divisor ↔
      ∀ valuation, left.value valuation ≡ right.value valuation [ZMOD divisor] := by
  rw [ofDivisibleBy, ofDivisibleBy, dif_neg (by omega), dif_neg (by omega),
    signCanonical_reduceModulo left valid, signCanonical_reduceModulo right valid,
    ← reduceModulo_eq_iff]
  simp

/-! ## The two spellings of an equality -/

theorem eq_comm_of_some {left right : Term} (leftFits : left.Fits) (rightFits : right.Fits)
    {forward backward : Predicate} (builtForward : eq left right = some forward)
    (builtBackward : eq right left = some backward) : forward = backward := by
  rcases bind_eq_some_iff.mp builtForward with ⟨difference, subtraction, returned⟩
  rcases bind_eq_some_iff.mp builtBackward with ⟨opposite, reversed, alsoReturned⟩
  cases returned
  cases alsoReturned
  have negated : difference.neg = some opposite := by
    apply Term.neg_eq_some_of_value (Term.fits_sub rightFits reversed)
    intro valuation
    rw [Term.value_sub valuation reversed, Term.value_sub valuation subtraction, neg_sub]
  have back : opposite.neg = some difference := by
    apply Term.neg_eq_some_of_value (Term.fits_sub leftFits subtraction)
    intro valuation
    rw [Term.value_sub valuation reversed, Term.value_sub valuation subtraction, neg_sub]
  rw [Term.signCanonical_eq_of_neg negated back]

/-- The constructors mean what they name, and give one predicate for each
meaning that callers compare: both spellings of an equality, and all terms of
one residue class. -/
theorem constructors_mean_and_canonicalise {left right : Term} {divisor : Int}
    (leftFits : left.Fits) (rightFits : right.Fits) (valid : 1 ≤ divisor) :
    (∀ predicate, eq left right = some predicate → ∀ valuation,
      predicate.Says valuation (left.value valuation = right.value valuation)) ∧
    (∀ predicate, lt left right = some predicate → ∀ valuation,
      predicate.Says valuation (left.value valuation < right.value valuation)) ∧
    (∀ predicate, le left right = some predicate → ∀ valuation,
      predicate.Says valuation (left.value valuation ≤ right.value valuation)) ∧
    (∀ valuation, (ofNonzero left).Says valuation (left.value valuation ≠ 0)) ∧
    (∀ predicate, ofDivisibleBy left divisor = some predicate → ∀ valuation,
      predicate.Says valuation (divisor ∣ left.value valuation)) ∧
    (∀ forward backward, eq left right = some forward → eq right left = some backward →
      forward = backward) ∧
    (ofDivisibleBy left divisor = ofDivisibleBy right divisor ↔
      ∀ valuation, left.value valuation ≡ right.value valuation [ZMOD divisor]) := by
  refine ⟨?_, ?_, ?_, ?_, ?_, ?_, ofDivisibleBy_eq_iff left right valid⟩
  · exact fun predicate built valuation => says_of_holds (holds_eq valuation built)
  · exact fun predicate built valuation => says_of_holds (holds_lt valuation built)
  · exact fun predicate built valuation => says_of_holds (holds_le valuation built)
  · exact fun valuation => says_of_holds (holds_ofNonzero valuation left)
  · exact fun predicate built valuation => says_of_holds (holds_ofDivisibleBy valuation built)
  · exact fun forward backward => eq_comm_of_some leftFits rightFits

/-- The extent of a tensor axis and its opposite shifted by a multiple of eight
are different terms; modulo two they are the same predicate. -/
theorem constructors_mean_and_canonicalise_parity :
    let left := Term.atom (.dim 0 1)
    let right := Term.affine (.dim 0 1) (-1) 8
    left.Fits ∧ right.Fits ∧ eq left right = eq right left ∧
      ∀ valuation, left.value valuation ≡ right.value valuation [ZMOD 2] := by
  have leftFits := Term.fits_atom (.dim 0 1)
  have rightFits : (Term.affine (.dim 0 1) (-1) 8).Fits :=
    Term.fits_affine _ (by decide) (by decide)
  refine ⟨leftFits, rightFits, by decide, ?_⟩
  have canonical :=
    constructors_mean_and_canonicalise leftFits rightFits (by decide : (1 : Int) ≤ 2)
  exact canonical.2.2.2.2.2.2.mp (by decide)

end Predicate

end CuTile
