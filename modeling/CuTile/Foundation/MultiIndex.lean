import Mathlib.Algebra.BigOperators.Group.List.Lemmas
import Mathlib.Algebra.BigOperators.Ring.List
import Mathlib.Algebra.Order.Ring.Abs
import Mathlib.Tactic.Linarith
import Mathlib.Tactic.Ring

/-! # Multi-indices

The indices of an array of several axes, in row-major order, and the offsets that a
list of strides gives them.
-/

namespace CuTile.MultiIndex

open List

def Within (index shape : List Nat) : Prop := List.Forall₂ (· < ·) index shape

variable {index shape : List Nat}

theorem Within.dim_pos (within : Within index shape) : ∀ dim ∈ shape, 0 < dim := by
  induction within with
  | nil => exact forall_mem_nil _
  | cons below _ induction => exact forall_mem_cons.mpr ⟨Nat.zero_lt_of_lt below, induction⟩

/-- Without an empty axis, no axis has more indices than the whole shape. -/
theorem dim_le_prod (positive : ∀ dim ∈ shape, 0 < dim) : ∀ dim ∈ shape, dim ≤ shape.prod := by
  have nonzero : shape.prod ≠ 0 := prod_ne_zero fun isZero => lt_irrefl 0 (positive 0 isZero)
  intro _ isDim
  exact Nat.le_of_dvd (Nat.pos_of_ne_zero nonzero) (dvd_prod isDim)

/-- The indices of a shape, the last axis fastest. -/
def all : List Nat → List (List Nat)
  | [] => [[]]
  | dim :: shape => (List.range dim).flatMap fun i => (all shape).map (i :: ·)

theorem mem_all_iff : index ∈ all shape ↔ Within index shape := by
  induction shape generalizing index with
  | nil =>
    rw [Within, forall₂_nil_right_iff]
    exact mem_singleton
  | cons _ _ induction =>
    simp only [all, mem_flatMap, mem_range, mem_map, induction]
    constructor
    · intro member
      rcases member with ⟨i, below, _, within, rfl⟩
      exact .cons below within
    · intro within
      cases within with
      | cons below within => exact ⟨_, below, _, within, rfl⟩

/-- Where an index lies when each axis advances by its stride. -/
def offset : List Nat → List Int → Int
  | i :: index, stride :: strides => i * stride + offset index strides
  | _, _ => 0

@[simp] theorem offset_cons (i : Nat) (stride : Int) (index : List Nat) (strides : List Int) :
    offset (i :: index) (stride :: strides) = i * stride + offset index strides := rfl

variable {strides : List Int}

theorem offset_nonneg (nonneg : ∀ stride ∈ strides, 0 ≤ stride) (index : List Nat) :
    0 ≤ offset index strides := by
  induction strides generalizing index with
  | nil => cases index <;> exact le_rfl
  | cons stride strides induction =>
    rcases forall_mem_cons.mp nonneg with ⟨here, rest⟩
    cases index with
    | nil => exact le_rfl
    | cons i index =>
      have product : (0 : Int) ≤ i * stride := mul_nonneg (Int.natCast_nonneg i) here
      have later := induction rest index
      rw [offset_cons]
      omega

theorem offset_zeros (rank : Nat) (strides : List Int) :
    offset (replicate rank 0) strides = 0 := by
  induction rank generalizing strides with
  | zero => rfl
  | succ _ induction =>
    cases strides with
    | nil => rfl
    | cons =>
      rw [replicate_succ, offset_cons, induction, Nat.cast_zero, zero_mul, add_zero]

theorem offset_add {start : List Nat} (sameLength : index.length = start.length) :
    offset (zipWith (· + ·) index start) strides =
      offset index strides + offset start strides := by
  induction index generalizing start strides with
  | nil =>
    cases length_eq_zero_iff.mp sameLength.symm
    rfl
  | cons _ index induction =>
    cases start with
    | nil => cases sameLength
    | cons _ start =>
      cases strides with
      | nil => rfl
      | cons _ strides =>
        have rest : offset (zipWith (· + ·) index start) strides =
            offset index strides + offset start strides :=
          induction (Nat.succ.inj sameLength)
        rw [zipWith_cons_cons, offset_cons, rest, offset_cons, offset_cons]
        push_cast
        ring

theorem zipWith_add_zeros (index : List Nat) :
    zipWith (· + ·) index (replicate index.length 0) = index := by
  induction index with
  | nil => rfl
  | cons _ _ induction =>
    rw [length_cons, replicate_succ, zipWith_cons_cons, induction, add_zero]

/-! ## Row-major strides -/

/-- Each axis steps over the whole of the axes after it. -/
def rowMajorStrides : List Nat → List Int
  | [] => []
  | _ :: shape => (shape.prod : Int) :: rowMajorStrides shape

theorem rowMajorStrides_nonneg (shape : List Nat) :
    ∀ stride ∈ rowMajorStrides shape, 0 ≤ stride := by
  induction shape with
  | nil => exact forall_mem_nil _
  | cons _ _ induction =>
    exact forall_mem_cons.mpr ⟨Int.natCast_nonneg _, induction⟩

theorem flatMap_range_block (count block : Nat) :
    (range count).flatMap (fun i => (range block).map (i * block + ·)) =
      range (count * block) := by
  induction count with
  | zero => simp
  | succ _ induction =>
    rw [range_succ, flatMap_append, induction, Nat.succ_mul, range_add]
    simp

/-- Row-major strides number the indices in row-major order. -/
theorem map_offset_all (shape : List Nat) :
    (all shape).map (offset · (rowMajorStrides shape)) =
      (range shape.prod).map Nat.cast := by
  induction shape with
  | nil => rfl
  | cons _ shape induction =>
    have block (i : Nat) : (all shape).map
        (fun index => (i : Int) * shape.prod + offset index (rowMajorStrides shape)) =
        ((range shape.prod).map (i * shape.prod + ·)).map Nat.cast := by
      rw [← Function.comp_def (fun rest : Int => (i : Int) * shape.prod + rest),
        ← map_map, induction, map_map, map_map]
      apply map_congr_left
      intro _ _
      simp
    rw [prod_cons, ← flatMap_range_block, all, rowMajorStrides, map_flatMap,
      map_flatMap]
    congr 1
    funext i
    rw [← block, map_map]
    rfl

/-! ## Distinct offsets -/

/-- Different indices of a shape have different offsets. -/
def Disjoint (shape : List Nat) (strides : List Int) : Prop :=
  ∀ first second, Within first shape → Within second shape →
    offset first strides = offset second strides → first = second

/-- An axis: its stride and its extent. -/
abbrev Axis := Int × Nat

/-- The stride of the wide axis covers the narrow one. -/
def Covers (narrow wide : Axis) : Prop := narrow.1 * narrow.2 ≤ wide.1

structure Pair where
  axis : Axis
  first : Nat
  second : Nat

namespace Pair

def Fits (pair : Pair) : Prop := pair.first < pair.axis.2 ∧ pair.second < pair.axis.2

def distance (pair : Pair) : Int := (pair.first - pair.second) * pair.axis.1

variable {pair : Pair}

theorem abs_distance_le (positive : 0 < pair.axis.1) (fits : pair.Fits) :
    |pair.distance| ≤ (pair.axis.2 - 1) * pair.axis.1 := by
  have apart : |(pair.first - pair.second : Int)| ≤ pair.axis.2 - 1 := by
    rw [abs_le]
    rcases fits with ⟨firstBelow, secondBelow⟩
    omega
  rw [distance, abs_mul, abs_of_pos positive]
  exact mul_le_mul_of_nonneg_right apart positive.le

theorem first_eq_second_of_abs_distance_lt (positive : 0 < pair.axis.1)
    (near : |pair.distance| < pair.axis.1) : pair.first = pair.second := by
  rw [distance, abs_mul, abs_of_pos positive] at near
  have lessThanOne : |(pair.first - pair.second : Int)| < 1 :=
    lt_of_mul_lt_mul_right (near.trans_eq (one_mul _).symm) positive.le
  have equal : (pair.first - pair.second : Int) = 0 := Int.abs_lt_one_iff.mp lessThanOne
  omega

end Pair

theorem sum_distance (pairs : List Pair) :
    (pairs.map Pair.distance).sum =
      offset (pairs.map Pair.first) (pairs.map (·.axis.1)) -
        offset (pairs.map Pair.second) (pairs.map (·.axis.1)) := by
  induction pairs with
  | nil => rfl
  | cons _ _ induction =>
    simp only [map_cons, sum_cons, induction, offset_cons, Pair.distance]
    ring

theorem exists_pairs {first second : List Nat} (sameRank : strides.length = shape.length)
    (isFirst : Within first shape) (isSecond : Within second shape) :
    ∃ pairs : List Pair, pairs.map Pair.axis = strides.zip shape ∧
      pairs.map Pair.first = first ∧ pairs.map Pair.second = second ∧
      ∀ pair ∈ pairs, pair.Fits := by
  induction isFirst generalizing second strides with
  | nil =>
    cases isSecond
    exact ⟨[], zip_nil_right.symm, rfl, rfl, nofun⟩
  | cons firstBelow _ induction =>
    cases isSecond with
    | cons secondBelow isSecond =>
      rcases exists_cons_of_length_eq_add_one sameRank with ⟨stride, _, rfl⟩
      rcases induction (Nat.succ.inj sameRank) isSecond
        with ⟨pairs, axes, firsts, seconds, fits⟩
      refine ⟨⟨(stride, _), _, _⟩ :: pairs, ?_, ?_, ?_,
        forall_mem_cons.mpr ⟨⟨firstBelow, secondBelow⟩, fits⟩⟩
      · rw [map_cons, axes, zip_cons_cons]
      · rw [map_cons, firsts]
      · rw [map_cons, seconds]

variable {pairs : List Pair} {axes : List Axis}

theorem exists_pairs_of_perm (perm : axes.Perm (pairs.map Pair.axis)) :
    ∃ reordered : List Pair, reordered.map Pair.axis = axes ∧ reordered.Perm pairs := by
  have related : Forall₂ (fun axis (pair : Pair) => axis = pair.axis)
      (pairs.map Pair.axis) pairs := by
    rw [forall₂_map_left_iff]
    exact forall₂_same.mpr fun _ _ => rfl
  rcases perm_comp_forall₂ perm related with ⟨reordered, isAxes, isPerm⟩
  rw [← forall₂_map_right_iff, forall₂_eq_eq_eq] at isAxes
  exact ⟨reordered, isAxes.symm, isPerm⟩

/-- Each axis steps over what the narrower ones reach, so that equal offsets have equal
indices on every axis. The widest axis comes first here. -/
theorem first_eq_second_of_covers
    (chain : (pairs.map Pair.axis).IsChain fun wide narrow => Covers narrow wide)
    (positive : ∀ pair ∈ pairs, 0 < pair.axis.1) (fits : ∀ pair ∈ pairs, pair.Fits) :
    (∀ pair ∈ pairs.head?, |(pairs.map Pair.distance).sum| < pair.axis.1 * pair.axis.2) ∧
      ((pairs.map Pair.distance).sum = 0 → ∀ pair ∈ pairs, pair.first = pair.second) := by
  induction pairs with
  | nil => simp
  | cons pair rest induction =>
    rcases forall_mem_cons.mp positive with ⟨here, positiveRest⟩
    rcases forall_mem_cons.mp fits with ⟨fitsHere, fitsRest⟩
    rcases induction chain.tail positiveRest fitsRest with ⟨reach, decided⟩
    -- the narrower axes together stay below one step of this one
    have small : |(rest.map Pair.distance).sum| < pair.axis.1 := by
      cases rest with
      | nil => simpa using here
      | cons next rest =>
        have covered : Covers next.axis pair.axis := (isChain_cons_cons.mp chain).1
        exact (reach next rfl).trans_le covered
    rw [map_cons, sum_cons]
    constructor
    · intro head isHead
      cases isHead
      have triangle := abs_add_le pair.distance (rest.map Pair.distance).sum
      have step := Pair.abs_distance_le here fitsHere
      linarith
    · intro isZero
      have opposite : pair.distance = -(rest.map Pair.distance).sum := by omega
      have same : pair.first = pair.second := by
        apply Pair.first_eq_second_of_abs_distance_lt here
        rwa [opposite, abs_neg]
      have restZero : (rest.map Pair.distance).sum = 0 := by
        rw [Pair.distance, same, sub_self, zero_mul] at opposite
        omega
      exact forall_mem_cons.mpr ⟨same, decided restZero⟩

/-- Axes that cover one another in some order have distinct offsets. -/
theorem disjoint_of_covers (sameRank : strides.length = shape.length)
    (perm : axes.Perm (strides.zip shape)) (positive : ∀ axis ∈ axes, 0 < axis.1)
    (chain : axes.IsChain Covers) : Disjoint shape strides := by
  intro first second isFirst isSecond sameOffset
  rcases exists_pairs sameRank isFirst isSecond with ⟨pairs, isAxes, rfl, rfl, fits⟩
  rw [← isAxes] at perm
  rcases exists_pairs_of_perm perm with ⟨reordered, rfl, isPerm⟩
  have isStrides : pairs.map (·.axis.1) = strides := by
    have projected := congrArg (map Prod.fst) isAxes
    rwa [map_map, map_fst_zip sameRank.le] at projected
  have isZero : (reordered.reverse.map Pair.distance).sum = 0 := by
    have samePerm := ((reordered.reverse_perm.trans isPerm).map Pair.distance).sum_eq
    rw [samePerm, sum_distance, isStrides, sameOffset, sub_self]
  have descending : (reordered.reverse.map Pair.axis).IsChain
      fun wide narrow => Covers narrow wide := by
    rw [map_reverse, isChain_reverse]
    exact chain
  have equal : ∀ pair ∈ reordered.reverse, pair.first = pair.second := by
    apply (first_eq_second_of_covers descending _ _).2 isZero
    · intro pair isMem
      exact positive _ (mem_map_of_mem (mem_reverse.mp isMem))
    · intro pair isMem
      exact fits pair (isPerm.subset (mem_reverse.mp isMem))
  apply map_congr_left
  intro pair isMem
  exact equal pair (mem_reverse.mpr (isPerm.symm.subset isMem))

def zeros (axes : List Axis) : List Pair := axes.map fun axis => ⟨axis, 0, 0⟩

@[simp] theorem map_axis_zeros (axes : List Axis) : (zeros axes).map Pair.axis = axes := by
  rw [zeros, map_map]
  exact map_id axes

@[simp] theorem sum_distance_zeros (axes : List Axis) :
    ((zeros axes).map Pair.distance).sum = 0 := by
  induction axes with
  | nil => rfl
  | cons axis _ induction =>
    have here : Pair.distance ⟨axis, 0, 0⟩ = 0 := by simp [Pair.distance]
    rw [zeros, map_cons, map_cons, sum_cons, here, zero_add]
    exact induction

theorem fits_zeros (inhabited : ∀ axis ∈ axes, 0 < axis.2) : ∀ pair ∈ zeros axes, pair.Fits := by
  intro _ isMem
  rcases mem_map.mp isMem with ⟨axis, isAxis, rfl⟩
  exact ⟨inhabited axis isAxis, inhabited axis isAxis⟩

/-- Indices that meet in some order of the axes meet in the array's own order. -/
theorem not_disjoint_of_pairs (sameRank : strides.length = shape.length)
    (perm : (pairs.map Pair.axis).Perm (strides.zip shape)) (fits : ∀ pair ∈ pairs, pair.Fits)
    (meet : (pairs.map Pair.distance).sum = 0) (differ : ∃ pair ∈ pairs, pair.first ≠ pair.second) :
    ¬Disjoint shape strides := by
  rcases exists_pairs_of_perm perm.symm with ⟨reordered, isAxes, isPerm⟩
  have isStrides : reordered.map (·.axis.1) = strides := by
    have projected := congrArg (map Prod.fst) isAxes
    rwa [map_map, map_fst_zip sameRank.le] at projected
  have isShape : reordered.map (·.axis.2) = shape := by
    have projected := congrArg (map Prod.snd) isAxes
    rwa [map_map, map_snd_zip sameRank.ge] at projected
  have sameOffset : offset (reordered.map Pair.first) strides =
      offset (reordered.map Pair.second) strides := by
    have isZero := (isPerm.map Pair.distance).sum_eq
    rw [meet, sum_distance, isStrides] at isZero
    omega
  have within (part : Pair → Nat) (below : ∀ pair ∈ pairs, part pair < pair.axis.2) :
      Within (reordered.map part) shape := by
    rw [← isShape, Within, forall₂_map_left_iff, forall₂_map_right_iff,
      forall₂_same]
    intro pair isMem
    exact below pair (isPerm.subset isMem)
  intro disjoint
  have equal := disjoint _ _ (within Pair.first fun pair isMem => (fits pair isMem).1)
    (within Pair.second fun pair isMem => (fits pair isMem).2) sameOffset
  rcases differ with ⟨pair, isMem, different⟩
  exact different (map_inj_left.mp equal pair (isPerm.symm.subset isMem))

/-- A wide axis whose stride is a multiple of a narrow one's steps onto its elements,
unless it covers it. -/
theorem covers_of_dvd {before after : List Axis} {narrow wide : Axis}
    (sameRank : strides.length = shape.length)
    (perm : (before ++ narrow :: wide :: after).Perm (strides.zip shape))
    (inhabited : ∀ axis ∈ before ++ narrow :: wide :: after, 0 < axis.2) (several : 2 ≤ wide.2)
    (narrowPositive : 0 < narrow.1) (widePositive : 0 < wide.1) (multiple : narrow.1 ∣ wide.1)
    (disjoint : Disjoint shape strides) : Covers narrow wide := by
  by_contra uncovered
  rcases multiple with ⟨steps, isMultiple⟩
  have stepsPositive : 0 < steps := by
    rw [isMultiple] at widePositive
    exact pos_of_mul_pos_right widePositive narrowPositive.le
  have inNarrow : steps < narrow.2 := by
    rw [Covers, isMultiple, not_le] at uncovered
    exact lt_of_mul_lt_mul_left uncovered narrowPositive.le
  let pairs : List Pair :=
    zeros before ++ ⟨narrow, steps.toNat, 0⟩ :: ⟨wide, 0, 1⟩ :: zeros after
  have isAxes : pairs.map Pair.axis = before ++ narrow :: wide :: after := by simp [pairs]
  have meet : (pairs.map Pair.distance).sum = 0 := by
    simp [pairs, Pair.distance, isMultiple, Int.toNat_of_nonneg stepsPositive.le]
    ring
  apply not_disjoint_of_pairs sameRank (isAxes ▸ perm) _ meet _ disjoint
  · have beforeFits : ∀ pair ∈ zeros before, pair.Fits :=
      fits_zeros fun axis isMem => inhabited axis (by simp [isMem])
    have afterFits : ∀ pair ∈ zeros after, pair.Fits :=
      fits_zeros fun axis isMem => inhabited axis (by simp [isMem])
    have narrowFits : Pair.Fits ⟨narrow, steps.toNat, 0⟩ := by
      constructor
      · change steps.toNat < narrow.2
        omega
      · exact inhabited narrow (by simp)
    have wideFits : Pair.Fits ⟨wide, 0, 1⟩ := ⟨inhabited wide (by simp), several⟩
    exact forall_mem_append.mpr ⟨beforeFits, forall_mem_cons.mpr ⟨narrowFits,
      forall_mem_cons.mpr ⟨wideFits, afterFits⟩⟩⟩
  · exact ⟨⟨wide, 0, 1⟩, by simp [pairs], Nat.zero_ne_one⟩

end CuTile.MultiIndex
