import CuTile.Compiler.MutatedVariables
import Mathlib.Data.Finset.Union

/-! # Values carried out of a region

The compiler's context is a flat map from names to values, cloned for every region; at the
end of a region the carried names are unpacked from the clone and repacked outside. Next
to it the lowering keeps, as a ghost, the bindings a reader with lexical scoping sees: for
each name the values of its declarations in scope, innermost first.
-/

namespace CuTile.Source

open Fallible List

/-- The value a name has before the lowering starts, or one made for it at a point of the
lowering (an initialiser or right-hand side, a block argument, a result). -/
inductive IrValue where
  | initial (name : String)
  | made (time : Nat) (name : String)
deriving DecidableEq, Repr

/-- The end of a region: the names carried out of it, the value unpacked for each name,
and the value of the binding declared outside the region. -/
structure RegionEnd where
  carried : Finset String
  unpacked : String → IrValue
  outer : String → Option IrValue

/-- Every carried value is the value of the outer variable. -/
def RegionEnd.Faithful (regionEnd : RegionEnd) : Prop :=
  ∀ name ∈ regionEnd.carried, regionEnd.outer name = some (regionEnd.unpacked name)

structure Lowering where
  vars : String → IrValue
  /-- The bindings in scope, innermost first. -/
  bindings : String → List IrValue
  clock : Nat
  ends : List RegionEnd

namespace Lowering

def start : Lowering where
  vars := .initial
  bindings name := [.initial name]
  clock := 0
  ends := []

/-- `bind_pattern_value`: declares the names. -/
def bind (state : Lowering) (names : List String) : Lowering where
  vars name := if name ∈ names then .made state.clock name else state.vars name
  bindings name :=
    if name ∈ names then .made state.clock name :: state.bindings name else state.bindings name
  clock := state.clock + 1
  ends := state.ends

def assign (state : Lowering) (assigned : String) : Lowering where
  vars name := if name = assigned then .made state.clock name else state.vars name
  bindings name :=
    if name = assigned then .made state.clock name :: (state.bindings name).tail
    else state.bindings name
  clock := state.clock + 1
  ends := state.ends

/-- `repack_some_vars` with block arguments or results: a carried name that the region
updates has a new value, and one that it leaves alone passes through. Lexically every
updated variable has a new value, carried or not. -/
def repack (state : Lowering) (carried updates : Finset String) : Lowering where
  vars name := if name ∈ carried ∩ updates then .made state.clock name else state.vars name
  bindings name :=
    if name ∈ updates then .made state.clock name :: (state.bindings name).tail
    else state.bindings name
  clock := state.clock + 1
  ends := state.ends

/-- The bindings of `inside` that were declared outside the region. -/
def outerBindings (state inside : Lowering) (name : String) : List IrValue :=
  (inside.bindings name).drop
    ((inside.bindings name).length - (state.bindings name).length)

def regionEnd (state inside : Lowering) (carried : Finset String) : RegionEnd where
  carried := carried
  unpacked := inside.vars
  outer name := (state.outerBindings inside name).head?

/-- The region's operation is built: outside it, the context is what it was. -/
def close (state inside : Lowering) (carried : Finset String) : Lowering :=
  { state with
    clock := inside.clock
    ends := inside.ends ++ [state.regionEnd inside carried] }

/-- A region lowered in place, whose carried values are published to the outer context. -/
def republish (state inside : Lowering) (carried : Finset String) : Lowering where
  vars name := if name ∈ carried then inside.vars name else state.vars name
  bindings := state.outerBindings inside
  clock := inside.clock
  ends := inside.ends ++ [state.regionEnd inside carried]

/-- The values unpacked for the `break` of a `while`. -/
def exit (state inside : Lowering) (carried : Finset String) : Lowering :=
  { inside with ends := inside.ends ++ [state.regionEnd inside carried] }

end Lowering

/-- The branch of an `if` that is known not to be taken is not lowered. -/
def ifUpdates (known : Option Bool) (thenUpdates elseUpdates : Finset String) : Finset String :=
  match known with
  | some true => thenUpdates
  | some false => elseUpdates
  | none => thenUpdates ∪ elseUpdates

mutual

/-- The outer variables that the lowered code assigns. -/
def Expr.updates : Expr → Finset String
  | .path _ => ∅
  | .operation operands => operands.updates
  | .assign (.path name) value => insert name value.updates
  | .assign _ value => value.updates
  | .block body | .unsafeBlock body | .loop body => body.updates
  | .ifElse known condition body otherwise =>
    condition.updates ∪ ifUpdates known body.updates otherwise.updates
  | .forLoop pat iterator body => iterator.updates ∪ body.updates \ pat.names.toFinset
  | .whileLoop condition body => condition.updates ∪ body.updates

def Exprs.updates : Exprs → Finset String
  | .nil => ∅
  | .cons head tail => head.updates ∪ tail.updates

def Else.updates : Else → Finset String
  | .none => ∅
  | .block body => body.updates
  | .elseIf known condition body otherwise =>
    condition.updates ∪ ifUpdates known body.updates otherwise.updates

def Stmts.updates : Stmts → Finset String
  | .nil => ∅
  | .cons (.letBind pat init) tail => init.updates ∪ tail.updates \ pat.names.toFinset
  | .cons (.expr expr) tail => expr.updates ∪ tail.updates

end

inductive LowerError where
  | collect (error : CollectError)
  /-- "this expression form is not supported" -/
  | expression

abbrev LowerM := Except LowerError

def collected (names : Except CollectError α) : LowerM α :=
  names.mapError .collect

/-- A branch of an `if`, as `lowerIf` needs it. -/
structure Branch where
  collectMutated : Except CollectError (Finset String)
  updates : Finset String
  lower : Finset String → Lowering → LowerM Lowering

/-- The part of the `if` lowering that follows the condition. -/
def lowerIf (known : Option Bool) (carry : Finset String) (thenBranch elseBranch : Branch)
    (state : Lowering) : LowerM Lowering :=
  match known with
  | some taken => do
    -- the known branch is lowered in place, and the other one not at all
    let branch := if taken then thenBranch else elseBranch
    let inside ← branch.lower carry state
    let carried ← collected branch.collectMutated
    return state.republish inside carried
  | none => do
    let thenNames ← collected thenBranch.collectMutated
    let elseNames ← collected elseBranch.collectMutated
    let carried := carry ∪ thenNames ∪ elseNames
    let inside ← thenBranch.lower carried state
    let state := state.close inside carried
    let inside ← elseBranch.lower carried state
    return (state.close inside carried).repack carried (thenBranch.updates ∪ elseBranch.updates)

mutual

/-- `carry` is `ctx.carry_vars`. -/
def Expr.lower (carry : Finset String) (place : Place) : Expr → Lowering → LowerM Lowering
  | .path _, state => .ok state
  | .operation operands, state => operands.lower carry state
  | .assign target value, state =>
    match place with
    | .operand => .error .expression
    | .statement _ => do
      let name ← collected target.assignedName
      let state ← value.lower carry .operand state
      return state.assign name
  | .block body, state | .unsafeBlock body, state => do
    let carried ← collected (body.collectMutated ∅)
    let inside ← body.lower carry state
    return state.republish inside carried
  | .ifElse known condition body otherwise, state => do
    let state ← condition.lower carry .operand state
    lowerIf known carry ⟨body.collectMutated ∅, body.updates, fun carry => body.lower carry⟩
      ⟨otherwise.collectMutated, otherwise.updates, fun carry => otherwise.lower carry⟩ state
  | .forLoop pat iterator body, state => do
    let state ← iterator.lower carry .operand state
    let names ← collected (body.collectMutated ∅)
    let loopVars ← collected pat.collectBindings
    let carried := names \ loopVars.toFinset
    let updates := body.updates \ loopVars.toFinset
    let inside ← body.lower carried ((state.repack carried updates).bind loopVars)
    return (state.close inside carried).repack carried updates
  | .whileLoop condition body, state => do
    let carried ← collected (body.collectMutated ∅)
    let updates := condition.updates ∪ body.updates
    let inside ← condition.lower carried .operand (state.repack carried updates)
    let inside ← body.lower carried (state.exit inside carried)
    return (state.close inside carried).repack carried updates
  | .loop body, state => do
    let carried ← collected (body.collectMutated ∅)
    let inside ← body.lower carried (state.repack carried body.updates)
    return (state.close inside carried).repack carried body.updates

def Exprs.lower (carry : Finset String) : Exprs → Lowering → LowerM Lowering
  | .nil, state => .ok state
  | .cons head tail, state => do
    let state ← head.lower carry .operand state
    tail.lower carry state

/-- `compile_else_branch`; a missing branch yields the names as they are. -/
def Else.lower (carry : Finset String) : Else → Lowering → LowerM Lowering
  | .none, state => .ok state
  | .block body, state => body.lower carry state
  | .elseIf known condition body otherwise, state => do
    let state ← condition.lower carry .operand state
    lowerIf known carry ⟨body.collectMutated ∅, body.updates, fun carry => body.lower carry⟩
      ⟨otherwise.collectMutated, otherwise.updates, fun carry => otherwise.lower carry⟩ state

/-- `compile_block`. -/
def Stmts.lower (carry : Finset String) : Stmts → Lowering → LowerM Lowering
  | .nil, state => .ok state
  | .cons (.letBind pat init) tail, state => do
    let names ← collected pat.collectBindings
    let state ← init.lower carry .operand state
    tail.lower carry (state.bind names)
  | .cons (.expr expr) tail, state => do
    let state ← expr.lower carry (.statement false) state
    tail.lower carry state

end

@[simp] theorem collected_eq_ok {names : Except CollectError α} {value : α} :
    collected names = .ok value ↔ names = .ok value := by
  cases names <;> simp [collected, Except.mapError]

/-! ## What lowering leaves alone -/

def IrValue.MadeFrom (time : Nat) : IrValue → Prop
  | .initial _ => False
  | .made own _ => time ≤ own

def IrValue.MadeBefore (time : Nat) : IrValue → Prop
  | .initial _ => True
  | .made own _ => own < time

theorem IrValue.MadeFrom.ne {time : Nat} {value older : IrValue} (isNew : value.MadeFrom time)
    (isOld : older.MadeBefore time) : older ≠ value := by
  rintro rfl
  cases older with
  | initial => exact isNew
  | made => exact absurd isNew (not_le.mpr isOld)

theorem IrValue.MadeFrom.mono {time earlier : Nat} {value : IrValue} (isNew : value.MadeFrom time)
    (order : earlier ≤ time) : value.MadeFrom earlier := by
  cases value with
  | initial => exact isNew
  | made => exact order.trans isNew

theorem IrValue.MadeBefore.mono {time later : Nat} {value : IrValue} (isOld : value.MadeBefore time)
    (order : time ≤ later) : value.MadeBefore later := by
  cases value with
  | initial => trivial
  | made => exact lt_of_lt_of_le isOld order

namespace Lowering

/-- Every name has a binding, and no value is from the future. -/
structure WellFormed (state : Lowering) : Prop where
  inScope : ∀ name, state.bindings name ≠ []
  bindings : ∀ name, ∀ value ∈ state.bindings name, value.MadeBefore state.clock
  vars : ∀ name, (state.vars name).MadeBefore state.clock

theorem wellFormed_start : start.WellFormed where
  inScope name := by simp [start]
  bindings name value member := by
    simp only [start, mem_singleton] at member
    subst member
    trivial
  vars _ := trivial

/-- What became of a name between `state` and `after`: its innermost binding has `value`
now, and the bindings in `front` shadow it. -/
structure Survives (lets : List String) (updates : Finset String) (state after : Lowering)
    (name : String) (front : List IrValue) (value : IrValue) : Prop where
  bindings : after.bindings name = front ++ value :: (state.bindings name).tail
  declared : front = [] ↔ name ∉ lets
  updated : name ∈ updates → value.MadeFrom state.clock
  kept : name ∉ updates → (state.bindings name).head? = some value
  /-- The binding could not change any more once a declaration shadowed it. -/
  shadowed : name ∈ lets → ∃ time ≤ after.clock,
    value.MadeBefore time ∧ (after.vars name).MadeFrom time

/-- Lowering code that declares `lets` and updates `updates`. -/
structure Grows (lets : List String) (updates : Finset String) (state after : Lowering) :
    Prop where
  clock : state.clock ≤ after.clock
  ends : state.ends ⊆ after.ends
  wellFormed : after.WellFormed
  young : ∀ name time, time ≤ state.clock → (state.vars name).MadeFrom time →
    (after.vars name).MadeFrom time
  survives : ∀ name, ∃ front value, Survives lets updates state after name front value

variable {state middle inside after : Lowering} {lets others : List String}
  {carried updates later : Finset String} {name : String} {value : IrValue}

theorem WellFormed.survives (wellFormed : state.WellFormed)
    (same : after.bindings name = state.bindings name) (untouched : name ∉ updates) :
    ∃ front value, Survives [] updates state after name front value := by
  refine ⟨[], (state.bindings name).head (wellFormed.inScope name), ?_, by simp,
    fun updated => absurd updated untouched, fun _ => head?_eq_some_head _,
    nofun⟩
  simp [same]

theorem Grows.refl (wellFormed : state.WellFormed) : Grows [] ∅ state state where
  clock := le_rfl
  ends := Subset.refl _
  wellFormed := wellFormed
  young _ _ _ isNew := isNew
  survives _ := wellFormed.survives rfl (Finset.notMem_empty _)

theorem Survives.trans {front newer : List IrValue} {value latest : IrValue}
    (first : Survives lets updates state middle name front value)
    (second : Survives others later middle after name newer latest)
    (grows : Grows others later middle after) (clock : state.clock ≤ middle.clock) :
    ∃ front value, Survives (lets ++ others) (updates ∪ later \ lets.toFinset) state after name
      front value := by
  by_cases declared : name ∈ lets
  · -- the second part sees the declaration of the first, and leaves the outer binding alone
    have nonempty : front ≠ [] := fun empty => first.declared.mp empty declared
    refine ⟨newer ++ latest :: front.tail, value, ?_, by simp [declared], ?_, ?_, ?_⟩
    · rw [second.bindings, first.bindings, tail_append_of_ne_nil nonempty]
      simp
    · intro updated
      apply first.updated
      simpa [declared] using updated
    · intro untouched
      apply first.kept
      simpa [declared] using untouched
    · intro _
      rcases first.shadowed declared with ⟨time, early, isOld, isNew⟩
      exact ⟨time, early.trans grows.clock, isOld, grows.young name time early isNew⟩
  · have empty : front = [] := first.declared.mpr declared
    have middleBindings : middle.bindings name = value :: (state.bindings name).tail := by
      rw [first.bindings, empty, nil_append]
    refine ⟨newer, latest, ?_, by simp [declared, second.declared], ?_, ?_, ?_⟩
    · rw [second.bindings, middleBindings, tail_cons]
    · intro updated
      by_cases again : name ∈ later
      · exact (second.updated again).mono clock
      · have same := second.kept again
        rw [middleBindings, head?_cons, Option.some_inj] at same
        rw [← same]
        apply first.updated
        simpa [again] using updated
    · intro untouched
      simp only [Finset.mem_union, Finset.mem_sdiff, mem_toFinset, declared,
        not_false_eq_true, and_true, not_or] at untouched
      have same := second.kept untouched.2
      rw [middleBindings, head?_cons] at same
      rw [first.kept untouched.1, same]
    · intro isDeclared
      apply second.shadowed
      simpa [declared] using isDeclared

theorem Grows.trans (first : Grows lets updates state middle)
    (second : Grows others later middle after) :
    Grows (lets ++ others) (updates ∪ later \ lets.toFinset) state after where
  clock := first.clock.trans second.clock
  ends := Subset.trans first.ends second.ends
  wellFormed := second.wellFormed
  young name time early isNew :=
    second.young name time (early.trans first.clock) (first.young name time early isNew)
  survives name := by
    rcases first.survives name with ⟨_, _, isFirst⟩
    rcases second.survives name with ⟨_, _, isSecond⟩
    exact isFirst.trans isSecond second first.clock

theorem Grows.andThen (first : Grows [] updates state middle)
    (second : Grows others later middle after) :
    Grows others (updates ∪ later) state after := by
  simpa using first.trans second

section

variable (wellFormed : state.WellFormed)

include wellFormed

theorem Grows.bind (names : List String) :
    Grows names ∅ state (state.bind names) where
  clock := Nat.le_succ _
  ends := Subset.refl _
  wellFormed := by
    constructor
    · intro name
      simp only [Lowering.bind]
      split_ifs
      · simp
      · exact wellFormed.inScope name
    · intro name value member
      simp only [Lowering.bind] at member ⊢
      split_ifs at member
      · rcases mem_cons.mp member with rfl | older
        · exact Nat.lt_succ_self _
        · exact (wellFormed.bindings name value older).mono (Nat.le_succ _)
      · exact (wellFormed.bindings name value member).mono (Nat.le_succ _)
    · intro name
      simp only [Lowering.bind]
      split_ifs
      · exact Nat.lt_succ_self _
      · exact (wellFormed.vars name).mono (Nat.le_succ _)
  young name time early isNew := by
    simp only [Lowering.bind]
    split_ifs
    · exact early
    · exact isNew
  survives name := by
    have inScope := wellFormed.inScope name
    by_cases declared : name ∈ names
    · refine ⟨[.made state.clock name], (state.bindings name).head inScope, ?_,
        by simp [declared], fun updated => by simp at updated, fun _ => head?_eq_some_head _,
        fun _ => ?_⟩
      · simp [Lowering.bind, declared]
      · refine ⟨state.clock, Nat.le_succ _, wellFormed.bindings name _ (head_mem inScope), ?_⟩
        simp [Lowering.bind, declared, IrValue.MadeFrom]
    · refine ⟨[], (state.bindings name).head inScope, ?_, by simp [declared],
        fun updated => by simp at updated, fun _ => head?_eq_some_head _,
        fun isDeclared => absurd isDeclared declared⟩
      simp [Lowering.bind, declared]

/-- Replacing the innermost binding of the updated names by a new value. -/
theorem Grows.replace (updates : Finset String)
    (vars : ∀ name, after.vars name = state.vars name ∨
      after.vars name = .made state.clock name)
    (bindings : ∀ name, after.bindings name =
      if name ∈ updates then .made state.clock name :: (state.bindings name).tail
      else state.bindings name) (clock : after.clock = state.clock + 1)
    (ends : after.ends = state.ends) :
    Grows [] updates state after where
  clock := by omega
  ends := by
    rw [ends]
    exact Subset.refl _
  wellFormed := by
    constructor
    · intro name
      rw [bindings]
      split_ifs
      · simp
      · exact wellFormed.inScope name
    · intro name value member
      rw [bindings] at member
      rw [clock]
      split_ifs at member
      · rcases mem_cons.mp member with rfl | older
        · exact Nat.lt_succ_self _
        · exact (wellFormed.bindings name value (mem_of_mem_tail older)).mono (Nat.le_succ _)
      · exact (wellFormed.bindings name value member).mono (Nat.le_succ _)
    · intro name
      rw [clock]
      rcases vars name with same | isMade
      · rw [same]
        exact (wellFormed.vars name).mono (Nat.le_succ _)
      · rw [isMade]
        exact Nat.lt_succ_self _
  young name time early isNew := by
    rcases vars name with same | isMade
    · rwa [same]
    · rw [isMade]
      exact early
  survives name := by
    by_cases updated : name ∈ updates
    · refine ⟨[], .made state.clock name, ?_, by simp, fun _ => le_refl state.clock,
        fun untouched => absurd updated untouched, nofun⟩
      rw [bindings, if_pos updated, nil_append]
    · apply wellFormed.survives _ updated
      rw [bindings, if_neg updated]

theorem Grows.assign (assigned : String) : Grows [] {assigned} state (state.assign assigned) := by
  refine Grows.replace wellFormed {assigned} (fun name => ?_) (fun name => ?_) rfl rfl
  · simp only [Lowering.assign]
    split_ifs <;> simp
  · simp [Lowering.assign]

theorem Grows.repack (carried updates : Finset String) :
    Grows [] updates state (state.repack carried updates) := by
  refine Grows.replace wellFormed updates (fun name => ?_) (fun _ => rfl) rfl rfl
  simp only [Lowering.repack]
  split_ifs <;> simp

theorem Grows.close (grows : Grows lets updates state inside) (carried : Finset String) :
    Grows [] ∅ state (state.close inside carried) where
  clock := grows.clock
  ends := subset_append_of_subset_left _ grows.ends
  wellFormed := by
    constructor
    · exact wellFormed.inScope
    · exact fun name value member => (wellFormed.bindings name value member).mono grows.clock
    · exact fun name => (wellFormed.vars name).mono grows.clock
  young _ _ _ isNew := isNew
  survives _ := wellFormed.survives rfl (Finset.notMem_empty _)

end

theorem Grows.exit (grows : Grows lets updates state inside) (carried : Finset String) :
    Grows lets updates state (state.exit inside carried) where
  clock := grows.clock
  ends := subset_append_of_subset_left _ grows.ends
  wellFormed := { grows.wellFormed with }
  young := grows.young
  survives name := by
    rcases grows.survives name with ⟨front, value, survives⟩
    exact ⟨front, value, survives.bindings, survives.declared, survives.updated, survives.kept,
      survives.shadowed⟩

/-- Leaving the region uncovers the bindings declared outside. -/
theorem Survives.outerBindings {front : List IrValue}
    (survives : Survives lets updates state inside name front value)
    (wellFormed : state.WellFormed) :
    state.outerBindings inside name = value :: (state.bindings name).tail := by
  have length := length_pos_of_ne_nil (wellFormed.inScope name)
  unfold Lowering.outerBindings
  rw [survives.bindings]
  apply drop_left'
  simp
  omega

theorem Grows.republish (wellFormed : state.WellFormed) (grows : Grows lets updates state inside)
    (carried : Finset String) : Grows [] updates state (state.republish inside carried) where
  clock := grows.clock
  ends := subset_append_of_subset_left _ grows.ends
  wellFormed := by
    constructor
    · intro name
      rcases grows.survives name with ⟨front, value, survives⟩
      simp [Lowering.republish, survives.outerBindings wellFormed]
    · exact fun name value member =>
        grows.wellFormed.bindings name value (mem_of_mem_drop member)
    · intro name
      simp only [Lowering.republish]
      split_ifs
      · exact grows.wellFormed.vars name
      · exact (wellFormed.vars name).mono grows.clock
  young name time early isNew := by
    simp only [Lowering.republish]
    split_ifs
    · exact grows.young name time early isNew
    · exact isNew
  survives name := by
    rcases grows.survives name with ⟨front, value, survives⟩
    exact ⟨[], value, survives.outerBindings wellFormed, by simp, survives.updated, survives.kept,
      nofun⟩

end Lowering

def Stmts.lets : Stmts → List String
  | .nil => []
  | .cons (.letBind pat _) tail => pat.names ++ tail.lets
  | .cons (.expr _) tail => tail.lets

def Else.lets : Else → List String
  | .block body => body.lets
  | .none | .elseIf _ _ _ _ => []

end CuTile.Source
