import CuTile.Compiler.RegionCarry

/-! # Carried values belong to the outer variable

A pass over the source that follows the names whose context value is not the value of
their binding. It accepts exactly the code in which no region carries such a name, or a
name that the region declares itself.
-/

namespace CuTile.Source

open Lowering Fallible List

/-! ## The check -/

/-- The end of a region that leaves the stale names `inside`. -/
def leave (carried : Finset String) (lets : List String) (inside after : Finset String) :
    Option (Finset String) :=
  if Disjoint carried (inside ∪ lets.toFinset) then some after else none

/-- The stale names once the carried ones are repacked: an updated name is stale unless it
is carried. -/
def renew (carried updates stale : Finset String) : Finset String :=
  stale \ updates ∪ updates \ carried

structure CheckedBranch where
  collectMutated : Except CollectError (Finset String)
  lets : List String
  updates : Finset String
  check : Finset String → Finset String → Option (Finset String)

def checkIf (known : Option Bool) (carry : Finset String) (thenBranch elseBranch : CheckedBranch)
    (stale : Finset String) : Option (Finset String) :=
  match known with
  | some taken => do
    let branch := if taken then thenBranch else elseBranch
    let inside ← branch.check carry stale
    let carried ← branch.collectMutated.toOption
    leave carried branch.lets inside ((stale ∪ branch.updates) \ carried)
  | none => do
    let thenNames ← thenBranch.collectMutated.toOption
    let elseNames ← elseBranch.collectMutated.toOption
    let carried := carry ∪ thenNames ∪ elseNames
    let inside ← thenBranch.check carried stale
    let stale ← leave carried thenBranch.lets inside stale
    let inside ← elseBranch.check carried stale
    leave carried elseBranch.lets inside
      (renew carried (thenBranch.updates ∪ elseBranch.updates) stale)

mutual

/-- The stale names after an expression, given those before it. -/
def Expr.check (carry : Finset String) : Expr → Finset String → Option (Finset String)
  | .path _, stale => some stale
  | .operation operands, stale => operands.check carry stale
  | .assign target value, stale => do
    let name ← target.assignedName.toOption
    let stale ← value.check carry stale
    return stale.erase name
  | .block body, stale | .unsafeBlock body, stale => do
    let carried ← (body.collectMutated ∅).toOption
    let inside ← body.check carry stale
    leave carried body.lets inside ((stale ∪ body.updates) \ carried)
  | .ifElse known condition body otherwise, stale => do
    let stale ← condition.check carry stale
    checkIf known carry
      ⟨body.collectMutated ∅, body.lets, body.updates, fun carry => body.check carry⟩
      ⟨otherwise.collectMutated, otherwise.lets, otherwise.updates,
        fun carry => otherwise.check carry⟩ stale
  | .forLoop pat iterator body, stale => do
    let stale ← iterator.check carry stale
    let names ← (body.collectMutated ∅).toOption
    let carried := names \ pat.names.toFinset
    let renewed := renew carried (body.updates \ pat.names.toFinset) stale
    let inside ← body.check carried (renewed \ pat.names.toFinset)
    leave carried (pat.names ++ body.lets) inside renewed
  | .whileLoop condition body, stale => do
    let carried ← (body.collectMutated ∅).toOption
    let renewed := renew carried (condition.updates ∪ body.updates) stale
    let inside ← condition.check carried renewed
    let inside ← leave carried [] inside inside
    let inside ← body.check carried inside
    leave carried body.lets inside renewed
  | .loop body, stale => do
    let carried ← (body.collectMutated ∅).toOption
    let renewed := renew carried body.updates stale
    let inside ← body.check carried renewed
    leave carried body.lets inside renewed

def Exprs.check (carry : Finset String) : Exprs → Finset String → Option (Finset String)
  | .nil, stale => some stale
  | .cons head tail, stale => do
    let stale ← head.check carry stale
    tail.check carry stale

def Else.check (carry : Finset String) : Else → Finset String → Option (Finset String)
  | .none, stale => some stale
  | .block body, stale => body.check carry stale
  | .elseIf known condition body otherwise, stale => do
    let stale ← condition.check carry stale
    checkIf known carry
      ⟨body.collectMutated ∅, body.lets, body.updates, fun carry => body.check carry⟩
      ⟨otherwise.collectMutated, otherwise.lets, otherwise.updates,
        fun carry => otherwise.check carry⟩ stale

def Stmts.check (carry : Finset String) : Stmts → Finset String → Option (Finset String)
  | .nil, stale => some stale
  | .cons (.letBind pat init) tail, stale => do
    let stale ← init.check carry stale
    tail.check carry (stale \ pat.names.toFinset)
  | .cons (.expr expr) tail, stale => do
    let stale ← expr.check carry stale
    tail.check carry stale

end

/-! ## The check follows the lowering -/

namespace Lowering

def AllFaithful (state : Lowering) : Prop :=
  ∀ regionEnd ∈ state.ends, regionEnd.Faithful

def Fresh (state : Lowering) (name : String) : Prop :=
  (state.bindings name).head? = some (state.vars name)

structure Agrees (stale : Finset String) (state : Lowering) : Prop where
  wellFormed : state.WellFormed
  faithful : state.AllFaithful
  fresh : ∀ name, state.Fresh name ↔ name ∉ stale

def Checks (after : Lowering) : Option (Finset String) → Prop
  | some stale => Agrees stale after
  | none => ¬ after.AllFaithful

variable {state middle inside after : Lowering} {lets : List String}
  {carried updates stale insideStale : Finset String} {name : String}

theorem Checks.bind {checked : Option (Finset String)}
    {next : Finset String → Option (Finset String)} (first : middle.Checks checked)
    (ends : middle.ends ⊆ after.ends) (second : ∀ {stale}, Agrees stale middle →
      after.Checks (next stale)) : after.Checks (checked >>= next) := by
  cases checked with
  | none => exact fun faithful => first fun regionEnd member => faithful regionEnd (ends member)
  | some => exact second first

theorem agrees_start : Agrees ∅ start where
  wellFormed := wellFormed_start
  faithful _ member := by cases member
  fresh name := by simp [Fresh, start]

theorem Agrees.bind (agrees : Agrees stale state) (names : List String) :
    Agrees (stale \ names.toFinset) (state.bind names) where
  wellFormed := (Grows.bind agrees.wellFormed names).wellFormed
  faithful := agrees.faithful
  fresh name := by
    by_cases declared : name ∈ names
    · simp [Fresh, Lowering.bind, declared]
    · simpa [Fresh, Lowering.bind, declared] using agrees.fresh name

theorem Agrees.assign (agrees : Agrees stale state) (assigned : String) :
    Agrees (stale.erase assigned) (state.assign assigned) where
  wellFormed := (Grows.assign agrees.wellFormed assigned).wellFormed
  faithful := agrees.faithful
  fresh name := by
    by_cases isAssigned : name = assigned
    · simp [Fresh, Lowering.assign, isAssigned]
    · simpa [Fresh, Lowering.assign, isAssigned] using agrees.fresh name

theorem Agrees.repack (agrees : Agrees stale state) (carried updates : Finset String) :
    Agrees (renew carried updates stale) (state.repack carried updates) where
  wellFormed := (Grows.repack agrees.wellFormed carried updates).wellFormed
  faithful := agrees.faithful
  fresh name := by
    have isOld := agrees.wellFormed.vars name
    by_cases updated : name ∈ updates
    · by_cases isCarried : name ∈ carried
      · simp [Fresh, Lowering.repack, renew, updated, isCarried]
      · have isNew : (IrValue.made state.clock name).MadeFrom state.clock := le_refl state.clock
        have differs := (isNew.ne isOld).symm
        simp [Fresh, Lowering.repack, renew, updated, isCarried, differs]
    · simpa [Fresh, Lowering.repack, renew, updated] using agrees.fresh name

section

variable (wellFormed : state.WellFormed)
  (grows : Grows lets updates state inside)
  (agrees : Agrees insideStale inside)

include wellFormed grows agrees

/-- At the end of a region the value unpacked for a name is that of the outer variable
when the name is not stale and not declared in the region. -/
theorem Grows.outer_iff (name : String) :
    (state.outerBindings inside name).head? = some (inside.vars name) ↔
      name ∉ insideStale ∪ lets.toFinset := by
  rcases grows.survives name with ⟨_, value, survives⟩
  have isFresh := agrees.fresh name
  rw [survives.outerBindings wellFormed, head?_cons, Option.some_inj, Finset.notMem_union,
    mem_toFinset, ← isFresh]
  by_cases declared : name ∈ lets
  · rcases survives.shadowed declared with ⟨_, _, isOld, isNew⟩
    simp [declared, isNew.ne isOld]
  · have empty := survives.declared.mpr declared
    simp [Fresh, survives.bindings, empty, declared]

theorem Grows.faithful_iff (carried : Finset String) :
    (state.regionEnd inside carried).Faithful ↔ Disjoint carried (insideStale ∪ lets.toFinset) := by
  rw [Finset.disjoint_left]
  exact forall₂_congr fun name _ => grows.outer_iff wellFormed agrees name

/-- `after` is the state in which the end of the region is recorded. -/
theorem Grows.checks_leave (ends : after.ends = inside.ends ++ [state.regionEnd inside carried])
    (result : after.AllFaithful → Disjoint carried (insideStale ∪ lets.toFinset) →
      Agrees stale after) : after.Checks (leave carried lets insideStale stale) := by
  have isFaithful := grows.faithful_iff wellFormed agrees carried
  unfold leave
  split_ifs with disjoint
  · apply result _ disjoint
    intro regionEnd member
    rw [ends, mem_append, mem_singleton] at member
    rcases member with earlier | rfl
    · exact agrees.faithful regionEnd earlier
    · exact isFaithful.mpr disjoint
  · intro faithful
    apply disjoint
    apply isFaithful.mp
    apply faithful
    simp [ends]

end

/-- Lowering from `state` to `after`, with the result of the check beside it. -/
structure Follows (lets : List String) (updates stale : Finset String) (state after : Lowering)
    (checked : Option (Finset String)) : Prop where
  grows : Grows lets updates state after
  checks : Agrees stale state → after.Checks checked

variable {others : List String} {later : Finset String} {checked : Option (Finset String)}
  {next : Finset String → Option (Finset String)}

theorem Follows.trans (first : Follows lets updates stale state middle checked)
    (second : ∀ stale, Follows others later stale middle after (next stale)) :
    Follows (lets ++ others) (updates ∪ later \ lets.toFinset) stale state after
      (checked >>= next) where
  grows := first.grows.trans (second ∅).grows
  checks agrees := (first.checks agrees).bind (second ∅).grows.ends (second _).checks

theorem Follows.andThen (first : Follows [] updates stale state middle checked)
    (second : ∀ stale, Follows others later stale middle after (next stale)) :
    Follows others (updates ∪ later) stale state after (checked >>= next) := by
  simpa using first.trans second

section

variable (wellFormed : state.WellFormed)

include wellFormed

theorem Follows.refl : Follows [] ∅ stale state state (some stale) :=
  ⟨Grows.refl wellFormed, id⟩

theorem Follows.bind (stale : Finset String) (names : List String) :
    Follows names ∅ stale state (state.bind names) (some (stale \ names.toFinset)) :=
  ⟨Grows.bind wellFormed names, fun agrees => agrees.bind names⟩

theorem Follows.assign (assigned : String) :
    Follows [] {assigned} stale state (state.assign assigned) (some (stale.erase assigned)) :=
  ⟨Grows.assign wellFormed assigned, fun agrees => agrees.assign assigned⟩

theorem Follows.repack (stale carried updates : Finset String) :
    Follows [] updates stale state (state.repack carried updates)
      (some (renew carried updates stale)) :=
  ⟨Grows.repack wellFormed carried updates, fun agrees => agrees.repack carried updates⟩

variable (follows : Follows lets updates stale state inside checked)

include follows

theorem Follows.leave {left : Finset String → Finset String}
    (grows : Grows others later state after)
    (ends : after.ends = inside.ends ++ [state.regionEnd inside carried])
    (fresh : ∀ {insideStale}, Agrees stale state → Agrees insideStale inside →
      after.AllFaithful → Disjoint carried (insideStale ∪ lets.toFinset) →
      ∀ name, after.Fresh name ↔ name ∉ left insideStale) :
    Follows others later stale state after
      (checked >>= fun insideStale => leave carried lets insideStale (left insideStale)) where
  grows := grows
  checks before := by
    apply (follows.checks before).bind
    · rw [ends]
      exact subset_append_left _ _
    intro _ agrees
    apply follows.grows.checks_leave wellFormed agrees ends
    intro faithful disjoint
    exact ⟨grows.wellFormed, faithful, fresh before agrees faithful disjoint⟩

theorem Follows.close (carried : Finset String) :
    Follows [] ∅ stale state (state.close inside carried)
      (checked >>= fun insideStale => Source.leave carried lets insideStale stale) :=
  follows.leave wellFormed (follows.grows.close wellFormed carried) rfl
    fun before _ _ _ => before.fresh

theorem Follows.closeLoop (carried renewed : Finset String) :
    Follows [] renewed stale state ((state.close inside carried).repack carried renewed)
      (checked >>= fun insideStale =>
        Source.leave carried lets insideStale (renew carried renewed stale)) := by
  have closed := follows.grows.close wellFormed carried
  have packed := closed.andThen (Grows.repack closed.wellFormed carried renewed)
  rw [Finset.empty_union] at packed
  apply follows.leave wellFormed packed rfl
  intro _ before _ faithful _
  exact (Agrees.repack ⟨closed.wellFormed, faithful, before.fresh⟩ carried renewed).fresh

theorem Follows.exit (carried : Finset String) :
    Follows lets updates stale state (state.exit inside carried)
      (checked >>= fun insideStale => Source.leave carried lets insideStale insideStale) :=
  follows.leave wellFormed (follows.grows.exit carried) rfl fun _ agrees _ _ => agrees.fresh

theorem Follows.republish (carried : Finset String) :
    Follows [] updates stale state (state.republish inside carried)
      (checked >>= fun insideStale =>
        Source.leave carried lets insideStale ((stale ∪ updates) \ carried)) := by
  apply follows.leave wellFormed (follows.grows.republish wellFormed carried) rfl
  intro _ before agrees _ disjoint name
  by_cases isCarried : name ∈ carried
  · have outer := (follows.grows.outer_iff wellFormed agrees name).mpr
      (Finset.disjoint_left.mp disjoint isCarried)
    simpa [Fresh, Lowering.republish, isCarried] using outer
  · rcases follows.grows.survives name with ⟨_, value, survives⟩
    simp only [Fresh, Lowering.republish, survives.outerBindings wellFormed, isCarried,
      if_false, head?_cons, Finset.mem_sdiff, not_false_eq_true, and_true]
    by_cases updated : name ∈ updates
    · -- the new value stays inside the region
      have differs := (survives.updated updated).ne (wellFormed.vars name)
      simp [updated, differs.symm]
    · rw [← survives.kept updated]
      simpa [updated, Fresh] using before.fresh name

end

end Lowering

structure Branch.Checks (branch : Branch) (checked : CheckedBranch) : Prop where
  collectMutated : checked.collectMutated = branch.collectMutated
  updates : checked.updates = branch.updates
  follows : ∀ {carry state after} stale, branch.lower carry state = .ok after →
    state.WellFormed →
    Follows checked.lets branch.updates stale state after (checked.check carry stale)

theorem Branch.Checks.lowerIf {known : Option Bool} {thenBranch elseBranch : Branch}
    {thenChecked elseChecked : CheckedBranch} {carry stale : Finset String}
    {state after : Lowering} (thenHolds : thenBranch.Checks thenChecked)
    (elseHolds : elseBranch.Checks elseChecked)
    (lowers : lowerIf known carry thenBranch elseBranch state = .ok after)
    (wellFormed : state.WellFormed) :
    Follows [] (ifUpdates known thenBranch.updates elseBranch.updates) stale state after
      (checkIf known carry thenChecked elseChecked stale) := by
  cases known with
  | some taken =>
    simp only [Source.lowerIf, bind_eq_ok_iff, pure_eq_ok_iff, collected_eq_ok] at lowers
    rcases lowers with ⟨_, lowersBranch, carried, collects, rfl⟩
    have holds : (if taken then thenBranch else elseBranch).Checks
        (if taken then thenChecked else elseChecked) := by
      cases taken <;> assumption
    have same : ifUpdates (some taken) thenBranch.updates elseBranch.updates =
        (if taken then thenBranch else elseBranch).updates := by
      cases taken <;> rfl
    rw [same]
    simp only [checkIf]
    rw [holds.collectMutated, collects, holds.updates]
    exact (holds.follows stale lowersBranch wellFormed).republish wellFormed carried
  | none =>
    simp only [Source.lowerIf, bind_eq_ok_iff, pure_eq_ok_iff, collected_eq_ok] at lowers
    rcases lowers with
      ⟨thenNames, collectsThen, elseNames, collectsElse, _, lowersThen, _, lowersElse, rfl⟩
    simp only [checkIf, thenHolds.collectMutated, elseHolds.collectMutated, collectsThen,
      collectsElse, thenHolds.updates, elseHolds.updates]
    have closedThen := (thenHolds.follows stale lowersThen wellFormed).close wellFormed
      (carry ∪ thenNames ∪ elseNames)
    have middle := closedThen.grows.wellFormed
    have closed := closedThen.andThen fun stale =>
      (elseHolds.follows stale lowersElse middle).closeLoop middle (carry ∪ thenNames ∪ elseNames)
        (thenBranch.updates ∪ elseBranch.updates)
    rw [Finset.empty_union, bind_assoc] at closed
    exact closed

mutual

theorem Expr.follows (carry stale : Finset String) (place : Place) : (expr : Expr) →
    {state after : Lowering} → expr.lower carry place state = .ok after → state.WellFormed →
    Follows [] expr.updates stale state after (expr.check carry stale)
  | .path _, _, _, lowers, wellFormed => by
    cases lowers
    exact Follows.refl wellFormed
  | .operation operands, _, _, lowers, wellFormed => operands.follows carry stale lowers wellFormed
  | .assign target value, _, _, lowers, wellFormed => by
    cases place with
    | operand => cases lowers
    | statement =>
      simp only [Expr.lower, bind_eq_ok_iff, pure_eq_ok_iff, collected_eq_ok] at lowers
      rcases lowers with ⟨name, isTarget, _, lowersValue, rfl⟩
      have first := value.follows carry stale .operand lowersValue wellFormed
      cases target with
      | path =>
        cases isTarget
        rw [Expr.updates, Finset.insert_eq, Finset.union_comm]
        exact first.andThen fun _ => Follows.assign first.grows.wellFormed _
      | _ => cases isTarget
  | .block body, _, _, lowers, wellFormed | .unsafeBlock body, _, _, lowers, wellFormed => by
    simp only [Expr.lower, bind_eq_ok_iff, pure_eq_ok_iff, collected_eq_ok] at lowers
    rcases lowers with ⟨carried, collects, _, lowersBody, rfl⟩
    rw [Expr.check, collects]
    exact (body.follows carry stale lowersBody wellFormed).republish wellFormed carried
  | .ifElse known condition body otherwise, _, _, lowers, wellFormed => by
    simp only [Expr.lower, bind_eq_ok_iff] at lowers
    rcases lowers with ⟨_, lowersCondition, lowersIf⟩
    have first := condition.follows carry stale .operand lowersCondition wellFormed
    exact first.andThen fun _ => Branch.Checks.lowerIf
      ⟨rfl, rfl, fun stale lowers => body.follows _ stale lowers⟩
      ⟨rfl, rfl, fun stale lowers => otherwise.follows _ stale lowers⟩ lowersIf
      first.grows.wellFormed
  | .forLoop pat iterator body, _, _, lowers, wellFormed => by
    simp only [Expr.lower, bind_eq_ok_iff, pure_eq_ok_iff, collected_eq_ok] at lowers
    rcases lowers with
      ⟨_, lowersIterator, names, collects, loopVars, binds, _, lowersBody, rfl⟩
    have first := iterator.follows carry stale .operand lowersIterator wellFormed
    rw [Expr.updates, Expr.check, collects, pat.names_of_collect binds]
    refine first.andThen fun stale => ?_
    have packed := Follows.repack first.grows.wellFormed stale (names \ loopVars.toFinset)
      (body.updates \ loopVars.toFinset)
    have entered := packed.andThen fun stale =>
      Follows.bind packed.grows.wellFormed stale loopVars
    have whole := entered.trans fun stale =>
      body.follows _ stale lowersBody entered.grows.wellFormed
    exact whole.closeLoop first.grows.wellFormed _ _
  | .whileLoop condition body, _, _, lowers, wellFormed => by
    simp only [Expr.lower, bind_eq_ok_iff, pure_eq_ok_iff, collected_eq_ok] at lowers
    rcases lowers with ⟨carried, collects, _, lowersCondition, _, lowersBody, rfl⟩
    rw [Expr.check, collects]
    have packed := Follows.repack wellFormed stale carried (condition.updates ∪ body.updates)
    have tested := packed.andThen fun stale =>
      condition.follows _ stale .operand lowersCondition packed.grows.wellFormed
    have exited := tested.exit wellFormed carried
    have whole := exited.andThen fun stale =>
      body.follows _ stale lowersBody exited.grows.wellFormed
    have closed := whole.closeLoop wellFormed carried (condition.updates ∪ body.updates)
    simp only [bind_assoc] at closed
    exact closed
  | .loop body, _, _, lowers, wellFormed => by
    simp only [Expr.lower, bind_eq_ok_iff, pure_eq_ok_iff, collected_eq_ok] at lowers
    rcases lowers with ⟨carried, collects, _, lowersBody, rfl⟩
    rw [Expr.check, collects]
    have packed := Follows.repack wellFormed stale carried body.updates
    have whole := packed.andThen fun stale =>
      body.follows _ stale lowersBody packed.grows.wellFormed
    exact whole.closeLoop wellFormed carried _

theorem Exprs.follows (carry stale : Finset String) : (exprs : Exprs) →
    {state after : Lowering} → exprs.lower carry state = .ok after → state.WellFormed →
    Follows [] exprs.updates stale state after (exprs.check carry stale)
  | .nil, _, _, lowers, wellFormed => by
    cases lowers
    exact Follows.refl wellFormed
  | .cons head tail, _, _, lowers, wellFormed => by
    simp only [Exprs.lower, bind_eq_ok_iff] at lowers
    rcases lowers with ⟨_, lowersHead, lowersTail⟩
    have first := head.follows carry stale .operand lowersHead wellFormed
    exact first.andThen fun stale => tail.follows carry stale lowersTail first.grows.wellFormed

theorem Else.follows (carry stale : Finset String) : (otherwise : Else) →
    {state after : Lowering} → otherwise.lower carry state = .ok after → state.WellFormed →
    Follows otherwise.lets otherwise.updates stale state after (otherwise.check carry stale)
  | .none, _, _, lowers, wellFormed => by
    cases lowers
    exact Follows.refl wellFormed
  | .block body, _, _, lowers, wellFormed => body.follows carry stale lowers wellFormed
  | .elseIf known condition body otherwise, _, _, lowers, wellFormed => by
    simp only [Else.lower, bind_eq_ok_iff] at lowers
    rcases lowers with ⟨_, lowersCondition, lowersIf⟩
    have first := condition.follows carry stale .operand lowersCondition wellFormed
    exact first.andThen fun _ => Branch.Checks.lowerIf
      ⟨rfl, rfl, fun stale lowers => body.follows _ stale lowers⟩
      ⟨rfl, rfl, fun stale lowers => otherwise.follows _ stale lowers⟩ lowersIf
      first.grows.wellFormed

theorem Stmts.follows (carry stale : Finset String) : (stmts : Stmts) →
    {state after : Lowering} → stmts.lower carry state = .ok after → state.WellFormed →
    Follows stmts.lets stmts.updates stale state after (stmts.check carry stale)
  | .nil, _, _, lowers, wellFormed => by
    cases lowers
    exact Follows.refl wellFormed
  | .cons (.letBind pat init) tail, _, _, lowers, wellFormed => by
    simp only [Stmts.lower, bind_eq_ok_iff, collected_eq_ok] at lowers
    rcases lowers with ⟨names, binds, _, lowersInit, lowersTail⟩
    have first := init.follows carry stale .operand lowersInit wellFormed
    have bound := fun stale => Follows.bind first.grows.wellFormed stale names
    have rest := fun stale => (bound stale).trans fun stale =>
      tail.follows carry stale lowersTail (bound stale).grows.wellFormed
    simp only [Finset.empty_union] at rest
    rw [Stmts.lets, Stmts.updates, Stmts.check, pat.names_of_collect binds]
    exact first.andThen rest
  | .cons (.expr expr) tail, _, _, lowers, wellFormed => by
    simp only [Stmts.lower, bind_eq_ok_iff] at lowers
    rcases lowers with ⟨_, lowersHead, lowersTail⟩
    have first := expr.follows carry stale _ lowersHead wellFormed
    exact first.andThen fun stale => tail.follows carry stale lowersTail first.grows.wellFormed

end

/-- Every value that the lowering of a function body unpacks at the end of a region is the
value of the variable declared outside the region exactly when the check accepts the body:
no region carries a name that it declares itself, or one that is stale because a nested
region assigned it without carrying it. -/
theorem carried_faithful_iff (carry : Finset String) (body : Stmts) {final : Lowering}
    (lowers : body.lower carry start = .ok final) :
    (∀ regionEnd ∈ final.ends, regionEnd.Faithful) ↔ (body.check carry ∅).isSome := by
  have checks := (body.follows carry ∅ lowers wellFormed_start).checks agrees_start
  cases checked : body.check carry ∅ with
  | some =>
    rw [checked] at checks
    exact iff_of_true checks.faithful rfl
  | none =>
    rw [checked] at checks
    exact iff_of_false checks (by simp)

/-- `{ x = a; let y = b; }` -/
def separateLet : Stmts :=
  .cons (.expr (.block (.cons (.expr (.assign (.path "x") (.path "a")))
    (.cons (.letBind (.ident "y") (.path "b")) .nil)))) .nil

theorem carried_faithful_iff_separate :
    ∃ final, separateLet.lower ∅ start = .ok final ∧
      ∀ regionEnd ∈ final.ends, regionEnd.Faithful :=
  ⟨_, rfl, (carried_faithful_iff ∅ separateLet rfl).mpr (by decide)⟩

/-- `{ x = a; let x = b; }` -/
def shadowingLet : Stmts :=
  .cons (.expr (.block (.cons (.expr (.assign (.path "x") (.path "a")))
    (.cons (.letBind (.ident "x") (.path "b")) .nil)))) .nil

/-- `loop { x = a; if c { let x = b; } }` -/
def shadowingBranch : Stmts :=
  .cons (.expr (.loop (.cons (.expr (.assign (.path "x") (.path "a")))
    (.cons (.expr (.ifElse none (.path "c") (.cons (.letBind (.ident "x") (.path "b")) .nil)
      .none)) .nil)))) .nil

/-- The block publishes the value of its `let`, and the branch yields it for the variable
that the loop carries. -/
theorem carried_leaks_let :
    (∃ final regionEnd, shadowingLet.lower ∅ start = .ok final ∧ regionEnd ∈ final.ends ∧
      "x" ∈ regionEnd.carried ∧ regionEnd.unpacked "x" = .made 1 "x" ∧
      regionEnd.outer "x" = some (.made 0 "x") ∧ final.vars "x" = .made 1 "x") ∧
    ∃ final regionEnd, shadowingBranch.lower ∅ start = .ok final ∧ regionEnd ∈ final.ends ∧
      "x" ∈ regionEnd.carried ∧ regionEnd.unpacked "x" = .made 2 "x" ∧
      regionEnd.outer "x" = some (.made 1 "x") :=
  ⟨⟨_, _, rfl, .head _, by decide, by decide, by decide, by decide⟩,
    ⟨_, _, rfl, .head _, by decide, by decide, by decide⟩⟩

end CuTile.Source
