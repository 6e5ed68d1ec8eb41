import CuTile.Compiler.Tokens

/-! # Which stores a token covers

A static analysis of kernel bodies. For every variable it tells whether its token depends
on the stores made to its tensor so far, in whichever regions they were made, and it accepts
a body when no access needs more than that.
-/

namespace CuTile.Tokens

/-- The regions that are left without their tokens being handed on by name. -/
inductive Boundary where
  | knownBranch
  | unknownBranch
  | rangeLoop
  | whileLoop
  | loop
  | dimLoop
deriving DecidableEq, Repr

/-- Whether a token depends on all stores to its tensor, or at least on those outside the
current pass or branch. -/
structure Coverage where
  all : Bool
  outside : Bool
deriving DecidableEq, Repr

namespace Coverage

def empty : Coverage :=
  ⟨false, false⟩

def full (all : Bool) : Coverage :=
  ⟨all, all⟩

/-- In a new pass or branch all earlier stores are outside. -/
def enter (coverage : Coverage) : Coverage :=
  full coverage.all

@[simp] theorem enter_full (all : Bool) : (full all).enter = full all := rfl

def allowsAccess (coverage : Coverage) : Bool :=
  coverage.all || coverage.outside

def meet (coverage other : Coverage) : Coverage :=
  ⟨coverage.all && other.all, coverage.outside && other.outside⟩

end Coverage

structure Known where
  origin : String
  covers : Coverage
deriving DecidableEq, Repr

namespace Known

/-- The variable after it got the token of `source`. -/
def take (known source : Known) : Known :=
  { known with covers := if source.origin = known.origin then source.covers else .empty }

/-- The variable after stores to the tensors `stored` that its token does not follow. -/
def drop (known : Known) (stored : List String) : Known :=
  if known.origin ∈ stored then { known with covers := .empty } else known

end Known

/-- What is known about a context: its variables, whether its accumulators depend on all
stores, and the tensors stored to since the region was entered. -/
structure Knowledge where
  vars : String → Option Known
  accs : String → Option Bool
  carried : List String
  stored : List String

namespace Knowledge

def shape (knowledge : Knowledge) : Ctx where
  vars name := (knowledge.vars name).map fun known => ⟨known.origin, ∅⟩
  accs root := (knowledge.accs root).map fun _ => ∅
  carried := knowledge.carried

def propagate (knowledge : Knowledge) (name : String) : Knowledge :=
  match knowledge.vars name with
  | none => knowledge
  | some known =>
    if known.origin = name then knowledge
    else
      { knowledge with
        vars := Function.update knowledge.vars known.origin
          ((knowledge.vars known.origin).map fun root => root.take known) }

@[simp] theorem propagate_accs (knowledge : Knowledge) (name : String) :
    (knowledge.propagate name).accs = knowledge.accs := by
  unfold propagate
  split
  · rfl
  · split_ifs <;> rfl

@[simp] theorem propagate_carried (knowledge : Knowledge) (name : String) :
    (knowledge.propagate name).carried = knowledge.carried := by
  unfold propagate
  split
  · rfl
  · split_ifs <;> rfl

@[simp] theorem propagate_stored (knowledge : Knowledge) (name : String) :
    (knowledge.propagate name).stored = knowledge.stored := by
  unfold propagate
  split
  · rfl
  · split_ifs <;> rfl

/-- A store through `view`: other variables of its tensor do not follow it. -/
def store (knowledge : Knowledge) (view root : String) : Knowledge :=
  { knowledge with
    vars := fun name =>
      (knowledge.vars name).map fun known =>
        if name ≠ view ∧ known.origin = root then
          { known with covers := { known.covers with all := false } }
        else known
    stored := root :: knowledge.stored }

/-- Back after stores that are only in the tokens of a region. -/
def drop (knowledge : Knowledge) (stored : List String) : Knowledge where
  vars name := (knowledge.vars name).map fun known => known.drop stored
  accs root := (knowledge.accs root).map fun gathers => gathers && !stored.contains root
  carried := knowledge.carried
  stored := stored ++ knowledge.stored

/-- Back from `inside` with its tokens, by the inner name of each variable. -/
def copyBack (knowledge inside : Knowledge) (innerName : String → Option String) : Knowledge :=
  { knowledge.drop inside.stored with
    vars := fun name =>
      (knowledge.vars name).map fun known =>
        match (innerName name).bind inside.vars with
        | some own => known.take own
        | none => known.drop inside.stored }

def meet (knowledge other : Knowledge) : Knowledge :=
  { knowledge with
    vars := fun name =>
      (knowledge.vars name).bind fun known =>
        (other.vars name).map fun own =>
          { known with covers := known.covers.meet own.covers }
    stored := knowledge.stored ++ other.stored }

def enterBranch (knowledge : Knowledge) : Knowledge :=
  { knowledge with
    vars := fun name =>
      (knowledge.vars name).map fun known => { known with covers := known.covers.enter }
    stored := [] }

/-- After a branch whose condition is known, or whose tokens are assumed to cross. -/
def leaveBranch (knowledge inside : Knowledge) (assumed : Bool) : Knowledge :=
  if assumed then knowledge.copyBack inside some else knowledge.drop inside.stored

/-- After one of two branches; the accumulators of a loop around them are yielded. -/
def leaveBranches (knowledge first second : Knowledge) (assumed : Bool) : Knowledge :=
  let left := if assumed then (knowledge.copyBack first some).meet (knowledge.copyBack second some)
    else knowledge.drop (first.stored ++ second.stored)
  { left with
    accs := fun root =>
      if root ∈ knowledge.carried then
        (knowledge.accs root).map fun _ =>
          first.accs root = some true && second.accs root = some true
      else left.accs root }

/-- Whether the accumulators of a loop start with all stores. -/
def seed (knowledge : Knowledge) (accumulators : List LoopTokenAcc) (root : String) : Option Bool :=
  if (accumulators.any fun acc => acc.owner && acc.root == root) then
    (knowledge.vars root).map fun known => known.origin == root && known.covers.all
  else knowledge.accs root

/-- At the start of any pass, with what the accumulators gather in each pass. With `across`,
stores of other passes count too, and only the accumulators have them. -/
def enterPass (knowledge : Knowledge) (across : Bool) (accumulators : List LoopTokenAcc)
    (accs : String → Option Bool) : Knowledge where
  vars name :=
    (knowledge.vars name).map fun known =>
      { known with
        covers :=
          match accumulators.find? fun acc => acc.serialize && acc.receivers.contains name with
          | some acc => .full (known.origin == acc.root && accs acc.root == some true)
          | none =>
            if across ∧ known.origin ∈ accumulators.map LoopTokenAcc.root then .empty
            else known.covers.enter }
  accs := accs
  carried := accumulators.map LoopTokenAcc.root
  stored := []

/-- After a loop: the tensors and receivers have the tokens of the accumulators. -/
def afterLoop (knowledge inside : Knowledge) (accumulators : List LoopTokenAcc)
    (accs : String → Option Bool) : Knowledge :=
  { knowledge.drop inside.stored with
    vars := fun name =>
      (knowledge.vars name).map fun known =>
        match accumulators.reverse.find?
          fun acc => acc.owner && (acc.root == name || acc.receivers.contains name) with
        | some acc =>
          { known with covers := .full (known.origin == acc.root && accs acc.root == some true) }
        | none => known.drop inside.stored
    accs := fun root =>
      (knowledge.accs root).map fun gathers =>
        if root ∈ accumulators.map LoopTokenAcc.root then gathers && accs root == some true
        else gathers && !inside.stored.contains root }

/-- The body has to keep what its accumulators gather. -/
def leaveLoop (knowledge inside : Knowledge) (across : Bool) (accumulators : List LoopTokenAcc)
    (accs : String → Option Bool) : Option Knowledge :=
  if (∀ acc ∈ accumulators, inside.accs acc.root = accs acc.root) ∧
      (across → ∀ root ∈ inside.stored, root ∈ accumulators.map LoopTokenAcc.root) then
    some (knowledge.afterLoop inside accumulators accs)
  else none

def callee (knowledge : Knowledge) (args : List (String × String)) : Knowledge where
  vars name := (args.find? fun arg => arg.2 == name).bind fun arg => knowledge.vars arg.1
  accs _ := none
  carried := []
  stored := []

end Knowledge

/-- A loop with the given accumulators. Where its tokens are not assumed to cross, the
accumulators are first taken to keep what they start with, and else to be of no use. -/
def analyzeLoop (assumed across : Bool) (accumulators : List LoopTokenAcc)
    (body : Knowledge → Option Knowledge) (knowledge : Knowledge) : Option Knowledge :=
  let start := knowledge.seed accumulators
  if assumed then do
    let inside ← body (knowledge.enterPass false [] start)
    return knowledge.copyBack inside some
  else
    [start, fun root => (start root).map fun _ => false].findSome? fun accs => do
      let inside ← body (knowledge.enterPass across accumulators accs)
      knowledge.leaveLoop inside across accumulators accs

section Analyze

variable (assumed : Boundary → Bool) (across : Bool)

mutual

/-- What is known after a statement. `assumed` are the boundaries that tokens are taken to
cross by name. -/
def Stmt.analyze : Stmt → Knowledge → Option Knowledge
  | .openView view tensor, knowledge => do
    let known ← knowledge.vars tensor
    return { knowledge with vars := Function.update knowledge.vars view (some known) }
  | .store view _, knowledge => do
    let known ← knowledge.vars view
    if known.covers.allowsAccess then (knowledge.store view known.origin).propagate view else none
  | .load view, knowledge => do
    let known ← knowledge.vars view
    if known.covers.allowsAccess then knowledge else none
  | .block body, knowledge | .unsafeBlock body, knowledge => do
    let inside ← body.analyze { knowledge with stored := [] }
    return knowledge.copyBack inside some
  | .ifElse known body otherwise, knowledge =>
    match known with
    | some taken => do
      let inside ← if taken then body.analyze knowledge.enterBranch
        else otherwise.analyze knowledge.enterBranch
      return knowledge.leaveBranch inside (assumed .knownBranch)
    | none => do
      let first ← body.analyze knowledge.enterBranch
      let second ← otherwise.analyze knowledge.enterBranch
      return knowledge.leaveBranches first second (assumed .unknownBranch)
  | .rangeFor _ body, knowledge =>
    analyzeLoop (assumed .rangeLoop) across [] (fun knowledge => body.analyze knowledge) knowledge
  | .whileLoop body, knowledge =>
    analyzeLoop (assumed .whileLoop) across [] (fun knowledge => body.analyze knowledge) knowledge
  | .loop body, knowledge =>
    analyzeLoop (assumed .loop) across [] (fun knowledge => body.analyze knowledge) knowledge
  | .dimFor loopVar body, knowledge =>
    analyzeLoop (assumed .dimLoop) across
      (knowledge.shape.setupLoopTokenAccumulators (body.collectStoreCalls loopVar))
      (fun knowledge => body.analyze knowledge) knowledge
  | .call _ args body, knowledge =>
    if args.all fun arg => (knowledge.vars arg.1).isSome then do
      let inside ← body.analyze (knowledge.callee args)
      let copied := knowledge.copyBack inside fun name =>
        (args.find? fun arg => arg.1 == name).map Prod.snd
      return args.foldl (fun knowledge arg => knowledge.propagate arg.1) copied
    else none

def Stmts.analyze : Stmts → Knowledge → Option Knowledge
  | .nil, knowledge => some knowledge
  | .cons head tail, knowledge => do
    let knowledge ← head.analyze knowledge
    tail.analyze knowledge

end

end Analyze

end CuTile.Tokens
