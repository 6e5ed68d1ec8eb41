import Mathlib.Data.Finset.Insert
import Mathlib.Data.Finset.Lattice.Basic
import Mathlib.Data.List.Sort

/-! # Ordering tokens

How the compiler threads memory-ordering tokens through a kernel body, run on a trace: the
accesses are numbered as they are executed, and a token is the set of accesses it depends
on through results, joins and carried values. Each variable's token is the one its type
metadata holds where the access is lowered; a value that a loop does not carry is the one
from before the loop in every pass.
-/

namespace CuTile.Tokens

/-! ## Index expressions -/

/-- The forms that `references_ident_expr` descends into. -/
inductive IndexForm where
  | methodCall (method : String)
  | call
  | binary (operator : String)
  | unary (operator : String)
  | paren
  | group
  | reference
  | tuple
  | array
  | cast (target : String)
  | index
  | field (name : String)
deriving DecidableEq, Repr

mutual

/-- The index argument of a store; `other` is any form that is not descended into. -/
inductive IndexExpr where
  | path (name : String)
  | literal (text : String)
  | compound (form : IndexForm) (parts : IndexExprs)
  | other (form : String) (parts : IndexExprs)

inductive IndexExprs where
  | nil
  | cons (head : IndexExpr) (tail : IndexExprs)

end

mutual

def IndexExpr.referencesIdent (name : String) : IndexExpr → Bool
  | .path ident => ident = name
  | .compound _ parts => parts.referencesIdent name
  | .literal _ | .other _ _ => false

def IndexExprs.referencesIdent (name : String) : IndexExprs → Bool
  | .nil => false
  | .cons head tail => head.referencesIdent name || tail.referencesIdent name

end

/-! ## Statements -/

mutual

/-- A statement, as far as it touches tokens. Every variable here is a mutable binding of a
tensor or of a mutable view. `dimFor` is a loop over a `Dim` or over the indices of a
mapped partition. The arguments of an inlined call are pairs of the caller's variable and
the parameter, in the order of the caller's names, in which the compiler goes through them;
`isMethod` tells the two kinds of inlined calls apart. -/
inductive Stmt where
  /-- `let mut view = tensor.partition_mut(..);` -/
  | openView (view tensor : String)
  | store (view : String) (index : IndexExpr)
  | load (view : String)
  | block (body : Stmts)
  | unsafeBlock (body : Stmts)
  | ifElse (known : Option Bool) (body otherwise : Stmts)
  | rangeFor (loopVar : String) (body : Stmts)
  | whileLoop (body : Stmts)
  | loop (body : Stmts)
  | dimFor (loopVar : Option String) (body : Stmts)
  | call (isMethod : Bool) (args : List (String × String)) (body : Stmts)

inductive Stmts where
  | nil
  | cons (head : Stmt) (tail : Stmts)

end

structure StoreCall where
  receiver : String
  indexDistinct : Bool
deriving DecidableEq, Repr

def StoreCall.ofIndex (loopVar : Option String) (receiver : String) (index : IndexExpr) :
    StoreCall where
  receiver := receiver
  indexDistinct :=
    match loopVar with
    | some name => index.referencesIdent name
    | none => false

mutual

/-- `collect_store_calls`; the body of an inlined call is not looked at. -/
def Stmt.collectStoreCalls (loopVar : Option String) : Stmt → List StoreCall
  | .store view index => [StoreCall.ofIndex loopVar view index]
  | .block body | .unsafeBlock body | .rangeFor _ body | .whileLoop body | .loop body
  | .dimFor _ body => body.collectStoreCalls loopVar
  | .ifElse _ body otherwise =>
    body.collectStoreCalls loopVar ++ otherwise.collectStoreCalls loopVar
  | .openView _ _ | .load _ | .call _ _ _ => []

def Stmts.collectStoreCalls (loopVar : Option String) : Stmts → List StoreCall
  | .nil => []
  | .cons head tail => head.collectStoreCalls loopVar ++ tail.collectStoreCalls loopVar

end

/-! ## The context -/

abbrev Token := Finset Nat

/-- `tensor_origin` and the `token` of the type metadata. -/
structure Var where
  origin : String
  token : Token
deriving DecidableEq

structure Ctx where
  vars : String → Option Var
  /-- The variables `__loop_token_acc__{root}`. -/
  accs : String → Option Token
  /-- The roots whose accumulator is among the `carry_vars`. -/
  carried : List String

namespace Ctx

def setViewToken (ctx : Ctx) (name : String) (token : Token) : Ctx :=
  { ctx with
    vars := Function.update ctx.vars name ((ctx.vars name).map fun var => { var with token }) }

def propagateTokenToRoot (ctx : Ctx) (name : String) : Ctx :=
  match ctx.vars name with
  | none => ctx
  | some var => if var.origin = name then ctx else ctx.setViewToken var.origin var.token

def accumulateLoopToken (ctx : Ctx) (name : String) : Ctx :=
  match ctx.vars name with
  | none => ctx
  | some var =>
    match ctx.accs var.origin with
    | none => ctx
    | some acc => { ctx with accs := Function.update ctx.accs var.origin (some (acc ∪ var.token)) }

/-- `update_type_meta`: copies the tokens of `inner` back, by the inner name of each outer
variable. -/
def updateTypeMeta (inner outer : Ctx) (innerName : String → Option String) : Ctx :=
  { outer with
    vars := fun name =>
      (outer.vars name).map fun var =>
        match (innerName name).bind inner.vars with
        | some own => { var with token := own.token }
        | none => var }

def origin (ctx : Ctx) (name : String) : Option String :=
  (ctx.vars name).map Var.origin

end Ctx

structure LoopTokenAcc where
  root : String
  receivers : List String
  owner : Bool
  serialize : Bool
deriving DecidableEq, Repr

namespace Ctx

/-- The stores through a view that is known before the loop and rooted at `root`. -/
def storesTo (ctx : Ctx) (stores : List StoreCall) (root : String) : List StoreCall :=
  stores.filter fun store => ctx.origin store.receiver = some root

def setupLoopTokenAccumulators (ctx : Ctx) (stores : List StoreCall) : List LoopTokenAcc :=
  let roots := (stores.filterMap fun store => ctx.origin store.receiver).dedup.filter
    fun root => (ctx.vars root).isSome
  (roots.insertionSort (· ≤ ·)).map fun root =>
    { root
      receivers := ((ctx.storesTo stores root).map StoreCall.receiver).dedup
      owner := (ctx.accs root).isNone
      serialize := !(ctx.storesTo stores root).all StoreCall.indexDistinct }

/-- The accumulators that the loop owns start from the token of their tensor. -/
def seed (ctx : Ctx) (accumulators : List LoopTokenAcc) : Ctx :=
  { ctx with
    accs := fun root =>
      if (accumulators.any fun acc => acc.owner && acc.root == root) then
        (ctx.vars root).map Var.token
      else ctx.accs root }

/-- The context with the accumulators of `roots` as a region left them. -/
def carry (ctx : Ctx) (roots : List String) (accs : String → Option Token) : Ctx :=
  { ctx with accs := fun root => if root ∈ roots then accs root else ctx.accs root }

def bindSerializedViews (ctx : Ctx) (accumulators : List LoopTokenAcc) : Ctx :=
  { ctx with
    vars := fun name =>
      (ctx.vars name).map fun var =>
        match accumulators.find? fun acc => acc.serialize && acc.receivers.contains name with
        | some acc => { var with token := (ctx.accs acc.root).getD var.token }
        | none => var }

/-- The context at the start of a pass, given the accumulators at the end of the one
before. -/
def enterPass (ctx : Ctx) (accumulators : List LoopTokenAcc) (accs : String → Option Token) : Ctx :=
  let roots := accumulators.map LoopTokenAcc.root
  { (ctx.carry roots accs).bindSerializedViews accumulators with carried := roots }

/-- `finish_loop_token_accumulators`; a later accumulator overwrites an earlier one. -/
def finish (ctx : Ctx) (accumulators : List LoopTokenAcc) : Ctx :=
  { ctx with
    vars := fun name =>
      (ctx.vars name).map fun var =>
        match accumulators.reverse.find?
          fun acc => acc.owner && (acc.root == name || acc.receivers.contains name) with
        | some acc => { var with token := (ctx.accs acc.root).getD var.token }
        | none => var
    accs := fun root =>
      if (accumulators.any fun acc => acc.owner && acc.root == root) then none
      else ctx.accs root }

end Ctx

/-! ## Execution -/

/-- What a run depends on besides the program: the meaning of the index expressions, and
for each region entered the branch taken or the number of passes, and the loop variable's
value in each pass. -/
structure Execution (V : Type) where
  literal : String → V
  compound : IndexForm → List V → V
  other : String → List V → V
  decision : (region : Nat) → Nat
  iterand : (region pass : Nat) → V

mutual

def IndexExpr.eval (execution : Execution V) (env : String → V) : IndexExpr → V
  | .path name => env name
  | .literal text => execution.literal text
  | .compound form parts => execution.compound form (parts.eval execution env)
  | .other form parts => execution.other form (parts.eval execution env)

def IndexExprs.eval (execution : Execution V) (env : String → V) : IndexExprs → List V
  | .nil => []
  | .cons head tail => head.eval execution env :: tail.eval execution env

end

/-- A pass of a loop, or a branch (pass 0). Regions are numbered as they are entered. -/
structure Frame where
  region : Nat
  pass : Nat
deriving DecidableEq, Repr

structure Access (V : Type) where
  root : String
  /-- The tile a store writes. -/
  stores : Option V
  /-- The passes and branches around the access, innermost first. -/
  place : List Frame
  /-- The token operand. -/
  reads : Token
deriving DecidableEq

structure Run (V : Type) where
  ctx : Ctx
  env : String → V
  place : List Frame
  accesses : List (Access V)
  regions : Nat

namespace Run

/-- The context after an access that read the token of `var`. The view's token becomes the
access's result; only a store takes `&mut self`, which advances the tensor's token too. -/
def accessCtx (run : Run V) (view : String) (var : Var) (stores : Option V) : Ctx :=
  let ctx := run.ctx.setViewToken view (insert run.accesses.length var.token)
  let ctx := if stores.isSome then ctx.propagateTokenToRoot view else ctx
  ctx.accumulateLoopToken view

/-- An inlined `store` (with its tile) or `load`. -/
def access (run : Run V) (view : String) (stores : Option V) : Option (Run V) := do
  let var ← run.ctx.vars view
  return { run with
    ctx := run.accessCtx view var stores
    accesses := run.accesses ++ [⟨var.origin, stores, run.place, var.token⟩] }

/-- A view starts from the current token of its tensor. -/
def openView (run : Run V) (view tensor : String) : Option (Run V) := do
  let var ← run.ctx.vars tensor
  let ctx := run.ctx.accumulateLoopToken tensor
  return { run with ctx := { ctx with vars := Function.update ctx.vars view (some var) } }

def enter (run current : Run V) (ctx : Ctx) (env : String → V) (frame : Frame) : Run V :=
  { current with ctx, env, place := frame :: run.place }

/-- The variables in a pass of the loop entered next. -/
def passEnv (execution : Execution V) (run : Run V) (loopVar : Option String) (pass : Nat) :
    String → V :=
  match loopVar with
  | some name => Function.update run.env name (execution.iterand run.regions pass)
  | none => run.env

/-- Back in `run`, with the context `ctx`, after a region that ended as `inside`. -/
def leave (run inside : Run V) (ctx : Ctx) : Run V :=
  { run with ctx, accesses := inside.accesses, regions := inside.regions }

end Run

def passes (count : Nat) (pass : Nat → Run V → Option (Run V)) (run : Run V) : Option (Run V) :=
  match count with
  | 0 => some run
  | count + 1 => do
    let run ← passes count pass run
    pass count run

/-- A loop that carries no tokens: every pass starts from the tokens before the loop, and
so does the code after it. -/
def runUncarried (count : Nat) (env : Nat → String → V) (body : Run V → Option (Run V))
    (run : Run V) : Option (Run V) := do
  let inside ← passes count
    (fun pass current =>
      body (run.enter current { run.ctx with carried := [] } (env pass) ⟨run.regions, pass⟩))
    { run with regions := run.regions + 1 }
  return run.leave inside run.ctx

/-- The parameters of an inlined call are copies of the arguments, in a context of their
own. -/
def calleeCtx (ctx : Ctx) (args : List (String × String)) : Ctx where
  vars name := (args.find? fun arg => arg.2 == name).bind fun arg => ctx.vars arg.1
  accs _ := none
  carried := []

/-- The caller's context after an inlined call. -/
def Ctx.returnFrom (ctx inner : Ctx) (isMethod : Bool) (args : List (String × String)) : Ctx :=
  let ctx := Ctx.updateTypeMeta inner ctx fun name =>
    (args.find? fun arg => arg.1 == name).map Prod.snd
  let ctx := args.foldl (fun ctx arg => ctx.propagateTokenToRoot arg.1) ctx
  if isMethod then args.foldl (fun ctx arg => ctx.accumulateLoopToken arg.1) ctx else ctx

mutual

def Stmt.run (execution : Execution V) : Stmt → Run V → Option (Run V)
  | .openView view tensor, run => run.openView view tensor
  | .store view index, run => run.access view (some (index.eval execution run.env))
  | .load view, run => run.access view none
  | .block body, run | .unsafeBlock body, run => do
    let inside ← body.run execution run
    return run.leave inside (Ctx.updateTypeMeta inside.ctx run.ctx some)
  | .ifElse known body otherwise, run => do
    let entered := run.enter { run with regions := run.regions + 1 } run.ctx run.env
      ⟨run.regions, 0⟩
    match known with
    | some taken =>
      let inside ← if taken then body.run execution entered else otherwise.run execution entered
      return run.leave inside run.ctx
    | none =>
      let inside ← if execution.decision run.regions ≠ 0 then body.run execution entered
        else otherwise.run execution entered
      return run.leave inside (run.ctx.carry run.ctx.carried inside.ctx.accs)
  | .rangeFor loopVar body, run =>
    runUncarried (execution.decision run.regions) (run.passEnv execution (some loopVar))
      (fun run => body.run execution run) run
  | .whileLoop body, run =>
    runUncarried (execution.decision run.regions) (fun _ => run.env)
      (fun run => body.run execution run) run
  | .loop body, run =>
    runUncarried (execution.decision run.regions + 1) (fun _ => run.env)
      (fun run => body.run execution run) run
  | .dimFor loopVar body, run => do
    let accumulators := run.ctx.setupLoopTokenAccumulators (body.collectStoreCalls loopVar)
    let ctx := run.ctx.seed accumulators
    let inside ← passes (execution.decision run.regions)
      (fun pass current => body.run execution
        (run.enter current (ctx.enterPass accumulators current.ctx.accs)
          (run.passEnv execution loopVar pass) ⟨run.regions, pass⟩))
      { run with ctx, regions := run.regions + 1 }
    let ctx := ctx.carry (accumulators.map LoopTokenAcc.root) inside.ctx.accs
    return run.leave inside (ctx.finish accumulators)
  | .call isMethod args body, run =>
    if args.all fun arg => (run.ctx.vars arg.1).isSome then do
      let inside ← body.run execution { run with ctx := calleeCtx run.ctx args }
      return run.leave inside (run.ctx.returnFrom inside.ctx isMethod args)
    else none

def Stmts.run (execution : Execution V) : Stmts → Run V → Option (Run V)
  | .nil, run => some run
  | .cons head tail, run => do
    let run ← head.run execution run
    tail.run execution run

end

/-! ## What the context operations change -/

namespace Ctx

variable {ctx : Ctx} {name : String} {var : Var}

@[simp] theorem setViewToken_carried (token : Token) :
    (ctx.setViewToken name token).carried = ctx.carried := rfl

theorem setViewToken_vars_self (isVar : ctx.vars name = some var) (token : Token) :
    (ctx.setViewToken name token).vars name = some { var with token } := by
  simp [setViewToken, isVar]

theorem setViewToken_vars_of_ne {other : String} (differs : other ≠ name) (token : Token) :
    (ctx.setViewToken name token).vars other = ctx.vars other := by
  simp [setViewToken, differs]

@[simp] theorem propagateTokenToRoot_accs : (ctx.propagateTokenToRoot name).accs = ctx.accs := by
  unfold propagateTokenToRoot
  split
  · rfl
  · split_ifs <;> rfl

@[simp] theorem propagateTokenToRoot_carried :
    (ctx.propagateTokenToRoot name).carried = ctx.carried := by
  unfold propagateTokenToRoot
  split
  · rfl
  · split_ifs <;> rfl

theorem propagateTokenToRoot_vars_self (isVar : ctx.vars name = some var) :
    (ctx.propagateTokenToRoot name).vars name = some var := by
  simp only [propagateTokenToRoot, isVar]
  split_ifs with isRoot
  · exact isVar
  · rw [setViewToken_vars_of_ne (Ne.symm isRoot), isVar]

@[simp] theorem accumulateLoopToken_vars (ctx : Ctx) (name : String) :
    (ctx.accumulateLoopToken name).vars = ctx.vars := by
  unfold accumulateLoopToken
  split
  · rfl
  · split <;> rfl

@[simp] theorem accumulateLoopToken_carried (ctx : Ctx) (name : String) :
    (ctx.accumulateLoopToken name).carried = ctx.carried := by
  unfold accumulateLoopToken
  split
  · rfl
  · split <;> rfl

theorem accumulateLoopToken_accs (isVar : ctx.vars name = some var) (root : String) :
    (ctx.accumulateLoopToken name).accs root =
      if root = var.origin then (ctx.accs root).map (· ∪ var.token) else ctx.accs root := by
  simp only [accumulateLoopToken, isVar]
  cases isAcc : ctx.accs var.origin with
  | none =>
    split_ifs with same
    · rw [same, isAcc]
      rfl
    · rfl
  | some =>
    split_ifs with same
    · simp [same, isAcc]
    · simp [same]

end Ctx

section Setup

variable {ctx : Ctx} {stores : List StoreCall} {acc : LoopTokenAcc}

theorem Ctx.mem_setup (member : acc ∈ ctx.setupLoopTokenAccumulators stores) :
    (ctx.vars acc.root).isSome ∧ acc.owner = (ctx.accs acc.root).isNone ∧
      ∀ receiver ∈ acc.receivers, ctx.origin receiver = some acc.root := by
  simp only [Ctx.setupLoopTokenAccumulators, List.mem_map, List.mem_insertionSort,
    List.mem_filter] at member
  rcases member with ⟨root, ⟨_, isSome⟩, rfl⟩
  refine ⟨isSome, rfl, fun receiver isReceiver => ?_⟩
  simp only [List.mem_dedup, List.mem_map, Ctx.storesTo, List.mem_filter] at isReceiver
  rcases isReceiver with ⟨store, ⟨_, isRoot⟩, rfl⟩
  simpa using isRoot

theorem Ctx.seed_accs (member : acc ∈ ctx.setupLoopTokenAccumulators stores) :
    ∃ token, (ctx.seed (ctx.setupLoopTokenAccumulators stores)).accs acc.root = some token := by
  have isSetup := Ctx.mem_setup member
  unfold Ctx.seed
  dsimp only
  split_ifs with owned
  · exact Option.isSome_iff_exists.mp (by simpa using isSetup.1)
  · have inherited : acc.owner = false := by
      by_contra owner
      apply owned
      rw [List.any_eq_true]
      exact ⟨acc, member, by simp_all⟩
    rw [isSetup.2.1] at inherited
    exact Option.isSome_iff_exists.mp (by simpa using inherited)

end Setup

namespace Run

variable {run after : Run V} {view : String} {stores : Option V}

theorem access_eq_some_iff :
    run.access view stores = some after ↔ ∃ var, run.ctx.vars view = some var ∧
      { run with
        ctx := run.accessCtx view var stores
        accesses := run.accesses ++ [⟨var.origin, stores, run.place, var.token⟩] } = after := by
  simp [access, Option.bind_eq_some_iff]

theorem accessCtx_accs {var : Var} (isVar : run.ctx.vars view = some var) (stores : Option V)
    (root : String) :
    (run.accessCtx view var stores).accs root =
      if root = var.origin then
        (run.ctx.accs root).map (· ∪ insert run.accesses.length var.token)
      else run.ctx.accs root := by
  have advanced := Ctx.setViewToken_vars_self isVar (insert run.accesses.length var.token)
  cases stores with
  | none => exact Ctx.accumulateLoopToken_accs advanced root
  | some =>
    have propagated := Ctx.propagateTokenToRoot_vars_self advanced
    have accumulated := Ctx.accumulateLoopToken_accs propagated root
    rwa [Ctx.propagateTokenToRoot_accs] at accumulated

theorem accessCtx_vars (run : Run V) (view : String) (var : Var) (stores : Option V) :
    (run.accessCtx view var stores).vars =
      let ctx := run.ctx.setViewToken view (insert run.accesses.length var.token)
      (if stores.isSome then ctx.propagateTokenToRoot view else ctx).vars :=
  Ctx.accumulateLoopToken_vars _ _

@[simp] theorem accessCtx_carried (run : Run V) (view : String) (var : Var) (stores : Option V) :
    (run.accessCtx view var stores).carried = run.ctx.carried := by
  unfold accessCtx
  cases stores <;> simp

theorem openView_eq_some_iff {tensor : String} :
    run.openView view tensor = some after ↔ ∃ var, run.ctx.vars tensor = some var ∧
      { run with
        ctx := { run.ctx.accumulateLoopToken tensor with
          vars := Function.update run.ctx.vars view (some var) } } = after := by
  simp [openView, Option.bind_eq_some_iff]

end Run

end CuTile.Tokens
