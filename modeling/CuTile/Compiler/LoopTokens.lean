import CuTile.Compiler.Tokens

/-! # Stores of a loop body in different passes

A loop over a `Dim` or a mapped partition whose body opens views and stores through them.
Each store reads a token that follows either all the stores to its tensor in the earlier
passes, or none of them.
-/

namespace CuTile.Tokens

open Option Finset LoopTokenAcc

inductive BodyStmt where
  | openView (view tensor : String)
  | store (view : String) (index : IndexExpr)

def BodyStmt.toStmt : BodyStmt → Stmt
  | .openView view tensor => .openView view tensor
  | .store view index => .store view index

def loopBody (stmts : List BodyStmt) : Stmts :=
  stmts.foldr (fun stmt tail => .cons stmt.toStmt tail) .nil

@[simp] theorem loopBody_cons (stmt : BodyStmt) (stmts : List BodyStmt) :
    loopBody (stmt :: stmts) = .cons stmt.toStmt (loopBody stmts) := rfl

/-! ## Which tokens follow the accumulator -/

/-- What is known about a variable at a point of the body: its root, and whether its token
follows the accumulator that the pass started with. -/
structure Chain where
  root : String
  chained : Bool

structure Site where
  root : String
  index : IndexExpr
  chained : Bool

def BodyStmt.advance (chains : String → Option Chain) : BodyStmt → String → Option Chain
  | .openView view tensor => Function.update chains view (chains tensor)
  | .store view _ =>
    match chains view with
    | none => chains
    | some own =>
      if own.root = view then chains
      else Function.update chains own.root
        ((chains own.root).map fun chain => { chain with chained := own.chained })

def sites (chains : String → Option Chain) : List BodyStmt → List Site
  | [] => []
  | stmt :: rest =>
    let later := sites (stmt.advance chains) rest
    match stmt with
    | .openView _ _ => later
    | .store view index =>
      match chains view with
      | none => later
      | some own => ⟨own.root, index, own.chained⟩ :: later

/-- At the start of a pass the serialized views follow the accumulator: those through which
the body stores, when some store to their tensor has an index that does not mention the
loop variable. -/
def Ctx.chains (ctx : Ctx) (accumulators : List LoopTokenAcc) (name : String) : Option Chain :=
  (ctx.vars name).map fun var =>
    { root := var.origin
      chained := accumulators.any fun acc => acc.serialize && acc.receivers.contains name }

/-! ## One pass -/

def Reaches (base : Nat) (accesses : List (Access V)) (root : String) (id : Nat) : Prop :=
  base ≤ id ∧ ∃ access, accesses[id]? = some access ∧ access.root = root

/-- The token follows all of the `old` accesses to the tensor, or none. -/
structure Chain.Follows (old : String → Nat → Prop) (chain : Chain) (var : Var) : Prop where
  origin : var.origin = chain.root
  token : ∀ id, old chain.root id → (id ∈ var.token ↔ chain.chained = true)

def Ctx.Follows (old : String → Nat → Prop) (chains : String → Option Chain) (ctx : Ctx) : Prop :=
  ∀ name, Option.Rel (Chain.Follows old) (chains name) (ctx.vars name)

/-- The accumulators of `roots` follow the accesses from `base` on. -/
def Run.Collects (base : Nat) (roots : List String) (run : Run V) : Prop :=
  ∀ root ∈ roots, ∃ acc, run.ctx.accs root = some acc ∧
    ∀ id, Reaches base run.accesses root id → id ∈ acc

structure Site.Matches (execution : Execution V) (env : String → V) (place : List Frame)
    (old : String → Nat → Prop) (site : Site) (access : Access V) : Prop where
  root : access.root = site.root
  stores : access.stores = some (site.index.eval execution env)
  place : access.place = place
  reads : ∀ id, old site.root id → (id ∈ access.reads ↔ site.chained = true)

/-- Views do not take the names of tensors, and a tensor roots at itself. -/
def Named (tensors : Finset String) (chains : String → Option Chain) : Prop :=
  ∀ name chain, chains name = some chain →
    chain.root ∈ tensors ∧ (name ∈ tensors → chain.root = name)

def BodyStmt.Named (tensors : Finset String) : BodyStmt → Prop
  | .openView view _ => view ∉ tensors
  | .store _ _ => True

section Pass

variable {execution : Execution V} {run after : Run V} {base : Nat} {roots : List String}
  {old : String → Nat → Prop} {chains : String → Option Chain} {ctx : Ctx} {name : String}
  {var : Var} {tensors : Finset String} {stmt : BodyStmt}

theorem Named.advance (named : Named tensors chains) (isNamed : stmt.Named tensors) :
    Named tensors (stmt.advance chains) := by
  intro name chain isChain
  cases stmt with
  | openView view tensor =>
    by_cases same : name = view
    · subst same
      rw [BodyStmt.advance, Function.update_self] at isChain
      exact ⟨(named tensor chain isChain).1, fun member => absurd member isNamed⟩
    · rw [BodyStmt.advance, Function.update_of_ne same] at isChain
      exact named name chain isChain
  | store view =>
    simp only [BodyStmt.advance] at isChain
    cases isOwn : chains view with
    | none =>
      rw [isOwn] at isChain
      exact named name chain isChain
    | some own =>
      simp only [isOwn] at isChain
      split_ifs at isChain
      · exact named name chain isChain
      · by_cases same : name = own.root
        · subst same
          rw [Function.update_self, map_eq_some_iff] at isChain
          rcases isChain with ⟨before, isBefore, rfl⟩
          exact named _ before isBefore
        · rw [Function.update_of_ne same] at isChain
          exact named name chain isChain

section

variable (follows : ctx.Follows old chains)

include follows

theorem Ctx.Follows.chain (isVar : ctx.vars name = some var) :
    ∃ chain, chains name = some chain ∧ chain.Follows old var := by
  have own := follows name
  rw [isVar] at own
  generalize chains name = chain at own
  cases own with
  | some isFollowing => exact ⟨_, rfl, isFollowing⟩

theorem Ctx.Follows.update (name : String) {chain : Option Chain} {var : Option Var}
    (own : Rel (Chain.Follows old) chain var) :
    Ctx.Follows old (Function.update chains name chain)
      { ctx with vars := Function.update ctx.vars name var } := by
  intro other
  by_cases same : other = name
  · subst same
    simpa using own
  · simpa [same] using follows other

theorem Ctx.Follows.setViewToken (name : String) (token : Token) (chained : Bool)
    (isToken : ∀ chain, chains name = some chain →
      ∀ id, old chain.root id → (id ∈ token ↔ chained = true)) :
    (ctx.setViewToken name token).Follows old
      (Function.update chains name ((chains name).map fun chain => { chain with chained })) := by
  apply follows.update
  have own := follows name
  generalize chains name = chain at own isToken ⊢
  generalize ctx.vars name = var at own ⊢
  cases own with
  | none => exact .none
  | @some chain _ isFollowing => exact .some ⟨isFollowing.origin, isToken chain rfl⟩

/-- The store's own token follows what the view's token did. -/
theorem Ctx.Follows.advanceView {chain : Chain} (isChain : chains name = some chain)
    (isFollowing : chain.Follows old var) {id : Nat} (isNew : ∀ root, ¬ old root id) :
    (ctx.setViewToken name (insert id var.token)).Follows old chains := by
  have updated := follows.setViewToken name (insert id var.token) chain.chained
    fun own isOwn other isOld => by
      rw [isChain, some_inj] at isOwn
      subst isOwn
      have differs : other ≠ id := fun same => isNew _ (same ▸ isOld)
      rw [mem_insert, or_iff_right differs]
      exact isFollowing.token other isOld
  have unchanged : Function.update chains name
      ((chains name).map fun own => { own with chained := chain.chained }) = chains := by
    rw [isChain]
    exact Function.update_eq_self_iff.mpr isChain.symm
  rwa [unchanged] at updated

theorem Ctx.Follows.propagateTokenToRoot (named : Named tensors chains) {chain : Chain}
    (isVar : ctx.vars name = some var) (isChain : chains name = some chain)
    (isFollowing : chain.Follows old var) (index : IndexExpr) :
    (ctx.propagateTokenToRoot name).Follows old ((BodyStmt.store name index).advance chains) := by
  simp only [Ctx.propagateTokenToRoot, BodyStmt.advance, isVar, isChain, isFollowing.origin]
  split_ifs
  · exact follows
  · apply follows.setViewToken
    intro root isRoot id isOld
    have isTensor := (named name chain isChain).1
    rw [(named _ root isRoot).2 isTensor] at isOld
    exact isFollowing.token id isOld

end

theorem Ctx.Follows.store (follows : run.ctx.Follows old chains) (named : Named tensors chains)
    {chain : Chain} (isVar : run.ctx.vars name = some var) (isChain : chains name = some chain)
    (isFollowing : chain.Follows old var) (isNew : ∀ root, ¬ old root run.accesses.length)
    (index : IndexExpr) (tile : V) :
    (run.accessCtx name var (some tile)).Follows old
      ((BodyStmt.store name index).advance chains) := by
  have viewFollows := follows.advanceView isChain isFollowing isNew
  have isView := Ctx.setViewToken_vars_self isVar (insert run.accesses.length var.token)
  rcases viewFollows.chain isView with ⟨_, isOwn, ownFollows⟩
  have propagated := viewFollows.propagateTokenToRoot named isView isOwn ownFollows index
  intro other
  simpa [Run.accessCtx] using propagated other

theorem reaches_append {accesses : List (Access V)} {access : Access V} {root : String} {id : Nat}
    (inBody : base ≤ accesses.length) :
    Reaches base (accesses ++ [access]) root id ↔
      Reaches base accesses root id ∨ id = accesses.length ∧ access.root = root := by
  unfold Reaches
  rcases Nat.lt_trichotomy id accesses.length with isOld | isNew | isLater
  · simp [List.getElem?_append_left isOld, Nat.ne_of_lt isOld]
  · simp [isNew, inBody]
  · have none := List.getElem?_eq_none (l := accesses) (Nat.le_of_lt isLater)
    have appended : (accesses ++ [access])[id]? = .none :=
      List.getElem?_eq_none (by simpa using Nat.succ_le_of_lt isLater)
    simp [none, appended, Nat.ne_of_gt isLater]

theorem Run.Collects.openView (collects : run.Collects base roots) {tensor : String}
    (isVar : run.ctx.vars tensor = some var) (vars : String → Option Var) :
    Run.Collects base roots
      { run with ctx := { run.ctx.accumulateLoopToken tensor with vars := vars } } := by
  intro root member
  rcases collects root member with ⟨acc, isAcc, covers⟩
  have accs := Ctx.accumulateLoopToken_accs isVar root
  split_ifs at accs
  · rw [isAcc, map_some] at accs
    exact ⟨_, accs, fun id reaches => mem_union_left _ (covers id reaches)⟩
  · exact ⟨acc, accs.trans isAcc, covers⟩

theorem Run.Collects.access (collects : run.Collects base roots) {view : String}
    (isVar : run.ctx.vars view = some var) (stores : Option V)
    (inBody : base ≤ run.accesses.length) :
    Run.Collects base roots
      { run with
        ctx := run.accessCtx view var stores
        accesses := run.accesses ++ [⟨var.origin, stores, run.place, var.token⟩] } := by
  intro root member
  rcases collects root member with ⟨acc, isAcc, covers⟩
  have accs := Run.accessCtx_accs isVar stores root
  split_ifs at accs with same
  · rw [isAcc, map_some] at accs
    refine ⟨_, accs, fun id reaches => ?_⟩
    rcases (reaches_append inBody).mp reaches with earlier | ⟨rfl, _⟩
    · exact mem_union_left _ (covers id earlier)
    · exact mem_union_right _ (mem_insert_self _ _)
  · refine ⟨acc, accs.trans isAcc, fun id reaches => ?_⟩
    rcases (reaches_append inBody).mp reaches with earlier | ⟨_, isRoot⟩
    · exact covers id earlier
    · exact absurd isRoot.symm same

/-- A pass over the body: its stores are the sites, in order. -/
theorem loopBody_run (stmts : List BodyStmt) {run after : Run V} {chains : String → Option Chain}
    (runs : (loopBody stmts).run execution run = some after)
    (follows : run.ctx.Follows old chains) (named : Named tensors chains)
    (isNamed : ∀ stmt ∈ stmts, stmt.Named tensors) (collects : run.Collects base roots)
    (inBody : base ≤ run.accesses.length)
    (past : ∀ root id, old root id → id < run.accesses.length) :
    ∃ new, after.accesses = run.accesses ++ new ∧
      List.Forall₂ (Site.Matches execution run.env run.place old) (sites chains stmts) new ∧
      after.Collects base roots := by
  induction stmts generalizing run chains with
  | nil =>
    cases runs
    exact ⟨[], by simp, .nil, collects⟩
  | cons stmt rest induction =>
    simp only [loopBody_cons, Stmts.run, bind_eq_bind,
      bind_eq_some_iff] at runs
    rcases runs with ⟨middle, runsHead, runsTail⟩
    have restNamed : ∀ later ∈ rest, later.Named tensors :=
      fun later member => isNamed later (List.mem_cons_of_mem _ member)
    have advanced := named.advance (isNamed stmt (List.mem_cons_self ..))
    cases stmt with
    | openView view tensor =>
      rcases Run.openView_eq_some_iff.mp runsHead with ⟨var, isVar, rfl⟩
      have own := follows tensor
      rw [isVar] at own
      have opened := follows.update view own
      have tail := induction runsTail opened advanced restNamed (collects.openView isVar _)
        inBody past
      exact tail
    | store view index =>
      rcases Run.access_eq_some_iff.mp runsHead with ⟨var, isVar, rfl⟩
      rcases follows.chain isVar with ⟨chain, isChain, isFollowing⟩
      have isNew : ∀ root, ¬ old root run.accesses.length :=
        fun root isOld => absurd (past root _ isOld) (lt_irrefl _)
      have stored := follows.store named isVar isChain isFollowing isNew index
        (index.eval execution run.env)
      have tail := induction runsTail stored advanced restNamed
        (collects.access isVar _ inBody) (by simp; omega)
        (fun root id isOld => by
          have := past root id isOld
          simp
          omega)
      rcases tail with ⟨new, isAppended, isMatching, tailCollects⟩
      let head : Access V :=
        ⟨var.origin, some (index.eval execution run.env), run.place, var.token⟩
      have matchesHead : Site.Matches execution run.env run.place old
          ⟨chain.root, index, chain.chained⟩ head :=
        ⟨isFollowing.origin, rfl, rfl, isFollowing.token⟩
      refine ⟨head :: new, ?_, ?_, tailCollects⟩
      · exact isAppended.trans (List.append_assoc ..)
      · simp only [sites, isChain]
        exact .cons matchesHead isMatching

end Pass

/-! ## The loop -/

/-- Tokens mention accesses that have been made, and the names are those of `tensors` and
of views. -/
structure Run.WellFormed (tensors : Finset String) (run : Run V) : Prop where
  past : ∀ name var, run.ctx.vars name = some var → ∀ id ∈ var.token, id < run.accesses.length
  roots : ∀ name var, run.ctx.vars name = some var → var.origin ∈ tensors
  tensors : ∀ name var, run.ctx.vars name = some var → name ∈ tensors → var.origin = name

section Loop

variable {execution : Execution V} {run current after : Run V} {tensors : Finset String}
  {loopVar : Option String} {stmts : List BodyStmt}

def loopAccumulators (run : Run V) (loopVar : Option String) (stmts : List BodyStmt) :
    List LoopTokenAcc :=
  run.ctx.setupLoopTokenAccumulators ((loopBody stmts).collectStoreCalls loopVar)

def loopSites (run : Run V) (loopVar : Option String) (stmts : List BodyStmt) : List Site :=
  sites (run.ctx.chains (loopAccumulators run loopVar stmts)) stmts

theorem Run.WellFormed.named (wellFormed : run.WellFormed tensors)
    (accumulators : List LoopTokenAcc) : Named tensors (run.ctx.chains accumulators) := by
  intro name _ isChain
  rcases map_eq_some_iff.mp isChain with ⟨var, isVar, rfl⟩
  exact ⟨wellFormed.roots name var isVar, wellFormed.tensors name var isVar⟩

theorem enterPass_follows (wellFormed : run.WellFormed tensors)
    (collects : current.Collects run.accesses.length
      ((loopAccumulators run loopVar stmts).map root)) :
    (((run.ctx.seed (loopAccumulators run loopVar stmts)).enterPass
        (loopAccumulators run loopVar stmts) current.ctx.accs)).Follows
      (Reaches run.accesses.length current.accesses)
      (run.ctx.chains (loopAccumulators run loopVar stmts)) := by
  intro name
  simp only [Ctx.enterPass, Ctx.bindSerializedViews, Ctx.carry, Ctx.seed, Ctx.chains]
  cases isVar : run.ctx.vars name with
  | none => exact .none
  | some var =>
    apply Rel.some
    cases isFound : (loopAccumulators run loopVar stmts).find?
        fun acc => acc.serialize && acc.receivers.contains name with
    | none =>
      refine ⟨rfl, fun id reaches => ?_⟩
      have early : id ∉ var.token := fun member =>
        absurd (wellFormed.past name var isVar id member) (not_lt.mpr reaches.1)
      have unchained := List.find?_eq_none.mp isFound
      simpa [early] using unchained
    | some acc =>
      have member := List.mem_of_find?_eq_some isFound
      have isReceiver := List.find?_some isFound
      have chained : ((loopAccumulators run loopVar stmts).any
          fun acc => acc.serialize && acc.receivers.contains name) = true :=
        List.any_eq_true.mpr ⟨acc, member, isReceiver⟩
      rw [Bool.and_eq_true, List.contains_iff_mem] at isReceiver
      have isRoot := (Ctx.mem_setup member).2.2 name isReceiver.2
      simp only [Ctx.origin, isVar, map_some, some_inj] at isRoot
      have isCarried : acc.root ∈ (loopAccumulators run loopVar stmts).map root :=
        List.mem_map_of_mem member
      rcases collects acc.root isCarried with ⟨token, isToken, covers⟩
      refine ⟨rfl, fun id reaches => ?_⟩
      dsimp only at reaches
      rw [isRoot] at reaches
      simp only [isCarried, if_true, isToken, getD_some, chained, iff_true]
      exact covers id reaches

theorem Run.Collects.enterPass {base : Nat} {accumulators : List LoopTokenAcc} {ctx : Ctx}
    {env : String → V} {frame : Frame}
    (collects : current.Collects base (accumulators.map root)) :
    (run.enter current (ctx.enterPass accumulators current.ctx.accs) env frame).Collects base
      (accumulators.map root) := by
  intro root member
  rcases collects root member with ⟨acc, isAcc, covers⟩
  refine ⟨acc, ?_, covers⟩
  simp only [Run.enter, Ctx.enterPass, Ctx.bindSerializedViews, Ctx.carry, if_pos member]
  exact isAcc

def passStart (run : Run V) (loopVar : Option String) (stmts : List BodyStmt) (pass : Nat) : Nat :=
  run.accesses.length + pass * (loopSites run loopVar stmts).length

/-- The accesses to a tensor in the passes before `pass`. -/
def Earlier (run : Run V) (loopVar : Option String) (stmts : List BodyStmt)
    (accesses : List (Access V)) (pass : Nat) (root : String) (id : Nat) : Prop :=
  id < passStart run loopVar stmts pass ∧ Reaches run.accesses.length accesses root id

structure Passed (execution : Execution V) (run : Run V) (loopVar : Option String)
    (stmts : List BodyStmt) (count : Nat) (current : Run V) : Prop where
  length : current.accesses.length = passStart run loopVar stmts count
  stores : ∀ pass < count, ∀ position (inSites : position < (loopSites run loopVar stmts).length),
    ∃ access, current.accesses[passStart run loopVar stmts pass + position]? = some access ∧
      ((loopSites run loopVar stmts).get ⟨position, inSites⟩).Matches execution
        (run.passEnv execution loopVar pass) (⟨run.regions, pass⟩ :: run.place)
        (Earlier run loopVar stmts current.accesses pass) access
  collects : current.Collects run.accesses.length
    ((loopAccumulators run loopVar stmts).map LoopTokenAcc.root)

theorem passStart_succ (run : Run V) (loopVar : Option String) (stmts : List BodyStmt)
    (pass : Nat) : passStart run loopVar stmts (pass + 1) =
      passStart run loopVar stmts pass + (loopSites run loopVar stmts).length := by
  simp only [passStart, Nat.add_mul]
  omega

theorem passStart_mono (run : Run V) (loopVar : Option String) (stmts : List BodyStmt)
    {pass later : Nat} (order : pass ≤ later) :
    passStart run loopVar stmts pass ≤ passStart run loopVar stmts later :=
  Nat.add_le_add_left (Nat.mul_le_mul_right _ order) _

theorem passed_zero :
    Passed execution run loopVar stmts 0
      { run with
        ctx := run.ctx.seed (loopAccumulators run loopVar stmts)
        regions := run.regions + 1 } where
  length := by simp [passStart]
  stores _ none := absurd none (Nat.not_lt_zero _)
  collects root member := by
    rcases List.mem_map.mp member with ⟨_, isAcc, rfl⟩
    rcases Ctx.seed_accs isAcc with ⟨token, isToken⟩
    refine ⟨token, isToken, fun id reaches => ?_⟩
    rcases reaches with ⟨inLoop, _, isAccess, _⟩
    exact absurd (List.getElem?_eq_some_iff.mp isAccess).1 (not_lt.mpr inLoop)

/-- Later passes do not change what an earlier pass stored. -/
theorem earlier_append {accesses : List (Access V)} (new : List (Access V)) {pass : Nat}
    (inside : passStart run loopVar stmts pass ≤ accesses.length) :
    Earlier run loopVar stmts (accesses ++ new) pass = Earlier run loopVar stmts accesses pass := by
  funext root id
  unfold Earlier Reaches
  by_cases early : id < passStart run loopVar stmts pass
  · rw [List.getElem?_append_left (Nat.lt_of_lt_of_le early inside)]
  · simp [early]

theorem Passed.step (wellFormed : run.WellFormed tensors)
    (isNamed : ∀ stmt ∈ stmts, stmt.Named tensors) {count : Nat}
    (passed : Passed execution run loopVar stmts count current)
    (runs : (loopBody stmts).run execution (run.enter current
      ((run.ctx.seed (loopAccumulators run loopVar stmts)).enterPass
        (loopAccumulators run loopVar stmts) current.ctx.accs)
      (run.passEnv execution loopVar count) ⟨run.regions, count⟩) = some after) :
    Passed execution run loopVar stmts (count + 1) after := by
  have inBody : run.accesses.length ≤ current.accesses.length := by
    rw [passed.length]
    exact Nat.le_add_right _ _
  have past : ∀ root id, Reaches run.accesses.length current.accesses root id →
      id < current.accesses.length := by
    rintro root id ⟨_, access, isAccess, _⟩
    exact (List.getElem?_eq_some_iff.mp isAccess).1
  have result := loopBody_run stmts runs (enterPass_follows wellFormed passed.collects)
    (wellFormed.named _) isNamed passed.collects.enterPass inBody past
  rcases result with ⟨new, appended, isMatching, collects⟩
  have isAppended : after.accesses = current.accesses ++ new := appended
  have newLength : new.length = (loopSites run loopVar stmts).length := isMatching.length_eq.symm
  refine ⟨?_, fun pass before position inSites => ?_, collects⟩
  · rw [isAppended, List.length_append, newLength, passStart_succ, passed.length]
  rw [isAppended]
  rcases Nat.lt_succ_iff_lt_or_eq.mp before with earlier | rfl
  · -- a store of an earlier pass
    rcases passed.stores pass earlier position inSites with ⟨access, isAccess, isMatch⟩
    have inside : passStart run loopVar stmts pass ≤ current.accesses.length := by
      rw [passed.length]
      exact passStart_mono run loopVar stmts (Nat.le_of_lt earlier)
    refine ⟨access, ?_, ?_⟩
    · exact (List.getElem?_append_left (List.getElem?_eq_some_iff.mp isAccess).1).trans isAccess
    · rwa [earlier_append new inside]
  · -- a store of this pass
    have inNew : position < new.length := newLength ▸ inSites
    refine ⟨new.get ⟨position, inNew⟩, ?_, ?_⟩
    · rw [← passed.length, List.getElem?_append_right (Nat.le_add_right _ _),
        Nat.add_sub_cancel_left]
      exact List.getElem?_eq_getElem inNew
    · have isMatch := isMatching.get inSites inNew
      refine ⟨isMatch.root, isMatch.stores, isMatch.place, fun id isEarlier => ?_⟩
      apply isMatch.reads
      rw [earlier_append new (le_of_eq passed.length.symm)] at isEarlier
      exact isEarlier.2

theorem passed_of_run (wellFormed : run.WellFormed tensors)
    (isNamed : ∀ stmt ∈ stmts, stmt.Named tensors)
    (runs : (Stmt.dimFor loopVar (loopBody stmts)).run execution run = some after) :
    ∃ inside, after.accesses = inside.accesses ∧
      Passed execution run loopVar stmts (execution.decision run.regions) inside := by
  simp only [Stmt.run, bind_eq_bind, bind_eq_some_iff] at runs
  rcases runs with ⟨inside, runsPasses, isAfter⟩
  refine ⟨inside, ?_, ?_⟩
  · cases isAfter
    rfl
  · clear isAfter
    generalize execution.decision run.regions = count at runsPasses
    induction count generalizing inside with
    | zero =>
      cases runsPasses
      exact passed_zero
    | succ _ induction =>
      simp only [passes, bind_eq_bind, bind_eq_some_iff] at runsPasses
      rcases runsPasses with ⟨current, runsEarlier, runsPass⟩
      exact (induction current runsEarlier).step wellFormed isNamed runsPass

/-- Every access of the loop is a store of the body in some pass. -/
theorem Passed.decode {count : Nat} (passed : Passed execution run loopVar stmts count current)
    {id : Nat} (inLoop : run.accesses.length ≤ id) (isAccess : id < current.accesses.length) :
    ∃ pass position, pass < count ∧ position < (loopSites run loopVar stmts).length ∧
      id = passStart run loopVar stmts pass + position := by
  have length := passed.length
  unfold passStart at length ⊢
  generalize (loopSites run loopVar stmts).length = size at length ⊢
  rcases Nat.eq_zero_or_pos size with rfl | positive
  · omega
  refine ⟨(id - run.accesses.length) / size, (id - run.accesses.length) % size, ?_,
    Nat.mod_lt _ positive, ?_⟩
  · rw [Nat.div_lt_iff_lt_mul positive]
    omega
  · have division := Nat.div_add_mod' (id - run.accesses.length) size
    omega

/-- A store follows the stores to its tensor in the earlier passes exactly when it is
chained. -/
theorem Site.Matches.reads_iff {pass later position : Nat} {other : Site}
    {earlier access : Access V} (order : pass < later)
    (inSites : position < (loopSites run loopVar stmts).length)
    (isEarlier : current.accesses[passStart run loopVar stmts pass + position]? = some earlier)
    (earlierRoot : earlier.root = other.root)
    (isMatch : other.Matches execution (run.passEnv execution loopVar later)
      (⟨run.regions, later⟩ :: run.place)
      (Earlier run loopVar stmts current.accesses later) access) :
    passStart run loopVar stmts pass + position ∈ access.reads ↔ other.chained = true := by
  apply isMatch.reads
  have next := passStart_mono run loopVar stmts (Nat.succ_le_of_lt order)
  rw [Nat.succ_eq_add_one, passStart_succ] at next
  refine ⟨by omega, ?_, earlier, isEarlier, earlierRoot⟩
  unfold passStart
  omega

/-- Two stores of a loop over a `Dim` or a mapped partition, in different passes and to the
same tile, are ordered exactly when no store that does not follow the accumulator hits the
tile of a store in an earlier pass. -/
theorem forked_stores_disjoint_iff (execution : Execution V) (loopVar : Option String)
    (stmts : List BodyStmt) (wellFormed : run.WellFormed tensors)
    (isNamed : ∀ stmt ∈ stmts, stmt.Named tensors)
    (runs : (Stmt.dimFor loopVar (loopBody stmts)).run execution run = some after) :
    (∀ first second earlier later, run.accesses.length ≤ first → first < second →
      after.accesses[first]? = some earlier → after.accesses[second]? = some later →
      earlier.place ≠ later.place → earlier.root = later.root → earlier.stores = later.stores →
      first ∈ later.reads) ↔
    ∀ pass later, pass < later → later < execution.decision run.regions →
      ∀ site ∈ loopSites run loopVar stmts, ∀ other ∈ loopSites run loopVar stmts,
        other.chained = false → site.root = other.root →
        site.index.eval execution (run.passEnv execution loopVar pass) ≠
          other.index.eval execution (run.passEnv execution loopVar later) := by
  rcases passed_of_run wellFormed isNamed runs with ⟨inside, sameAccesses, passed⟩
  rw [sameAccesses]
  constructor
  · intro ordered pass later order inLoop site isSite other isOther unchained sameRoot sameTile
    rcases List.get_of_mem isSite with ⟨⟨position, inSites⟩, rfl⟩
    rcases List.get_of_mem isOther with ⟨⟨place, placeInSites⟩, rfl⟩
    rcases passed.stores pass (order.trans inLoop) position inSites with
      ⟨earlier, isEarlier, earlierMatches⟩
    rcases passed.stores later inLoop place placeInSites with ⟨access, isLater, laterMatches⟩
    have follows := laterMatches.reads_iff order inSites isEarlier
      (earlierMatches.root.trans sameRoot)
    have next := passStart_mono run loopVar stmts (Nat.succ_le_of_lt order)
    rw [Nat.succ_eq_add_one, passStart_succ] at next
    have isOrdered := ordered _ _ earlier access (by unfold passStart; omega) (by omega) isEarlier
      isLater (by simp [earlierMatches.place, laterMatches.place, Nat.ne_of_lt order])
      (by rw [earlierMatches.root, laterMatches.root, sameRoot])
      (by rw [earlierMatches.stores, laterMatches.stores, sameTile])
    rw [follows, unchained] at isOrdered
    cases isOrdered
  · intro disjoint first second earlier later inLoop order isEarlier isLater otherPlace sameRoot
      sameTile
    have firstInside := (List.getElem?_eq_some_iff.mp isEarlier).1
    have secondInside := (List.getElem?_eq_some_iff.mp isLater).1
    rcases passed.decode inLoop firstInside with ⟨pass, position, inPasses, inSites, rfl⟩
    rcases passed.decode (inLoop.trans (Nat.le_of_lt order)) secondInside with
      ⟨laterPass, place, laterInPasses, placeInSites, rfl⟩
    rcases passed.stores pass inPasses position inSites with ⟨access, isAccess, earlierMatches⟩
    rcases passed.stores laterPass laterInPasses place placeInSites with
      ⟨laterAccess, isLaterAccess, laterMatches⟩
    rw [isAccess, some_inj] at isEarlier
    rw [isLaterAccess, some_inj] at isLater
    subst isEarlier isLater
    have passOrder : pass < laterPass := by
      rcases Nat.lt_trichotomy pass laterPass with before | rfl | after
      · exact before
      · exact absurd (earlierMatches.place.trans laterMatches.place.symm) otherPlace
      · have next := passStart_mono run loopVar stmts (Nat.succ_le_of_lt after)
        rw [Nat.succ_eq_add_one, passStart_succ] at next
        omega
    rw [earlierMatches.root, laterMatches.root] at sameRoot
    rw [laterMatches.reads_iff passOrder inSites isAccess (earlierMatches.root.trans sameRoot)]
    by_contra unchained
    rw [earlierMatches.stores, laterMatches.stores, some_inj] at sameTile
    exact disjoint pass laterPass passOrder laterInPasses _ (List.get_mem _ _) _ (List.get_mem _ _)
      (by simpa using unchained) sameRoot sameTile

end Loop

/-- Two passes over tile numbers, with the loop variable counting up. -/
def twoPasses : Execution Int where
  literal text := if text = "1" then 1 else if text = "2" then 2 else 0
  compound
    | .binary "+", [left, right] => left + right
    | .binary "/", [left, right] => left / right
    | _, _ => 0
  other _ _ := 0
  decision _ := 2
  iterand _ pass := pass

/-- A tensor `out` with a view `v`. -/
def oneView : Run Int where
  ctx :=
    { vars := fun name => if name = "out" ∨ name = "v" then some ⟨"out", ∅⟩ else none
      accs := fun _ => none
      carried := [] }
  env _ := 0
  place := []
  accesses := []
  regions := 0

theorem oneView_wellFormed : oneView.WellFormed {"out"} := by
  have isVar : ∀ name var, oneView.ctx.vars name = some var → var = ⟨"out", ∅⟩ := by
    intro name var isVar
    simp only [oneView, ite_eq_iff, some_inj] at isVar
    grind
  constructor
  · intro name var own id member
    rw [isVar name var own] at member
    cases member
  · intro name var own
    rw [isVar name var own]
    decide
  · intro name var own member
    rw [isVar name var own, mem_singleton.mp member]

/-- `for j in dim { v.store(tile, j); }` -/
theorem forked_stores_disjoint_iff_linear :
    ∃ after, (Stmt.dimFor (some "j") (loopBody [.store "v" (.path "j")])).run twoPasses oneView =
        some after ∧
      ∀ first second earlier later, 0 ≤ first → first < second →
        after.accesses[first]? = some earlier → after.accesses[second]? = some later →
        earlier.place ≠ later.place → earlier.root = later.root → earlier.stores = later.stores →
        first ∈ later.reads := by
  refine ⟨_, rfl, (forked_stores_disjoint_iff twoPasses (some "j") [.store "v" (.path "j")]
    oneView_wellFormed (by simp [BodyStmt.Named]) rfl).mpr ?_⟩
  intro pass later order inLoop site isSite other isOther _ _
  have sites : loopSites oneView (some "j") [.store "v" (.path "j")] =
      [⟨"out", .path "j", false⟩] := rfl
  rw [sites, List.mem_singleton] at isSite isOther
  subst isSite isOther
  have differs : (pass : Int) ≠ later := by omega
  simpa [IndexExpr.eval, Run.passEnv, twoPasses] using differs

/-- Stores in two passes to the same tile that both read the token from before the loop:
at `j / 2`; at `j + 1` in one pass and at `j` in the next; and at a fixed tile through a
view opened in the body. -/
theorem forked_stores_collide :
    ((Stmt.dimFor (some "j") (loopBody
        [.store "v" (.compound (.binary "/") (.cons (.path "j") (.cons (.literal "2") .nil)))])).run
      twoPasses oneView).map Run.accesses =
      some [⟨"out", some 0, [⟨0, 0⟩], ∅⟩, ⟨"out", some 0, [⟨0, 1⟩], ∅⟩] ∧
    ((Stmt.dimFor (some "j") (loopBody
        [.store "v" (.path "j"),
          .store "v" (.compound (.binary "+")
            (.cons (.path "j") (.cons (.literal "1") .nil)))])).run
      twoPasses oneView).map Run.accesses =
      some [⟨"out", some 0, [⟨0, 0⟩], ∅⟩, ⟨"out", some 1, [⟨0, 0⟩], {0}⟩,
        ⟨"out", some 1, [⟨0, 1⟩], ∅⟩, ⟨"out", some 2, [⟨0, 1⟩], {2}⟩] ∧
    ((Stmt.dimFor (some "j") (loopBody
        [.openView "w" "out", .store "w" (.literal "0")])).run twoPasses oneView).map Run.accesses =
      some [⟨"out", some 0, [⟨0, 0⟩], ∅⟩, ⟨"out", some 0, [⟨0, 1⟩], ∅⟩] := by
  decide

end CuTile.Tokens
