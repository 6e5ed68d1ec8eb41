import CuTile.Compiler.TokenCoverageSafety

/-! # The scope boundaries that tokens cross

The analysis is right about calls, loops and so about whole kernel bodies, and it would be
wrong about some body if it took tokens to cross any further kind of boundary by name.
-/

namespace CuTile.Tokens

open List

/-! ## Inlined calls -/

section Calls

variable {across : Bool} {anchors : String → List Frame} {knowledge : Knowledge} {run : Run V}

variable {accesses : List (Access V)}

theorem VarsKnown.isSome_eq {place : List Frame} {known : String → Option Known}
    {vars : String → Option Var} (varsKnown : VarsKnown across accesses place known vars)
    (name : String) : (known name).isSome = (vars name).isSome := by
  have related := varsKnown name
  generalize known name = isKnown, vars name = isVar at related
  cases related <;> rfl

section

variable (args : List (String × String))

include args

theorem VarsKnown.propagateAll {place : List Frame} {knowledge : Knowledge} {ctx : Ctx}
    (varsKnown : VarsKnown across accesses place knowledge.vars ctx.vars) :
    VarsKnown across accesses place
      (args.foldl (fun knowledge arg => knowledge.propagate arg.1) knowledge).vars
      (args.foldl (fun ctx arg => ctx.propagateTokenToRoot arg.1) ctx).vars := by
  induction args generalizing knowledge ctx with
  | nil => exact varsKnown
  | cons arg _ induction => exact induction (varsKnown.propagate arg.1)

theorem foldl_propagate (knowledge : Knowledge) :
    let after := args.foldl (fun knowledge arg => knowledge.propagate arg.1) knowledge
    after.accs = knowledge.accs ∧ after.carried = knowledge.carried ∧
      after.stored = knowledge.stored := by
  induction args generalizing knowledge with
  | nil => exact ⟨rfl, rfl, rfl⟩
  | cons arg _ induction => simpa using induction (knowledge.propagate arg.1)

theorem foldl_propagateTokenToRoot (ctx : Ctx) :
    let after := args.foldl (fun ctx arg => ctx.propagateTokenToRoot arg.1) ctx
    after.accs = ctx.accs ∧ after.carried = ctx.carried := by
  induction args generalizing ctx with
  | nil => exact ⟨rfl, rfl⟩
  | cons arg _ induction => simpa using induction (ctx.propagateTokenToRoot arg.1)

theorem foldl_accumulateLoopToken (ctx : Ctx) :
    let after := args.foldl (fun ctx arg => ctx.accumulateLoopToken arg.1) ctx
    after.vars = ctx.vars ∧ after.carried = ctx.carried := by
  induction args generalizing ctx with
  | nil => exact ⟨rfl, rfl⟩
  | cons arg _ induction => simpa using induction (ctx.accumulateLoopToken arg.1)

theorem AccsKnown.accumulateAll {known : String → Option Bool} {ctx : Ctx}
    (accsKnown : AccsKnown across accesses anchors known ctx.accs) :
    AccsKnown across accesses anchors known
      (args.foldl (fun ctx arg => ctx.accumulateLoopToken arg.1) ctx).accs := by
  induction args generalizing ctx with
  | nil => exact accsKnown
  | cons arg _ induction =>
    exact induction (accsKnown.grow (accumulateLoopToken_grows ctx arg.1))

end

theorem Holds.callee (holds : Holds across anchors knowledge run) (args : List (String × String)) :
    Holds across anchors (knowledge.callee args) { run with ctx := calleeCtx run.ctx args } := by
  refine ⟨fun name => ?_, fun root => .none, rfl, holds.anchored, holds.ordered⟩
  simp only [Knowledge.callee, calleeCtx]
  cases args.find? fun arg => arg.2 == name with
  | none => exact .none
  | some arg => exact holds.vars arg.1

theorem Sound.call {analyze : Knowledge → Option Knowledge} {body : Run V → Option (Run V)}
    (sound : Sound across analyze body) (holds : Holds across anchors knowledge run)
    (isMethod : Bool) (args : List (String × String)) {last : Knowledge}
    (isAnalyzed : analyze (knowledge.callee args) = some last) :
    ∃ inside, body { run with ctx := calleeCtx run.ctx args } = some inside ∧
      Advances across anchors knowledge
        (args.foldl (fun knowledge arg => knowledge.propagate arg.1)
          (knowledge.copyBack last fun name => (args.find? fun arg => arg.1 == name).map Prod.snd))
        run (run.leave inside (run.ctx.returnFrom inside.ctx isMethod args)) := by
  obtain ⟨inside, runs, advances⟩ := sound anchors _ last _ isAnalyzed (holds.callee args)
  obtain ⟨fresh, accesses, within⟩ := advances.fresh
  have insideVars := advances.holds.vars
  rw [accesses, advances.place] at insideVars
  set innerName := fun name => (args.find? fun arg : String × String => arg.1 == name).map Prod.snd
  obtain ⟨sameAccs, sameCarried, sameStored⟩ :=
    foldl_propagate args (knowledge.copyBack last innerName)
  obtain ⟨keptAccs, keptCarried⟩ :=
    foldl_propagateTokenToRoot args (Ctx.updateTypeMeta inside.ctx run.ctx innerName)
  have copied := (holds.vars.copyBack insideVars within.roots innerName).propagateAll args
  refine ⟨inside, runs, holds.leave accesses within advances.holds.ordered ?_ ?_ ?_ sameStored ?_⟩
  · unfold Ctx.returnFrom
    dsimp only
    split_ifs
    · rw [(foldl_accumulateLoopToken args _).1]
      exact copied
    · exact copied
  · have dropped := holds.accs.drop within.roots
    rw [sameAccs]
    unfold Ctx.returnFrom
    dsimp only
    split_ifs
    · apply AccsKnown.accumulateAll
      rw [keptAccs]
      exact dropped
    · rw [keptAccs]
      exact dropped
  · rw [sameCarried]
    unfold Ctx.returnFrom
    dsimp only
    split_ifs
    · rw [(foldl_accumulateLoopToken args _).2, keptCarried]
      exact holds.carried
    · rw [keptCarried]
      exact holds.carried
  · intro root
    rw [sameAccs]
    exact Option.isSome_map

end Calls

/-! ## Loops -/

/-- The loops of the compiler; those that carry no tokens have no accumulators. -/
def runLoop (accumulators : List LoopTokenAcc) (count : Nat) (env : Nat → String → V)
    (body : Run V → Option (Run V)) (run : Run V) : Option (Run V) := do
  let ctx := run.ctx.seed accumulators
  let inside ← passes count
    (fun pass current =>
      body (run.enter current (ctx.enterPass accumulators current.ctx.accs) (env pass)
        ⟨run.regions, pass⟩))
    { run with ctx, regions := run.regions + 1 }
  return run.leave inside
    ((ctx.carry (accumulators.map LoopTokenAcc.root) inside.ctx.accs).finish accumulators)

theorem runUncarried_eq_runLoop (count : Nat) (env : Nat → String → V)
    (body : Run V → Option (Run V)) (run : Run V) :
    runUncarried count env body run = runLoop [] count env body run := by
  simp [runUncarried, runLoop, Ctx.seed, Ctx.enterPass, Ctx.carry, Ctx.bindSerializedViews,
    Ctx.finish]

section Loops

variable {across : Bool} {anchors : String → List Frame} {knowledge last : Knowledge}
  {accumulators : List LoopTokenAcc} {accs : String → Option Bool} {run current : Run V}

/-- The accumulators that the loop owns are anchored where it stands. -/
def loopAnchors (anchors : String → List Frame) (accumulators : List LoopTokenAcc)
    (place : List Frame) (root : String) : List Frame :=
  if (accumulators.any fun acc => acc.owner && acc.root == root) then place else anchors root

theorem Holds.seed (holds : Holds across anchors knowledge run) (accumulators : List LoopTokenAcc) :
    AccsKnown across run.accesses (loopAnchors anchors accumulators run.place)
      (knowledge.seed accumulators) (run.ctx.seed accumulators).accs := by
  intro root
  simp only [loopAnchors, Knowledge.seed, Ctx.seed]
  split_ifs with isOwner
  · refine rel_map (holds.vars root) fun known var describes => ?_
    by_cases isCovered : known.origin = root ∧ known.covers.all = true
    · have covers := describes.2.enter (Subset.refl _)
      rw [← describes.1, isCovered.1, Coverage.enter, isCovered.2] at covers
      simpa [Gathers, isCovered] using covers
    · have notCovered : (known.origin == root && known.covers.all) = false := by
        simpa using isCovered
      rw [notCovered]
      exact Covers.empty
  · exact holds.accs root

/-- `accs` promises no more than the accumulators start with. -/
def Weaker (accs start : String → Option Bool) : Prop :=
  ∀ root, (accs root).isSome = (start root).isSome ∧
    (accs root = some true → start root = some true)

theorem AccsKnown.weaker {accesses : List (Access V)} {start : String → Option Bool}
    {tokens : String → Option Token} (accsKnown : AccsKnown across accesses anchors start tokens)
    (weaker : Weaker accs start) : AccsKnown across accesses anchors accs tokens := by
  intro root
  have sameAccs := (weaker root).1
  have yields := rel_gathers (accsKnown root) sameAccs.symm id fun own isOwn isTrue =>
    (weaker root).2 (isOwn.trans (congrArg some isTrue))
  simpa using yields

structure AfterPasses (across : Bool) (anchors : String → List Frame)
    (accumulators : List LoopTokenAcc) (accs : String → Option Bool) (stored : List String)
    (run : Run V) (count : Nat) (current : Run V) : Prop where
  fresh : ∃ fresh, current.accesses = run.accesses ++ fresh ∧ Within run.place stored fresh ∧
    ∀ access ∈ fresh, ∃ pass < count, ⟨run.regions, pass⟩ ∈ access.place
  accs : ∀ root ∈ accumulators.map LoopTokenAcc.root,
    Option.Rel
      (Gathers across current.accesses (loopAnchors anchors accumulators run.place root) root)
      (accs root) (current.ctx.accs root)
  ordered : Ordered across current.accesses

variable {stored : List String} {count : Nat}

/-- The stores of earlier passes do not count in a pass, for a tensor that is not stored to
or, without `across`, for any. -/
theorem not_requires_of_earlier {fresh : List (Access V)} {root : String}
    (within : Within run.place stored fresh)
    (earlier : ∀ access ∈ fresh, ∃ pass < count, ⟨run.regions, pass⟩ ∈ access.place)
    (notStored : across = true → root ∉ stored) :
    ∀ access ∈ fresh, access.root = root →
      ¬ Requires across (⟨run.regions, count⟩ :: run.place) access := by
  rintro access isFresh rfl ⟨stores, counts⟩
  rcases counts with isAcross | apart
  · exact notStored isAcross ((within access isFresh).2 stores)
  · obtain ⟨pass, isEarlier, inPlace⟩ := earlier access isFresh
    exact apart ⟨_, inPlace, _, mem_cons_self, rfl, Nat.ne_of_lt isEarlier⟩

/-- Inside a pass, the accumulators of other loops are anchored in the pass. -/
def passAnchors (anchors : String → List Frame) (accumulators : List LoopTokenAcc) (run : Run V)
    (pass : Nat) (root : String) : List Frame :=
  if root ∈ accumulators.map LoopTokenAcc.root then loopAnchors anchors accumulators run.place root
  else ⟨run.regions, pass⟩ :: run.place

theorem Holds.loopAnchors_subset (holds : Holds across anchors knowledge run)
    (accumulators : List LoopTokenAcc) (root : String) :
    loopAnchors anchors accumulators run.place root ⊆ run.place := by
  unfold loopAnchors
  split_ifs
  · exact Subset.refl _
  · exact holds.anchored root

/-- The token of an accumulator, where a variable takes it. -/
theorem AfterPasses.covers
    (after : AfterPasses across anchors accumulators accs stored run count current)
    {acc : LoopTokenAcc} (isAcc : acc ∈ accumulators) {place : List Frame}
    (inPlace : loopAnchors anchors accumulators run.place acc.root ⊆ place) {known : Known}
    {var : Var} (isOrigin : known.origin = var.origin) (ctx : Ctx) :
    Covers across current.accesses place var.origin
      (((ctx.carry (accumulators.map LoopTokenAcc.root) current.ctx.accs).accs acc.root).getD
        var.token)
      (.full (known.origin == acc.root && accs acc.root == some true)) := by
  by_cases gathers : known.origin = acc.root ∧ accs acc.root = some true
  · have isRoot : acc.root ∈ accumulators.map LoopTokenAcc.root := mem_map_of_mem isAcc
    have related := after.accs acc.root isRoot
    rw [gathers.2] at related
    simp only [Ctx.carry, if_pos isRoot]
    generalize current.ctx.accs acc.root = token at related
    cases related with
    | some gathered =>
      have covers := gathered.enter inPlace
      rw [← gathers.1, isOrigin] at covers
      simpa [gathers] using covers
  · have notGathers : (known.origin == acc.root && accs acc.root == some true) = false := by
      simpa using gathers
    rw [notGathers]
    exact Covers.empty

/-- A pass starts with what is known at the start of any pass. -/
theorem Holds.enterPass (holds : Holds across anchors knowledge run)
    (weaker : Weaker accs (knowledge.seed accumulators))
    (isStored : across = true → ∀ root ∈ stored, root ∈ accumulators.map LoopTokenAcc.root)
    (after : AfterPasses across anchors accumulators accs stored run count current)
    (env : String → V) :
    Holds across (passAnchors anchors accumulators run count)
      (knowledge.enterPass across accumulators accs)
      (run.enter current
        ((run.ctx.seed accumulators).enterPass accumulators current.ctx.accs) env
        ⟨run.regions, count⟩) := by
  obtain ⟨fresh, accesses, within, earlier⟩ := after.fresh
  have inPass : ∀ root, loopAnchors anchors accumulators run.place root ⊆
      ⟨run.regions, count⟩ :: run.place := fun root =>
    subset_cons_of_subset _ (holds.loopAnchors_subset accumulators root)
  refine ⟨fun name => ?_, fun root => ?_, rfl, fun root => ?_, after.ordered⟩
  · refine rel_map (holds.vars name) fun known var describes => ?_
    cases isFound : accumulators.find? fun acc => acc.serialize && acc.receivers.contains name with
    | some acc =>
      exact ⟨describes.1, after.covers (mem_of_find?_eq_some isFound) (inPass acc.root)
        describes.1 _⟩
    | none =>
      refine ⟨describes.1, ?_⟩
      simp only [Run.enter]
      split_ifs with isLost
      · exact .empty
      · rw [accesses]
        apply (describes.2.enter (subset_cons_self _ _)).append
        apply not_requires_of_earlier within earlier
        intro isAcross inStored
        rw [← describes.1] at inStored
        exact isLost ⟨isAcross, isStored isAcross _ inStored⟩
  · simp only [Knowledge.enterPass, Run.enter, Ctx.enterPass, Ctx.bindSerializedViews, Ctx.carry,
      passAnchors]
    split_ifs with isRoot
    · exact after.accs root isRoot
    · have seeded := (holds.seed accumulators).weaker weaker root
      generalize accs root = flag, (run.ctx.seed accumulators).accs root = token at seeded
      cases seeded with
      | none => exact .none
      | some gathered =>
        refine .some ?_
        rw [accesses]
        apply (gathered.enter (inPass root)).append
        apply not_requires_of_earlier within earlier
        intro isAcross inStored
        exact isRoot (isStored isAcross root inStored)
  · unfold passAnchors
    split_ifs
    · exact inPass root
    · exact Subset.refl _

variable {analyze : Knowledge → Option Knowledge} {body : Run V → Option (Run V)}

section

variable (sound : Sound across analyze body)
  (holds : Holds across anchors knowledge run)
  (weaker : Weaker accs (knowledge.seed accumulators))
  (isAnalyzed : analyze (knowledge.enterPass across accumulators accs) = some last)
  (keeps : ∀ acc ∈ accumulators, last.accs acc.root = accs acc.root)
  (isStored : across = true → ∀ root ∈ last.stored, root ∈ accumulators.map LoopTokenAcc.root)

include sound holds weaker isAnalyzed keeps isStored

theorem AfterPasses.succ
    (after : AfterPasses across anchors accumulators accs last.stored run count current)
    (env : String → V) :
    ∃ next, body (run.enter current
        ((run.ctx.seed accumulators).enterPass accumulators current.ctx.accs) env
        ⟨run.regions, count⟩) = some next ∧
      AfterPasses across anchors accumulators accs last.stored run (count + 1) next := by
  obtain ⟨next, runs, advances⟩ :=
    sound _ _ last _ isAnalyzed (holds.enterPass weaker isStored after env)
  obtain ⟨earlier, earlierAccesses, earlierWithin, inEarlier⟩ := after.fresh
  obtain ⟨fresh, accesses, within⟩ := advances.fresh
  refine ⟨next, runs, ⟨earlier ++ fresh, ?_, ?_, ?_⟩, ?_, advances.holds.ordered⟩
  · rw [accesses, ← append_assoc, ← earlierAccesses]
    rfl
  · intro access isFresh
    rcases mem_append.mp isFresh with isEarlier | isNew
    · exact earlierWithin access isEarlier
    · exact within.subset (subset_cons_self _ _) access isNew
  · intro access isFresh
    rcases mem_append.mp isFresh with isEarlier | isNew
    · obtain ⟨pass, order, inPlace⟩ := inEarlier access isEarlier
      exact ⟨pass, order.trans (Nat.lt_succ_self count), inPlace⟩
    · exact ⟨count, Nat.lt_succ_self count, (within access isNew).1 mem_cons_self⟩
  · intro root isRoot
    obtain ⟨acc, isAcc, rfl⟩ := mem_map.mp isRoot
    have gathered := advances.holds.accs acc.root
    rwa [keeps acc isAcc, passAnchors, if_pos isRoot] at gathered

theorem afterPasses_of_passes (env : Nat → String → V) (count : Nat) :
    ∃ current, passes count
        (fun pass current => body (run.enter current
          ((run.ctx.seed accumulators).enterPass accumulators current.ctx.accs) (env pass)
          ⟨run.regions, pass⟩))
        { run with ctx := run.ctx.seed accumulators, regions := run.regions + 1 } = some current ∧
      AfterPasses across anchors accumulators accs last.stored run count current := by
  induction count with
  | zero =>
    refine ⟨_, rfl, ⟨[], by simp, by simp [Within], by simp⟩, ?_, holds.ordered⟩
    intro root _
    exact (holds.seed accumulators).weaker weaker root
  | succ count induction =>
    obtain ⟨current, runs, after⟩ := induction
    obtain ⟨next, nextRuns, nextAfter⟩ :=
      after.succ sound holds weaker isAnalyzed keeps isStored (env count)
    refine ⟨next, ?_, nextAfter⟩
    simp only [passes, runs, Option.bind_eq_bind, Option.bind_some, nextRuns]

end

theorem AfterPasses.vars_finish (holds : Holds across anchors knowledge run)
    (after : AfterPasses across anchors accumulators accs last.stored run count current) :
    VarsKnown across current.accesses run.place (knowledge.afterLoop last accumulators accs).vars
      (((run.ctx.seed accumulators).carry (accumulators.map LoopTokenAcc.root)
        current.ctx.accs).finish accumulators).vars := by
  obtain ⟨fresh, accesses, within, -⟩ := after.fresh
  intro name
  refine rel_map (holds.vars name) fun known var describes => ?_
  cases isFound : accumulators.reverse.find?
      fun acc => acc.owner && (acc.root == name || acc.receivers.contains name) with
  | some acc =>
    have isAcc := mem_reverse.mp (mem_of_find?_eq_some isFound)
    exact ⟨describes.1, after.covers isAcc (holds.loopAnchors_subset accumulators acc.root)
      describes.1 _⟩
  | none =>
    rw [accesses]
    exact describes.drop within.roots

theorem AccsKnown.isSome_eq {accesses : List (Access V)} {known : String → Option Bool}
    {tokens : String → Option Token} (accsKnown : AccsKnown across accesses anchors known tokens)
    (root : String) : (known root).isSome = (tokens root).isSome := by
  have related := accsKnown root
  generalize known root = isKnown, tokens root = isToken at related
  cases related <;> rfl

/-- The loop drops the accumulators it owns and hands on those of a loop around it. -/
theorem AfterPasses.accs_finish (holds : Holds across anchors knowledge run)
    (weaker : Weaker accs (knowledge.seed accumulators))
    (isOwner : ∀ acc ∈ accumulators, acc.owner = (run.ctx.accs acc.root).isNone)
    (after : AfterPasses across anchors accumulators accs last.stored run count current) :
    AccsKnown across current.accesses anchors (knowledge.afterLoop last accumulators accs).accs
      (((run.ctx.seed accumulators).carry (accumulators.map LoopTokenAcc.root)
        current.ctx.accs).finish accumulators).accs := by
  obtain ⟨fresh, accesses, within, -⟩ := after.fresh
  intro root
  simp only [Knowledge.afterLoop, Ctx.finish, Ctx.carry]
  by_cases owned : (accumulators.any fun acc => acc.owner && acc.root == root) = true
  · have isNone : knowledge.accs root = none := by
      obtain ⟨acc, isAcc, owns⟩ := any_eq_true.mp owned
      simp only [Bool.and_eq_true, beq_iff_eq] at owns
      have notOuter := isOwner acc isAcc
      rw [owns.1, owns.2] at notOuter
      have sameAccs := holds.accs.isSome_eq root
      rw [Option.isNone_iff_eq_none.mp notOuter.symm] at sameAccs
      simpa using sameAccs
    rw [if_pos owned, isNone]
    exact .none
  · have startsOuter : knowledge.seed accumulators root = knowledge.accs root := by
      rw [Knowledge.seed, if_neg owned]
    rw [if_neg owned]
    split_ifs with isRoot
    · have gathered := after.accs root isRoot
      rw [loopAnchors, if_neg owned] at gathered
      apply rel_gathers gathered
      · rw [(weaker root).1, startsOuter]
      · intro own _ keeps
        simp only [Bool.and_eq_true, beq_iff_eq] at keeps
        exact keeps.2
    · rw [Ctx.seed]
      dsimp only
      rw [if_neg owned, accesses]
      exact holds.accs.drop within.roots root

theorem Sound.loop (sound : Sound across analyze body)
    (holds : Holds across anchors knowledge run)
    (isOwner : ∀ acc ∈ accumulators, acc.owner = (run.ctx.accs acc.root).isNone)
    {next : Knowledge}
    (isAnalyzed : analyzeLoop false across accumulators analyze knowledge = some next)
    (count : Nat) (env : Nat → String → V) :
    ∃ after, runLoop accumulators count env body run = some after ∧
      Advances across anchors knowledge next run after := by
  simp only [analyzeLoop, Bool.false_eq_true, if_false] at isAnalyzed
  obtain ⟨accs, isCandidate, isAnalyzed⟩ := exists_of_findSome?_eq_some isAnalyzed
  obtain ⟨_, isBody, isLeft⟩ := Option.bind_eq_some_iff.mp isAnalyzed
  have weaker : Weaker accs (knowledge.seed accumulators) := by
    intro _
    simp only [mem_cons, not_mem_nil, or_false] at isCandidate
    rcases isCandidate with rfl | rfl
    · exact ⟨rfl, id⟩
    · simp
  rw [Knowledge.leaveLoop, Option.ite_none_right_eq_some, Option.some_inj] at isLeft
  obtain ⟨⟨keeps, isStored⟩, rfl⟩ := isLeft
  obtain ⟨_, runs, after⟩ :=
    afterPasses_of_passes sound holds weaker isBody keeps isStored env count
  obtain ⟨fresh, accesses, within, -⟩ := after.fresh
  have vars := after.vars_finish holds
  have accsKnown := after.accs_finish holds weaker isOwner
  rw [accesses] at vars accsKnown
  refine ⟨_, by simp only [runLoop, runs, Option.bind_eq_bind, Option.bind_some]; rfl, ?_⟩
  apply holds.leave accesses within after.ordered vars accsKnown holds.carried rfl
  intro _
  exact Option.isSome_map

end Loops

/-! ## Whole bodies -/

section Bodies

variable {across : Bool} {anchors : String → List Frame} {knowledge next : Knowledge} {run : Run V}

theorem Ctx.setup_congr {ctx other : Ctx} (sameOrigin : ctx.origin = other.origin)
    (sameAccs : ∀ root, (ctx.accs root).isNone = (other.accs root).isNone)
    (stores : List StoreCall) :
    ctx.setupLoopTokenAccumulators stores = other.setupLoopTokenAccumulators stores := by
  have sameVars : ∀ root, (ctx.vars root).isSome = (other.vars root).isSome := by
    intro root
    have same := congrFun sameOrigin root
    simp only [Ctx.origin] at same
    rw [← Option.isSome_map, same, Option.isSome_map]
  simp only [Ctx.setupLoopTokenAccumulators, Ctx.storesTo, sameOrigin, sameAccs, sameVars]

theorem Holds.setup (holds : Holds across anchors knowledge run) (stores : List StoreCall) :
    knowledge.shape.setupLoopTokenAccumulators stores =
      run.ctx.setupLoopTokenAccumulators stores := by
  apply Ctx.setup_congr
  · funext name
    have related := holds.vars name
    simp only [Ctx.origin, Knowledge.shape, Option.map_map]
    generalize knowledge.vars name = isKnown, run.ctx.vars name = isVar at related
    cases related with
    | none => rfl
    | some describes => exact congrArg some describes.1
  · intro root
    have related := holds.accs root
    simp only [Knowledge.shape]
    generalize knowledge.accs root = isKnown, run.ctx.accs root = isAcc at related
    cases related <;> rfl

theorem Sound.ifElse {analyze analyzeElse : Knowledge → Option Knowledge}
    {body otherwise : Run V → Option (Run V)} (sound : Sound across analyze body)
    (soundElse : Sound across analyzeElse otherwise) (holds : Holds across anchors knowledge run)
    {first second : Knowledge} (isFirst : analyze knowledge.enterBranch = some first)
    (isSecond : analyzeElse knowledge.enterBranch = some second) (isTaken : Prop)
    [Decidable isTaken] :
    ∃ inside, (if isTaken then body run.enterBranch else otherwise run.enterBranch) = some inside ∧
      Advances across anchors knowledge (knowledge.leaveBranches first second false) run
        (run.leave inside (run.ctx.carry run.ctx.carried inside.ctx.accs)) := by
  split_ifs
  · obtain ⟨inside, runs, advances⟩ := sound anchors _ first _ isFirst holds.enterBranch
    exact ⟨inside, runs, holds.leaveBranches (.inl rfl) advances⟩
  · obtain ⟨inside, runs, advances⟩ := soundElse anchors _ second _ isSecond holds.enterBranch
    exact ⟨inside, runs, holds.leaveBranches (.inr rfl) advances⟩

mutual

theorem Stmt.sound (across : Bool) (execution : Execution V) (stmt : Stmt) :
    Sound across (stmt.analyze (fun _ => false) across) (stmt.run execution) := by
  intro anchors knowledge next run isAnalyzed holds
  match stmt with
  | .openView view tensor =>
    simp only [Stmt.analyze, Option.bind_eq_bind, Option.bind_eq_some_iff, Option.pure_def,
      Option.some_inj] at isAnalyzed
    obtain ⟨known, isKnown, rfl⟩ := isAnalyzed
    exact holds.openView isKnown
  | .store view index =>
    simp only [Stmt.analyze, Option.bind_eq_bind, Option.bind_eq_some_iff,
      Option.ite_none_right_eq_some, Option.some_inj] at isAnalyzed
    obtain ⟨known, isKnown, allowed, rfl⟩ := isAnalyzed
    exact holds.store isKnown allowed _
  | .load view =>
    simp only [Stmt.analyze, Option.bind_eq_bind, Option.bind_eq_some_iff,
      Option.ite_none_right_eq_some, Option.some_inj] at isAnalyzed
    obtain ⟨known, isKnown, allowed, rfl⟩ := isAnalyzed
    exact holds.load isKnown allowed
  | .block body | .unsafeBlock body =>
    simp only [Stmt.analyze, Option.bind_eq_bind, Option.bind_eq_some_iff, Option.pure_def,
      Option.some_inj] at isAnalyzed
    obtain ⟨last, isBody, rfl⟩ := isAnalyzed
    obtain ⟨inside, runs, advances⟩ := (Stmts.sound across execution body).block holds isBody
    exact ⟨_, by simp only [Stmt.run, runs, Option.bind_eq_bind, Option.bind_some]; rfl, advances⟩
  | .ifElse (some true) body _ | .ifElse (some false) _ body =>
    simp only [Stmt.analyze, Bool.false_eq_true, if_false, if_true, Option.bind_eq_bind,
      Option.bind_eq_some_iff, Option.pure_def, Option.some_inj] at isAnalyzed
    obtain ⟨last, isBody, rfl⟩ := isAnalyzed
    obtain ⟨inside, runs, advances⟩ := (Stmts.sound across execution body).knownBranch holds isBody
    refine ⟨_, ?_, advances⟩
    simp only [Run.enterBranch] at runs
    simp only [Stmt.run, Bool.false_eq_true, if_false, if_true, runs, Option.bind_eq_bind,
      Option.bind_some]
    rfl
  | .ifElse none body otherwise =>
    simp only [Stmt.analyze, Option.bind_eq_bind, Option.bind_eq_some_iff, Option.pure_def,
      Option.some_inj] at isAnalyzed
    obtain ⟨_, isFirst, _, isSecond, rfl⟩ := isAnalyzed
    obtain ⟨inside, runs, advances⟩ := (Stmts.sound across execution body).ifElse
      (Stmts.sound across execution otherwise) holds isFirst isSecond
      (execution.decision run.regions ≠ 0)
    refine ⟨_, ?_, advances⟩
    simp only [Run.enterBranch] at runs
    simp only [Stmt.run, Option.bind_eq_bind]
    split_ifs at runs ⊢
    · rw [runs]
      rfl
    · rw [runs]
      rfl
  | .rangeFor _ body | .whileLoop body | .loop body =>
    rw [Stmt.run, runUncarried_eq_runLoop]
    exact (Stmts.sound across execution body).loop holds (by simp) isAnalyzed _ _
  | .dimFor loopVar body =>
    rw [Stmt.analyze, holds.setup] at isAnalyzed
    exact (Stmts.sound across execution body).loop holds
      (fun acc isAcc => (Ctx.mem_setup isAcc).2.1) isAnalyzed _ _
  | .call isMethod args body =>
    rw [Stmt.analyze, Option.ite_none_right_eq_some] at isAnalyzed
    obtain ⟨allKnown, isAnalyzed⟩ := isAnalyzed
    obtain ⟨last, isBody, isNext⟩ := Option.bind_eq_some_iff.mp isAnalyzed
    rw [Option.pure_def, Option.some_inj] at isNext
    subst isNext
    simp only [holds.vars.isSome_eq] at allKnown
    obtain ⟨inside, runs, advances⟩ :=
      (Stmts.sound across execution body).call holds isMethod args isBody
    refine ⟨_, ?_, advances⟩
    simp only [Stmt.run, allKnown, if_true, runs, Option.bind_eq_bind, Option.bind_some]
    rfl

theorem Stmts.sound (across : Bool) (execution : Execution V) (stmts : Stmts) :
    Sound across (stmts.analyze (fun _ => false) across) (stmts.run execution) := by
  intro anchors knowledge next run isAnalyzed holds
  match stmts with
  | .nil =>
    rw [Stmts.analyze, Option.some_inj] at isAnalyzed
    subst isAnalyzed
    exact ⟨run, rfl, holds, rfl, Subset.refl _, fun _ => rfl, [], by simp, by simp [Within]⟩
  | .cons head tail =>
    simp only [Stmts.analyze, Option.bind_eq_bind, Option.bind_eq_some_iff] at isAnalyzed
    obtain ⟨middle, isHead, isTail⟩ := isAnalyzed
    obtain ⟨current, headRuns, headAdvances⟩ :=
      Stmt.sound across execution head anchors knowledge middle run isHead holds
    obtain ⟨after, tailRuns, tailAdvances⟩ :=
      Stmts.sound across execution tail anchors middle next current isTail headAdvances.holds
    refine ⟨after, ?_, headAdvances.trans tailAdvances⟩
    simp only [Stmts.run, headRuns, Option.bind_eq_bind, Option.bind_some, tailRuns]

end

end Bodies

/-! ## Which boundaries tokens cross -/

def Run.start (tensors : List String) (env : String → V) : Run V where
  ctx :=
    { vars := fun name => if name ∈ tensors then some ⟨name, ∅⟩ else none
      accs := fun _ => none
      carried := [] }
  env
  place := []
  accesses := []
  regions := 0

def Knowledge.start (tensors : List String) : Knowledge where
  vars name := if name ∈ tensors then some ⟨name, .full true⟩ else none
  accs _ := none
  carried := []
  stored := []

theorem Holds.start (across : Bool) (tensors : List String) (env : String → V) :
    Holds across (fun _ => []) (Knowledge.start tensors) (Run.start tensors env) := by
  refine ⟨fun name => ?_, fun root => .none, rfl, fun root => Subset.refl _, ?_⟩
  · simp only [Knowledge.start, Run.start]
    split_ifs
    · exact .some ⟨rfl, by simp [Covers]⟩
    · exact .none
  · simp [Ordered, Run.start]

/-- The analysis that takes tokens to cross the boundaries `assumed` accepts only bodies
whose runs are ordered. -/
def Reliable (assumed : Boundary → Bool) (across : Bool) : Prop :=
  ∀ (V : Type) (execution : Execution V) (env : String → V) (tensors : List String) (body : Stmts),
    (body.analyze assumed across (Knowledge.start tensors)).isSome →
      ∃ after, body.run execution (Run.start tensors env) = some after ∧
        Ordered across after.accesses

theorem reliable_of_none (across : Bool) : Reliable (fun _ => false) across := by
  intro _ execution env tensors body isAccepted
  obtain ⟨knowledge, isAnalyzed⟩ := Option.isSome_iff_exists.mp isAccepted
  obtain ⟨after, runs, advances⟩ := Stmts.sound across execution body _ _ knowledge _ isAnalyzed
    (Holds.start across tensors env)
  exact ⟨after, runs, advances.holds.ordered⟩

/-- A region with a store, of each kind. In the `Dim` loop it is in a block, which does not
hand on the accumulator. -/
def Boundary.region (stores : Stmts) : Boundary → Stmt
  | .knownBranch => .ifElse (some true) stores .nil
  | .unknownBranch => .ifElse none stores .nil
  | .rangeLoop => .rangeFor "i" stores
  | .whileLoop => .whileLoop stores
  | .loop => .loop stores
  | .dimLoop => .dimFor (some "i") (.cons (.block stores) .nil)

/-- A store in a region and a store after it, through the same view. -/
def Boundary.kernel (boundary : Boundary) : Stmts :=
  let store := Stmt.store "v" (.literal "0")
  .cons (.openView "v" "out") (.cons (boundary.region (.cons store .nil)) (.cons store .nil))

/-- One pass of the region, or its first branch. -/
def Boundary.once (boundary : Boundary) : Execution Unit where
  literal _ := ()
  compound _ _ := ()
  other _ _ := ()
  decision _ := if boundary = .loop then 0 else 1
  iterand _ _ := ()

theorem Boundary.kernel_accepted (boundary : Boundary) (assumed : Boundary → Bool) (across : Bool)
    (isAssumed : assumed boundary = true) :
    (boundary.kernel.analyze assumed across (Knowledge.start ["out"])).isSome := by
  cases boundary with
  | knownBranch =>
    simp only [Boundary.kernel, Boundary.region, Stmts.analyze, Stmt.analyze, isAssumed]
    rfl
  | unknownBranch =>
    simp only [Boundary.kernel, Boundary.region, Stmts.analyze, Stmt.analyze, isAssumed]
    rfl
  | rangeLoop | whileLoop | loop | dimLoop =>
    simp only [Boundary.kernel, Boundary.region, Stmts.analyze, Stmt.analyze, analyzeLoop,
      isAssumed]
    rfl

theorem Boundary.kernel_accesses (boundary : Boundary) :
    (boundary.kernel.run boundary.once (Run.start ["out"] fun _ => ())).map Run.accesses =
      some [⟨"out", some (), [⟨0, 0⟩], ∅⟩, ⟨"out", some (), [], ∅⟩] := by
  cases boundary <;> decide

theorem not_ordered_of_lost {across : Bool} {root : String} {frame : Frame} {tile : V} :
    ¬ Ordered across
      [⟨root, some tile, [frame], ∅⟩, ⟨root, some tile, [], ∅⟩] := by
  intro ordered
  have depends := ordered 0 1 _ _ Nat.zero_lt_one rfl rfl rfl
    ⟨rfl, .inr fun separated => by obtain ⟨_, _, _, inNil, _⟩ := separated; cases inNil⟩ (by simp)
  cases depends

/-- Stores in nested `Dim` loops, a later view of the tensor, and loads in a range loop are
accepted. -/
example :
    let loops := Stmt.dimFor (some "j") (.cons (.dimFor (some "k")
      (.cons (.store "v" (.path "k")) .nil)) .nil)
    let loads := Stmt.rangeFor "i" (.cons (.load "w") .nil)
    ((Stmts.cons (.openView "v" "out") (.cons loops (.cons (.openView "w" "out")
      (.cons loads (.cons (.store "w" (.literal "0")) .nil))))).analyze
        (fun _ => false) false (Knowledge.start ["out"])).isSome := by
  decide

end CuTile.Tokens
