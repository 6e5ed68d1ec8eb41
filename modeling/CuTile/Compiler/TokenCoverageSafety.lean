import CuTile.Compiler.TokenCoverage

/-! # What the coverage analysis promises

What the analysis knows about a context, and that single accesses, blocks and branches keep
it true of the run.
-/

namespace CuTile.Tokens

open Function Option Finset Ctx

/-! ## Ordered accesses -/

/-- In different passes of one loop. -/
def Separated (first second : List Frame) : Prop :=
  ∃ frame ∈ first, ∃ other ∈ second, frame.region = other.region ∧ frame.pass ≠ other.pass

instance (first second : List Frame) : Decidable (Separated first second) := by
  unfold Separated
  infer_instance

theorem Separated.mono {first second larger : List Frame} (subset : second ⊆ larger)
    (separated : Separated first second) : Separated first larger := by
  obtain ⟨frame, inFirst, other, inSecond, differs⟩ := separated
  exact ⟨frame, inFirst, other, subset inSecond, differs⟩

/-- Whether a store counts for an access at `place`. Without `across`, the stores in other
passes of the loops around the access do not. -/
def Requires (across : Bool) (place : List Frame) (access : Access V) : Prop :=
  access.stores.isSome ∧ (across = true ∨ ¬ Separated access.place place)

theorem Requires.mono {across : Bool} {place larger : List Frame} {access : Access V}
    (subset : place ⊆ larger) (required : Requires across larger access) :
    Requires across place access :=
  ⟨required.1, required.2.imp_right fun apart separated => apart (separated.mono subset)⟩

/-- Every access depends on the stores to its tensor before it that lie in another pass or
branch, or have been made before its own was entered. -/
def Ordered (across : Bool) (accesses : List (Access V)) : Prop :=
  ∀ (first second : Nat) (earlier later : Access V), first < second →
    accesses[first]? = some earlier → accesses[second]? = some later → earlier.root = later.root →
    Requires across later.place earlier → earlier.place ≠ later.place → first ∈ later.reads

/-- What the coverage promises about a token. -/
def Covers (across : Bool) (accesses : List (Access V)) (place : List Frame) (root : String)
    (token : Token) (coverage : Coverage) : Prop :=
  ∀ id access, accesses[id]? = some access → access.root = root → Requires across place access →
    coverage.all = true ∨ coverage.outside = true ∧ access.place ≠ place → id ∈ token

section Covers

variable {across : Bool} {accesses fresh : List (Access V)} {place larger : List Frame}
  {root : String} {token union : Token} {coverage : Coverage}

theorem Covers.empty : Covers across accesses place root token .empty := by
  intro _ _ _ _ _ covered
  simp [Coverage.empty] at covered

section

variable (covers : Covers across accesses place root token coverage)

include covers

theorem Covers.subset (grows : token ⊆ union) :
    Covers across accesses place root union coverage := by
  intro id access isAccess isRoot required covered
  exact grows (covers id access isAccess isRoot required covered)

theorem Covers.enter (subset : place ⊆ larger) :
    Covers across accesses larger root token coverage.enter := by
  intro id access isAccess isRoot required covered
  apply covers id access isAccess isRoot (required.mono subset)
  rcases covered with all | ⟨all, -⟩
  · exact .inl all
  · exact .inl all

theorem Covers.append
    (irrelevant : ∀ access ∈ fresh, access.root = root → ¬ Requires across place access) :
    Covers across (accesses ++ fresh) place root token coverage := by
  intro id access isAccess isRoot required covered
  by_cases isOld : id < accesses.length
  · rw [List.getElem?_append_left isOld] at isAccess
    exact covers id access isAccess isRoot required covered
  · rw [List.getElem?_append_right (Nat.le_of_not_lt isOld)] at isAccess
    exact absurd required (irrelevant access (List.mem_of_getElem? isAccess) isRoot)

theorem Covers.insert (access : Access V) :
    Covers across (accesses ++ [access]) place root (insert accesses.length token) coverage := by
  intro id other isAccess isRoot required covered
  by_cases isOld : id < accesses.length
  · rw [List.getElem?_append_left isOld] at isAccess
    exact mem_insert_of_mem (covers id other isAccess isRoot required covered)
  · have inside := (List.getElem?_eq_some_iff.mp isAccess).1
    rw [List.length_append, List.length_singleton] at inside
    exact mem_insert.mpr (.inl (by omega))

/-- A token that does not follow a store in the current pass or branch. -/
theorem Covers.stale {access : Access V} (isHere : access.place = place) :
    Covers across (accesses ++ [access]) place root token { coverage with all := false } := by
  intro id other isAccess isRoot required covered
  simp only [Bool.false_eq_true, false_or] at covered
  by_cases isOld : id < accesses.length
  · rw [List.getElem?_append_left isOld] at isAccess
    exact covers id other isAccess isRoot required (.inr covered)
  · rw [List.getElem?_append_right (Nat.le_of_not_lt isOld)] at isAccess
    have isNew := List.mem_singleton.mp (List.mem_of_getElem? isAccess)
    rw [isNew] at covered
    exact absurd isHere covered.2

end

end Covers

theorem Ordered.append {across : Bool} {accesses : List (Access V)} {access : Access V}
    {coverage : Coverage} (ordered : Ordered across accesses)
    (covers : Covers across accesses access.place access.root access.reads coverage)
    (allowed : coverage.allowsAccess = true) : Ordered across (accesses ++ [access]) := by
  intro first second earlier later order isEarlier isLater sameRoot required otherPlace
  have inside := (List.getElem?_eq_some_iff.mp isLater).1
  rw [List.length_append, List.length_singleton] at inside
  rw [List.getElem?_append_left (by omega)] at isEarlier
  by_cases isOld : second < accesses.length
  · rw [List.getElem?_append_left isOld] at isLater
    exact ordered first second earlier later order isEarlier isLater sameRoot required otherPlace
  · have isLast : second = accesses.length := by omega
    rw [isLast, List.getElem?_concat_length, some_inj] at isLater
    subst isLater
    apply covers first earlier isEarlier sameRoot required
    simp only [Coverage.allowsAccess, Bool.or_eq_true] at allowed
    exact allowed.imp_right fun outside => ⟨outside, otherPlace⟩

/-! ## What is known about a run -/

theorem rel_map {α β γ δ : Type} {relation : α → β → Prop} {image : γ → δ → Prop}
    {left : Option α} {right : Option β} {f : α → γ} {g : β → δ}
    (related : Rel relation left right)
    (keeps : ∀ a b, relation a b → image (f a) (g b)) :
    Rel image (left.map f) (right.map g) := by
  cases related with
  | some holds => exact .some (keeps _ _ holds)
  | none => exact .none

theorem rel_map_left {α β γ : Type} {relation : α → β → Prop} {image : γ → β → Prop}
    {left : Option α} {right : Option β} {f : α → γ} (related : Rel relation left right)
    (keeps : ∀ a b, relation a b → image (f a) b) : Rel image (left.map f) right := by
  cases related with
  | some holds => exact .some (keeps _ _ holds)
  | none => exact .none

def Known.Describes (across : Bool) (accesses : List (Access V)) (place : List Frame)
    (known : Known) (var : Var) : Prop :=
  known.origin = var.origin ∧ Covers across accesses place var.origin var.token known.covers

def VarsKnown (across : Bool) (accesses : List (Access V)) (place : List Frame)
    (known : String → Option Known) (vars : String → Option Var) : Prop :=
  ∀ name, Option.Rel (Known.Describes across accesses place) (known name) (vars name)

/-- An accumulator that gathers has all stores that count at its anchor. -/
def Gathers (across : Bool) (accesses : List (Access V)) (anchor : List Frame) (root : String)
    (gathers : Bool) (token : Token) : Prop :=
  Covers across accesses anchor root token (.full gathers)

def AccsKnown (across : Bool) (accesses : List (Access V)) (anchors : String → List Frame)
    (known : String → Option Bool) (accs : String → Option Token) : Prop :=
  ∀ root, Option.Rel (Gathers across accesses (anchors root) root) (known root) (accs root)

structure Holds (across : Bool) (anchors : String → List Frame) (knowledge : Knowledge)
    (run : Run V) : Prop where
  vars : VarsKnown across run.accesses run.place knowledge.vars run.ctx.vars
  accs : AccsKnown across run.accesses anchors knowledge.accs run.ctx.accs
  carried : knowledge.carried = run.ctx.carried
  anchored : ∀ root, anchors root ⊆ run.place
  ordered : Ordered across run.accesses

/-- New accesses of a region: they lie in it, and their tensors are known. -/
def Within (place : List Frame) (stored : List String) (fresh : List (Access V)) : Prop :=
  ∀ access ∈ fresh, place ⊆ access.place ∧ (access.stores.isSome → access.root ∈ stored)

structure Advances (across : Bool) (anchors : String → List Frame) (knowledge next : Knowledge)
    (run after : Run V) : Prop where
  holds : Holds across anchors next after
  place : after.place = run.place
  stored : knowledge.stored ⊆ next.stored
  accs : ∀ root, (next.accs root).isSome = (knowledge.accs root).isSome
  fresh : ∃ fresh, after.accesses = run.accesses ++ fresh ∧ Within run.place next.stored fresh

theorem Advances.trans {across : Bool} {anchors : String → List Frame}
    {knowledge middle next : Knowledge} {run current after : Run V}
    (first : Advances across anchors knowledge middle run current)
    (second : Advances across anchors middle next current after) :
    Advances across anchors knowledge next run after := by
  obtain ⟨fresh, accesses, within⟩ := first.fresh
  obtain ⟨later, laterAccesses, laterWithin⟩ := second.fresh
  refine ⟨second.holds, second.place.trans first.place,
    List.Subset.trans first.stored second.stored,
    fun root => (second.accs root).trans (first.accs root), fresh ++ later, ?_, ?_⟩
  · rw [laterAccesses, accesses, List.append_assoc]
  · intro access isFresh
    rcases List.mem_append.mp isFresh with isEarlier | isLater
    · exact ⟨(within access isEarlier).1, fun stores =>
        second.stored ((within access isEarlier).2 stores)⟩
    · rw [← first.place]
      exact laterWithin access isLater

/-! ## Variables -/

section Vars

variable {across : Bool} {accesses fresh : List (Access V)} {place : List Frame}
  {knowledge inside : Knowledge} {ctx inner : Ctx} {name : String} {known : Known} {var : Var}

theorem VarsKnown.get {vars : String → Option Known} {concrete : String → Option Var}
    (varsKnown : VarsKnown across accesses place vars concrete) (isKnown : vars name = some known) :
    ∃ var, concrete name = some var ∧ known.Describes across accesses place var := by
  have related := varsKnown name
  rw [isKnown] at related
  generalize concrete name = found at related
  cases related with
  | some holds => exact ⟨_, rfl, holds⟩

theorem Known.Describes.take {source : Var}
    (describes : known.Describes across accesses place source)
    {target : Known} (isOrigin : target.origin = var.origin) :
    (target.take known).Describes across accesses place { var with token := source.token } := by
  refine ⟨isOrigin, ?_⟩
  simp only [Known.take]
  split_ifs with sameOrigin
  · have covers := describes.2
    rwa [← describes.1, sameOrigin, isOrigin] at covers
  · exact .empty

/-- After accesses of a region whose tokens are lost. -/
theorem Known.Describes.drop {stored : List String}
    (describes : known.Describes across accesses place var)
    (within : ∀ access ∈ fresh, access.stores.isSome → access.root ∈ stored) :
    (known.drop stored).Describes across (accesses ++ fresh) place var := by
  unfold Known.drop
  split_ifs with isStored
  · exact ⟨describes.1, .empty⟩
  · refine ⟨describes.1, describes.2.append fun access isFresh isRoot required => isStored ?_⟩
    rw [describes.1, ← isRoot]
    exact within access isFresh required.1

section

variable (varsKnown : VarsKnown across accesses place knowledge.vars ctx.vars)

include varsKnown

theorem VarsKnown.propagate (name : String) :
    VarsKnown across accesses place (knowledge.propagate name).vars
      (ctx.propagateTokenToRoot name).vars := by
  have related := varsKnown name
  unfold Knowledge.propagate propagateTokenToRoot
  generalize knowledge.vars name = isKnown, ctx.vars name = isVar at related
  cases related with
  | none => exact varsKnown
  | @some _ var describes =>
    dsimp only
    rw [describes.1]
    split_ifs with isRoot
    · exact varsKnown
    · intro other
      by_cases same : other = var.origin
      · subst same
        simp only [update_self, setViewToken]
        exact rel_map (varsKnown var.origin) fun _ _ own => describes.take own.1
      · simp only [update_of_ne same, setViewToken]
        exact varsKnown other

theorem VarsKnown.drop {stored : List String}
    (within : ∀ access ∈ fresh, access.stores.isSome → access.root ∈ stored) :
    VarsKnown across (accesses ++ fresh) place (knowledge.drop stored).vars ctx.vars := by
  intro name
  exact rel_map_left (varsKnown name) fun _ _ describes => describes.drop within

theorem VarsKnown.copyBack
    (insideKnown : VarsKnown across (accesses ++ fresh) place inside.vars inner.vars)
    (within : ∀ access ∈ fresh, access.stores.isSome → access.root ∈ inside.stored)
    (innerName : String → Option String) :
    VarsKnown across (accesses ++ fresh) place (knowledge.copyBack inside innerName).vars
      (updateTypeMeta inner ctx innerName).vars := by
  intro name
  refine rel_map (varsKnown name) fun known var describes => ?_
  have dropped := describes.drop within
  cases innerName name with
  | none => exact dropped
  | some own =>
    have related := insideKnown own
    simp only [bind_some]
    generalize inside.vars own = isKnown, inner.vars own = isVar at related
    cases related with
    | none => exact dropped
    | some ownDescribes => exact ownDescribes.take describes.1

theorem VarsKnown.enter {frame : Frame} :
    VarsKnown across accesses (frame :: place) knowledge.enterBranch.vars ctx.vars := by
  intro name
  refine rel_map_left (varsKnown name) fun known var describes => ?_
  exact ⟨describes.1, describes.2.enter (List.subset_cons_self _ _)⟩

end

end Vars

/-! ## Accumulators -/

section Accs

variable {across : Bool} {accesses fresh : List (Access V)} {anchors : String → List Frame}
  {known : String → Option Bool} {accs grown : String → Option Token} {ctx : Ctx}

theorem AccsKnown.grow (accsKnown : AccsKnown across accesses anchors known accs)
    (grows : ∀ root, Rel (· ⊆ ·) (accs root) (grown root)) :
    AccsKnown across accesses anchors known grown := by
  intro root
  have related := accsKnown root
  have larger := grows root
  generalize known root = isKnown, accs root = isAcc, grown root = isGrown at related larger
  cases related with
  | none =>
    cases larger
    exact .none
  | some gathers =>
    cases larger with
    | some subset => exact .some (gathers.subset subset)

theorem accumulateLoopToken_grows (ctx : Ctx) (name root : String) :
    Rel (· ⊆ ·) (ctx.accs root) ((ctx.accumulateLoopToken name).accs root) := by
  have same : ∀ acc : Option Token, Rel (· ⊆ ·) acc acc := by
    intro acc
    cases acc with
    | none => exact .none
    | some => exact .some subset_rfl
  cases isVar : ctx.vars name with
  | none =>
    simp only [accumulateLoopToken, isVar]
    exact same _
  | some =>
    rw [accumulateLoopToken_accs isVar]
    split_ifs
    · cases ctx.accs root with
      | none => exact .none
      | some => exact .some subset_union_left
    · exact same _

/-- After accesses of a region whose accumulators are lost. -/
theorem AccsKnown.drop {stored : List String}
    (accsKnown : AccsKnown across accesses anchors known accs)
    (within : ∀ access ∈ fresh, access.stores.isSome → access.root ∈ stored) :
    AccsKnown across (accesses ++ fresh) anchors
      (fun root => (known root).map fun gathers => gathers && !stored.contains root) accs := by
  intro root
  refine rel_map_left (accsKnown root) fun gathers token gathered => ?_
  by_cases isStored : root ∈ stored
  · rw [List.contains_iff_mem.mpr isStored, Bool.not_true, Bool.and_false]
    exact Covers.empty
  · have notContained : stored.contains root = false := by simpa using isStored
    rw [notContained, Bool.not_false, Bool.and_true]
    apply Covers.append gathered
    intro access isFresh isRoot required
    exact isStored (isRoot ▸ within access isFresh required.1)

/-- What is known about an accumulator that a region hands on. -/
theorem rel_gathers {gathers outer : Option Bool} {acc : Option Token} {anchor : List Frame}
    {root : String} (related : Rel (Gathers across accesses anchor root) gathers acc)
    (sameAccs : gathers.isSome = outer.isSome) (flag : Bool → Bool)
    (keeps : ∀ own, outer = some own → flag own = true → gathers = some true) :
    Rel (Gathers across accesses anchor root) (outer.map flag) acc := by
  cases related with
  | none =>
    cases outer with
    | none => exact .none
    | some => cases sameAccs
  | some gathered =>
    cases outer with
    | none => cases sameAccs
    | some own =>
      refine .some ?_
      cases isFlag : flag own with
      | false => exact Covers.empty
      | true =>
        have isTrue := keeps own rfl isFlag
        rw [some_inj] at isTrue
        rwa [isTrue] at gathered

end Accs

/-! ## Statements without regions -/

section Access

variable {across : Bool} {anchors : String → List Frame} {knowledge : Knowledge} {run : Run V}
  {view : String} {known : Known} {var : Var}

theorem Holds.openView (holds : Holds across anchors knowledge run) {tensor : String}
    (isKnown : knowledge.vars tensor = some known) :
    ∃ after, run.openView view tensor = some after ∧ Advances across anchors knowledge
      { knowledge with vars := update knowledge.vars view (some known) } run after := by
  obtain ⟨var, isVar, describes⟩ := holds.vars.get isKnown
  refine ⟨_, Run.openView_eq_some_iff.mpr ⟨var, isVar, rfl⟩, ?_⟩
  refine ⟨⟨?_, ?_, ?_, holds.anchored, holds.ordered⟩, rfl, List.Subset.refl _, fun _ => rfl, [],
    ?_⟩
  · intro name
    by_cases same : name = view
    · subst same
      simp only [update_self]
      exact .some describes
    · simp only [update_of_ne same]
      exact holds.vars name
  · exact holds.accs.grow (accumulateLoopToken_grows run.ctx tensor)
  · simpa using holds.carried
  · simp [Within]

theorem AccsKnown.access
    (accsKnown : AccsKnown across run.accesses anchors knowledge.accs run.ctx.accs)
    (isVar : run.ctx.vars view = some var) (stores : Option V) :
    AccsKnown across (run.accesses ++ [⟨var.origin, stores, run.place, var.token⟩]) anchors
      knowledge.accs (run.accessCtx view var stores).accs := by
  intro root
  rw [Run.accessCtx_accs isVar]
  split_ifs with isRoot
  · have related := accsKnown root
    generalize knowledge.accs root = isKnown, run.ctx.accs root = isAcc at related
    cases related with
    | none => exact .none
    | some gathers =>
      refine .some ((gathers.insert _).subset ?_)
      intro _ member
      simp only [mem_insert, mem_union] at member ⊢
      tauto
  · have related := accsKnown root
    generalize knowledge.accs root = isKnown, run.ctx.accs root = isAcc at related
    cases related with
    | none => exact .none
    | some gathers =>
      refine .some (Covers.append gathers ?_)
      intro _ isNew sameRoot
      rw [List.mem_singleton.mp isNew] at sameRoot
      exact absurd sameRoot.symm isRoot

/-- The variables after the view's token has followed an access in the current pass or
branch; `next` is what is known about the others. -/
theorem VarsKnown.setViewToken
    (varsKnown : VarsKnown across run.accesses run.place knowledge.vars run.ctx.vars)
    (isVar : run.ctx.vars view = some var) (access : Access V) (next : String → Known → Known)
    (isView : ∀ known, next view known = known)
    (others : ∀ name known other, name ≠ view →
      known.Describes across run.accesses run.place other →
      (next name known).Describes across (run.accesses ++ [access]) run.place other) :
    VarsKnown across (run.accesses ++ [access]) run.place
      (fun name => (knowledge.vars name).map (next name))
      (run.ctx.setViewToken view (insert run.accesses.length var.token)).vars := by
  intro name
  by_cases same : name = view
  · subst same
    rw [setViewToken_vars_self isVar]
    have related := varsKnown name
    rw [isVar] at related
    dsimp only
    generalize knowledge.vars name = isKnown at related
    cases related with
    | some describes =>
      rw [map_some, isView]
      exact .some ⟨describes.1, describes.2.insert access⟩
  · rw [setViewToken_vars_of_ne same]
    exact rel_map_left (varsKnown name) fun known other describes =>
      others name known other same describes

section

variable (holds : Holds across anchors knowledge run)

include holds

theorem Holds.access (isVar : run.ctx.vars view = some var)
    (describes : known.Describes across run.accesses run.place var)
    (allowed : known.covers.allowsAccess = true) {stores : Option V} {next : Knowledge}
    (nextVars : VarsKnown across (run.accesses ++ [⟨var.origin, stores, run.place, var.token⟩])
      run.place next.vars (run.accessCtx view var stores).vars)
    (sameAccs : next.accs = knowledge.accs) (sameCarried : next.carried = knowledge.carried)
    (stored : knowledge.stored ⊆ next.stored)
    (isStored : stores.isSome → var.origin ∈ next.stored) :
    ∃ after, run.access view stores = some after ∧
      Advances across anchors knowledge next run after := by
  refine ⟨_, Run.access_eq_some_iff.mpr ⟨var, isVar, rfl⟩, ?_⟩
  refine ⟨⟨nextVars, ?_, ?_, holds.anchored, ?_⟩, rfl, stored, fun root => by rw [sameAccs],
    _, rfl, ?_⟩
  · rw [sameAccs]
    exact holds.accs.access isVar stores
  · rw [sameCarried, Run.accessCtx_carried]
    exact holds.carried
  · exact holds.ordered.append describes.2 allowed
  · intro access isNew
    rw [List.mem_singleton.mp isNew]
    exact ⟨List.Subset.refl _, isStored⟩

section

variable (isKnown : knowledge.vars view = some known) (allowed : known.covers.allowsAccess = true)

include isKnown allowed

theorem Holds.load :
    ∃ after, run.access view none = some after ∧
      Advances across anchors knowledge knowledge run after := by
  obtain ⟨var, isVar, describes⟩ := holds.vars.get isKnown
  apply holds.access isVar describes allowed _ rfl rfl (List.Subset.refl _) (by simp)
  have advanced := holds.vars.setViewToken isVar ⟨var.origin, none, run.place, var.token⟩
    (fun _ known => known) (fun _ => rfl) ?_
  · simpa [Run.accessCtx_vars] using advanced
  · intro name own other _ ownDescribes
    refine ⟨ownDescribes.1, ownDescribes.2.append ?_⟩
    intro _ isNew _ required
    rw [List.mem_singleton.mp isNew] at required
    exact absurd required.1 (by simp)

theorem Holds.store (tile : V) :
    ∃ after, run.access view (some tile) = some after ∧ Advances across anchors knowledge
      ((knowledge.store view known.origin).propagate view) run after := by
  obtain ⟨_, isVar, describes⟩ := holds.vars.get isKnown
  apply holds.access isVar describes allowed
  · rw [Run.accessCtx_vars]
    apply VarsKnown.propagate
    apply holds.vars.setViewToken isVar
    · simp
    · intro name own other isOther ownDescribes
      split_ifs with sameRoot
      · exact ⟨ownDescribes.1, ownDescribes.2.stale rfl⟩
      · refine ⟨ownDescribes.1, ownDescribes.2.append ?_⟩
        intro _ isNew isRoot
        rw [List.mem_singleton.mp isNew] at isRoot
        exact absurd ⟨isOther, by rw [ownDescribes.1, ← isRoot, describes.1]⟩ sameRoot
  · simp [Knowledge.store]
  · simp [Knowledge.store]
  · simp [Knowledge.store]
  · simp [Knowledge.store, describes.1]

end

end

end Access

/-! ## Regions -/

/-- The analysis is right about a body: it runs, and what is known afterwards holds. -/
def Sound (across : Bool) (analyze : Knowledge → Option Knowledge) (body : Run V → Option (Run V)) :
    Prop :=
  ∀ anchors knowledge next run, analyze knowledge = some next → Holds across anchors knowledge run →
    ∃ after, body run = some after ∧ Advances across anchors knowledge next run after

section Regions

variable {across : Bool} {anchors : String → List Frame} {knowledge next : Knowledge}
  {run inside : Run V} {fresh : List (Access V)} {stored : List String} {ctx : Ctx}

theorem Within.subset {place larger : List Frame} (within : Within larger stored fresh)
    (subset : place ⊆ larger) : Within place stored fresh := by
  intro access isFresh
  exact ⟨List.Subset.trans subset (within access isFresh).1, (within access isFresh).2⟩

theorem Within.roots {place : List Frame} (within : Within place stored fresh) :
    ∀ access ∈ fresh, access.stores.isSome → access.root ∈ stored :=
  fun access isFresh => (within access isFresh).2

section

variable (holds : Holds across anchors knowledge run)
  (accesses : inside.accesses = run.accesses ++ fresh)
  (within : Within run.place stored fresh)
  (ordered : Ordered across inside.accesses)

include holds accesses within ordered

theorem Holds.leave (vars : VarsKnown across (run.accesses ++ fresh) run.place next.vars ctx.vars)
    (accs : AccsKnown across (run.accesses ++ fresh) anchors next.accs ctx.accs)
    (carried : next.carried = ctx.carried) (isStored : next.stored = stored ++ knowledge.stored)
    (sameAccs : ∀ root, (next.accs root).isSome = (knowledge.accs root).isSome) :
    Advances across anchors knowledge next run (run.leave inside ctx) := by
  refine ⟨⟨?_, ?_, carried, holds.anchored, ordered⟩, rfl, ?_, sameAccs, fresh, accesses, ?_⟩
  · simpa only [Run.leave, accesses] using vars
  · simpa only [Run.leave, accesses] using accs
  · rw [isStored]
    exact List.subset_append_right _ _
  · intro access isFresh
    refine ⟨(within access isFresh).1, fun stores => ?_⟩
    rw [isStored]
    exact List.mem_append_left _ ((within access isFresh).2 stores)

theorem Holds.leave_drop :
    Advances across anchors knowledge (knowledge.drop stored) run (run.leave inside run.ctx) := by
  apply holds.leave accesses within ordered
  · exact holds.vars.drop within.roots
  · exact holds.accs.drop within.roots
  · exact holds.carried
  · rfl
  · intro root
    exact isSome_map

end

theorem Sound.block {analyze : Knowledge → Option Knowledge} {body : Run V → Option (Run V)}
    (sound : Sound across analyze body) (holds : Holds across anchors knowledge run)
    {last : Knowledge} (isAnalyzed : analyze { knowledge with stored := [] } = some last) :
    ∃ inside, body run = some inside ∧
      Advances across anchors knowledge (knowledge.copyBack last some) run
        (run.leave inside (updateTypeMeta inside.ctx run.ctx some)) := by
  have entered : Holds across anchors { knowledge with stored := [] } run :=
    { holds with }
  obtain ⟨inside, runs, advances⟩ := sound anchors _ last run isAnalyzed entered
  obtain ⟨fresh, accesses, within⟩ := advances.fresh
  have insideVars := advances.holds.vars
  rw [accesses, advances.place] at insideVars
  refine ⟨inside, runs, holds.leave accesses within advances.holds.ordered ?_ ?_ ?_ rfl ?_⟩
  · exact holds.vars.copyBack insideVars within.roots some
  · exact holds.accs.drop within.roots
  · exact holds.carried
  · intro root
    exact isSome_map

def Run.enterBranch (run : Run V) : Run V :=
  run.enter { run with regions := run.regions + 1 } run.ctx run.env ⟨run.regions, 0⟩

theorem Holds.enterBranch (holds : Holds across anchors knowledge run) :
    Holds across anchors knowledge.enterBranch run.enterBranch := by
  refine ⟨holds.vars.enter, holds.accs, holds.carried, fun root => ?_, holds.ordered⟩
  exact List.subset_cons_of_subset _ (holds.anchored root)

theorem Sound.knownBranch {analyze : Knowledge → Option Knowledge} {body : Run V → Option (Run V)}
    (sound : Sound across analyze body) (holds : Holds across anchors knowledge run)
    {last : Knowledge} (isAnalyzed : analyze knowledge.enterBranch = some last) :
    ∃ inside, body run.enterBranch = some inside ∧
      Advances across anchors knowledge (knowledge.leaveBranch last false) run
        (run.leave inside run.ctx) := by
  obtain ⟨inside, runs, advances⟩ := sound anchors _ last _ isAnalyzed holds.enterBranch
  obtain ⟨fresh, accesses, within⟩ := advances.fresh
  refine ⟨inside, runs, holds.leave_drop accesses ?_ advances.holds.ordered⟩
  exact within.subset (List.subset_cons_self _ _)

/-- Leaving the branch `taken` of two: its accumulators are yielded. -/
theorem Holds.leaveBranches (holds : Holds across anchors knowledge run)
    {first second taken : Knowledge} (isBranch : taken = first ∨ taken = second)
    (advances : Advances across anchors knowledge.enterBranch taken run.enterBranch inside) :
    Advances across anchors knowledge (knowledge.leaveBranches first second false) run
      (run.leave inside (run.ctx.carry run.ctx.carried inside.ctx.accs)) := by
  obtain ⟨fresh, accesses, within⟩ := advances.fresh
  have within : Within run.place (first.stored ++ second.stored) fresh := by
    intro access isFresh
    have inBranch := List.Subset.trans (List.subset_cons_self _ _) (within access isFresh).1
    refine ⟨inBranch, fun stores => ?_⟩
    have isStored := (within access isFresh).2 stores
    rcases isBranch with rfl | rfl
    · exact List.mem_append_left _ isStored
    · exact List.mem_append_right _ isStored
  apply holds.leave accesses within advances.holds.ordered
  · exact holds.vars.drop within.roots
  · intro root
    simp only [Knowledge.leaveBranches, Bool.false_eq_true, if_false, carry, ← holds.carried]
    split_ifs with isCarried
    · have gathered := advances.holds.accs root
      rw [accesses] at gathered
      apply rel_gathers gathered (advances.accs root)
      intro own _ both
      simp only [Bool.and_eq_true, decide_eq_true_eq] at both
      rcases isBranch with rfl | rfl
      · exact both.1
      · exact both.2
    · exact holds.accs.drop within.roots root
  · exact holds.carried
  · rfl
  · intro root
    simp only [Knowledge.leaveBranches, Bool.false_eq_true, if_false]
    split_ifs
    · exact isSome_map
    · exact isSome_map

end Regions

end CuTile.Tokens
