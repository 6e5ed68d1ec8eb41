import CuTile.Bytecode.OperationWriter
import CuTile.Foundation.Fallible

/-! # The verifier's numbering and the writer's

`verify_bc_operation` registers an operation's results before it walks the regions, the
writer afterwards. Inside the regions of an operation with results the verifier therefore
runs ahead: it has the writer's index exactly for the values from outside that operation.
-/

namespace CuTile.IR

open Fallible List

/-! ## Values of the outermost operation with results -/

/-- The values defined inside, when the regions of an operation are entered. -/
def enterRegions (inner : Option (List Value)) (results : List Value) : Option (List Value) :=
  match inner with
  | some names => some (results ++ names)
  | none => if results = [] then none else some results

/-- Operands inside an operation with results come from outside it. -/
def OpHeader.scoped (values : List ValueData) (header : OpHeader) :
    Option (List Value) → Bool
  | some names => (header.writtenOperands values).all fun operand => operand ∉ names
  | none => true

mutual

/-- Whether no operand names a value defined inside an operation with results, together
with the values defined inside it so far. -/
def Operation.scan (values : List ValueData) :
    Operation → Option (List Value) → Bool × Option (List Value)
  | .mk header regions, inner =>
    let results := (header.results values).reduceOption
    if header.opcode.writesRegions then
      let body := regions.scan values (enterRegions inner results)
      (header.scoped values inner && body.1, inner.bind fun _ => body.2)
    else (header.scoped values inner, inner.map fun names => results ++ names)

def Regions.scan (values : List ValueData) :
    Regions → Option (List Value) → Bool × Option (List Value)
  | .nil, inner => (true, inner)
  | .cons blocks rest, inner =>
    let first := blocks.scan values inner
    let others := rest.scan values first.2
    (first.1 && others.1, others.2)

def Blocks.scan (values : List ValueData) :
    Blocks → Option (List Value) → Bool × Option (List Value)
  | .nil, inner => (true, inner)
  | .cons args ops rest, inner =>
    let body := ops.scan values (inner.map fun names => args ++ names)
    let others := rest.scan values body.2
    (body.1 && others.1, others.2)

def Operations.scan (values : List ValueData) :
    Operations → Option (List Value) → Bool × Option (List Value)
  | .nil, inner => (true, inner)
  | .cons head tail, inner =>
    let first := head.scan values inner
    let others := tail.scan values first.2
    (first.1 && others.1, others.2)

end

def Operation.scopedFunction (values : List ValueData) (function : Operation) : Bool :=
  match function.entryBlock with
  | some (_, ops) => (ops.scan values none).1
  | none => true

/-- No operand that is written inside the regions of an operation with results names a value
which that operation defines, or which is defined inside it before the operand. -/
def Module.Scoped (module : Module) : Prop :=
  module.functions.all fun function => function.scopedFunction module.values

section Scan

variable {values : List ValueData}

def Grows (inner after : Option (List Value)) : Prop :=
  ∀ names, inner = some names → ∃ more, after = some more ∧ ∀ name ∈ names, name ∈ more

theorem Grows.refl (inner : Option (List Value)) : Grows inner inner :=
  fun names is => ⟨names, is, fun _ member => member⟩

theorem Grows.trans {first second third : Option (List Value)} (early : Grows first second)
    (late : Grows second third) : Grows first third := by
  intro names is
  rcases early names is with ⟨middle, isMiddle, included⟩
  rcases late middle isMiddle with ⟨more, isMore, rest⟩
  exact ⟨more, isMore, fun name member => rest name (included name member)⟩

theorem grows_map (inner : Option (List Value)) (added : List Value) :
    Grows inner (inner.map fun names => added ++ names) := by
  rintro names rfl
  exact ⟨added ++ names, rfl, fun _ member => mem_append_right _ member⟩

mutual

theorem Operation.grows_scan : (operation : Operation) → (inner : Option (List Value)) →
    Grows inner (operation.scan values inner).2
  | .mk header regions, inner => by
    rw [Operation.scan]
    split
    · rintro names rfl
      rcases regions.grows_scan (enterRegions (some names) _) _ rfl with ⟨more, isMore, included⟩
      exact ⟨more, isMore, fun name member => included name (mem_append_right _ member)⟩
    · exact grows_map inner _

theorem Regions.grows_scan : (regions : Regions) → (inner : Option (List Value)) →
    Grows inner (regions.scan values inner).2
  | .nil, inner => .refl inner
  | .cons blocks rest, inner => (blocks.grows_scan inner).trans (rest.grows_scan _)

theorem Blocks.grows_scan : (blocks : Blocks) → (inner : Option (List Value)) →
    Grows inner (blocks.scan values inner).2
  | .nil, inner => .refl inner
  | .cons args ops rest, inner =>
    ((grows_map inner args).trans (ops.grows_scan _)).trans (rest.grows_scan _)

theorem Operations.grows_scan : (operations : Operations) → (inner : Option (List Value)) →
    Grows inner (operations.scan values inner).2
  | .nil, inner => .refl inner
  | .cons head tail, inner => (head.grows_scan inner).trans (tail.grows_scan _)

end

end Scan

/-! ## Scopes of the verifier and the writer -/

section Scopes

variable {values : List ValueData} {function : String} {encodes : OpHeader → Bool}
  {serialised : Bool}

theorem extends_registerResults (numbering : Numbering Value) (results : List (Option Value)) :
    numbering.Extends (results.foldl registerResult numbering) := by
  induction results generalizing numbering with
  | nil => exact .refl
  | cons result _ induction =>
    refine Numbering.Extends.trans ?_ (induction _)
    cases result with
    | some => exact Numbering.extends_register
    | none => exact ⟨Nat.le_succ _, fun found _ => found⟩

mutual

theorem Operation.extends_verifyBc (serialised : Bool) : (operation : Operation) →
    (numbering : Numbering Value) →
    numbering.Extends (operation.verifyBc values function serialised numbering).numbering
  | .mk header regions, numbering =>
    (extends_registerResults numbering _).trans
      (regions.within_verifyBc (serialised && header.opcode.writesRegions) _).extends

theorem Regions.within_verifyBc (serialised : Bool) : (regions : Regions) →
    (numbering : Numbering Value) →
    (regions.verifyBc values function serialised numbering).numbering.Within numbering
  | .nil, _ => .refl
  | .cons blocks rest, numbering =>
    (rest.within_verifyBc serialised _).trans (blocks.within_verifyBc serialised numbering)

theorem Blocks.within_verifyBc (serialised : Bool) : (blocks : Blocks) →
    (numbering : Numbering Value) →
    (blocks.verifyBc values function serialised numbering).numbering.Within numbering
  | .nil, _ => .refl
  | .cons args ops rest, numbering => by
    have body := (Numbering.extends_registerAll args).trans
      (ops.extends_verifyBc serialised (numbering.registerAll args))
    exact (rest.within_verifyBc serialised _).trans body.rollback

theorem Operations.extends_verifyBc (serialised : Bool) : (operations : Operations) →
    (numbering : Numbering Value) →
    numbering.Extends (operations.verifyBc values function serialised numbering).numbering
  | .nil, _ => .refl
  | .cons head tail, numbering =>
    (head.extends_verifyBc serialised numbering).trans (tail.extends_verifyBc serialised _)

end

mutual

theorem Operation.extends_write : (operation : Operation) → {numbering after : Numbering Value} →
    {written : List (Value × Nat)} →
    operation.write values encodes numbering = .ok (after, written) → numbering.Extends after
  | .mk header regions, numbering, after, written, writes => by
    rw [Operation.write] at writes
    split at writes
    · simp only [bind_eq_ok_iff, pure_eq_ok_iff, Prod.mk.injEq] at writes
      rcases writes with ⟨_, -, ⟨_, _⟩, isBody, rfl, -⟩
      refine Numbering.Extends.trans ?_ (Numbering.extends_registerAll _)
      split at isBody
      · exact (regions.within_write isBody).extends
      · cases isBody
        exact .refl
    · cases writes

theorem Regions.within_write : (regions : Regions) → {numbering after : Numbering Value} →
    {written : List (Value × Nat)} →
    regions.write values encodes numbering = .ok (after, written) → after.Within numbering
  | .nil, _, _, _, writes => by
    cases writes
    exact .refl
  | .cons blocks rest, numbering, after, written, writes => by
    rw [Regions.write] at writes
    simp only [bind_eq_ok_iff, pure_eq_ok_iff, Prod.mk.injEq] at writes
    rcases writes with ⟨⟨first, _⟩, writesFirst, ⟨_, _⟩, writesOthers, rfl, -⟩
    exact (rest.within_write writesOthers).trans (blocks.within_write writesFirst)

theorem Blocks.within_write : (blocks : Blocks) → {numbering after : Numbering Value} →
    {written : List (Value × Nat)} →
    blocks.write values encodes numbering = .ok (after, written) → after.Within numbering
  | .nil, _, _, _, writes => by
    cases writes
    exact .refl
  | .cons args ops rest, numbering, after, written, writes => by
    rw [Blocks.write] at writes
    simp only [bind_eq_ok_iff, pure_eq_ok_iff, Prod.mk.injEq] at writes
    rcases writes with ⟨⟨body, _⟩, writesBody, ⟨_, _⟩, writesOthers, rfl, -⟩
    have scope := (Numbering.extends_registerAll args).trans (ops.extends_write writesBody)
    exact (rest.within_write writesOthers).trans scope.rollback

theorem Operations.extends_write : (operations : Operations) →
    {numbering after : Numbering Value} → {written : List (Value × Nat)} →
    operations.write values encodes numbering = .ok (after, written) → numbering.Extends after
  | .nil, _, _, _, writes => by
    cases writes
    exact .refl
  | .cons head tail, numbering, after, written, writes => by
    rw [Operations.write] at writes
    simp only [bind_eq_ok_iff, pure_eq_ok_iff, Prod.mk.injEq] at writes
    rcases writes with ⟨⟨first, _⟩, writesFirst, ⟨_, _⟩, writesOthers, rfl, -⟩
    exact (head.extends_write writesFirst).trans (tail.extends_write writesOthers)

end

end Scopes

/-! ## The two numberings -/

/-- Outside operations with results the numberings match, inside the verifier's runs ahead. -/
inductive Related : Option Nat → Option (List Value) → Numbering Value → Numbering Value → Prop
  | together {ahead behind} (same : ahead.Matches behind) : Related none none ahead behind
  | apart {floor inner ahead behind} (runs : Numbering.RunsAhead floor inner ahead behind) :
      Related (some floor) (some inner) ahead behind

section Related

variable {floor : Option Nat} {inner : Option (List Value)} {ahead behind : Numbering Value}

section

variable (related : Related floor inner ahead behind)

include related

theorem Related.registerAll (names : List Value) :
    Related floor (inner.map fun defined => names ++ defined) (ahead.registerAll names)
      (behind.registerAll names) := by
  cases related with
  | together same => exact .together (same.registerAll names)
  | apart runs =>
    refine .apart ((runs.registerAll names).congr fun name => ?_)
    simp only [mem_append, mem_reverse]

theorem Related.within {shrunk : Numbering Value} (within : shrunk.Within ahead) :
    Related floor inner shrunk behind := by
  cases related with
  | together same => exact .together (same.within within)
  | apart runs => exact .apart (runs.within within)

theorem Related.rollback {laterAhead laterBehind : Numbering Value} {after : Option (List Value)}
    (body : Related floor after laterAhead laterBehind) :
    Related floor after (laterAhead.rollback ahead.next) (laterBehind.rollback behind.next) := by
  cases body with
  | together same =>
    cases related with
    | together before =>
      rw [before.next]
      exact .together (same.rollback _)
  | apart runs =>
    cases related with
    | apart before => exact .apart (runs.rollback before.later before.above)

/-- The indices of operands agree exactly when none of them is defined inside. -/
theorem Related.lookup_eq_iff {operand : Value} {index : Nat}
    (found : ahead.lookup operand = some index) :
    behind.lookup operand = some index ↔ ∀ names, inner = some names → operand ∉ names := by
  cases related with
  | together same =>
    exact iff_of_true (same.found found) nofun
  | apart runs =>
    rw [runs.lookup_eq_iff found]
    refine ⟨fun absent names is => ?_, fun all => all _ rfl⟩
    cases is
    exact absent

end

end Related

/-! ## Simulation -/

def tagged (written : List (Value × Nat)) : List (Value × Option Nat) :=
  written.map fun operand => (operand.1, some operand.2)

/-- What the verifier has done, and what the writer has done where the verifier was: the
numberings are related again, and the indices are the computed ones exactly when `fine`. -/
structure Simulation (floor : Option Nat) (fine : Bool × Option (List Value)) (walk : IndexWalk)
    (after : Numbering Value) (written : List (Value × Nat)) : Prop where
  related : Related floor fine.2 walk.numbering after
  length : written.length = walk.computed.length
  exact : tagged written = walk.computed ↔ fine.1 = true

theorem tagged_append_eq_iff {first second : List (Value × Nat)}
    {computed others : List (Value × Option Nat)} (length : first.length = computed.length) :
    tagged (first ++ second) = computed ++ others ↔
      tagged first = computed ∧ tagged second = others := by
  have tags : (tagged first).length = computed.length := (length_map _).trans length
  rw [tagged, map_append]
  refine ⟨fun same => append_inj same tags, fun same => ?_⟩
  rw [← same.1, ← same.2]
  rfl

section Simulation

variable {values : List ValueData} {function : String} {encodes : OpHeader → Bool}
  {floor : Option Nat} {inner : Option (List Value)} {ahead behind : Numbering Value}

variable {written : List (Value × Nat)}

theorem Simulation.append {first others : Bool × Option (List Value)} {walk rest : IndexWalk}
    {middle after : Numbering Value} {more : List (Value × Nat)}
    (early : Simulation floor first walk middle written)
    (late : Simulation floor others rest after more) :
    Simulation floor (first.1 && others.1, others.2)
      ⟨rest.numbering, walk.errors ++ rest.errors, walk.computed ++ rest.computed⟩ after
      (written ++ more) := by
  refine ⟨late.related, ?_, ?_⟩
  · rw [length_append, length_append, early.length, late.length]
  · rw [tagged_append_eq_iff early.length, early.exact, late.exact, Bool.and_eq_true]

variable {header : OpHeader}

/-- Every index that a body holds is the one of its operand. -/
theorem tagged_of_writeOperands {operands : List Value}
    (writes : header.writeOperands behind operands = .ok written) :
    tagged written = operands.map fun operand => (operand, behind.lookup operand) := by
  induction operands generalizing written with
  | nil =>
    cases writes
    rfl
  | cons _ _ induction =>
    rw [OpHeader.writeOperands] at writes
    split at writes
    · cases writes
    · rename_i index found
      simp only [bind_eq_ok_iff, pure_eq_ok_iff] at writes
      rcases writes with ⟨_, writesRest, rfl⟩
      rw [map_cons, found, ← induction writesRest]
      rfl

theorem exists_lookup_of_unmappedErrors (clean : header.unmappedErrors function ahead = [])
    {operand : Value} (member : operand ∈ header.operands) :
    ∃ index, ahead.lookup operand = some index := by
  rw [OpHeader.unmappedErrors, map_eq_nil_iff, filter_eq_nil_iff] at clean
  rcases mem_iff_getElem.mp member with ⟨position, inside, is⟩
  have mapped := clean (operand, position) (mem_zipIdx_iff_getElem?.mpr (by simp [is, inside]))
  exact Option.ne_none_iff_exists'.mp (by simpa using mapped)

theorem scoped_eq_true_iff :
    header.scoped values inner = true ↔
      ∀ operand ∈ header.writtenOperands values, ∀ names, inner = some names → operand ∉ names := by
  cases inner with
  | none => exact iff_of_true rfl nofun
  | some => simp [OpHeader.scoped]

theorem simulation_operands (clean : header.unmappedErrors function ahead = [])
    (related : Related floor inner ahead behind)
    (writes : header.writeOperands behind (header.writtenOperands values) = .ok written) :
    Simulation floor (header.scoped values inner, inner)
      ⟨ahead, [], header.computedIndices values ahead⟩ behind written := by
  have indices := tagged_of_writeOperands writes
  refine ⟨related, ?_, ?_⟩
  · have length := congrArg length indices
    rw [tagged, length_map, length_map] at length
    exact length.trans (length_map _).symm
  · rw [indices, OpHeader.computedIndices, map_inj_left, scoped_eq_true_iff]
    refine forall₂_congr fun operand member => ?_
    rcases exists_lookup_of_unmappedErrors clean
      (mem_operands_of_mem_writtenOperands member) with ⟨_, found⟩
    rw [Prod.mk.injEq, eq_self_iff_true, true_and, found]
    exact related.lookup_eq_iff found

/-! ### Regions -/

theorem Related.matches (related : Related none inner ahead behind) : ahead.Matches behind := by
  cases related with
  | together same => exact same

theorem Related.runsAhead {start : Nat} (related : Related (some start) inner ahead behind) :
    ∃ names, inner = some names ∧ Numbering.RunsAhead start names ahead behind := by
  cases related with
  | apart runs => exact ⟨_, rfl, runs⟩

/-- The regions of an operation: the verifier has its results already, the writer gets them
afterwards. -/
theorem simulation_regions {regions : Regions} {results : List Value} {body : Numbering Value}
    (simulation : ∀ {floor inner ahead}, Related floor inner ahead behind →
      (regions.verifyBc values function true ahead).errors = [] →
      Simulation floor (regions.scan values inner) (regions.verifyBc values function true ahead)
        body written)
    (clean : (regions.verifyBc values function true (ahead.registerAll results)).errors = [])
    (related : Related floor inner ahead behind) (within : body.Within behind) :
    Simulation floor
      ((regions.scan values (enterRegions inner results)).1,
        inner.bind fun _ => (regions.scan values (enterRegions inner results)).2)
      (regions.verifyBc values function true (ahead.registerAll results))
      (body.registerAll results) written := by
  have scope : (regions.verifyBc values function true
      (ahead.registerAll results)).numbering.Within (ahead.registerAll results) :=
    regions.within_verifyBc true _
  cases related with
  | together same =>
    by_cases noResults : results = []
    · subst noResults
      have inside := simulation (.together same) clean
      exact ⟨.together inside.related.matches, inside.length, inside.exact⟩
    · rw [enterRegions, if_neg noResults]
      have inside := simulation (.apart (same.advance noResults)) clean
      rcases inside.related.runsAhead with ⟨names, -, runs⟩
      rw [same.next] at runs
      exact ⟨.together (runs.meet scope same.bounded_ahead (within.next.trans same.next)),
        inside.length, inside.exact⟩
  | apart runs =>
    have inside := simulation (.apart (runs.advance results)) clean
    rcases inside.related.runsAhead with ⟨names, isNames, more⟩
    have covers : ∀ name ∈ results, name ∈ names := by
      rcases regions.grows_scan _ _ rfl with ⟨_, isGrown, included⟩
      cases isGrown.symm.trans isNames
      exact fun name member => included name (mem_append_left _ member)
    refine ⟨?_, inside.length, inside.exact⟩
    show Related _ (regions.scan values (some (results ++ _))).2 _ _
    rw [isNames]
    exact .apart (more.catchUp scope (within.next ▸ runs.later) covers)

/-! ### Walks -/

theorem foldl_registerResult {results : List (Option Value)} (values : none ∉ results)
    (numbering : Numbering Value) :
    results.foldl registerResult numbering = numbering.registerAll results.reduceOption := by
  induction results generalizing numbering with
  | nil => rfl
  | cons result _ induction =>
    rw [mem_cons, not_or] at values
    cases result with
    | none => exact absurd rfl values.1
    | some =>
      rw [foldl_cons, induction values.2]
      rfl

theorem none_not_mem_results (clean : header.resultErrors values function = []) :
    none ∉ header.results values := by
  intro member
  rw [OpHeader.resultErrors, map_eq_nil_iff, filter_eq_nil_iff] at clean
  rcases mem_iff_getElem.mp member with ⟨position, inside, is⟩
  have mapped := clean (none, position) (mem_zipIdx_iff_getElem?.mpr (by simp [is, inside]))
  exact mapped rfl

mutual

/-- Where the writer does not come, no index is computed. -/
theorem Operation.computed_verifyBc : (operation : Operation) → (numbering : Numbering Value) →
    (operation.verifyBc values function false numbering).computed = []
  | .mk header regions, numbering => by
    rw [Operation.verifyBc]
    exact regions.computed_verifyBc _

theorem Regions.computed_verifyBc : (regions : Regions) → (numbering : Numbering Value) →
    (regions.verifyBc values function false numbering).computed = []
  | .nil, _ => rfl
  | .cons blocks rest, numbering => by
    rw [Regions.verifyBc, append_eq_nil_iff]
    exact ⟨blocks.computed_verifyBc _, rest.computed_verifyBc _⟩

theorem Blocks.computed_verifyBc : (blocks : Blocks) → (numbering : Numbering Value) →
    (blocks.verifyBc values function false numbering).computed = []
  | .nil, _ => rfl
  | .cons args ops rest, numbering => by
    rw [Blocks.verifyBc, append_eq_nil_iff]
    exact ⟨ops.computed_verifyBc _, rest.computed_verifyBc _⟩

theorem Operations.computed_verifyBc : (operations : Operations) →
    (numbering : Numbering Value) →
    (operations.verifyBc values function false numbering).computed = []
  | .nil, _ => rfl
  | .cons head tail, numbering => by
    rw [Operations.verifyBc, append_eq_nil_iff]
    exact ⟨head.computed_verifyBc _, tail.computed_verifyBc _⟩

end

/-- Regions that are not written are walked by the verifier alone. -/
theorem simulation_skipped {regions : Regions} {results : List Value}
    (related : Related floor inner ahead behind) :
    Simulation floor (true, inner.map fun names => results ++ names)
      (regions.verifyBc values function false (ahead.registerAll results))
      (behind.registerAll results) [] := by
  refine ⟨(related.registerAll results).within (regions.within_verifyBc false _), ?_, ?_⟩
  · rw [regions.computed_verifyBc]
    rfl
  · rw [regions.computed_verifyBc]
    exact iff_of_true rfl rfl

theorem writeOperands_ne_other (operands : List Value) :
    header.writeOperands behind operands ≠ .error .other := by
  induction operands with
  | nil => exact nofun
  | cons _ _ induction =>
    rw [OpHeader.writeOperands]
    split
    · exact nofun
    · exact bind_ne_error induction fun _ _ => pure_ne_error _ _

theorem writeOperands_ne_missing {operands : List Value}
    (found : ∀ operand ∈ operands, (behind.lookup operand).isSome) (value : Value)
    (opcode : Opcode) :
    header.writeOperands behind operands ≠ .error (.missingOperand value opcode) := by
  induction operands with
  | nil => exact nofun
  | cons operand _ induction =>
    rw [OpHeader.writeOperands]
    split
    · rename_i absent
      have is := found operand mem_cons_self
      rw [absent] at is
      cases is
    · have others := induction fun other member => found other (mem_cons_of_mem _ member)
      exact bind_ne_error others fun _ _ => pure_ne_error _ _

theorem lookup_isSome (clean : header.unmappedErrors function ahead = [])
    (related : Related floor inner ahead behind) (fine : header.scoped values inner = true) :
    ∀ operand ∈ header.writtenOperands values, (behind.lookup operand).isSome := by
  intro operand member
  rcases exists_lookup_of_unmappedErrors clean
    (mem_operands_of_mem_writtenOperands member) with ⟨_, found⟩
  rw [(related.lookup_eq_iff found).mpr (scoped_eq_true_iff.mp fine operand member)]
  rfl

theorem Related.enter (related : Related floor inner ahead behind) (results : List Value) :
    ∃ start, Related start (enterRegions inner results) (ahead.registerAll results) behind := by
  cases related with
  | together same =>
    by_cases noResults : results = []
    · subst noResults
      exact ⟨none, .together same⟩
    · rw [enterRegions, if_neg noResults]
      exact ⟨some behind.next, .apart (same.advance noResults)⟩
  | apart runs => exact ⟨_, .apart (runs.advance results)⟩

/-! ### Runs of the writer -/

/-- What the verifier's walk says about a run of the writer: what it has done when it
succeeds, that it finds operands from outside, and that it fails otherwise only at what
does not encode. -/
structure Follows (encodes : OpHeader → Bool) (floor : Option Nat)
    (fine : Bool × Option (List Value)) (walk : IndexWalk)
    (run : Except WriteError (Numbering Value × List (Value × Nat))) : Prop where
  ok : ∀ {after written}, run = .ok (after, written) → Simulation floor fine walk after written
  found : fine.1 = true → ∀ value opcode, run ≠ .error (.missingOperand value opcode)
  encoded : (∀ header, encodes header = true) → run ≠ .error .other

namespace Follows

variable {first others : Bool × Option (List Value)} {walk rest : IndexWalk}
  {run : Except WriteError (Numbering Value × List (Value × Nat))}
  {next : Numbering Value → Except WriteError (Numbering Value × List (Value × Nat))}

theorem done {after : Numbering Value} (simulation : Simulation floor first walk after written) :
    Follows encodes floor first walk (.ok (after, written)) := by
  refine ⟨fun is => ?_, nofun, nofun⟩
  cases is
  exact simulation

theorem append (early : Follows encodes floor first walk run)
    (late : ∀ {middle written}, run = .ok (middle, written) →
      Follows encodes floor others rest (next middle)) :
    Follows encodes floor (first.1 && others.1, others.2)
      ⟨rest.numbering, walk.errors ++ rest.errors, walk.computed ++ rest.computed⟩
      (run >>= fun body => next body.1 >>= fun more => pure (more.1, body.2 ++ more.2)) := by
  refine ⟨fun {after written} is => ?_, fun fine value opcode => ?_, fun all => ?_⟩
  · simp only [bind_eq_ok_iff, pure_eq_ok_iff, Prod.mk.injEq] at is
    rcases is with ⟨body, isBody, more, isMore, rfl, rfl⟩
    exact (early.ok isBody).append ((late isBody).ok isMore)
  · rw [Bool.and_eq_true] at fine
    exact bind_ne_error (early.found fine.1 value opcode) fun body isBody =>
      bind_ne_error ((late isBody).found fine.2 value opcode) fun _ _ =>
        pure_ne_error _ _
  · exact bind_ne_error (early.encoded all) fun body isBody =>
      bind_ne_error ((late isBody).encoded all) fun _ _ => pure_ne_error _ _

theorem of_walk (follows : Follows encodes floor first walk run)
    (numbering : rest.numbering = walk.numbering) (computed : rest.computed = walk.computed) :
    Follows encodes floor first rest run := by
  refine ⟨fun is => ?_, follows.found, follows.encoded⟩
  rcases follows.ok is with ⟨related, length, exactly⟩
  exact ⟨numbering ▸ related, computed ▸ length, computed ▸ exactly⟩

end Follows

theorem follows_operands (clean : header.unmappedErrors function ahead = [])
    (related : Related floor inner ahead behind) :
    Follows encodes floor (header.scoped values inner, inner)
      ⟨ahead, [], header.computedIndices values ahead⟩
      (header.writeOperands behind (header.writtenOperands values) >>= fun operands =>
        pure (behind, operands)) := by
  refine ⟨fun is => ?_, fun fine value opcode => ?_, fun _ => ?_⟩
  · rcases bind_eq_ok_iff.mp is with ⟨operands, isOperands, is⟩
    cases is
    exact simulation_operands clean related isOperands
  · exact bind_ne_error
      (writeOperands_ne_missing (lookup_isSome clean related fine) value opcode)
      fun _ _ => pure_ne_error _ _
  · exact bind_ne_error (writeOperands_ne_other _) fun _ _ => pure_ne_error _ _

theorem follows_regions {regions : Regions} {results : List Value}
    (follows : ∀ {floor inner ahead}, Related floor inner ahead behind →
      (regions.verifyBc values function true ahead).errors = [] →
      Follows encodes floor (regions.scan values inner)
        (regions.verifyBc values function true ahead) (regions.write values encodes behind))
    (clean : (regions.verifyBc values function true (ahead.registerAll results)).errors = [])
    (related : Related floor inner ahead behind) :
    Follows encodes floor
      ((regions.scan values (enterRegions inner results)).1,
        inner.bind fun _ => (regions.scan values (enterRegions inner results)).2)
      (regions.verifyBc values function true (ahead.registerAll results))
      (regions.write values encodes behind >>= fun body =>
        pure (body.1.registerAll results, body.2)) := by
  rcases related.enter results with ⟨_, entered⟩
  have body := follows entered clean
  refine ⟨fun is => ?_, fun fine value opcode => ?_, fun all => ?_⟩
  · rcases bind_eq_ok_iff.mp is with ⟨⟨_, _⟩, writes, is⟩
    cases is
    exact simulation_regions (fun earlier fine => (follows earlier fine).ok writes) clean related
      (regions.within_write writes)
  · exact bind_ne_error (body.found fine value opcode) fun _ _ =>
      pure_ne_error _ _
  · exact bind_ne_error (body.encoded all) fun _ _ => pure_ne_error _ _

mutual

theorem Operation.follows : (operation : Operation) → {floor : Option Nat} →
    {inner : Option (List Value)} → {ahead behind : Numbering Value} →
    Related floor inner ahead behind →
    (operation.verifyBc values function true ahead).errors = [] →
    Follows encodes floor (operation.scan values inner)
      (operation.verifyBc values function true ahead) (operation.write values encodes behind)
  | .mk header regions, floor, inner, ahead, behind, related, clean => by
    rw [Operation.verifyBc] at clean ⊢
    simp only [append_eq_nil_iff, Bool.true_and] at clean ⊢
    rcases clean with ⟨⟨⟨unmapped, -⟩, missing⟩, cleanRegions⟩
    rw [foldl_registerResult (none_not_mem_results missing)] at cleanRegions ⊢
    rw [Operation.scan, Operation.write]
    by_cases encoded : encodes header = true
    · rw [if_pos encoded]
      have outer : Follows encodes floor (header.scoped values inner, inner) _ _ :=
        follows_operands unmapped related
      by_cases entered : header.opcode.writesRegions = true
      · rw [if_pos entered, if_pos entered]
        rw [entered] at cleanRegions ⊢
        have inside := follows_regions regions.follows cleanRegions related
        have whole := outer.append fun _ => inside
        simp only [bind_assoc, pure_bind] at whole
        exact whole.of_walk rfl rfl
      · rw [if_neg entered, if_neg entered]
        rw [Bool.not_eq_true] at entered
        rw [entered]
        have inside : Follows encodes floor _ (regions.verifyBc values function false
            (ahead.registerAll (header.results values).reduceOption)) _ :=
          .done (simulation_skipped related)
        have whole := outer.append fun _ => inside
        simp only [bind_assoc, pure_bind, ok_bind, Bool.and_true] at whole ⊢
        exact whole.of_walk rfl rfl
    · rw [if_neg encoded]
      exact ⟨nofun, nofun,
        fun all => absurd (all header) encoded⟩

theorem Regions.follows : (regions : Regions) → {floor : Option Nat} →
    {inner : Option (List Value)} → {ahead behind : Numbering Value} →
    Related floor inner ahead behind → (regions.verifyBc values function true ahead).errors = [] →
    Follows encodes floor (regions.scan values inner)
      (regions.verifyBc values function true ahead) (regions.write values encodes behind)
  | .nil, _, _, _, _, related, _ => .done ⟨related, rfl, iff_of_true rfl rfl⟩
  | .cons blocks rest, _, _, _, _, related, clean => by
    rw [Regions.verifyBc, append_eq_nil_iff] at clean
    have early := blocks.follows related clean.1
    exact early.append fun writes => rest.follows (early.ok writes).related clean.2

theorem Blocks.follows : (blocks : Blocks) → {floor : Option Nat} →
    {inner : Option (List Value)} → {ahead behind : Numbering Value} →
    Related floor inner ahead behind → (blocks.verifyBc values function true ahead).errors = [] →
    Follows encodes floor (blocks.scan values inner)
      (blocks.verifyBc values function true ahead) (blocks.write values encodes behind)
  | .nil, _, _, _, _, related, _ => .done ⟨related, rfl, iff_of_true rfl rfl⟩
  | .cons args ops rest, _, _, _, _, related, clean => by
    rw [Blocks.verifyBc, append_eq_nil_iff] at clean
    have early := ops.follows (related.registerAll args) clean.1
    exact early.append fun writes =>
      rest.follows (related.rollback (early.ok writes).related) clean.2

theorem Operations.follows : (operations : Operations) → {floor : Option Nat} →
    {inner : Option (List Value)} → {ahead behind : Numbering Value} →
    Related floor inner ahead behind →
    (operations.verifyBc values function true ahead).errors = [] →
    Follows encodes floor (operations.scan values inner)
      (operations.verifyBc values function true ahead) (operations.write values encodes behind)
  | .nil, _, _, _, _, related, _ => .done ⟨related, rfl, iff_of_true rfl rfl⟩
  | .cons head tail, _, _, _, _, related, clean => by
    rw [Operations.verifyBc, append_eq_nil_iff] at clean
    have early := head.follows related clean.1
    exact early.append fun writes => tail.follows (early.ok writes).related clean.2

end

end Simulation

end CuTile.IR
