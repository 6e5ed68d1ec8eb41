import CuTile.Foundation.Fallible
import CuTile.Tune.Config

/-! # Required configurations of a tuning run

Required configurations are measured before the search, so that the winner has faced them.
-/

namespace CuTile.Tuning

open List Function Fallible

/-- Finite medians are ordered; `none` stands for a median that is not finite. -/
inductive TrialState (Median : Type) where
  | measured (medianMs : Option Median)
  | invalid (reason : String)

structure Trial (Median : Type) where
  configId : String
  state : TrialState Median

variable {Median : Type}

def Trial.medianMs (trial : Trial Median) : Option (Option Median) :=
  match trial.state with
  | .measured median => some median
  | .invalid _ => none

/-- An objective measures the last of the indices, having measured those before it. -/
abbrev Objective (Median : Type) := List Nat → Trial Median

structure Output (Median : Type) where
  trials : List (Trial Median)
  best : Option Config
  /-- The indices measured before the search. -/
  before : List Nat

structure Progress (Median : Type) where
  cache : Nat → Option (Trial Median)
  history : List Nat

section Run

variable (objective : Objective Median) (configs : List Config) (existing : List (Trial Median))

def idAt (index : Nat) : String := (configs[index]?.map Config.id).getD ""

def requireIndex (indices : List Nat) (required : Config) : Except String (List Nat) :=
  match configs.findIdx? fun config => config.id = required.id with
  | some index => .ok (if index ∈ indices then indices else indices ++ [index])
  | none => .error (s!"required config `{required.id}` is not in the declared space "
    ++ "(after pruning); the search cannot cover it")

def requiredIndices (required : List Config) : Except String (List Nat) :=
  required.foldlM (requireIndex configs) []

/-- `LoggingObjective`: the trial gets the id of the config that was dispatched. -/
def measure (history : List Nat) (index : Nat) : Trial Median :=
  let trial := objective (history ++ [index])
  match configs[index]? with
  | some config => { trial with configId := config.id }
  | none => trial

def resumed (id : String) : Option (Trial Median) :=
  existing.find? fun trial => trial.configId = id ∧ trial.medianMs.isSome

/-- One round of the loop over the required indices. -/
def cover (progress : Progress Median) (index : Nat) : Progress Median :=
  match resumed existing (idAt configs index) with
  | some trial => { progress with cache := update progress.cache index (some trial) }
  | none =>
    ⟨update progress.cache index (some (measure objective configs progress.history index)),
      progress.history ++ [index]⟩

def requireMeasured (cache : Nat → Option (Trial Median)) : List Nat → Except String Unit
  | [] => .ok ()
  | index :: rest =>
    match cache index with
    | some ⟨_, .invalid reason⟩ =>
      .error (s!"required config `{idAt configs index}` failed to measure ({reason}); "
        ++ "cannot guarantee the winner beat it")
    | _ => requireMeasured cache rest

/-- `RequiredFirst` serves a cached trial once. -/
def visit (state : Progress Median × List (Trial Median)) (index : Nat) :
    Progress Median × List (Trial Median) :=
  match state.1.cache index with
  | some trial => ({ state.1 with cache := update state.1.cache index none }, state.2 ++ [trial])
  | none => ({ state.1 with history := state.1.history ++ [index] },
    state.2 ++ [measure objective configs state.1.history index])

def mergeTrial : List (Trial Median) → Trial Median → List (Trial Median)
  | [], trial => [trial]
  | head :: tail, trial =>
    if head.configId = trial.configId then
      (if head.medianMs.isNone ∧ trial.medianMs.isSome then trial else head) :: tail
    else head :: mergeTrial tail trial

def mergeUnclaimed (trials preMeasured : List (Trial Median)) : List (Trial Median) :=
  preMeasured.foldl mergeTrial trials

variable [LinearOrder Median]

/-- The median of a trial that can win, with its config. -/
def candidate (trial : Trial Median) : Option (Config × Median) := do
  let ms ← trial.medianMs.join
  let config ← configs.find? fun config => config.id = trial.configId
  return (config, ms)

def better (best : Option (Config × Median)) (next : Config × Median) : Option (Config × Median) :=
  if best.all fun best => next.2 < best.2 then some next else best

def bestConfig (trials : List (Trial Median)) : Option Config :=
  ((trials.filterMap (candidate configs)).foldl better none).map Prod.fst

/-- A searcher visits indices and returns some of the trials it was given. The values of the
cache come in the order of their indices. -/
def runObjectiveSearcher (required : List Config) (visits : List Nat)
    (choose : List (Trial Median) → List (Trial Median)) : Except String (Output Median) := do
  let indices ← requiredIndices configs required
  let progress := indices.foldl (cover objective configs existing) ⟨fun _ => none, []⟩
  requireMeasured configs progress.cache indices
  let given := (visits.foldl (visit objective configs) (progress, [])).2
  let trials := mergeUnclaimed (choose given) ((range configs.length).filterMap progress.cache)
  return ⟨trials, bestConfig configs trials, progress.history⟩

end Run

/-! ## Required trials -/

section Merge

variable {trials preMeasured : List (Trial Median)} {trial found : Trial Median} {id : String}

def Trial.measures (id : String) (trial : Trial Median) : Bool :=
  trial.configId = id && trial.medianMs.isSome

theorem any_mergeTrial : (mergeTrial trials trial).any (Trial.measures id) =
    (trials.any (Trial.measures id) || trial.measures id) := by
  induction trials with
  | nil => simp [mergeTrial]
  | cons head tail induction =>
    rw [mergeTrial]
    split_ifs <;> simp only [any_cons] <;>
      grind [Trial.measures, Option.isNone_iff_eq_none, Option.isSome_iff_ne_none]

theorem any_mergeUnclaimed : (mergeUnclaimed trials preMeasured).any (Trial.measures id) =
    (trials.any (Trial.measures id) || preMeasured.any (Trial.measures id)) := by
  induction preMeasured generalizing trials with
  | nil => simp [mergeUnclaimed]
  | cons head tail induction =>
    rw [mergeUnclaimed, foldl_cons, ← mergeUnclaimed, induction, any_mergeTrial, any_cons,
      Bool.or_assoc]

theorem mem_of_mem_mergeTrial (member : found ∈ mergeTrial trials trial) :
    found ∈ trials ∨ found = trial := by
  induction trials with
  | nil => exact .inr (mem_singleton.mp member)
  | cons head tail induction => grind [mergeTrial]

theorem mem_of_mem_mergeUnclaimed (member : found ∈ mergeUnclaimed trials preMeasured) :
    found ∈ trials ∨ found ∈ preMeasured := by
  induction preMeasured generalizing trials with
  | nil => exact .inl member
  | cons head tail induction =>
    rcases induction member with merged | inTail
    · grind [mem_of_mem_mergeTrial]
    · exact .inr (mem_cons_of_mem _ inTail)

end Merge

section Cover

variable {objective : Objective Median} {configs required : List Config}
  {existing : List (Trial Median)}

theorem requiredIndices_spec {known indices : List Nat}
    (found : required.foldlM (requireIndex configs) known = .ok indices) (distinct : known.Nodup)
    (inside : ∀ index ∈ known, index < configs.length) :
    indices.Nodup ∧ (∀ index ∈ indices, index < configs.length) ∧ known ⊆ indices ∧
      ∀ config ∈ required, ∃ index ∈ indices, idAt configs index = config.id := by
  induction required generalizing known with
  | nil =>
    cases found
    exact ⟨distinct, inside, Subset.refl _, nofun⟩
  | cons head tail induction =>
    rw [foldlM_cons] at found
    rcases bind_eq_ok_iff.mp found with ⟨grown, isGrown, found⟩
    unfold requireIndex at isGrown
    split at isGrown <;> cases isGrown
    rename_i index isIndex
    rcases findIdx?_eq_some_iff_getElem.mp isIndex with ⟨inRange, named, -⟩
    have isId : idAt configs index = head.id := by
      rw [idAt, getElem?_eq_getElem inRange]
      exact of_decide_eq_true named
    rcases induction found (by grind) (by grind) with ⟨nodup, bounded, grows, covers⟩
    exact ⟨nodup, bounded, by grind, forall_mem_cons.mpr ⟨⟨index, by grind, isId⟩, covers⟩⟩

/-- The trials that a run starts from are fine. -/
structure Sources (objective : Objective Median) (configs : List Config)
    (existing : List (Trial Median)) (Fine : Trial Median → Prop) : Prop where
  measured : ∀ {index}, index < configs.length → ∀ history,
    Fine (measure objective configs history index)
  resumed : ∀ trial ∈ existing, Fine trial

structure Covered (configs : List Config) (existing : List (Trial Median))
    (Fine : Trial Median → Prop) (seen : List Nat) (progress : Progress Median) : Prop where
  cached : ∀ index ∈ seen, ∃ trial, progress.cache index = some trial ∧
    trial.configId = idAt configs index
  fine : ∀ {index trial}, progress.cache index = some trial → Fine trial
  nodup : progress.history.Nodup
  fresh : ∀ index ∈ progress.history, index ∈ seen ∧
    resumed existing (idAt configs index) = none

variable {Fine : Trial Median → Prop} {seen indices : List Nat} {progress : Progress Median}

theorem Covered.step (sources : Sources objective configs existing Fine)
    (covered : Covered configs existing Fine seen progress) {index : Nat}
    (inside : index < configs.length) (unseen : index ∉ seen) :
    Covered configs existing Fine (seen ++ [index])
      (cover objective configs existing progress index) := by
  rcases covered with ⟨cached, fine, nodup, fresh⟩
  have isId : ∀ history, (measure objective configs history index).configId =
      idAt configs index := by
    intro history
    rw [measure, idAt, getElem?_eq_getElem inside]
    rfl
  have isFine := sources.measured inside progress.history
  unfold cover
  split
  · rename_i trial isResumed
    have known := sources.resumed trial (mem_of_find?_eq_some isResumed)
    have named := find?_some isResumed
    constructor <;> grind [update_apply]
  · constructor <;> grind [update_apply]

theorem Covered.foldl (sources : Sources objective configs existing Fine)
    (covered : Covered configs existing Fine seen progress)
    (inside : ∀ index ∈ indices, index < configs.length) (distinct : (seen ++ indices).Nodup) :
    Covered configs existing Fine (seen ++ indices)
      (indices.foldl (cover objective configs existing) progress) := by
  induction indices generalizing seen progress with
  | nil => simpa using covered
  | cons head tail induction =>
    have step := covered.step sources (inside head mem_cons_self) (by grind)
    simpa using induction step (by grind) (by simpa using distinct)

theorem measured_of_requireMeasured {cache : Nat → Option (Trial Median)}
    (required : requireMeasured configs cache indices = .ok ()) {index : Nat}
    (member : index ∈ indices) {trial : Trial Median} (cached : cache index = some trial) :
    trial.medianMs.isSome := by
  rcases trial with ⟨id, median | reason⟩
  · rfl
  · induction indices with
    | nil => cases member
    | cons head tail induction => grind [requireMeasured]

theorem fine_of_visit (sources : Sources objective configs existing Fine) {visits : List Nat}
    (inside : ∀ index ∈ visits, index < configs.length)
    {state : Progress Median × List (Trial Median)}
    (cached : ∀ {index trial}, state.1.cache index = some trial → Fine trial)
    (given : ∀ trial ∈ state.2, Fine trial) :
    ∀ trial ∈ (visits.foldl (visit objective configs) state).2, Fine trial := by
  induction visits generalizing state with
  | nil => exact given
  | cons head tail induction =>
    have isFine := sources.measured (inside head mem_cons_self) state.1.history
    apply induction (by grind) <;> unfold visit <;> split <;> grind [update_apply]

end Cover

theorem bestConfig_eq [LinearOrder Median] (configs : List Config) (trials : List (Trial Median)) :
    bestConfig configs trials =
      ((trials.filterMap (candidate configs)).argmin Prod.snd).map Prod.fst := by
  have same : better = argAux fun (next best : Config × Median) => next.2 < best.2 := by
    funext best next
    cases best <;> simp [better, argAux]
  rw [bestConfig, same]
  rfl

theorem bestConfig_le [LinearOrder Median] {configs : List Config} {trials : List (Trial Median)}
    {trial : Trial Median} {median : Median} (member : trial ∈ trials)
    (isMedian : trial.medianMs = some (some median))
    (known : ∃ config ∈ configs, config.id = trial.configId) :
    ∃ best winner other, bestConfig configs trials = some best ∧ winner ∈ trials ∧
      winner.configId = best.id ∧ winner.medianMs = some (some other) ∧ other ≤ median := by
  have found : (configs.find? fun config => config.id = trial.configId).isSome := by
    simpa [find?_isSome] using known
  rcases Option.isSome_iff_exists.mp found with ⟨config, isConfig⟩
  have isCandidate : candidate configs trial = some (config, median) := by
    simp [candidate, isMedian, isConfig]
  have isMember := mem_filterMap.mpr ⟨trial, member, isCandidate⟩
  rw [bestConfig_eq]
  cases isBest : (trials.filterMap (candidate configs)).argmin Prod.snd with
  | none =>
    rw [argmin_eq_none.mp isBest] at isMember
    cases isMember
  | some =>
    rcases mem_filterMap.mp (argmin_mem isBest) with ⟨winner, isWinner, wins⟩
    simp only [candidate, Option.bind_eq_bind, Option.bind_eq_some_iff, Option.join_eq_some_iff]
      at wins
    rcases wins with ⟨ms, isMs, config, isWinning, ⟨⟩⟩
    have named := find?_some isWinning
    exact ⟨config, winner, ms, rfl, isWinner, (of_decide_eq_true named).symm, isMs,
      le_of_mem_argmin isMember isBest⟩

/-- A trial of a required config that measured, measured something finite. -/
def Fine (required : List Config) (trial : Trial Median) : Prop :=
  trial.configId ∈ required.map Config.id → trial.state ≠ .measured none

end CuTile.Tuning
