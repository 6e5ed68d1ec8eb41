import CuTile.Launch.Marshalling

/-! # Launch plans

A plan is one resolved launch kept as a template. A replay compares the layouts of its
arguments with those of the template, overwrites one slot per parameter and submits the
rest as it was, without evaluating any launch check again.
-/

namespace CuTile

open Fallible List Segments

/-! ## Layouts -/

structure TensorLayout where
  dtype : DTypeId
  deviceId : Nat
  shape : List Int
  strides : List Int
  spec : SpecializationBits
  partition : Option PartitionParts
deriving DecidableEq

/-- What a resolved launch depends on in one argument, apart from its pointer or value. -/
inductive ArgLayout where
  | tensor (layout : TensorLayout)
  | scalar (dtype : DTypeId) (hint : Option DivHint)
  | pointer (dtype : DTypeId) (hint : DivHint)
deriving DecidableEq

/-- A layout without the hint of a scalar, which depends on its value. -/
inductive LayoutKey where
  | tensor (layout : TensorLayout)
  | scalar (dtype : DTypeId)
  | pointer (dtype : DTypeId) (hint : DivHint)
deriving DecidableEq

namespace ArgLayout

/-- How many driver arguments the parameter marshals to. -/
def argCount : ArgLayout → Nat
  | tensor layout =>
    1 + layout.shape.length + layout.strides.length +
      layout.partition.elim 0 fun partition =>
        partition.shape.length + partition.strides.length
  | scalar .. | pointer .. => 1

def key : ArgLayout → LayoutKey
  | tensor layout => .tensor layout
  | scalar dtype _ => .scalar dtype
  | pointer dtype hint => .pointer dtype hint

end ArgLayout

def TensorArg.layout (arg : TensorArg) : TensorLayout where
  dtype := arg.dtype
  deviceId := arg.deviceId
  shape := arg.shape
  strides := arg.strides
  spec := arg.spec
  partition := arg.partition

/-- The layout the launcher records, or the name of a binding that has none. -/
def Parameter.planLayout (parameter : Parameter) : Except String ArgLayout :=
  match parameter.binding with
  | .tensor arg => .ok (.tensor arg.layout)
  | .scalar value =>
    .ok (.scalar value.dtype
      (if parameter.kind.hinted then some (DivHint.fromValue value.asI32) else none))
  | .pointer dtype ptr => .ok (.pointer dtype (DivHint.fromPtr ptr.toNat))
  | .unrecorded what .. => .error what

/-- A value that a replay passes for a parameter. -/
inductive PlanArg where
  | tensor (arg : TensorArg)
  | scalar (value : ScalarValue)
deriving DecidableEq

namespace PlanArg

def layoutKey : PlanArg → LayoutKey
  | tensor arg => .tensor arg.layout
  | scalar value => .scalar value.dtype

def valueHint : PlanArg → Option DivHint
  | tensor _ => none
  | scalar value => value.divHint

def slotValue : PlanArg → Slot
  | tensor arg => arg.devicePtr.setWidth 128
  | scalar value => value.scalarBits

def binding : PlanArg → Binding
  | tensor arg => .tensor arg
  | scalar value => .scalar value

end PlanArg

def argMatches (arg : PlanArg) (layout : ArgLayout) : Bool :=
  arg.layoutKey = layout.key &&
    match layout with
    | .scalar _ (some hint) => arg.valueHint = some hint
    | _ => true

/-! ## Plans -/

structure LaunchConfig where
  gridDim : Grid
  blockDim : Grid
  sharedMemBytes : Nat

/-- A launch that was marshalled and configured but not submitted. -/
structure CapturedLaunch where
  storage : KernelArgStorage
  cfg : Option LaunchConfig
  launchChecks : List LaunchCheck
  layouts : List (Except String ArgLayout)
  paramStarts : List Nat

/-- What the generated launcher hands to the plan instead of submitting. -/
def capture (checks : List LaunchCheck) (parameters : List Parameter) (grid : Grid) :
    CapturedLaunch where
  storage := (marshal parameters).storage
  cfg := some { gridDim := grid, blockDim := (1, 1, 1), sharedMemBytes := 0 }
  launchChecks := checks
  layouts := parameters.map Parameter.planLayout
  paramStarts := (marshal parameters).starts

structure PlanParam where
  layout : ArgLayout
  slot : Nat

structure PlanInner where
  cfg : LaunchConfig
  deviceId : Nat
  values : List Slot
  offsets : List Nat
  params : List PlanParam

inductive PlanError where
  | launch (message : String)
  | internal (message : String)

/-- Whether every replay of a plan resolves the atom as the captured launch did. -/
def fixedByPlan : Atom → Bool
  | .dim .. | .viewExtent .. | .tileCount .. => true
  | .numTileBlocks _ => true
  | .iv _ | .tileBlockId _ => false

/-- The slot and layout of the parameter at `index`. Its arguments end where those of
the next parameter start. -/
def planParam (offsets starts : List Nat) (index : Nat) :
    Except String ArgLayout → Except PlanError PlanParam
  | .error what =>
    .error (.launch s!"launch plans do not support parameter {index} ({what})")
  | .ok layout =>
    let start := starts.getD index 0
    let stop := starts.getD (index + 1) offsets.length
    if ¬(start ≤ stop ∧ stop - start = layout.argCount) then
      .error (.internal (s!"planned launch marshalled parameter {index} as arguments "
        ++ s!"{start}..{stop}; its layout accounts for {layout.argCount}"))
    else
      match offsets[start]? with
      | none =>
        .error (.internal s!"planned launch has no argument {start} for parameter {index}")
      | some slot => .ok ⟨layout, slot⟩

def planParams (offsets starts : List Nat) :
    Nat → List (Except String ArgLayout) → Except PlanError (List PlanParam)
  | _, [] => .ok []
  | index, layout :: rest => do
    let param ← planParam offsets starts index layout
    let params ← planParams offsets starts (index + 1) rest
    return param :: params

namespace PlanInner

def fromLaunch (deviceId : Nat) (captured : CapturedLaunch) : Except PlanError PlanInner :=
  match captured.launchChecks.find? fun check => !check.predicate.term.atoms.all fixedByPlan with
  | some check =>
    .error (.launch ("launch plans do not support this kernel: a launch check depends on "
      ++ s!"more than argument layouts and the grid ({check.cause})"))
  | none =>
  match captured.cfg with
  | none => .error (.internal "planned launch has no launch config")
  | some cfg =>
  match captured.storage.offsets.find? (captured.storage.values.length ≤ ·) with
  | some offset =>
    .error (.internal (s!"planned launch has an argument at slot {offset} of "
      ++ s!"{captured.storage.values.length}"))
  | none =>
  if captured.paramStarts.length ≠ captured.layouts.length then
    .error (.internal (s!"planned launch recorded {captured.paramStarts.length} parameter "
      ++ s!"starts for {captured.layouts.length} parameters"))
  else if captured.paramStarts.head?.getD captured.storage.offsets.length ≠ 0 then
    .error (.internal "planned launch has arguments outside every parameter")
  else do
    let params ← planParams captured.storage.offsets captured.paramStarts 0 captured.layouts
    return {
      cfg
      deviceId
      values := captured.storage.values
      offsets := captured.storage.offsets
      params }

variable (plan : PlanInner)

/-- One argument per parameter of the plan's kernel. -/
def ArgTuple : Type := { args : List PlanArg // args.length = plan.params.length }

def slots : List Nat := plan.params.map PlanParam.slot

def matchesArgs (args : plan.ArgTuple) : Bool :=
  (args.val.zip plan.params).all fun entry => argMatches entry.1 entry.2.layout

/-- The template with the pointer or value of each argument in its parameter's slot. -/
def patch (args : plan.ArgTuple) : List Slot :=
  Segments.writeAll plan.values (plan.slots.zip (args.val.map PlanArg.slotValue))

/-- The first argument that does not match is reported; `debug` renders its layout. -/
def checkFrom (debug : ArgLayout → String) :
    Nat → List (PlanArg × PlanParam) → Except PlanError Unit
  | _, [] => .ok ()
  | index, (arg, param) :: rest =>
    if argMatches arg param.layout then checkFrom debug (index + 1) rest
    else .error (.launch (s!"argument {index} does not match the layout the plan was built "
      ++ s!"for: {debug param.layout}"))

def check (debug : ArgLayout → String) (args : plan.ArgTuple) : Except PlanError Unit :=
  checkFrom debug 0 (args.val.zip plan.params)

end PlanInner

/-- What the driver is given: the grid and the arguments, each by its slot. -/
structure Submission where
  cfg : LaunchConfig
  values : List Slot
  offsets : List Nat

/-- The layouts of a replay's arguments are checked unless the caller already did. -/
inductive LayoutCheck where
  | pending
  | done
deriving DecidableEq

def PlanInner.execute (plan : PlanInner) (debug : ArgLayout → String) (layout : LayoutCheck)
    (deviceId : Nat) (args : plan.ArgTuple) : Except PlanError Submission :=
  if deviceId ≠ plan.deviceId then
    .error (.launch (s!"launch plan was built for device {plan.deviceId}, the stream is on "
      ++ s!"device {deviceId}"))
  else do
    match layout with
    | .pending => plan.check debug args
    | .done => .ok ()
    return { cfg := plan.cfg, values := plan.patch args, offsets := plan.offsets }

/-- The submission of the generated launcher itself. -/
def launch (parameters : List Parameter) (grid : Grid) : Submission where
  cfg := { gridDim := grid, blockDim := (1, 1, 1), sharedMemBytes := 0 }
  values := (marshal parameters).storage.values
  offsets := (marshal parameters).storage.offsets

/-! ## Building a plan -/

section Building

variable {offsets starts : List Nat} {index : Nat}

theorem planParam_eq_ok {layout : Except String ArgLayout} {param : PlanParam}
    (ok : planParam offsets starts index layout = .ok param) :
    layout = .ok param.layout ∧ offsets[starts.getD index 0]? = some param.slot := by
  cases layout with
  | error => cases ok
  | ok =>
    rw [planParam] at ok
    split_ifs at ok
    split at ok
    · cases ok
    · rename_i slot isSlot
      cases ok
      exact ⟨rfl, isSlot⟩

/-- The parameters of a plan have the recorded layouts, and the slots of the arguments
that their parameters start with. -/
theorem planParams_eq_ok {layouts : List (Except String ArgLayout)} {params : List PlanParam}
    (ok : planParams offsets starts index layouts = .ok params) :
    layouts = params.map (fun param => .ok param.layout) ∧
      ∀ position param, params[position]? = some param →
        offsets[starts.getD (index + position) 0]? = some param.slot := by
  induction layouts generalizing index params with
  | nil =>
    cases ok
    exact ⟨rfl, nofun⟩
  | cons _ _ induction =>
    rcases bind_eq_ok_iff.mp ok with ⟨param, here, ok⟩
    rcases bind_eq_ok_iff.mp ok with ⟨_, isLater, ok⟩
    cases pure_eq_ok_iff.mp ok
    rcases planParam_eq_ok here with ⟨isLayout, isSlot⟩
    rcases induction isLater with ⟨areLayouts, areSlots⟩
    refine ⟨by rw [isLayout, areLayouts, map_cons], fun position other isOther => ?_⟩
    cases position with
    | zero =>
      cases isOther
      exact isSlot
    | succ position =>
      have found := areSlots position other isOther
      rwa [Nat.add_right_comm, Nat.add_assoc] at found

end Building

theorem Parameter.recorded_of_planLayout {parameter : Parameter} {layout : ArgLayout}
    (isLayout : parameter.planLayout = .ok layout) : parameter.binding.Recorded := by
  rw [planLayout] at isLayout
  cases binding : parameter.binding with
  | tensor | scalar | pointer => trivial
  | unrecorded => rw [binding] at isLayout; cases isLayout

/-- The template of a plan is the launch it was captured from, and its slots are those
that the parameters start at. -/
structure PlanInner.Template (plan : PlanInner) (parameters : List Parameter) (grid : Grid) :
    Prop where
  layouts : parameters.map Parameter.planLayout = plan.params.map fun param => .ok param.layout
  submission : launch parameters grid = ⟨plan.cfg, plan.values, plan.offsets⟩
  values : plan.values = (parameterSlots parameters).flatten
  offsets : plan.offsets = List.range (parameterSlots parameters).flatten.length
  starts : (marshal parameters).starts = plan.slots
  slots : plan.slots = Segments.startsFrom 0 (parameterSlots parameters)
  nonempty : ∀ segment ∈ parameterSlots parameters, segment ≠ []

theorem fromLaunch_eq_ok {deviceId : Nat} {captured : CapturedLaunch} {plan : PlanInner}
    (built : PlanInner.fromLaunch deviceId captured = .ok plan) :
    captured.cfg = some plan.cfg ∧ plan.values = captured.storage.values ∧
      plan.offsets = captured.storage.offsets ∧
      planParams captured.storage.offsets captured.paramStarts 0 captured.layouts =
        .ok plan.params := by
  rw [PlanInner.fromLaunch] at built
  split at built
  · cases built
  · split at built
    · cases built
    · rename_i cfg isCfg
      split at built
      · cases built
      · split_ifs at built
        rcases bind_eq_ok_iff.mp built with ⟨params, areParams, isPlan⟩
        cases pure_eq_ok_iff.mp isPlan
        exact ⟨isCfg, rfl, rfl, areParams⟩

variable {parameters : List Parameter}

theorem template_of_fromLaunch {deviceId : Nat} {checks : List LaunchCheck} {grid : Grid}
    {plan : PlanInner}
    (built : PlanInner.fromLaunch deviceId (capture checks parameters grid) = .ok plan) :
    plan.Template parameters grid := by
  rcases fromLaunch_eq_ok built with ⟨isCfg, values, offsets, params⟩
  rcases planParams_eq_ok params with ⟨layouts, slots⟩
  have recorded : ∀ parameter ∈ parameters, parameter.binding.Recorded := by
    intro parameter member
    have known : parameter.planLayout ∈ plan.params.map fun param => .ok param.layout :=
      layouts ▸ mem_map_of_mem member
    rcases mem_map.mp known with ⟨param, _, isLayout⟩
    exact Parameter.recorded_of_planLayout isLayout.symm
  have starts := (marshal_eq recorded).2
  have nonempty : ∀ segment ∈ parameterSlots parameters, segment ≠ [] := by
    intro segment member
    rcases mem_map.mp member with ⟨parameter, isParameter, rfl⟩
    exact Binding.slots_ne_nil (recorded parameter isParameter)
  have allValues : plan.values = (parameterSlots parameters).flatten :=
    values.trans (marshal_storage recorded).1
  have allOffsets : plan.offsets = range (parameterSlots parameters).flatten.length :=
    offsets.trans (marshal_storage recorded).2
  have count : plan.params.length = parameters.length := by
    rw [← length_map (f := fun param : PlanParam => Except.ok param.layout), ← layouts,
      capture, length_map]
  have submission : launch parameters grid = ⟨plan.cfg, plan.values, plan.offsets⟩ := by
    rw [launch, values, offsets]
    exact congrArg (Submission.mk · _ _) (Option.some.inj isCfg)
  have allSlots : plan.slots = startsFrom 0 (parameterSlots parameters) := by
    apply ext_getElem
    · rw [PlanInner.slots, length_map, length_startsFrom, count, parameterSlots,
        length_map]
    · intro position inside started
      have isParam : position < plan.params.length := by
        rwa [PlanInner.slots, length_map] at inside
      have isSlot := slots position _ (getElem?_eq_getElem isParam)
      have isStart : (capture checks parameters grid).paramStarts.getD (0 + position) 0 =
          (startsFrom 0 (parameterSlots parameters))[position] := by
        rw [capture, starts, Nat.zero_add, getD_eq_getElem?_getD,
          getElem?_eq_getElem started, Option.getD_some]
      have bound := mem_startsFrom nonempty _ (getElem_mem started)
      rw [isStart, ← offsets, allOffsets, getElem?_range (by omega),
        Option.some.injEq] at isSlot
      rw [isSlot]
      exact getElem_map _
  exact ⟨layouts, submission, allValues, allOffsets, starts.trans allSlots.symm, allSlots,
    nonempty⟩

/-! ## Replaying a plan -/

/-- The parameter of a launch that is given the argument of a replay. -/
def Parameter.rebind (parameter : Parameter) (arg : PlanArg) : Parameter :=
  { parameter with binding := arg.binding }

def rebind (parameters : List Parameter) (args : List PlanArg) : List Parameter :=
  List.zipWith Parameter.rebind parameters args

/-- The argument has the layout recorded for the parameter. -/
def Fits (parameter : Parameter) (arg : PlanArg) : Prop :=
  ∃ layout, parameter.planLayout = .ok layout ∧ argMatches arg layout = true

namespace Fits

theorem key_eq {arg : PlanArg} {layout : ArgLayout} (isMatch : argMatches arg layout = true) :
    arg.layoutKey = layout.key :=
  decide_eq_true_iff.mp (Bool.and_eq_true_iff.mp isMatch).1

variable {parameter : Parameter} {arg : PlanArg}

section

variable (fits : Fits parameter arg)

include fits

/-- An argument that fits is of the parameter's kind and, as a tensor, has its layout. -/
theorem cases_binding :
    (∃ bound given, parameter.binding = .tensor bound ∧ arg = .tensor given ∧
      given.shape = bound.shape ∧ given.strides = bound.strides ∧
      given.partition = bound.partition) ∨
    ∃ bound given, parameter.binding = .scalar bound ∧ arg = .scalar given := by
  rcases fits with ⟨layout, isLayout, isMatch⟩
  have sameKey := key_eq isMatch
  rw [Parameter.planLayout] at isLayout
  cases binding : parameter.binding <;> rw [binding] at isLayout <;> cases isLayout <;> cases arg
  case tensor.refl.tensor bound given =>
    have same := LayoutKey.tensor.inj sameKey
    exact .inl ⟨bound, given, rfl, rfl, congrArg TensorLayout.shape same,
      congrArg TensorLayout.strides same, congrArg TensorLayout.partition same⟩
  case scalar.refl.scalar bound given => exact .inr ⟨bound, given, rfl, rfl⟩
  all_goals cases sameKey

/-- A launch with the argument marshals it in the parameter's first slot, and the
parameter's other slots as they are. -/
theorem slots_rebind :
    (parameter.rebind arg).binding.slots = arg.slotValue :: parameter.binding.slots.tail := by
  rcases cases_binding fits with
    ⟨bound, given, isBound, rfl, shape, strides, partition⟩ | ⟨bound, given, isBound, rfl⟩
  · have tail : given.layoutSlots = bound.layoutSlots := by
      rw [TensorArg.layoutSlots, TensorArg.layoutSlots, shape, strides, partition]
    rw [isBound]
    exact congrArg (cons _) tail
  · rw [isBound]
    rfl

theorem paramShape_rebind :
    (parameter.rebind arg).binding.paramShape = parameter.binding.paramShape := by
  rcases cases_binding fits with
    ⟨bound, given, isBound, rfl, shape, -, -⟩ | ⟨bound, given, isBound, rfl⟩
  · rw [isBound]
    exact shape
  · rw [isBound]
    rfl

theorem viewShape_rebind :
    (parameter.rebind arg).binding.viewShape = parameter.binding.viewShape := by
  rcases cases_binding fits with
    ⟨bound, given, isBound, rfl, shape, -, partition⟩ | ⟨bound, given, isBound, rfl⟩
  · have view : given.viewShape = bound.viewShape := by
      rw [TensorArg.viewShape, TensorArg.viewShape, shape, partition]
    rw [isBound]
    exact view
  · rw [isBound]
    rfl

end

end Fits

theorem recorded_rebind (parameters : List Parameter) (args : List PlanArg) :
    ∀ parameter ∈ rebind parameters args, parameter.binding.Recorded := by
  intro _ member
  rw [rebind, ← map_uncurry_zip_eq_zipWith] at member
  rcases mem_map.mp member with ⟨⟨_, arg⟩, _, rfl⟩
  cases arg <;> trivial

variable {args : List PlanArg}

theorem map_rebind {β : Type} (fits : Forall₂ Fits parameters args) (read : Parameter → β)
    (same : ∀ parameter arg, Fits parameter arg → read (parameter.rebind arg) = read parameter) :
    (rebind parameters args).map read = parameters.map read := by
  induction fits with
  | nil => rfl
  | cons here _ induction => exact congrArg₂ cons (same _ _ here) induction

theorem launchFrame_rebind (checks : List LaunchCheck) (fits : Forall₂ Fits parameters args)
    (grid : Grid) :
    launchFrame checks (rebind parameters args) grid = launchFrame checks parameters grid := by
  rw [launchFrame, launchFrame,
    map_rebind fits (fun parameter => parameter.binding.paramShape) fun _ _ =>
      Fits.paramShape_rebind,
    map_rebind fits (fun parameter => parameter.binding.viewShape) fun _ _ =>
      Fits.viewShape_rebind]

theorem parameterSlots_rebind (fits : Forall₂ Fits parameters args) :
    parameterSlots (rebind parameters args) =
      replaceHeads (parameterSlots parameters) (args.map PlanArg.slotValue) := by
  induction fits with
  | nil => rfl
  | cons here _ induction => exact congrArg₂ cons (Fits.slots_rebind here) induction

/-- The arguments of a replay fit the parameters that the plan was captured with. -/
theorem fits_of_matches {params : List PlanParam}
    (layouts : parameters.map Parameter.planLayout = params.map fun param => .ok param.layout)
    (each : args.length = params.length)
    (areMatches : (args.zip params).all (fun entry => argMatches entry.1 entry.2.layout) = true) :
    Forall₂ Fits parameters args := by
  induction params generalizing parameters args with
  | nil =>
    rw [length_eq_zero_iff.mp each, map_eq_nil_iff.mp layouts]
    exact .nil
  | cons param _ induction =>
    cases parameters with
    | nil => cases layouts
    | cons =>
      cases args with
      | nil => cases each
      | cons =>
        rw [map_cons, map_cons, cons.injEq] at layouts
        rw [zip_cons_cons, all_cons, Bool.and_eq_true_iff] at areMatches
        exact .cons ⟨param.layout, layouts.1, areMatches.1⟩
          (induction layouts.2 (Nat.succ.inj each) areMatches.2)

namespace PlanInner

theorem checkFrom_eq_ok_iff (debug : ArgLayout → String) (index : Nat)
    (entries : List (PlanArg × PlanParam)) :
    checkFrom debug index entries = .ok () ↔
      entries.all (fun entry => argMatches entry.1 entry.2.layout) = true := by
  induction entries generalizing index with
  | nil => exact iff_of_true rfl rfl
  | cons _ _ induction =>
    rw [checkFrom, all_cons, Bool.and_eq_true_iff, ← induction (index + 1)]
    split_ifs with isMatch
    · exact (and_iff_right isMatch).symm
    · exact iff_of_false nofun fun both => isMatch both.1

/-- The test that reports a mismatch accepts the same arguments as the one that does
not. -/
theorem check_eq_ok_iff (plan : PlanInner) (debug : ArgLayout → String) (args : plan.ArgTuple) :
    plan.check debug args = .ok () ↔ plan.matchesArgs args = true :=
  checkFrom_eq_ok_iff debug 0 _

theorem map_fst_writes (plan : PlanInner) (args : plan.ArgTuple) :
    (plan.slots.zip (args.val.map PlanArg.slotValue)).map Prod.fst = plan.slots := by
  apply map_fst_zip
  rw [slots, length_map, length_map, args.property]

variable {plan : PlanInner} {parameters : List Parameter} {grid : Grid}

namespace Template

section

variable (template : plan.Template parameters grid)

include template

theorem nodup_slots : plan.slots.Nodup := by
  rw [template.slots]
  exact nodup_startsFrom template.nonempty

theorem slots_lt : ∀ slot ∈ plan.slots, slot < plan.values.length := by
  intro slot member
  rw [template.slots] at member
  have bounds := mem_startsFrom template.nonempty slot member
  rw [template.values]
  omega

/-- A replay that fits submits what a launch with its arguments would. -/
theorem launch_rebind {args : plan.ArgTuple} (fits : Forall₂ Fits parameters args.val) :
    launch (rebind parameters args.val) grid = ⟨plan.cfg, plan.patch args, plan.offsets⟩ := by
  have marshalled := marshal_storage (recorded_rebind parameters args.val)
  have each : (args.val.map PlanArg.slotValue).length = (parameterSlots parameters).length := by
    rw [length_map, parameterSlots, length_map]
    exact fits.length_eq.symm
  have patched : plan.patch args = (parameterSlots (rebind parameters args.val)).flatten := by
    rw [patch, template.slots, template.values, parameterSlots_rebind fits]
    exact writeAll_starts template.nonempty each
  have asLong : (plan.patch args).length = plan.values.length := length_writeAll _ _
  have cfg := congrArg Submission.cfg template.submission
  rw [launch, marshalled.1, marshalled.2, ← patched, asLong, template.values, ← template.offsets]
  exact congrArg (Submission.mk · _ _) cfg

/-- The slot of a parameter holds the first argument that the launch marshalled for it. -/
theorem values_slot {position slot : Nat} {parameter : Parameter}
    (isParameter : parameters[position]? = some parameter)
    (isSlot : plan.slots[position]? = some slot) :
    plan.values[slot]? = parameter.binding.firstArgument := by
  have isSegment : (parameterSlots parameters)[position]? = some parameter.binding.slots := by
    rw [parameterSlots, getElem?_map, isParameter]
    rfl
  rw [template.slots] at isSlot
  rw [template.values, ← Binding.head?_slots]
  exact getElem?_flatten_start isSegment isSlot
    (template.nonempty _ (mem_of_getElem? isSegment))

theorem written_slot {heads : List Slot} {position slot : Nat} {head : Slot}
    (each : plan.slots.length ≤ heads.length)
    (isSlot : plan.slots[position]? = some slot) (isHead : heads[position]? = some head) :
    (writeAll plan.values (plan.slots.zip heads))[slot]? = some head := by
  have written : (plan.slots.zip heads)[position]? = some (slot, head) :=
    getElem?_zip_eq_some.mpr ⟨isSlot, isHead⟩
  apply getElem?_writeAll_of_mem _ _ (mem_of_getElem? written)
  · rw [map_fst_zip each]
    exact template.nodup_slots
  · intro write member
    exact template.slots_lt _ (of_mem_zip member).1

theorem patch_slot {args : plan.ArgTuple} {position slot : Nat} {arg : PlanArg}
    (isSlot : plan.slots[position]? = some slot) (isArg : args.val[position]? = some arg) :
    (plan.patch args)[slot]? = some arg.slotValue :=
  template.written_slot (by simp [PlanInner.slots, args.property]) isSlot (by simp [isArg])

end

end Template

theorem patch_unpatched (args : plan.ArgTuple) {slot : Nat} (unpatched : slot ∉ plan.slots) :
    (plan.patch args)[slot]? = plan.values[slot]? := by
  apply getElem?_writeAll_of_notMem
  rwa [plan.map_fst_writes]

/-- What a replay with `args` shares with the launch that the plan was captured from, and
with a launch of the same kernel that is given `args`. -/
structure Replays (plan : PlanInner) (checks : List LaunchCheck) (parameters : List Parameter)
    (grid : Grid) (args : plan.ArgTuple) : Prop where
  sameChecks : ∀ check ∈ checks,
    evaluateLaunchCheck check
        (launchFrame checks (rebind parameters args.val) plan.cfg.gridDim) =
      evaluateLaunchCheck check (launchFrame checks parameters grid)
  oneSlotEach : plan.slots.length = parameters.length
  distinctSlots : plan.slots.Nodup
  firstArgument : ∀ (position slot : Nat) (parameter : Parameter),
    plan.slots[position]? = some slot → parameters[position]? = some parameter →
      slot < plan.values.length ∧ plan.values[slot]? = parameter.binding.firstArgument ∧
        ∃ start, (marshal parameters).starts[position]? = some start ∧
          plan.offsets[start]? = some slot
  patched : ∀ (position slot : Nat) (arg : PlanArg), plan.slots[position]? = some slot →
    args.val[position]? = some arg → (plan.patch args)[slot]? = some arg.slotValue
  unpatched : ∀ slot, slot ∉ plan.slots →
    plan.values[slot]? = (launch (rebind parameters args.val) plan.cfg.gridDim).values[slot]?
  submitted : ∀ debug layout, plan.execute debug layout plan.deviceId args =
    .ok (launch (rebind parameters args.val) plan.cfg.gridDim)

end PlanInner

theorem replay_refines_launch {deviceId : Nat} {checks : List LaunchCheck}
    {parameters : List Parameter} {grid : Grid} {plan : PlanInner}
    (built : PlanInner.fromLaunch deviceId (capture checks parameters grid) = .ok plan)
    (args : plan.ArgTuple) (areMatches : plan.matchesArgs args = true) :
    plan.Replays checks parameters grid args := by
  have template := template_of_fromLaunch built
  have fits := fits_of_matches template.layouts args.property areMatches
  have sameGrid : plan.cfg.gridDim = grid :=
    congrArg (fun submission => submission.cfg.gridDim) template.submission.symm
  have fresh := template.launch_rebind fits
  rw [← sameGrid] at fresh
  refine
    { sameChecks := ?_
      oneSlotEach := ?_
      distinctSlots := template.nodup_slots
      firstArgument := ?_
      patched := fun position slot arg => template.patch_slot
      unpatched := ?_
      submitted := ?_ }
  · intro check _
    rw [launchFrame_rebind checks fits, sameGrid]
  · rw [template.slots, length_startsFrom, parameterSlots, length_map]
  · intro position slot parameter isSlot isParameter
    refine ⟨template.slots_lt slot (mem_of_getElem? isSlot),
      template.values_slot isParameter isSlot, slot, ?_, ?_⟩
    · rw [template.starts, isSlot]
    · have inside := template.slots_lt slot (mem_of_getElem? isSlot)
      rw [template.values] at inside
      rw [template.offsets, getElem?_range inside]
  · intro slot unpatched
    rw [fresh]
    exact (PlanInner.patch_unpatched args unpatched).symm
  · intro debug layout
    have accepted := (plan.check_eq_ok_iff debug args).mpr areMatches
    rw [fresh, PlanInner.execute, if_neg (not_not.mpr rfl)]
    cases layout with
    | pending => rw [accepted]; rfl
    | done => rfl

/-- An output of sixteen elements in slabs of four, and an integer. -/
theorem replay_refines_launch_vector :
    let spec : SpecializationBits := ⟨[⟨16, 16⟩], [⟨1, 16⟩], [true], ⟨16, 16⟩, true⟩
    let output (ptr : BitVec 64) : TensorArg :=
      ⟨.f32, 0, ptr, [16], [1], spec, some ⟨[4], [1], false⟩⟩
    let check : LaunchCheck := ⟨.positive (.atom (.dim 0 0)), "nonempty"⟩
    let parameters : List Parameter :=
      [⟨.other, .tensor (output 4096)⟩, ⟨.scalar .i32, .scalar ⟨.i32, 8#32⟩⟩]
    ∃ plan, PlanInner.fromLaunch 0 (capture [check] parameters (4, 1, 1)) = .ok plan ∧
      ∃ args : plan.ArgTuple,
        args.val = [.tensor (output 8192), .scalar ⟨.i32, 24#32⟩] ∧
        plan.matchesArgs args = true ∧ plan.Replays [check] parameters (4, 1, 1) args := by
  intro spec output check parameters
  have hinted : argMatches (.scalar ⟨.i32, 24#32⟩)
      (.scalar .i32 (some (DivHint.fromValue (ScalarValue.mk .i32 8#32).asI32))) = true := by
    decide +kernel
  have aligned : argMatches (.tensor (output 8192)) (.tensor (output 4096).layout) = true := rfl
  have areMatches := Bool.and_eq_true_iff.mpr ⟨aligned, Bool.and_eq_true_iff.mpr ⟨hinted, rfl⟩⟩
  exact ⟨_, rfl, ⟨[.tensor (output 8192), .scalar ⟨.i32, 24#32⟩], rfl⟩, rfl, areMatches,
    replay_refines_launch rfl _ areMatches⟩

end CuTile
