import CuTile.Bytecode.IndexSimulation

/-! # What the verifier predicts about the writer

Once both verifiers have accepted a module, the writer finds every operand and writes the
index that was computed for it, provided that operands inside the regions of an operation
with results come from outside that operation. Elsewhere it does not.
-/

namespace CuTile.IR

open Fallible

/-! ## Functions -/

section Functions

variable {values : List ValueData} {encodes : OpHeader → Bool}

theorem related_entry (args : List Value) :
    Related none none (Numbering.empty.registerAll args) (Numbering.empty.registerAll args) :=
  .together ⟨rfl, id, Numbering.bounded_empty.registerAll args⟩

/-- What is known about a run of the writer from the indices computed for it. -/
structure Foreseen (encodes : OpHeader → Bool) (fine : Prop)
    (computed : List (Value × Option Nat)) (run : Except WriteError (List (Value × Nat))) :
    Prop where
  length : ∀ {written}, run = .ok written → written.length = computed.length
  exact : ∀ {written}, run = .ok written → (tagged written = computed ↔ fine)
  found : fine → ∀ value opcode, run ≠ .error (.missingOperand value opcode)
  encoded : (∀ header, encodes header = true) → run ≠ .error .other

theorem Foreseen.nothing {fine : Prop} (holds : fine) :
    Foreseen encodes fine [] (.ok []) := by
  refine ⟨fun is => ?_, fun is => ?_, nofun, nofun⟩
  · cases is
    rfl
  · cases is
    exact iff_of_true rfl holds

theorem writeFunctionBody_foreseen {function : Operation}
    (clean : (function.verifyFunctionBc values).errors = []) :
    Foreseen encodes (function.scopedFunction values = true)
      (function.verifyFunctionBc values).computed (function.writeFunctionBody values encodes) := by
  rw [Operation.writeFunctionBody]
  rw [Operation.verifyFunctionBc] at clean ⊢
  rw [Operation.scopedFunction]
  cases entry : function.entryBlock with
  | none => exact .nothing rfl
  | some block =>
    rw [entry] at clean
    have body : Follows encodes none _ _ _ := block.2.follows (related_entry block.1) clean
    refine ⟨fun is => ?_, fun is => ?_, fun fine value opcode => ?_, fun all => ?_⟩
    · rcases bind_eq_ok_iff.mp is with ⟨⟨after, written⟩, writes, is⟩
      cases is
      exact (body.ok writes).length
    · rcases bind_eq_ok_iff.mp is with ⟨⟨after, written⟩, writes, is⟩
      cases is
      exact (body.ok writes).exact
    · exact bind_ne_error (body.found fine value opcode) fun _ _ =>
        pure_ne_error _ _
    · exact bind_ne_error (body.encoded all) fun _ _ => pure_ne_error _ _

theorem writeFunctions_foreseen {functions : List Operation}
    (clean : ∀ function ∈ functions, (function.verifyFunctionBc values).errors = []) :
    Foreseen encodes (∀ function ∈ functions, function.scopedFunction values = true)
      (functions.flatMap fun function => (function.verifyFunctionBc values).computed)
      (writeFunctions values encodes functions) := by
  induction functions with
  | nil => exact .nothing nofun
  | cons _ _ induction =>
    rw [List.forall_mem_cons] at clean
    have first : Foreseen encodes _ _ _ := writeFunctionBody_foreseen clean.1
    have others := induction clean.2
    rw [writeFunctions, List.flatMap_cons, List.forall_mem_cons]
    refine ⟨fun is => ?_, fun is => ?_, fun fine value opcode => ?_, fun all => ?_⟩
    · simp only [bind_eq_ok_iff, pure_eq_ok_iff] at is
      rcases is with ⟨body, isBody, more, isMore, rfl⟩
      rw [List.length_append, List.length_append, first.length isBody, others.length isMore]
    · simp only [bind_eq_ok_iff, pure_eq_ok_iff] at is
      rcases is with ⟨body, isBody, more, isMore, rfl⟩
      rw [tagged_append_eq_iff (first.length isBody), first.exact isBody, others.exact isMore]
    · exact bind_ne_error (first.found fine.1 value opcode) fun _ _ =>
        bind_ne_error (others.found fine.2 value opcode) fun _ _ =>
          pure_ne_error _ _
    · exact bind_ne_error (first.encoded all) fun _ _ =>
        bind_ne_error (others.encoded all) fun _ _ => pure_ne_error _ _

end Functions

/-! ## Modules -/

section Modules

variable {module : Module}

theorem Module.Accepted.functions_clean (accepted : module.Accepted) :
    ∀ function ∈ module.functions, (function.verifyFunctionBc module.values).errors = [] :=
  List.flatMap_eq_nil_iff.mp accepted.indices

theorem Module.scoped_iff : module.Scoped ↔
    ∀ function ∈ module.functions, function.scopedFunction module.values = true :=
  List.all_eq_true

/-- The verifiers predict the writer, whichever operations encode, exactly when operands
inside the regions of an operation with results come from outside it. -/
theorem predicted_iff_scoped (module : Module) (accepted : module.Accepted) :
    (∀ encodes, module.Predicted encodes) ↔ module.Scoped := by
  have clean := accepted.functions_clean
  rw [Module.scoped_iff]
  constructor
  · intro predicted
    rcases predicted fun _ => true with ⟨found, same⟩
    -- Where every body encodes, only a missing operand could stop the writer.
    cases writes : writeFunctions module.values (fun _ => true) module.functions with
    | ok written =>
      exact ((writeFunctions_foreseen clean).exact writes).mp (same written writes)
    | error reason =>
      cases reason with
      | missingOperand value opcode => exact absurd writes (found value opcode)
      | other => exact absurd writes ((writeFunctions_foreseen clean).encoded fun _ => rfl)
  · intro fine encodes
    have foreseen : Foreseen encodes _ _ _ := writeFunctions_foreseen clean
    exact ⟨foreseen.found fine, fun written writes => (foreseen.exact writes).mpr fine⟩

end Modules

/-! ### Modules with one branch -/

/-- A function of one argument, and an `If` whose body makes a constant and then yields. -/
def branching (resultTypes : Nat) (yielded : List Value) : Module where
  values :=
    [⟨false, .blockArg 0 0⟩, ⟨false, .opResult 1 0⟩, ⟨false, .opResult 2 0⟩]
  functions :=
    [.mk ⟨0, .entry, [], .absent, 0, some "kernel"⟩ (.cons (.cons [0]
      (.cons (.mk ⟨1, .ifOp, [0], .absent, resultTypes, none⟩ (.cons (.cons []
        (.cons (.mk ⟨2, .constant, [], .absent, 1, none⟩ .nil)
          (.cons (.mk ⟨3, .yield, yielded, .absent, 0, none⟩ .nil) .nil)) .nil) .nil)) .nil) .nil)
      .nil)]

theorem predicted_iff_scoped_branching :
    (branching 0 [2]).Accepted ∧ (branching 1 [0]).Accepted ∧ (branching 0 [2]).Scoped ∧
      (branching 1 [0]).Scoped ∧ (∀ encodes, (branching 0 [2]).Predicted encodes) ∧
      ∀ encodes, (branching 1 [0]).Predicted encodes := by
  have first : (branching 0 [2]).Accepted := ⟨rfl, rfl⟩
  have second : (branching 1 [0]).Accepted := ⟨rfl, rfl⟩
  exact ⟨first, second, rfl, rfl, (predicted_iff_scoped _ first).mpr rfl,
    (predicted_iff_scoped _ second).mpr rfl⟩

/-- Yielding a value of the body: the verifier has 2 for it, the writer writes 1. Yielding
the result of the `If` itself: both verifiers accept it, the writer does not find it. -/
theorem branch_with_result_not_predicted :
    ((branching 1 [2]).Accepted ∧ (¬ (branching 1 [2]).Predicted fun _ => true) ∧
      (branching 1 [2]).computedIndices = [(0, some 0), (2, some 2)] ∧
      writeFunctions (branching 1 [2]).values (fun _ => true) (branching 1 [2]).functions =
        .ok [(0, 0), (2, 1)]) ∧
    (branching 1 [1]).Accepted ∧ (¬ (branching 1 [1]).Predicted fun _ => true) ∧
      writeFunctions (branching 1 [1]).values (fun _ => true) (branching 1 [1]).functions =
        .error (.missingOperand 1 .yield) := by
  refine ⟨⟨⟨rfl, rfl⟩, fun predicted => ?_, rfl, rfl⟩, ⟨rfl, rfl⟩, fun predicted => ?_, rfl⟩
  · have same := predicted.2 [(0, 0), (2, 1)] rfl
    exact absurd same (by decide)
  · exact predicted.1 1 .yield rfl

end CuTile.IR
