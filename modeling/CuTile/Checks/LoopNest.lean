import CuTile.Checks.Placement

/-! # Loop nests

The loops around an access as compiled, the points an execution can reach inside
them, and which of those loops a hoisted check leaves.
-/

namespace CuTile

open List

/-- A loop of a kernel with the lowering that compiled it. -/
structure CompiledLoop where
  header : ForHeader
  block : Nat
  size : ModuleSize
  lowered : LoweredLoop
  lowers : lowerFor header block size = .ok lowered
  blockExists : block < size.numBlocks
  startDefined : ∀ handle, header.start.value = some handle → handle < size.numValues
  finishDefined : ∀ handle, header.finish.value = some handle → handle < size.numValues

namespace CompiledLoop

variable (loop : CompiledLoop)

def frame : LoopFrame := loop.lowered.frame

theorem lowered_from : loop.lowered.From loop.header loop.block loop.size :=
  lowerFor_spec loop.lowers

theorem lower_spec : loop.header.start.value = some loop.frame.lower :=
  loop.lowered_from.lower

theorem upper_spec : loop.header.finish.value = some loop.frame.upper :=
  loop.lowered_from.upper

theorem lower_lt_watermark : loop.frame.lower < loop.frame.valueWatermark :=
  (loop.startDefined _ loop.lower_spec).trans_le loop.lowered_from.watermark

theorem upper_lt_watermark : loop.frame.upper < loop.frame.valueWatermark :=
  (loop.finishDefined _ loop.upper_spec).trans_le loop.lowered_from.watermark

/-- A loop stands in the body of another, or in a block generated after it. -/
def NestedIn (inner outer : CompiledLoop) : Prop := outer.frame.bodyBlock ≤ inner.block

theorem preheaderBlock_eq : loop.frame.preheaderBlock = loop.block :=
  loop.lowered_from.preheaderBlock

theorem block_lt_bodyBlock : loop.block < loop.frame.bodyBlock := by
  have body : loop.frame.bodyBlock = loop.size.numBlocks := loop.lowered_from.bodyBlock
  rw [body]
  exact loop.blockExists

end CompiledLoop

/-- An execution enters one iteration of each loop, from the point `before` in
the preheader of the outermost to the point `after` in the innermost body. Loops
are listed from the innermost. -/
inductive Inside : List CompiledLoop → Environment → Environment → Prop where
  | here (point : Environment) : Inside [] point point
  | iterate {loop : CompiledLoop} {outer : List CompiledLoop}
      {before preheader after : Environment} {iteration : Nat}
      (entered : Inside outer before preheader)
      (runs : Iteration loop.header loop.frame preheader after iteration) :
      Inside (loop :: outer) before after

namespace Inside

variable {loops : List CompiledLoop} {before after : Environment}

theorem dominated (inside : Inside loops before after) {value : SsaValue}
    (defined : ∀ loop ∈ loops, value < loop.frame.valueWatermark) :
    after value = before value := by
  induction inside with
  | here => rfl
  | iterate _ runs induction =>
    rw [runs.dominated value (defined _ mem_cons_self)]
    exact induction fun loop member => defined loop (mem_cons_of_mem _ member)

/-- The outermost loop runs from the point the execution started at. -/
theorem outermost_runs {inner : List CompiledLoop} {target : CompiledLoop}
    (inside : Inside (inner ++ [target]) before after) :
    ∃ body iteration, Iteration target.header target.frame before body iteration := by
  induction inner generalizing after with
  | nil =>
    cases inside with
    | iterate entered runs =>
      cases entered
      exact ⟨_, _, runs⟩
  | cons _ _ induction =>
    cases inside with
    | iterate entered => exact induction entered

end Inside

/-! ## The loops a check leaves -/

theorem nodup_blocks {nest : List CompiledLoop}
    (nested : nest.IsChain CompiledLoop.NestedIn) : (nest.map CompiledLoop.block).Nodup := by
  have descending : (nest.map CompiledLoop.block).IsChain (· > ·) :=
    (isChain_map _).mpr
      (nested.imp fun inner outer within => outer.block_lt_bodyBlock.trans_le within)
  exact (isChain_iff_pairwise.mp descending).imp ne_of_gt

/-- A position in a list is determined by its key when keys are distinct. -/
theorem split_unique {key : α → Nat} {list inside outside inside' outside' : List α}
    {target target' : α} (distinct : (list.map key).Nodup)
    (first : list = inside ++ target :: outside)
    (second : list = inside' ++ target' :: outside') (same : key target = key target') :
    inside = inside' ∧ target = target' := by
  induction inside generalizing list inside' with
  | nil =>
    subst first
    cases inside' with
    | nil => exact ⟨rfl, (cons.inj second).1⟩
    | cons =>
      rw [nil_append, cons_append, cons.injEq] at second
      rw [nil_append, map_cons, nodup_cons, second.2, same] at distinct
      exact absurd (mem_map_of_mem (by simp)) distinct.1
  | cons _ _ induction =>
    subst first
    rw [cons_append, map_cons, nodup_cons] at distinct
    cases inside' with
    | nil =>
      rw [nil_append, cons_append, cons.injEq] at second
      rw [second.1, ← same] at distinct
      exact absurd (mem_map_of_mem (by simp)) distinct.1
    | cons =>
      rw [cons_append, cons_append, cons.injEq] at second
      rcases induction distinct.2 rfl second.2 with ⟨rfl, rfl⟩
      exact ⟨by rw [second.1], rfl⟩

/-- The walk outward stops at a loop of the nest, and what the check refers to
is defined before every loop it crosses on the way. -/
theorem walkOutward_spec (dependencies : List SsaValue) (inner : CompiledLoop)
    (outer : List CompiledLoop) :
    ∃ inside target crossed outside, outer = crossed ++ outside ∧
      inner :: crossed = inside ++ [target] ∧
      walkOutward dependencies inner.frame (outer.map CompiledLoop.frame) = target.frame ∧
      ∀ loop ∈ crossed, ∀ value ∈ dependencies, value < loop.frame.valueWatermark := by
  induction outer generalizing inner with
  | nil =>
    exact ⟨[], inner, [], [], rfl, rfl, rfl,
      fun loop member => absurd member not_mem_nil⟩
  | cons next rest induction =>
    rw [map_cons, walkOutward]
    by_cases crossing : crosses dependencies inner.frame next.frame
    · rcases induction next with ⟨inside, target, crossed, outside, split, stack, stops, before⟩
      refine ⟨inner :: inside, target, next :: crossed, outside, ?_, ?_, ?_, ?_⟩
      · rw [split, cons_append]
      · rw [stack, cons_append]
      · rw [if_pos crossing, stops]
      · intro loop member value isDependency
        rcases mem_cons.mp member with rfl | further
        · have dominate := (of_decide_eq_true crossing).2.2.2
          exact of_decide_eq_true (all_eq_true.mp dominate value isDependency)
        · exact before loop further value isDependency
    · refine ⟨[], inner, [], next :: rest, rfl, rfl, ?_,
        fun loop member => absurd member not_mem_nil⟩
      rw [if_neg crossing]

end CuTile
