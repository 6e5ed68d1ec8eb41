import CuTile.Compiler.Value
import CuTile.Foundation.Fallible

/-! # Flattening and rebuilding values

A value with its children is flattened into the operands of a region and rebuilt from the
values that the region yields. Both directions visit the same children in the same order, so
the same values give back the same tree. At a join the rebuilt trees lose their facts.
-/

namespace CuTile

open Fallible Function List

structure ValueNode (Handle : Type) extends TileRustValue Handle where
  partitionOrigins : Option (List Handle) := none
  boundedAxes : Option (List (DimOrigin Handle)) := none
  stringLiteral : Option String := none
  enumVariant : Option String := none

mutual

/-- A `TileRustValue` with its elements, its fields and the metadata of its type. -/
inductive ValueTree (Handle : Type) where
  | mk (node : ValueNode Handle) (values fields typeMeta : Option (ValueTrees Handle))

/-- The elements of a vector, or the entries of a map in the order of their keys. -/
inductive ValueTrees (Handle : Type) where
  | nil
  | cons (key : Option String) (tree : ValueTree Handle) (rest : ValueTrees Handle)

end

variable {Handle : Type}

def ValueTree.verify : ValueTree Handle → Except Failure Unit
  | .mk node values fields typeMeta =>
    let ensure (consistent : Bool) (what : String) :=
      if consistent then .ok ()
      else .error (.jitError s!"internal: {what} value has inconsistent fields set")
    match node.kind with
    | .string => ensure (node.stringLiteral.isSome && typeMeta.isNone && node.value.isNone &&
        values.isNone && fields.isNone) "string"
    | .primitiveType => ensure (node.value.isSome && values.isNone && fields.isNone) "primitive"
    | .structuredType =>
      ensure (node.value.isSome && values.isNone && fields.isNone) "structured type"
    | .compound => ensure (node.value.isNone && values.isSome && fields.isNone) "compound"
    | .struct => ensure (node.value.isNone && values.isNone && fields.isSome) "struct"
    | .enum => ensure (node.value.isNone && values.isNone && fields.isNone &&
        node.enumVariant.isSome) "enum"

def missingElements : Failure := .jitError "internal: compound value missing its element list"

def missingFields : Failure := .jitError "internal: struct value missing its fields"

def ValueNode.setValue (node : ValueNode Handle) (handle : Handle) : ValueNode Handle :=
  { node with value := some handle }

mutual

/-- The values that `unpack_to` appends. -/
def ValueTree.unpackTo : ValueTree Handle → Except Failure (List Handle)
  | .mk node values fields typeMeta => do
    ValueTree.verify (.mk node values fields typeMeta)
    match node.kind with
    | .string | .enum => return []
    | .primitiveType | .structuredType =>
      match node.value with
      | none => throw (.panic "called `Option::unwrap()` on a `None` value")
      | some value =>
        match typeMeta with
        | none => return [value]
        | some trees => return value :: (← trees.unpackTo)
    | .compound =>
      match values with
      | none => throw missingElements
      | some trees => trees.unpackTo
    | .struct =>
      match fields with
      | none => throw missingFields
      | some trees => trees.unpackTo

def ValueTrees.unpackTo : ValueTrees Handle → Except Failure (List Handle)
  | .nil => return []
  | .cons _ tree rest => do
    let first ← tree.unpackTo
    let later ← rest.unpackTo
    return first ++ later

end

mutual

def ValueTree.repackFrom (handles : List Handle) :
    ValueTree Handle → Nat → Except Failure (ValueTree Handle × Nat)
  | .mk node values fields typeMeta, pos => do
    ValueTree.verify (.mk node values fields typeMeta)
    let (result, pos) ← match node.kind with
      | .string | .enum => pure (.mk node values fields typeMeta, pos)
      | .primitiveType | .structuredType =>
        match handles[pos]? with
        | none => throw (.panic "index out of bounds")
        | some handle =>
          match typeMeta with
          | none => pure (.mk (node.setValue handle) values fields none, pos + 1)
          | some trees => do
            let (trees, pos) ← trees.repackFrom handles (pos + 1)
            pure (.mk (node.setValue handle) values fields (some trees), pos)
      | .compound =>
        match values with
        | none => throw missingElements
        | some trees => do
          let (trees, pos) ← trees.repackFrom handles pos
          pure (.mk node (some trees) fields typeMeta, pos)
      | .struct =>
        match fields with
        | none => throw missingFields
        | some trees => do
          let (trees, pos) ← trees.repackFrom handles pos
          pure (.mk node values (some trees) typeMeta, pos)
    result.verify
    return (result, pos)

def ValueTrees.repackFrom (handles : List Handle) :
    ValueTrees Handle → Nat → Except Failure (ValueTrees Handle × Nat)
  | .nil, pos => return (.nil, pos)
  | .cons key tree rest, pos => do
    let (tree, pos) ← tree.repackFrom handles pos
    let (rest, pos) ← rest.repackFrom handles pos
    return (.cons key tree rest, pos)

end

def ValueNode.invalidateJoinFacts (node : ValueNode Handle) : ValueNode Handle :=
  { node with
    bounds := none, term := none, indexOrigin := none, partitionAxisOrigin := none
    dimOrigin := none, floorDiv := none, partitionOrigins := none, tensorOrigin := none
    boundedAxes := none }

mutual

def ValueTree.invalidateJoinFacts : ValueTree Handle → ValueTree Handle
  | .mk node values fields typeMeta =>
    .mk node.invalidateJoinFacts (invalidateChildren values) (invalidateChildren fields)
      (invalidateChildren typeMeta)

def invalidateChildren : Option (ValueTrees Handle) → Option (ValueTrees Handle)
  | none => none
  | some trees => some trees.invalidateJoinFacts

def ValueTrees.invalidateJoinFacts : ValueTrees Handle → ValueTrees Handle
  | .nil => .nil
  | .cons key tree rest => .cons key tree.invalidateJoinFacts rest.invalidateJoinFacts

end

mutual

def ValueTree.nodes : ValueTree Handle → List (ValueNode Handle)
  | .mk node values fields typeMeta =>
    node :: (childNodes values ++ childNodes fields ++ childNodes typeMeta)

def childNodes : Option (ValueTrees Handle) → List (ValueNode Handle)
  | none => []
  | some trees => trees.nodes

def ValueTrees.nodes : ValueTrees Handle → List (ValueNode Handle)
  | .nil => []
  | .cons _ tree rest => tree.nodes ++ rest.nodes

end

/-! ## One value -/

mutual

/-- Where the flattened values stand in the list, the tree is rebuilt as it was. -/
theorem ValueTree.repackFrom_of_unpackTo {handles produced rest : List Handle} {pos : Nat}
    (tree : ValueTree Handle) (unpacks : tree.unpackTo = .ok produced)
    (stands : handles.drop pos = produced ++ rest) :
    tree.repackFrom handles pos = .ok (tree, pos + produced.length) := by
  match tree with
  | .mk node values fields typeMeta =>
    unfold ValueTree.unpackTo at unpacks
    rcases check_bind_eq_ok_iff.mp unpacks with ⟨verified, unpacks⟩
    unfold ValueTree.repackFrom
    rw [verified, ok_bind]
    cases isKind : node.kind with
    | string | enum =>
      simp only [isKind] at unpacks
      cases unpacks
      simp [verified]
    | primitiveType | structuredType =>
      simp only [isKind] at unpacks
      cases isValue : node.value with
      | none => simp [isValue] at unpacks
      | some value =>
        have same : node.setValue value = node := by rw [ValueNode.setValue, ← isValue]
        simp only [isValue] at unpacks
        cases typeMeta with
        | none =>
          cases unpacks
          have found : handles[pos]? = some value := by rw [← head?_drop, stands]; rfl
          simp [found, same, verified]
        | some trees =>
          rcases bind_eq_ok_iff.mp unpacks with ⟨later, areLater, isProduced⟩
          cases isProduced
          have found : handles[pos]? = some value := by rw [← head?_drop, stands]; rfl
          have standLater : handles.drop (pos + 1) = later ++ rest := by
            rw [← tail_drop, stands]
            rfl
          simp [found, same, verified, trees.repackFrom_of_unpackTo areLater standLater,
            Nat.add_assoc, Nat.add_comm 1]
    | compound =>
      simp only [isKind] at unpacks
      cases values with
      | none => cases unpacks
      | some trees => simp [trees.repackFrom_of_unpackTo unpacks stands, verified]
    | struct =>
      simp only [isKind] at unpacks
      cases fields with
      | none => cases unpacks
      | some trees => simp [trees.repackFrom_of_unpackTo unpacks stands, verified]

theorem ValueTrees.repackFrom_of_unpackTo {handles produced rest : List Handle} {pos : Nat}
    (trees : ValueTrees Handle) (unpacks : trees.unpackTo = .ok produced)
    (stands : handles.drop pos = produced ++ rest) :
    trees.repackFrom handles pos = .ok (trees, pos + produced.length) := by
  match trees with
  | .nil =>
    cases unpacks
    rfl
  | .cons _ tree others =>
    rcases bind_eq_ok_iff.mp unpacks with ⟨first, areFirst, unpacks⟩
    rcases bind_eq_ok_iff.mp unpacks with ⟨later, areLater, isProduced⟩
    cases isProduced
    rw [append_assoc] at stands
    have standLater : handles.drop (pos + first.length) = later ++ rest := by
      rw [← drop_drop, stands, drop_left]
    simp [ValueTrees.repackFrom, tree.repackFrom_of_unpackTo areFirst stands,
      others.repackFrom_of_unpackTo areLater standLater, Nat.add_assoc]

end

theorem isSome_invalidateChildren (children : Option (ValueTrees Handle)) :
    (invalidateChildren children).isSome = children.isSome := by
  cases children <;> rfl

theorem ValueTree.verify_invalidateJoinFacts (tree : ValueTree Handle) :
    tree.invalidateJoinFacts.verify = tree.verify := by
  cases tree with
  | mk =>
    simp only [invalidateJoinFacts, verify, ← Option.not_isSome, isSome_invalidateChildren]
    rfl

mutual

theorem ValueTree.unpackTo_invalidateJoinFacts (tree : ValueTree Handle) :
    tree.invalidateJoinFacts.unpackTo = tree.unpackTo := by
  match tree with
  | .mk node values fields typeMeta =>
    have verified := ValueTree.verify_invalidateJoinFacts (.mk node values fields typeMeta)
    rw [ValueTree.invalidateJoinFacts] at verified ⊢
    unfold ValueTree.unpackTo
    rw [verified]
    cases values <;> cases fields <;> cases typeMeta <;>
      simp only [invalidateChildren, ValueTrees.unpackTo_invalidateJoinFacts,
        ValueNode.invalidateJoinFacts]

theorem ValueTrees.unpackTo_invalidateJoinFacts (trees : ValueTrees Handle) :
    trees.invalidateJoinFacts.unpackTo = trees.unpackTo := by
  match trees with
  | .nil => rfl
  | .cons _ tree rest =>
    rw [ValueTrees.invalidateJoinFacts, ValueTrees.unpackTo, ValueTrees.unpackTo,
      tree.unpackTo_invalidateJoinFacts, rest.unpackTo_invalidateJoinFacts]

end

mutual

theorem ValueTree.nodes_invalidateJoinFacts (tree : ValueTree Handle) :
    tree.invalidateJoinFacts.nodes = tree.nodes.map ValueNode.invalidateJoinFacts := by
  match tree with
  | .mk _ values fields typeMeta =>
    rw [ValueTree.invalidateJoinFacts, ValueTree.nodes, ValueTree.nodes,
      nodes_invalidateChildren values, nodes_invalidateChildren fields,
      nodes_invalidateChildren typeMeta, map_cons, map_append, map_append]

theorem nodes_invalidateChildren (children : Option (ValueTrees Handle)) :
    childNodes (invalidateChildren children) =
      (childNodes children).map ValueNode.invalidateJoinFacts := by
  match children with
  | none => rfl
  | some trees => exact trees.nodes_invalidateJoinFacts

theorem ValueTrees.nodes_invalidateJoinFacts (trees : ValueTrees Handle) :
    trees.invalidateJoinFacts.nodes = trees.nodes.map ValueNode.invalidateJoinFacts := by
  match trees with
  | .nil => rfl
  | .cons _ tree rest =>
    rw [ValueTrees.invalidateJoinFacts, ValueTrees.nodes, ValueTrees.nodes,
      tree.nodes_invalidateJoinFacts, rest.nodes_invalidateJoinFacts, map_append]

end

mutual

theorem ValueTree.invalidateJoinFacts_twice (tree : ValueTree Handle) :
    tree.invalidateJoinFacts.invalidateJoinFacts = tree.invalidateJoinFacts := by
  match tree with
  | .mk _ values fields typeMeta =>
    rw [ValueTree.invalidateJoinFacts, ValueTree.invalidateJoinFacts,
      invalidateChildren_twice values, invalidateChildren_twice fields,
      invalidateChildren_twice typeMeta]
    rfl

theorem invalidateChildren_twice (children : Option (ValueTrees Handle)) :
    invalidateChildren (invalidateChildren children) = invalidateChildren children := by
  match children with
  | none => rfl
  | some trees => exact congrArg some trees.invalidateJoinFacts_twice

theorem ValueTrees.invalidateJoinFacts_twice (trees : ValueTrees Handle) :
    trees.invalidateJoinFacts.invalidateJoinFacts = trees.invalidateJoinFacts := by
  match trees with
  | .nil => rfl
  | .cons _ tree rest =>
    rw [ValueTrees.invalidateJoinFacts, ValueTrees.invalidateJoinFacts,
      tree.invalidateJoinFacts_twice, rest.invalidateJoinFacts_twice]

end

/-! ## The variables of a region -/

abbrev Vars (Handle : Type) := String → Option (ValueTree Handle)

def unpackSomeVars (vars : Vars Handle) :
    List String → Except Failure (List Handle)
  | [] => return []
  | key :: keys =>
    match vars key with
    | none => throw (.jitError s!"Variable not found {key}")
    | some tree => do
      let first ← tree.unpackTo
      let later ← unpackSomeVars vars keys
      return first ++ later

/-- The loop of `repack_some_vars`, with the position it ends at. -/
def repackVarsFrom (handles : List Handle) (invalidateBounds : Bool) :
    Vars Handle → Nat → List String →
      Except Failure (Vars Handle × Nat)
  | vars, pos, [] => return (vars, pos)
  | vars, pos, key :: keys =>
    match vars key with
    | none => throw (.jitError s!"Variable not found {key}")
    | some tree => do
      let (tree, pos) ← tree.repackFrom handles pos
      let tree := if invalidateBounds then tree.invalidateJoinFacts else tree
      repackVarsFrom handles invalidateBounds (Function.update vars key (some tree)) pos keys

def ValueNode.Unmarked (node : ValueNode Handle) : Prop :=
  node.bounds = none ∧ node.term = none ∧ node.floorDiv = none ∧ node.indexOrigin = none ∧
    node.dimOrigin = none ∧ node.partitionAxisOrigin = none ∧ node.partitionOrigins = none ∧
    node.tensorOrigin = none ∧ node.boundedAxes = none

def Cleared (vars : Vars Handle) (name : String) : Prop :=
  ∃ tree, vars name = some tree ∧ ∀ node ∈ tree.nodes, node.Unmarked

section Vars

variable {vars after : Vars Handle} {keys : List String}
  {handles produced rest : List Handle} {pos stop : Nat}

theorem unpackSomeVars_insert {key : String} {tree other : ValueTree Handle}
    (found : vars key = some tree) (same : other.unpackTo = tree.unpackTo) :
    unpackSomeVars (update vars key (some other)) keys = unpackSomeVars vars keys := by
  induction keys with
  | nil => rfl
  | cons name _ induction =>
    rw [unpackSomeVars, unpackSomeVars, update_apply, induction]
    by_cases isKey : name = key
    · rw [if_pos isKey, isKey, found]
      simp only [same]
    · rw [if_neg isKey]

/-- The variables are rebuilt one after the other from what was flattened, and a repeated
one once more. -/
theorem repackVarsFrom_of_unpackSomeVars (invalidateBounds : Bool)
    (unpacks : unpackSomeVars vars keys = .ok produced)
    (stands : handles.drop pos = produced ++ rest) :
    ∃ after, repackVarsFrom handles invalidateBounds vars pos keys =
        .ok (after, pos + produced.length) ∧
      ∀ name, after name = (vars name).map fun tree =>
        if invalidateBounds ∧ name ∈ keys then tree.invalidateJoinFacts else tree := by
  induction keys generalizing vars produced pos with
  | nil =>
    cases unpacks
    exact ⟨vars, rfl, fun name => by simp⟩
  | cons key _ induction =>
    rw [unpackSomeVars] at unpacks
    cases found : vars key with
    | none => simp [found] at unpacks
    | some tree =>
      simp only [found] at unpacks
      simp only [bind_eq_ok_iff] at unpacks
      rcases unpacks with ⟨first, areFirst, later, areLater, ⟨⟩⟩
      rw [append_assoc] at stands
      have standLater : handles.drop (pos + first.length) = later ++ rest := by
        rw [← drop_drop, stands, drop_left]
      have kept : (if invalidateBounds then tree.invalidateJoinFacts else tree).unpackTo =
          tree.unpackTo := by
        split_ifs
        · exact tree.unpackTo_invalidateJoinFacts
        · rfl
      rw [← unpackSomeVars_insert found kept] at areLater
      rcases induction areLater standLater with ⟨after, repacks, finds⟩
      refine ⟨after, ?_, fun name => ?_⟩
      · simp [repackVarsFrom, found, tree.repackFrom_of_unpackTo areFirst stands, repacks,
          Nat.add_assoc]
      · rw [finds, update_apply]
        by_cases isKey : name = key
        · rw [if_pos isKey, isKey, found]
          cases invalidateBounds <;> simp [ValueTree.invalidateJoinFacts_twice]
        · simp [isKey]

theorem cleared_invalidateJoinFacts (tree : ValueTree Handle) :
    ∀ node ∈ tree.invalidateJoinFacts.nodes, node.Unmarked := by
  rw [tree.nodes_invalidateJoinFacts, forall_mem_map]
  exact fun node _ => ⟨rfl, rfl, rfl, rfl, rfl, rfl, rfl, rfl, rfl⟩

theorem cleared_of_repackVarsFrom {name : String}
    (repacks : repackVarsFrom handles true vars pos keys = .ok (after, stop))
    (isKey : name ∈ keys ∨ Cleared vars name) : Cleared after name := by
  induction keys generalizing vars pos with
  | nil =>
    cases repacks
    exact isKey.resolve_left not_mem_nil
  | cons key _ induction =>
    rw [repackVarsFrom] at repacks
    cases found : vars key with
    | none => simp [found] at repacks
    | some =>
      simp only [found] at repacks
      rcases bind_eq_ok_iff.mp repacks with ⟨⟨rebuilt, _⟩, -, repacks⟩
      refine induction repacks ?_
      by_cases here : name = key
      · refine .inr ⟨rebuilt.invalidateJoinFacts, ?_, cleared_invalidateJoinFacts rebuilt⟩
        rw [update_apply, if_pos here]
        rfl
      · refine isKey.imp (fun member => (mem_cons.mp member).resolve_left here) ?_
        intro ⟨old, isOld, unmarked⟩
        exact ⟨old, by rw [update_apply, if_neg here, isOld], unmarked⟩

end Vars

/-- Flattening and rebuilding with the same values gives back the same tree and consumes
what was produced, for one value and for any list of variables. At a join the rebuilt
variables keep no facts, whatever values they are rebuilt from. -/
theorem repack_unpack_lossless :
    (∀ (tree : ValueTree Handle) before produced rest, tree.unpackTo = .ok produced →
      tree.repackFrom (before ++ produced ++ rest) before.length =
        .ok (tree, before.length + produced.length)) ∧
    (∀ (vars : Vars Handle) keys produced invalidateBounds,
      unpackSomeVars vars keys = .ok produced →
      ∃ after, repackVarsFrom produced invalidateBounds vars 0 keys =
          .ok (after, produced.length) ∧
        ∀ name, after name = (vars name).map fun tree =>
          if invalidateBounds ∧ name ∈ keys then tree.invalidateJoinFacts else tree) ∧
    ∀ (vars : Vars Handle) keys handles after stop,
      repackVarsFrom handles true vars 0 keys = .ok (after, stop) → ∀ name ∈ keys,
      ∃ tree, after name = some tree ∧ ∀ node ∈ tree.nodes, node.Unmarked := by
  refine ⟨fun tree before produced rest unpacks => ?_,
    fun vars keys produced invalidateBounds unpacks => ?_,
    fun vars keys handles after stop repacks name isKey => ?_⟩
  · have stands : (before ++ produced ++ rest).drop before.length = produced ++ rest := by
      rw [append_assoc, drop_left]
    exact tree.repackFrom_of_unpackTo unpacks stands
  · have stands : produced.drop 0 = produced ++ [] := (append_nil produced).symm
    have repacks := repackVarsFrom_of_unpackSomeVars invalidateBounds unpacks stands
    rwa [Nat.zero_add] at repacks
  · exact cleared_of_repackVarsFrom repacks (.inl isKey)

end CuTile
