import Mathlib.Data.List.Infix
import Mathlib.Data.List.Nodup

/-! # Interning

A table that only grows at its end: an item keeps the index it got when it was first
interned. Items may depend on other items, which then come before them.
-/

namespace CuTile.Interning

section Closed

variable {α : Type*} {dependencies : α → List α} {table : List α}

/-- Whatever an item depends on stands before it. -/
def Closed (dependencies : α → List α) (table : List α) : Prop :=
  ∀ front item back, table = front ++ item :: back → ∀ other ∈ dependencies item, other ∈ front

theorem closed_nil : Closed dependencies [] := by
  intro front _ _ split
  cases front <;> cases split

theorem Closed.concat (closed : Closed dependencies table) {item : α}
    (known : ∀ other ∈ dependencies item, other ∈ table) :
    Closed dependencies (table ++ [item]) := by
  intro front entry back split
  rcases List.eq_nil_or_concat back with rfl | ⟨rest, _, rfl⟩
  · rcases List.append_inj' split rfl with ⟨rfl, same⟩
    cases same
    exact known
  · rw [List.concat_eq_append, ← List.cons_append, ← List.append_assoc] at split
    exact closed front entry rest (List.append_inj' split rfl).1

end Closed

theorem getElem?_of_prefix {α : Type*} {table longer : List α} {item : α} {index : Nat}
    (grows : table <+: longer) (found : table[index]? = some item) :
    longer[index]? = some item := by
  rcases grows with ⟨_, rfl⟩
  exact (List.getElem?_append_left (List.getElem?_eq_some_iff.mp found).1).trans found

variable {α : Type*} [DecidableEq α] {table : List α} {item : α}

def intern (table : List α) (item : α) : List α :=
  if item ∈ table then table else table ++ [item]

theorem prefix_intern (table : List α) (item : α) : table <+: intern table item := by
  unfold intern
  split_ifs
  · exact List.prefix_refl table
  · exact List.prefix_append table [item]

theorem getElem?_idxOf (member : item ∈ table) : table[table.idxOf item]? = some item := by
  have inside := List.idxOf_lt_length_iff.mpr member
  rw [List.getElem?_eq_getElem inside, List.getElem_idxOf inside]

/-- In a closed table an item finds what it depends on in front of it. -/
theorem Closed.idxOf_lt {dependencies : α → List α} (closed : Closed dependencies table)
    {front back : List α} (split : table = front ++ item :: back) {other : α}
    (isDependency : other ∈ dependencies item) :
    table.idxOf other < front.length ∧ front[table.idxOf other]? = some other := by
  have member := closed front item back split other isDependency
  have same : table.idxOf other = front.idxOf other := by
    rw [split]
    exact List.idxOf_append_of_mem member
  rw [same]
  exact ⟨List.idxOf_lt_length_iff.mpr member, getElem?_idxOf member⟩

end CuTile.Interning
