import Mathlib.Data.List.Basic

/-! # Selected positions

The positions of those entries of a list that a test keeps, in order. An entry then
has two numbers: its position in the list and its rank among the kept ones.
-/

namespace CuTile.Selection

/-- The positions of the kept items, counted from `start`. -/
def positionsFrom (keep : α → Bool) : Nat → List α → List Nat
  | _, [] => []
  | start, item :: rest =>
    if keep item then start :: positionsFrom keep (start + 1) rest
    else positionsFrom keep (start + 1) rest

/-- The rank of a position is the number of kept items before it. -/
def rank (keep : α → Bool) (items : List α) (position : Nat) : Nat :=
  (items.take position).countP keep

theorem rank_le (keep : α → Bool) (items : List α) (position : Nat) :
    rank keep items position ≤ position :=
  Nat.le_trans List.countP_le_length (List.length_take_le _ _)

theorem rank_of_all {keep : α → Bool} {items : List α} (all : ∀ item ∈ items, keep item)
    {position : Nat} (inside : position ≤ items.length) :
    rank keep items position = position := by
  rw [rank, List.countP_eq_length.mpr fun item member => all item (List.mem_of_mem_take member),
    List.length_take, Nat.min_eq_left inside]

@[simp] theorem rank_zero (keep : α → Bool) (items : List α) : rank keep items 0 = 0 := by
  rw [rank, List.take_zero, List.countP_nil]

@[simp] theorem rank_cons_succ (keep : α → Bool) (item : α) (rest : List α) (position : Nat) :
    rank keep (item :: rest) (position + 1) =
      rank keep rest position + if keep item then 1 else 0 := by
  rw [rank, List.take_succ_cons, List.countP_cons, rank]

theorem rank_map (keep : β → Bool) (f : α → β) (items : List α) (position : Nat) :
    rank keep (items.map f) position = rank (keep ∘ f) items position := by
  rw [rank, ← List.map_take, List.countP_map, rank]

theorem le_of_mem_positionsFrom {keep : α → Bool} {items : List α} {start position : Nat}
    (member : position ∈ positionsFrom keep start items) : start ≤ position := by
  induction items generalizing start with
  | nil => cases member
  | cons _ _ induction =>
    unfold positionsFrom at member
    split_ifs at member
    · rcases List.mem_cons.mp member with same | later
      · exact Nat.le_of_eq same.symm
      · exact Nat.le_of_succ_le (induction later)
    · exact Nat.le_of_succ_le (induction member)

theorem getElem?_positionsFrom (keep : α → Bool) (items : List α)
    (start number position : Nat) :
    (positionsFrom keep start items)[number]? = some (start + position) ↔
      items[position]?.any keep = true ∧ number = rank keep items position := by
  induction items generalizing start number position with
  | nil => simp [positionsFrom]
  | cons item rest induction =>
    have notBefore (other : Nat) :
        (positionsFrom keep (start + 1) rest)[other]? ≠ some start := by
      intro found
      have after := le_of_mem_positionsFrom (List.mem_of_getElem? found)
      omega
    cases position with
    | zero =>
      cases kept : keep item <;> cases number <;> simp [positionsFrom, kept, notBefore]
    | succ position =>
      have shift : start + (position + 1) = start + 1 + position := by omega
      rw [shift]
      cases kept : keep item <;> cases number <;>
        simp [positionsFrom, kept, induction]
      omega

end CuTile.Selection
