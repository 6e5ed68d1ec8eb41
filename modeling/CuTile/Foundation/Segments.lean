import Mathlib.Data.List.Basic
import Mathlib.Data.List.Pairwise

/-! # Segments of a list

A list that is the concatenation of segments, addressed by where each segment starts,
and the effect of overwriting only the first entry of every segment.
-/

namespace CuTile.Segments

variable {α : Type*}

/-- Where each segment starts, when the first one starts at `base`. -/
def startsFrom (base : Nat) : List (List α) → List Nat
  | [] => []
  | segment :: rest => base :: startsFrom (base + segment.length) rest

@[simp] theorem length_startsFrom (base : Nat) (segments : List (List α)) :
    (startsFrom base segments).length = segments.length := by
  induction segments generalizing base with
  | nil => rfl
  | cons _ _ induction => exact congrArg Nat.succ (induction _)

theorem startsFrom_append (base : Nat) (segments others : List (List α)) :
    startsFrom base (segments ++ others) =
      startsFrom base segments ++ startsFrom (base + segments.flatten.length) others := by
  induction segments generalizing base with
  | nil => rfl
  | cons _ _ induction =>
    rw [List.cons_append, startsFrom, induction, startsFrom, List.flatten_cons,
      List.length_append, ← Nat.add_assoc]
    rfl

variable {base position : Nat} {segments : List (List α)}

theorem getElem?_startsFrom (inside : position < segments.length) :
    (startsFrom base segments)[position]? =
      some (base + (segments.take position).flatten.length) := by
  induction segments generalizing base position with
  | nil => cases inside
  | cons _ _ induction =>
    cases position with
    | zero => rfl
    | succ =>
      rw [startsFrom, List.getElem?_cons_succ, induction (Nat.lt_of_succ_lt_succ inside),
        List.take_succ_cons, List.flatten_cons, List.length_append, Nat.add_assoc]

theorem flatten_split {segment : List α} (isSegment : segments[position]? = some segment) :
    segments.flatten =
      (segments.take position).flatten ++ (segment ++ (segments.drop (position + 1)).flatten) := by
  rcases List.getElem?_eq_some_iff.mp isSegment with ⟨inside, isEntry⟩
  conv_lhs => rw [← List.take_append_drop position segments, List.drop_eq_getElem_cons inside,
    isEntry, List.flatten_append, List.flatten_cons]

theorem mem_startsFrom (nonempty : ∀ segment ∈ segments, segment ≠ []) :
    ∀ start ∈ startsFrom base segments,
      base ≤ start ∧ start < base + segments.flatten.length := by
  induction segments generalizing base with
  | nil => exact List.forall_mem_nil _
  | cons segment rest induction =>
    rcases List.forall_mem_cons.mp nonempty with ⟨here, later⟩
    have positive := List.length_pos_of_ne_nil here
    rw [startsFrom, List.forall_mem_cons, List.flatten_cons, List.length_append]
    refine ⟨by omega, fun start isStart => ?_⟩
    have bounds := induction later start isStart
    omega

theorem nodup_startsFrom (nonempty : ∀ segment ∈ segments, segment ≠ []) :
    (startsFrom base segments).Nodup := by
  induction segments generalizing base with
  | nil => exact List.nodup_nil
  | cons segment rest induction =>
    rcases List.forall_mem_cons.mp nonempty with ⟨here, later⟩
    have positive := List.length_pos_of_ne_nil here
    refine List.nodup_cons.mpr ⟨fun isStart => ?_, induction later⟩
    have bounds := mem_startsFrom later _ isStart
    omega

theorem getElem?_flatten_start {start : Nat} {segment : List α}
    (isSegment : segments[position]? = some segment)
    (isStart : (startsFrom 0 segments)[position]? = some start) (nonempty : segment ≠ []) :
    segments.flatten[start]? = segment.head? := by
  have inside := (List.getElem?_eq_some_iff.mp isSegment).1
  rw [getElem?_startsFrom inside, Nat.zero_add, Option.some.injEq] at isStart
  rw [flatten_split isSegment, ← isStart, List.getElem?_append_right (Nat.le_refl _),
    Nat.sub_self]
  cases segment with
  | nil => exact absurd rfl nonempty
  | cons => rfl

/-! ## Overwriting -/

def writeAll (values : List α) (writes : List (Nat × α)) : List α :=
  writes.foldl (fun values write => values.set write.1 write.2) values

@[simp] theorem length_writeAll (values : List α) (writes : List (Nat × α)) :
    (writeAll values writes).length = values.length := by
  induction writes generalizing values with
  | nil => rfl
  | cons _ _ induction => exact (induction _).trans List.length_set

theorem getElem?_writeAll_of_notMem {values : List α} {writes : List (Nat × α)}
    (untouched : position ∉ writes.map Prod.fst) :
    (writeAll values writes)[position]? = values[position]? := by
  induction writes generalizing values with
  | nil => rfl
  | cons write rest induction =>
    rw [List.map_cons, List.mem_cons, not_or] at untouched
    calc (writeAll (values.set write.1 write.2) rest)[position]?
        = (values.set write.1 write.2)[position]? := induction untouched.2
      _ = values[position]? := List.getElem?_set_ne (Ne.symm untouched.1)

theorem getElem?_writeAll_of_mem {values : List α} {writes : List (Nat × α)}
    (distinct : (writes.map Prod.fst).Nodup) (inside : ∀ write ∈ writes, write.1 < values.length)
    {value : α} (written : (position, value) ∈ writes) :
    (writeAll values writes)[position]? = some value := by
  induction writes generalizing values with
  | nil => cases written
  | cons _ rest induction =>
    rw [List.map_cons, List.nodup_cons] at distinct
    rcases List.forall_mem_cons.mp inside with ⟨here, _⟩
    rcases List.mem_cons.mp written with isWrite | isLater
    · cases isWrite
      calc (writeAll (values.set position value) rest)[position]?
          = (values.set position value)[position]? :=
            getElem?_writeAll_of_notMem distinct.1
        _ = some value := List.getElem?_set_self here
    · apply induction distinct.2 _ isLater
      rwa [List.length_set]

def replaceHeads (segments : List (List α)) (heads : List α) : List (List α) :=
  List.zipWith (fun segment head => head :: segment.tail) segments heads

/-- Behind a part that stays as it is, writing a new entry at the start of every
segment replaces their heads and nothing else. -/
theorem writeAll_startsFrom (done : List α) {heads : List α}
    (nonempty : ∀ segment ∈ segments, segment ≠ []) (each : heads.length = segments.length) :
    writeAll (done ++ segments.flatten) ((startsFrom done.length segments).zip heads) =
      done ++ (replaceHeads segments heads).flatten := by
  induction segments generalizing done heads with
  | nil => cases heads with
    | nil => rfl
    | cons => cases each
  | cons segment rest induction =>
    rcases List.forall_mem_cons.mp nonempty with ⟨here, later⟩
    cases heads with
    | nil => cases each
    | cons head =>
      cases segment with
      | nil => exact absurd rfl here
      | cons first tail =>
        have written : (done ++ (first :: tail) ++ rest.flatten).set done.length head =
            (done ++ head :: tail) ++ rest.flatten := by
          simp
        have lengths : done.length + (first :: tail).length =
            (done ++ head :: tail).length := by
          simp
        have remaining := induction (done ++ head :: tail) later (Nat.succ.inj each)
        rw [List.flatten_cons, startsFrom, List.zip_cons_cons, writeAll, List.foldl_cons,
          ← List.append_assoc, written, lengths]
        rw [writeAll] at remaining
        rw [remaining, replaceHeads, replaceHeads, List.zipWith_cons_cons,
          List.flatten_cons, List.tail_cons, List.append_assoc]

theorem writeAll_starts {heads : List α} (nonempty : ∀ segment ∈ segments, segment ≠ [])
    (each : heads.length = segments.length) :
    writeAll segments.flatten ((startsFrom 0 segments).zip heads) =
      (replaceHeads segments heads).flatten :=
  writeAll_startsFrom [] nonempty each

end CuTile.Segments
