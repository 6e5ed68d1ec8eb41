import Mathlib.Data.List.Basic

/-! # Delimited texts

Texts that can be read back from the front of a longer one.
-/

namespace CuTile

variable {α : Type u} {β : Type v} {σ : Type w}

/-- Before a rest of the right kind, the text of a value tells the value and where it ends. -/
def Delimited (Rest : List σ → Prop) (text : α → List σ) : Prop :=
  ∀ ⦃first second rest rest'⦄, Rest rest → Rest rest' →
    text first ++ rest = text second ++ rest' → first = second ∧ rest = rest'

variable {Rest Middle : List σ → Prop} {text : α → List σ} {next : β → List σ} {separator : σ}

theorem Delimited.pair (front : Delimited Middle text) (back : Delimited Rest next)
    (starts : ∀ {value rest}, Rest rest → Middle (next value ++ rest)) :
    Delimited Rest fun pair : α × β => text pair.1 ++ next pair.2 := by
  rintro ⟨first, second⟩ ⟨_, _⟩ rest rest' allowed allowed' same
  rw [List.append_assoc, List.append_assoc] at same
  rcases front (starts allowed) (starts allowed') same with ⟨rfl, later⟩
  rcases back allowed allowed' later with ⟨rfl, ends⟩
  exact ⟨rfl, ends⟩

def Separated (separator : σ) (rest : List σ) : Prop := ∀ symbol ∈ rest.head?, symbol = separator

/-- A text without the separator ends where the separator comes. -/
theorem append_inj_of_separated [DecidableEq σ] {first second rest rest' : List σ}
    (clear : separator ∉ first) (clear' : separator ∉ second) (ends : Separated separator rest)
    (ends' : Separated separator rest') (same : first ++ rest = second ++ rest') :
    first = second ∧ rest = rest' := by
  have front {text rest : List σ} (clear : separator ∉ text) (ends : Separated separator rest) :
      (text ++ rest).takeWhile (· ≠ separator) = text := by
    rw [List.takeWhile_append_of_pos]
    · cases rest with
      | nil => simp
      | cons symbol rest => simp [ends symbol rfl]
    · intro symbol member
      exact decide_eq_true fun equal => clear (equal ▸ member)
  have sameFront := congrArg (List.takeWhile (· ≠ separator)) same
  rw [front clear ends, front clear' ends'] at sameFront
  subst sameFront
  exact ⟨rfl, List.append_cancel_left same⟩

theorem separated_flatMap (values : List α) :
    Separated separator (values.flatMap fun value => separator :: text value) := by
  cases values <;> simp [Separated]

theorem Delimited.flatMap (delimited : Delimited (Separated separator) text) :
    Function.Injective fun values : List α =>
      values.flatMap fun value => separator :: text value := by
  intro left
  induction left with
  | nil =>
    intro right same
    cases right with
    | nil => rfl
    | cons => cases same
  | cons _ rest induction =>
    intro right same
    cases right with
    | nil => cases same
    | cons _ others =>
      rcases delimited (separated_flatMap rest) (separated_flatMap others) (List.cons.inj same).2
        with ⟨rfl, later⟩
      rw [induction later]

theorem Delimited.intercalate (delimited : Delimited (Separated separator) text)
    (nonempty : ∀ value, text value ≠ []) :
    Function.Injective fun values : List α => [separator].intercalate (values.map text) := by
  have joined (first : α) (rest : List α) : [separator].intercalate ((first :: rest).map text) =
      text first ++ rest.flatMap fun value => separator :: text value := by
    induction rest generalizing first with
    | nil => simp
    | cons _ _ induction =>
      rw [List.map_cons, List.map_cons, List.intercalate_cons_cons, ← List.map_cons, induction]
      simp
  intro left right same
  dsimp only at same
  cases left with
  | nil =>
    cases right with
    | nil => rfl
    | cons => simp [joined, nonempty, -List.map_cons] at same
  | cons _ rest =>
    cases right with
    | nil => simp [joined, nonempty, -List.map_cons] at same
    | cons _ others =>
      rw [joined, joined] at same
      rcases delimited (separated_flatMap rest) (separated_flatMap others) same with ⟨rfl, later⟩
      rw [delimited.flatMap later]

end CuTile
