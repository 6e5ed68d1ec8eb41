/-! # Fallible computations

How a successful run of a sequence of fallible steps decomposes.
-/

namespace CuTile

namespace Fallible

variable {ε : Type u} {α : Type v} {β : Type v}

@[simp] theorem bind_eq_ok_iff {first : Except ε α} {next : α → Except ε β} {result : β} :
    (first >>= next) = .ok result ↔
      ∃ intermediate, first = .ok intermediate ∧ next intermediate = .ok result := by
  cases first <;> simp [bind, Except.bind]

theorem check_bind_eq_ok_iff {check : Except ε PUnit} {next : PUnit → Except ε β} {result : β} :
    (check >>= next) = .ok result ↔ check = .ok ⟨⟩ ∧ next ⟨⟩ = .ok result := by
  cases check <;> simp [bind, Except.bind]

theorem bind_ne_error {first : Except ε α} {next : α → Except ε β} {reason : ε}
    (here : first ≠ .error reason)
    (later : ∀ value, first = .ok value → next value ≠ .error reason) :
    (first >>= next) ≠ .error reason := by
  cases first with
  | error => exact fun fails => here (congrArg Except.error (Except.error.inj fails))
  | ok value => exact later value rfl

theorem pure_ne_error (value : α) (reason : ε) : (pure value : Except ε α) ≠ .error reason :=
  nofun

@[simp] theorem ok_bind (value : α) (next : α → Except ε β) :
    (Except.ok value >>= next) = next value := rfl

@[simp] theorem pure_eq_ok_iff {value result : α} :
    (pure value : Except ε α) = .ok result ↔ value = result := by
  simp [pure, Except.pure]

theorem toOption_eq_some {result : Except ε α} {value : α}
    (isValue : result.toOption = some value) : result = .ok value := by
  cases result with
  | ok => exact congrArg Except.ok (Option.some.inj isValue)
  | error => cases isValue

end Fallible

end CuTile
