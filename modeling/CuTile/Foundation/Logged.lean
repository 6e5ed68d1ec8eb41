/-! # Fallible computations with a log

What a computation has logged stays in the log when it fails later.
-/

namespace CuTile

structure Logged (ε ω α : Type) where
  log : List ω
  result : Except ε α

namespace Logged

variable {ε ω α β : Type}

protected def bind (first : Logged ε ω α) (next : α → Logged ε ω β) : Logged ε ω β :=
  match first.result with
  | .ok value => { next value with log := first.log ++ (next value).log }
  | .error reason => ⟨first.log, .error reason⟩

instance : Monad (Logged ε ω) where
  pure value := ⟨[], .ok value⟩
  bind := Logged.bind

def record (entry : ω) : Logged ε ω Unit :=
  ⟨[entry], .ok ()⟩

def fail (reason : ε) : Logged ε ω α :=
  ⟨[], .error reason⟩

def ofExcept (result : Except ε α) : Logged ε ω α :=
  ⟨[], result⟩

def mapError {δ : Type} (transform : ε → δ) (computation : Logged ε ω α) : Logged δ ω α :=
  ⟨computation.log, computation.result.mapError transform⟩

/-- Every log entry satisfies `property`. -/
def All (property : ω → Prop) (computation : Logged ε ω α) : Prop :=
  ∀ entry ∈ computation.log, property entry

variable {property : ω → Prop}

theorem All.pure (value : α) : All property (pure value : Logged ε ω α) := by
  nofun

theorem All.fail (reason : ε) : All property (fail reason : Logged ε ω α) := by
  nofun

theorem All.ofExcept (result : Except ε α) : All property (ofExcept result : Logged ε ω α) := by
  nofun

theorem All.record {entry : ω} (holds : property entry) :
    All property (record entry : Logged ε ω Unit) := by
  intro _ member
  rw [List.mem_singleton.mp member]
  exact holds

theorem All.bind {first : Logged ε ω α} {next : α → Logged ε ω β} (holds : All property first)
    (nextHolds : ∀ value, All property (next value)) : All property (first >>= next) := by
  intro entry member
  simp only [Bind.bind, Logged.bind] at member
  split at member
  · rcases List.mem_append.mp member with early | late
    · exact holds entry early
    · exact nextHolds _ entry late
  · exact holds entry member

theorem pure_bind (value : α) (next : α → Logged ε ω β) : pure value >>= next = next value := rfl

theorem mem_log_bind {entry : ω} {first : Logged ε ω α} (member : entry ∈ first.log)
    (next : α → Logged ε ω β) : entry ∈ (first >>= next).log := by
  simp only [Bind.bind, Logged.bind]
  split
  · exact List.mem_append_left _ member
  · exact member

end Logged

end CuTile
