import CuTile.Launch.Plan

/-! # Raw replays of a plan

A raw replay passes pointers and scalars without their tensors. Divisibility is then checked
as at least what the kernel assumes, not as the hint that the plan was built with.
-/

namespace CuTile

open PowerOfTwo Option

/-- The hint and the bits of a scalar are those of its value. -/
inductive RawArg where
  | ptr (ptr : BitVec 64)
  | scalar (value : ScalarValue)

namespace RawArg

def slotValue : RawArg → Slot
  | ptr address => address.setWidth 128
  | scalar value => value.scalarBits

/-- The number that the kernel reads in the slot. -/
def number : RawArg → Int
  | ptr address => address.toNat
  | scalar value => if value.dtype.isSigned then value.bits.toInt else value.bits.toNat

def satisfies (arg : RawArg) (layout : ArgLayout) : Bool :=
  match layout, arg with
  | .tensor layout, ptr address =>
    address.toNat % Usize.ofI32 layout.spec.basePtrDiv.divisor = 0
  | .pointer _ hint, ptr address => address.toNat % Usize.ofI32 hint.divisor = 0
  | .scalar dtype hint, scalar value =>
    dtype = value.dtype &&
      hint.all fun hint => value.divHint.any fun raw => hint.divisor ≤ raw.divisor
  | _, _ => false

end RawArg

namespace PlanInner

variable (plan : PlanInner) (debug : RawArg → ArgLayout → String × String)

def checkRawFrom : Nat → List (PlanParam × RawArg) → Except PlanError Unit
  | _, [] => .ok ()
  | index, (param, arg) :: rest =>
    if arg.satisfies param.layout then checkRawFrom (index + 1) rest
    else
      let (given, expected) := debug arg param.layout
      .error (.launch (s!"raw argument {index} ({given}) does not satisfy the plan's "
        ++ s!"layout {expected}"))

def checkRaw (deviceId : Nat) (args : List RawArg) : Except PlanError Unit :=
  if args.length ≠ plan.params.length then
    .error (.launch s!"launch plan takes {plan.params.length} arguments, got {args.length}")
  else if deviceId ≠ plan.deviceId then
    .error (.launch (s!"launch plan was built for device {plan.deviceId}, the stream is on "
      ++ s!"device {deviceId}"))
  else checkRawFrom debug 0 (plan.params.zip args)

/-- What `submitRaw` launches with. -/
def patchRaw (args : List RawArg) : List Slot :=
  Segments.writeAll plan.values (plan.slots.zip (args.map RawArg.slotValue))

end PlanInner

/-- The divisor, an `i32`, that the entry point of the kernel states of the first argument of
a parameter. One is not stated. -/
def ArgLayout.Assumes (layout : ArgLayout) (divisor : Int) : Prop :=
  1 < divisor ∧ IntegerFormat.i32.Represents divisor ∧ match layout with
    | .tensor layout => divisor = layout.spec.basePtrDiv.divisor
    | .pointer _ hint => divisor = hint.divisor
    | .scalar _ hint => ∃ known ∈ hint, divisor = known.divisor

theorem checkRawFrom_eq_ok {debug : RawArg → ArgLayout → String × String} {index : Nat}
    {pairs : List (PlanParam × RawArg)} (ok : PlanInner.checkRawFrom debug index pairs = .ok ()) :
    ∀ pair ∈ pairs, pair.2.satisfies pair.1.layout := by
  induction pairs generalizing index with
  | nil => exact fun pair member => absurd member List.not_mem_nil
  | cons _ _ induction =>
    unfold PlanInner.checkRawFrom at ok
    split_ifs at ok with satisfied
    exact List.forall_mem_cons.mpr ⟨satisfied, induction ok⟩

theorem dvd_of_multiple {divisor : Int} (above : 1 < divisor)
    (machine : IntegerFormat.i32.Represents divisor) {address : BitVec 64}
    (multiple : address.toNat % Usize.ofI32 divisor = 0) : divisor ∣ address.toNat := by
  rw [IntegerFormat.represents_i32] at machine
  have same : (Usize.ofI32 divisor : Int) = divisor := by
    rw [Usize.ofI32]
    omega
  rw [← same]
  exact Int.natCast_dvd_natCast.mpr (Nat.dvd_of_mod_eq_zero multiple)

/-- A hint that is at least another one promises the other's divisor too. Sixteen divides the
number of values of every type, so the 32-bit view of an integer has its divisors. -/
theorem dvd_number_of_hint_le {value : ScalarValue} {divisor view : Int}
    (known : LargestUpTo 4 view divisor)
    (least : divisor ≤ (DivHint.fromValue value.asI32).divisor) :
    divisor ∣ (RawArg.scalar value).number ∧ divisor ∣ (value.bits.toNat : Int) := by
  have raw := DivHint.fromValue_largest value.asI32
  have divides : divisor ∣ value.asI32 := by
    apply Dvd.dvd.trans _ raw.dvd
    rcases raw.isPower with ⟨_, -, isLarge⟩
    rcases known.isPower with ⟨small, -, isSmall⟩
    rw [isLarge, isSmall] at least ⊢
    exact pow_dvd_pow 2 ((pow_le_pow_iff_right₀ one_lt_two).mp least)
  have sixteen : divisor ∣ 2 ^ 4 := by
    rcases known.isPower with ⟨small, atMost, rfl⟩
    exact pow_dvd_pow 2 atMost
  have ofNumber : divisor ∣ (RawArg.scalar value).number := by
    apply (Int.ModEq.dvd_iff _).mp divides
    exact (IntegerFormat.wrap_modEq _ _).of_dvd (sixteen.trans (by decide))
  refine ⟨ofNumber, (Int.ModEq.dvd_iff ?_).mp ofNumber⟩
  simp only [RawArg.number]
  split_ifs
  · rw [BitVec.toInt_eq_toNat_bmod]
    apply Int.ModEq.of_dvd (sixteen.trans _) (Int.bmod_emod)
    cases value.dtype <;> decide
  · rfl

theorem checkRaw_divisible {deviceId : Nat} {checks : List LaunchCheck}
    {parameters : List Parameter} {grid : Grid} {plan : PlanInner}
    (built : PlanInner.fromLaunch deviceId (capture checks parameters grid) = .ok plan)
    (debug : RawArg → ArgLayout → String × String) (device : Nat) (args : List RawArg)
    (checked : plan.checkRaw debug device args = .ok ()) (position : Nat) (param : PlanParam)
    (isParam : plan.params[position]? = some param) :
    ∃ arg slot, args[position]? = some arg ∧ (plan.patchRaw args)[param.slot]? = some slot ∧
      ∀ divisor, param.layout.Assumes divisor →
        divisor ∣ (slot.toNat : Int) ∧ divisor ∣ arg.number := by
  have template := template_of_fromLaunch built
  unfold PlanInner.checkRaw at checked
  split_ifs at checked with count elsewhere
  have inside : position < args.length := by
    have bound := (List.getElem?_eq_some_iff.mp isParam).1
    omega
  have isArg := List.getElem?_eq_getElem inside
  generalize args[position] = arg at isArg
  refine ⟨arg, arg.slotValue, isArg, ?_, fun divisor assumed => ?_⟩
  · apply template.written_slot
    · rw [PlanInner.slots, List.length_map, List.length_map, not_not.mp count]
    · rw [PlanInner.slots, List.getElem?_map, isParam, map_some]
    · rw [List.getElem?_map, isArg, map_some]
  have satisfied := checkRawFrom_eq_ok checked (param, arg)
    (List.mem_of_getElem? (List.getElem?_zip_eq_some.mpr ⟨isParam, isArg⟩))
  have isLayout : ∃ parameter : Parameter, parameter.planLayout = .ok param.layout := by
    have known := congrArg (·[position]?) template.layouts
    simp only [List.getElem?_map, isParam, map_some, map_eq_some_iff] at known
    rcases known with ⟨parameter, -, isLayout⟩
    exact ⟨parameter, isLayout⟩
  rcases assumed with ⟨above, machine, assumed⟩
  have pointer (address : BitVec 64) : (address.setWidth 128).toNat = address.toNat := by
    rw [BitVec.toNat_setWidth]
    omega
  cases layout : param.layout <;> cases arg <;> rw [layout] at satisfied assumed isLayout
  case tensor.ptr | pointer.ptr =>
    subst assumed
    have divides := dvd_of_multiple above machine (of_decide_eq_true satisfied)
    exact ⟨by rwa [RawArg.slotValue, pointer], divides⟩
  case scalar.scalar dtype hint value =>
    rcases assumed with ⟨known, isKnown, rfl⟩
    rcases isLayout with ⟨parameter, isLayout⟩
    rw [RawArg.satisfies, mem_def.mp isKnown] at satisfied
    have found : ∃ view, LargestUpTo 4 view known.divisor := by
      unfold Parameter.planLayout at isLayout
      split at isLayout <;> cases isLayout
      split_ifs at isKnown <;> cases isKnown
      exact ⟨_, DivHint.fromValue_largest _⟩
    rcases found with ⟨view, largest⟩
    have least : known.divisor ≤ (DivHint.fromValue value.asI32).divisor := by
      simp only [all_some, ScalarValue.divHint] at satisfied
      split_ifs at satisfied
      · simpa using (Bool.and_eq_true_iff.mp satisfied).2
      · simp at satisfied
    have divides := dvd_number_of_hint_le largest least
    refine ⟨?_, divides.1⟩
    rw [RawArg.slotValue, ScalarValue.scalarBits, BitVec.toNat_setWidth, Nat.mod_eq_of_lt]
    · exact divides.2
    · have small := value.dtype.sizeInBytes_le
      exact value.bits.isLt.trans_le (Nat.pow_le_pow_right (by decide) (by omega))
  all_goals cases satisfied

theorem checkRaw_divisible_pointer :
    let debug : RawArg → ArgLayout → String × String := fun _ _ => ("", "")
    let spec : SpecializationBits := ⟨[⟨16, 16⟩], [⟨1, 16⟩], [true], ⟨16, 16⟩, true⟩
    let output : TensorArg := ⟨.f32, 0, 4096, [16], [1], spec, some ⟨[4], [1], false⟩⟩
    ∃ plan, PlanInner.fromLaunch 0 (capture [] [⟨.other, .tensor output⟩] (4, 1, 1)) = .ok plan ∧
      plan.checkRaw debug 0 [.ptr 8192#64] = .ok () ∧
      ∃ slot, (plan.patchRaw [.ptr 8192#64])[0]? = some slot ∧ (16 : Int) ∣ slot.toNat := by
  intro debug spec output
  have aligned : (RawArg.ptr 8192#64).satisfies (.tensor output.layout) = true := by decide +kernel
  have checked (plan : PlanInner) (params : plan.params = [⟨.tensor output.layout, 0⟩])
      (device : plan.deviceId = 0) : plan.checkRaw debug 0 [.ptr 8192#64] = .ok () := by
    simp [PlanInner.checkRaw, PlanInner.checkRawFrom, params, device, aligned]
  have built : PlanInner.fromLaunch 0 (capture [] [⟨.other, .tensor output⟩] (4, 1, 1)) =
      .ok _ := rfl
  refine ⟨_, built, checked _ rfl rfl, ?_⟩
  rcases checkRaw_divisible built debug 0 [.ptr 8192#64] (checked _ rfl rfl) 0 _ rfl with
    ⟨arg, slot, -, patched, divides⟩
  exact ⟨slot, patched, (divides 16 ⟨by decide, by decide, rfl⟩).1⟩

end CuTile
