import Mathlib
import CuTile.Foundation.Delimited
import CuTile.Foundation.OrderedMap

/-! # Configurations of the tuner

A configuration is known by an id that is spelled from its parameters.
-/

namespace CuTile

open List

/-- No quote without a backslash before it, and no backslash without a character after it. -/
inductive Escaped : List Char → Prop
  | nil : Escaped []
  | escape (symbol : Char) {rest : List Char} : Escaped rest → Escaped ('\\' :: symbol :: rest)
  | plain {symbol : Char} {rest : List Char} :
      symbol ≠ '"' → symbol ≠ '\\' → Escaped rest → Escaped (symbol :: rest)

theorem Escaped.append_inj {first second rest rest' : List Char} (escaped : Escaped first)
    (escaped' : Escaped second) (same : first ++ '"' :: rest = second ++ '"' :: rest') :
    first = second ∧ rest = rest' := by
  induction escaped generalizing second with
  | nil =>
    cases escaped' with
    | nil => exact ⟨rfl, (cons.inj same).2⟩
    | escape => cases same
    | plain quote => exact absurd (cons.inj same).1.symm quote
  | escape _ _ induction =>
    cases escaped' with
    | nil => cases same
    | escape _ escaped' =>
      rcases cons.inj (cons.inj same).2 with ⟨rfl, later⟩
      rcases induction escaped' later with ⟨rfl, ends⟩
      exact ⟨rfl, ends⟩
    | plain _ slash => exact absurd (cons.inj same).1.symm slash
  | plain quote slash _ induction =>
    cases escaped' with
    | nil => exact absurd (cons.inj same).1 quote
    | escape => exact absurd (cons.inj same).1 slash
    | plain _ _ escaped' =>
      rcases cons.inj same with ⟨rfl, later⟩
      rcases induction escaped' later with ⟨rfl, ends⟩
      exact ⟨rfl, ends⟩

/-- What is used of `serde_json::to_string` on strings. -/
structure JsonStrings where
  encode : String → String
  injective : Function.Injective encode
  quoted : ∀ value, ∃ body, (encode value).toList = '"' :: (body ++ ['"']) ∧ Escaped body

inductive ParamValue where
  | int (value : Int)
  | str (value : String)
deriving DecidableEq, Repr

structure Config where
  id : String
  params : OrderedMap String ParamValue

variable (json : JsonStrings)

def keyText (key : String) : String :=
  if key.toList.any (['=', ',', '"'].contains ·) then json.encode key else key

def valueText : ParamValue → String
  | .int value => toString value
  | .str value => json.encode value

def entryText (entry : String × ParamValue) : String :=
  keyText json entry.1 ++ "=" ++ valueText json entry.2

/-- A later parameter replaces an earlier one of its name. -/
def Config.new (params : List (String × ParamValue)) : Config :=
  let params := params.foldl (fun map entry => map.insert entry.1 entry.2) .empty
  ⟨",".intercalate (params.entries.map (entryText json)), params⟩

theorem delimited_encode : Delimited (fun _ => True) fun value => (json.encode value).toList := by
  intro first second _ _ _ _ same
  rcases json.quoted first with ⟨_, isFirst, escaped⟩
  rcases json.quoted second with ⟨_, isSecond, escaped'⟩
  simp only [isFirst, isSecond, cons_append, append_assoc, nil_append,
    cons.injEq, true_and] at same
  rcases escaped.append_inj escaped' same with ⟨rfl, ends⟩
  exact ⟨json.injective (String.toList_inj.mp (isFirst.trans isSecond.symm)), ends⟩

/-- A text without quotes is not taken for a quoted one. -/
theorem encode_append_ne {value : String} {plain rest rest' : List Char} (clear : '"' ∉ plain)
    (ends : '"' ∉ rest.head?) : plain ++ rest ≠ (json.encode value).toList ++ rest' := by
  intro same
  rcases json.quoted value with ⟨_, isEncoded, -⟩
  have first := congrArg head? same
  rw [isEncoded, head?_append, head?_append] at first
  cases plain with
  | nil => exact ends (by simpa using first)
  | cons =>
    cases first
    exact clear mem_cons_self

theorem delimited_keyText :
    Delimited (fun rest => '=' ∈ rest.head?) fun key => (keyText json key).toList := by
  have plain {key : String} (bare : ¬key.toList.any (['=', ',', '"'].contains ·)) :
      '=' ∉ key.toList ∧ '"' ∉ key.toList := by
    simp only [any_eq_true, not_exists, not_and] at bare
    exact ⟨fun member => bare _ member rfl, fun member => bare _ member rfl⟩
  have ends {rest : List Char} (starts : '=' ∈ rest.head?) : '"' ∉ rest.head? := by
    rw [Option.mem_def.mp starts]
    decide
  intro _ _ rest _ starts starts' same
  simp only [keyText] at same
  split_ifs at same with quoted quoted' quoted'
  · exact delimited_encode json trivial trivial same
  · exact absurd same.symm (encode_append_ne json (plain quoted').2 (ends starts'))
  · exact absurd same (encode_append_ne json (plain quoted).2 (ends starts))
  · have separated {rest : List Char} (starts : '=' ∈ rest.head?) : Separated '=' rest :=
      fun symbol isFirst => Option.mem_unique isFirst starts
    rcases append_inj_of_separated (plain quoted).1 (plain quoted').1 (separated starts)
      (separated starts') same with ⟨sameKey, sameRest⟩
    exact ⟨String.toList_inj.mp sameKey, sameRest⟩

theorem digit_of_mem_repr {value : Int} {symbol : Char} (member : symbol ∈ value.repr.toList) :
    symbol.isDigit ∨ symbol = '-' := by
  have digits (number : Nat) (member : symbol ∈ number.repr.toList) : symbol.isDigit := by
    rw [Nat.repr_eq_ofList_toDigits, String.toList_ofList] at member
    exact Nat.isDigit_of_mem_toDigits (by decide) (by decide) member
  cases value with
  | ofNat number => exact .inl (digits number member)
  | negSucc =>
    rw [Int.repr, String.toList_append, mem_append] at member
    exact member.symm.imp (digits _) (by simp)

theorem delimited_valueText :
    Delimited (Separated ',') fun value => (valueText json value).toList := by
  have clear (value : Int) (symbol : Char) (other : ¬(symbol.isDigit ∨ symbol = '-')) :
      symbol ∉ (toString value).toList := by
    rw [Int.toString_eq_repr]
    exact mt digit_of_mem_repr other
  have ends {rest : List Char} (separated : Separated ',' rest) : '"' ∉ rest.head? :=
    fun quote => absurd (separated _ quote) (by decide)
  rintro (first | first) (second | second) rest rest' starts starts' same
  · rcases append_inj_of_separated (clear first ',' (by decide)) (clear second ',' (by decide))
      starts starts' same with ⟨sameValue, sameRest⟩
    rw [String.toList_inj, Int.toString_eq_repr, Int.toString_eq_repr, Int.repr_inj] at sameValue
    exact ⟨congrArg ParamValue.int sameValue, sameRest⟩
  · exact absurd same (encode_append_ne json (clear first '"' (by decide)) (ends starts))
  · exact absurd same.symm (encode_append_ne json (clear second '"' (by decide)) (ends starts'))
  · exact (delimited_encode json trivial trivial same).imp_left (congrArg ParamValue.str)

theorem delimited_entryText :
    Delimited (Separated ',') fun entry => (entryText json entry).toList := by
  have value : Delimited (Separated ',') fun value => '=' :: (valueText json value).toList := by
    intro _ _ _ _ starts starts' same
    exact delimited_valueText json starts starts' (cons.inj same).2
  have entry := (delimited_keyText json).pair value fun _ => rfl
  simpa [entryText] using entry

def escapeAll : JsonStrings where
  encode value := String.ofList ('"' :: (value.toList.flatMap (['\\', ·]) ++ ['"']))
  injective left right same := by
    have body := List.append_cancel_right (List.cons.inj (String.ofList_injective same)).2
    have single : Delimited (Separated '\\') fun symbol : Char => [symbol] := by
      intro first second rest rest' _ _ same
      exact List.cons.inj same
    exact String.toList_inj.mp (single.flatMap body)
  quoted value := by
    refine ⟨_, String.toList_ofList, ?_⟩
    induction value.toList with
    | nil => exact .nil
    | cons symbol rest induction => exact .escape symbol induction

end CuTile
