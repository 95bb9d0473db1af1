/-
LendingClaw.Lib.JsValue — the values of the scripting language of the
user interface, as code sees them that does not know their types.

A number is one of the three values that are not finite, or a rational:
every finite number of the language is one. Arithmetic on them is exact,
and zero has no sign. An object is its own properties, in the order of their creation; a name is looked up among
them, and is not one that every object inherits.

Nothing here names a program.
-/
import Mathlib.Data.Rat.Floor
import Mathlib.Tactic.Linarith

namespace LendingClaw.Lib

inductive JsNumber where
  | nan
  | infinite (negative : Bool)
  | finite (value : ℚ)
  deriving DecidableEq

namespace JsNumber

/-- `value > 0`. -/
def positive : JsNumber → Bool
  | .nan => false
  | .infinite negative => !negative
  | .finite value => decide (0 < value)

/-- `value < 0`. -/
def negative : JsNumber → Bool
  | .nan => false
  | .infinite negative => negative
  | .finite value => decide (value < 0)

/-- `Math.sign`. -/
def sign : JsNumber → JsNumber
  | .nan => .nan
  | .infinite negative => .finite (if negative then -1 else 1)
  | .finite value => .finite (if 0 < value then 1 else if value < 0 then -1 else 0)

/-- `===`. -/
def strictEq : JsNumber → JsNumber → Bool
  | .nan, _ => false
  | a, b => decide (a = b)

def add : JsNumber → JsNumber → JsNumber
  | .finite a, .finite b => .finite (a + b)
  | .infinite a, .infinite b => if a = b then .infinite a else .nan
  | .infinite a, .finite _ => .infinite a
  | .finite _, .infinite b => .infinite b
  | _, _ => .nan

def sub : JsNumber → JsNumber → JsNumber
  | .finite a, .finite b => .finite (a - b)
  | .infinite a, .infinite b => if a = b then .nan else .infinite a
  | .infinite a, .finite _ => .infinite a
  | .finite _, .infinite b => .infinite !b
  | _, _ => .nan

def mul : JsNumber → JsNumber → JsNumber
  | .finite a, .finite b => .finite (a * b)
  | .infinite a, .infinite b => .infinite (a ^^ b)
  | .infinite a, .finite b => if b = 0 then .nan else .infinite (a ^^ decide (b < 0))
  | .finite a, .infinite b => if a = 0 then .nan else .infinite (b ^^ decide (a < 0))
  | _, _ => .nan

def div : JsNumber → JsNumber → JsNumber
  | .finite a, .finite b =>
    if b = 0 then if a = 0 then .nan else .infinite (decide (a < 0)) else .finite (a / b)
  | .infinite a, .finite b => .infinite (a ^^ decide (b < 0))
  | .finite _, .infinite _ => .finite 0
  | _, _ => .nan

/-- The largest distance from the epoch that a date can have. -/
def maxTime : ℚ := 8640000000000000

/-- The time of `new Date(value)`, rounded towards zero. -/
def newDate : JsNumber → Option Int
  | .finite value =>
    if -maxTime ≤ value ∧ value ≤ maxTime then some (if 0 ≤ value then ⌊value⌋ else ⌈value⌉)
    else none
  | _ => none

/-- A date keeps to the bounds that its number keeps to. -/
theorem newDate_mem {value : ℚ} {a b : Int} (ha : -maxTime ≤ a) (hb : b ≤ maxTime)
    (hav : a ≤ value) (hvb : value ≤ b) :
    ∃ time, newDate (.finite value) = some time ∧ a ≤ time ∧ time ≤ b := by
  refine ⟨_, if_pos ⟨ha.trans hav, hvb.trans hb⟩, ?_⟩
  split
  · exact ⟨Int.le_floor.mpr hav, by exact_mod_cast (Int.floor_le value).trans hvb⟩
  · exact ⟨by exact_mod_cast hav.trans (Int.le_ceil value), Int.ceil_le.mpr hvb⟩

end JsNumber

inductive JsValue where
  | undefined
  | null
  | bool (value : Bool)
  | num (value : JsNumber)
  | str (text : String)
  /-- The time of a date, none if it is invalid. -/
  | date (time : Option Int)
  | arr (items : List JsValue)
  | obj (fields : List (String × JsValue))

namespace JsValue

/-- `fields[key]`. -/
def get (fields : List (String × JsValue)) (key : String) : JsValue :=
  (fields.lookup key).getD .undefined

/-- `fields[key] = value`. -/
def set (key : String) (value : JsValue) : List (String × JsValue) → List (String × JsValue)
  | [] => [(key, value)]
  | f :: fields => if f.1 = key then (key, value) :: fields else f :: set key value fields

@[simp] theorem get_nil (key : String) : get [] key = .undefined := rfl

theorem get_cons (f : String × JsValue) (fields : List (String × JsValue)) (key : String) :
    get (f :: fields) key = if key = f.1 then f.2 else get fields key := by
  obtain ⟨name, value⟩ := f
  by_cases h : key = name
  · simp [get, h]
  · simp [get, List.lookup_cons, h, beq_eq_false_iff_ne.mpr h]

/-- What is written is read again, and nothing else changes. -/
theorem get_set (key : String) (value : JsValue) (fields : List (String × JsValue))
    (key' : String) :
    get (set key value fields) key' = if key' = key then value else get fields key' := by
  induction fields with
  | nil => simp [set, get_cons]
  | cons f fields ih =>
    by_cases hf : f.1 = key
    · by_cases hk : key' = key <;> simp [set, hf, get_cons, hk]
    · by_cases hk : key' = f.1
      · simp [set, hf, get_cons, hk]
      · simp [set, hf, get_cons, hk, ih]

end JsValue

end LendingClaw.Lib
