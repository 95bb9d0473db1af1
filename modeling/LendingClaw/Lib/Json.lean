/-
LendingClaw.Lib.Json — JSON values, with the fields of an object in the
order of its text, and the text that `encoding/json` writes for them.

A number is its literal: nothing here computes with numbers. The text of
a value has no line end, whatever its strings contain.
-/

namespace LendingClaw.Lib

/-- A character of a number literal. -/
def isNumberChar (c : Char) : Bool := c.isDigit || ['-', '+', '.', 'e', 'E'].contains c

structure NumberLiteral where
  text : String
  plain : text.toList.all isNumberChar = true

/-- The literal of an integer. -/
def intLiteral (n : Int) : NumberLiteral where
  text := if n < 0 then "-" ++ toString n.natAbs else toString n.natAbs
  plain := by
    have hdigits : (toString n.natAbs).toList.all isNumberChar = true := by
      rw [List.all_eq_true]
      intro c hc
      rw [Nat.toString_eq_ofList_toDigits, String.toList_ofList] at hc
      have hdigit := Nat.isDigit_of_mem_toDigits (by decide) (by decide) hc
      simp [isNumberChar, hdigit]
    split
    · rw [String.toList_append, List.all_append, hdigits]
      rfl
    · exact hdigits

inductive Json where
  | null
  | bool (value : Bool)
  | num (literal : NumberLiteral)
  | str (text : String)
  | arr (items : List Json)
  | obj (fields : List (String × Json))

namespace Json

/-- The value of a field of an object: of two fields of one name the
second counts. -/
def field (name : String) : Json → Option Json
  | .obj fields => (fields.reverse.find? (fun f => f.1 = name)).map Prod.snd
  | _ => none

/-- The text of a string. -/
def text? : Json → Option String
  | .str text => some text
  | _ => none

/-! ## Writing -/

def hexDigit (n : Nat) : Char := if n < 10 then Char.ofNat (48 + n) else Char.ofNat (87 + n)

/-- A character of a string, as `json.Marshal` writes it. -/
def escape (c : Char) : List Char :=
  if c = '\x22' then ['\\', '\x22']
  else if c = '\\' then ['\\', '\\']
  else if c = '\x08' then ['\\', 'b']
  else if c = '\x0c' then ['\\', 'f']
  else if c = '\n' then ['\\', 'n']
  else if c = '\r' then ['\\', 'r']
  else if c = '\t' then ['\\', 't']
  else if c.toNat < 32 ∨ c = '<' ∨ c = '>' ∨ c = '&' then
    ['\\', 'u', '0', '0', hexDigit (c.toNat / 16), hexDigit (c.toNat % 16)]
  else if c = '\u2028' then ['\\', 'u', '2', '0', '2', '8']
  else if c = '\u2029' then ['\\', 'u', '2', '0', '2', '9']
  else [c]

def marshalText (text : String) : List Char :=
  '\x22' :: (text.toList.flatMap escape ++ ['\x22'])

mutual

/-- `json.Marshal`. -/
def marshal : Json → List Char
  | .null => ['n', 'u', 'l', 'l']
  | .bool true => ['t', 'r', 'u', 'e']
  | .bool false => ['f', 'a', 'l', 's', 'e']
  | .num literal => literal.text.toList
  | .str text => marshalText text
  | .arr items => '[' :: (marshalItems true items ++ [']'])
  | .obj fields => '{' :: (marshalFields true fields ++ ['}'])

def marshalItems (first : Bool) : List Json → List Char
  | [] => []
  | item :: items => (if first then [] else [',']) ++ marshal item ++ marshalItems false items

def marshalFields (first : Bool) : List (String × Json) → List Char
  | [] => []
  | (name, value) :: fields =>
    (if first then [] else [',']) ++ marshalText name ++ ':' :: (marshal value ++ marshalFields false fields)

end

/-! ## Reading texts that were written -/

/-- `JSON.parse`, as far as the texts of some values go. -/
def parseAmong (values : List Json) (text : List Char) : Option Json :=
  values.find? fun value => value.marshal = text

theorem parseAmong_marshal {values : List Json} (h : (values.map marshal).Nodup) :
    ∀ value ∈ values, parseAmong values value.marshal = some value := by
  induction values with
  | nil => simp
  | cons first values ih =>
    intro value hmem
    rw [List.map_cons, List.nodup_cons] at h
    rw [parseAmong, List.find?_cons]
    rcases List.mem_cons.mp hmem with rfl | hmem
    · simp
    · have hne : first.marshal ≠ value.marshal :=
        fun heq => h.1 (List.mem_map.mpr ⟨value, hmem, heq.symm⟩)
      rw [decide_eq_false hne]
      exact ih h.2 value hmem

/-! ## Lines -/

theorem hexDigit_ne_newline {n : Nat} (h : n < 16) : hexDigit n ≠ '\n' := by
  revert n
  decide

theorem newline_not_mem_ite {p : Prop} [Decidable p] {a b : List Char} (ha : p → '\n' ∉ a)
    (hb : '\n' ∉ b) : '\n' ∉ if p then a else b := by
  by_cases hp : p
  · rw [if_pos hp]
    exact ha hp
  · rw [if_neg hp]
    exact hb

theorem newline_not_mem_hex {c : Char} (h : c.toNat < 32 ∨ c = '<' ∨ c = '>' ∨ c = '&') :
    '\n' ∉ ['\\', 'u', '0', '0', hexDigit (c.toNat / 16), hexDigit (c.toNat % 16)] := by
  have hmod : c.toNat % 16 < 16 := Nat.mod_lt _ (by omega)
  have hdiv : c.toNat / 16 < 16 := by
    rcases h with hlt | rfl | rfl | rfl
    · omega
    · decide
    · decide
    · decide
  intro hmem
  simp only [List.mem_cons, List.not_mem_nil, or_false] at hmem
  rcases hmem with h | h | h | h | h | h
  · exact absurd h (by decide)
  · exact absurd h (by decide)
  · exact absurd h (by decide)
  · exact absurd h (by decide)
  · exact hexDigit_ne_newline hdiv h.symm
  · exact hexDigit_ne_newline hmod h.symm

theorem newline_not_mem_escape (c : Char) : '\n' ∉ escape c := by
  by_cases hnewline : c = '\n'
  · subst hnewline
    decide
  · unfold escape
    refine newline_not_mem_ite (fun _ => by decide) ?_
    refine newline_not_mem_ite (fun _ => by decide) ?_
    refine newline_not_mem_ite (fun _ => by decide) ?_
    refine newline_not_mem_ite (fun _ => by decide) ?_
    refine newline_not_mem_ite (fun h => absurd h hnewline) ?_
    refine newline_not_mem_ite (fun _ => by decide) ?_
    refine newline_not_mem_ite (fun _ => by decide) ?_
    refine newline_not_mem_ite newline_not_mem_hex ?_
    refine newline_not_mem_ite (fun _ => by decide) ?_
    refine newline_not_mem_ite (fun _ => by decide) ?_
    exact fun hmem => hnewline (List.mem_singleton.mp hmem).symm

theorem newline_not_mem_marshalText (text : String) : '\n' ∉ marshalText text := by
  intro hmem
  rcases List.mem_cons.mp hmem with h | h
  · exact absurd h (by decide)
  · rcases List.mem_append.mp h with h | h
    · obtain ⟨c, _, hc⟩ := List.mem_flatMap.mp h
      exact newline_not_mem_escape c hc
    · exact absurd (List.mem_singleton.mp h) (by decide)

theorem newline_not_mem_literal (literal : NumberLiteral) : '\n' ∉ literal.text.toList := by
  intro hmem
  have hplain := List.all_eq_true.mp literal.plain '\n' hmem
  exact absurd hplain (by decide)

mutual

/-- The text of a value is one line. -/
theorem newline_not_mem_marshal : (value : Json) → '\n' ∉ marshal value
  | .null => by decide
  | .bool true => by decide
  | .bool false => by decide
  | .num literal => newline_not_mem_literal literal
  | .str text => newline_not_mem_marshalText text
  | .arr items => by
    have hitems := newline_not_mem_marshalItems true items
    simp [marshal, hitems]
  | .obj fields => by
    have hfields := newline_not_mem_marshalFields true fields
    simp [marshal, hfields]

theorem newline_not_mem_marshalItems (first : Bool) :
    (items : List Json) → '\n' ∉ marshalItems first items
  | [] => List.not_mem_nil
  | item :: items => by
    have hitem := newline_not_mem_marshal item
    have hitems := newline_not_mem_marshalItems false items
    simp only [marshalItems, List.mem_append, not_or]
    refine ⟨⟨?_, hitem⟩, hitems⟩
    cases first with
    | true => decide
    | false => decide

theorem newline_not_mem_marshalFields (first : Bool) :
    (fields : List (String × Json)) → '\n' ∉ marshalFields first fields
  | [] => List.not_mem_nil
  | (name, value) :: fields => by
    have hname := newline_not_mem_marshalText name
    have hvalue := newline_not_mem_marshal value
    have hfields := newline_not_mem_marshalFields false fields
    simp only [marshalFields, List.mem_append, List.mem_cons, not_or]
    refine ⟨⟨?_, hname⟩, by decide, hvalue, hfields⟩
    cases first with
    | true => decide
    | false => decide

end

end Json

end LendingClaw.Lib
