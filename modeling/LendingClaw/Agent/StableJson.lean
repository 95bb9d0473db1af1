/-
LendingClaw.Agent.StableJson — the text that names a tool call
(`stableJSON` and `hashToolCall` in `internal/agent/toolloop.go`).

A map is its fields in the order of their keys, so the sorting of the
source is in the value. The text of a value determines it, and no object
stands at the end of another one behind a colon: the name, a colon and
the arguments can be told apart, whatever the name is.
-/
import LendingClaw.Lib.Balanced

namespace LendingClaw.Agent

open LendingClaw.Lib

section
variable (isPrint : Char → Bool)

mutual

/-- `stableJSON`: keys are written with `%q`, and what is no map and no
slice by `json.Marshal`. -/
def stableJSON : Json → List Char
  | .arr items => '[' :: (stableItems true items ++ [']'])
  | .obj fields => '\x7b' :: (stableFields true fields ++ ['\x7d'])
  | .null => Json.marshal .null
  | .bool value => Json.marshal (.bool value)
  | .num literal => Json.marshal (.num literal)
  | .str text => Json.marshal (.str text)

def stableItems (first : Bool) : List Json → List Char
  | [] => []
  | item :: items =>
    (if first then [] else [',']) ++ stableJSON item ++ stableItems false items

def stableFields (first : Bool) : List (String × Json) → List Char
  | [] => []
  | (k, val) :: fields =>
    (if first then [] else [',']) ++ quote isPrint k.toList ++ ':' :: (stableJSON val
      ++ stableFields false fields)

end

/-- The text that `hashToolCall` takes the digest of. -/
def toolCallText (toolName : String) (args : List (String × Json)) : List Char :=
  toolName.toList ++ ':' :: stableJSON isPrint (.obj args)

/-! ## Balanced -/

theorem mark_plain {c : Char} (hquote : c ≠ '\x22') (hslash : c ≠ '\\')
    (hopen : ¬ (c = '[' ∨ c = '\x7b')) (hclose : ¬ (c = ']' ∨ c = '\x7d')) : mark c = .plain := by
  rw [mark, if_neg hquote, if_neg hslash, if_neg hopen, if_neg hclose]

theorem mark_not_special {c : Char} (hquote : c ≠ '\x22') (hslash : c ≠ '\\') :
    mark c ≠ .quote ∧ mark c ≠ .slash := by
  rw [mark, if_neg hquote, if_neg hslash]
  constructor
  · split_ifs <;> exact nofun
  · split_ifs <;> exact nofun

theorem isPlain_hexDigit {n : Nat} (h : n < 16) : isPlain (Json.hexDigit n) = true := by
  revert n
  decide

theorem plain_hexDigits (width n : Nat) : (hexDigits width n).all isPlain = true := by
  induction width generalizing n with
  | zero => rfl
  | succ width ih =>
    rw [hexDigits, List.all_append, ih, List.all_cons, isPlain_hexDigit (Nat.mod_lt n (by decide))]
    rfl

/-- A number has none of the marks. -/
theorem isPlain_of_number {c : Char} (h : isNumberChar c = true) : isPlain c = true := by
  have hne : ∀ d : Char, isNumberChar d = false → c ≠ d := by
    rintro d hd rfl
    rw [h] at hd
    cases hd
  refine decide_eq_true (mark_plain (hne _ rfl) (hne _ rfl) ?_ ?_)
  · rintro (hc | hc)
    · exact hne _ rfl hc
    · exact hne _ rfl hc
  · rintro (hc | hc)
    · exact hne _ rfl hc
    · exact hne _ rfl hc

theorem shaped_ite {p : Prop} [Decidable p] {a b : List Char}
    (ha : p → ∃ c digits, a = '\\' :: c :: digits ∧ digits.all isPlain = true)
    (hb : ¬ p → (∃ c, b = [c] ∧ mark c ≠ .quote ∧ mark c ≠ .slash)
      ∨ ∃ c digits, b = '\\' :: c :: digits ∧ digits.all isPlain = true) :
    (∃ c, (if p then a else b) = [c] ∧ mark c ≠ .quote ∧ mark c ≠ .slash)
      ∨ ∃ c digits, (if p then a else b) = '\\' :: c :: digits ∧ digits.all isPlain = true := by
  by_cases hp : p
  · rw [if_pos hp]
    exact Or.inr (ha hp)
  · rw [if_neg hp]
    exact hb hp

theorem escapeShaped_escapeRune : EscapeShaped (escapeRune isPrint) := by
  intro r
  unfold escapeRune
  refine shaped_ite (fun _ => ⟨r, [], rfl, rfl⟩) fun hspecial => ?_
  by_cases hprint : isPrint r = true
  · rw [if_pos hprint]
    exact Or.inl ⟨r, rfl, mark_not_special (fun h => hspecial (Or.inl h))
      fun h => hspecial (Or.inr h)⟩
  rw [if_neg hprint]
  refine shaped_ite (fun _ => ⟨_, _, rfl, rfl⟩) fun _ => ?_
  refine shaped_ite (fun _ => ⟨_, _, rfl, rfl⟩) fun _ => ?_
  refine shaped_ite (fun _ => ⟨_, _, rfl, rfl⟩) fun _ => ?_
  refine shaped_ite (fun _ => ⟨_, _, rfl, rfl⟩) fun _ => ?_
  refine shaped_ite (fun _ => ⟨_, _, rfl, rfl⟩) fun _ => ?_
  refine shaped_ite (fun _ => ⟨_, _, rfl, rfl⟩) fun _ => ?_
  refine shaped_ite (fun _ => ⟨_, _, rfl, rfl⟩) fun _ => ?_
  refine shaped_ite (fun _ => ⟨_, _, rfl, plain_hexDigits 2 _⟩) fun _ => ?_
  refine shaped_ite (fun _ => ⟨_, _, rfl, plain_hexDigits 4 _⟩) fun _ => ?_
  exact Or.inr ⟨_, _, rfl, plain_hexDigits 8 _⟩

theorem escapeShaped_escape : EscapeShaped Json.escape := by
  intro r
  unfold Json.escape
  refine shaped_ite (fun _ => ⟨_, _, rfl, rfl⟩) fun hquote => ?_
  refine shaped_ite (fun _ => ⟨_, _, rfl, rfl⟩) fun hslash => ?_
  refine shaped_ite (fun _ => ⟨_, _, rfl, rfl⟩) fun _ => ?_
  refine shaped_ite (fun _ => ⟨_, _, rfl, rfl⟩) fun _ => ?_
  refine shaped_ite (fun _ => ⟨_, _, rfl, rfl⟩) fun _ => ?_
  refine shaped_ite (fun _ => ⟨_, _, rfl, rfl⟩) fun _ => ?_
  refine shaped_ite (fun _ => ⟨_, _, rfl, rfl⟩) fun _ => ?_
  refine shaped_ite (fun hctl => ⟨_, _, rfl, ?_⟩) fun _ => ?_
  · have hhigh : r.toNat / 16 < 16 := by
      rcases hctl with h | rfl | rfl | rfl
      · omega
      · decide
      · decide
      · decide
    have hzero : isPlain '0' = true := by decide
    simp only [List.all_cons, List.all_nil, isPlain_hexDigit hhigh,
      isPlain_hexDigit (Nat.mod_lt r.toNat (show 0 < 16 by decide)), hzero, Bool.and_self]
  refine shaped_ite (fun _ => ⟨_, _, rfl, by decide⟩) fun _ => ?_
  refine shaped_ite (fun _ => ⟨_, _, rfl, by decide⟩) fun _ => ?_
  exact Or.inl ⟨r, rfl, mark_not_special hquote hslash⟩

mutual

theorem balanced_stableJSON : (value : Json) → Balanced (stableJSON isPrint value)
  | .null => rfl
  | .bool true => rfl
  | .bool false => rfl
  | .num literal =>
    balanced_of_plain (List.all_eq_true.mpr fun c hc =>
      isPlain_of_number (List.all_eq_true.mp literal.plain c hc))
  | .str text => balanced_quoted escapeShaped_escape text.toList
  | .arr items => by
    rw [stableJSON]
    exact (balanced_stableItems true items).bracketed rfl rfl
  | .obj fields => by
    rw [stableJSON]
    exact (balanced_stableFields true fields).bracketed rfl rfl

theorem balanced_stableItems (first : Bool) :
    (items : List Json) → Balanced (stableItems isPrint first items)
  | [] => rfl
  | item :: items => by
    have hcomma : Balanced (if first then [] else [',']) := by cases first <;> rfl
    rw [stableItems]
    exact (hcomma.append (balanced_stableJSON item)).append (balanced_stableItems false items)

theorem balanced_stableFields (first : Bool) :
    (fields : List (String × Json)) → Balanced (stableFields isPrint first fields)
  | [] => rfl
  | (k, val) :: fields => by
    have hcomma : Balanced (if first then [] else [',']) := by cases first <;> rfl
    have hkey : Balanced (quote isPrint k.toList) :=
      balanced_quoted (escapeShaped_escapeRune isPrint) k.toList
    have hcolon : Balanced [':'] := rfl
    have hrest := hcolon.append
      ((balanced_stableJSON val).append (balanced_stableFields false fields))
    rw [stableFields]
    exact (hcomma.append hkey).append hrest

end

/-! ## One text, one value -/

mutual

/-- Every number is written with some characters. -/
def Proper : Json → Prop
  | .num literal => literal.text.toList ≠ []
  | .arr items => ProperItems items
  | .obj fields => ProperFields fields
  | .null | .bool _ | .str _ => True

def ProperItems : List Json → Prop
  | [] => True
  | item :: items => Proper item ∧ ProperItems items

def ProperFields : List (String × Json) → Prop
  | [] => True
  | (_, val) :: fields => Proper val ∧ ProperFields fields

end

/-- What can follow a value inside of another one, or nothing. -/
def Delimited (s : List Char) : Prop := ∀ c ∈ s.head?, c = ',' ∨ c = ']' ∨ c = '\x7d'

/-- What a text starts as. -/
inductive Kind where
  | null
  | yes
  | no
  | num
  | str
  | arr
  | obj
  | none
  deriving DecidableEq

def kindOf (c : Char) : Kind :=
  if c = 'n' then .null
  else if c = 't' then .yes
  else if c = 'f' then .no
  else if c = '\x22' then .str
  else if c = '[' then .arr
  else if c = '\x7b' then .obj
  else if isNumberChar c then .num
  else .none

def kind : Json → Kind
  | .null => .null
  | .bool true => .yes
  | .bool false => .no
  | .num _ => .num
  | .str _ => .str
  | .arr _ => .arr
  | .obj _ => .obj

theorem kindOf_number {c : Char} (h : isNumberChar c = true) : kindOf c = .num := by
  have hne : ∀ d : Char, isNumberChar d = false → c ≠ d := by
    rintro d hd rfl
    rw [h] at hd
    cases hd
  rw [kindOf, if_neg (hne _ rfl), if_neg (hne _ rfl), if_neg (hne _ rfl), if_neg (hne _ rfl),
    if_neg (hne _ rfl), if_neg (hne _ rfl), if_pos h]

/-- The first character tells. -/
theorem stableJSON_head {v : Json} (h : Proper v) :
    ∃ c rest, stableJSON isPrint v = c :: rest ∧ kindOf c = kind v := by
  match v with
  | .null => exact ⟨_, _, rfl, rfl⟩
  | .bool true => exact ⟨_, _, rfl, rfl⟩
  | .bool false => exact ⟨_, _, rfl, rfl⟩
  | .str text => exact ⟨_, _, rfl, rfl⟩
  | .arr items => exact ⟨_, _, by rw [stableJSON], rfl⟩
  | .obj fields => exact ⟨_, _, by rw [stableJSON], rfl⟩
  | .num literal =>
    cases htext : literal.text.toList with
    | nil => exact absurd htext h
    | cons c rest =>
      have hnumber := List.all_eq_true.mp literal.plain c (by rw [htext]; exact List.mem_cons_self)
      exact ⟨c, rest, htext, kindOf_number hnumber⟩

theorem kind_ne_none (v : Json) : kind v ≠ .none := by
  match v with
  | .null | .bool true | .bool false | .num _ | .str _ | .arr _ | .obj _ => exact nofun

/-- A value does not start with what can follow one. -/
theorem stableJSON_not_delimited {v : Json} (h : Proper v) (s : List Char) :
    ¬ Delimited (stableJSON isPrint v ++ s) := by
  obtain ⟨c, rest, heq, hkind⟩ := stableJSON_head isPrint h
  intro hdelimited
  rw [heq] at hdelimited
  have hnone : kindOf c = .none := by
    rcases hdelimited c rfl with rfl | rfl | rfl <;> rfl
  exact kind_ne_none v (hkind.symm.trans hnone)

theorem number_inj {a b s t : List Char} (ha : a.all isNumberChar = true)
    (hb : b.all isNumberChar = true) (hs : Delimited s) (ht : Delimited t) (h : a ++ s = b ++ t) :
    a = b ∧ s = t := by
  have htake : ∀ {a s : List Char}, a.all isNumberChar = true → Delimited s →
      (a ++ s).takeWhile isNumberChar = a := by
    intro a s ha hs
    have hstop : s.takeWhile isNumberChar = [] := by
      cases s with
      | nil => rfl
      | cons c s =>
        have hno : isNumberChar c = false := by
          rcases hs c rfl with rfl | rfl | rfl <;> rfl
        rw [List.takeWhile_cons, hno]
        rfl
    rw [List.takeWhile_append_of_pos (List.all_eq_true.mp ha), hstop, List.append_nil]
  have hab : a = b := by rw [← htake ha hs, h, htake hb ht]
  subst hab
  exact ⟨rfl, List.append_cancel_left h⟩

theorem delimited_items (items : List Json) (s : List Char) :
    Delimited (stableItems isPrint false items ++ ']' :: s) := by
  cases items with
  | nil =>
    rintro c ⟨rfl⟩
    exact Or.inr (Or.inl rfl)
  | cons item items =>
    rw [stableItems]
    rintro c ⟨rfl⟩
    exact Or.inl rfl

theorem delimited_fields (fields : List (String × Json)) (s : List Char) :
    Delimited (stableFields isPrint false fields ++ '\x7d' :: s) := by
  cases fields with
  | nil =>
    rintro c ⟨rfl⟩
    exact Or.inr (Or.inr rfl)
  | cons field fields =>
    rw [stableFields]
    rintro c ⟨rfl⟩
    exact Or.inl rfl

/-- Values of one text start alike. -/
theorem kind_eq {v w : Json} (hv : Proper v) (hw : Proper w) {s t : List Char}
    (h : stableJSON isPrint v ++ s = stableJSON isPrint w ++ t) : kind v = kind w := by
  obtain ⟨c, rest, heq, hkind⟩ := stableJSON_head isPrint hv
  obtain ⟨d, rest', heq', hkind'⟩ := stableJSON_head isPrint hw
  rw [heq, heq'] at h
  rw [← hkind, ← hkind', (List.cons.inj h).1]

mutual

/-- A value is known from any text it starts, if a delimiter follows. -/
theorem stableJSON_inj : (v w : Json) → Proper v → Proper w → (s t : List Char) →
    Delimited s → Delimited t → stableJSON isPrint v ++ s = stableJSON isPrint w ++ t →
    v = w ∧ s = t
  | .null, w, hv, hw, s, t, _, _, h => by
    have hkind := kind_eq isPrint hv hw h
    match w with
    | .null => exact ⟨rfl, List.append_cancel_left h⟩
  | .bool b, w, hv, hw, s, t, _, _, h => by
    have hkind := kind_eq isPrint hv hw h
    match b, w with
    | true, .bool true | false, .bool false => exact ⟨rfl, List.append_cancel_left h⟩
  | .num a, w, hv, hw, s, t, hs, ht, h => by
    have hkind := kind_eq isPrint hv hw h
    match w with
    | .num b =>
      obtain ⟨htext, rfl⟩ := number_inj a.plain b.plain hs ht h
      obtain ⟨a, ha⟩ := a
      obtain ⟨b, hb⟩ := b
      cases String.toList_injective htext
      exact ⟨rfl, rfl⟩
  | .str a, w, hv, hw, s, t, _, _, h => by
    have hkind := kind_eq isPrint hv hw h
    match w with
    | .str b =>
      obtain ⟨htext, rfl⟩ := quoted_append_inj unquoteChar_escape h
      cases String.toList_injective htext
      exact ⟨rfl, rfl⟩
  | .arr xs, w, hv, hw, s, t, _, _, h => by
    have hkind := kind_eq isPrint hv hw h
    match w with
    | .arr ys =>
      simp only [stableJSON, List.cons_append, List.append_assoc, List.nil_append] at h
      obtain ⟨rfl, rfl⟩ := stableItems_inj true xs ys hv hw s t (List.cons.inj h).2
      exact ⟨rfl, rfl⟩
  | .obj xs, w, hv, hw, s, t, _, _, h => by
    have hkind := kind_eq isPrint hv hw h
    match w with
    | .obj ys =>
      simp only [stableJSON, List.cons_append, List.append_assoc, List.nil_append] at h
      obtain ⟨rfl, rfl⟩ := stableFields_inj true xs ys hv hw s t (List.cons.inj h).2
      exact ⟨rfl, rfl⟩

theorem stableItems_inj (first : Bool) : (xs ys : List Json) → ProperItems xs → ProperItems ys →
    (s t : List Char) → stableItems isPrint first xs ++ ']' :: s
      = stableItems isPrint first ys ++ ']' :: t → xs = ys ∧ s = t
  | [], [], _, _, s, t, h => ⟨rfl, (List.cons.inj h).2⟩
  | [], y :: ys, _, hys, s, t, h => by
    have hdelimited : Delimited (']' :: s) := delimited_items isPrint [] s
    rw [stableItems, List.nil_append, stableItems] at h
    cases first with
    | true =>
      rw [h, if_pos rfl, List.nil_append, List.append_assoc] at hdelimited
      exact absurd hdelimited (stableJSON_not_delimited isPrint hys.1 _)
    | false => cases h
  | x :: xs, [], hxs, _, s, t, h => by
    have hdelimited : Delimited (']' :: t) := delimited_items isPrint [] t
    rw [stableItems.eq_1 isPrint first, List.nil_append, stableItems] at h
    cases first with
    | true =>
      rw [← h, if_pos rfl, List.nil_append, List.append_assoc] at hdelimited
      exact absurd hdelimited (stableJSON_not_delimited isPrint hxs.1 _)
    | false => cases h
  | x :: xs, y :: ys, hxs, hys, s, t, h => by
    rw [stableItems, stableItems] at h
    simp only [List.append_assoc] at h
    obtain ⟨rfl, hrest⟩ := stableJSON_inj x y hxs.1 hys.1 _ _ (delimited_items isPrint xs s)
      (delimited_items isPrint ys t) (List.append_cancel_left h)
    obtain ⟨rfl, rfl⟩ := stableItems_inj false xs ys hxs.2 hys.2 s t hrest
    exact ⟨rfl, rfl⟩

theorem stableFields_inj (first : Bool) : (xs ys : List (String × Json)) → ProperFields xs →
    ProperFields ys → (s t : List Char) → stableFields isPrint first xs ++ '\x7d' :: s
      = stableFields isPrint first ys ++ '\x7d' :: t → xs = ys ∧ s = t
  | [], [], _, _, s, t, h => ⟨rfl, (List.cons.inj h).2⟩
  | [], (l, y) :: ys, _, _, s, t, h => by
    rw [stableFields, List.nil_append, stableFields] at h
    cases first with
    | true => cases h
    | false => cases h
  | (k, x) :: xs, [], _, _, s, t, h => by
    rw [stableFields.eq_1 isPrint first, List.nil_append, stableFields] at h
    cases first with
    | true => cases h
    | false => cases h
  | (k, x) :: xs, (l, y) :: ys, hxs, hys, s, t, h => by
    rw [stableFields, stableFields] at h
    simp only [List.append_assoc, List.cons_append] at h
    obtain ⟨hkey, hvalue⟩ := quoted_append_inj (unquoteChar_escapeRune isPrint)
      (List.append_cancel_left h)
    cases String.toList_injective hkey
    obtain ⟨rfl, hrest⟩ := stableJSON_inj x y hxs.1 hys.1 _ _ (delimited_fields isPrint xs s)
      (delimited_fields isPrint ys t) (List.cons.inj hvalue).2
    obtain ⟨rfl, rfl⟩ := stableFields_inj false xs ys hxs.2 hys.2 s t hrest
    exact ⟨rfl, rfl⟩

end

/-- The name and the arguments are known from the text. -/
theorem toolCallText_inj {name name' : String} {args args' : List (String × Json)}
    (hargs : ProperFields args) (hargs' : ProperFields args')
    (h : toolCallText isPrint name args = toolCallText isPrint name' args') :
    name = name' ∧ args = args' := by
  have hend : ∀ {args args' : List (String × Json)} (p : List Char),
      stableJSON isPrint (.obj args) ≠ p ++ ':' :: stableJSON isPrint (.obj args') := by
    intro args args' p
    have hbody := balanced_stableFields isPrint true args
    have hobj := balanced_stableJSON isPrint (.obj args')
    rw [stableJSON]
    exact not_balanced_end rfl rfl rfl hbody hobj (by rw [stableJSON]; exact List.cons_ne_nil _ _)
  have hnil : Delimited [] := fun c hc => nomatch hc
  have hsame : ∀ {a b : List Char},
      a ++ ':' :: stableJSON isPrint (.obj args) = b ++ ':' :: stableJSON isPrint (.obj args') →
      a = b ∧ stableJSON isPrint (.obj args) = stableJSON isPrint (.obj args') := by
    intro a b h
    rcases List.append_eq_append_iff.mp h with ⟨p, rfl, hp⟩ | ⟨p, rfl, hp⟩
    · cases p with
      | nil =>
        rw [List.append_nil]
        exact ⟨rfl, (List.cons.inj hp).2⟩
      | cons c p => exact absurd (List.cons.inj hp).2 (hend p)
    · cases p with
      | nil =>
        rw [List.append_nil]
        exact ⟨rfl, (List.cons.inj hp).2.symm⟩
      | cons c p => exact absurd (List.cons.inj hp).2 (hend p)
  obtain ⟨hname, htext⟩ := hsame h
  have hvalue := stableJSON_inj isPrint (.obj args) (.obj args') hargs hargs' [] [] hnil hnil
    (by rw [htext])
  cases hvalue.1
  exact ⟨String.toList_injective hname, rfl⟩

end

end LendingClaw.Agent
