/-
LendingClaw.Skills.Cache — the cached skills of a workspace and the five
accessors (`internal/skills/cache.go`), with the summary of the system
prompt (`internal/agent/history.go`).

The skills an agent is restricted to are in the context, by name or id.
A `nil` list there is as good as none. `Get`, `List` and `Search` look at
them, each in its own way; `Count` and `BuildSummary` do not.
-/
import LendingClaw.Skills.Search

namespace LendingClaw.Skills

/-! ## Quoting -/

/-- Lower-case hexadecimal digits. -/
def hexDigits (width n : Nat) : List Char :=
  let digits := Nat.toDigits 16 n
  List.replicate (width - digits.length) '0' ++ digits

/-- A rune as `strconv.Quote` writes it. -/
def quoteRune (isPrint : Char → Bool) (c : Char) : List Char :=
  if c = '\x22' ∨ c = '\x5c' then ['\x5c', c]
  else if isPrint c then [c]
  else
    match c.toNat with
    | 7 => "\\a".toList
    | 8 => "\\b".toList
    | 9 => "\\t".toList
    | 10 => "\\n".toList
    | 11 => "\\v".toList
    | 12 => "\\f".toList
    | 13 => "\\r".toList
    | n =>
      if n < 0x20 ∨ n = 0x7f then "\\x".toList ++ hexDigits 2 n
      else if n < 0x10000 then "\\u".toList ++ hexDigits 4 n
      else "\\U".toList ++ hexDigits 8 n

/-- `%q`. -/
def quote (isPrint : Char → Bool) (s : String) : String :=
  "\x22" ++ String.ofList (s.toList.flatMap (quoteRune isPrint)) ++ "\x22"

/-! ## The cache -/

section
variable {R : Type} [Number R] (u : Unicode)

/-- `wsEntry`: the skills and their index. -/
structure WsEntry (R : Type) where
  skills : List Skill
  index : Index R

/-- `Cache.load`, for the skills the store lists. -/
def WsEntry.load (skills : List Skill) : WsEntry R :=
  { skills := skills, index := Index.build u skills }

/-- The restriction in the context: what `WithAllowedSkills` was given,
none for `nil`. -/
abbrev AllowedSkills := Option (List String)

/-- `Cache.Search`. -/
def WsEntry.search (e : WsEntry R) (ctx : AllowedSkills) (query : String) (maxResults : Int) :
    List (SearchResult R) :=
  let results := e.index.search u query maxResults
  match ctx with
  | some allowed => results.filter fun r => r.name ∈ allowed
  | none => results

/-- `Cache.Get`. -/
def WsEntry.get (e : WsEntry R) (ctx : AllowedSkills) (name : String) : Option Skill :=
  match ctx with
  | some allowed =>
    match e.skills.find? (fun s => s.name == name) with
    | some found => if found.name ∈ allowed ∨ found.id ∈ allowed then some found else none
    | none => none
  | none => e.skills.find? (fun s => s.name == name)

/-- `Cache.List`. -/
def WsEntry.list (e : WsEntry R) (ctx : AllowedSkills) : List Skill :=
  match ctx with
  | some allowed => e.skills.filter fun s => s.name ∈ allowed ∨ s.id ∈ allowed
  | none => e.skills

/-- `Cache.Count`. -/
def WsEntry.count (e : WsEntry R) (_ctx : AllowedSkills) : Nat := e.skills.length

/-! ## Summaries -/

/-- `buildSummaryWithSkills`. -/
def buildSummaryWithSkills (skills : List Skill) (maxInline : Int) : String :=
  if skills = [] then ""
  else
    let maxInline : Int := if maxInline ≤ 0 then 20 else maxInline
    let totalChars : Nat :=
      skills.foldl (fun n s => n + (s.name.utf8ByteSize + s.description.utf8ByteSize + 50)) 0
    let estimatedTokens := totalChars / 4
    if (skills.length : Int) > maxInline ∨ estimatedTokens > 3500 then ""
    else
      "<available_skills>\n"
        ++ String.join (skills.map fun s =>
            "  <skill name=" ++ quote u.isPrint s.name ++ ">" ++ s.description ++ "</skill>\n")
        ++ "</available_skills>"

/-- `Cache.BuildSummary`. -/
def WsEntry.buildSummary (e : WsEntry R) (_ctx : AllowedSkills) (maxInline : Int) : String :=
  buildSummaryWithSkills u e.skills maxInline

/-- `Cache.BuildSummaryFiltered`, which nothing calls. -/
def WsEntry.buildSummaryFiltered (e : WsEntry R) (maxInline : Int) (allowed : List String) : String :=
  if e.skills = [] then ""
  else
    buildSummaryWithSkills u (e.skills.filter fun s => s.name ∈ allowed ∨ s.id ∈ allowed) maxInline

/-- `Loop.resolveSkillsSummary`, for the entry of the workspace. -/
def resolveSkillsSummary (skillsCache : Option (WsEntry R)) (ctx : AllowedSkills) : String :=
  match skillsCache with
  | none => ""
  | some e => e.buildSummary u ctx 20

end

end LendingClaw.Skills
