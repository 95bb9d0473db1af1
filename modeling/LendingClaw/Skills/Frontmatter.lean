/-
LendingClaw.Skills.Frontmatter — the frontmatter of a SKILL.md document
(`internal/skills/frontmatter.go`).

A document is its characters. What the reader takes out of quotes may be
bytes that are no text, so a field has bytes for its value. The reader
cuts and indexes as the source does; `none` is the panic of an access out
of range.
-/
import LendingClaw.Lib.GoQuote
import LendingClaw.Lib.Texts

namespace LendingClaw.Skills

open LendingClaw.Lib

/-! ## Names and descriptions -/

def maxSkillNameLen : Nat := 64

def maxSkillDescriptionLen : Nat := 1024

/-- A lowercase letter or a digit. -/
def isNameAlnum (c : Char) : Bool := ('a' ≤ c && c ≤ 'z') || ('0' ≤ c && c ≤ '9')

/-- `skillNameRe`. -/
def skillNameRe (name : List Char) : Bool :=
  name.all (fun c => isNameAlnum c || c == '-') && name.head?.any isNameAlnum
    && name.getLast?.any isNameAlnum

/-- `ValidateMetadata`. The lowercase of a name that the expression
matches is the name. -/
def validateMetadata (name description : List Char) : Except String Unit :=
  if name = [] then .error "frontmatter: name is required"
  else if (utf8 name).length > maxSkillNameLen then
    .error ("frontmatter: name must be at most " ++ toString maxSkillNameLen ++ " characters")
  else if ¬ skillNameRe name then
    .error ("frontmatter: name must contain only lowercase letters, digits and hyphens "
      ++ "(no leading/trailing hyphen)")
  else if containsSub (String.ofList name) "anthropic"
      ∨ containsSub (String.ofList name) "claude" then
    .error "frontmatter: name must not contain reserved words 'anthropic' or 'claude'"
  else if trimChars description = [] then .error "frontmatter: description is required"
  else if (utf8 description).length > maxSkillDescriptionLen then
    .error ("frontmatter: description must be at most " ++ toString maxSkillDescriptionLen
      ++ " characters")
  else if description.any (fun c => c == '<' || c == '>') then
    .error "frontmatter: description must not contain XML tags"
  else .ok ()

/-! ## Writing -/

def oneLine (s : List Char) : List Char :=
  trimChars (replaceAll (replaceAll s ['\r', '\n'] [' ']) ['\n'] [' '])

/-- The characters that a plain scalar does not start with. -/
def yamlIndicators : List Char :=
  ['-', '?', ':', '&', '*', '!', '|', '>', '%', '@', '\x60', '[', ']', '\x7b', '\x7d', ',', '\x22',
    '\x27']

def needsYAMLQuote (s : List Char) : Bool :=
  if s = [] ∨ s ≠ trimChars s then true
  else if s.any fun c => ['\n', '\x22', '\x27', '#'].contains c then true
  else if containsSub (String.ofList s) ": " ∨ [':'].isSuffixOf s then true
  else s.head?.any yamlIndicators.contains

/-- The description as `BuildFrontmatter` writes it. -/
def yamlScalar (isPrint : Char → Bool) (desc : List Char) : List Char :=
  if needsYAMLQuote desc then quote isPrint desc else desc

def trimNewlines (body : List Char) : List Char := body.dropWhile (· = '\n')

/-- `BuildFrontmatter`. -/
def buildFrontmatter (isPrint : Char → Bool) (name description body : List Char) : List Char :=
  "---\nname: ".toList ++ name ++ "\ndescription: ".toList
    ++ yamlScalar isPrint (oneLine description) ++ "\n---\n\n".toList ++ trimNewlines body

/-! ## Reading -/

/-- `strings.TrimRight(s, "\r")`. -/
def trimCR (s : List Char) : List Char := s.rdropWhile (· = '\r')

/-- The loop of `indexClosingFence`, from a line that starts at `offset`:
where the fence is, or none for -1. -/
def closingFenceFrom (s : List Char) (offset : Nat) : Option (Option Nat) :=
  match slice s offset s.length with
  | none => none
  | some line =>
    match line.idxOf? '\n' with
    | none => if "---".toList.isPrefixOf (trimCR line) then some (some offset) else some none
    | some nl =>
      match slice line 0 nl with
      | none => none
      | some cur =>
        if "---".toList.isPrefixOf (trimCR cur) then some (some offset)
        else if offset + nl + 1 ≥ s.length then some none
        else closingFenceFrom s (offset + nl + 1)
termination_by s.length - offset

def indexClosingFence (s : List Char) : Option (Option Nat) := closingFenceFrom s 0

/-- `strings.Trim(v, "c")`. -/
def trimOf (c : Char) (v : List Char) : List Char := (v.dropWhile (· = c)).rdropWhile (· = c)

def unquoteYAML (v : List Char) : Option Bytes :=
  if v.length < 2 then some (utf8 v)
  else
    match v[0]?, v[v.length - 1]? with
    | some first, some last =>
      if first = '\x22' ∧ last = '\x22' then
        match unquote v with
        | some uq => some uq
        | none => some (utf8 (trimOf '\x22' v))
      else if first = '\x27' ∧ last = '\x27' then
        some (utf8 (replaceAll (trimOf '\x27' v) ['\x27', '\x27'] ['\x27']))
      else some (utf8 v)
    | _, _ => none

/-- The fields read so far, the last one first. -/
abbrev Fields := List (List Char × Bytes)

/-- `fields[key]`. -/
def Fields.get (fields : Fields) (key : List Char) : Bytes := (fields.lookup key).getD []

/-- What a line adds. -/
def parseLine (raw : List Char) (out : Fields) : Option Fields :=
  let line := trimCR raw
  let trimmed := trimChars line
  if trimmed = [] ∨ ['#'].isPrefixOf trimmed then some out
  else if line ≠ trimmed then some out
  else
    match trimmed.idxOf? ':' with
    | none => some out
    | some colon =>
      match slice trimmed 0 colon, slice trimmed (colon + 1) trimmed.length with
      | some key, some val =>
        match unquoteYAML (trimChars val) with
        | some value => some ((trimChars key, value) :: out)
        | none => none
      | _, _ => none

/-- The loop of `parseSimpleYAML`. -/
def parseLines : List (List Char) → Fields → Option Fields
  | [], out => some out
  | raw :: lines, out =>
    match parseLine raw out with
    | some out => parseLines lines out
    | none => none

def parseSimpleYAML (fm : List Char) : Option Fields := parseLines (fm.splitOn '\n') []

/-- The results of `FrontmatterFields`: no fields where `ok` is false. -/
structure Frontmatter where
  fields : Option Fields
  body : List Char

/-- `FrontmatterFields`. -/
def frontmatterFields (content : List Char) : Option Frontmatter :=
  let plain : Frontmatter := { fields := none, body := content }
  if ¬ "---".toList.isPrefixOf content then some plain
  else
    match slice content 3 content.length with
    | none => none
    | some rest =>
      let rest := rest.dropWhile (· = '\r')
      if ¬ ['\n'].isPrefixOf rest then some plain
      else
        match slice rest 1 rest.length with
        | none => none
        | some rest =>
          match indexClosingFence rest with
          | none => none
          | some none => some plain
          | some (some end') =>
            match slice rest 0 end', slice rest end' rest.length with
            | some fm, some closing =>
              let body := if "---".toList.isPrefixOf closing then closing.drop 3 else closing
              let body := body.dropWhile (· = '\r')
              let body := if ['\n'].isPrefixOf body then body.drop 1 else body
              match parseSimpleYAML fm with
              | some fields => some { fields := some fields, body := body }
              | none => none
            | _, _ => none

/-- The results of `ParseFrontmatter`. -/
structure Parsed where
  name : Bytes
  description : Bytes
  body : List Char
  ok : Bool
  deriving DecidableEq

/-- `ParseFrontmatter`. -/
def parseFrontmatter (content : List Char) : Option Parsed :=
  match frontmatterFields content with
  | none => none
  | some { fields := none, body } => some { name := [], description := [], body := body, ok := false }
  | some { fields := some fields, body } =>
    some
      { name := fields.get "name".toList
        description := fields.get "description".toList
        body := body
        ok := true }

end LendingClaw.Skills
