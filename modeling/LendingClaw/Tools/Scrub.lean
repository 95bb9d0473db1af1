/-
LendingClaw.Tools.Scrub — credential scrubbing of tool output
(`internal/tools/scrub.go`).

The thirteen patterns are written with the constructors of `Lib.Regex`,
in the order of the source, and `scrubCredentials` applies one after the
other. `\s` is the five blanks of the source's regexp package, and `(?i)`
its simple case folding, which puts U+017F to `s` and U+212A to `k`.
-/
import LendingClaw.Lib.RegexReplace

namespace LendingClaw.Tools.Scrub

open Lib Lib.Regex

/-! ## Classes -/

/-- `\s`. -/
def isBlank (c : Char) : Bool :=
  c == ' ' || c == '\t' || c == '\n' || c == '\r' || c == '\x0c'

/-- `\S`. -/
def notBlank (c : Char) : Bool := !isBlank c

/-- `[a-zA-Z0-9]`. -/
def isKeyChar (c : Char) : Bool := c.isAlphanum

/-- `[a-zA-Z0-9-]`. -/
def isKeyDash (c : Char) : Bool := c.isAlphanum || c == '-'

/-- `[A-Z0-9]`. -/
def isUpperDigit (c : Char) : Bool := c.isUpper || c.isDigit

/-- `["']`. -/
def isQuote (c : Char) : Bool := c == '\x22' || c == '\x27'

/-- `[^\s"']`. -/
def isHostChar (c : Char) : Bool := notBlank c && !isQuote c

/-- `(?i)[A-Z_]`. -/
def isNameChar (c : Char) : Bool := c.isAlpha || c == '_' || c == '\u017f' || c == '\u212a'

/-- The characters of the names of environment variables. -/
def isEnvChar (c : Char) : Bool := isNameChar c || c.isDigit

/-- `[^\[\s]`. -/
def isValueChar (c : Char) : Bool := c != '[' && notBlank c

/-- `[a-fA-F0-9]`. -/
def isHex (c : Char) : Bool :=
  c.isDigit || ('a'.toNat ≤ c.toNat && c.toNat ≤ 'f'.toNat)
    || ('A'.toNat ≤ c.toNat && c.toNat ≤ 'F'.toNat)

/-- `(?i)` on the character `c` of a pattern. -/
def folds (c d : Char) : Bool :=
  d == c || d.toLower == c.toLower || (c.toLower == 's' && d == '\u017f')
    || (c.toLower == 'k' && d == '\u212a')

/-- The characters of `s`, one after the other. -/
def lit (s : String) : Regex Char := word (s.toList.map fun c => (· == c))

/-- `(?i)` on the characters of `s`. -/
def litFold (s : String) : Regex Char := word (s.toList.map folds)

/-- `\s*`. -/
def blanks : Regex Char := star true (cls isBlank)

/-! ## The patterns -/

/-- `sk-[a-zA-Z0-9]{20,}`. -/
def openAI : Regex Char := seq (lit "sk-") (atLeast 20 (cls isKeyChar))

/-- `sk-ant-[a-zA-Z0-9-]{20,}`. -/
def anthropic : Regex Char := seq (lit "sk-ant-") (atLeast 20 (cls isKeyDash))

/-- `ghp_[a-zA-Z0-9]{36}`, for each of the five prefixes. -/
def github (front : String) : Regex Char := seq (lit front) (times (cls isKeyChar) 36)

/-- `AKIA[A-Z0-9]{16}`. -/
def aws : Regex Char := seq (lit "AKIA") (times (cls isUpperDigit) 16)

/-- `api[_-]?key|token|secret|password|bearer|authorization`. -/
def keyword : Regex Char :=
  choice
    [seq (litFold "api") (seq (opt (cls fun c => c == '_' || c == '-')) (litFold "key")),
      litFold "token", litFold "secret", litFold "password", litFold "bearer",
      litFold "authorization"]

/-- `(?i)(api[_-]?key|…)\s*[:=]\s*["']?\S{8,}["']?`. -/
def keyValue : Regex Char :=
  seq keyword (seq blanks (seq (cls fun c => c == ':' || c == '=') (seq blanks
    (seq (opt (cls isQuote)) (seq (atLeast 8 (cls notBlank)) (opt (cls isQuote)))))))

/-- The schemes of the connection strings. -/
def schemes : List String := ["postgres", "postgresql", "mysql", "mongodb", "redis", "amqp"]

/-- `(?i)(postgres|postgresql|mysql|mongodb|redis|amqp)://[^\s"']+`. -/
def connection : Regex Char :=
  seq (choice (schemes.map litFold)) (seq (lit "://") (atLeast 1 (cls isHostChar)))

/-- The words of the environment-style patterns. -/
def envWords : List String := ["KEY", "SECRET", "CREDENTIAL", "PRIVATE"]

/-- `\s*=\s*[^\[\s]{8,}`. -/
def assigned : Regex Char :=
  seq blanks (seq (lit "=") (seq blanks (atLeast 8 (cls isValueChar))))

/-- `(?i)[A-Z_]*(KEY|SECRET|CREDENTIAL|PRIVATE)[A-Z_]*\s*=\s*[^\[\s]{8,}`. -/
def envVar : Regex Char :=
  seq (star true (cls isNameChar)) (seq (choice (envWords.map litFold))
    (seq (star true (cls isNameChar)) assigned))

/-- `(?i)(DSN|DATABASE_URL|REDIS_URL|MONGO_URI)\s*=\s*[^\[\s]{8,}`. -/
def dsn : Regex Char :=
  seq (choice [litFold "DSN", litFold "DATABASE_URL", litFold "REDIS_URL", litFold "MONGO_URI"])
    assigned

/-- `[a-fA-F0-9]{64,}`. -/
def longHex : Regex Char := atLeast 64 (cls isHex)

def credentialPatterns : List (Regex Char) :=
  [openAI, anthropic, github "ghp_", github "gho_", github "ghu_", github "ghs_", github "ghr_",
    aws, keyValue, connection, envVar, dsn, longHex]

def redactedPlaceholder : String := "[REDACTED]"

/-- `ScrubCredentials` on the characters of a text. -/
def scrubChars (text : List Char) : List Char :=
  credentialPatterns.foldl (fun text pat => pat.replaceAll redactedPlaceholder.toList text) text

/-- `ScrubCredentials`. -/
def scrubCredentials (text : String) : String := String.ofList (scrubChars text.toList)

/-! ## Documented credentials -/

/-- The characters `cs` spell `s`, in any letter case. -/
def Spells (s : String) (cs : List Char) : Prop :=
  List.Forall₂ (fun c d => folds c d = true) s.toList cs

instance (s : String) (cs : List Char) : Decidable (Spells s cs) :=
  inferInstanceAs (Decidable (List.Forall₂ (fun c d => folds c d = true) s.toList cs))

/-- A credential of a documented form. The quote of an assignment, if
any, stands on both sides of the value. -/
inductive Form where
  | openAI (body : List Char)
  | anthropic (body : List Char)
  | github (kind : Char) (body : List Char)
  | aws (body : List Char)
  | connection (scheme user password host : List Char)
  | assignment (name quote value : List Char)
  | parameter (key quote value : List Char)
  | bearer (bearer token : List Char)
  | authorization (token : List Char)
  | hex (digits : List Char)

/-- What stands before the secret. -/
def Form.lead : Form → List Char
  | connection scheme user _ _ => scheme ++ "://".toList ++ user ++ [':']
  | assignment name quote _ => name ++ ['='] ++ quote
  | parameter key quote _ => key ++ ['='] ++ quote
  | bearer word _ => word ++ [' ']
  | authorization _ => "Authorization: Bearer ".toList
  | _ => []

def Form.secret : Form → List Char
  | openAI body => "sk-".toList ++ body
  | anthropic body => "sk-ant-".toList ++ body
  | github kind body => ['g', 'h', kind, '_'] ++ body
  | aws body => "AKIA".toList ++ body
  | connection _ _ password _ => password
  | assignment _ _ value => value
  | parameter _ _ value => value
  | bearer _ token => token
  | authorization token => token
  | hex digits => digits

/-- What stands behind the secret. -/
def Form.trail : Form → List Char
  | connection _ _ _ host => '@' :: host
  | assignment _ quote _ => quote
  | parameter _ quote _ => quote
  | _ => []

/-- No quote, or one. -/
def Quotes (quote : List Char) : Prop := quote = [] ∨ ∃ q, isQuote q = true ∧ quote = [q]

/-- The documented forms, a secret of at least 20 characters. -/
def Form.Documented (f : Form) : Prop :=
  20 ≤ f.secret.length ∧ (∀ c ∈ f.secret, notBlank c = true) ∧
  match f with
  | openAI body => 20 ≤ body.length ∧ ∀ c ∈ body, isKeyChar c = true
  | anthropic body => 20 ≤ body.length ∧ ∀ c ∈ body, isKeyDash c = true
  | github kind body =>
    kind ∈ ['p', 'o', 'u', 's', 'r'] ∧ body.length = 36 ∧ ∀ c ∈ body, isKeyChar c = true
  | aws body => body.length = 16 ∧ ∀ c ∈ body, isUpperDigit c = true
  | connection scheme user _ host =>
    (∃ s ∈ schemes, Spells s scheme) ∧ (∀ c ∈ user, notBlank c = true)
      ∧ ∀ c ∈ host, notBlank c = true
  | assignment name quote _ =>
    (∃ a word b, name = a ++ word ++ b ∧ ∃ s ∈ envWords, Spells s word)
      ∧ (∀ c ∈ name, isEnvChar c = true) ∧ Quotes quote
  | parameter key quote _ => (∃ s ∈ ["token", "password"], Spells s key) ∧ Quotes quote
  | bearer word _ => Spells "bearer" word
  | authorization _ => True
  | hex digits => 64 ≤ digits.length ∧ ∀ c ∈ digits, isHex c = true

/-- The credential stands in the text between `front` and `back`,
delimited by blanks or the ends of the text. -/
structure Embedded (f : Form) (text front back : List Char) : Prop where
  text_eq : text = front ++ f.lead ++ f.secret ++ f.trail ++ back
  front : Delimited isBlank front
  back : ∀ c ∈ back.head?, isBlank c = true

end LendingClaw.Tools.Scrub
