/-
LendingClaw.Rbac.Adapter — policy persistence (`pkg/rbac/adapter.go`).

`savePolicy` writes each rule as a row of seven columns, trimmed and
padded; `loadPolicy` joins the columns that are not empty into a line of
text and hands it to casbin, which parses the line as CSV. Casbin is a
third-party package; what the adapter relies on is in `Casbin` (which
rules the in-memory model takes) and in the record reader of `Lib.Csv`,
the one casbin sets up. What the database refuses to insert is a
parameter too: the unique index over all columns, and their widths.
-/
import LendingClaw.Lib.Csv
import LendingClaw.Store.Workspace

namespace LendingClaw.Rbac

open LendingClaw.Store

/-- The rules of the two sections, in memory. -/
structure Model where
  p : List (List String)
  g : List (List String)
  deriving DecidableEq

/-- `actionAccess`. -/
def actionAccess : String := "access"

/-- The rule `CreateRole` and `UpdateRole` add for one permission. -/
def policyRule (name : String) (dom : WorkspaceID) (perm : String) : List String :=
  [name, dom.val, perm, actionAccess]

/-- The rule `AddMember` adds. -/
def groupingRule (sub role : String) (dom : WorkspaceID) : List String :=
  [sub, role, dom.val]

/-- A model the enforcer's operations can put in memory: any rules of the
two kinds, over names that are not empty. -/
structure Policy extends Model where
  p_rules : ∀ rule ∈ p, ∃ name dom perm, name ≠ "" ∧ perm ≠ "" ∧ rule = policyRule name dom perm
  g_rules : ∀ rule ∈ g, ∃ sub role dom, sub ≠ "" ∧ role ≠ "" ∧ rule = groupingRule sub role dom

/-- A row of `casbin_rules`; `values` are the columns v0 to v5. -/
structure CasbinRow where
  pType : String
  values : List String
  deriving DecidableEq

/-- `padRule`. -/
def padRule (ptype : String) (rule : List String) : CasbinRow :=
  { pType := ptype
    values := (List.range 6).map (fun i =>
      match rule[i]? with
      | some v => Lib.trimSpace v
      | none => "") }

/-- The insertions of `SavePolicy`, in one transaction: the first one
refused undoes them all. -/
def insertAll (insertable : List CasbinRow → CasbinRow → Bool) :
    List CasbinRow → List CasbinRow → Option (List CasbinRow)
  | table, [] => some table
  | table, row :: rows =>
    if insertable table row then insertAll insertable (table ++ [row]) rows else none

/-- `SavePolicy`: the table it leaves, or `none` where it fails. -/
def savePolicy (insertable : List CasbinRow → CasbinRow → Bool) (m : Model) :
    Option (List CasbinRow) :=
  insertAll insertable [] (m.p.map (padRule "p") ++ m.g.map (padRule "g"))

/-- The text line of a row. -/
def policyLine (row : CasbinRow) : String :=
  row.values.foldl (fun line v => if v ≠ "" then line ++ ", " ++ v else line) row.pType

/-- Casbin, as far as the adapter relies on it: the model takes the rules
that have one value for each token of their definition. -/
structure Casbin where
  accepts : String → List String → Bool
  accepts_p : ∀ rule, rule.length = 4 → accepts "p" rule = true
  accepts_g : ∀ rule, rule.length = 3 → accepts "g" rule = true

/-- The rules of a section after one more is loaded; a rule that is there
already is skipped. -/
def addRule (casbin : Casbin) (key : String) (policy : List (List String))
    (rule : List String) : List (List String) :=
  if casbin.accepts key rule = true ∧ rule ∉ policy then policy ++ [rule] else policy

/-- `persist.LoadPolicyArray`: the first token names the section. -/
def loadPolicyArray (casbin : Casbin) (tokens : List String) (m : Model) : Model :=
  match tokens with
  | [] => m
  | key :: rule =>
    if key = "p" then { m with p := addRule casbin key m.p rule }
    else if key = "g" then { m with g := addRule casbin key m.g rule }
    else m

/-- `persist.LoadPolicyLine`; the adapter drops its error. -/
def loadPolicyLine (casbin : Casbin) (line : String) (m : Model) : Model :=
  if line = "" ∨ Lib.hasPrefix line "#" then m
  else
    match Lib.Csv.readRecord line.toList with
    | none => m
    | some tokens => loadPolicyArray casbin (tokens.map String.ofList) m

/-- `LoadPolicy`. -/
def loadPolicy (casbin : Casbin) (table : List CasbinRow) : Model :=
  table.foldl (fun m row => loadPolicyLine casbin (policyLine row) m) { p := [], g := [] }

end LendingClaw.Rbac
