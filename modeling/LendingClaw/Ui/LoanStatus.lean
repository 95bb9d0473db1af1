/-
LendingClaw.Ui.LoanStatus — HTML answers that tell the status of a loan
(`htmlToReportSpec`, `loanStatusHtmlToReportSpec` and
`parseLoanStatusReport` of `ui/web/src/lib/html-report-spec.ts`).

An answer whose lines name a loan becomes one card, with its fields and a
timeline; any other becomes a stack of blocks.
-/
import LendingClaw.Ui.HtmlReport

namespace LendingClaw.Ui

open LendingClaw.Lib
open LendingClaw.Lib.Matcher (group scan exec)

/-! ## The status of a loan -/

/-- What the parser takes from elsewhere: `toLowerCase`, and `NFD` with the
diacritics taken away. -/
structure LabelEnv where
  toLowerCase : List Nat → List Nat
  stripDiacritics : List Nat → List Nat

structure TimelineItem where
  time : List Nat
  title : List Nat
  status : List Nat

structure LoanStatusReport where
  title : List Nat := []
  fields : List (String × List Nat) := []
  timeline : List TimelineItem := []
  summary : List Nat := []

namespace LoanStatusReport

/-- `fields[label]`. -/
def field (report : LoanStatusReport) (label : String) : Option (List Nat) := report.fields.lookup label

def setField (report : LoanStatusReport) (label : String) (value : List Nat) : LoanStatusReport :=
  { report with fields := (label, value) :: report.fields }

def push (report : LoanStatusReport) (item : TimelineItem) : LoanStatusReport :=
  { report with timeline := report.timeline ++ [item] }

end LoanStatusReport

/-- `.` of a pattern. -/
def isDotUnit (n : Nat) : Bool := !(n == 10 || n == 13 || n == 8232 || n == 8233)

/-- `\d{n}`. -/
def digits (n : Nat) : Regex Nat := .times (.cls isDigitUnit) n

/-- `dateTimePattern`. -/
def dateTimePattern : Matcher Nat Unit := do
  let _ ← group (.seq (digits 4) (.seq (exactly "-") (.seq (digits 2) (.seq (exactly "-") (digits 2)))))
  let _ ← group someSpaces
  let _ ← group (.seq (digits 2) (.seq (exactly ":") (.seq (digits 2) (.seq (exactly ":") (digits 2)))))
  let _ ← group (.opt (.seq someSpaces (exactly "UTC")))
  let _ ← group (.opt (.seq someSpaces
    (.seq (exactly "(") (.seq (.atLeast 1 (.cls fun n => !(n == 41))) (exactly ")")))))
  textEnd

def isDateTime (line : List Nat) : Bool := (dateTimePattern line).head?.isSome

/-- `/^Status\s+(\d+)\s*[-:]\s*(.+)$/i`, its groups. -/
def inlineStatusPattern : Matcher Nat (List Nat × List Nat) := do
  let _ ← group (letters "Status")
  let _ ← group someSpaces
  let code ← group (.atLeast 1 (.cls isDigitUnit))
  let _ ← group spaces
  let _ ← group (.cls fun n => n == 45 || n == 58)
  let _ ← group spaces
  let name ← group (.atLeast 1 (.cls isDotUnit))
  textEnd
  return (code, name)

/-- `/^\.{3,}$/`. -/
def dotsPattern : Matcher Nat Unit := do
  let _ ← group (.atLeast 3 (.cls (· == 46)))
  textEnd

/-- `/^([^:]{2,60}):\s*(.+)$/`, its groups. -/
def fieldLinePattern : Matcher Nat (List Nat × List Nat) := do
  let label ← group (.atLeast 2 (.cls fun n => !(n == 58)))
  if label.length > 60 then fun _ => []
  let _ ← group (exactly ":")
  let _ ← group spaces
  let value ← group (.atLeast 1 (.cls isDotUnit))
  textEnd
  return (label, value)

def parseFieldLine (line : List Nat) : Option (List Nat × List Nat) :=
  (fieldLinePattern line).head?.map fun found => (trimUnits found.1.1, trimUnits found.1.2)

def isCheckLine (line : List Nat) : Bool :=
  match trimUnits line with
  | [mark] => [0x2713, 0x2714, 0x2611, 0x2705].contains mark
  | _ => false

/-- Whether a text holds one of some literals, with the flag `i`. -/
def mentions (words : List String) (text : List Nat) : Bool :=
  (exec (group (.choice (words.map letters))) text).isSome

section
variable (env : LabelEnv)

def normalizeLabel (label : List Nat) : List Nat :=
  let label := (env.stripDiacritics label).map fun n => if n = 0x111 ∨ n = 0x110 then 100 else n
  trimUnits (someSpaces.replaceAll (units " ") (env.toLowerCase label))

/-- The name of a field, empty for a label that is none. -/
def canonicalFieldLabel (label : List Nat) : String :=
  let normalized := normalizeLabel env label
  let has (word : String) := includesUnits normalized (units word)
  if has "loan id" then "Loan ID"
  else if has "zalopay id" then "Zalopay ID"
  else if has "partner" || has "doi tac" then "Partner"
  else if normalized = units "status" then "Status"
  else if has "amount/term" then "Amount/Term"
  else if has "amount" || has "so tien" then "Amount"
  else if has "term" || has "ky han" then "Term"
  else if has "score" then "Score/ZLP Score"
  else if has "ma hop dong" || has "contract" then "Contract ID"
  else if has "ket luan" || has "huong xu ly" then "Summary"
  else ""

/-- The rules for one line, given the lines after it: what becomes of the
report, and how many of those are used up. -/
def readLine (line : List Nat) (next : List (List Nat)) (report : LoanStatusReport) :
    LoanStatusReport × Nat :=
  if report.title = [] ∧ !includesUnits line (units ":") ∧ mentions ["loan", "vay", "hồ sơ"] line then
    ({ report with title := line }, 0)
  else
    match (inlineStatusPattern line).head? with
    | some ((code, name), _) =>
      (report.setField "Status" (code ++ units " (" ++ trimUnits name ++ units ")"), 0)
    | none =>
      if isCheckLine line then
        match next with
        | [] => (report, 0)
        | stepTitle :: later =>
          match later with
          | stepTime :: _ =>
            if isCheckLine stepTime then
              (report.push { title := stepTitle, time := [], status := units "done" }, 1)
            else (report.push { title := stepTitle, time := stepTime, status := units "done" }, 2)
          | [] => (report.push { title := stepTitle, time := [], status := units "done" }, 1)
      else if (dotsPattern line).head?.isSome then (report, 0)
      else if isDateTime line then
        match next with
        | nextLine :: _ =>
          if isDateTime nextLine then (report, 0)
          else (report.push { time := line, title := nextLine, status := units "done" }, 1)
        | [] => (report, 0)
      else
        match parseFieldLine line with
        | some (label, value) =>
          let name := canonicalFieldLabel env label
          if name = "Summary" then ({ report with summary := value }, 0)
          else if name = "Status" ∧ value.length > 60 then ({ report with summary := value }, 0)
          else if name ≠ "" then (report.setField name value, 0)
          else (report, 0)
        | none =>
          if mentions ["đang chờ giải ngân", "dang cho giai ngan", "chờ giải ngân", "query_disbursement"]
              line then
            let stepTime := match next with
              | stepTime :: _ => if isCheckLine stepTime then [] else stepTime
              | [] => []
            let stepDetail := match next.drop 1 with
              | stepDetail :: _ => if (parseFieldLine stepDetail).isSome then [] else stepDetail
              | [] => []
            let time :=
              if stepDetail ≠ [] then stepDetail
              else if stepTime ≠ [] then stepTime
              else units "Hệ thống đang truy vấn trạng thái giải ngân từ partner."
            (report.push { title := units "Chờ Giải ngân", time := time, status := units "active" },
              if stepTime ≠ [] then 1 else 0)
          else (report, 0)

/-- The loop over the lines, with `skip` of them used up already. -/
def readLines : (lines : List (List Nat)) → (skip : Nat) → LoanStatusReport → LoanStatusReport
  | [], _, report => report
  | _ :: lines, skip + 1, report => readLines lines skip report
  | line :: lines, 0, report =>
    let r := readLine env line lines report
    readLines lines r.2 r.1

def isPresent (value : Option (List Nat)) : Bool := value.any fun text => text ≠ []

/-- The report that the lines of an answer make up, if any. -/
def reportOfLines (lines : List (List Nat)) : Option LoanStatusReport :=
  match lines with
  | [] => none
  | first :: _ =>
    let report := readLines env lines 0 {}
    let report := if report.title = [] then { report with title := first } else report
    let hasLoanSignals := isPresent (report.field "Loan ID") || isPresent (report.field "Zalopay ID")
      || isPresent (report.field "Amount/Term") || isPresent (report.field "Amount")
    if report.title = [] || !hasLoanSignals then none else some report

def parseLoanStatusReport (html : List Nat) : Except RangeError (Option LoanStatusReport) := do
  let lines ← htmlToTextLines html
  return reportOfLines env lines

end

/-! ## The card -/

structure LoanStep where
  title : List Nat
  detail : List Nat
  status : List Nat

structure LoanStatusCard where
  title : List Nat
  description : List Nat
  statusLabel : List Nat
  statusTone : List Nat
  partner : List Nat
  amount : List Nat
  term : List Nat
  loanId : List Nat
  zalopayId : List Nat
  contractId : List Nat
  score : List Nat
  steps : List LoanStep

/-- `a || b`. -/
def orElse (a b : List Nat) : List Nat := if a ≠ [] then a else b

def splitAmountTerm (value : Option (List Nat)) : List Nat × List Nat :=
  match value with
  | none => ([], [])
  | some value =>
    if value = [] then ([], [])
    else
      let parts := (value.splitOn 47).map trimUnits
      (parts[0]?.getD [], parts[1]?.getD [])

/-- `/\d{2}:\d{2}(?::\d{2})?\b/`. -/
def timePattern : Matcher Nat (List Nat) := do
  let time ← group (.seq (digits 2) (.seq (exactly ":") (.seq (digits 2)
    (.opt (.seq (exactly ":") (digits 2))))))
  wordEnd
  return time

/-- The first time of a text that no word character stands in front of. -/
def firstTime : (behindWord : Bool) → List Nat → Option (List Nat)
  | _, [] => none
  | behindWord, c :: s =>
    match if behindWord then none else (timePattern (c :: s)).head? with
    | some found => some found.1
    | none => firstTime (isWordUnit c) s

def timeOnly (value : List Nat) : List Nat := (firstTime false value).getD value

/-- Whether a text holds one of some literals. -/
def holdsAny (words : List String) (text : List Nat) : Bool :=
  words.any fun word => includesUnits text (units word)

section
variable (env : LabelEnv)

def normalizeTimelineItem (item : TimelineItem) (amount : List Nat) : Option LoanStep :=
  let title := normalizeLabel env item.title
  let time := timeOnly item.time
  let timed (pre post : List Nat) := if time ≠ [] then pre ++ time ++ post else item.title
  if holdsAny ["created", "pass", "kyc", "nfc", "income", "tao ho so"] title then
    some { title := units "Tạo hồ sơ & Pass Rules", detail := timed (units "Hoàn tất lúc ") []
           status := item.status }
  else if holdsAny ["submit", "partner submission", "handle submit", "gui du lieu"] title then
    some { title := units "Gửi dữ liệu qua TNEX", detail := timed (units "Submit thành công lúc ") []
           status := item.status }
  else if holdsAny ["approved", "phe duyet"] title then
    some { title := units "TNEX Phê duyệt"
           detail := timed (units "Duyệt hạn mức " ++ orElse amount (units "khoản vay") ++ units " lúc ") []
           status := item.status }
  else if holdsAny ["contract signed", "signed", "ky hop dong"] title then
    some { title := units "Ký Hợp đồng"
           detail := timed (units "Khách hàng xác nhận và ký hợp đồng thành công lúc ") []
           status := item.status }
  else if holdsAny ["cho giai ngan", "query_disbursement"] title then
    some { title := units "Chờ Giải ngân"
           detail := orElse item.time
             (units "Hệ thống đang truy vấn trạng thái giải ngân từ partner.")
           status := units "active" }
  else none

/-- The first item of every title. -/
def milestoneItems (timeline : List TimelineItem) (amount : List Nat) : List LoanStep :=
  timeline.foldl
    (fun items item =>
      match normalizeTimelineItem env item amount with
      | some normalized =>
        if items.any fun seen => seen.title = normalized.title then items else items ++ [normalized]
      | none => items)
    []

def timelineItems (timeline : List TimelineItem) (statusName summary amount : List Nat) : List LoanStep :=
  let items := milestoneItems env timeline amount
  if statusName ≠ [] ∧ ¬ items.any fun item => item.title = units "Chờ Giải ngân" then
    items ++ [{
      title := if statusName = units "QUERY_DISBURSEMENT" then units "Chờ Giải ngân" else statusName
      detail := orElse summary (units "Hệ thống đang truy vấn trạng thái giải ngân từ partner.")
      status := if mentions ["error", "failed", "rejected"] summary then units "error"
        else units "active" }]
  else items

/-- `/\(([^)]+)\)/`, what stands in the parentheses. -/
def parenthesized : Matcher Nat (List Nat) := do
  let _ ← group (exactly "(")
  let name ← group (.atLeast 1 (.cls fun n => !(n == 41)))
  let _ ← group (exactly ")")
  return name

def loanStatusCard (report : LoanStatusReport) : LoanStatusCard :=
  let status := (report.field "Status").getD []
  let statusName := ((exec parenthesized status).map fun found => found.value).getD status
  let (amount, term) := splitAmountTerm (report.field "Amount/Term")
  let finalAmount := orElse amount ((report.field "Amount").getD [])
  let finalTerm := orElse term ((report.field "Term").getD [])
  let summaryTone :=
    if mentions ["error", "failed", "rejected"] report.summary then units "error"
    else if mentions ["waiting", "query", "pending"] (report.summary ++ status) then units "warning"
    else units "success"
  { title := units "Chi tiết Hồ sơ Vay"
    description := orElse report.summary report.title
    statusLabel := if statusName ≠ [] then units "IN PROGRESS (Chờ giải ngân: " ++ statusName ++ units ")"
      else status
    statusTone := summaryTone
    partner := (report.field "Partner").getD []
    amount := finalAmount
    term := finalTerm
    loanId := (report.field "Loan ID").getD []
    zalopayId := (report.field "Zalopay ID").getD []
    contractId := (report.field "Contract ID").getD []
    score := (report.field "Score/ZLP Score").getD []
    steps := timelineItems env report.timeline statusName report.summary finalAmount }

def loanStatusHtmlToReportSpec (html : List Nat) : Except RangeError (Option LoanStatusCard) := do
  let report ← parseLoanStatusReport env html
  return report.map (loanStatusCard env)

/-- A card, or a stack of elements. -/
inductive HtmlReportSpec where
  | loan (card : LoanStatusCard)
  | stack (elements : List HtmlElement)

def htmlToReportSpec (html : List Nat) : Except RangeError HtmlReportSpec := do
  match ← loanStatusHtmlToReportSpec env html with
  | some card => return .loan card
  | none => return .stack (← genericHtmlToReportSpec html)

end

end LendingClaw.Ui
