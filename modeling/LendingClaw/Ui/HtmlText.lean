/-
LendingClaw.Ui.HtmlText — the text of an HTML answer (`htmlToTextLines`,
`cleanInlineHtml`, `cleanCodeHtml`, `parseHtmlTable` and
`decodeHtmlEntities` of `ui/web/src/lib/html-report-spec.ts`).

HTML is not parsed: blocks and tags are taken out with regular
expressions, and character references are replaced by one expression
after the other. A number that is no code point makes the decoding throw.
-/
import LendingClaw.Lib.CodeUnits
import LendingClaw.Lib.RegexReplace

namespace LendingClaw.Ui

open LendingClaw.Lib
open LendingClaw.Lib.Matcher (group scan exec)

/-! ## Entities -/

/-- A numeric reference: all of it, and its digits. -/
def numberReference (start : Regex Nat) (isDigit : Nat → Bool) : Matcher Nat (List Nat × List Nat) := do
  let start ← group start
  let code ← group (.atLeast 1 (.cls isDigit))
  let semicolon ← group (exactly ";")
  return (start ++ code ++ semicolon, code)

/-- `/&#(\d+);/`. -/
def decimalReference : Matcher Nat (List Nat × List Nat) := numberReference (exactly "&#") isDigitUnit

def isHexUnit (n : Nat) : Bool := isDigitUnit n || (97 ≤ lowerUnit n && lowerUnit n ≤ 102)

/-- `/&#x([a-f0-9]+);/i`. -/
def hexReference : Matcher Nat (List Nat × List Nat) := numberReference (letters "&#x") isHexUnit

/-- The replacements of references by name, and of `&#39;`. -/
def replaceNamed (value : List Nat) : List Nat :=
  let value := (letters "&nbsp;").replaceAll (units " ") value
  let value := (letters "&amp;").replaceAll (units "&") value
  let value := (letters "&lt;").replaceAll (units "<") value
  let value := (letters "&gt;").replaceAll (units ">") value
  let value := (letters "&quot;").replaceAll (units "\"") value
  (letters "&#39;").replaceAll (units "'") value

def decodeHtmlEntities (value : List Nat) : Except RangeError (List Nat) := do
  let value ← decimalReference.replaceWith (fun (_, code) => fromCodePoint (numberOf 10 code))
    (replaceNamed value)
  hexReference.replaceWith (fun (_, code) => fromCodePoint (numberOf 16 code)) value

/-! ## Tags -/

/-- `/<style[\s\S]*?<\/style>/i`. -/
def styleBlock : Regex Nat := .seq (letters "<style") (.seq lazyAny (letters "</style>"))

/-- `/<script[\s\S]*?<\/script>/i`. -/
def scriptBlock : Regex Nat := .seq (letters "<script") (.seq lazyAny (letters "</script>"))

def stripUnsafeBlocks (html : List Nat) : List Nat :=
  scriptBlock.replaceAll [] (styleBlock.replaceAll [] html)

/-- `/<br\s*\/?>/i`. -/
def lineBreak : Regex Nat :=
  .seq (letters "<br") (.seq spaces (.seq (.opt (exactly "/")) (exactly ">")))

/-- `h[1-6]`. -/
def headingName : Regex Nat := .seq (letters "h") (.cls fun n => 49 ≤ n && n ≤ 54)

/-- The end of a block. -/
def blockEnd : Regex Nat :=
  .seq (exactly "</")
    (.seq (.choice [letters "p", letters "div", letters "section", letters "article", letters "header",
        letters "footer", headingName, letters "li", letters "tr", letters "table", letters "dl",
        letters "dt", letters "dd"])
      (exactly ">"))

/-- `/<[^>]+>/`. -/
def tagPattern : Regex Nat :=
  .seq (exactly "<") (.seq (.atLeast 1 (.cls fun n => !(n == 62))) (exactly ">"))

/-- Line breaks and ends of blocks become line ends, other tags nothing. -/
def stripTags (html : List Nat) : List Nat :=
  tagPattern.replaceAll [] (blockEnd.replaceAll (units "\n") (lineBreak.replaceAll (units "\n") html))

/-! ## Text -/

/-- `line.replace(/\s+/g, " ").trim()`. -/
def squeezeLine (line : List Nat) : List Nat := trimUnits (someSpaces.replaceAll (units " ") line)

/-- The lines of a text that are not blank. -/
def textLines (text : List Nat) : List (List Nat) :=
  ((text.splitOn 10).map squeezeLine).filter fun line => line ≠ []

def htmlToTextLines (html : List Nat) : Except RangeError (List (List Nat)) := do
  let text ← decodeHtmlEntities (stripTags (stripUnsafeBlocks html))
  return textLines text

def cleanInlineHtml (html : List Nat) : Except RangeError (List Nat) := do
  let text ← decodeHtmlEntities (stripTags html)
  return (units " ").intercalate (textLines text)

def cleanCodeHtml (html : List Nat) : Except RangeError (List Nat) := do
  let text ← decodeHtmlEntities (tagPattern.replaceAll [] html)
  return trimUnits text

/-! ## Tables -/

/-- The attributes of a tag and its end. -/
def attributes : Matcher Nat Unit := do
  let _ ← group (.star true (.cls fun n => !(n == 62)))
  let _ ← group (exactly ">")
  return ()

/-- `/<tr\b[^>]*>([\s\S]*?)<\/tr>/i`, the row. -/
def rowPattern : Matcher Nat (List Nat) := do
  let _ ← group (letters "<tr")
  wordEnd
  attributes
  let row ← group lazyAny
  let _ ← group (letters "</tr>")
  return row

/-- A tag that its name closes: the name and what stands between. -/
def element (name : Regex Nat) : Matcher Nat (List Nat × List Nat) := do
  let _ ← group (exactly "<")
  let name ← group name
  wordEnd
  attributes
  let body ← group lazyAny
  let _ ← group (exactly "</")
  let _ ← group (.word (name.map sameLetter))
  let _ ← group (exactly ">")
  return (name, body)

/-- `/<(th|td)\b[^>]*>([\s\S]*?)<\/\1>/i`. -/
def cellPattern : Matcher Nat (List Nat × List Nat) := element (.alt (letters "th") (letters "td"))

/-- `/<th\b/i`. -/
def headerCell : Matcher Nat Unit := do
  let _ ← group (letters "<th")
  wordEnd

structure HtmlTable where
  columns : List (List Nat)
  rows : List (List (List Nat))

def decimalUnits (n : Nat) : List Nat := units (toString n)

def parseHtmlTable (html : List Nat) : Except RangeError HtmlTable := do
  let rawRows := (scan rowPattern html).1.map Prod.snd
  let rows ← rawRows.mapM fun row => (scan cellPattern row).1.mapM fun cell => cleanInlineHtml cell.2.2
  let rows := rows.filter fun row => row.any fun cell => cell ≠ []
  if rows.length = 0 then return { columns := [], rows := [] }
  let firstRowHasHeaders := (exec headerCell (rawRows.head?.getD [])).isSome
  let maxColumns := (rows.map List.length).foldl max 0
  if firstRowHasHeaders then return { columns := rows.head?.getD [], rows := rows.drop 1 }
  else
    return { columns := (List.range maxColumns).map fun index => units "Column " ++ decimalUnits (index + 1)
             rows := rows }

end LendingClaw.Ui
