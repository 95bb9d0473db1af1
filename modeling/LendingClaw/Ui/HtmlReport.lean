/-
LendingClaw.Ui.HtmlReport — the blocks of an HTML answer
(`genericHtmlToReportSpec` of `ui/web/src/lib/html-report-spec.ts`).

The answer becomes a stack of the blocks that are found in it, or of its
lines if no block has any text.
-/
import LendingClaw.Ui.HtmlText

namespace LendingClaw.Ui

open LendingClaw.Lib
open LendingClaw.Lib.Matcher (group scan exec)

/-! ## Blocks -/

inductive HtmlElement where
  | heading (level text : List Nat)
  | codeBlock (code : List Nat)
  | table (table : HtmlTable)
  | callout (content : List Nat)
  | text (content : List Nat)

/-- `/<(h[1-6]|p|li|blockquote|pre|table)\b[^>]*>([\s\S]*?)<\/\1>/i`. -/
def blockPattern : Matcher Nat (List Nat × List Nat) :=
  element (.choice [headingName, letters "p", letters "li", letters "blockquote", letters "pre",
    letters "table"])

/-- The element of a block, none for an empty one. -/
def blockElement (block : List Nat × List Nat) : Except RangeError (Option HtmlElement) := do
  let tag := block.1.map lowerUnit
  let body := block.2
  if (units "h").isPrefixOf tag then
    let text ← cleanInlineHtml body
    return if text ≠ [] then some (.heading (tag.drop 1) text) else none
  else if tag = units "pre" then
    let code ← cleanCodeHtml body
    return if code ≠ [] then some (.codeBlock code) else none
  else if tag = units "table" then
    let table ← parseHtmlTable body
    return if table.rows.length > 0 then some (.table table) else none
  else if tag = units "blockquote" then
    let content ← cleanInlineHtml body
    return if content ≠ [] then some (.callout content) else none
  else
    let text ← cleanInlineHtml body
    return if text ≠ [] then some (.text (if tag = units "li" then units "• " ++ text else text)) else none

/-- The elements of `genericHtmlToReportSpec`, in the order of their ids
`node_1`, `node_2` and so on, under a stack. -/
def genericHtmlToReportSpec (html : List Nat) : Except RangeError (List HtmlElement) := do
  let source := stripUnsafeBlocks html
  let blocks ← (scan blockPattern source).1.mapM fun found => blockElement found.2
  let elements := blocks.filterMap id
  if elements.length = 0 then
    let lines ← htmlToTextLines source
    return if lines.length = 0 then [.text (units "No content")] else lines.map .text
  else return elements

end LendingClaw.Ui
