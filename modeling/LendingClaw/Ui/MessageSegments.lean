/-
LendingClaw.Ui.MessageSegments — a message cut at its fences
(`parseReportMessageContent` and `parseHtmlMessageContent` of
`ui/web/src/lib/report-spec.ts`).

Both functions go through the matches of one pattern. The first takes a
fence as a report if it is labelled so and can be parsed, and else looks
for a label of HTML; the second knows only HTML, and shows an unfinished
fence at the end while the message is being written.
-/
import Mathlib.Data.List.Chain
import LendingClaw.Lib.Matcher
import LendingClaw.Ui.ReportSpec

namespace LendingClaw.Ui

open LendingClaw.Lib
open LendingClaw.Lib.Matcher (group exec scan)

/-! ## Fences -/

/-- Three backticks. -/
def ticks : List Char := ['\x60', '\x60', '\x60']

def ticksPattern : Regex Char := .word (ticks.map fun t c => c == t)

/-- How a fence begins: what stands behind the backticks, and the line
end after it. -/
structure OpenFence where
  rawLang : List Char
  newline : List Char

def OpenFence.text (o : OpenFence) : List Char := ticks ++ (o.rawLang ++ o.newline)

structure Fence extends OpenFence where
  rawCode : List Char

def Fence.text (f : Fence) : List Char := f.toOpenFence.text ++ (f.rawCode ++ ticks)

/-- ``([^\n`]*)\n?``. -/
def labelLine : Matcher Char OpenFence := do
  let rawLang ← group (.star true (.cls fun c => !(c == '\n' || c == '\x60')))
  let newline ← group (.opt (.cls (· == '\n')))
  return { rawLang := rawLang, newline := newline }

/-- `openFencePattern`. -/
def openFencePattern : Matcher Char OpenFence := do
  let _ ← group ticksPattern
  labelLine

def fencePattern : Matcher Char Fence := do
  let opening ← openFencePattern
  let rawCode ← group (.star false (.cls fun _ => true))
  let _ ← group ticksPattern
  return { opening with rawCode := rawCode }

theorem mem_ticksPattern {w : List Char} : w ∈ ticksPattern.language ↔ w = ticks := by
  simp [ticksPattern, ticks, Regex.mem_word, List.forall₂_cons_left_iff]

theorem reads_labelLine {s rest : List Char} {o : OpenFence} (h : (o, rest) ∈ labelLine s) :
    s = o.rawLang ++ o.newline ++ rest := by
  obtain ⟨rawLang, s₁, hlang, h⟩ := Matcher.mem_bind.mp h
  obtain ⟨newline, s₂, hline, h⟩ := Matcher.mem_bind.mp h
  obtain ⟨rfl, rfl⟩ := Matcher.mem_pure.mp h
  rw [← (Matcher.mem_group.mp hlang).2, ← (Matcher.mem_group.mp hline).2, List.append_assoc]

theorem reads_openFencePattern : openFencePattern.Reads OpenFence.text := by
  intro s o rest h
  obtain ⟨w, s₁, hticks, hline⟩ := Matcher.mem_bind.mp h
  obtain ⟨hw, rfl⟩ := Matcher.mem_group.mp hticks
  simp [mem_ticksPattern.mp hw, reads_labelLine hline, OpenFence.text]

theorem reads_fencePattern : fencePattern.Reads Fence.text := by
  intro s f rest h
  obtain ⟨o, s₁, hopen, h⟩ := Matcher.mem_bind.mp h
  obtain ⟨rawCode, s₂, hcode, h⟩ := Matcher.mem_bind.mp h
  obtain ⟨w, s₃, hticks, h⟩ := Matcher.mem_bind.mp h
  obtain ⟨rfl, rfl⟩ := Matcher.mem_pure.mp h
  obtain ⟨hw, rfl⟩ := Matcher.mem_group.mp hticks
  rw [reads_openFencePattern _ _ _ hopen, ← (Matcher.mem_group.mp hcode).2, mem_ticksPattern.mp hw,
    Fence.text, List.append_assoc, List.append_assoc]

/-! ## Labels -/

section
variable (env : ReportEnv)

def fenceLabels (rawLang : List Char) : List (List Char) :=
  ((env.toLowerCase (jsTrim rawLang)).splitOnP isJsSpace).filter fun label => label ≠ []

def isSpecFence (rawLang : List Char) : Bool :=
  let labels := fenceLabels env rawLang
  labels.contains "spec".toList || labels.contains "json-render".toList

def isHtmlFence (rawLang : List Char) : Bool :=
  let labels := fenceLabels env rawLang
  labels.contains "chat-html".toList || labels.contains "html-render".toList
    || labels.contains "render-html".toList

/-! ## Segments -/

inductive MessageSegment (σ : Type) where
  | markdown (content : List Char)
  | report (spec : σ)
  | html (content : List Char)

abbrev ReportMessageSegment := MessageSegment ReportSpec

abbrev HtmlMessageSegment := MessageSegment Empty

variable {σ : Type}

/-- `segments.push`, or more text for a markdown segment at the end. -/
def pushMarkdown (segments : List (MessageSegment σ)) (content : List Char) : List (MessageSegment σ) :=
  if content = [] then segments
  else
    match segments.getLast? with
    | some (.markdown last) => segments.dropLast ++ [.markdown (last ++ content)]
    | _ => segments ++ [.markdown content]

/-- The spec of a fence that is taken as a report. -/
def fenceReport (f : Fence) : Option ReportSpec :=
  if isSpecFence env f.rawLang then parseReportSpec env (String.ofList f.rawCode) else none

/-- One round of the loop of `parseReportMessageContent`. -/
def pushReportFence (segments : List ReportMessageSegment) (found : List Char × Fence) :
    List ReportMessageSegment :=
  let segments := pushMarkdown segments found.1
  match fenceReport env found.2 with
  | some spec => segments ++ [.report spec]
  | none =>
    if isHtmlFence env found.2.rawLang then segments ++ [.html (jsTrim found.2.rawCode)]
    else pushMarkdown segments found.2.text

def parseReportMessageContent (content : List Char) : List ReportMessageSegment :=
  let found := scan fencePattern content
  let segments := pushMarkdown (found.1.foldl (pushReportFence env) []) found.2
  if segments.length > 0 then segments else [.markdown content]

/-- One round of the loop of `parseHtmlMessageContent`. -/
def pushHtmlFence (segments : List HtmlMessageSegment) (found : List Char × Fence) :
    List HtmlMessageSegment :=
  let segments := pushMarkdown segments found.1
  if isHtmlFence env found.2.rawLang then segments ++ [.html (jsTrim found.2.rawCode)]
  else pushMarkdown segments found.2.text

def htmlFenceContentOffset (rawLang body : List Char) : Option Nat :=
  if isHtmlFence env rawLang then some 0
  else if jsTrim rawLang ≠ [] then none
  else
    match (labelLine body).head? with
    | none => none
    | some (firstLine, _) =>
      if isHtmlFence env firstLine.rawLang then
        some (firstLine.rawLang ++ firstLine.newline).length
      else none

/-- The loop over the open fences of a text that comes after `front`: what
stands before the first one of HTML, and its content. -/
def incompleteHtmlFence : (fuel : Nat) → (front content : List Char) → Option (List Char × List Char)
  | 0, _, _ => none
  | fuel + 1, front, content =>
    match exec openFencePattern content with
    | none => none
    | some found =>
      match htmlFenceContentOffset env found.value.rawLang found.rest with
      | some contentOffset => some (front ++ found.before, found.rest.drop contentOffset)
      | none => incompleteHtmlFence fuel (front ++ found.before ++ found.value.text) found.rest

/-- What has been pushed, none if nothing has. -/
def pushIncompleteHtmlFence (segments : List HtmlMessageSegment) (content : List Char) :
    Option (List HtmlMessageSegment) :=
  if content.tails.any (ticks.isPrefixOf ·) then
    match incompleteHtmlFence env (content.length + 1) [] content with
    | some (before, body) => some (pushMarkdown segments before ++ [.html (jsTrim body)])
    | none => none
  else none

def parseHtmlMessageContent (content : List Char) : List HtmlMessageSegment :=
  let found := scan fencePattern content
  let segments := found.1.foldl (pushHtmlFence env) []
  let segments :=
    match pushIncompleteHtmlFence env segments found.2 with
    | some segments => segments
    | none => pushMarkdown segments found.2
  if segments.length > 0 then segments else [.markdown content]

/-! ## The property -/

/-- The complete fences of a message. -/
def fences (content : List Char) : List Fence := (scan fencePattern content).1.map Prod.snd

/-- No backticks remain after the last complete fence. -/
def AllClosed (content : List Char) : Prop := ¬ ticks <:+: (scan fencePattern content).2

/-- What a segment makes of its slice. Reports are what `report` makes of a
fence; an unfinished fence counts only while the message is `streaming`. -/
inductive Slice (report : Fence → Option σ) (streaming : Bool) (content : List Char) :
    List Char → MessageSegment σ → Prop
  | markdown (text : List Char) : Slice report streaming content text (.markdown text)
  | report {f : Fence} {spec : σ} (hmem : f ∈ fences content) (hspec : report f = some spec) :
      Slice report streaming content f.text (.report spec)
  | html {f : Fence} (hmem : f ∈ fences content) (hhtml : isHtmlFence env f.rawLang) :
      Slice report streaming content f.text (.html (jsTrim f.rawCode))
  | unfinished {o : OpenFence} {body : List Char} {contentOffset : Nat} (hstream : streaming = true)
      (hhtml : htmlFenceContentOffset env o.rawLang body = some contentOffset) :
      Slice report streaming content (o.text ++ body) (.html (jsTrim (body.drop contentOffset)))

def MessageSegment.isMarkdown : MessageSegment σ → Bool
  | .markdown _ => true
  | _ => false

/-- No two adjacent segments are both markdown. -/
def Apart (segments : List (MessageSegment σ)) : Prop :=
  segments.IsChain fun a b => ¬ (a.isMarkdown ∧ b.isMarkdown)

/-- The segments stand for consecutive slices of the message. -/
structure Segmented (report : Fence → Option σ) (streaming : Bool) (content : List Char)
    (segments : List (MessageSegment σ)) : Prop where
  slices : ∃ slices : List (List Char), slices.flatten = content
    ∧ List.Forall₂ (Slice env report streaming content) slices segments
  apart : Apart segments

/-- The content of the HTML segments. -/
def htmlContents (segments : List (MessageSegment σ)) : List (List Char) :=
  segments.filterMap fun
    | .html content => some content
    | _ => none

/-- Both functions cut the message into slices, and find the same HTML if
every fence is closed. -/
structure MessageSegmentation (content : List Char) : Prop where
  report : Segmented env (fenceReport env) false content (parseReportMessageContent env content)
  html : Segmented env (fun _ => none) true content (parseHtmlMessageContent env content)
  agree : AllClosed content →
    htmlContents (parseReportMessageContent env content)
      = htmlContents (parseHtmlMessageContent env content)

end

/-! ## Slices -/

section
variable {env : ReportEnv} {σ : Type} {report : Fence → Option σ} {streaming : Bool}
  {content : List Char} {segments : List (MessageSegment σ)}

/-- Segments that stand for slices of what has been read, no two adjacent
ones markdown. -/
structure Cut (env : ReportEnv) (report : Fence → Option σ) (streaming : Bool)
    (content text : List Char) (segments : List (MessageSegment σ)) : Prop where
  slices : ∃ slices : List (List Char), slices.flatten = text
    ∧ List.Forall₂ (Slice env report streaming content) slices segments
  apart : Apart segments

theorem cut_nil : Cut env report streaming content [] [] where
  slices := ⟨[], rfl, .nil⟩
  apart := .nil

/-- A segment that is no markdown. -/
theorem Cut.push {text slice : List Char} {segment : MessageSegment σ}
    (h : Cut env report streaming content text segments)
    (hslice : Slice env report streaming content slice segment) (hmark : segment.isMarkdown = false) :
    Cut env report streaming content (text ++ slice) (segments ++ [segment]) where
  slices := by
    obtain ⟨slices, rfl, hslices⟩ := h.slices
    exact ⟨slices ++ [slice], by simp, List.rel_append hslices (.cons hslice .nil)⟩
  apart := by
    refine List.isChain_append.mpr ⟨h.apart, .singleton _, fun a _ b hb => ?_⟩
    obtain rfl : segment = b := by simpa using hb
    simp [hmark]

theorem Cut.pushMarkdown {text : List Char} (h : Cut env report streaming content text segments)
    (more : List Char) :
    Cut env report streaming content (text ++ more) (pushMarkdown segments more) := by
  unfold Ui.pushMarkdown
  by_cases hmore : more = []
  · rw [if_pos hmore, hmore, List.append_nil]
    exact h
  rw [if_neg hmore]
  split
  · rename_i last hlast
    obtain ⟨init, rfl⟩ := List.getLast?_eq_some_iff.mp hlast
    rw [List.dropLast_concat]
    obtain ⟨slices, rfl, hslices⟩ := h.slices
    refine ⟨?_, ?_⟩
    · have hinit := List.forall₂_take_append _ _ _ hslices
      have hdrop := List.forall₂_drop_append _ _ _ hslices
      obtain ⟨slice, rest, hslice, hrest, heq⟩ := List.forall₂_cons_right_iff.mp hdrop
      obtain rfl := List.forall₂_nil_right_iff.mp hrest
      cases hslice
      refine ⟨slices.take init.length ++ [last ++ more], ?_,
        List.rel_append hinit (.cons (.markdown _) .nil)⟩
      have hflatten := congrArg List.flatten (List.take_append_drop init.length slices)
      rw [heq] at hflatten
      rw [← hflatten]
      simp
    · obtain ⟨hinit, -, hbreak⟩ := List.isChain_append.mp h.apart
      refine List.isChain_append.mpr ⟨hinit, .singleton _, fun a ha b hb => ?_⟩
      obtain rfl : MessageSegment.markdown (last ++ more) = b := by simpa using hb
      exact hbreak a ha (.markdown last) rfl
  · rename_i hlast
    refine ⟨?_, ?_⟩
    · obtain ⟨slices, rfl, hslices⟩ := h.slices
      exact ⟨slices ++ [more], by simp, List.rel_append hslices (.cons (.markdown _) .nil)⟩
    · refine List.isChain_append.mpr ⟨h.apart, .singleton _, fun a ha b hb => ?_⟩
      intro hmark
      cases a with
      | markdown text => exact hlast text ha
      | report spec => simp [MessageSegment.isMarkdown] at hmark
      | html text => simp [MessageSegment.isMarkdown] at hmark

theorem Cut.pushFence {text : List Char} (h : Cut env report streaming content text segments)
    {f : Fence} (hmem : f ∈ fences content) (hhtml : isHtmlFence env f.rawLang) :
    Cut env report streaming content (text ++ f.text) (segments ++ [.html (jsTrim f.rawCode)]) :=
  h.push (.html hmem hhtml) rfl

/-- Rounds of a loop, if each one adds the slices of its fence. -/
theorem Cut.foldl {round : List (MessageSegment σ) → List Char × Fence → List (MessageSegment σ)}
    {found : List (List Char × Fence)} {text : List Char}
    (hround : ∀ segments text, ∀ p ∈ found, Cut env report streaming content text segments →
      Cut env report streaming content (text ++ (p.1 ++ p.2.text)) (round segments p))
    (h : Cut env report streaming content text segments) :
    Cut env report streaming content (text ++ found.flatMap fun p => p.1 ++ p.2.text)
      (found.foldl round segments) := by
  induction found generalizing text segments with
  | nil => simpa using h
  | cons p found ih =>
    obtain ⟨hhead, htail⟩ := List.forall_mem_cons.mp fun q hq segments text => hround segments text q hq
    rw [List.flatMap_cons, ← List.append_assoc, List.foldl_cons]
    exact ih (fun segments text q hq => htail q hq segments text) (hhead segments text h)

/-- Where nothing was pushed, the message is one markdown segment. -/
theorem Cut.segmented (h : Cut env report streaming content content segments) :
    Segmented env report streaming content
      (if segments.length > 0 then segments else [.markdown content]) := by
  split
  · exact ⟨h.slices, h.apart⟩
  · exact ⟨⟨[content], by simp, .cons (.markdown content) .nil⟩, .singleton _⟩

end

section
variable (env : ReportEnv) (content : List Char)

theorem mem_fences {p : List Char × Fence} (h : p ∈ (scan fencePattern content).1) :
    p.2 ∈ fences content :=
  List.mem_map_of_mem h

theorem segmented_report :
    Segmented env (fenceReport env) false content (parseReportMessageContent env content) := by
  have hloop : Cut env (fenceReport env) false content
      ([] ++ (scan fencePattern content).1.flatMap fun p => p.1 ++ p.2.text)
      ((scan fencePattern content).1.foldl (pushReportFence env) []) := by
    refine Cut.foldl (fun segments text p hp h => ?_) cut_nil
    have hfront := h.pushMarkdown p.1
    rw [← List.append_assoc]
    unfold pushReportFence
    dsimp only
    split
    · rename_i spec hspec
      exact hfront.push (.report (mem_fences content hp) hspec) rfl
    · split
      · rename_i hhtml
        exact hfront.pushFence (mem_fences content hp) hhtml
      · exact hfront.pushMarkdown p.2.text
  have hall := hloop.pushMarkdown (scan fencePattern content).2
  rw [List.nil_append, Matcher.scan_text reads_fencePattern] at hall
  exact hall.segmented

/-- The text in front of an unfinished fence of HTML, the fence, and its
content. -/
theorem incompleteHtmlFence_spec {fuel : Nat} {front text before body : List Char}
    (h : incompleteHtmlFence env fuel front text = some (before, body)) :
    ∃ (o : OpenFence) (rest : List Char) (contentOffset : Nat),
      front ++ text = before ++ (o.text ++ rest)
        ∧ htmlFenceContentOffset env o.rawLang rest = some contentOffset
        ∧ body = rest.drop contentOffset := by
  induction fuel generalizing front text with
  | zero => cases h
  | succ fuel ih =>
    unfold incompleteHtmlFence at h
    split at h
    · cases h
    · rename_i found hfound
      obtain ⟨t, rfl, ht⟩ := Matcher.exec_some hfound
      have hread := reads_openFencePattern _ _ _ (List.mem_of_head? ht)
      split at h
      · rename_i contentOffset hoffset
        obtain ⟨rfl, rfl⟩ := Prod.mk.inj (Option.some.inj h)
        exact ⟨found.value, found.rest, contentOffset, by rw [hread, List.append_assoc], hoffset, rfl⟩
      · obtain ⟨o, rest, contentOffset, htext, hspec⟩ := ih h
        refine ⟨o, rest, contentOffset, ?_, hspec⟩
        rw [← htext, hread]
        simp

theorem segmented_html :
    Segmented env (fun _ => none) true content (parseHtmlMessageContent env content) := by
  have hloop : Cut env (fun _ => none) true content
      ([] ++ (scan fencePattern content).1.flatMap fun p => p.1 ++ p.2.text)
      ((scan fencePattern content).1.foldl (pushHtmlFence env) []) := by
    refine Cut.foldl (fun segments text p hp h => ?_) cut_nil
    have hfront := h.pushMarkdown p.1
    rw [← List.append_assoc]
    unfold pushHtmlFence
    dsimp only
    split
    · rename_i hhtml
      exact hfront.pushFence (mem_fences content hp) hhtml
    · exact hfront.pushMarkdown p.2.text
  have htext := Matcher.scan_text reads_fencePattern content
  unfold parseHtmlMessageContent
  dsimp only
  split
  · rename_i segments hsegments
    unfold pushIncompleteHtmlFence at hsegments
    split at hsegments
    · split at hsegments
      · rename_i before body hbody
        obtain rfl := Option.some.inj hsegments
        obtain ⟨o, rest, contentOffset, htail, hoffset, rfl⟩ := incompleteHtmlFence_spec env hbody
        have hall := (hloop.pushMarkdown before).push (.unfinished rfl hoffset) rfl
        rw [List.nil_append] at htail
        rw [List.nil_append, List.append_assoc, ← htail, htext] at hall
        exact hall.segmented
      · cases hsegments
    · cases hsegments
  · have hall := hloop.pushMarkdown (scan fencePattern content).2
    rw [List.nil_append, htext] at hall
    exact hall.segmented

/-! ## Agreement -/

/-- The fences that are labelled as HTML. -/
def htmlFences : List Fence := (fences content).filter fun f => isHtmlFence env f.rawLang

variable {σ : Type} (segments : List (MessageSegment σ))

@[simp] theorem htmlContents_pushMarkdown (text : List Char) :
    htmlContents (pushMarkdown segments text) = htmlContents segments := by
  unfold pushMarkdown
  split
  · rfl
  · split
    · rename_i last hlast
      obtain ⟨init, rfl⟩ := List.getLast?_eq_some_iff.mp hlast
      simp [htmlContents]
    · simp [htmlContents]

@[simp] theorem htmlContents_report (spec : σ) :
    htmlContents (segments ++ [.report spec]) = htmlContents segments := by
  simp [htmlContents]

@[simp] theorem htmlContents_html (text : List Char) :
    htmlContents (segments ++ [.html text]) = htmlContents segments ++ [text] := by
  simp [htmlContents]

@[simp] theorem htmlContents_orWhole :
    htmlContents (if segments.length > 0 then segments else [.markdown content])
      = htmlContents segments := by
  cases segments <;> rfl

/-- The HTML of a loop, if each round keeps the fences that `keep` says. -/
theorem htmlContents_foldl {round : List (MessageSegment σ) → List Char × Fence → List (MessageSegment σ)}
    (keep : Fence → Bool)
    (hround : ∀ segments p, htmlContents (round segments p)
      = htmlContents segments ++ if keep p.2 then [jsTrim p.2.rawCode] else [])
    (found : List (List Char × Fence)) :
    htmlContents (found.foldl round segments)
      = htmlContents segments
        ++ ((found.map Prod.snd).filter keep).map fun f => jsTrim f.rawCode := by
  induction found generalizing segments with
  | nil => simp
  | cons p found ih =>
    rw [List.foldl_cons, ih, hround, List.map_cons]
    cases hkeep : keep p.2 <;> simp [hkeep]

/-- The HTML of the first function: fences that are not taken as reports. -/
theorem htmlContents_parseReportMessageContent :
    htmlContents (parseReportMessageContent env content)
      = ((htmlFences env content).filter fun f => (fenceReport env f).isNone).map
        fun f => jsTrim f.rawCode := by
  have hround : ∀ segments p, htmlContents (pushReportFence env segments p) = htmlContents segments
      ++ if (fenceReport env p.2).isNone && isHtmlFence env p.2.rawLang then [jsTrim p.2.rawCode] else [] := by
    intro segments p
    unfold pushReportFence
    cases fenceReport env p.2 with
    | none => cases hhtml : isHtmlFence env p.2.rawLang <;> simp
    | some spec => simp
  unfold parseReportMessageContent htmlFences
  rw [htmlContents_orWhole, htmlContents_pushMarkdown, htmlContents_foldl []
    (fun f => (fenceReport env f).isNone && isHtmlFence env f.rawLang) hround, List.filter_filter]
  rfl

/-- The HTML of the second function, without an unfinished fence. -/
theorem htmlContents_parseHtmlMessageContent (h : AllClosed content) :
    htmlContents (parseHtmlMessageContent env content)
      = (htmlFences env content).map fun f => jsTrim f.rawCode := by
  have hround : ∀ segments p, htmlContents (pushHtmlFence env segments p) = htmlContents segments
      ++ if isHtmlFence env p.2.rawLang then [jsTrim p.2.rawCode] else [] := by
    intro segments p
    unfold pushHtmlFence
    cases hhtml : isHtmlFence env p.2.rawLang <;> simp
  have hnone : ∀ segments, pushIncompleteHtmlFence env segments (scan fencePattern content).2 = none := by
    intro segments
    refine if_neg fun hany => h ?_
    obtain ⟨t, ht, hticks⟩ := List.any_eq_true.mp hany
    exact (List.isPrefixOf_iff_prefix.mp hticks).isInfix.trans ((List.mem_tails _ _).mp ht).isInfix
  unfold parseHtmlMessageContent htmlFences
  dsimp only
  rw [hnone, htmlContents_orWhole, htmlContents_pushMarkdown, htmlContents_foldl []
    (fun f => isHtmlFence env f.rawLang) hround]
  rfl

end

/-- An environment for messages in ASCII, and for one report. -/
def labelledEnv : ReportEnv where
  parse raw :=
    if raw = "\x7b\"root\":\"a\",\"elements\":\x7b\"a\":\x7b\"type\":\"Text\"\x7d\x7d\x7d" then
      some (.obj [("root", .str "a"), ("elements", .obj [("a", .obj [("type", .str "Text")])])])
    else none
  toLowerCase := List.map Char.toLower
  rewriteProps _ props := props

/-- A fence that has a label of each kind. -/
def labelledTwice : List Char :=
  "```spec chat-html\n\x7b\"root\":\"a\",\"elements\":\x7b\"a\":\x7b\"type\":\"Text\"\x7d\x7d\x7d\n```".toList

end LendingClaw.Ui
