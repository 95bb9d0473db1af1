/-
LendingClaw.Agent.SummarizeTheorems — what background summarization
loses.

`TruncateHistory` keeps a number of messages that was computed from the
history as it was read, and is applied to the history as it has become.
Every message appended in between pushes one of the messages to keep out
of the history, and no prompt has seen that one. `summarize_keeps_iff`
says that this is the only way to lose a message, in every interleaving
of one summarizer with any number of appends.
-/
import LendingClaw.Agent.Summarize
import LendingClaw.Store.SessionsTheorems

namespace LendingClaw.Agent

open LendingClaw.Providers LendingClaw.Store

/-! ## Truncation -/

/-- Over the history it was computed from, the count drops exactly the
messages before the split. -/
theorem keepLastMessages_drop (msgs : List Message) (k : Nat) (hk : k ≤ msgs.length) :
    keepLastMessages ((msgs.length : Int) - k) msgs = msgs.drop k := by
  unfold keepLastMessages
  split
  · have hlen : k = msgs.length := by omega
    simp [hlen]
  · split
    · congr 1
      omega
    · have hzero : k = 0 := by omega
      simp [hzero]

/-- Over any longer history it leaves just as many messages. -/
theorem keepLastMessages_length (msgs : List Message) (n k : Nat) (hk : k ≤ n)
    (hn : n ≤ msgs.length) :
    (keepLastMessages ((n : Int) - k) msgs).length = n - k := by
  unfold keepLastMessages
  split
  · simp only [List.length_nil]
    omega
  · split
    · simp only [List.length_drop]
      omega
    · omega

/-! ## The trace -/

/-- The system, and what is known of it from outside: all messages the
session ever had, those handed to the prompt, and those appended since
the goroutine read the history. -/
structure Traced where
  sys : System
  all : List Message
  given : List Message
  sinceRead : List Message

/-- A session in the cache, with the goroutine about to start. -/
def started (s : MySQLSessionStore) (w : WorkspaceID) (key : String) (data : SessionData) :
    Traced :=
  { sys := { store := s.put w key data, pc := .getHistory }
    all := data.messages
    given := []
    sinceRead := [] }

def track (sanitize : String → String) (w : WorkspaceID) (key : String) (t : Traced)
    (act : Act) : Traced :=
  let sys := step sanitize w key t.sys act
  match act with
  | .append msg _ _ =>
    { sys := sys
      all := t.all ++ [msg]
      given := t.given
      sinceRead := t.sinceRead ++ [msg] }
  | .summarizer _ =>
    { sys := sys
      all := t.all
      given :=
        match t.sys.pc with
        | .getSummary history splitIdx => history.take splitIdx
        | _ => t.given
      sinceRead :=
        match t.sys.pc with
        | .getHistory => []
        | _ => t.sinceRead }

/-- No message is lost: those that were not given to the prompt are in
the history, in order. -/
def NothingLost (w : WorkspaceID) (key : String) (t : Traced) : Prop :=
  ∃ rest, t.all = t.given ++ rest ∧ rest.Sublist (t.sys.store.history w key)

/-- The goroutine does not truncate a history that was appended to since
it was read. -/
def Undisturbed (t : Traced) : Act → Prop
  | .append .. => True
  | .summarizer _ =>
    match t.sys.pc with
    | .truncateHistory _ => t.sinceRead = []
    | _ => True

/-- The goroutine has no truncation before it any more. -/
def Pc.past : Pc → Prop
  | .incrementCompaction | .setCompactedAt | .save | .done => True
  | _ => False

/-! ## The invariant -/

section
variable (w : WorkspaceID) (key : String) (t : Traced)

/-- The split of the history as it was read; nothing is truncated yet. -/
structure Split (history : List Message) (splitIdx : Nat) : Prop where
  holds : t.sys.store.Holds w key t.all
  all : t.all = history ++ t.sinceRead
  le : splitIdx ≤ history.length

/-- Where the messages are, step by step. -/
def Inv : Prop :=
  match t.sys.pc with
  | .getHistory => t.sys.store.Holds w key t.all ∧ t.given = []
  | .getSummary history splitIdx => Split w key t history splitIdx ∧ t.given = []
  | .chat history splitIdx _ => Split w key t history splitIdx ∧ t.given = history.take splitIdx
  | .setSummary keepLast _ | .truncateHistory keepLast =>
    ∃ history splitIdx, Split w key t history splitIdx ∧ t.given = history.take splitIdx
      ∧ keepLast = (history.length : Int) - splitIdx
  | .incrementCompaction | .setCompactedAt | .save | .done =>
    ∃ kept, t.sys.store.Holds w key kept
      ∧ ∃ rest, t.all = t.given ++ rest ∧ rest.Sublist kept

/-- A message is gone, and the goroutine is past its truncation. -/
def Lost : Prop :=
  t.sys.pc.past ∧ ∃ kept, t.sys.store.Holds w key kept
    ∧ kept.length + t.given.length < t.all.length

end

section
variable {sanitize : String → String} {w : WorkspaceID} {key : String} {t : Traced}

theorem inv_started (s : MySQLSessionStore) (data : SessionData) :
    Inv w key (started s w key data) :=
  ⟨MySQLSessionStore.holds_put s w key data, rfl⟩

/-- A split of all messages, before and after the truncation. -/
theorem nothingLost_of_prefix (h : t.sys.store.Holds w key t.all) (hg : t.given <+: t.all) :
    NothingLost w key t := by
  obtain ⟨rest, hrest⟩ := hg
  refine ⟨rest, hrest.symm, ?_⟩
  rw [h.history, ← hrest]
  exact List.sublist_append_right _ _

theorem Split.given_initial {history : List Message} {splitIdx : Nat}
    (h : Split w key t history splitIdx) : history.take splitIdx <+: t.all := by
  rw [h.all]
  exact (List.take_prefix _ _).trans (List.prefix_append _ _)

theorem Inv.nothingLost (h : Inv w key t) : NothingLost w key t := by
  unfold Inv at h
  cases hpc : t.sys.pc with
  | getHistory =>
    simp only [hpc] at h
    exact nothingLost_of_prefix h.1 (by simp [h.2])
  | getSummary history splitIdx =>
    simp only [hpc] at h
    exact nothingLost_of_prefix h.1.holds (by simp [h.2])
  | chat history splitIdx request =>
    simp only [hpc] at h
    exact nothingLost_of_prefix h.1.holds (h.2 ▸ h.1.given_initial)
  | setSummary keepLast cleaned =>
    simp only [hpc] at h
    obtain ⟨history, splitIdx, hs, hg, -⟩ := h
    exact nothingLost_of_prefix hs.holds (hg ▸ hs.given_initial)
  | truncateHistory keepLast =>
    simp only [hpc] at h
    obtain ⟨history, splitIdx, hs, hg, -⟩ := h
    exact nothingLost_of_prefix hs.holds (hg ▸ hs.given_initial)
  | _ =>
    simp only [hpc] at h
    obtain ⟨kept, hk, rest, hall, hsub⟩ := h
    refine ⟨rest, hall, ?_⟩
    rw [hk.history]
    exact hsub

/-! ## Appends -/

theorem Split.append {history : List Message} {splitIdx : Nat}
    (h : Split w key t history splitIdx) (msg : Message) (query exec : Fault) :
    Split w key (track sanitize w key t (.append msg query exec)) history splitIdx :=
  { holds := h.holds.addMessage msg query exec
    all := by simp [track, h.all]
    le := h.le }

theorem Inv.append (h : Inv w key t) (msg : Message) (query exec : Fault) :
    Inv w key (track sanitize w key t (.append msg query exec)) := by
  unfold Inv at h ⊢
  have hpc : (track sanitize w key t (.append msg query exec)).sys.pc = t.sys.pc := rfl
  rw [hpc]
  cases hcase : t.sys.pc with
  | getHistory =>
    simp only [hcase] at h
    exact ⟨h.1.addMessage msg query exec, h.2⟩
  | getSummary history splitIdx =>
    simp only [hcase] at h
    exact ⟨h.1.append msg query exec, h.2⟩
  | chat history splitIdx request =>
    simp only [hcase] at h
    exact ⟨h.1.append msg query exec, h.2⟩
  | setSummary keepLast cleaned =>
    simp only [hcase] at h
    obtain ⟨history, splitIdx, hs, hrest⟩ := h
    exact ⟨history, splitIdx, hs.append msg query exec, hrest⟩
  | truncateHistory keepLast =>
    simp only [hcase] at h
    obtain ⟨history, splitIdx, hs, hrest⟩ := h
    exact ⟨history, splitIdx, hs.append msg query exec, hrest⟩
  | _ =>
    simp only [hcase] at h
    obtain ⟨kept, hk, rest, hall, hsub⟩ := h
    refine ⟨kept ++ [msg], hk.addMessage msg query exec, rest ++ [msg], ?_, ?_⟩
    · simp [track, hall]
    · exact hsub.append (List.Sublist.refl _)

theorem Lost.append (h : Lost w key t) (msg : Message) (query exec : Fault) :
    Lost w key (track sanitize w key t (.append msg query exec)) := by
  obtain ⟨hpc, kept, hk, hlen⟩ := h
  refine ⟨hpc, kept ++ [msg], hk.addMessage msg query exec, ?_⟩
  simp only [track, List.length_append, List.length_singleton]
  omega

/-! ## The goroutine -/

/-- The messages are kept by a change to another field. -/
theorem holds_ifCached_same {s : MySQLSessionStore} {msgs : List Message}
    (h : s.Holds w key msgs) {f : SessionData → SessionData}
    (hf : ∀ data, (f data).messages = data.messages) :
    (s.ifCached w key f).Holds w key msgs :=
  h.ifCached (g := id) hf

variable (sanitize w key) in
/-- The steps after the truncation keep the messages and go on to one
another. -/
theorem advance_past {s : MySQLSessionStore} {kept : List Message} {pc : Pc} (hpc : pc.past)
    (h : s.Holds w key kept) (env : Answers) :
    (advance sanitize w key env s pc).1.Holds w key kept
      ∧ (advance sanitize w key env s pc).2.past := by
  cases pc with
  | incrementCompaction => exact ⟨holds_ifCached_same h fun _ => rfl, trivial⟩
  | setCompactedAt =>
    refine ⟨holds_ifCached_same h fun data => ?_, trivial⟩
    split <;> rfl
  | save => exact ⟨h.save env.exec, trivial⟩
  | done => exact ⟨h, trivial⟩
  | _ => exact absurd hpc id

theorem inv_past (hpc : t.sys.pc.past) :
    Inv w key t ↔ ∃ kept, t.sys.store.Holds w key kept
      ∧ ∃ rest, t.all = t.given ++ rest ∧ rest.Sublist kept := by
  unfold Inv
  cases hcase : t.sys.pc with
  | incrementCompaction => exact Iff.rfl
  | setCompactedAt => exact Iff.rfl
  | save => exact Iff.rfl
  | done => exact Iff.rfl
  | _ =>
    rw [hcase] at hpc
    exact absurd hpc id

variable (sanitize w key) in
theorem track_past (hpc : t.sys.pc.past) (env : Answers) :
    (track sanitize w key t (.summarizer env)).all = t.all
      ∧ (track sanitize w key t (.summarizer env)).given = t.given := by
  unfold track
  cases hcase : t.sys.pc with
  | getSummary history splitIdx =>
    rw [hcase] at hpc
    exact absurd hpc id
  | _ => exact ⟨rfl, rfl⟩

theorem Lost.summarizer (h : Lost w key t) (env : Answers) :
    Lost w key (track sanitize w key t (.summarizer env)) := by
  obtain ⟨hpc, kept, hk, hlen⟩ := h
  obtain ⟨hk', hpc'⟩ := advance_past sanitize w key hpc hk env
  obtain ⟨hall, hgiven⟩ := track_past sanitize w key hpc env
  exact ⟨hpc', kept, hk', by rw [hall, hgiven]; exact hlen⟩

theorem Inv.summarizer (h : Inv w key t) (env : Answers)
    (hok : Undisturbed t (.summarizer env)) :
    Inv w key (track sanitize w key t (.summarizer env)) := by
  by_cases hpast : t.sys.pc.past
  · obtain ⟨kept, hk, hrest⟩ := (inv_past hpast).mp h
    obtain ⟨hk', hpc'⟩ := advance_past sanitize w key hpast hk env
    obtain ⟨hall, hgiven⟩ := track_past sanitize w key hpast env
    exact (inv_past hpc').mpr ⟨kept, hk', by rw [hall, hgiven]; exact hrest⟩
  obtain ⟨⟨s, pc⟩, all, given, sinceRead⟩ := t
  cases pc with
  | getHistory =>
    obtain ⟨hh, hg⟩ := h
    have hread := hh.getHistory env.query
    simp only at hh hg hread
    by_cases hzero : historyTurnStartIndex all postRunKeepTurns ≤ 0
    · -- too few turns: the goroutine gives up
      simp only [Inv, track, step, advance, hread, hzero, if_true]
      exact ⟨all, hh, all, by simp [hg], List.Sublist.refl _⟩
    · simp only [Inv, track, step, advance, hread, hzero, if_false]
      exact ⟨⟨hh, by simp, historyTurnStartIndex_le _ _⟩, hg⟩
  | getSummary history splitIdx =>
    obtain ⟨hs, -⟩ := h
    exact ⟨⟨hs.holds, hs.all, hs.le⟩, rfl⟩
  | chat history splitIdx request =>
    obtain ⟨hs, hg⟩ := h
    have hgone : ∃ kept, s.Holds w key kept ∧ ∃ rest, all = given ++ rest ∧ rest.Sublist kept := by
      obtain ⟨rest, hrest⟩ := hs.given_initial
      have hall : given ++ rest = all := by
        rw [show given = history.take splitIdx from hg]
        exact hrest
      exact ⟨all, hs.holds, rest, hall.symm, hall ▸ List.sublist_append_right _ _⟩
    simp only [Inv, track, step, advance]
    cases env.reply with
    | error err => exact hgone
    | ok content =>
      by_cases hc : sanitize content = ""
      · simp only [hc, if_true]
        exact hgone
      · simp only [hc, if_false]
        exact ⟨history, splitIdx, ⟨hs.holds, hs.all, hs.le⟩, hg, rfl⟩
  | setSummary keepLast cleaned =>
    obtain ⟨history, splitIdx, hs, hg, hk⟩ := h
    exact ⟨history, splitIdx, ⟨holds_ifCached_same hs.holds fun _ => rfl, hs.all, hs.le⟩, hg, hk⟩
  | truncateHistory keepLast =>
    obtain ⟨history, splitIdx, hs, hg, hk⟩ := h
    have hsince : sinceRead = [] := hok
    have hall : all = history := by simpa [hsince] using hs.all
    refine ⟨history.drop splitIdx, ?_, history.drop splitIdx, ?_, List.Sublist.refl _⟩
    · rw [← keepLastMessages_drop history splitIdx hs.le, ← hk, ← hall]
      exact hs.holds.ifCached fun _ => rfl
    · rw [hall]
      exact (hg ▸ List.take_append_drop splitIdx history).symm
  | _ => exact absurd trivial hpast

/-- The truncation of a history that was appended to loses messages. -/
theorem Inv.lost (h : Inv w key t) (act : Act) (hok : ¬ Undisturbed t act) :
    Lost w key (track sanitize w key t act) := by
  obtain ⟨⟨s, pc⟩, all, given, sinceRead⟩ := t
  cases act with
  | append msg query exec => exact absurd trivial hok
  | summarizer env =>
    cases pc with
    | truncateHistory keepLast =>
      obtain ⟨history, splitIdx, hs, hg, hk⟩ := h
      have hall := congrArg List.length hs.all
      have hsince : 0 < sinceRead.length := List.length_pos_iff.mpr hok
      have hgiven : given.length = splitIdx := by
        rw [show given = history.take splitIdx from hg, List.length_take]
        exact Nat.min_eq_left hs.le
      simp only [List.length_append] at hall
      refine ⟨trivial, keepLastMessages keepLast all, hs.holds.ifCached fun _ => rfl, ?_⟩
      rw [hk, keepLastMessages_length all history.length splitIdx hs.le (by omega)]
      simp only [track]
      have hle := hs.le
      omega
    | _ => exact absurd trivial hok

theorem NothingLost.length_le (h : NothingLost w key t) :
    t.all.length ≤ t.given.length + (t.sys.store.history w key).length := by
  obtain ⟨rest, hall, hsub⟩ := h
  have hle := hsub.length_le
  have htotal := congrArg List.length hall
  simp only [List.length_append] at htotal
  omega

theorem Lost.not_nothingLost (h : Lost w key t) : ¬ NothingLost w key t := by
  obtain ⟨-, kept, hk, hlen⟩ := h
  intro hn
  have hle := hn.length_le
  rw [hk.history] at hle
  omega

/-- In every interleaving of one summarizer with appends, at every point
and after the summarizer has finished, no message is lost if and only if
the summarizer did not truncate a history that had been appended to since
it was read. -/
theorem summarize_keeps_iff (sanitize : String → String) (s : MySQLSessionStore)
    (w : WorkspaceID) (key : String) (data : SessionData) (acts : List Act) :
    NothingLost w key (Lib.run (track sanitize w key) (started s w key data) acts) ↔
      Lib.Along Undisturbed (track sanitize w key) (started s w key data) acts := by
  refine Lib.run_iff_along (fun t act h hok => ?_) (fun t h => Inv.nothingLost h)
    (fun t act h hok => Inv.lost h act hok) (fun t act h => ?_)
    (fun t h => Lost.not_nothingLost h) acts _ (inv_started s data)
  · cases act with
    | append msg query exec => exact h.append msg query exec
    | summarizer env => exact h.summarizer env hok
  · cases act with
    | append msg query exec => exact h.append msg query exec
    | summarizer env => exact h.summarizer env

end

/-! ### An append during the provider's call -/

def userTurn (n : String) : List Message :=
  [textMessage .user ("question " ++ n), textMessage .assistant ("answer " ++ n)]

def sixTurns : SessionData :=
  { newSession "s1" "alice" with
    messages := userTurn "1" ++ userTurn "2" ++ userTurn "3" ++ userTurn "4" ++ userTurn "5"
      ++ userTurn "6" }

def served : Answers := { query := none, reply := .ok "Summary.", now := "", exec := none }

/-- A message arrives while the provider summarizes the first two turns. -/
def appendDuringChat : Traced :=
  Lib.run (track id defaultWorkspaceID "s1")
    (started (newMySQLSessionStore Lib.Table.empty) defaultWorkspaceID "s1" sixTurns)
    [.summarizer served, .summarizer served, .append (textMessage .user "question 7") none none,
      .summarizer served, .summarizer served, .summarizer served, .summarizer served,
      .summarizer served, .summarizer served]

/-- The summarizer finishes; "question 3" is neither in its prompt nor in
the history. -/
theorem append_during_summary_loses_message :
    appendDuringChat.sys.pc = .done
      ∧ ¬ NothingLost defaultWorkspaceID "s1" appendDuringChat := by
  refine ⟨by decide, fun h => ?_⟩
  have hle := h.length_le
  revert hle
  decide

end LendingClaw.Agent
