/-
LendingClaw.Agent.CaptureTheorems — the memory captures of a session
keep their period as long as the count of its user messages goes on as
its runs do (`captures_keep_period`).

The invariant compares two counts: the runs since the last capture, from
the log, and the turns of the period, from the history. The first never
exceeds the second, so a capture is due before `n` runs have passed.
-/
import LendingClaw.Agent.Capture

namespace LendingClaw.Agent

open LendingClaw.Providers LendingClaw.Store

/-! ## Turns -/

theorem userTurns_snoc (msgs : List Message) (msg : Message) :
    Compacting.userTurns (msgs ++ [msg])
      = Compacting.userTurns msgs + if msg.role = .user then 1 else 0 := by
  by_cases hrole : msg.role = .user
  · simp [Compacting.userTurns, hrole]
  · simp [Compacting.userTurns, hrole]

section
variable {n turns : Nat}

@[simp] theorem turnsOfPeriod_before : turnsOfPeriod n False turns = turns % n := by
  simp [turnsOfPeriod]

/-- A due count has come to the end of the period. -/
theorem turnsOfPeriod_due (h0 : turns ≠ 0) (hdvd : n ∣ turns) :
    turnsOfPeriod n True turns = n := by
  simp [turnsOfPeriod, h0, hdvd]

theorem turnsOfPeriod_early (h : turns = 0 ∨ ¬ n ∣ turns) :
    turnsOfPeriod n True turns = turns % n := by
  rw [turnsOfPeriod, if_neg]
  rintro ⟨-, h0, hdvd⟩
  rcases h with rfl | hnot
  · exact h0 rfl
  · exact hnot hdvd

/-- The question of a run is one more turn. -/
theorem turnsOfPeriod_asked (hn : 0 < n) :
    turnsOfPeriod n True (turns + 1) = turns % n + 1 := by
  have hlt := Nat.mod_lt turns hn
  have hmod : (turns + 1) % n = (turns % n + 1) % n := (Nat.mod_add_mod turns n 1).symm
  by_cases hdvd : n ∣ turns + 1
  · rw [turnsOfPeriod_due (by omega) hdvd]
    rw [Nat.mod_eq_zero_of_dvd hdvd] at hmod
    have hle := Nat.le_of_dvd (Nat.succ_pos _) (Nat.dvd_of_mod_eq_zero hmod.symm)
    omega
  · have hne : turns % n + 1 ≠ n := by
      intro heq
      rw [heq, Nat.mod_self] at hmod
      exact hdvd (Nat.dvd_of_mod_eq_zero hmod)
    rw [turnsOfPeriod_early (Or.inr hdvd), hmod, Nat.mod_eq_of_lt (by omega)]

end

/-! ## What keeps the messages -/

section
variable {s : MySQLSessionStore} {w : WorkspaceID} {key : String} {msgs : List Message}

theorem holds_withInit (h : s.Holds w key msgs) {f : SessionData → SessionData}
    (hf : ∀ data, (f data).messages = data.messages) (query exec : Fault) :
    (s.withInit w key query exec f).Holds w key msgs := by
  obtain ⟨data, hc, rfl⟩ := h
  refine ⟨f data, ?_, hf data⟩
  simp [MySQLSessionStore.withInit, MySQLSessionStore.getOrInit, hc]

theorem holds_get (h : s.Holds w key msgs) (query : Fault) : (s.get w key query).1 = s := by
  obtain ⟨data, hc, -⟩ := h
  simp [MySQLSessionStore.get, hc]

theorem holds_getOrCreate (h : s.Holds w key msgs) (createdBy kind : String)
    (query exec : Fault) : (s.getOrCreate w key createdBy kind query exec).1.Holds w key msgs := by
  obtain ⟨data, hc, rfl⟩ := h
  refine ⟨MySQLSessionStore.backfill createdBy data, ?_, rfl⟩
  simp [MySQLSessionStore.getOrCreate, hc]

theorem holds_call (h : s.Holds w key msgs) {op : MySQLSessionStore.Op}
    (htarget : op.target = (w, key)) (hop : KeepsMessages op) :
    (s.step op).Holds w key msgs := by
  cases op with
  | getOrCreate w' key' createdBy kind query exec =>
    cases htarget
    exact holds_getOrCreate h createdBy kind query exec
  | get w' key' query =>
    cases htarget
    rw [MySQLSessionStore.step, holds_get h]
    exact h
  | getHistory w' key' query =>
    cases htarget
    rw [MySQLSessionStore.step, h.getHistory]
    exact h
  | setTitle w' key' title query exec =>
    cases htarget
    rw [MySQLSessionStore.step, MySQLSessionStore.setTitle]
    refine holds_withInit h ?_ query exec
    intro data
    rfl
  | save w' key' exec =>
    cases htarget
    exact h.save exec
  | setSessionMetaValue w' key' metaKey value =>
    cases htarget
    refine h.ifCached (g := id) (fun data => ?_)
    split
    · rfl
    · rfl
  | addMessage w' key' msg query exec => exact hop.elim
  | setMessages w' key' msgs' query exec => exact hop.elim
  | truncateHistory w' key' keepLast => exact hop.elim
  | reset w' key' => exact hop.elim
  | delete w' key' exec => exact hop.elim
  | _ =>
    cases htarget
    exact h.ifCached (g := id) (fun _ => rfl)

end

/-! ## What goes on beside the runs -/

namespace Compacting

section
variable {cfg : LoopConfig} {sanitize : String → String} {w : WorkspaceID} {key : String}
  {sys : Compacting} {msgs : List Message}

theorem holds_memoryFlush (h : sys.store.Holds w key msgs) (query : Fault) :
    (sys.memoryFlush cfg w key query).store.Holds w key msgs := by
  unfold memoryFlush
  split
  · exact h
  · simp only
    split
    · exact h
    · simp only [doMemoryFlush, h.getHistory]
      exact h.ifCached (g := id) (fun _ => rfl)

theorem holds_maybeSummarize (h : sys.store.Holds w key msgs) (query flushQuery : Fault) :
    (sys.maybeSummarize cfg w key query flushQuery).store.Holds w key msgs := by
  simp only [maybeSummarize, h.getHistory]
  split
  · exact h
  · split
    · exact h
    · exact holds_memoryFlush h flushQuery

variable (sanitize) in
/-- A step of the summarizer keeps the messages, the truncation apart. -/
theorem holds_summarizer (h : sys.store.Holds w key msgs) (env : Answers) :
    (∃ keepLast, sys.pc = .truncateHistory keepLast
        ∧ (sys.summarizer sanitize w key env).store.Holds w key (keepLastMessages keepLast msgs))
      ∨ (∀ keepLast, sys.pc ≠ .truncateHistory keepLast)
        ∧ (sys.summarizer sanitize w key env).store.Holds w key msgs := by
  cases hpc : sys.pc with
  | truncateHistory keepLast =>
    refine Or.inl ⟨keepLast, rfl, ?_⟩
    simp only [summarizer, hpc, advance]
    exact h.ifCached (fun _ => rfl)
  | getHistory =>
    refine Or.inr ⟨by simp, ?_⟩
    simp only [summarizer, hpc, advance, h.getHistory]
    exact h
  | chat history splitIdx request =>
    refine Or.inr ⟨by simp, ?_⟩
    cases hreply : env.reply with
    | error err =>
      simp only [summarizer, hpc, advance, hreply]
      exact h
    | ok content =>
      simp only [summarizer, hpc, advance, hreply]
      exact h
  | save =>
    refine Or.inr ⟨by simp, ?_⟩
    simp only [summarizer, hpc, advance]
    exact h.save env.exec
  | getSummary history splitIdx =>
    refine Or.inr ⟨by simp, ?_⟩
    simp only [summarizer, hpc, advance]
    exact h
  | done =>
    refine Or.inr ⟨by simp, ?_⟩
    simp only [summarizer, hpc, advance]
    exact h
  | _ =>
    refine Or.inr ⟨by simp, ?_⟩
    simp only [summarizer, hpc, advance]
    exact h.ifCached (g := id) (fun _ => rfl)

variable (cfg sanitize) in
/-- What a step beside the runs leaves of the messages. -/
theorem holds_beside (h : sys.store.Holds w key msgs) {act : FlushAct w key}
    (hact : GoesBeside act) :
    (∃ env keepLast, act = .summarizer env ∧ sys.pc = .truncateHistory keepLast
        ∧ (sys.step cfg sanitize w key act).store.Holds w key (keepLastMessages keepLast msgs))
      ∨ (sys.step cfg sanitize w key act).store.Holds w key msgs := by
  cases act with
  | call c => exact Or.inr (holds_call h c.target hact)
  | maybeSummarize query flushQuery => exact Or.inr (holds_maybeSummarize h query flushQuery)
  | summarizer env =>
    rcases holds_summarizer sanitize h env with ⟨keepLast, hpc, hholds⟩ | ⟨-, hholds⟩
    · exact Or.inl ⟨env, keepLast, rfl, hpc, hholds⟩
    · exact Or.inr hholds
  | maybePeriodicMemoryCapture query => exact hact.elim
  | capture query =>
    refine Or.inr ?_
    simp only [step]
    split
    · exact h
    · simp only [doMemoryFlush, h.getHistory]
      exact h
  | restart => exact hact.elim

/-- The check starts a capture exactly when the count is a multiple that
is not marked. -/
theorem capture_spec (hmem : cfg.hasMemory = true) {n : Nat}
    (hn : cfg.memoryCaptureEveryTurns = n) (hpos : 0 < n) (h : sys.store.Holds w key msgs)
    (query : Fault) :
    (sys.maybePeriodicMemoryCapture cfg w key query).store.Holds w key msgs
      ∧ (sys.maybePeriodicMemoryCapture cfg w key query).captures - sys.captures
        = if userTurns msgs ≠ 0 ∧ n ∣ userTurns msgs
            ∧ sys.store.getSessionMetaValue w key sessionMetaKeyLastPeriodicFlushTurn
              ≠ toString (userTurns msgs) then 1 else 0 := by
  have hguard : (!cfg.hasMemory || decide (cfg.memoryCaptureEveryTurns ≤ 0)) = false := by
    simp [hmem, hn]
    omega
  have hmod : ((userTurns msgs : Int) % cfg.memoryCaptureEveryTurns ≠ 0)
      ↔ ¬ n ∣ userTurns msgs := by
    rw [hn]
    omega
  simp only [maybePeriodicMemoryCapture, hguard, h.getHistory, hmod, Bool.false_eq_true, if_false]
  by_cases hdue : userTurns msgs = 0 ∨ ¬ n ∣ userTurns msgs
  · rw [if_pos hdue, if_neg]
    · exact ⟨h, Nat.sub_self _⟩
    · rintro ⟨h0, hdvd, -⟩
      exact hdue.elim h0 (fun hnot => hnot hdvd)
  · rw [if_neg hdue]
    push Not at hdue
    by_cases hmark : sys.store.getSessionMetaValue w key sessionMetaKeyLastPeriodicFlushTurn
        = toString (userTurns msgs)
    · rw [if_pos hmark, if_neg (fun hno => hno.2.2 hmark)]
      exact ⟨h, Nat.sub_self _⟩
    · rw [if_neg hmark, if_pos ⟨hdue.1, hdue.2, hmark⟩]
      refine ⟨h.ifCached (g := id) (fun data => ?_), Nat.add_sub_cancel_left _ _⟩
      rw [if_neg (by decide)]
      rfl

end

end Compacting

/-! ## The invariant -/

namespace Capturing

section
variable (n : Nat) {l : Loop} (w : WorkspaceID) (key : String) (t : Capturing l)

/-- The runs since the last capture, the one under way with its question
in the session included. -/
def runsSinceCapture : Nat :=
  Lib.sinceLast (fun k => 0 < k) t.log + if t.phase.asked then 1 else 0

structure Inv : Prop where
  cached : ∃ msgs, t.sys.store.Holds w key msgs
  counted : t.runsSinceCapture ≤ turnsOfPeriod n t.phase.asked (t.turns w key)
  safe : KeepsPeriod n t.log

end

section
variable {cfg : LoopConfig} {sanitize : String → String} {n : Nat} {l : Loop} {w : WorkspaceID}
  {key : String} {t : Capturing l}

theorem inv_start (hpos : 0 < n) (l : Loop) (s : OpenSession w key) :
    (start l s).Inv n w key where
  cached := ⟨s.data.messages, s.data, s.cached, rfl⟩
  counted := Nat.zero_le _
  safe := ⟨Lib.everyWindow_nil hpos, by simp [start]⟩

theorem turns_of_holds {msgs : List Message} (h : t.sys.store.Holds w key msgs) :
    t.turns w key = Compacting.userTurns msgs := by
  rw [turns, h.history]

/-- The question of a run is in the session. -/
theorem Inv.ask (h : t.Inv n w key) (hpos : 0 < n) {run : CompletedRun l}
    (hphase : t.phase = .begun run) (query exec : Fault) :
    (t.addMessage w key run.question query exec run.rest).Inv n w key := by
  obtain ⟨msgs, hmsgs⟩ := h.cached
  have hadd := hmsgs.addMessage run.question query exec
  refine ⟨⟨_, hadd⟩, ?_, h.safe⟩
  have hcounted := h.counted
  simp only [runsSinceCapture, hphase, Phase.asked, if_false, turnsOfPeriod_before,
    turns_of_holds hmsgs] at hcounted
  have hturns : (t.addMessage w key run.question query exec run.rest).turns w key
      = Compacting.userTurns msgs + 1 := by
    rw [turns, addMessage, hadd.history, userTurns_snoc]
    rfl
  show Lib.sinceLast _ t.log + (if True then 1 else 0) ≤ turnsOfPeriod n True _
  rw [hturns, turnsOfPeriod_asked hpos, if_pos trivial]
  omega

/-- Any other message keeps the count, or is a warning that keeps the
period. -/
theorem Inv.flush (h : t.Inv n w key) {msg : Message} {rest : List Message}
    (hphase : t.phase = .flushing (msg :: rest))
    (hback : msg.role = .user → t.NotBack n w key (t.turns w key + 1)) (query exec : Fault) :
    (t.addMessage w key msg query exec rest).Inv n w key := by
  obtain ⟨msgs, hmsgs⟩ := h.cached
  have hadd := hmsgs.addMessage msg query exec
  refine ⟨⟨_, hadd⟩, ?_, h.safe⟩
  have hcounted := h.counted
  have hturns : (t.addMessage w key msg query exec rest).turns w key
      = t.turns w key + if msg.role = .user then 1 else 0 := by
    rw [turns_of_holds hmsgs, turns, addMessage, hadd.history, userTurns_snoc]
  simp only [NotBack, runsSinceCapture, hphase, Phase.asked] at hback hcounted ⊢
  show Lib.sinceLast _ t.log + (if True then 1 else 0) ≤ turnsOfPeriod n True _
  rw [hturns]
  by_cases hrole : msg.role = .user
  · rw [if_pos hrole]
    exact hcounted.trans (hback hrole)
  · rw [if_neg hrole]
    exact hcounted

/-- The check: a capture ends the count, and a count that does not end
leaves runs of the period. -/
theorem Inv.endRun (h : t.Inv n w key) (hpos : 0 < n) (hmem : cfg.hasMemory = true)
    (hn : cfg.memoryCaptureEveryTurns = n) (hphase : t.phase = .flushing []) (query : Fault)
    (hunmarked : t.turns w key ≠ 0 → n ∣ t.turns w key →
      t.sys.store.getSessionMetaValue w key sessionMetaKeyLastPeriodicFlushTurn
        ≠ toString (t.turns w key)) :
    (t.step cfg sanitize w key (.endRun query)).Inv n w key := by
  obtain ⟨msgs, hmsgs⟩ := h.cached
  obtain ⟨hholds, hcaptures⟩ := Compacting.capture_spec hmem hn hpos hmsgs query
  have hcounted := h.counted
  simp only [runsSinceCapture, hphase, Phase.asked, if_true, turns_of_holds hmsgs] at hcounted
  rw [turns_of_holds hmsgs] at hunmarked
  simp only [step, hphase]
  by_cases hdue : Compacting.userTurns msgs ≠ 0 ∧ n ∣ Compacting.userTurns msgs
  · rw [if_pos ⟨hdue.1, hdue.2, hunmarked hdue.1 hdue.2⟩] at hcaptures
    refine ⟨⟨msgs, hholds⟩, ?_, ?_, ?_⟩
    · simp [runsSinceCapture, hcaptures, Phase.asked]
    · refine h.safe.1.snoc ?_
      rw [hcaptures]
      simpa using hpos
    · intro k hk
      rcases List.mem_append.mp hk with hk | hk
      · exact h.safe.2 k hk
      · rw [List.mem_singleton.mp hk, hcaptures]
  · rw [if_neg (fun hno => hdue ⟨hno.1, hno.2.1⟩)] at hcaptures
    have hearly : Compacting.userTurns msgs = 0 ∨ ¬ n ∣ Compacting.userTurns msgs := by
      by_cases h0 : Compacting.userTurns msgs = 0
      · exact Or.inl h0
      · exact Or.inr (fun hdvd => hdue ⟨h0, hdvd⟩)
    rw [turnsOfPeriod_early hearly] at hcounted
    have hlt := Nat.mod_lt (Compacting.userTurns msgs) hpos
    have hsince : Lib.sinceLast (fun k => 0 < k) (t.log ++ [0])
        = Lib.sinceLast (fun k => 0 < k) t.log + 1 := by simp
    refine ⟨⟨msgs, hholds⟩, ?_, ?_, ?_⟩
    · simp only [runsSinceCapture, hcaptures, Phase.asked, turnsOfPeriod_before, hsince, turns,
        hholds.history]
      exact hcounted
    · refine h.safe.1.snoc ?_
      rw [hcaptures, hsince]
      omega
    · intro k hk
      rcases List.mem_append.mp hk with hk | hk
      · exact h.safe.2 k hk
      · rw [List.mem_singleton.mp hk, hcaptures]
        exact Nat.zero_le 1

theorem Inv.beside (h : t.Inv n w key) {act : FlushAct w key} (hact : GoesBeside act)
    (hok : t.CountsOn n w key (.beside act hact)) :
    (t.step cfg sanitize w key (.beside act hact)).Inv n w key := by
  obtain ⟨msgs, hmsgs⟩ := h.cached
  rcases Compacting.holds_beside cfg sanitize hmsgs hact with
    ⟨env, keepLast, rfl, hpc, hholds⟩ | hholds
  · refine ⟨⟨_, hholds⟩, ?_, h.safe⟩
    simp only [CountsOn, hpc, hmsgs.history] at hok
    refine h.counted.trans (hok.trans_eq ?_)
    rw [turns_of_holds hholds]
    rfl
  · refine ⟨⟨msgs, hholds⟩, ?_, h.safe⟩
    have hturns : (t.step cfg sanitize w key (.beside act hact)).turns w key = t.turns w key := by
      rw [turns_of_holds hholds, turns_of_holds hmsgs]
    rw [hturns]
    exact h.counted

/-- The step lemma. -/
theorem inv_step (hpos : 0 < n) (hmem : cfg.hasMemory = true)
    (hn : cfg.memoryCaptureEveryTurns = n) (t : Capturing l) (act : CaptureAct l w key)
    (h : t.Inv n w key) (hok : t.CountsOn n w key act) :
    (t.step cfg sanitize w key act).Inv n w key := by
  cases act with
  | begin run =>
    cases hphase : t.phase with
    | idle =>
      simp only [step, hphase]
      split
      · obtain ⟨hcached, hcounted, hsafe⟩ := h
        simp only [runsSinceCapture, hphase, Phase.asked] at hcounted
        exact ⟨hcached, hcounted, hsafe⟩
      · exact h
    | begun run' =>
      simp only [step, hphase]
      exact h
    | flushing msgs =>
      simp only [step, hphase]
      exact h
  | flush query exec =>
    cases hphase : t.phase with
    | idle =>
      simp only [step, hphase]
      exact h
    | begun run =>
      simp only [step, hphase]
      exact h.ask hpos hphase query exec
    | flushing msgs =>
      cases msgs with
      | nil =>
        simp only [step, hphase]
        exact h
      | cons msg rest =>
        simp only [CountsOn, hphase] at hok
        simp only [step, hphase]
        exact h.flush hphase hok query exec
  | endRun query =>
    cases hphase : t.phase with
    | idle =>
      simp only [step, hphase]
      exact h
    | begun run =>
      simp only [step, hphase]
      exact h
    | flushing msgs =>
      cases msgs with
      | nil =>
        simp only [CountsOn, hphase] at hok
        exact h.endRun hpos hmem hn hphase query hok
      | cons msg rest =>
        simp only [step, hphase]
        exact h
  | beside act hact => exact h.beside hact hok

end

end Capturing

/-- In every run of the system whose steps let the count go on, among any
`n` consecutive completed runs one starts a capture, and none two. -/
theorem captures_keep_period (cfg : LoopConfig) (hmem : cfg.hasMemory = true)
    (hpos : 0 < cfg.memoryCaptureEveryTurns) (sanitize : String → String) (l : Loop)
    {w : WorkspaceID} {key : String} (s : OpenSession w key) (acts : List (CaptureAct l w key))
    (hcounts : Lib.Along (Capturing.CountsOn cfg.memoryCaptureEveryTurns.toNat w key)
      (Capturing.step cfg sanitize w key) (Capturing.start l s) acts) :
    Lib.Always (fun t => KeepsPeriod cfg.memoryCaptureEveryTurns.toNat t.log)
      (Capturing.step cfg sanitize w key) (Capturing.start l s) acts := by
  have hn : cfg.memoryCaptureEveryTurns = cfg.memoryCaptureEveryTurns.toNat := by omega
  have hpos' : 0 < cfg.memoryCaptureEveryTurns.toNat := by omega
  exact Lib.always_of_along (Capturing.inv_step hpos' hmem hn) (fun _ h => h.safe) acts
    (Capturing.start l s) (Capturing.inv_start hpos' l s) hcounts

/-! ### A capture every three turns -/

def noLoans : ChatResponse :=
  { content := "None.", toolCalls := [], finishReason := "stop", usage := none }

/-- A question that is answered at once. -/
def answered (history : List Message) (summary : String) : CompletedRun defaultLoop :=
  let input := { firstMessage with history := history, summary := summary }
  let env : Nat → Turn :=
    fun _ => { resp := .ok noLoans, compaction := none, forLLM := fun _ => "" }
  have hresp : (env 0).resp = .ok noLoans := rfl
  { input := input
    env := env
    rest := [textMessage .assistant (defaultLoop.finalContent noLoans.content)]
    flushed := flushed_of_answer defaultLoop input hresp rfl }

def everyThreeTurns : LoopConfig :=
  { hasMemory := true, memoryCaptureEveryTurns := 3, threshold := 150000 }

/-- The messages of one answered question after another. -/
def exchanges (runs : Nat) : List Message :=
  (List.replicate runs [textMessage .user "Which loans are open?",
    textMessage .assistant (defaultLoop.finalContent noLoans.content)]).flatten

/-- A run from its start to its check. -/
def wholeRun (history : List Message) (summary : String) :
    List (CaptureAct defaultLoop defaultWorkspaceID "s1") :=
  [.begin (answered history summary), .flush none none, .flush none none, .endRun none]

theorem overThreshold_target :
    (MySQLSessionStore.Op.setLastPromptTokens defaultWorkspaceID "s1" 160000 5).target
      = (defaultWorkspaceID, "s1") := rfl

/-- A prompt over the threshold, and the summarization it starts. -/
def summarized : List (CaptureAct defaultLoop defaultWorkspaceID "s1") :=
  [.beside
      (.call
        { op := .setLastPromptTokens defaultWorkspaceID "s1" 160000 5
          target := overThreshold_target
          keepsCounters := trivial }) trivial,
    .beside (.maybeSummarize none none) trivial]
    ++ List.replicate 8 (.beside
      (.summarizer
        { query := none
          reply := .ok "five questions"
          now := "2026-01-01T00:00:00Z"
          exec := none }) trivial)

/-- Five runs, a compaction, and one run more. -/
def compactedRuns : List (CaptureAct defaultLoop defaultWorkspaceID "s1") :=
  (List.range 5).flatMap (fun i => wholeRun (exchanges i) "") ++ summarized
    ++ wholeRun (exchanges 4) "five questions"

/-- The third run has the last capture: the compaction takes the sixth
turn back to the fifth. -/
theorem compaction_skips_capture :
    ¬ KeepsPeriod 3
      (Lib.run (Capturing.step everyThreeTurns id defaultWorkspaceID "s1")
        (Capturing.start defaultLoop freshSession) compactedRuns).log := by
  intro h
  have hlog : (Lib.run (Capturing.step everyThreeTurns id defaultWorkspaceID "s1")
      (Capturing.start defaultLoop freshSession) compactedRuns).log = [0, 0, 1, 0, 0, 0] := by
    decide +kernel
  obtain ⟨k, hk, hpos⟩ := h.1 [0, 0, 1] [0, 0, 0] [] hlog rfl
  simp at hk
  omega

def threeRuns : List (CaptureAct defaultLoop defaultWorkspaceID "s1") :=
  (List.range 3).flatMap (fun i => wholeRun (exchanges i) "")

theorem threeRuns_count : Lib.Along (Capturing.CountsOn 3 defaultWorkspaceID "s1")
    (Capturing.step everyThreeTurns id defaultWorkspaceID "s1")
    (Capturing.start defaultLoop freshSession) threeRuns := by
  have hassistant : Role.assistant ≠ Role.user := by decide
  refine ⟨trivial, trivial, fun h => absurd h hassistant, fun _ h => absurd h (by decide +kernel),
    trivial, trivial, fun h => absurd h hassistant, fun _ h => absurd h (by decide +kernel),
    trivial, trivial, fun h => absurd h hassistant, fun _ _ => by decide +kernel, trivial⟩

/-- The law for three runs and no compaction. -/
theorem captures_keep_period_three :
    Lib.Always (fun t => KeepsPeriod 3 t.log)
      (Capturing.step everyThreeTurns id defaultWorkspaceID "s1")
      (Capturing.start defaultLoop freshSession) threeRuns :=
  captures_keep_period everyThreeTurns rfl (by decide) id defaultLoop freshSession threeRuns
    threeRuns_count

end LendingClaw.Agent
