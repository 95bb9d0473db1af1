/-
LendingClaw.Agent.WholeTurns — what compaction leaves of a session of
completed runs (`historyTurnStartIndex` in `internal/agent/history.go`,
`maybeSummarize` in `internal/agent/loop.go`).

The split counts user messages from the end, and a turn of it is what
follows one of them. A run has one from its user, and one more for each
warning about a tool loop: four turns are four runs only if the last
four runs had no warning.
-/
import LendingClaw.Agent.LoopPairing
import LendingClaw.Agent.MemoryFlush
import LendingClaw.Agent.SummarizeTheorems

namespace LendingClaw.Agent

open LendingClaw.Providers LendingClaw.Store

/-! ## Where turns start -/

/-- How many user messages a list has. -/
def userCount (msgs : List Message) : Nat := msgs.countP fun m => m.role = .user

theorem userCount_append (msgs msgs' : List Message) :
    userCount (msgs ++ msgs') = userCount msgs + userCount msgs' := List.countP_append

theorem userCount_drop_le (msgs : List Message) (n : Nat) :
    userCount (msgs.drop n) ≤ userCount msgs := (List.drop_sublist n msgs).countP_le

/-- A turn starts here, with so many turns to the end. -/
def TurnStart (msgs : List Message) (turns i : Nat) : Prop :=
  (msgs[i]?).map Message.role = some .user ∧ userCount (msgs.drop i) = turns

theorem drop_eq_of_user {msgs : List Message} {i : Nat}
    (h : (msgs[i]?).map Message.role = some .user) :
    userCount (msgs.drop i) = userCount (msgs.drop (i + 1)) + 1 := by
  obtain ⟨m, hm, hrole⟩ := Option.map_eq_some_iff.mp h
  obtain ⟨hlt, hget⟩ := List.getElem?_eq_some_iff.mp hm
  rw [List.drop_eq_getElem_cons hlt, userCount, userCount, List.countP_cons, hget, if_pos]
  exact decide_eq_true hrole

theorem drop_eq_of_not_user {msgs : List Message} {i : Nat}
    (h : ¬ (msgs[i]?).map Message.role = some .user) :
    userCount (msgs.drop i) = userCount (msgs.drop (i + 1)) := by
  by_cases hlt : i < msgs.length
  · rw [List.getElem?_eq_getElem hlt, Option.map_some] at h
    rw [List.drop_eq_getElem_cons hlt, userCount, userCount, List.countP_cons, if_neg]
    · rfl
    · intro hrole
      exact h (congrArg some (of_decide_eq_true hrole))
  · rw [List.drop_of_length_le (by omega), List.drop_of_length_le (by omega)]

/-- So many turns from the end there is only one start. -/
theorem TurnStart.unique {msgs : List Message} {turns i j : Nat} (hi : TurnStart msgs turns i)
    (hj : TurnStart msgs turns j) : i = j := by
  have hlt : ∀ {i j : Nat}, TurnStart msgs turns i → TurnStart msgs turns j → ¬ i < j := by
    intro i j hi hj hij
    have hcount := drop_eq_of_user hi.1
    have hsub : (msgs.drop j).Sublist (msgs.drop (i + 1)) := List.drop_sublist_drop_left _ hij
    have hle : userCount (msgs.drop j) ≤ userCount (msgs.drop (i + 1)) := hsub.countP_le
    have hi' := hi.2
    have hj' := hj.2
    omega
  exact Nat.le_antisymm (Nat.le_of_not_lt (hlt hj hi)) (Nat.le_of_not_lt (hlt hi hj))

/-- The scan, with the turns behind `i` counted and the last start seen. -/
theorem turnStartScan_spec {msgs : List Message} {k i count last : Nat} (hi : i ≤ msgs.length)
    (hcount : userCount (msgs.drop i) = count) (hle : count ≤ k) (hk : 0 < k)
    (hlast : 0 < count → TurnStart msgs count last) :
    (userCount msgs ≤ k → turnStartScan msgs k i count last = 0)
      ∧ (k < userCount msgs → TurnStart msgs k (turnStartScan msgs k i count last)) := by
  induction i generalizing count last with
  | zero =>
    rw [List.drop_zero] at hcount
    exact ⟨fun _ => rfl, fun hmore => absurd hmore (by omega)⟩
  | succ i ih =>
    rw [turnStartScan]
    by_cases huser : (msgs[i]?).map Message.role = some .user
    · have hnext := drop_eq_of_user huser
      rw [if_pos huser]
      by_cases hfull : (count : Int) + 1 > k
      · have heq : count = k := by omega
        have hall := userCount_drop_le msgs i
        rw [if_pos hfull]
        exact ⟨fun hfew => absurd hfew (by omega), fun _ => heq ▸ hlast (by omega)⟩
      · rw [if_neg hfull, ← Int.natCast_succ]
        exact ih (by omega) (by omega) (by omega) fun _ => ⟨huser, by omega⟩
    · have hnext := drop_eq_of_not_user huser
      rw [if_neg huser]
      exact ih (by omega) (by omega) hle hlast

/-- `historyTurnStartIndex`: 0 if there are no more turns than are kept,
and else the start of the turns that are. -/
theorem historyTurnStartIndex_spec (msgs : List Message) {k : Nat} (hk : 0 < k) :
    (userCount msgs ≤ k → historyTurnStartIndex msgs k = 0)
      ∧ (k < userCount msgs → TurnStart msgs k (historyTurnStartIndex msgs k)) := by
  rw [historyTurnStartIndex, if_neg (by omega)]
  by_cases hnil : msgs = []
  · subst hnil
    exact ⟨fun _ => rfl, fun hmore => absurd hmore (Nat.not_lt_zero k)⟩
  · rw [if_neg hnil]
    refine turnStartScan_spec (Nat.le_refl _) ?_ (Nat.zero_le k) hk nofun
    rw [List.drop_length]
    rfl

/-! ## Completed runs -/

/-- What a run flushes: the message of its user, and the rest. -/
structure RunMessages where
  message : String
  rest : List Message
  deriving DecidableEq

def RunMessages.all (run : RunMessages) : List Message := textMessage .user run.message :: run.rest

/-- The user messages of a run that its user did not send. -/
def RunMessages.warnings (run : RunMessages) : Nat := userCount run.rest

/-- The history of a session. -/
def historyOf (runs : List RunMessages) : List Message := runs.flatMap RunMessages.all

/-- The runs of a session, each on the history that those before it left. -/
inductive Completed (l : Loop) : List RunMessages → Prop where
  | nil : Completed l []
  | run {runs : List RunMessages} (h : Completed l runs) (r : RunInput)
      (hhistory : r.history = historyOf runs) (env : Nat → Turn) (rest : List Message)
      (hflushed : l.flushed (l.runLoop r env) = some (textMessage .user r.message :: rest)) :
      Completed l (runs ++ [{ message := r.message, rest := rest }])

/-- The pending messages of a run begin with its user's. -/
theorem iterate_pending (l : Loop) (st : LoopState) (turn : Turn) :
    st.pendingMsgs <+: (l.iterate st turn).pendingMsgs := by
  by_cases hended : st.ended = none
  · cases hresp : turn.resp with
    | error err =>
      obtain ⟨text, heq⟩ := iterate_error (l := l) hended hresp
      rw [heq]
      exact List.prefix_refl _
    | ok resp =>
      by_cases hnil : resp.toolCalls = []
      · rw [iterate_ok hended hresp, Loop.act, if_pos hnil]
        rw [(compact_frame l st.send resp turn.compaction).1]
        exact List.prefix_refl _
      · rw [(iterate_calls hended hresp hnil).2.1]
        exact List.prefix_append _ _
  · rw [iterate_ended hended]

/-- Whatever a run flushes begins with the message of its user. -/
theorem flushed_head (l : Loop) (r : RunInput) (env : Nat → Turn) {msgs : List Message}
    (h : l.flushed (l.runLoop r env) = some msgs) :
    ∃ rest, msgs = textMessage .user r.message :: rest := by
  have hpending : ∀ (ts : List Turn) (st : LoopState),
      st.pendingMsgs <+: (Lib.run l.iterate st ts).pendingMsgs := by
    intro ts
    induction ts with
    | nil => exact fun st => List.prefix_refl _
    | cons t ts ih => exact fun st => (iterate_pending l st t).trans (ih _)
  obtain ⟨more, hmore⟩ := hpending (turns env l.maxIterations) (l.start r)
  rcases flushed_cases l (l.runLoop r env) with ⟨hnone, -⟩ | ⟨content, hsome⟩
  · rw [hnone] at h
    cases h
  · rw [hsome] at h
    cases h
    rw [Loop.runLoop, ← hmore]
    exact ⟨more ++ [textMessage .assistant content], rfl⟩

/-- The last runs, as many as turns are kept. -/
def lastRuns (runs : List RunMessages) : List RunMessages := runs.drop (runs.length - 4)

def warningCount : List RunMessages → Nat
  | [] => 0
  | run :: runs => run.warnings + warningCount runs

/-- The last runs have no more user messages than turns are kept: one
each, and their warnings. -/
def WarningsFit (runs : List RunMessages) : Prop :=
  (lastRuns runs).length + warningCount (lastRuns runs) ≤ 4

theorem userCount_historyOf (runs : List RunMessages) :
    userCount (historyOf runs) = runs.length + warningCount runs := by
  induction runs with
  | nil => rfl
  | cons run runs ih =>
    have hrun : userCount run.all = run.warnings + 1 := List.countP_cons_of_pos rfl
    rw [historyOf, List.flatMap_cons, userCount_append, ← historyOf, ih, hrun, List.length_cons,
      warningCount]
    omega

theorem historyOf_split (runs : List RunMessages) (n : Nat) :
    historyOf runs = historyOf (runs.take n) ++ historyOf (runs.drop n) := by
  rw [historyOf, historyOf, historyOf, ← List.flatMap_append, List.take_append_drop]

/-! ## The split -/

/-- The messages in front of the last runs. -/
def earlierLength (runs : List RunMessages) : Nat :=
  (historyOf (runs.take (runs.length - 4))).length

theorem drop_earlier (runs : List RunMessages) :
    (historyOf runs).drop (earlierLength runs) = historyOf (lastRuns runs) := by
  rw [historyOf_split runs (runs.length - 4), earlierLength, List.drop_left, lastRuns]

/-- A turn starts with the last runs. -/
theorem turnStart_earlier {runs : List RunMessages} (hlen : 4 < runs.length) :
    TurnStart (historyOf runs) ((lastRuns runs).length + warningCount (lastRuns runs))
      (earlierLength runs) := by
  refine ⟨?_, by rw [drop_earlier, userCount_historyOf]⟩
  rw [← List.head?_drop, drop_earlier]
  cases hlast : lastRuns runs with
  | nil =>
    have hzero := congrArg List.length hlast
    rw [lastRuns, List.length_drop, List.length_nil] at hzero
    omega
  | cons run rest => rfl

/-- Behind the earlier runs is the split, exactly if the warnings fit. -/
theorem split_eq_iff (runs : List RunMessages) :
    historyTurnStartIndex (historyOf runs) postRunKeepTurns = earlierLength runs
      ↔ WarningsFit runs := by
  have hcount := userCount_historyOf runs
  obtain ⟨hfew, hmore⟩ := historyTurnStartIndex_spec (historyOf runs) (show 0 < 4 by decide)
  have hlength : (lastRuns runs).length = runs.length - (runs.length - 4) := List.length_drop
  rw [WarningsFit]
  by_cases hlen : 4 < runs.length
  · have hstart := turnStart_earlier hlen
    have hsplit := hmore (by omega)
    constructor
    · intro heq
      have hsame : TurnStart (historyOf runs) 4 (earlierLength runs) := heq ▸ hsplit
      have hfour := hsame.2
      have hlast := hstart.2
      omega
    · intro hfit
      have hfour : (lastRuns runs).length + warningCount (lastRuns runs) = 4 := by omega
      exact hsplit.unique (hfour ▸ hstart)
  · have hnone : runs.length - 4 = 0 := by omega
    have hlast : lastRuns runs = runs := by rw [lastRuns, hnone, List.drop_zero]
    have hearlier : earlierLength runs = 0 := by
      rw [earlierLength, hnone, List.take_zero]
      rfl
    rw [hlast, hearlier, ← hcount]
    constructor
    · intro hzero
      by_contra htoo
      have hsplit := (hmore (by omega)).2
      rw [show historyTurnStartIndex (historyOf runs) (4 : Nat) = 0 from hzero,
        List.drop_zero] at hsplit
      omega
    · exact hfew

/-! ## The summarizer alone -/

/-- A session in the cache, and no goroutine. -/
def idle (s : MySQLSessionStore) (w : WorkspaceID) (key : String) (data : SessionData) :
    Compacting :=
  { store := s.put w key data, pc := .done, captures := 0, events := [] }

/-- `maybeSummarize` on a cached session, with nobody else about: the
check, and the goroutine if it is started. -/
def solo (cfg : LoopConfig) (sanitize : String → String) (w : WorkspaceID) (key : String)
    (s : MySQLSessionStore) (data : SessionData) (answers : List Answers) : Compacting :=
  Lib.run (fun sys env => sys.summarizer sanitize w key env)
    ((idle s w key data).maybeSummarize cfg w key none none) answers

/-- Before the truncation the history is there, and behind it what the
split leaves. -/
def SoloInv (w : WorkspaceID) (key : String) (history : List Message) (sys : Compacting) : Prop :=
  match sys.pc with
  | .getHistory => sys.store.Holds w key history
  | .getSummary h splitIdx | .chat h splitIdx _ =>
    sys.store.Holds w key history ∧ h = history
      ∧ splitIdx = historyTurnStartIndex history postRunKeepTurns ∧ 0 < splitIdx
  | .setSummary keepLast _ | .truncateHistory keepLast =>
    sys.store.Holds w key history ∧ 0 < historyTurnStartIndex history postRunKeepTurns
      ∧ keepLast = (history.length : Int) - historyTurnStartIndex history postRunKeepTurns
  | .incrementCompaction | .setCompactedAt | .save | .done =>
    sys.store.Holds w key history ∨ (0 < historyTurnStartIndex history postRunKeepTurns
      ∧ sys.store.Holds w key (history.drop (historyTurnStartIndex history postRunKeepTurns)))

theorem idle_holds (s : MySQLSessionStore) (w : WorkspaceID) (key : String) (data : SessionData) :
    (idle s w key data).store.Holds w key data.messages := MySQLSessionStore.holds_put s w key data

section
variable {sanitize : String → String} {w : WorkspaceID} {key : String} {history : List Message}
  {sys : Compacting}

theorem SoloInv.outcome (h : SoloInv w key history sys) :
    sys.store.history w key = history
      ∨ (0 < historyTurnStartIndex history postRunKeepTurns
        ∧ sys.store.history w key
          = history.drop (historyTurnStartIndex history postRunKeepTurns)) := by
  unfold SoloInv at h
  cases hpc : sys.pc with
  | getHistory =>
    simp only [hpc] at h
    exact Or.inl h.history
  | getSummary h' splitIdx =>
    simp only [hpc] at h
    exact Or.inl h.1.history
  | chat h' splitIdx request =>
    simp only [hpc] at h
    exact Or.inl h.1.history
  | setSummary keepLast cleaned =>
    simp only [hpc] at h
    exact Or.inl h.1.history
  | truncateHistory keepLast =>
    simp only [hpc] at h
    exact Or.inl h.1.history
  | _ =>
    simp only [hpc] at h
    exact h.imp (fun hsame => hsame.history) fun hcut => ⟨hcut.1, hcut.2.history⟩

/-- The steps behind the truncation. -/
theorem SoloInv.past {pc : Pc} (hpast : pc.past) {s : MySQLSessionStore}
    (h : s.Holds w key history ∨ (0 < historyTurnStartIndex history postRunKeepTurns
      ∧ s.Holds w key (history.drop (historyTurnStartIndex history postRunKeepTurns))))
    (sanitize : String → String) (env : Answers) :
    (advance sanitize w key env s pc).1.Holds w key history
      ∨ (0 < historyTurnStartIndex history postRunKeepTurns
        ∧ (advance sanitize w key env s pc).1.Holds w key
          (history.drop (historyTurnStartIndex history postRunKeepTurns))) :=
  h.imp (fun hs => (advance_past sanitize w key hpast hs env).1) fun hs =>
    ⟨hs.1, (advance_past sanitize w key hpast hs.2 env).1⟩

theorem SoloInv.summarizer (h : SoloInv w key history sys) (sanitize : String → String)
    (env : Answers) : SoloInv w key history (sys.summarizer sanitize w key env) := by
  obtain ⟨s, pc, captures, events⟩ := sys
  cases pc with
  | getHistory =>
    have hread := MySQLSessionStore.Holds.getHistory h env.query
    by_cases hzero : historyTurnStartIndex history postRunKeepTurns ≤ 0
    · simp only [SoloInv, Compacting.summarizer, advance, hread, hzero, if_true]
      exact Or.inl h
    · simp only [SoloInv, Compacting.summarizer, advance, hread, hzero, if_false]
      exact ⟨h, trivial, trivial, Nat.pos_of_ne_zero fun heq => hzero (Nat.le_of_eq heq)⟩
  | getSummary h' splitIdx => exact h
  | chat h' splitIdx request =>
    obtain ⟨hholds, rfl, rfl, hpos⟩ := h
    simp only [SoloInv, Compacting.summarizer, advance]
    cases env.reply with
    | error err => exact Or.inl hholds
    | ok content =>
      by_cases hc : sanitize content = ""
      · simp only [hc, if_true]
        exact Or.inl hholds
      · simp only [hc, if_false]
        exact ⟨hholds, hpos, trivial⟩
  | setSummary keepLast cleaned =>
    obtain ⟨hholds, hrest⟩ := h
    exact ⟨holds_ifCached_same hholds fun _ => rfl, hrest⟩
  | truncateHistory keepLast =>
    obtain ⟨hholds, hpos, hkeep⟩ := h
    refine Or.inr ⟨hpos, ?_⟩
    rw [← keepLastMessages_drop history _ (historyTurnStartIndex_le _ _), ← hkeep]
    exact hholds.ifCached fun _ => rfl
  | incrementCompaction =>
    have hpast : Pc.past .incrementCompaction := trivial
    exact SoloInv.past hpast h sanitize env
  | setCompactedAt =>
    have hpast : Pc.past .setCompactedAt := trivial
    exact SoloInv.past hpast h sanitize env
  | save =>
    have hpast : Pc.past .save := trivial
    exact SoloInv.past hpast h sanitize env
  | done => exact h

variable (w key) in
/-- The check, and the flush turn, leave the history as it is. -/
theorem memoryFlush_holds (cfg : LoopConfig) (h : sys.store.Holds w key history) :
    (sys.memoryFlush cfg w key none).store.Holds w key history := by
  unfold Compacting.memoryFlush
  split
  · exact h
  · dsimp only
    split
    · exact h
    · apply holds_ifCached_same
      · show (sys.store.getHistory w key none).1.Holds w key history
        rw [h.getHistory]
        exact h
      · exact fun _ => rfl

/-- `maybeSummarize` starts the goroutine if the history is long, by its
messages or by its tokens. -/
theorem maybeSummarize_pc (cfg : LoopConfig) (h : sys.store.Holds w key history)
    (hpc : sys.pc = .done) :
    (sys.maybeSummarize cfg w key none none).store.Holds w key history
      ∧ (sys.maybeSummarize cfg w key none none).pc
        = if history.length ≤ 50 ∧ estimateTokensWithCalibration history
            (sys.store.getLastPromptTokens w key).1 (sys.store.getLastPromptTokens w key).2
              ≤ cfg.threshold then .done else .getHistory := by
  unfold Compacting.maybeSummarize
  rw [h.getHistory]
  dsimp only
  split
  · exact ⟨h, hpc⟩
  · rw [if_neg (fun hne => hne hpc)]
    exact ⟨memoryFlush_holds w key cfg h, rfl⟩

/-- Whatever is answeredRun, the history stays or is cut at the split. -/
theorem solo_history (cfg : LoopConfig) (sanitize : String → String) (w : WorkspaceID)
    (key : String) (s : MySQLSessionStore) (data : SessionData) (answers : List Answers) :
    (solo cfg sanitize w key s data answers).store.history w key = data.messages
      ∨ (0 < historyTurnStartIndex data.messages postRunKeepTurns
        ∧ (solo cfg sanitize w key s data answers).store.history w key
          = data.messages.drop (historyTurnStartIndex data.messages postRunKeepTurns)) := by
  apply SoloInv.outcome
  refine Lib.inv_run_of_step (SoloInv w key data.messages)
    (fun _ env h => h.summarizer sanitize env) answers _ ?_
  obtain ⟨hholds, hpc⟩ := maybeSummarize_pc cfg (idle_holds s w key data) rfl
  unfold SoloInv
  rw [hpc]
  split_ifs with hshort
  · exact Or.inl hholds
  · exact hholds

/-- Its steps, when they are all served. -/
theorem summarizer_cuts {content : String} (hcontent : sanitize content ≠ "")
    (hholds : sys.store.Holds w key history) (hpc : sys.pc = .getHistory)
    (hpos : 0 < historyTurnStartIndex history postRunKeepTurns) :
    ∃ answers, (Lib.run (fun sys env => sys.summarizer sanitize w key env) sys
        answers).store.history w key
      = history.drop (historyTurnStartIndex history postRunKeepTurns) := by
  obtain ⟨s, pc, captures, events⟩ := sys
  dsimp only at hholds hpc
  subst hpc
  have hread := hholds.getHistory none
  have hsummary : (s.setSummary w key (sanitize content)).Holds w key history :=
    holds_ifCached_same hholds fun _ => rfl
  refine ⟨List.replicate 5 { query := none, reply := .ok content, now := "", exec := none }, ?_⟩
  simp only [List.replicate, Lib.run_cons, Lib.run_nil, Compacting.summarizer, advance, hread,
    Nat.not_le.mpr hpos, hcontent, if_false]
  apply MySQLSessionStore.Holds.history
  rw [← keepLastMessages_drop history _ (historyTurnStartIndex_le _ _)]
  exact hsummary.ifCached fun _ => rfl

end

/-- A session whose last request was long. -/
def longSession (cfg : LoopConfig) (history : List Message) : SessionData :=
  { newSession "" "" with
    messages := history
    lastPromptTokens := cfg.threshold + 1
    lastMessageCount := 1 }

/-- A summary that is not empty gets it cut. -/
theorem solo_cuts (cfg : LoopConfig) {sanitize : String → String} {content : String}
    (hcontent : sanitize content ≠ "") (w : WorkspaceID) (key : String) (s : MySQLSessionStore)
    {history : List Message} (hpos : 0 < historyTurnStartIndex history postRunKeepTurns) :
    ∃ answers, (solo cfg sanitize w key s (longSession cfg history) answers).store.history w key
      = history.drop (historyTurnStartIndex history postRunKeepTurns) := by
  obtain ⟨hholds, hpc⟩ := maybeSummarize_pc cfg (idle_holds s w key (longSession cfg history)) rfl
  have hcount : (idle s w key (longSession cfg history)).store.getLastPromptTokens w key
      = ((cfg.threshold : Int) + 1, 1) := by
    simp [MySQLSessionStore.getLastPromptTokens, idle, longSession]
  rw [hcount, if_neg] at hpc
  · exact summarizer_cuts hcontent hholds hpc hpos
  · have hlen := historyTurnStartIndex_le history postRunKeepTurns
    rintro ⟨-, htokens⟩
    rw [estimateTokensWithCalibration, if_neg] at htokens
    · omega
    · show ¬ ((cfg.threshold : Int) + 1 ≤ 0 ∨ (1 : Int) ≤ 0 ∨ (1 : Int) > history.length)
      omega

/-! ## Whole turns -/

/-- What is left when the summarizer ran alone on a session of these
runs: all of it, or the messages of the last four runs, more than four
there were, from the message of the user of the first of them on. -/
def KeepsWholeTurns (cfg : LoopConfig) (sanitize : String → String) (runs : List RunMessages) :
    Prop :=
  ∀ (w : WorkspaceID) (key : String) (s : MySQLSessionStore) (data : SessionData),
    data.messages = historyOf runs → ∀ answers,
    let left := (solo cfg sanitize w key s data answers).store.history w key
    left = historyOf runs
      ∨ (4 < runs.length ∧ left = historyOf (lastRuns runs)
        ∧ left.head? = (lastRuns runs).head?.map fun run => textMessage .user run.message)

theorem earlierLength_le (runs : List RunMessages) :
    earlierLength runs ≤ (historyOf runs).length := by
  rw [historyOf_split runs (runs.length - 4), List.length_append, earlierLength]
  exact Nat.le_add_right _ _

theorem keepsWholeTurns_of_fit (cfg : LoopConfig) (sanitize : String → String)
    {runs : List RunMessages} (hfit : WarningsFit runs) : KeepsWholeTurns cfg sanitize runs := by
  intro w key s data hdata answers
  have hsplit := (split_eq_iff runs).mpr hfit
  rcases solo_history cfg sanitize w key s data answers with hsame | ⟨hpos, hcut⟩
  · exact Or.inl (hsame.trans hdata)
  · rw [hdata, hsplit, drop_earlier] at hcut
    rw [hdata, hsplit] at hpos
    have hlen : 4 < runs.length := by
      by_contra hfew
      have hnone : runs.length - 4 = 0 := by omega
      rw [earlierLength, hnone, List.take_zero] at hpos
      exact absurd hpos (Nat.lt_irrefl 0)
    refine Or.inr ⟨hlen, hcut, ?_⟩
    show ((solo cfg sanitize w key s data answers).store.history w key).head? = _
    rw [hcut]
    cases lastRuns runs <;> rfl

/-- Any other split is in the middle of a run, or leaves too little. -/
theorem fit_of_keepsWholeTurns {cfg : LoopConfig} {sanitize : String → String} {content : String}
    (hcontent : sanitize content ≠ "") {runs : List RunMessages}
    (h : KeepsWholeTurns cfg sanitize runs) : WarningsFit runs := by
  rw [← split_eq_iff]
  have hle := historyTurnStartIndex_le (historyOf runs) postRunKeepTurns
  have hearlier := earlierLength_le runs
  by_cases hzero : historyTurnStartIndex (historyOf runs) postRunKeepTurns = 0
  · -- no more than four user messages, so no earlier runs
    have hmore := (historyTurnStartIndex_spec (historyOf runs) (show 0 < 4 by decide)).2
    by_contra hne
    have hlen : 4 < runs.length := by
      by_contra hfew
      have hnone : runs.length - 4 = 0 := by omega
      rw [hzero, earlierLength, hnone, List.take_zero] at hne
      exact hne rfl
    have hcount := userCount_historyOf runs
    have hfour := (hmore (by omega)).2
    rw [show historyTurnStartIndex (historyOf runs) (4 : Nat) = 0 from hzero, List.drop_zero]
      at hfour
    omega
  · obtain ⟨answers, hcut⟩ := solo_cuts cfg hcontent defaultWorkspaceID ""
      (newMySQLSessionStore Lib.Table.empty) (Nat.pos_of_ne_zero hzero)
    have hlength := congrArg List.length hcut
    rw [List.length_drop] at hlength
    rcases h defaultWorkspaceID "" _ (longSession cfg (historyOf runs)) rfl answers with hall | ⟨-, hlast, -⟩
    · rw [hall] at hlength
      omega
    · rw [hlast, ← drop_earlier, List.length_drop] at hlength
      omega

def noMemory : LoopConfig := { hasMemory := false, memoryCaptureEveryTurns := 0, threshold := 150000 }

def answer : ChatResponse :=
  { content := "None.", toolCalls := [], finishReason := "stop", usage := none }

def answerTurn : Turn := { resp := .ok answer, compaction := none, forLLM := fun _ => "" }

/-- The model calls the same tool three times before it answers. -/
def stuckEnv : Nat → Turn
  | 0 => callTurn "c1"
  | 1 => callTurn "c2"
  | 2 => callTurn "c3"
  | _ => answerTurn
where
  callTurn (id : String) : Turn :=
    { resp := .ok
        { content := ""
          toolCalls := [{ id := id, name := "list_loans", arguments := { json := "\x7b\x7d" } }]
          finishReason := "tool_calls"
          usage := none }
      compaction := none
      forLLM := fun _ => "no loans" }

/-- A run that is answeredRun at once flushes the question and the answer. -/
theorem flushed_answer (l : Loop) (r : RunInput) (env : Nat → Turn) {resp : ChatResponse}
    (hresp : (env 0).resp = .ok resp) (hcalls : resp.toolCalls = []) :
    l.flushed (l.runLoop r env)
      = some [textMessage .user r.message, textMessage .assistant (l.finalContent resp.content)] := by
  have hended : ∀ (ts : List Turn) (st : LoopState), st.ended ≠ none →
      Lib.run l.iterate st ts = st := by
    intro ts
    induction ts with
    | nil => exact fun st _ => rfl
    | cons t ts ih =>
      intro st h
      rw [Lib.run_cons, iterate_ended h, ih st h]
  obtain ⟨n, hn⟩ := Nat.exists_eq_succ_of_ne_zero (Nat.pos_iff_ne_zero.mp l.iterates)
  have hfirst : l.iterate (l.start r) (env 0)
      = { l.compact (l.start r).send resp (env 0).compaction with
          ended := some (.ok resp.content) } := by
    rw [iterate_ok rfl hresp, Loop.act, if_pos hcalls]
  rw [Loop.runLoop, hn, turns_succ, Lib.run_cons, hfirst, hended _ _ (Option.some_ne_none _), Loop.flushed]
  dsimp only
  rw [(compact_frame l _ resp _).1]
  rfl

/-- Such a run. -/
def answeredRun : RunMessages :=
  { message := firstMessage.message
    rest := [textMessage .assistant (fourCallsLoop.finalContent answer.content)] }

def asked (history : List Message) : RunInput := { firstMessage with history := history }

def answerEnv : Nat → Turn := fun _ => answerTurn

theorem flushed_answeredRun (history : List Message) :
    fourCallsLoop.flushed (fourCallsLoop.runLoop (asked history) answerEnv)
      = some (textMessage .user (asked history).message :: answeredRun.rest) := by
  have hresp : (answerEnv 0).resp = .ok answer := rfl
  have hcalls : answer.toolCalls = [] := rfl
  exact flushed_answer fourCallsLoop (asked history) answerEnv hresp hcalls

theorem completed_answeredRun (n : Nat) : Completed fourCallsLoop (List.replicate n answeredRun) := by
  induction n with
  | zero => exact Completed.nil
  | succ n ih =>
    rw [List.replicate_succ']
    have hhistory : (asked (historyOf (List.replicate n answeredRun))).history
        = historyOf (List.replicate n answeredRun) := rfl
    exact Completed.run ih _ hhistory answerEnv answeredRun.rest (flushed_answeredRun _)

end LendingClaw.Agent
