/-
LendingClaw.Tools.Registry — the tool registry (`internal/tools/registry.go`).

One string-keyed map holds platform tools under their bare name and MCP
tools under `regKey workspace name`. `getForWorkspace` looks a name up
in the workspace first and falls back to the bare name;
`executeWithContext` is the RBAC check, the call and the scrubbing.

The tool bodies and the credential scrubber are parameters (`exec`,
`scrub`): what the registry decides is which tool runs and whether one
runs at all, and that is recorded in `Call`.
-/
import LendingClaw.Tools.Types
import Mathlib.Data.List.AList

namespace LendingClaw.Tools

/-- A registered tool and its owning workspace; a blank workspace is a
global (platform) entry, visible everywhere. -/
structure Entry where
  tool : Tool
  workspace : String
  deriving DecidableEq

/-- `entry.visible`. -/
def Entry.visible (e : Entry) (workspaceID : String) : Bool :=
  e.workspace == "" || e.workspace == workspaceID

structure Registry where
  entries : AList (fun _ : String => Entry)
  scrubbing : Bool

/-- The storage key of a (workspace, tool name) pair. -/
def regKey (workspace name : String) : String :=
  if workspace = "" then name else "ws\x00" ++ Lib.nulKey workspace name

/-- `NewRegistry`. -/
def newRegistry : Registry := { entries := ∅, scrubbing := true }

/-- `Registry.Register`. -/
def Registry.register (r : Registry) (tool : Tool) : Registry :=
  { r with entries := r.entries.insert tool.name { tool := tool, workspace := "" } }

/-- `Registry.RegisterForWorkspace`. -/
def Registry.registerForWorkspace (r : Registry) (workspaceID : String) (tool : Tool) :
    Registry :=
  { r with
    entries := r.entries.insert (regKey workspaceID tool.name)
      { tool := tool, workspace := workspaceID } }

/-- `Registry.Unregister`; the Boolean is its result. -/
def Registry.unregister (r : Registry) (name : String) : Registry × Bool :=
  match r.entries.lookup name with
  | none => (r, false)
  | some _ => ({ r with entries := r.entries.erase name }, true)

/-- `Registry.UnregisterForWorkspace`; the Boolean is its result. -/
def Registry.unregisterForWorkspace (r : Registry) (workspaceID name : String) :
    Registry × Bool :=
  match r.entries.lookup (regKey workspaceID name) with
  | none => (r, false)
  | some _ => ({ r with entries := r.entries.erase (regKey workspaceID name) }, true)

/-- `Registry.AllForWorkspace`. -/
def Registry.allForWorkspace (r : Registry) (workspaceID : String) : List Tool :=
  (r.entries.entries.filter (fun p => p.2.visible workspaceID)).map (fun p => p.2.tool)

/-- `Registry.GetForWorkspace`. -/
def Registry.getForWorkspace (r : Registry) (workspaceID name : String) : Option Tool :=
  match r.entries.lookup (regKey workspaceID name) with
  | some e => some e.tool
  | none => (r.entries.lookup name).map (fun e => e.tool)

/-! ## Execution -/

/-- The loop's linear search through the allowed list. -/
def isAllowed (name : String) (allowed : List String) : Bool :=
  allowed.any (fun a => a == name)

/-- What one call did: the tool whose `Execute` ran, if any, and the
result handed back to the agent loop. -/
structure Call where
  executed : Option Tool
  result : Result
  deriving DecidableEq

/-- The answer for a name no tool has. -/
def unknownTool (name : String) : Call :=
  { executed := none, result := errorResult ("unknown tool: " ++ name) }

/-- The answer of the RBAC check. -/
def permissionDenied (name : String) : Call :=
  { executed := none
    result := errorResult ("permission denied: current user can not use tool " ++ name
      ++ ". Please contact admin to get access.") }

/-- The scrubbing of a result, an empty text left alone. -/
def scrubResult (scrub : String → String) (res : Result) : Result :=
  { res with
    forLLM := if res.forLLM = "" then "" else scrub res.forLLM
    forUser := if res.forUser = "" then "" else scrub res.forUser }

/-- `Registry.ExecuteWithContext`. The nil allowed list skips the check. -/
def Registry.executeWithContext {Args : Type} (exec : Tool → Args → Result)
    (scrub : String → String) (r : Registry) (ctx : Context) (name : String) (args : Args) :
    Call :=
  match r.getForWorkspace ctx.workspace name with
  | none => unknownTool name
  | some tool =>
    let denied := match ctx.allowedTools with
      | none => false
      | some allowed => !isAllowed (permissionKeyOf tool) allowed
    if denied then permissionDenied name
    else
      let result := exec tool args
      { executed := some tool
        result := if r.scrubbing then scrubResult scrub result else result }

theorem isAllowed_iff {name : String} {allowed : List String} :
    isAllowed name allowed = true ↔ name ∈ allowed := by
  simp [isAllowed]

/-- With no allowed list, the tool the name resolves to is called. -/
theorem Registry.execute_unrestricted {Args : Type} {exec : Tool → Args → Result}
    {scrub : String → String} {r : Registry} {ctx : Context} {name : String} {args : Args}
    {t : Tool} (ht : r.getForWorkspace ctx.workspace name = some t)
    (hc : ctx.allowedTools = none) :
    (r.executeWithContext exec scrub ctx name args).executed = some t := by
  simp [executeWithContext, ht, hc]

/-- With an allowed list, the tool is called when its key is listed. -/
theorem Registry.execute_allowed {Args : Type} {exec : Tool → Args → Result}
    {scrub : String → String} {r : Registry} {ctx : Context} {name : String} {args : Args}
    {t : Tool} {allowed : List String}
    (ht : r.getForWorkspace ctx.workspace name = some t)
    (hc : ctx.allowedTools = some allowed) (hk : permissionKeyOf t ∈ allowed) :
    (r.executeWithContext exec scrub ctx name args).executed = some t := by
  have hall : isAllowed (permissionKeyOf t) allowed = true := isAllowed_iff.mpr hk
  simp [executeWithContext, ht, hc, hall]

/-- With an allowed list that omits the key, the call is refused. -/
theorem Registry.execute_denied {Args : Type} {exec : Tool → Args → Result}
    {scrub : String → String} {r : Registry} {ctx : Context} {name : String} {args : Args}
    {t : Tool} {allowed : List String}
    (ht : r.getForWorkspace ctx.workspace name = some t)
    (hc : ctx.allowedTools = some allowed) (hk : permissionKeyOf t ∉ allowed) :
    r.executeWithContext exec scrub ctx name args = permissionDenied name := by
  have hall : isAllowed (permissionKeyOf t) allowed = false := by
    rw [← Bool.not_eq_true, isAllowed_iff]
    exact hk
  simp [executeWithContext, ht, hc, hall]

/-! ## Keys -/

theorem regKey_ws (w : Store.WorkspaceID) (name : String) :
    regKey w.val name = "ws\x00" ++ Lib.nulKey w.val name := by
  rw [regKey, if_neg w.nonempty]

theorem regKey_toList (w : Store.WorkspaceID) (name : String) :
    (regKey w.val name).toList = "ws\x00".toList ++ (Lib.nulKey w.val name).toList := by
  rw [regKey_ws, String.toList_append]

/-- A workspace key determines its workspace and its tool name. -/
theorem regKey_inj {w w' : Store.WorkspaceID} {n n' : String}
    (h : regKey w.val n = regKey w'.val n') : w = w' ∧ n = n' := by
  have h' := congrArg String.toList h
  rw [regKey_toList, regKey_toList, List.append_right_inj] at h'
  exact Store.WorkspaceID.nulKey_inj (String.toList_inj.mp h')

/-- A workspace key is no platform tool's name. -/
theorem regKey_ne_of_noNul (w : Store.WorkspaceID) (n : String) {name : String}
    (h : '\x00' ∉ name.toList) : regKey w.val n ≠ name := by
  intro he
  apply h
  rw [← he, regKey_toList]
  simp

/-! ## What each operation leaves in the map -/

@[simp] theorem Registry.lookup_register (r : Registry) (t : Tool) (k : String) :
    (r.register t).entries.lookup k
      = if k = t.name then some { tool := t, workspace := "" } else r.entries.lookup k := by
  by_cases h : k = t.name
  · subst h
    simp [register, AList.lookup_insert]
  · simp [register, h, AList.lookup_insert_ne h]

@[simp] theorem Registry.lookup_registerForWorkspace (r : Registry) (w : String) (t : Tool)
    (k : String) :
    (r.registerForWorkspace w t).entries.lookup k
      = if k = regKey w t.name then some { tool := t, workspace := w }
        else r.entries.lookup k := by
  by_cases h : k = regKey w t.name
  · subst h
    simp [registerForWorkspace, AList.lookup_insert]
  · simp [registerForWorkspace, h, AList.lookup_insert_ne h]

@[simp] theorem Registry.lookup_unregisterForWorkspace (r : Registry) (w name k : String) :
    (r.unregisterForWorkspace w name).1.entries.lookup k
      = if k = regKey w name then none else r.entries.lookup k := by
  unfold unregisterForWorkspace
  by_cases h : k = regKey w name
  · subst h
    cases hl : r.entries.lookup (regKey w name) with
    | none => simp [hl]
    | some e => simp [AList.lookup_erase]
  · cases hl : r.entries.lookup (regKey w name) with
    | none => simp [h]
    | some e => simp [h, AList.lookup_erase_ne h]

theorem Registry.mem_allForWorkspace {r : Registry} {w : String} {t : Tool} :
    t ∈ r.allForWorkspace w ↔
      ∃ k e, r.entries.lookup k = some e ∧ e.visible w = true ∧ e.tool = t := by
  simp only [allForWorkspace, List.mem_map, List.mem_filter]
  constructor
  · rintro ⟨⟨k, e⟩, ⟨hmem, hv⟩, ht⟩
    exact ⟨k, e, AList.mem_lookup_iff.mpr hmem, hv, ht⟩
  · rintro ⟨k, e, hl, hv, ht⟩
    exact ⟨⟨k, e⟩, ⟨AList.mem_lookup_iff.mp hl, hv⟩, ht⟩

/-! ## The registries a process builds

`cmd/wire.go` registers the platform tools before the MCP manager
exists; from then on the only writers are the manager's `tryRegister`,
which refuses a name that resolves to a platform tool, and its
`UnregisterForWorkspace` calls. -/

/-- The check of `Manager.tryRegister`: the name does not resolve to a
tool that is not a `RemoteTool`. -/
def Registry.freeForRemote (r : Registry) (workspaceID name : String) : Bool :=
  match r.getForWorkspace workspaceID name with
  | some existing => existing.isRemote
  | none => true

/-- The registry `cmd/wire.go` fills before any MCP server is loaded. -/
def platformRegistry (ts : List PlatformTool) (scrubbing : Bool) : Registry :=
  { ts.foldl (fun r t => r.register (.platform t)) newRegistry with
    scrubbing := scrubbing }

/-- The registries reachable in a running process. -/
inductive Registry.Built : Registry → Prop where
  | platform (ts : List PlatformTool) (scrubbing : Bool) :
      Built (platformRegistry ts scrubbing)
  | remote {r : Registry} (w : Store.WorkspaceID) (rt : RemoteTool) (h : Built r)
      (free : r.freeForRemote w.val rt.toolName = true) :
      Built (r.registerForWorkspace w.val (.remote rt))
  | drop {r : Registry} (w : Store.WorkspaceID) (name : String) (h : Built r) :
      Built (r.unregisterForWorkspace w.val name).1

/-- What every such registry satisfies: an entry is filed under its own
key, global entries are platform tools and scoped entries remote ones,
and no remote tool shares its name with a platform tool. -/
structure Registry.Sound (r : Registry) : Prop where
  filed : ∀ k e, r.entries.lookup k = some e →
    (∃ p : PlatformTool, e = ⟨.platform p, ""⟩ ∧ k = p.name)
      ∨ ∃ (w : Store.WorkspaceID) (rt : RemoteTool),
          e = ⟨.remote rt, w.val⟩ ∧ k = regKey w.val rt.toolName
  noShadow : ∀ (w : Store.WorkspaceID) (rt : RemoteTool) (p : PlatformTool),
    r.entries.lookup (regKey w.val rt.toolName) = some ⟨.remote rt, w.val⟩ →
    r.entries.lookup rt.toolName ≠ some ⟨.platform p, ""⟩

/-- Whatever is filed under a workspace key is a remote tool of that
workspace and of that name. -/
theorem Registry.Sound.at_regKey {r : Registry} (hr : r.Sound) {w : Store.WorkspaceID}
    {n : String} {e : Entry} (h : r.entries.lookup (regKey w.val n) = some e) :
    ∃ rt : RemoteTool, e = ⟨.remote rt, w.val⟩ ∧ rt.toolName = n := by
  rcases hr.filed _ _ h with ⟨p, -, hk⟩ | ⟨w', rt, rfl, hk⟩
  · exact absurd hk (regKey_ne_of_noNul w n p.noNul)
  · obtain ⟨rfl, rfl⟩ := regKey_inj hk
    exact ⟨rt, rfl, rfl⟩

/-- Every entry is a platform tool's. -/
def Registry.PlatformOnly (r : Registry) : Prop :=
  ∀ k e, r.entries.lookup k = some e → ∃ p : PlatformTool, e = ⟨.platform p, ""⟩ ∧ k = p.name

theorem Registry.platformOnly_register {r : Registry} (hr : r.PlatformOnly)
    (t : PlatformTool) : (r.register (.platform t)).PlatformOnly := by
  intro k e h
  rw [lookup_register] at h
  split at h
  · rename_i hk
    cases h
    exact ⟨t, rfl, hk⟩
  · exact hr k e h

theorem Registry.platformOnly_registers :
    ∀ (ts : List PlatformTool) (r : Registry), r.PlatformOnly →
      (ts.foldl (fun r t => r.register (.platform t)) r).PlatformOnly
  | [], _, h => h
  | t :: ts, _, h => platformOnly_registers ts _ (platformOnly_register h t)

theorem platformRegistry_platformOnly (ts : List PlatformTool) (scrubbing : Bool) :
    (platformRegistry ts scrubbing).PlatformOnly := by
  have hempty : newRegistry.PlatformOnly := fun k e h => by simp [newRegistry] at h
  exact Registry.platformOnly_registers ts newRegistry hempty

theorem Registry.PlatformOnly.sound {r : Registry} (hr : r.PlatformOnly) : r.Sound := by
  refine ⟨fun k e h => Or.inl (hr k e h), fun w rt p h => ?_⟩
  obtain ⟨q, he, -⟩ := hr _ _ h
  cases he

theorem Registry.sound_remote {r : Registry} (hr : r.Sound) (w : Store.WorkspaceID)
    (rt : RemoteTool) (free : r.freeForRemote w.val rt.toolName = true) :
    (r.registerForWorkspace w.val (.remote rt)).Sound := by
  -- the only platform tool that could be shadowed is the one `free` looked for
  have hno : ∀ p : PlatformTool, r.entries.lookup rt.toolName ≠ some ⟨.platform p, ""⟩ := by
    intro p hl
    unfold freeForRemote getForWorkspace at free
    cases hk : r.entries.lookup (regKey w.val rt.toolName) with
    | none => simp [hk, hl, Tool.isRemote] at free
    | some e =>
      obtain ⟨rt', rfl, hn⟩ := hr.at_regKey hk
      exact hr.noShadow w rt' p (by rw [hn]; exact hk) (by rw [hn]; exact hl)
  constructor
  · intro k e h
    rw [lookup_registerForWorkspace] at h
    split at h
    · rename_i hk
      cases h
      exact Or.inr ⟨w, rt, rfl, hk⟩
    · exact hr.filed k e h
  · intro w' rt' p h hl
    have hname : ∀ q : PlatformTool, q.name ≠ regKey w.val rt.toolName :=
      fun q hq => regKey_ne_of_noNul w _ q.noNul hq.symm
    rw [lookup_registerForWorkspace] at h hl
    split at hl
    · cases hl
    · split at h
      · rename_i hk
        obtain ⟨-, hn⟩ := regKey_inj hk
        change rt'.toolName = rt.toolName at hn
        rw [hn] at hl
        exact hno p hl
      · exact hr.noShadow w' rt' p h hl

theorem Registry.sound_drop {r : Registry} (hr : r.Sound) (w : Store.WorkspaceID)
    (name : String) : (r.unregisterForWorkspace w.val name).1.Sound := by
  have hsub : ∀ k e, (r.unregisterForWorkspace w.val name).1.entries.lookup k = some e →
      r.entries.lookup k = some e := by
    intro k e h
    rw [lookup_unregisterForWorkspace] at h
    split at h
    · cases h
    · exact h
  exact ⟨fun k e h => hr.filed k e (hsub k e h),
    fun w' rt p h hl => hr.noShadow w' rt p (hsub _ _ h) (hsub _ _ hl)⟩

theorem Registry.Built.sound {r : Registry} (h : r.Built) : r.Sound := by
  induction h with
  | platform ts scrubbing => exact (platformRegistry_platformOnly ts scrubbing).sound
  | remote w rt _ free ih => exact sound_remote ih w rt free
  | drop w name _ ih => exact sound_drop ih w name

/-- In a process's registry every tool visible in a workspace is the one
its name resolves to there. -/
theorem Registry.Sound.visible_resolves {r : Registry} (hr : r.Sound) (w : Store.WorkspaceID)
    {t : Tool} (ht : t ∈ r.allForWorkspace w.val) :
    r.getForWorkspace w.val t.name = some t := by
  obtain ⟨k, e, hl, hv, rfl⟩ := mem_allForWorkspace.mp ht
  unfold getForWorkspace
  rcases hr.filed k e hl with ⟨p, rfl, rfl⟩ | ⟨w', rt, rfl, rfl⟩
  · cases hk : r.entries.lookup (regKey w.val p.name) with
    | none => simp [Tool.name, hk, hl]
    | some e' =>
      obtain ⟨rt, rfl, hn⟩ := hr.at_regKey hk
      exact absurd (by rw [hn]; exact hl)
        (hr.noShadow w rt p (by rw [hn]; exact hk))
  · have hww : w'.val = w.val := by simpa [Entry.visible, w'.nonempty] using hv
    rw [hww] at hl
    simp [Tool.name, hl]

/-! ## What a workspace owns -/

/-- The tools filed for one workspace, platform tools not among them. -/
def Registry.scopedTools (r : Registry) (w : Store.WorkspaceID) : List Tool :=
  (r.entries.entries.filter (fun p => p.2.workspace == w.val)).map (fun p => p.2.tool)

/-- A platform tool has the name. -/
def Registry.platformOwned (r : Registry) (name : String) : Bool :=
  match r.entries.lookup name with
  | some ⟨.platform _, _⟩ => true
  | _ => false

theorem Registry.Sound.mem_scopedTools {r : Registry} (hr : r.Sound) {w : Store.WorkspaceID}
    {t : Tool} :
    t ∈ r.scopedTools w ↔ r.entries.lookup (regKey w.val t.name) = some ⟨t, w.val⟩ := by
  simp only [scopedTools, List.mem_map, List.mem_filter, beq_iff_eq]
  constructor
  · rintro ⟨⟨k, e⟩, ⟨hmem, hw⟩, rfl⟩
    have hl := AList.mem_lookup_iff.mpr hmem
    rcases hr.filed k e hl with ⟨p, rfl, -⟩ | ⟨w', rt, rfl, rfl⟩
    · exact absurd hw.symm w.nonempty
    · change w'.val = w.val at hw
      rw [hw] at hl
      exact hl
  · intro hl
    exact ⟨⟨_, _⟩, ⟨AList.mem_lookup_iff.mp hl, rfl⟩, rfl⟩

/-- The manager's check is the absence of a platform tool of that name. -/
theorem Registry.Sound.freeForRemote_iff {r : Registry} (hr : r.Sound)
    (w : Store.WorkspaceID) (name : String) :
    r.freeForRemote w.val name = true ↔ r.platformOwned name = false := by
  unfold freeForRemote getForWorkspace platformOwned
  cases hk : r.entries.lookup (regKey w.val name) with
  | some e =>
    obtain ⟨rt, rfl, rfl⟩ := hr.at_regKey hk
    refine iff_of_true rfl ?_
    cases hl : r.entries.lookup rt.toolName with
    | none => rfl
    | some e =>
      rcases hr.filed _ e hl with ⟨p, rfl, -⟩ | ⟨w', rt', rfl, -⟩
      · exact absurd hl (hr.noShadow w rt p hk)
      · rfl
  | none =>
    cases hl : r.entries.lookup name with
    | none => simp
    | some e =>
      rcases hr.filed _ e hl with ⟨p, rfl, -⟩ | ⟨w', rt', rfl, -⟩ <;> simp [Tool.isRemote]

/-- A platform tool's name has nothing filed under a workspace. -/
theorem Registry.Sound.lookup_platformOwned {r : Registry} (hr : r.Sound)
    (w : Store.WorkspaceID) {name : String} (h : r.platformOwned name = true) :
    r.entries.lookup (regKey w.val name) = none := by
  cases hk : r.entries.lookup (regKey w.val name) with
  | none => rfl
  | some e =>
    obtain ⟨rt, rfl, rfl⟩ := hr.at_regKey hk
    unfold platformOwned at h
    split at h
    · rename_i p ws hl
      rcases hr.filed _ _ hl with ⟨p', he, -⟩ | ⟨w', rt', he, -⟩
      · cases he
        exact absurd hl (hr.noShadow w rt p hk)
      · cases he
    · cases h

/-- No platform tool is filed under a workspace key. -/
theorem Registry.Sound.platformOwned_regKey {r : Registry} (hr : r.Sound)
    (w : Store.WorkspaceID) (n : String) : r.platformOwned (regKey w.val n) = false := by
  unfold platformOwned
  cases hl : r.entries.lookup (regKey w.val n) with
  | none => rfl
  | some e =>
    obtain ⟨rt, rfl, -⟩ := hr.at_regKey hl
    rfl

/-- Workspace registrations do not touch what platform tools own. -/
theorem Registry.Sound.platformOwned_remote {r : Registry} (hr : r.Sound)
    (w : Store.WorkspaceID) (rt : RemoteTool) (name : String) :
    (r.registerForWorkspace w.val (.remote rt)).platformOwned name = r.platformOwned name := by
  by_cases hk : name = regKey w.val rt.toolName
  · rw [hk, hr.platformOwned_regKey]
    simp [platformOwned, Tool.name]
  · have hk' : ¬ name = regKey w.val (Tool.remote rt).name := hk
    simp [platformOwned, hk']

theorem Registry.Sound.platformOwned_drop {r : Registry} (hr : r.Sound)
    (w : Store.WorkspaceID) (n name : String) :
    (r.unregisterForWorkspace w.val n).1.platformOwned name = r.platformOwned name := by
  by_cases hk : name = regKey w.val n
  · rw [hk, hr.platformOwned_regKey]
    simp [platformOwned]
  · simp [platformOwned, hk]

end LendingClaw.Tools
