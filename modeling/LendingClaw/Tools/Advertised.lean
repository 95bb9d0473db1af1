/-
LendingClaw.Tools.Advertised — the tools that a model is told about and
the tools that its calls reach (`ProviderDefs`, `List`, `Descriptions` and
`ExecuteWithContext` of `internal/tools/registry.go`).

The loop asks for the definitions at the start of an iteration and calls
the tools after the response; in between the registry may change for
other workspaces. The schema of the parameters is left out.
-/
import LendingClaw.Tools.IsolationTheorems
import Mathlib.Data.List.Nodup

namespace LendingClaw.Tools

open Store (WorkspaceID defaultWorkspaceID)

/-! ## The definitions -/

/-- `providers.ToolDefinition`, less the schema. -/
structure ToolDefinition where
  type : String
  name : String
  description : String
  deriving DecidableEq

/-- `ToProviderDef`. -/
def toProviderDef (t : Tool) : ToolDefinition :=
  { type := "function", name := t.name, description := t.description }

/-- `Registry.ProviderDefs`. -/
def Registry.providerDefs (r : Registry) (workspaceID : String) : List ToolDefinition :=
  (r.entries.entries.filter fun p => p.2.visible workspaceID).map fun p => toProviderDef p.2.tool

/-- `Registry.List`. -/
def Registry.list (r : Registry) (workspaceID : String) : List String :=
  (r.entries.entries.filter fun p => p.2.visible workspaceID).map fun p => p.2.tool.name

/-- `Registry.Descriptions`. -/
def Registry.descriptions (r : Registry) (workspaceID : String) : AList (fun _ : String => String) :=
  (r.entries.entries.filter fun p => p.2.visible workspaceID).foldl
    (fun descs p => descs.insert p.2.tool.name p.2.tool.description) ∅

theorem Registry.providerDefs_eq (r : Registry) (w : String) :
    r.providerDefs w = (r.allForWorkspace w).map toProviderDef := by
  rw [providerDefs, allForWorkspace, List.map_map]
  rfl

theorem Registry.list_eq (r : Registry) (w : String) :
    r.list w = (r.allForWorkspace w).map Tool.name := by
  rw [list, allForWorkspace, List.map_map]
  rfl

theorem lookup_foldl_descriptions (tools : List Tool) (hnames : (tools.map Tool.name).Nodup)
    (descs : AList (fun _ : String => String)) {t : Tool} (ht : t ∈ tools) :
    (tools.foldl (fun descs t => descs.insert t.name t.description) descs).lookup t.name
      = some t.description := by
  have hkept : ∀ (tools : List Tool) (descs : AList (fun _ : String => String)) (name : String),
      name ∉ tools.map Tool.name →
      (tools.foldl (fun descs t => descs.insert t.name t.description) descs).lookup name
        = descs.lookup name := by
    intro tools
    induction tools with
    | nil => intro descs name _; rfl
    | cons u tools ih =>
      intro descs name hname
      rw [List.map_cons, List.mem_cons, not_or] at hname
      rw [List.foldl_cons, ih _ _ hname.2, AList.lookup_insert_ne hname.1]
  induction tools generalizing descs with
  | nil => cases ht
  | cons u tools ih =>
    rw [List.map_cons, List.nodup_cons] at hnames
    rw [List.foldl_cons]
    rcases List.mem_cons.mp ht with rfl | ht
    · rw [hkept _ _ _ hnames.1, AList.lookup_insert]
    · exact ih hnames.2 _ ht

/-! ## Names and tools -/

section
variable {r : Registry} {w : WorkspaceID}

/-- A tool is filed once for a workspace. -/
theorem Registry.Sound.nodup_allForWorkspace (hr : r.Sound) : (r.allForWorkspace w.val).Nodup := by
  have hentries := List.NodupKeys.nodup r.entries.nodupKeys
  refine List.Nodup.map_on ?_ (hentries.filter _)
  intro p hp q hq htool
  obtain ⟨hp, hpv⟩ := List.mem_filter.mp hp
  obtain ⟨hq, hqv⟩ := List.mem_filter.mp hq
  have hpl := AList.mem_lookup_iff.mpr hp
  have hql := AList.mem_lookup_iff.mpr hq
  have hwhere : ∀ {w' : WorkspaceID} {rt : RemoteTool},
      (⟨.remote rt, w'.val⟩ : Entry).visible w.val = true → w'.val = w.val := by
    intro w' rt hv
    simpa [Entry.visible, w'.nonempty] using hv
  rcases p with ⟨kp, ep⟩
  rcases q with ⟨kq, eq⟩
  rcases hr.filed _ _ hpl with ⟨pt, rfl, rfl⟩ | ⟨wp, rt, rfl, rfl⟩
  · rcases hr.filed _ _ hql with ⟨qt, rfl, rfl⟩ | ⟨wq, rt', rfl, -⟩
    · obtain rfl := Tool.platform.inj htool
      rfl
    · cases htool
  · rcases hr.filed _ _ hql with ⟨qt, rfl, -⟩ | ⟨wq, rt', rfl, rfl⟩
    · cases htool
    · obtain rfl := Tool.remote.inj htool
      rw [hwhere hpv, hwhere hqv]

/-- No two definitions share a name. -/
theorem Registry.Sound.nodup_names (hr : r.Sound) :
    ((r.allForWorkspace w.val).map Tool.name).Nodup := by
  refine List.Nodup.map_on ?_ hr.nodup_allForWorkspace
  intro t ht u hu hname
  have htr := hr.visible_resolves w ht
  rw [hname, hr.visible_resolves w hu] at htr
  exact (Option.some.inj htr).symm

/-- A name that reaches a tool is the name of a visible one, or a storage
key. -/
theorem Registry.Sound.reached (hr : r.Sound) {name : String} {t : Tool}
    (h : r.getForWorkspace w.val name = some t) :
    (t ∈ r.allForWorkspace w.val ∧ t.name = name)
      ∨ ∃ (w' : WorkspaceID) (rt : RemoteTool), t = .remote rt
        ∧ name = regKey w'.val rt.toolName
        ∧ r.entries.lookup name = some ⟨.remote rt, w'.val⟩ := by
  unfold getForWorkspace at h
  cases hkey : r.entries.lookup (regKey w.val name) with
  | some e =>
    rw [hkey] at h
    obtain ⟨rt, rfl, hname⟩ := hr.at_regKey hkey
    obtain rfl := Option.some.inj h
    exact .inl ⟨mem_allForWorkspace.mpr ⟨_, _, hkey, by simp [Entry.visible], rfl⟩, hname⟩
  | none =>
    rw [hkey] at h
    obtain ⟨e, hl, rfl⟩ := Option.map_eq_some_iff.mp h
    rcases hr.filed _ _ hl with ⟨p, rfl, hname⟩ | ⟨w', rt, rfl, hname⟩
    · exact .inl ⟨mem_allForWorkspace.mpr ⟨_, _, hl, by simp [Entry.visible], rfl⟩, hname.symm⟩
    · exact .inr ⟨w', rt, rfl, hname, hl⟩

/-! ## Changes for other workspaces -/

/-- What the manager does for other workspaces between two moments. -/
inductive Registry.Elsewhere (w : WorkspaceID) : Registry → Registry → Prop where
  | refl (r : Registry) : Elsewhere w r r
  | remote {r r' : Registry} (w' : WorkspaceID) (rt : RemoteTool) (hw : w' ≠ w)
      (h : Elsewhere w r r') : Elsewhere w r (r'.registerForWorkspace w'.val (.remote rt))
  | drop {r r' : Registry} (w' : WorkspaceID) (name : String) (hw : w' ≠ w)
      (h : Elsewhere w r r') : Elsewhere w r (r'.unregisterForWorkspace w'.val name).1

/-- The entries that are no other workspace's stay. -/
theorem Registry.Elsewhere.lookup {r r' : Registry} (h : Elsewhere w r r') (key : String)
    (hkey : ∀ (w' : WorkspaceID) (n : String), w' ≠ w → key ≠ regKey w'.val n) :
    r'.entries.lookup key = r.entries.lookup key := by
  induction h with
  | refl => rfl
  | remote w' rt hw _ ih =>
    rw [lookup_registerForWorkspace, if_neg (hkey w' _ hw)]
    exact ih
  | drop w' name hw _ ih =>
    rw [lookup_unregisterForWorkspace, if_neg (hkey w' name hw)]
    exact ih

theorem regKey_ne {w' : WorkspaceID} (h : w' ≠ w) (n m : String) :
    regKey w.val n ≠ regKey w'.val m :=
  fun heq => h (regKey_inj heq).1.symm

/-- A visible tool is still what its name reaches. -/
theorem Registry.Sound.still_resolves (hr : r.Sound) {r' : Registry} (h : r.Elsewhere w r') {t : Tool}
    (ht : t ∈ r.allForWorkspace w.val) : r'.getForWorkspace w.val t.name = some t := by
  have hresolves := hr.visible_resolves w ht
  have hscoped := h.lookup (regKey w.val t.name) fun w' n hw => regKey_ne hw _ _
  unfold getForWorkspace at hresolves ⊢
  rw [hscoped]
  cases hkey : r.entries.lookup (regKey w.val t.name) with
  | some e =>
    rw [hkey] at hresolves
    exact hresolves
  | none =>
    rw [hkey] at hresolves
    obtain ⟨e, hl, he⟩ := Option.map_eq_some_iff.mp hresolves
    have hglobal : r'.entries.lookup t.name = r.entries.lookup t.name := by
      refine h.lookup _ fun w' n hw heq => ?_
      rcases hr.filed _ _ hl with ⟨p, rfl, hname⟩ | ⟨w'', rt, rfl, hname⟩
      · exact regKey_ne_of_noNul w' n p.noNul (heq.symm.trans hname)
      · -- a remote tool that is reached by its bare name is filed for the workspace
        obtain ⟨k, e', hl', hv, htool⟩ := mem_allForWorkspace.mp ht
        subst he
        rcases hr.filed k e' hl' with ⟨p, rfl, -⟩ | ⟨w₀, rt', rfl, rfl⟩
        · cases htool
        · have hww : w₀.val = w.val := by simpa [Entry.visible, w₀.nonempty] using hv
          obtain rfl := Tool.remote.inj htool
          rw [hww] at hl'
          rw [show (Tool.remote rt').name = rt'.toolName from rfl] at hkey
          rw [hl'] at hkey
          cases hkey
    rw [hglobal, hl]
    exact congrArg some he

end

/-! ## Definitions and calls -/

section
variable {Args : Type} {exec : Tool → Args → Result} {scrub : String → String} {r : Registry}
  {w : WorkspaceID}

/-- A call of the name runs the tool, or is refused for want of the
permission. -/
def Reaches (exec : Tool → Args → Result) (scrub : String → String) (r : Registry)
    (ctx : Context) (t : Tool) : Prop :=
  ∀ args, if ∀ allowed, ctx.allowedTools = some allowed → permissionKeyOf t ∈ allowed then
    (r.executeWithContext exec scrub ctx t.name args).executed = some t
  else r.executeWithContext exec scrub ctx t.name args = permissionDenied t.name

theorem reaches_of_resolves {ctx : Context} {t : Tool}
    (ht : r.getForWorkspace ctx.workspace t.name = some t) : Reaches exec scrub r ctx t := by
  intro args
  cases hc : ctx.allowedTools with
  | none =>
    rw [if_pos fun _ h => by cases h]
    exact Registry.execute_unrestricted ht hc
  | some allowed =>
    by_cases hk : permissionKeyOf t ∈ allowed
    · rw [if_pos fun _ h => Option.some.inj h ▸ hk]
      exact Registry.execute_allowed ht hc hk
    · rw [if_neg fun h => hk (h allowed rfl)]
      exact Registry.execute_denied ht hc hk

/-- The definitions sent for a workspace and the calls that follow. -/
structure Advertised (exec : Tool → Args → Result) (scrub : String → String) (r : Registry)
    (w : WorkspaceID) : Prop where
  /-- No name is sent twice, and `List` gives the same names. -/
  distinct : (r.list w.val).Nodup
  listed : r.list w.val = (r.providerDefs w.val).map ToolDefinition.name
  /-- `Descriptions` has the descriptions that were sent. -/
  described : ∀ d ∈ r.providerDefs w.val,
    (r.descriptions w.val).lookup d.name = some d.description
  /-- Whatever happens in other workspaces, a name that was sent reaches
  the tool it was sent for. -/
  reached : ∀ r', r.Elsewhere w r' → ∀ ctx, ctx.workspace = w.val →
    ∀ d ∈ r.providerDefs w.val, ∃ t ∈ r.allForWorkspace w.val,
      d = toProviderDef t ∧ Reaches exec scrub r' ctx t
  /-- A tool that runs was sent under its name, or the name is a storage
  key. -/
  ran : ∀ ctx, ctx.workspace = w.val → ∀ name args t,
    (r.executeWithContext exec scrub ctx name args).executed = some t →
      (t ∈ r.allForWorkspace w.val ∧ t.name = name)
        ∨ ∃ (w' : WorkspaceID) (rt : RemoteTool), t = .remote rt
          ∧ name = regKey w'.val rt.toolName
          ∧ r.entries.lookup name = some ⟨.remote rt, w'.val⟩

theorem Registry.Sound.advertised (hr : r.Sound) : Advertised exec scrub r w where
  distinct := by
    rw [Registry.list_eq]
    exact hr.nodup_names
  listed := by
    rw [Registry.list_eq, Registry.providerDefs_eq, List.map_map]
    rfl
  described := by
    intro d hd
    rw [Registry.providerDefs_eq] at hd
    obtain ⟨t, ht, rfl⟩ := List.mem_map.mp hd
    have h := lookup_foldl_descriptions _ hr.nodup_names ∅ ht
    rw [allForWorkspace, List.foldl_map] at h
    exact h
  reached := by
    intro r' h ctx hctx d hd
    rw [Registry.providerDefs_eq] at hd
    obtain ⟨t, ht, rfl⟩ := List.mem_map.mp hd
    refine ⟨t, ht, rfl, reaches_of_resolves ?_⟩
    rw [hctx]
    exact hr.still_resolves h ht
  ran := by
    intro ctx hctx name args t h
    have hresolves := Registry.executed_resolves h
    rw [hctx] at hresolves
    exact hr.reached hresolves

end

/-- In a registry that a process builds, the definitions a model is sent
name every tool of the workspace once, and its calls reach them and
nothing else but storage keys. -/
theorem advertised_reached {Args : Type} (exec : Tool → Args → Result) (scrub : String → String)
    (r : Registry) (hr : r.Built) (w : WorkspaceID) : Advertised exec scrub r w :=
  hr.sound.advertised

/-- A platform tool, and two workspaces that each have a remote tool of
one name. -/
def lendingTools : Registry :=
  ((platformRegistry [⟨"read_file", "Read a file", by decide⟩] true).registerForWorkspace
    defaultWorkspaceID.val (.remote ⟨"jira", 1, "search", "Search issues"⟩)).registerForWorkspace
    "w2" (.remote ⟨"wiki", 2, "search", "Search pages"⟩)

theorem lendingTools_built : lendingTools.Built :=
  .remote ⟨"w2", by decide, by decide, by decide⟩ _
    (.remote defaultWorkspaceID _ (.platform _ _) (by decide +kernel)) (by decide +kernel)

theorem advertised_reached_lendingTools :
    lendingTools.Built
      ∧ lendingTools.providerDefs defaultWorkspaceID.val
        = [⟨"function", "search", "Search issues"⟩, ⟨"function", "read_file", "Read a file"⟩]
      ∧ Advertised (fun _ (_ : Unit) => newResult "ok") id lendingTools defaultWorkspaceID :=
  ⟨lendingTools_built, by decide +kernel,
    advertised_reached _ _ lendingTools lendingTools_built defaultWorkspaceID⟩

end LendingClaw.Tools
