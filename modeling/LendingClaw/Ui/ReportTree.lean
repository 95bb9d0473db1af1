/-
LendingClaw.Ui.ReportTree — reports in the tree dialect: the table that
the parser makes of a tree is that tree.

Each accepted node gets an id of its own, the root apart the next number,
so the loop only appends entries. `Grown` says what a run of the loop
appends; it is composed along the children and closed by the node.
-/
import LendingClaw.Ui.ReportTable
import Mathlib.Data.List.Perm.Basic

namespace LendingClaw.Ui

open LendingClaw.Lib

/-! ## Ids -/

theorem nodeId_inj {i j : Nat} (h : nodeId i = nodeId j) : i = j := by
  have htext : toString i = toString j := (String.append_right_inj "node_").mp h
  rw [Nat.toString_eq_ofList_toDigits, Nat.toString_eq_ofList_toDigits] at htext
  have hdigits : Nat.toDigits 10 i = Nat.toDigits 10 j := String.ofList_injective htext
  rw [← Nat.ofDigitChars_ten_toDigits (n := i), hdigits, Nat.ofDigitChars_ten_toDigits]

theorem nodeId_head (n : Nat) : (nodeId n).toList.head? = some 'n' := by
  unfold nodeId
  rw [String.toList_append]
  rfl

theorem nodeId_ne_proto (n : Nat) : nodeId n ≠ "__proto__" := by
  intro h
  have hhead := nodeId_head n
  rw [h] at hhead
  exact absurd hhead (by decide)

theorem nodeId_ne_root (n : Nat) : nodeId n ≠ "root" := by
  intro h
  have hhead := nodeId_head n
  rw [h] at hhead
  exact absurd hhead (by decide)

/-- The ids of the numbers from `a` to `b`, the first one left out. -/
def ids (a b : Nat) : List String := (List.range' (a + 1) (b - a)).map nodeId

theorem mem_ids {a b : Nat} {id : String} : id ∈ ids a b ↔ ∃ k, a < k ∧ k ≤ b ∧ id = nodeId k := by
  unfold ids
  rw [List.mem_map]
  constructor
  · intro h
    obtain ⟨k, hk, rfl⟩ := h
    have hrange := List.mem_range'_1.mp hk
    exact ⟨k, by omega, by omega, rfl⟩
  · intro h
    obtain ⟨k, hlt, hle, rfl⟩ := h
    exact ⟨k, List.mem_range'_1.mpr (by omega), rfl⟩

theorem nodup_ids (a b : Nat) : (ids a b).Nodup :=
  List.Nodup.map (fun _ _ h => nodeId_inj h) List.nodup_range'

theorem ids_append {a b c : Nat} (hab : a ≤ b) (hbc : b ≤ c) : ids a b ++ ids b c = ids a c := by
  unfold ids
  rw [← List.map_append]
  have hstart : b + 1 = a + 1 + 1 * (b - a) := by omega
  have hlen : c - a = b - a + (c - b) := by omega
  rw [hstart, hlen, List.range'_append]

theorem ids_succ (a : Nat) : ids a (a + 1) = [nodeId (a + 1)] := by
  unfold ids
  rw [Nat.add_sub_cancel_left]
  rfl

/-! ## Walks -/

/-- The ids on all the ways down from an id, `n` levels deep. -/
def walk (own : List (String × ReportElement)) : Nat → String → List String
  | 0, _ => []
  | n + 1, id =>
    id :: (((own.lookup id).map ReportElement.children).getD []).flatMap (walk own n)

/-! ## Accepted nodes -/

mutual

/-- The nodes of a tree that the parser accepts. -/
def acceptedNodes (node : Json) : List Json :=
  match node with
  | .str text => [.str text]
  | .obj fields =>
    if nodeType fields = "" then [] else .obj fields :: acceptedAll (childNodes fields)
  | _ => []
termination_by sizeOf node
decreasing_by exact sizeOf_childNodes fields

def acceptedAll (nodes : List Json) : List Json :=
  match nodes with
  | [] => []
  | node :: nodes => acceptedNodes node ++ acceptedAll nodes
termination_by sizeOf nodes
decreasing_by
  · simp only [List.cons.sizeOf_spec]
    omega
  · simp only [List.cons.sizeOf_spec]
    omega

end

/-- A node whose type is spelled like an inherited property; the type of a
text is fixed. -/
def NodeSpellsInherited (env : ReportEnv) : Json → Prop
  | .obj fields => SpellsInherited env (nodeType fields) (extractTreeProps fields)
  | _ => False

/-! ## What the loop appends -/

/-- The ids of the entries so far are numbers that have been taken. -/
def TreeState.Fresh (st : TreeState) : Prop :=
  ∀ entry ∈ st.elements.own, entry.1 ∈ ids 0 st.nextId

/-- From `st` to `st'` the loop has appended the entries `new` for the
accepted `nodes`, and has given `roots` to its caller. -/
structure Grown (env : ReportEnv) (st st' : TreeState) (roots : List String) (nodes : List Json)
    (new : List (String × ReportElement)) : Prop where
  own : st'.elements.own = st.elements.own ++ new
  proto : st'.elements.proto = st.elements.proto
  le : st.nextId ≤ st'.nextId
  keys : (new.map Prod.fst).Perm (ids st.nextId st'.nextId)
  count : new.length = nodes.length
  types : (∀ entry ∈ new, entry.2.type ≠ .inherited) ↔ ∀ node ∈ nodes, ¬ NodeSpellsInherited env node
  children : ∀ entry ∈ new, ∀ c ∈ entry.2.children, c ∈ new.map Prod.fst
  tops : ∀ root ∈ roots, root ∈ new.map Prod.fst
  walks : ∀ own : List (String × ReportElement), (∀ entry ∈ new, own.lookup entry.1 = some entry.2) →
    ∀ n, new.length ≤ n → (roots.flatMap (walk own n)).Perm (new.map Prod.fst)

namespace Grown

variable {env : ReportEnv} {st st' st'' : TreeState} {roots roots' : List String}
  {nodes nodes' : List Json} {new new' : List (String × ReportElement)}

theorem refl (env : ReportEnv) (st : TreeState) : Grown env st st [] [] [] := by
  refine ⟨(List.append_nil _).symm, rfl, Nat.le_refl _, ?_, rfl, ?_, ?_, ?_, ?_⟩
  · unfold ids
    rw [Nat.sub_self]
    exact List.Perm.refl _
  · constructor
    · intro _ node h
      cases h
    · intro _ entry h
      cases h
  · intro entry h
    cases h
  · intro root h
    cases h
  · intro own _ n _
    exact List.Perm.refl _

theorem fresh (h : Grown env st st' roots nodes new) (hfresh : st.Fresh) : st'.Fresh := by
  intro entry hmem
  rw [h.own] at hmem
  rcases List.mem_append.mp hmem with hold | hnew
  · obtain ⟨k, hpos, hle, hid⟩ := mem_ids.mp (hfresh entry hold)
    exact mem_ids.mpr ⟨k, hpos, Nat.le_trans hle h.le, hid⟩
  · have hkey := h.keys.mem_iff.mp (List.mem_map_of_mem hnew)
    obtain ⟨k, hlt, hle, hid⟩ := mem_ids.mp hkey
    exact mem_ids.mpr ⟨k, by omega, hle, hid⟩

/-- One run after another. -/
theorem append (h : Grown env st st' roots nodes new) (h' : Grown env st' st'' roots' nodes' new') :
    Grown env st st'' (roots ++ roots') (nodes ++ nodes') (new ++ new') := by
  have hkeys : ((new ++ new').map Prod.fst) = new.map Prod.fst ++ new'.map Prod.fst := List.map_append
  refine ⟨?_, h'.proto.trans h.proto, Nat.le_trans h.le h'.le, ?_, ?_, ?_, ?_, ?_, ?_⟩
  · rw [h'.own, h.own, List.append_assoc]
  · rw [hkeys, ← ids_append h.le h'.le]
    exact h.keys.append h'.keys
  · rw [List.length_append, List.length_append, h.count, h'.count]
  · rw [List.forall_mem_append, List.forall_mem_append, h.types, h'.types]
  · rw [hkeys, List.forall_mem_append]
    constructor
    · intro entry hentry c hc
      exact List.mem_append_left _ (h.children entry hentry c hc)
    · intro entry hentry c hc
      exact List.mem_append_right _ (h'.children entry hentry c hc)
  · rw [hkeys, List.forall_mem_append]
    constructor
    · intro root hroot
      exact List.mem_append_left _ (h.tops root hroot)
    · intro root hroot
      exact List.mem_append_right _ (h'.tops root hroot)
  · intro own hown n hn
    rw [List.forall_mem_append] at hown
    rw [List.length_append] at hn
    rw [List.flatMap_append, hkeys]
    exact (h.walks own hown.1 n (by omega)).append (h'.walks own hown.2 n (by omega))

/-! ## A node and its children -/

variable {id : String} {node : Json} {element : ReportElement}

/-- The entry of a node comes after those of its children. -/
theorem keys_append (new : List (String × ReportElement)) (id : String) (element : ReportElement) :
    (new ++ [(id, element)]).map Prod.fst = new.map Prod.fst ++ [id] := List.map_append

theorem node_types (h : Grown env st st' roots nodes new)
    (htype : element.type ≠ .inherited ↔ ¬ NodeSpellsInherited env node) :
    (∀ entry ∈ new ++ [(id, element)], entry.2.type ≠ .inherited)
      ↔ ∀ n ∈ node :: nodes, ¬ NodeSpellsInherited env n := by
  rw [List.forall_mem_append, h.types, List.forall_mem_singleton, List.forall_mem_cons, htype, and_comm]

theorem node_children (h : Grown env st st' roots nodes new) (hchildren : element.children = roots) :
    ∀ entry ∈ new ++ [(id, element)], ∀ c ∈ entry.2.children,
      c ∈ (new ++ [(id, element)]).map Prod.fst := by
  rw [keys_append, List.forall_mem_append]
  constructor
  · intro entry hentry c hc
    exact List.mem_append_left _ (h.children entry hentry c hc)
  · intro entry hentry c hc
    rw [List.mem_singleton.mp hentry, hchildren] at hc
    exact List.mem_append_left _ (h.tops c hc)

/-- The ways down from a node. -/
theorem node_walk (h : Grown env st st' roots nodes new) (hchildren : element.children = roots)
    {own : List (String × ReportElement)}
    (hown : ∀ entry ∈ new ++ [(id, element)], own.lookup entry.1 = some entry.2) {n : Nat}
    (hn : (new ++ [(id, element)]).length ≤ n) :
    (walk own n id).Perm ((new ++ [(id, element)]).map Prod.fst) := by
  rw [List.forall_mem_append, List.forall_mem_singleton] at hown
  rw [List.length_append, List.length_singleton] at hn
  cases n with
  | zero => omega
  | succ n =>
    have hbelow := h.walks own hown.1 n (by omega)
    unfold walk
    rw [hown.2, Option.map_some, Option.getD_some, hchildren, keys_append]
    exact (hbelow.cons id).trans (List.perm_append_singleton _ _).symm

end Grown

theorem Elements.set_new (es : Elements) {id : String} (element : ReportElement)
    (hnew : id ∉ es.own.map Prod.fst) (hproto : id ≠ "__proto__") :
    es.set id element = { es with own := es.own ++ [(id, element)] } := by
  have hany : ¬ es.own.any (fun e => e.1 = id) = true := by
    rw [List.any_eq_true]
    rintro ⟨entry, hmem, hid⟩
    exact hnew (List.mem_map.mpr ⟨entry, hmem, of_decide_eq_true hid⟩)
  unfold set
  rw [if_neg hany, if_neg hproto]

section

variable {env : ReportEnv} {st st' : TreeState} {roots : List String} {nodes : List Json}
  {new : List (String × ReportElement)} {node : Json} {element : ReportElement}

/-- A numbered node after its children. -/
theorem Grown.numbered (hfresh : st.Fresh)
    (h : Grown env { st with nextId := st.nextId + 1 } st' roots nodes new)
    (hchildren : element.children = roots)
    (htype : element.type ≠ .inherited ↔ ¬ NodeSpellsInherited env node) :
    Grown env st (st'.set (nodeId (st.nextId + 1)) element) [nodeId (st.nextId + 1)] (node :: nodes)
      (new ++ [(nodeId (st.nextId + 1), element)]) := by
  have hle : st.nextId + 1 ≤ st'.nextId := h.le
  have hnotin : nodeId (st.nextId + 1) ∉ st'.elements.own.map Prod.fst := by
    rw [h.own, List.map_append, List.mem_append, not_or]
    constructor
    · intro hmem
      obtain ⟨entry, hentry, hid⟩ := List.mem_map.mp hmem
      obtain ⟨k, _, hk, hkey⟩ := mem_ids.mp (hfresh entry hentry)
      have heq := nodeId_inj (hid.symm.trans hkey)
      omega
    · intro hmem
      obtain ⟨k, hk, _, hkey⟩ := mem_ids.mp (h.keys.mem_iff.mp hmem)
      have heq := nodeId_inj hkey
      have hlt : st.nextId + 1 < k := hk
      omega
  have hset : (st'.set (nodeId (st.nextId + 1)) element).elements
      = { st'.elements with own := st'.elements.own ++ [(nodeId (st.nextId + 1), element)] } :=
    Elements.set_new _ element hnotin (nodeId_ne_proto _)
  refine ⟨?_, ?_, Nat.le_of_succ_le hle, ?_, ?_, h.node_types htype, h.node_children hchildren, ?_, ?_⟩
  · rw [hset]
    show st'.elements.own ++ _ = _
    rw [h.own, List.append_assoc]
  · rw [hset]
    exact h.proto
  · show List.Perm _ (ids st.nextId st'.nextId)
    rw [Grown.keys_append, ← ids_append (Nat.le_succ st.nextId) hle, ids_succ]
    exact List.perm_append_comm.trans (List.Perm.append_left _ h.keys)
  · rw [List.length_append, h.count]
    rfl
  · rw [Grown.keys_append, List.forall_mem_singleton]
    exact List.mem_append_right _ (List.mem_singleton.mpr rfl)
  · intro own hown n hn
    rw [List.flatMap_singleton]
    exact h.node_walk hchildren hown hn

/-- The type of a node that the parser has normalized. -/
theorem treeElement_type (fields : List (String × Json)) (children : List String) :
    (treeElement env fields children).type ≠ .inherited ↔ ¬ NodeSpellsInherited env (.obj fields) :=
  not_congr (normalize_eq_inherited_iff _ _)

end

/-! ## The loop -/

section

variable (env : ReportEnv)

mutual

theorem addNode_grown (node : Json) (st : TreeState) (hfresh : st.Fresh) :
    ∃ new, Grown env st (addNode env node none st).2 (addNode env node none st).1.toList
      (acceptedNodes node) new := by
  match node with
  | .null =>
    simp only [addNode, acceptedNodes]
    exact ⟨[], Grown.refl env st⟩
  | .bool value =>
    simp only [addNode, acceptedNodes]
    exact ⟨[], Grown.refl env st⟩
  | .num literal =>
    simp only [addNode, acceptedNodes]
    exact ⟨[], Grown.refl env st⟩
  | .arr items =>
    simp only [addNode, acceptedNodes]
    exact ⟨[], Grown.refl env st⟩
  | .str text =>
    rw [addNode, acceptedNodes]
    refine ⟨_, Grown.numbered hfresh (Grown.refl env _) rfl ?_⟩
    exact ⟨fun _ h => h, fun _ => nofun⟩
  | .obj fields =>
    rw [addNode, acceptedNodes]
    by_cases htype : nodeType fields = ""
    · rw [if_pos htype, if_pos htype]
      exact ⟨[], Grown.refl env st⟩
    · rw [if_neg htype, if_neg htype]
      have hnext : TreeState.Fresh { st with nextId := st.nextId + 1 } := by
        intro entry hentry
        obtain ⟨k, hpos, hle, hid⟩ := mem_ids.mp (hfresh entry hentry)
        exact mem_ids.mpr ⟨k, hpos, Nat.le_succ_of_le hle, hid⟩
      obtain ⟨new, hgrown⟩ := addNodes_grown (childNodes fields) _ hnext
      exact ⟨_, hgrown.numbered hfresh rfl (treeElement_type fields _)⟩
termination_by sizeOf node
decreasing_by exact sizeOf_childNodes fields

theorem addNodes_grown (nodes : List Json) (st : TreeState) (hfresh : st.Fresh) :
    ∃ new, Grown env st (addNodes env nodes st).2 (addNodes env nodes st).1 (acceptedAll nodes) new := by
  match nodes with
  | [] =>
    rw [addNodes, acceptedAll]
    exact ⟨[], Grown.refl env st⟩
  | node :: nodes =>
    rw [addNodes, acceptedAll]
    obtain ⟨new, hgrown⟩ := addNode_grown node st hfresh
    obtain ⟨more, hmore⟩ := addNodes_grown nodes _ (hgrown.fresh hfresh)
    exact ⟨new ++ more, hgrown.append hmore⟩
termination_by sizeOf nodes
decreasing_by
  · simp only [List.cons.sizeOf_spec]
    omega
  · simp only [List.cons.sizeOf_spec]
    omega

end

end

/-! ## The table of a tree -/

/-- Every child is an entry; on all the ways down from the root each entry
is met exactly once, and nothing else; and there are as many entries as
accepted nodes. -/
structure IsTree (spec : ReportSpec) (rootNode : List (String × Json)) : Prop where
  children : ∀ entry ∈ spec.elements.own, ∀ c ∈ entry.2.children,
    ∃ element, spec.elements.own.lookup c = some element
  distinct : (spec.elements.own.map Prod.fst).Nodup
  once : ∀ n, spec.elements.own.length ≤ n →
    (walk spec.elements.own n spec.root).Perm (spec.elements.own.map Prod.fst)
  count : spec.elements.own.length = (acceptedNodes (.obj rootNode)).length

/-- No accepted node has a type that is spelled like an inherited
property. -/
def TreeClean (env : ReportEnv) (rootNode : List (String × Json)) : Prop :=
  ∀ node ∈ acceptedNodes (.obj rootNode), ¬ NodeSpellsInherited env node

section

variable {env : ReportEnv} {rootNode : List (String × Json)} {spec : ReportSpec}

/-- What the parser makes of a tree: the entries of the children, then the
root. -/
theorem parseTreeSpec_cases (h : parseTreeSpec env rootNode = some spec) :
    ∃ st roots new, Grown env {} st roots (acceptedAll (childNodes rootNode)) new
      ∧ acceptedNodes (.obj rootNode) = .obj rootNode :: acceptedAll (childNodes rootNode)
      ∧ spec.root = "root" ∧ "root" ∉ new.map Prod.fst ∧ spec.elements.proto = none
      ∧ spec.elements.own = new ++ [("root", treeElement env rootNode roots)] := by
  unfold parseTreeSpec at h
  rw [addNode] at h
  by_cases htype : nodeType rootNode = ""
  · rw [if_pos htype] at h
    cases h
  · rw [if_neg htype] at h
    have hfresh : TreeState.Fresh {} := by
      intro entry hentry
      cases hentry
    obtain ⟨new, hgrown⟩ := addNodes_grown env (childNodes rootNode) {} hfresh
    have htake : TreeState.takeId {} (some "root") = ("root", {}) := rfl
    dsimp only at h
    rw [htake] at h
    dsimp only at h
    generalize addNodes env (childNodes rootNode) {} = r at h hgrown
    obtain ⟨roots, st⟩ := r
    have hown : st.elements.own = new := hgrown.own
    have hroot : "root" ∉ st.elements.own.map Prod.fst := by
      rw [hown]
      intro hmem
      obtain ⟨k, _, _, hkey⟩ := mem_ids.mp (hgrown.keys.mem_iff.mp hmem)
      exact nodeId_ne_root k hkey.symm
    have hset : (st.set "root" (treeElement env rootNode roots)).elements
        = { st.elements with own := new ++ [("root", treeElement env rootNode roots)] } := by
      rw [← hown]
      exact st.elements.set_new _ hroot (by decide)
    have hget : (st.set "root" (treeElement env rootNode roots)).elements.get "root"
        = .own (treeElement env rootNode roots) := by
      rw [Elements.get_eq_own_iff, hset]
      rw [hown] at hroot
      exact (lookup_append_singleton _ (lookup_eq_none hroot) "root").trans (if_pos rfl)
    dsimp only at h
    rw [hget] at h
    cases h
    refine ⟨st, roots, new, hgrown, ?_, rfl, hown ▸ hroot, ?_, ?_⟩
    · rw [acceptedNodes, if_neg htype]
    · show (st.set "root" _).elements.proto = none
      rw [hset]
      exact hgrown.proto
    · show (st.set "root" _).elements.own = _
      rw [hset]

/-- The table of a tree is that tree. -/
theorem isTree_of_parseTreeSpec (h : parseTreeSpec env rootNode = some spec) : IsTree spec rootNode := by
  obtain ⟨st, roots, new, hgrown, haccepted, hroot, hnew, hproto, hown⟩ := parseTreeSpec_cases h
  have hdistinct : (spec.elements.own.map Prod.fst).Nodup := by
    rw [hown, Grown.keys_append]
    exact List.nodup_append_comm.mp (List.nodup_cons.mpr ⟨hnew, hgrown.keys.nodup_iff.mpr (nodup_ids _ _)⟩)
  constructor
  · intro entry hentry c hc
    rw [hown] at hentry
    obtain ⟨child, hchild, rfl⟩ := List.mem_map.mp (hgrown.node_children rfl entry hentry c hc)
    refine ⟨child.2, (mem_iff_lookup hdistinct child).mp ?_⟩
    rw [hown]
    exact hchild
  · exact hdistinct
  · intro n hn
    have hlookup : ∀ entry ∈ new ++ [("root", treeElement env rootNode roots)],
        spec.elements.own.lookup entry.1 = some entry.2 := by
      intro entry hentry
      rw [← hown] at hentry
      exact (mem_iff_lookup hdistinct entry).mp hentry
    rw [hown] at hn
    rw [hroot, hown]
    rw [hown] at hlookup
    exact hgrown.node_walk rfl hlookup hn
  · rw [hown, haccepted, List.length_append, hgrown.count]
    rfl

/-- Below an entry there are only entries. -/
theorem reaches_own (h : IsTree spec rootNode) (n : Nat) (id : String) (seen : List String)
    (hid : ∃ element, spec.elements.own.lookup id = some element) (x : String)
    (hx : Reaches spec.elements.childrenOf n id seen x) :
    ∃ element, spec.elements.own.lookup x = some element := by
  induction n generalizing id seen with
  | zero => exact (show x = id from hx) ▸ hid
  | succ n ih =>
    rcases hx with rfl | ⟨_, cs, hcs, c, hc, hreach⟩
    · exact hid
    · obtain ⟨element, helement, rfl⟩ := Option.map_eq_some_iff.mp hcs
      have hentry := (mem_iff_lookup h.distinct (id, element)).mpr helement
      exact ih c (id :: seen) (h.children (id, element) hentry c hc) hreach

/-- When a report of the tree dialect renders. -/
theorem tree_renders_iff (h : parseTreeSpec env rootNode = some spec) :
    Renders spec ↔ TreeClean env rootNode := by
  have htree := isTree_of_parseTreeSpec h
  obtain ⟨st, roots, new, hgrown, haccepted, hroot, hnew, hproto, hown⟩ := parseTreeSpec_cases h
  have htypes : (∀ entry ∈ spec.elements.own, ∃ type, entry.2.type = .text type)
      ↔ TreeClean env rootNode := by
    unfold TreeClean
    rw [haccepted, ← hgrown.node_types (treeElement_type rootNode roots), hown]
    exact forall₂_congr fun entry _ => ElementType.text_iff _
  have hlookup : ∃ element, spec.elements.own.lookup spec.root = some element := by
    refine ⟨treeElement env rootNode roots, ?_⟩
    rw [hroot, hown]
    exact (lookup_append_singleton _ (lookup_eq_none hnew) "root").trans (if_pos rfl)
  rw [← htypes]
  refine ⟨fun hrenders => hrenders.types, fun htext => ⟨hlookup, htext, ?_⟩⟩
  · unfold reportRenderer
    rw [safe_iff]
    intro x hx
    obtain ⟨element, helement⟩ := reaches_own htree 31 spec.root [] hlookup x hx
    rw [(spec.elements.get_eq_own_iff).mpr helement]
    exact nofun

end

/-! ## Reports -/

/-- The condition on a parsed report, in its dialect. -/
def ReportClean (env : ReportEnv) (parsed : Json) : Prop :=
  match dialect parsed with
  | .table root rawElements _ => TableClean env rawElements root
  | .tree rootNode => TreeClean env rootNode
  | .none => True

/-- A report of the tree dialect is that tree. -/
def TreeIsTree (parsed : Json) (spec : ReportSpec) : Prop :=
  match dialect parsed with
  | .tree rootNode => IsTree spec rootNode
  | _ => True

/-- Every text that parses: the report renders, and a tree is a tree,
exactly if the JSON is clean. -/
theorem report_renders_iff (env : ReportEnv) (raw : String) (spec : ReportSpec)
    (h : parseReportSpec env raw = some spec) :
    ∃ parsed, env.parse (trimJs raw) = some parsed
      ∧ ((Renders spec ∧ TreeIsTree parsed spec) ↔ ReportClean env parsed) := by
  unfold parseReportSpec at h
  cases hparse : env.parse (trimJs raw) with
  | none =>
    rw [hparse] at h
    cases h
  | some parsed =>
    refine ⟨parsed, rfl, ?_⟩
    rw [hparse] at h
    dsimp only at h
    unfold TreeIsTree ReportClean
    cases hdialect : dialect parsed with
    | table root rawElements state =>
      rw [hdialect] at h
      exact (and_iff_left trivial).trans (table_renders_iff h)
    | tree rootNode =>
      rw [hdialect] at h
      exact (and_iff_left (isTree_of_parseTreeSpec h)).trans (tree_renders_iff h)
    | none =>
      rw [hdialect] at h
      cases h

/-- An environment that knows one report. -/
def oneReport (raw : String) (parsed : Json) : ReportEnv where
  parse := fun text => if text = raw then some parsed else none
  toLowerCase := List.map Char.toLower
  rewriteProps := fun _ fields => fields

/-- A report of one card. -/
def cardText : String := "\x7b\"root\":\"card\",\"elements\":\x7b\"card\":\x7b\"type\":\"card\"\x7d\x7d\x7d"

def cardReport : ReportEnv :=
  oneReport cardText
    (.obj [("root", .str "card"), ("elements", .obj [("card", .obj [("type", .str "card")])])])

def cardSpec : ReportSpec :=
  { root := "card"
    elements := { own := [("card", { type := .text "Card", props := [], children := [] })] } }

theorem report_renders_card :
    ∃ parsed, cardReport.parse (trimJs cardText) = some parsed
      ∧ ((Renders cardSpec ∧ TreeIsTree parsed cardSpec) ↔ ReportClean cardReport parsed) :=
  report_renders_iff cardReport cardText cardSpec rfl

/-- A root named like a property of every object. -/
def constructorText : String := "\x7b\"root\":\"constructor\",\"elements\":\x7b\x7d\x7d"

def constructorReport : ReportEnv :=
  oneReport constructorText (.obj [("root", .str "constructor"), ("elements", .obj [])])

/-- The parser accepts it, and it is no entry. -/
theorem inherited_root_is_accepted :
    ¬ ∀ (env : ReportEnv) (raw : String) (spec : ReportSpec),
      parseReportSpec env raw = some spec → Renders spec := by
  intro h
  have hrenders := h constructorReport constructorText { root := "constructor", elements := {} } rfl
  obtain ⟨element, helement⟩ := hrenders.root
  cases helement

end LendingClaw.Ui
