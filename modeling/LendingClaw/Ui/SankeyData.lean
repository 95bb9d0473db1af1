/-
LendingClaw.Ui.SankeyData — the data of a flow chart (`sankeyData` of
`ui/web/src/components/chat/ReportRenderer.tsx`).

Nodes and links are read independently: a node without a name and a link
without its three numbers are dropped, and a link refers to nodes by
position. The graph is that of the input exactly if every link that is
kept refers to positions that still hold a node of the same name
(`keepsGraph_iff`).
-/
import LendingClaw.Lib.JsText
import LendingClaw.Lib.JsValue

namespace LendingClaw.Ui

open LendingClaw.Lib LendingClaw.Lib.JsValue

/-! ## Properties -/

abbrev Record := List (String × JsValue)

/-- `asRecord`. A date has no properties of its own. -/
def asRecord : JsValue → Record
  | .obj fields => fields
  | _ => []

def stringProp (props : Record) (key : String) : String :=
  match get props key with
  | .str text => text
  | _ => ""

def numberProp (props : Record) (key : String) : Option ℚ :=
  match get props key with
  | .num (.finite value) => some value
  | _ => none

def arrayProp (props : Record) (key : String) : List JsValue :=
  match get props key with
  | .arr items => items
  | _ => []

section

-- `String(value)` of a finite number
variable (numberText : ℚ → String)

def firstStringProp (props : Record) : List String → String
  | [] => ""
  | key :: keys =>
    match get props key with
    | .str text => if trimJs text = "" then firstStringProp props keys else text
    | .num (.finite value) => numberText value
    | _ => firstStringProp props keys

/-! ## The data -/

structure ChartPoint where
  label : String
  value : ℚ

/-- The loop body of `chartData`. -/
def readPoint (rawPoint : JsValue) : Option ChartPoint :=
  let label := stringProp (asRecord rawPoint) "label"
  match numberProp (asRecord rawPoint) "value" with
  | some value => if label = "" then none else some { label := label, value := value }
  | none => none

def chartData (props : Record) : List ChartPoint := (arrayProp props "data").filterMap readPoint

structure SankeyNode where
  name : String
  fields : Record

structure SankeyLink where
  source : ℚ
  target : ℚ
  value : ℚ
  fields : Record

structure SankeyData where
  nodes : List SankeyNode
  links : List SankeyLink

def nodesSource (props : Record) : List JsValue :=
  match get (asRecord (get props "data")) "nodes" with
  | .arr items => items
  | _ => arrayProp props "nodes"

def linksSource (props : Record) : List JsValue :=
  match get (asRecord (get props "data")) "links" with
  | .arr items => items
  | _ => arrayProp props "links"

/-- The name of a node of the input, empty if it has none. -/
def nodeName (rawNode : JsValue) : String :=
  firstStringProp numberText (asRecord rawNode) ["name", "label", "title"]

/-- `{ ...node, name }`. -/
def readNode (rawNode : JsValue) : Option SankeyNode :=
  let name := nodeName numberText rawNode
  if name = "" then none
  else some { name := name, fields := set "name" (.str name) (asRecord rawNode) }

/-- `{ ...link, source, target, value }`. -/
def readLink (rawLink : JsValue) : Option SankeyLink :=
  let link := asRecord rawLink
  match numberProp link "source", numberProp link "target", numberProp link "value" with
  | some source, some target, some value =>
    some { source := source
           target := target
           value := value
           fields := set "value" (.num (.finite value)) (set "target" (.num (.finite target))
             (set "source" (.num (.finite source)) link)) }
  | _, _, _ => none

/-- The first return: nodes and links of the input. -/
def inputData (props : Record) : Option SankeyData :=
  let nodes := (nodesSource props).filterMap (readNode numberText)
  let links := (linksSource props).filterMap readLink
  if 0 < nodes.length ∧ 0 < links.length then some { nodes := nodes, links := links } else none

/-- A link of the chain of points, from the one at `index`. -/
def chainLink (points : List ChartPoint) (index : Nat) (point : ChartPoint) : SankeyLink :=
  let value := max 0 (min point.value ((points[index + 1]?).elim point.value ChartPoint.value))
  { source := index
    target := index + 1
    value := value
    fields := [("source", .num (.finite index)), ("target", .num (.finite (index + 1))),
      ("value", .num (.finite value))] }

/-- The last return: a chain of the points. -/
def chainData (props : Record) : Option SankeyData :=
  let points := chartData props
  if points.length < 2 then none
  else some
    { nodes := points.map fun point =>
        { name := point.label, fields := [("name", .str point.label)] }
      links := points.dropLast.mapIdx (chainLink points) }

def sankeyData (props : Record) : Option SankeyData :=
  match inputData numberText props with
  | some data => some data
  | none => chainData props

/-! ## The graph -/

/-- `n` is a position in a list of `length` elements. -/
def IsIndex (n : ℚ) (length : Nat) : Prop := ∃ i : Nat, n = i ∧ i < length

/-- The links refer to nodes, and those of the input to the nodes they
referred to there. -/
structure KeepsGraph (props : Record) : Prop where
  indexed : ∀ data, sankeyData numberText props = some data → ∀ link ∈ data.links,
    IsIndex link.source data.nodes.length ∧ IsIndex link.target data.nodes.length
  named : ∀ data, inputData numberText props = some data → ∀ link ∈ data.links, ∀ i : Nat,
    link.source = i ∨ link.target = i →
    (data.nodes[i]?).map SankeyNode.name = ((nodesSource props)[i]?).map (nodeName numberText)

/-- The number of a node that has a name, and the same name once the
nodes without one are gone. -/
def StaysNamed (nodes : List JsValue) (n : ℚ) : Prop :=
  ∃ (i : Nat) (name : String), n = i ∧ name ≠ ""
    ∧ (nodes[i]?).map (nodeName numberText) = some name
    ∧ ((nodes.filter fun node => nodeName numberText node ≠ "")[i]?).map (nodeName numberText)
      = some name

/-- Every link with its three numbers refers to nodes that stay named. -/
def LinksStay (props : Record) : Prop :=
  (∃ node ∈ nodesSource props, nodeName numberText node ≠ "") →
    ∀ rawLink ∈ linksSource props, ∀ link, readLink rawLink = some link →
      StaysNamed numberText (nodesSource props) link.source
        ∧ StaysNamed numberText (nodesSource props) link.target

theorem readNode_name {rawNode : JsValue} {node : SankeyNode}
    (h : readNode numberText rawNode = some node) :
    node.name = nodeName numberText rawNode ∧ node.name ≠ "" := by
  unfold readNode at h
  dsimp only at h
  split at h
  · cases h
  · rename_i hne
    cases h
    exact ⟨rfl, hne⟩

/-- The names of the nodes that are kept. -/
theorem map_name_filterMap (nodes : List JsValue) :
    (nodes.filterMap (readNode numberText)).map SankeyNode.name
      = (nodes.filter fun node => nodeName numberText node ≠ "").map (nodeName numberText) := by
  induction nodes with
  | nil => rfl
  | cons node nodes ih =>
    by_cases h : nodeName numberText node = ""
    · have hread : readNode numberText node = none := by simp [readNode, h]
      simp [hread, h, ih]
    · have hread : readNode numberText node
          = some { name := nodeName numberText node
                   fields := set "name" (.str (nodeName numberText node)) (asRecord node) } := by
        simp [readNode, h]
      simp [hread, h, ih]

/-- The two readings of a position, one over the nodes that are kept. -/
theorem map_name_getElem? (nodes : List JsValue) (i : Nat) :
    ((nodes.filterMap (readNode numberText))[i]?).map SankeyNode.name
      = ((nodes.filter fun node => nodeName numberText node ≠ "")[i]?).map (nodeName numberText) := by
  rw [← List.getElem?_map, map_name_filterMap, List.getElem?_map]

theorem name_ne_empty {nodes : List JsValue} {node : SankeyNode}
    (h : node ∈ nodes.filterMap (readNode numberText)) : node.name ≠ "" := by
  obtain ⟨rawNode, -, hread⟩ := List.mem_filterMap.mp h
  exact (readNode_name numberText hread).2

/-- The links of the chain refer to its points. -/
theorem chainData_indexed {props : Record} {data : SankeyData} (h : chainData props = some data) :
    ∀ link ∈ data.links,
      IsIndex link.source data.nodes.length ∧ IsIndex link.target data.nodes.length := by
  unfold chainData at h
  dsimp only at h
  split at h
  · cases h
  · cases h
    intro link hlink
    obtain ⟨index, hlt, rfl⟩ := List.mem_mapIdx.mp hlink
    rw [List.length_dropLast] at hlt
    simp only [List.length_map]
    exact ⟨⟨index, rfl, by omega⟩, ⟨index + 1, by simp [chainLink], by omega⟩⟩

theorem inputData_eq {props : Record} {data : SankeyData}
    (h : inputData numberText props = some data) :
    data.nodes = (nodesSource props).filterMap (readNode numberText)
      ∧ data.links = (linksSource props).filterMap readLink
      ∧ ∃ node ∈ nodesSource props, nodeName numberText node ≠ "" := by
  unfold inputData at h
  dsimp only at h
  split at h
  · rename_i hlen
    cases h
    obtain ⟨node, hnode⟩ := List.exists_mem_of_length_pos hlen.1
    obtain ⟨rawNode, hmem, hread⟩ := List.mem_filterMap.mp hnode
    have hname := readNode_name numberText hread
    exact ⟨rfl, rfl, rawNode, hmem, hname.1 ▸ hname.2⟩
  · cases h

/-- Where a node and a link are kept, the data are those of the input. -/
theorem inputData_isSome {props : Record}
    (hnode : ∃ node ∈ nodesSource props, nodeName numberText node ≠ "") {rawLink : JsValue}
    (hmem : rawLink ∈ linksSource props) {link : SankeyLink} (hread : readLink rawLink = some link) :
    ∃ data, inputData numberText props = some data ∧ link ∈ data.links := by
  obtain ⟨node, hnodemem, hname⟩ := hnode
  have hnodepos : 0 < ((nodesSource props).filterMap (readNode numberText)).length :=
    List.length_pos_of_mem (List.mem_filterMap.mpr
      ⟨node, hnodemem, by rw [readNode, if_neg hname]⟩)
  have hlinkmem : link ∈ (linksSource props).filterMap readLink :=
    List.mem_filterMap.mpr ⟨rawLink, hmem, hread⟩
  refine ⟨_, if_pos ⟨hnodepos, List.length_pos_of_mem hlinkmem⟩, hlinkmem⟩

/-- An end of a link of the input is kept right exactly if it stays named. -/
theorem staysNamed_iff (nodes : List JsValue) (n : ℚ) :
    StaysNamed numberText nodes n
      ↔ IsIndex n (nodes.filterMap (readNode numberText)).length
        ∧ ∀ i : Nat, n = i → ((nodes.filterMap (readNode numberText))[i]?).map SankeyNode.name
          = (nodes[i]?).map (nodeName numberText) := by
  constructor
  · rintro ⟨i, name, rfl, -, hin, hkept⟩
    rw [← map_name_getElem?] at hkept
    obtain ⟨node, hnode, -⟩ := Option.map_eq_some_iff.mp hkept
    refine ⟨⟨i, rfl, (List.getElem?_eq_some_iff.mp hnode).1⟩, fun j hj => ?_⟩
    obtain rfl : i = j := by exact_mod_cast hj
    rw [hkept, hin]
  · rintro ⟨⟨i, rfl, hlt⟩, hsame⟩
    have hnode := List.getElem?_eq_getElem hlt
    have hsame := hsame i rfl
    rw [hnode, Option.map_some] at hsame
    refine ⟨i, _, rfl, name_ne_empty numberText (List.getElem_mem hlt), hsame.symm, ?_⟩
    rw [← map_name_getElem?, hnode, Option.map_some]

/-- The graph is kept exactly if every link refers to nodes that stay
named. -/
theorem keepsGraph_iff (props : Record) :
    KeepsGraph numberText props ↔ LinksStay numberText props := by
  constructor
  · intro h hnode rawLink hmem link hread
    obtain ⟨data, hdata, hlink⟩ := inputData_isSome numberText hnode hmem hread
    have hsankey : sankeyData numberText props = some data := by rw [sankeyData, hdata]
    have hindexed := h.indexed data hsankey link hlink
    have hnamed := h.named data hdata link hlink
    rw [(inputData_eq numberText hdata).1] at hindexed hnamed
    exact ⟨(staysNamed_iff numberText _ _).mpr ⟨hindexed.1, fun i hi => hnamed i (.inl hi)⟩,
      (staysNamed_iff numberText _ _).mpr ⟨hindexed.2, fun i hi => hnamed i (.inr hi)⟩⟩
  · intro h
    have hstays : ∀ data, inputData numberText props = some data → ∀ link ∈ data.links,
        StaysNamed numberText (nodesSource props) link.source
          ∧ StaysNamed numberText (nodesSource props) link.target := by
      intro data hdata link hlink
      obtain ⟨-, hlinks, hnode⟩ := inputData_eq numberText hdata
      rw [hlinks] at hlink
      obtain ⟨rawLink, hmem, hread⟩ := List.mem_filterMap.mp hlink
      exact h hnode rawLink hmem link hread
    refine ⟨fun data hdata => ?_, fun data hdata link hlink i hi => ?_⟩
    · unfold sankeyData at hdata
      cases hinput : inputData numberText props with
      | none =>
        rw [hinput] at hdata
        exact chainData_indexed hdata
      | some data' =>
        rw [hinput] at hdata
        cases hdata
        intro link hlink
        rw [(inputData_eq numberText hinput).1]
        have hends := hstays data hinput link hlink
        exact ⟨((staysNamed_iff numberText _ _).mp hends.1).1,
          ((staysNamed_iff numberText _ _).mp hends.2).1⟩
    · have hends := hstays data hdata link hlink
      rw [(inputData_eq numberText hdata).1]
      rcases hi with hi | hi
      · exact ((staysNamed_iff numberText _ _).mp hends.1).2 i hi
      · exact ((staysNamed_iff numberText _ _).mp hends.2).2 i hi

end

/-- A node without a name before the two that a link connects. -/
def unnamedFirst : Record :=
  [("nodes", .arr [.obj [], .obj [("name", .str "A")], .obj [("name", .str "B")]]),
    ("links", .arr [.obj [("source", .num (.finite 1)), ("target", .num (.finite 2)),
      ("value", .num (.finite 1))]])]

theorem not_keepsGraph : ¬ KeepsGraph (fun _ => "number") unnamedFirst := by
  intro h
  have hdata : ∃ data link, sankeyData (fun _ => "number") unnamedFirst = some data
      ∧ link ∈ data.links ∧ link.target = 2 ∧ data.nodes.length = 2 :=
    ⟨_, _, rfl, List.mem_singleton_self _, rfl, rfl⟩
  obtain ⟨data, link, hdata, hlink, htarget, hlen⟩ := hdata
  obtain ⟨i, hi, hlt⟩ := (h.indexed data hdata link hlink).2
  rw [htarget] at hi
  have hi : 2 = i := by exact_mod_cast hi
  omega

end LendingClaw.Ui
