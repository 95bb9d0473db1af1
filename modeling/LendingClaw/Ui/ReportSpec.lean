/-
LendingClaw.Ui.ReportSpec — reports that a model writes as JSON
(`parseReportSpec` of `ui/web/src/lib/report-spec.ts`, `RenderedElement`
of `ui/web/src/components/chat/ReportRenderer.tsx`).

A report comes in two dialects: a root id with a table of elements, or a
tree of nodes that the parser numbers. Ids are free strings, and tables
are ordinary objects: a read finds own properties first and then what
the object inherits, and an assignment to `__proto__` replaces the
prototype.
-/
import LendingClaw.Lib.JsText
import LendingClaw.Lib.Json
import LendingClaw.Lib.Strings

namespace LendingClaw.Ui

open LendingClaw.Lib

/-! ## Objects -/

/-- The properties of `Object.prototype`. -/
def inheritedNames : List String :=
  ["constructor", "__defineGetter__", "__defineSetter__", "hasOwnProperty", "__lookupGetter__",
    "__lookupSetter__", "isPrototypeOf", "propertyIsEnumerable", "toString", "valueOf", "__proto__",
    "toLocaleString"]

/-- What a read from a table of texts gives. -/
inductive Alias where
  | text (value : String)
  | inherited
  | undefined

def readAlias (aliases : List (String × String)) (key : String) : Alias :=
  match aliases.lookup key with
  | some value => .text value
  | none => if inheritedNames.contains key then .inherited else .undefined

/-- The props of an element on their way through the parser: their own
fields, and the prototype if it has been replaced. -/
structure Props where
  fields : List (String × Json) := []
  proto : Option Json := none

/-- The last field of a name. -/
def lastField (fields : List (String × Json)) (name : String) : Option Json :=
  (Json.obj fields).field name

/-- A read of a property that no object inherits by itself. -/
def Props.get (props : Props) (name : String) : Option Json :=
  match lastField props.fields name, props.proto with
  | some value, _ => some value
  | none, some (.obj fields) => lastField fields name
  | none, _ => none

/-- `props[key] = value`. -/
def Props.set (props : Props) (key : String) (value : Json) : Props :=
  if props.fields.any (fun f => f.1 = key) then
    { props with fields := props.fields.map (fun f => if f.1 = key then (key, value) else f) }
  else if key = "__proto__" then
    match value with
    | .obj _ => { props with proto := some value }
    | .arr _ => { props with proto := some value }
    | .null => { props with proto := some value }
    | _ => props
  else { props with fields := props.fields ++ [(key, value)] }

/-- `isRecord(value) ? value : {}`, its fields. -/
def recordFields : Option Json → List (String × Json)
  | some (.obj fields) => fields
  | _ => []

/-! ## Types -/

/-- The `aliases` of `normalizeReportComponentType`. -/
def componentAliases : List (String × String) :=
  [("alert", "Alert"), ("area", "AreaChart"), ("areachart", "AreaChart"), ("avatar", "Avatar"),
    ("badge", "Badge"), ("bar", "BarChart"), ("barchart", "BarChart"), ("bargraph", "BarGraph"),
    ("button", "Button"), ("buttongroup", "ButtonGroup"), ("callout", "Callout"), ("card", "Card"),
    ("carousel", "Carousel"), ("checkbox", "Checkbox"), ("candlestick", "CandlestickChart"),
    ("candlestickchart", "CandlestickChart"), ("choropleth", "ChoroplethChart"),
    ("choroplethchart", "ChoroplethChart"), ("collapsible", "Collapsible"),
    ("composed", "ComposedChart"), ("composedchart", "ComposedChart"), ("comparison", "BarChart"),
    ("comparisonchart", "BarChart"), ("container", "Stack"), ("delta", "WaterfallChart"),
    ("deltabreakdown", "WaterfallChart"), ("distribution", "HistogramChart"),
    ("distributionchart", "HistogramChart"), ("dialog", "Dialog"), ("drawer", "Drawer"),
    ("dropdownmenu", "DropdownMenu"), ("funnel", "FunnelChart"), ("funnelchart", "FunnelChart"),
    ("gauge", "Gauge"), ("gaugechart", "GaugeChart"), ("grid", "Grid"), ("heatmap", "HeatmapChart"),
    ("heatmapchart", "HeatmapChart"), ("histogram", "HistogramChart"),
    ("histogramchart", "HistogramChart"), ("heading", "Heading"), ("icon", "Icon"),
    ("image", "Image"), ("input", "Input"), ("legend", "Legend"), ("line", "LineChart"),
    ("linechart", "LineChart"), ("linegraph", "LineGraph"), ("link", "Link"),
    ("liveline", "LiveLineChart"), ("livelinechart", "LiveLineChart"), ("metric", "Metric"),
    ("pagination", "Pagination"), ("pie", "PieChart"), ("piechart", "PieChart"),
    ("popover", "Popover"), ("profitloss", "ProfitLossLine"), ("profitlossline", "ProfitLossLine"),
    ("progress", "Progress"), ("radio", "Radio"), ("radar", "RadarChart"),
    ("radarchart", "RadarChart"), ("rating", "Rating"), ("ring", "RingChart"),
    ("ringchart", "RingChart"), ("sankey", "SankeyChart"), ("sankeychart", "SankeyChart"),
    ("scatter", "ScatterChart"), ("scatterchart", "ScatterChart"), ("select", "Select"),
    ("separator", "Separator"), ("skeleton", "Skeleton"), ("slider", "Slider"),
    ("spinner", "Spinner"), ("stack", "Stack"), ("steps", "Steps"), ("switch", "Switch"),
    ("table", "Table"), ("tabs", "Tabs"), ("text", "Text"), ("textarea", "Textarea"),
    ("timeseries", "LineChart"), ("timeserieschart", "LineChart"), ("toggle", "Toggle"),
    ("togglegroup", "ToggleGroup"), ("tooltip", "Tooltip"), ("trend", "LineChart"),
    ("trendchart", "LineChart"), ("waterfall", "WaterfallChart"),
    ("waterfallchart", "WaterfallChart")]

/-- The `aliases` of `normalizeChartType`. -/
def chartAliases : List (String × String) :=
  [("area", "AreaChart"), ("areachart", "AreaChart"), ("bar", "BarChart"), ("barchart", "BarChart"),
    ("bargraph", "BarGraph"), ("candlestick", "CandlestickChart"),
    ("candlestickchart", "CandlestickChart"), ("choropleth", "ChoroplethChart"),
    ("choroplethchart", "ChoroplethChart"), ("composed", "ComposedChart"),
    ("composedchart", "ComposedChart"), ("comparison", "BarChart"),
    ("contribution", "WaterfallChart"), ("delta", "WaterfallChart"),
    ("deltabreakdown", "WaterfallChart"), ("distribution", "HistogramChart"),
    ("funnel", "FunnelChart"), ("funnelchart", "FunnelChart"), ("gauge", "Gauge"),
    ("gaugechart", "GaugeChart"), ("heatmap", "HeatmapChart"), ("heatmapchart", "HeatmapChart"),
    ("histogram", "HistogramChart"), ("histogramchart", "HistogramChart"), ("line", "LineChart"),
    ("linechart", "LineChart"), ("linegraph", "LineGraph"), ("liveline", "LiveLineChart"),
    ("livelinechart", "LiveLineChart"), ("pie", "PieChart"), ("piechart", "PieChart"),
    ("profitloss", "ProfitLossLine"), ("profitlossline", "ProfitLossLine"), ("radar", "RadarChart"),
    ("radarchart", "RadarChart"), ("ring", "RingChart"), ("ringchart", "RingChart"),
    ("sankey", "SankeyChart"), ("sankeychart", "SankeyChart"), ("scatter", "ScatterChart"),
    ("scatterchart", "ScatterChart"), ("timeseries", "LineChart"), ("trend", "LineChart"),
    ("waterfall", "WaterfallChart"), ("waterfallchart", "WaterfallChart")]

/-- The type of an element: a text, or what a table of texts inherits. -/
inductive ElementType where
  | text (value : String)
  | inherited
  deriving DecidableEq

/-- What the parser takes from elsewhere: `JSON.parse`, none where it
throws; `toLowerCase`; and the updates that `normalizeReportProps` makes
to the copy of the props it returns. -/
structure ReportEnv where
  parse : String → Option Json
  toLowerCase : List Char → List Char
  rewriteProps : ElementType → List (String × Json) → List (String × Json)

section

variable (env : ReportEnv)

/-- `.trim().replace(/[\s_-]+/g, "").toLowerCase()`. -/
def squash (type : String) : String :=
  String.ofList (env.toLowerCase
    ((jsTrim type.toList).filter fun c => !(isJsSpace c || c = '_' || c = '-')))

/-- The chart type that props ask for. -/
def chartType (props : Props) : String :=
  match (props.get "type").bind Json.text? with
  | some type => squash env type
  | none => ""

def normalizeReportComponentType (type : String) (props : Props) : ElementType :=
  let normalized := squash env type
  if normalized = "chart" ∨ normalized = "graph" then
    match readAlias chartAliases (chartType env props) with
    | .text value => .text value
    | .inherited => .inherited
    | .undefined => .text (if containsSub (chartType env props) "line" then "LineChart" else "BarChart")
  else
    match readAlias componentAliases normalized with
    | .text value => .text value
    | .inherited => .inherited
    | .undefined => .text type

end

/-! ## Elements -/

structure ReportElement where
  type : ElementType
  props : List (String × Json)
  children : List String

/-- A table of elements: its own entries, and the prototype if it has been
replaced. -/
structure Elements where
  own : List (String × ReportElement) := []
  proto : Option ReportElement := none

/-- What a read from the table gives: an entry, something truthy that the
table inherits, or something falsy. -/
inductive Found where
  | own (element : ReportElement)
  | inherited
  | missing

namespace Elements

variable (es : Elements)

/-- `elements[id] = element`. -/
def set (id : String) (element : ReportElement) : Elements :=
  if es.own.any (fun e => e.1 = id) then
    { es with own := es.own.map (fun e => if e.1 = id then (id, element) else e) }
  else if id = "__proto__" then { es with proto := some element }
  else { es with own := es.own ++ [(id, element)] }

/-- `elements[id]`. -/
def get (id : String) : Found :=
  match es.own.lookup id, es.proto with
  | some element, _ => .own element
  | none, none => if inheritedNames.contains id then .inherited else .missing
  | none, some proto =>
    if id = "type" then (if proto.type = .text "" then .missing else .inherited)
    else if ["props", "children"].contains id || inheritedNames.contains id then .inherited
    else .missing

end Elements

structure ReportSpec where
  root : String
  elements : Elements
  state : Option Json := none

/-! ## Tables -/

section

variable (env : ReportEnv)

/-- The strings of a list of children. -/
def childStrings : Option Json → List String
  | some (.arr items) => items.filterMap Json.text?
  | _ => []

/-- The element of an entry with a type. -/
def normalizedElement (fields : List (String × Json)) (type : String) : ReportElement :=
  let propsFields := recordFields (lastField fields "props")
  let type := normalizeReportComponentType env type { fields := propsFields }
  { type := type
    props := env.rewriteProps type propsFields
    children := childStrings (lastField fields "children") }

/-- The loop over the entries. -/
def readElements : List (String × Json) → Elements → Option Elements
  | [], es => some es
  | (id, value) :: entries, es =>
    match value with
    | .obj fields =>
      match (lastField fields "type").bind Json.text? with
      | some type => readElements entries (es.set id (normalizedElement env fields type))
      | none => none
    | _ => none

def parseNormalizedSpec (root : String) (rawElements : List (String × Json)) (state : Option Json) :
    Option ReportSpec :=
  match readElements env rawElements {} with
  | none => none
  | some elements =>
    match elements.get root with
    | .missing => none
    | _ =>
      some { root := root
             elements := elements
             state := match state with
               | some (.obj fields) => some (.obj fields)
               | _ => none }

/-! ## Trees -/

structure TreeState where
  elements : Elements := {}
  nextId : Nat := 0

def nodeId (n : Nat) : String := "node_" ++ toString n

/-- The id of a node: a given one, or the next number. -/
def TreeState.takeId (st : TreeState) : Option String → String × TreeState
  | some id => (id, st)
  | none => (nodeId (st.nextId + 1), { st with nextId := st.nextId + 1 })

def TreeState.set (st : TreeState) (id : String) (element : ReportElement) : TreeState :=
  { st with elements := st.elements.set id element }

/-- The type of a node, empty if it has none. -/
def nodeType (fields : List (String × Json)) : String :=
  match (lastField fields "component").bind Json.text? with
  | some type => type
  | none => ((lastField fields "type").bind Json.text?).getD ""

def extractTreeProps (fields : List (String × Json)) : Props :=
  fields.foldl
    (fun props field =>
      if ["component", "type", "children", "props"].contains field.1 then props
      else props.set field.1 field.2)
    { fields := recordFields (lastField fields "props") }

/-- The children of a node: one text, or a list of nodes. -/
def childNodes (fields : List (String × Json)) : List Json :=
  match lastField fields "children" with
  | some (.str text) => [.str text]
  | some (.arr items) => items
  | _ => []

def textElement (text : String) : ReportElement :=
  { type := .text "Text", props := [("content", .str text)], children := [] }

def treeElement (fields : List (String × Json)) (children : List String) : ReportElement :=
  let props := extractTreeProps fields
  let type := normalizeReportComponentType env (nodeType fields) props
  { type := type, props := env.rewriteProps type props.fields, children := children }

theorem sizeOf_lastField {fields : List (String × Json)} {name : String} {value : Json}
    (h : lastField fields name = some value) : 2 + sizeOf value < sizeOf (Json.obj fields) := by
  obtain ⟨f, hfind, rfl⟩ := Option.map_eq_some_iff.mp h
  have hmem : f ∈ fields := List.mem_reverse.mp (List.mem_of_find?_eq_some hfind)
  have hlt := List.sizeOf_lt_of_mem hmem
  obtain ⟨key, value⟩ := f
  simp only [Prod.mk.sizeOf_spec] at hlt
  simp only [Json.obj.sizeOf_spec]
  omega

theorem sizeOf_childNodes (fields : List (String × Json)) :
    sizeOf (childNodes fields) < sizeOf (Json.obj fields) := by
  unfold childNodes
  split
  · rename_i text h
    have hlt := sizeOf_lastField h
    simp only [List.cons.sizeOf_spec, List.nil.sizeOf_spec]
    omega
  · rename_i items h
    have hlt := sizeOf_lastField h
    simp only [Json.arr.sizeOf_spec] at hlt
    omega
  · cases fields with
    | nil => simp
    | cons f fields =>
      simp only [List.nil.sizeOf_spec, Json.obj.sizeOf_spec, List.cons.sizeOf_spec]
      omega

mutual

/-- `addNode`: the id of the node, if it is accepted. -/
def addNode (node : Json) (id : Option String) (st : TreeState) : Option String × TreeState :=
  match node with
  | .str text =>
    let r := st.takeId id
    (some r.1, r.2.set r.1 (textElement text))
  | .obj fields =>
    if nodeType fields = "" then (none, st)
    else
      let r := st.takeId id
      let children := addNodes (childNodes fields) r.2
      (some r.1, children.2.set r.1 (treeElement env fields children.1))
  | _ => (none, st)
termination_by sizeOf node
decreasing_by exact sizeOf_childNodes fields

/-- The loop over the children. -/
def addNodes (nodes : List Json) (st : TreeState) : List String × TreeState :=
  match nodes with
  | [] => ([], st)
  | node :: nodes =>
    let r := addNode node none st
    let rest := addNodes nodes r.2
    (r.1.toList ++ rest.1, rest.2)
termination_by sizeOf nodes
decreasing_by
  · simp only [List.cons.sizeOf_spec]
    omega
  · simp only [List.cons.sizeOf_spec]
    omega

end

def parseTreeSpec (rootNode : List (String × Json)) : Option ReportSpec :=
  match addNode env (.obj rootNode) (some "root") {} with
  | (none, _) => none
  | (some root, st) =>
    match st.elements.get root with
    | .missing => none
    | _ => some { root := root, elements := st.elements }

/-- A normalized spec, a tree, or neither. -/
inductive Dialect where
  | table (root : String) (rawElements : List (String × Json)) (state : Option Json)
  | tree (node : List (String × Json))
  | none

def dialect : Json → Dialect
  | .obj fields =>
    match lastField fields "root", lastField fields "elements" with
    | some (.str root), some (.obj rawElements) => .table root rawElements (lastField fields "state")
    | _, _ =>
      if ((lastField fields "component").bind Json.text?).isSome
          || ((lastField fields "type").bind Json.text?).isSome then .tree fields
      else .none
  | _ => .none

def parseReportSpec (raw : String) : Option ReportSpec :=
  match env.parse (trimJs raw) with
  | none => none
  | some parsed =>
    match dialect parsed with
    | .table root rawElements state => parseNormalizedSpec env root rawElements state
    | .tree node => parseTreeSpec env node
    | .none => none

end

/-! ## Rendering -/

/-- A rendered element: a fallback for a missing or a recursive id, a
component, or a value that is no entry of the table and that
`RenderedElement` takes for one. -/
inductive Rendered where
  | missing (id : String)
  | recursive
  | stray (id : String)
  | component (element : ReportElement) (children : List Rendered)

/-- `RenderedElement`, with the levels that are left below depth 31. -/
def renderedElement (es : Elements) : Nat → String → List String → Rendered
  | left, id, seen =>
    match es.get id with
    | .missing => .missing id
    | .inherited => .stray id
    | .own element =>
      match left with
      | 0 => .recursive
      | left + 1 =>
        if seen.contains id then .recursive
        else .component element
          (element.children.map fun childId => renderedElement es left childId (id :: seen))

def reportRenderer (spec : ReportSpec) : Rendered := renderedElement spec.elements 31 spec.root []

mutual

/-- No value of the tree is a stray one. -/
def Rendered.safe : Rendered → Bool
  | .missing _ => true
  | .recursive => true
  | .stray _ => false
  | .component _ children => Rendered.safeAll children

def Rendered.safeAll : List Rendered → Bool
  | [] => true
  | r :: rs => r.safe && Rendered.safeAll rs

end

end LendingClaw.Ui
