/-
LendingClaw.Providers.MessageJson — a message as a JSON value
(`Message`, `ToolCall` and `Message.UnmarshalJSON` of
`internal/providers/types.go`).

`marshalJSON` is what the struct tags make `json.Marshal` write.
`unmarshalJSON` reads each field under its own name or, where that is
absent, under the capitalized name of older rows, and ignores a field of
the wrong type. What is written is read back unchanged.
-/
import LendingClaw.Providers.Types

namespace LendingClaw.Providers

/-- A JSON value, as far as messages look into it: an argument object is
kept whole, and `other` is a number or a boolean. -/
inductive Json where
  | null
  | str (text : String)
  | arr (items : List Json)
  | obj (fields : List (String × Json))
  | args (arguments : Arguments)
  | other

/-- The text of a role. -/
def Role.text : Role → String
  | .system => "system"
  | .user => "user"
  | .assistant => "assistant"
  | .tool => "tool"
  | .other text _ => text

/-- The role of a text. -/
def Role.ofText (text : String) : Role :=
  if h : text ∈ ["system", "user", "assistant", "tool"] then
    if text = "system" then .system
    else if text = "user" then .user
    else if text = "assistant" then .assistant
    else .tool
  else .other text h

@[simp] theorem Role.ofText_text (role : Role) : Role.ofText role.text = role := by
  cases role with
  | other text unnamed => exact dif_neg unnamed
  | _ => rfl

/-- The nil argument map. -/
def nilArguments : Arguments := { json := "null" }

/-! ## Writing -/

def Arguments.marshalJSON (arguments : Arguments) : Json :=
  if arguments = nilArguments then .null else .args arguments

def ToolCall.marshalJSON (tc : ToolCall) : Json :=
  .obj [("id", .str tc.id), ("name", .str tc.name), ("arguments", tc.arguments.marshalJSON)]

/-- The two tool fields are omitted when empty. -/
def Message.marshalJSON (m : Message) : Json :=
  .obj ([("role", .str m.role.text), ("content", .str m.content)]
    ++ (if m.toolCalls = [] then []
        else [("tool_calls", .arr (m.toolCalls.map ToolCall.marshalJSON))])
    ++ (if m.toolCallID = "" then [] else [("tool_call_id", .str m.toolCallID)]))

/-- The history column. -/
def marshalHistory (msgs : List Message) : Json := .arr (msgs.map Message.marshalJSON)

/-! ## Reading -/

/-- The entry of a decoded object: the last field of the name. -/
def rawField (fields : List (String × Json)) (name : String) : Option Json :=
  fields.reverse.lookup name

/-- `json.Unmarshal` into a string that is still empty. -/
def readString : Option Json → String
  | some (.str text) => text
  | _ => ""

/-- A struct field accepts its name in any case; the long s folds to s
and the Kelvin sign to k. -/
def foldName (name : String) : String :=
  String.ofList (name.toList.map
    (fun c => if c = 'ſ' then 's' else if c = '\u212A' then 'k' else c.toLower))

/-- The struct decoder takes the fields in turn; a value of the wrong
type leaves the field as it is. -/
def ToolCall.setField (tc : ToolCall) (field : String × Json) : ToolCall :=
  match foldName field.1, field.2 with
  | "id", .str text => { tc with id := text }
  | "name", .str text => { tc with name := text }
  | "arguments", .args arguments => { tc with arguments := arguments }
  | "arguments", .null => { tc with arguments := nilArguments }
  | _, _ => tc

def zeroToolCall : ToolCall := { id := "", name := "", arguments := nilArguments }

def ToolCall.unmarshalJSON : Json → ToolCall
  | .obj fields => fields.foldl ToolCall.setField zeroToolCall
  | _ => zeroToolCall

def readToolCalls : Option Json → List ToolCall
  | some (.arr items) => items.map ToolCall.unmarshalJSON
  | _ => []

def zeroMessage : Message :=
  { role := Role.ofText "", content := "", toolCalls := [], toolCallID := "" }

/-- `Message.UnmarshalJSON`; none is the error for anything but an object
and null. -/
def Message.unmarshalJSON : Json → Option Message
  | .obj fields =>
    let raw := rawField fields
    some
      { role := Role.ofText (readString ((raw "role").or (raw "Role")))
        content := readString ((raw "content").or (raw "Content"))
        toolCalls := readToolCalls ((raw "tool_calls").or (raw "ToolCalls"))
        toolCallID := readString ((raw "tool_call_id").or (raw "ToolCallID")) }
  | .null => some zeroMessage
  | _ => none

/-- The slice decoder stops at the first error, with the element it has
just added still empty. -/
def unmarshalMessages : List Json → List Message
  | [] => []
  | item :: items =>
    match Message.unmarshalJSON item with
    | some m => m :: unmarshalMessages items
    | none => [zeroMessage]

/-- `json.Unmarshal` of the history column; its error is not looked at. -/
def unmarshalHistory : Json → List Message
  | .arr items => unmarshalMessages items
  | _ => []

/-! ## Round trip -/

theorem ToolCall.unmarshal_marshal (tc : ToolCall) :
    ToolCall.unmarshalJSON tc.marshalJSON = tc := by
  have hid : foldName "id" = "id" := by decide
  have hname : foldName "name" = "name" := by decide
  have hargs : foldName "arguments" = "arguments" := by decide
  simp only [ToolCall.marshalJSON, ToolCall.unmarshalJSON, List.foldl_cons, List.foldl_nil,
    ToolCall.setField, hid, hname, hargs, Arguments.marshalJSON]
  by_cases h : tc.arguments = nilArguments
  · rw [if_pos h]
    simp [← h]
  · rw [if_neg h]
    rfl

theorem readToolCalls_marshal (calls : List ToolCall) :
    readToolCalls (some (.arr (calls.map ToolCall.marshalJSON))) = calls := by
  simp only [readToolCalls, List.map_map]
  induction calls with
  | nil => rfl
  | cons tc calls ih => rw [List.map_cons, ih, Function.comp, tc.unmarshal_marshal]

/-- An omitted field is read as the empty one it stands for. -/
theorem Message.unmarshal_marshal (m : Message) :
    Message.unmarshalJSON m.marshalJSON = some m := by
  obtain ⟨role, content, toolCalls, toolCallID⟩ := m
  by_cases hcalls : toolCalls = []
  · by_cases hid : toolCallID = ""
    · simp [Message.marshalJSON, Message.unmarshalJSON, rawField, readString, readToolCalls,
        List.lookup_cons, hcalls, hid]
    · simp [Message.marshalJSON, Message.unmarshalJSON, rawField, readString, readToolCalls,
        List.lookup_cons, hcalls, hid]
  · by_cases hid : toolCallID = ""
    · simp [Message.marshalJSON, Message.unmarshalJSON, rawField, readString,
        readToolCalls_marshal, List.lookup_cons, hcalls, hid]
    · simp [Message.marshalJSON, Message.unmarshalJSON, rawField, readString,
        readToolCalls_marshal, List.lookup_cons, hcalls, hid]

theorem unmarshalHistory_marshalHistory (msgs : List Message) :
    unmarshalHistory (marshalHistory msgs) = msgs := by
  simp only [marshalHistory, unmarshalHistory]
  induction msgs with
  | nil => rfl
  | cons m msgs ih => rw [List.map_cons, unmarshalMessages, m.unmarshal_marshal, ih]

end LendingClaw.Providers
