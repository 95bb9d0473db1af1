/-
LendingClaw.Providers.Types — the messages of a conversation
(`internal/providers/types.go`).

`Message.Role` is a plain string in the source with four documented
values; `Role` names the four and keeps any other text as it is. A nil
and an empty tool call slice are the same list: no function tells them
apart, and `omitempty` writes neither.
-/

namespace LendingClaw.Providers

inductive Role where
  | system
  | user
  | assistant
  | tool
  | other (text : String) (unnamed : text ∉ ["system", "user", "assistant", "tool"])
  deriving DecidableEq

/-- A decoded argument object, as the text `json.Marshal` writes for it:
keys sorted, so two objects are equal exactly when their texts are. -/
structure Arguments where
  json : String
  deriving DecidableEq

structure ToolCall where
  id : String
  name : String
  arguments : Arguments
  deriving DecidableEq

structure Message where
  role : Role
  content : String
  toolCalls : List ToolCall
  toolCallID : String
  deriving DecidableEq

/-- A message without tool data. -/
def textMessage (role : Role) (content : String) : Message :=
  { role := role, content := content, toolCalls := [], toolCallID := "" }

/-- What a call hands to the provider. The tool definitions, the model and
the sampling options are constants of a loop and are left out. -/
structure ChatRequest where
  messages : List Message
  maxTokens : Int
  deriving DecidableEq

structure Usage where
  promptTokens : Int
  completionTokens : Int
  totalTokens : Int
  cacheCreationTokens : Int
  cacheReadTokens : Int
  deriving DecidableEq

structure ChatResponse where
  content : String
  toolCalls : List ToolCall
  finishReason : String
  usage : Option Usage
  deriving DecidableEq

structure StreamChunk where
  content : String
  done : Bool
  deriving DecidableEq

end LendingClaw.Providers
