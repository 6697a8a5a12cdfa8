import Sysknife.Json
import Sysknife.Lib.Pattern

/-!
# Model providers

A conversation with a model is a list of messages, each a list of blocks: text, calls of tools,
and results of tools. A provider answers one with a completion or an error.

Two messages belong together when the second carries the results of the calls in the first.
`WellFormed` is what a provider asks of a whole conversation: the results of a message answer the
calls of the message before it, one each and in their order, and no call is left open.
-/

namespace Sysknife.Brain

open Text

/-- A block of a message. -/
inductive ContentBlock
  | text (text : String)
  | toolUse (id : String) (callId : Option String) (name : String) (input : Value)
  | toolResult (toolUseId : String) (callId : Option String) (content : String) (isError : Bool)

inductive Role
  | user
  | assistant
  deriving DecidableEq, Repr

structure Message where
  role : Role
  content : List ContentBlock

/-- The result of one call of a tool. -/
structure ToolResultBlock where
  toolUseId : String
  callId : Option String
  content : String
  isError : Bool

namespace Message

def userText (text : String) : Message := ⟨.user, [.text text]⟩

/-- The message that carries the results of tools. -/
def toolResults (results : List ToolResultBlock) : Message :=
  ⟨.user, results.map fun r => .toolResult r.toolUseId r.callId r.content r.isError⟩

end Message

/-- A tool as it is offered to the model. -/
structure ToolDefinition where
  name : String
  description : String
  inputSchema : Value

inductive StopReason
  | endTurn
  | toolUse
  | maxTokens
  deriving DecidableEq, Repr

/-- What a provider answers with. -/
structure Completion where
  content : List ContentBlock
  stopReason : StopReason

/-! ### Errors -/

inductive ProviderError
  | http (status : ℕ) (body : String)
  | auth (message : String)
  | rateLimit (message : String)
  | parse (message : String)
  | request (message : String)
  | cassetteMiss (message : String)
  deriving DecidableEq, Repr

namespace ProviderError

/-- The error as it is shown. -/
def message : ProviderError → String
  | .http status body => "http error " ++ toString status ++ ": " ++ body
  | .auth m => "authentication failed: " ++ m
  | .rateLimit m => "rate limited: " ++ m
  | .parse m => "invalid response: " ++ m
  | .request m => "request error: " ++ m
  | .cassetteMiss m => "cassette miss: " ++ m

/-- What providers say of a call of a tool that does not exist. No letter outside ASCII becomes
part of either text in lower case. -/
def markers : List String := ["tool_use_failed", "was not in request.tools"]

/-- The provider rejected the request because the model named a tool that does not exist. -/
def isInvalidToolCall (e : ProviderError) : Bool :=
  match e with
  | .auth _ | .cassetteMiss _ => false
  | _ => markers.any fun m => contains m (lower e.message)

/-- Asking again could succeed. -/
def isRetryable (e : ProviderError) : Bool :=
  match e with
  | .parse _ => true
  | .request _ => true
  | .http status _ =>
    decide (500 ≤ status) || status == 429 || status == 408 || e.isInvalidToolCall
  | .rateLimit _ => true
  | .auth _ => false
  | .cassetteMiss _ => false

/-- A correction is only ever offered where the request is made again. -/
theorem isRetryable_of_isInvalidToolCall {e : ProviderError} (h : e.isInvalidToolCall = true) :
    e.isRetryable = true := by
  cases e with
  | http status body => simp [isRetryable, h]
  | auth m => exact h
  | rateLimit m => rfl
  | parse m => rfl
  | request m => rfl
  | cassetteMiss m => exact h

end ProviderError

/-! ### Calls and their results -/

/-- A call of a tool, as the planner takes it out of a completion. -/
structure ToolCall where
  id : String
  callId : Option String
  name : String
  input : Value

namespace ContentBlock

/-- The call a block makes. -/
def asToolUse : ContentBlock → Option ToolCall
  | .toolUse id callId name input => some ⟨id, callId, name, input⟩
  | _ => none

/-- The call a block answers. -/
def answers : ContentBlock → Option (String × Option String)
  | .toolResult toolUseId callId _ _ => some (toolUseId, callId)
  | _ => none

def isText : ContentBlock → Bool
  | .text _ => true
  | _ => false

end ContentBlock

/-- The identifiers a result has to repeat. -/
def ToolCall.key (call : ToolCall) : String × Option String := (call.id, call.callId)

def ToolResultBlock.key (result : ToolResultBlock) : String × Option String :=
  (result.toolUseId, result.callId)

def Completion.toolCalls (c : Completion) : List ToolCall :=
  c.content.filterMap ContentBlock.asToolUse

def Completion.hasText (c : Completion) : Bool := c.content.any ContentBlock.isText

namespace Message

/-- The calls a message leaves open. -/
def asks (m : Message) : List (String × Option String) :=
  (m.content.filterMap ContentBlock.asToolUse).map ToolCall.key

/-- The calls a message answers. -/
def answers (m : Message) : List (String × Option String) :=
  m.content.filterMap ContentBlock.answers

@[simp] theorem asks_userText (s : String) : (userText s).asks = [] := rfl

@[simp] theorem answers_userText (s : String) : (userText s).answers = [] := rfl

@[simp] theorem asks_toolResults (results : List ToolResultBlock) :
    (toolResults results).asks = [] := by
  simp [asks, toolResults, ContentBlock.asToolUse, Function.comp_def]

@[simp] theorem answers_toolResults (results : List ToolResultBlock) :
    (toolResults results).answers = results.map ToolResultBlock.key := by
  simp only [answers, toolResults, List.filterMap_map]
  exact congrFun List.filterMap_eq_map results

end Message

/-- The rest of a conversation answers the calls that are open, and leaves none open. Only the
model calls tools. -/
def Closes : List (String × Option String) → List Message → Prop
  | pending, [] => pending = []
  | pending, m :: rest =>
    m.answers = pending ∧ (m.role = .user → m.asks = []) ∧ Closes m.asks rest

/-- Every call of the model is answered in the very next message, by one result under its own
identifiers and in the order of the calls, and there is no other result. -/
def WellFormed (messages : List Message) : Prop := Closes [] messages

/-- What has been closed may be gone on with. -/
theorem closes_append {pending : List (String × Option String)} {messages rest : List Message}
    (h : Closes pending messages) : Closes pending (messages ++ rest) ↔ Closes [] rest := by
  induction messages generalizing pending with
  | nil =>
    obtain rfl : pending = [] := h
    rfl
  | cons m messages ih =>
    obtain ⟨hanswers, huser, hrest⟩ := h
    rw [List.cons_append, Closes, ih hrest]
    exact ⟨fun h => h.2.2, fun h => ⟨hanswers, huser, h⟩⟩

theorem WellFormed.append_iff {messages rest : List Message} (h : WellFormed messages) :
    WellFormed (messages ++ rest) ↔ WellFormed rest :=
  closes_append h

theorem wellFormed_userText (s : String) : WellFormed [.userText s] := ⟨rfl, fun _ => rfl, rfl⟩

theorem WellFormed.userText {messages : List Message} (h : WellFormed messages) (s : String) :
    WellFormed (messages ++ [.userText s]) :=
  h.append_iff.mpr (wellFormed_userText s)

end Sysknife.Brain
