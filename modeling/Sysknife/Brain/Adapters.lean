import Sysknife.Brain.Provider

/-!
# Adapters

The two adapters that turn a provider's response into a completion. Where the provider reports
why it stopped, that is what the completion says (`fromOpenaiResponse`); where it does not, the
completion stopped for tools exactly if it calls one (`fromRigResponse`).

So a completion of the second kind says of itself whether it calls tools
(`stopReason_of_fromRigResponse`), while one of the first kind says so only if the provider did
(`stopReason_of_fromOpenaiResponse`).
-/

namespace Sysknife.Brain

/-! ### Chat completions -/

inductive FinishReason
  | stop
  | length
  | toolCalls
  | contentFilter
  | functionCall
  deriving DecidableEq, Repr

/-- A call in a response; its arguments are text. -/
inductive ChatToolCall
  | function (id name arguments : String)
  | custom

structure ChatChoice where
  content : Option String
  toolCalls : Option (List ChatToolCall)
  finishReason : Option FinishReason

structure ChatCompletionResponse where
  choices : List ChatChoice

/-- Why a completion stopped, as its provider reports it. -/
def FinishReason.stopReason : Option FinishReason → StopReason
  | some .toolCalls => .toolUse
  | some .length => .maxTokens
  | _ => .endTurn

/-- A block for a text that is not empty. -/
def textBlock (text : String) : List ContentBlock := if text = "" then [] else [.text text]

/-- The blocks of the calls of functions; other calls are skipped. -/
def functionBlocks (fromStr : String → Except String Value) (debug : String → String) :
    List ChatToolCall → Except ProviderError (List ContentBlock)
  | [] => .ok []
  | .custom :: calls => functionBlocks fromStr debug calls
  | .function id name arguments :: calls =>
    match fromStr arguments with
    | .error e => .error (.parse ("tool call '" ++ name ++ "' has invalid JSON arguments: " ++ e ++
        " — raw: " ++ debug arguments))
    | .ok input => (functionBlocks fromStr debug calls).map fun blocks =>
        .toolUse id none name input :: blocks

/-- The completion of a response's first choice. `fromStr` parses JSON, `debug` quotes a text. -/
def fromOpenaiResponse (fromStr : String → Except String Value) (debug : String → String)
    (response : ChatCompletionResponse) : Except ProviderError Completion := do
  match response.choices.head? with
  | none => .error (.parse "response contained no choices")
  | some choice =>
    if choice.finishReason = some .contentFilter then
      .error (.request ("OpenAI content filter blocked the response — " ++
        "the request was refused on content-policy grounds"))
    else
      let blocks ← functionBlocks fromStr debug (choice.toolCalls.getD [])
      let content := (choice.content.elim [] textBlock) ++ blocks
      if content.isEmpty then
        .error (.parse "model response contained no text or tool calls")
      else .ok ⟨content, FinishReason.stopReason choice.finishReason⟩

/-! ### Responses without a stop reason -/

inductive AssistantContent
  | text (text : String)
  | toolCall (id : String) (callId : Option String) (name : String) (arguments : Value)
  | reasoning
  | image

/-- A response is not empty. -/
structure OneOrMany where
  first : AssistantContent
  rest : List AssistantContent

/-- The block of an item; reasoning and images are skipped. -/
def AssistantContent.block : AssistantContent → List ContentBlock
  | .text s => textBlock s
  | .toolCall id callId name arguments =>
    [.toolUse id (callId.filter (· ≠ "")) name arguments]
  | .reasoning => []
  | .image => []

def AssistantContent.isToolCall : AssistantContent → Bool
  | .toolCall _ _ _ _ => true
  | _ => false

/-- The completion of a response. Why it stopped is inferred from whether it calls a tool. -/
def fromRigResponse (choice : OneOrMany) : Except ProviderError Completion :=
  let items := choice.first :: choice.rest
  let content := items.flatMap AssistantContent.block
  if content.isEmpty then
    .error (.parse ("model response contained only unsupported content types " ++
      "(reasoning/image); no text or tool calls found"))
  else .ok ⟨content, if items.any AssistantContent.isToolCall then .toolUse else .endTurn⟩

/-! ### What a completion says of itself -/

/-- The model writes text and calls tools; it does not answer its own calls. -/
def Completion.Spoken (c : Completion) : Prop := ∀ b ∈ c.content, b.answers = none

/-- A completion that calls tools has stopped for them. -/
def Completion.Announced (c : Completion) : Prop := c.toolCalls ≠ [] → c.stopReason = .toolUse

theorem answers_eq_none_of_textBlock {text : String} {b : ContentBlock} (h : b ∈ textBlock text) :
    b.answers = none := by
  unfold textBlock at h
  split_ifs at h with hempty
  · cases h
  · obtain rfl := List.mem_singleton.mp h
    rfl

theorem asToolUse_textBlock (text : String) :
    (textBlock text).filterMap ContentBlock.asToolUse = [] := by
  unfold textBlock
  split_ifs
  · rfl
  · rfl

section Chat

variable {fromStr : String → Except String Value} {debug : String → String}

theorem answers_eq_none_of_functionBlocks {calls : List ChatToolCall} {blocks : List ContentBlock}
    (h : functionBlocks fromStr debug calls = .ok blocks) : ∀ b ∈ blocks, b.answers = none := by
  induction calls generalizing blocks with
  | nil =>
    obtain rfl := Except.ok.inj h
    exact fun b hb => absurd hb List.not_mem_nil
  | cons call calls ih =>
    cases call with
    | custom => exact ih h
    | function id name arguments =>
      simp only [functionBlocks] at h
      cases hparse : fromStr arguments with
      | error e => simp [hparse] at h
      | ok input =>
        rw [hparse] at h
        cases hrest : functionBlocks fromStr debug calls with
        | error e => simp [hrest, Except.map] at h
        | ok rest =>
          rw [hrest] at h
          obtain rfl := Except.ok.inj h
          intro b hb
          obtain rfl | hb := List.mem_cons.mp hb
          · rfl
          · exact ih hrest b hb

/-- A response's completion: its first choice, reported as the provider did. -/
theorem fromOpenaiResponse_eq_ok {response : ChatCompletionResponse} {c : Completion}
    (h : fromOpenaiResponse fromStr debug response = .ok c) :
    ∃ choice blocks, response.choices.head? = some choice ∧
      functionBlocks fromStr debug (choice.toolCalls.getD []) = .ok blocks ∧
      c.content = choice.content.elim [] textBlock ++ blocks ∧
      c.stopReason = FinishReason.stopReason choice.finishReason := by
  unfold fromOpenaiResponse at h
  cases hchoice : response.choices.head? with
  | none => simp [hchoice] at h
  | some choice =>
    simp only [hchoice] at h
    split_ifs at h with hfilter
    cases hblocks : functionBlocks fromStr debug (choice.toolCalls.getD []) with
    | error e => simp [hblocks, bind, Except.bind] at h
    | ok blocks =>
      simp only [hblocks, bind, Except.bind] at h
      split_ifs at h with hempty
      obtain rfl := Except.ok.inj h
      exact ⟨choice, blocks, rfl, hblocks, rfl, rfl⟩

/-- The provider's report is passed on. -/
theorem stopReason_of_fromOpenaiResponse {response : ChatCompletionResponse} {c : Completion}
    (h : fromOpenaiResponse fromStr debug response = .ok c) :
    c.stopReason =
      FinishReason.stopReason (response.choices.head?.bind ChatChoice.finishReason) := by
  obtain ⟨choice, blocks, hchoice, -, -, hstop⟩ := fromOpenaiResponse_eq_ok h
  rw [hstop, hchoice]
  rfl

theorem spoken_of_fromOpenaiResponse {response : ChatCompletionResponse} {c : Completion}
    (h : fromOpenaiResponse fromStr debug response = .ok c) : c.Spoken := by
  obtain ⟨choice, blocks, -, hblocks, hcontent, -⟩ := fromOpenaiResponse_eq_ok h
  intro b hb
  rw [hcontent] at hb
  obtain htext | hcall := List.mem_append.mp hb
  · cases hc : choice.content with
    | none =>
      rw [hc] at htext
      exact absurd htext List.not_mem_nil
    | some text =>
      rw [hc] at htext
      exact answers_eq_none_of_textBlock htext
  · exact answers_eq_none_of_functionBlocks hblocks b hcall

end Chat

theorem fromRigResponse_eq_ok {choice : OneOrMany} {c : Completion}
    (h : fromRigResponse choice = .ok c) :
    c.content = (choice.first :: choice.rest).flatMap AssistantContent.block ∧
      c.stopReason = if (choice.first :: choice.rest).any AssistantContent.isToolCall then .toolUse
        else .endTurn := by
  unfold fromRigResponse at h
  simp only at h
  split_ifs at h with hempty
  all_goals
    obtain rfl := Except.ok.inj h
    simp_all

theorem spoken_of_fromRigResponse {choice : OneOrMany} {c : Completion}
    (h : fromRigResponse choice = .ok c) : c.Spoken := by
  obtain ⟨hcontent, -⟩ := fromRigResponse_eq_ok h
  intro b hb
  rw [hcontent] at hb
  obtain ⟨item, -, hb⟩ := List.mem_flatMap.mp hb
  cases item with
  | text text => exact answers_eq_none_of_textBlock hb
  | toolCall id callId name arguments =>
    obtain rfl := List.mem_singleton.mp hb
    rfl
  | reasoning => exact absurd hb List.not_mem_nil
  | image => exact absurd hb List.not_mem_nil

/-- Without a report, a completion that calls tools is always announced. -/
theorem announced_of_fromRigResponse {choice : OneOrMany} {c : Completion}
    (h : fromRigResponse choice = .ok c) : c.Announced := by
  obtain ⟨hcontent, hstop⟩ := fromRigResponse_eq_ok h
  intro hcalls
  have hany : (choice.first :: choice.rest).any AssistantContent.isToolCall = true := by
    by_contra hnone
    refine hcalls ?_
    rw [Completion.toolCalls, hcontent, List.filterMap_flatMap, List.flatMap_eq_nil_iff]
    intro item hitem
    cases item with
    | text text => exact asToolUse_textBlock text
    | toolCall id callId name arguments =>
      exact absurd (List.any_eq_true.mpr ⟨_, hitem, rfl⟩) hnone
    | reasoning => rfl
    | image => rfl
  rw [hstop, if_pos hany]

end Sysknife.Brain
