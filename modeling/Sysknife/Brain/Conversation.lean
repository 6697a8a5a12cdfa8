import Sysknife.Brain.Adapters
import Sysknife.Brain.Planner

/-!
# The conversation of a planner

The planner goes by the stop reason of a completion: it carries out tool calls if the completion
stopped for them, and takes the completion for prose if it says that its turn has ended. An adapter
may report a stop reason that does not fit the content. Then calls stay unanswered in the next
request, and a proposed plan is not looked at.

* `turnTalk_runTurn`: what a turn makes of a well-formed conversation.
* `conversed_iff`: **every request is well formed and every valid plan is heard if and only if the
  completions announce their calls where it matters.**
-/

namespace Sysknife.Brain

/-! ### Pieces of a conversation -/

/-- Text of the user closes nothing, so all was closed before it. -/
theorem closes_of_append_userText {pending : List (String × Option String)}
    {messages rest : List Message} {s : String}
    (h : Closes pending (messages ++ .userText s :: rest)) : Closes pending messages := by
  induction messages generalizing pending with
  | nil => exact h.1.symm
  | cons m messages ih => exact ⟨h.1, h.2.1, ih h.2.2⟩

/-- Texts of the user may follow what is well formed, and nothing else. -/
theorem wellFormed_append_userTexts {messages : List Message} {texts : List String} :
    WellFormed (messages ++ texts.map Message.userText) ↔ WellFormed messages := by
  constructor
  · intro h
    cases texts with
    | nil => simpa using h
    | cons s texts => exact closes_of_append_userText h
  · intro h
    refine h.append_iff.mpr ?_
    induction texts with
    | nil => rfl
    | cons s texts ih => exact ⟨rfl, fun _ => rfl, ih⟩

section Spoken

variable {messages : List Message} {c : Completion}

theorem answers_of_spoken (h : c.Spoken) : (⟨.assistant, c.content⟩ : Message).answers = [] :=
  List.filterMap_eq_nil_iff.mpr h

/-- The results of the calls close a completion. -/
theorem WellFormed.results (h : WellFormed messages) (hspoken : c.Spoken)
    {results : List ToolResultBlock}
    (hkeys : results.map ToolResultBlock.key = c.toolCalls.map ToolCall.key) :
    WellFormed (messages ++ [⟨.assistant, c.content⟩] ++ [.toolResults results]) := by
  rw [List.append_assoc, h.append_iff]
  refine ⟨answers_of_spoken hspoken, (fun hrole => by cases hrole), ?_, fun _ => ?_, ?_⟩
  · rw [Message.answers_toolResults, hkeys]
    rfl
  · exact Message.asks_toolResults results
  · exact Message.asks_toolResults results

/-- A text closes a completion exactly if the completion calls nothing. -/
theorem WellFormed.prose_iff (h : WellFormed messages) (hspoken : c.Spoken) (s : String) :
    WellFormed (messages ++ [⟨.assistant, c.content⟩] ++ [.userText s]) ↔ c.toolCalls = [] := by
  rw [List.append_assoc, h.append_iff]
  constructor
  · rintro ⟨-, -, hanswers, -⟩
    exact List.map_eq_nil_iff.mp hanswers.symm
  · intro hnone
    refine ⟨answers_of_spoken hspoken, (fun hrole => by cases hrole), ?_, fun _ => rfl, rfl⟩
    show [] = c.toolCalls.map ToolCall.key
    rw [hnone, List.map_nil]

end Spoken

/-! ### What a planner promises its provider -/

section Conversed

variable {σ : Type} (lib : Library) (p : Planner σ) (intent : String)

/-- A completion that one of the adapters can return. -/
inductive Adapted (c : Completion) : Prop
  | openai (response : ChatCompletionResponse)
    (h : fromOpenaiResponse lib.fromStr lib.debug response = .ok c)
  | rig (choice : OneOrMany) (h : fromRigResponse choice = .ok c)

/-- The completion of a turn, if its provider answered at last. -/
def Turn.completion (t : Turn σ) : Option Completion :=
  t.attempts.getLast?.bind fun a => a.answer.toOption

/-- A call of the completion proposes a valid plan. -/
def Completion.Proposes (c : Completion) : Prop :=
  ∃ call ∈ c.toolCalls, call.name = "propose_plan" ∧
    ∃ plan, parseProposedPlan lib intent call.input = .ok plan

/-- Every request is well formed, and the calls of a completion that proposes a valid plan are
carried out, whatever its stop reason. -/
structure Conversed (turns : List (Turn σ)) : Prop where
  wellFormed (t : Turn σ) (ht : t ∈ turns) (a : Attempt) (ha : a ∈ t.attempts) :
    WellFormed a.messages
  heard (t : Turn σ) (ht : t ∈ turns) (c : Completion) (hc : t.completion = some c)
    (hplan : c.Proposes lib intent) : t.carried ≠ []

/-- A completion that says its turn has ended calls no tool, where there is another turn. -/
def Ends (i : ℕ) (t : Turn σ) : Prop :=
  ∀ c, t.completion = some c → c.stopReason = .endTurn → c.hasText = true → i + 1 < p.maxTurns →
    c.toolCalls = []

/-- A completion that proposes a valid plan says that it calls tools. -/
def Turn.Proposing (t : Turn σ) : Prop :=
  ∀ c, t.completion = some c → c.Proposes lib intent → c.stopReason = .toolUse

end Conversed

section Conversed

variable {σ : Type} {lib : Library} {p : Planner σ} {intent system : String} {turn : ℕ}

theorem Adapted.spoken {c : Completion} (h : Adapted lib c) : c.Spoken := by
  cases h with
  | openai response h => exact spoken_of_fromOpenaiResponse h
  | rig choice h => exact spoken_of_fromRigResponse h

variable (lib p intent) in
/-- What a turn makes of a conversation that was well formed. -/
structure TurnTalk (r : TurnEnd × Turn σ × Host σ) (turn : ℕ) : Prop where
  asked (a : Attempt) (ha : a ∈ r.2.1.attempts) : WellFormed a.messages
  heard : (∀ c, r.2.1.completion = some c → c.Proposes lib intent → r.2.1.carried ≠ []) ↔
    r.2.1.Proposing lib intent
  done (outcome : Except (Stop PlanningError) Plan) (h : r.1 = .done outcome) :
    Ends p turn r.2.1
  next (messages : List Message) (changes : List PendingPrefChange)
    (h : r.1 = .next messages changes) : WellFormed messages ↔ Ends p turn r.2.1

/-- The completion of a turn is what its provider answered at last. -/
theorem RetrySpec.completion {left : ℕ} {messages : List Message} {host after : Host σ}
    {answer : Except ProviderError Completion} {attempts : List Attempt}
    (h : RetrySpec p system left messages host (answer, attempts, after))
    (carried : List (Carried σ)) : (⟨attempts, carried⟩ : Turn σ).completion = answer.toOption := by
  obtain ⟨last, hlast, hanswer⟩ := h.last
  rw [Turn.completion, hlast, Option.bind_some, hanswer]

theorem forall_completion_iff {t : Turn σ} {answer : Option Completion}
    (h : t.completion = answer) {P : Completion → Prop} :
    (∀ c, t.completion = some c → P c) ↔ ∀ c ∈ answer, P c := by
  rw [h]
  rfl

/-- A turn in which no call is carried out hears a plan only if there is none. -/
theorem turnTalk_idle {messages : List Message} {host after : Host σ} {c : Completion}
    {attempts : List Attempt} {turnEnd : TurnEnd} (hmessages : WellFormed messages)
    (hasked : RetrySpec p system providerRetryLimit messages host (.ok c, attempts, after))
    (hheard : c.stopReason = .toolUse → c.toolCalls = [])
    (hdone : ∀ outcome, turnEnd = .done outcome → Ends p turn (⟨attempts, []⟩ : Turn σ))
    (hnext : ∀ messages changes, turnEnd = .next messages changes →
      (WellFormed messages ↔ Ends p turn (⟨attempts, []⟩ : Turn σ))) :
    TurnTalk lib p intent (turnEnd, ⟨attempts, []⟩, after) turn where
  asked a ha := by
    obtain ⟨extra, hextra⟩ := hasked.asked a ha
    rw [hextra]
    exact wellFormed_append_userTexts.mpr hmessages
  heard := by
    have hcompletion : (⟨attempts, []⟩ : Turn σ).completion = some c := hasked.completion []
    rw [Turn.Proposing, forall_completion_iff hcompletion, forall_completion_iff hcompletion]
    refine forall_congr' fun c' => imp_congr_right fun hc' => imp_congr_right fun hproposes => ?_
    obtain rfl := Option.some.inj hc'
    refine iff_of_false (fun h => h rfl) fun hstop => ?_
    obtain ⟨call, hcall, -⟩ := hproposes
    rw [hheard hstop] at hcall
    exact List.not_mem_nil hcall
  done := hdone
  next := hnext

theorem turnTalk_runTurn (hadapted : ∀ system messages tools world c,
      (p.complete system messages tools world).1 = .ok c → Adapted lib c)
    {messages : List Message} (hmessages : WellFormed messages) (changes : List PendingPrefChange)
    (host : Host σ) :
    TurnTalk lib p intent (runTurn lib p intent system turn messages changes host) turn := by
  have hasked := @completeWithRetry_spec σ p system providerRetryLimit messages host
  rw [runTurn]
  generalize completeWithRetry p system providerRetryLimit messages host = asked at hasked ⊢
  obtain ⟨answer, attempts, after⟩ := asked
  have hwell : ∀ a ∈ attempts, WellFormed a.messages := by
    intro a ha
    obtain ⟨extra, hextra⟩ := hasked.asked a ha
    rw [hextra]
    exact wellFormed_append_userTexts.mpr hmessages
  cases answer with
  | error e =>
    have hcompletion : (⟨attempts, []⟩ : Turn σ).completion = none := hasked.completion []
    refine ⟨hwell, ?_, fun outcome h c hc => ?_, fun messages changes h => by cases h⟩
    · rw [Turn.Proposing, forall_completion_iff hcompletion, forall_completion_iff hcompletion]
      simp
    · cases hcompletion.symm.trans hc
  | ok completion =>
    obtain ⟨before, world, hanswer⟩ := hasked.answered completion rfl
    have hspoken := (hadapted system before p.tools world completion hanswer).spoken
    have hcompletion (carried) : (⟨attempts, carried⟩ : Turn σ).completion = some completion :=
      hasked.completion carried
    -- what the turn says about itself if it did not end, or if it is the last one
    have hends (carried) (h : completion.stopReason ≠ .endTurn) :
        Ends p turn (⟨attempts, carried⟩ : Turn σ) := by
      intro c hc hstop
      obtain rfl := Option.some.inj ((hcompletion carried).symm.trans hc)
      exact absurd hstop h
    dsimp only
    cases hstop : completion.stopReason with
    | maxTokens =>
      refine turnTalk_idle hmessages hasked (fun h => by rw [hstop] at h; cases h)
        (fun outcome h => hends [] (by rw [hstop]; decide)) fun messages changes h => by cases h
    | endTurn =>
      dsimp only
      have hnone : completion.stopReason = .toolUse → completion.toolCalls = [] := by
        intro h
        rw [hstop] at h
        cases h
      split_ifs with hagain
      · refine turnTalk_idle hmessages hasked hnone (fun outcome h => by cases h)
          fun messages' changes' h => ?_
        obtain ⟨rfl, -⟩ := TurnEnd.next.inj h
        rw [hmessages.prose_iff hspoken, Ends, forall_completion_iff (hcompletion [])]
        constructor
        · intro hcalls c hc _ _ _
          obtain rfl := Option.some.inj hc
          exact hcalls
        · exact fun h => h completion rfl hstop hagain.1 hagain.2
      · refine turnTalk_idle hmessages hasked hnone (fun outcome h c hc _ htext hturn => ?_)
          fun messages' changes' h => by cases h
        obtain rfl := Option.some.inj ((hcompletion []).symm.trans hc)
        exact absurd ⟨htext, hturn⟩ hagain
    | toolUse =>
      have hnot : completion.stopReason ≠ .endTurn := by rw [hstop]; decide
      dsimp only
      split_ifs with hcalls
      · exact turnTalk_idle hmessages hasked (fun _ => List.isEmpty_iff.mp hcalls)
          (fun outcome h => hends [] hnot) fun messages changes h => by cases h
      have hstarted := @handleCalls_spec σ lib p intent turn completion.toolCalls [] changes after
      generalize handleCalls lib p intent turn completion.toolCalls [] changes after = called
        at hstarted ⊢
      obtain ⟨ended, carried, final⟩ := called
      have hcarried : carried ≠ [] := by
        refine hstarted.started fun hnil => hcalls ?_
        rw [hnil, List.isEmpty_nil]
      have hheard : (∀ c, (⟨attempts, carried⟩ : Turn σ).completion = some c →
          c.Proposes lib intent → carried ≠ []) ↔
          (⟨attempts, carried⟩ : Turn σ).Proposing lib intent := by
        refine iff_of_true (fun c _ _ => hcarried) fun c hc _ => ?_
        obtain rfl := Option.some.inj ((hcompletion carried).symm.trans hc)
        exact hstop
      cases ended with
      | done outcome =>
        exact ⟨hwell, hheard, (fun _ _ => hends carried hnot), fun _ _ h => by cases h⟩
      | replied results changes' =>
        obtain ⟨results', hresults, hkeys⟩ := exists_redacted results
        simp only [hresults]
        refine ⟨hwell, hheard, (fun _ h => by cases h), fun messages' changes'' h => ?_⟩
        obtain ⟨rfl, -⟩ := TurnEnd.next.inj h
        refine iff_of_true (hmessages.results hspoken ?_) (hends carried hnot)
        rw [hkeys, (hstarted.replied results changes' rfl).1]
        rfl

/-- A conversation that is not well formed is passed on, if there is a turn left. -/
theorem not_conversed_runTurns {left : ℕ} {messages : List Message}
    {changes : List PendingPrefChange} {host : Host σ} (h : ¬ WellFormed messages) :
    ¬ Conversed lib intent
      (runTurns lib p intent system (left + 1) turn messages changes host).turns := by
  intro hconversed
  have hturn := @runTurn_spec σ lib p intent system turn messages changes host
  rw [runTurns] at hconversed
  generalize runTurn lib p intent system turn messages changes host = ran at hturn hconversed
  obtain ⟨turnEnd, log, after⟩ := ran
  obtain ⟨a, ha, texts, htexts⟩ := hturn.asked
  have hfirst : WellFormed a.messages := by
    cases turnEnd with
    | done outcome => exact hconversed.wellFormed log List.mem_cons_self a ha
    | next messages' changes' => exact hconversed.wellFormed log List.mem_cons_self a ha
  rw [htexts] at hfirst
  exact h (wellFormed_append_userTexts.mp hfirst)

theorem conversed_nil : Conversed lib intent ([] : List (Turn σ)) :=
  ⟨fun _ ht => absurd ht List.not_mem_nil, fun _ ht => absurd ht List.not_mem_nil⟩

/-- A turn before others. -/
theorem conversed_cons {t : Turn σ} {turns : List (Turn σ)}
    (hasked : ∀ a ∈ t.attempts, WellFormed a.messages) :
    Conversed lib intent (t :: turns) ↔
      (∀ c, t.completion = some c → c.Proposes lib intent → t.carried ≠ []) ∧
        Conversed lib intent turns := by
  constructor
  · intro h
    exact ⟨h.heard t List.mem_cons_self, fun t' ht' => h.wellFormed t' (List.mem_cons_of_mem t ht'),
      fun t' ht' => h.heard t' (List.mem_cons_of_mem t ht')⟩
  · rintro ⟨hheard, h⟩
    exact ⟨List.forall_mem_cons.mpr ⟨hasked, h.wellFormed⟩,
      List.forall_mem_cons.mpr ⟨hheard, h.heard⟩⟩

theorem forall_getElem?_cons {α : Type} {a : α} {as : List α} {P : ℕ → α → Prop} :
    (∀ i x, (a :: as)[i]? = some x → P i x) ↔ P 0 a ∧ ∀ i x, as[i]? = some x → P (i + 1) x := by
  constructor
  · exact fun h => ⟨h 0 a rfl, fun i x hx => h (i + 1) x hx⟩
  · rintro ⟨hzero, hsucc⟩ (_ | i) x hx
    · obtain rfl := Option.some.inj hx
      exact hzero
    · exact hsucc i x hx

/-- A turn that does not keep to its end is not the last one. -/
theorem lt_of_not_ends {t : Turn σ} (h : ¬ Ends p turn t) : turn + 1 < p.maxTurns := by
  by_contra hlast
  exact h fun c _ _ _ hturn => absurd hturn hlast

theorem conversed_runTurns (hadapted : ∀ system messages tools world c,
      (p.complete system messages tools world).1 = .ok c → Adapted lib c)
    {left : ℕ} {messages : List Message} (changes : List PendingPrefChange) (host : Host σ)
    (hleft : turn + left = p.maxTurns) (hmessages : WellFormed messages) :
    Conversed lib intent (runTurns lib p intent system left turn messages changes host).turns ↔
      ∀ i t, (runTurns lib p intent system left turn messages changes host).turns[i]? = some t →
        Ends p (turn + i) t ∧ t.Proposing lib intent := by
  induction left generalizing turn messages changes host with
  | zero => exact iff_of_true conversed_nil fun i t ht => by cases ht
  | succ left ih =>
    have htalk := @turnTalk_runTurn σ lib p intent system turn hadapted messages hmessages changes
      host
    rw [runTurns]
    generalize runTurn lib p intent system turn messages changes host = ran at htalk ⊢
    obtain ⟨turnEnd, log, after⟩ := ran
    cases turnEnd with
    | done outcome =>
      have hends : Ends p (turn + 0) log := htalk.done outcome rfl
      dsimp only
      rw [conversed_cons htalk.asked, htalk.heard, forall_getElem?_cons, and_iff_right hends]
      exact and_congr_right fun _ => iff_of_true conversed_nil fun i t ht => by cases ht
    | next messages' changes' =>
      have hnext : WellFormed messages' ↔ Ends p (turn + 0) log := htalk.next messages' changes' rfl
      dsimp only
      rw [conversed_cons htalk.asked, htalk.heard, forall_getElem?_cons, ← hnext]
      by_cases hwell : WellFormed messages'
      · have hshift (i : ℕ) : turn + (i + 1) = turn + 1 + i := by omega
        rw [and_iff_right hwell, ih changes' after (by omega) hwell]
        refine and_congr_right fun _ => forall_congr' fun i => ?_
        rw [hshift i]
      · -- the next turn asks with what is not well formed
        have hlt := lt_of_not_ends (mt hnext.mpr hwell)
        obtain ⟨rest, rfl⟩ := Nat.exists_eq_succ_of_ne_zero (show left ≠ 0 by omega)
        exact iff_of_false (fun h => not_conversed_runTurns hwell h.2) fun h => hwell h.1.1

end Conversed

/-- **When a conversation is kept.** Every request of a run is well formed and every valid plan is
heard if and only if no completion of it says that its turn has ended where it calls a tool, writes
text and is asked again, and each completion that proposes a valid plan says that it calls tools. -/
theorem conversed_iff {σ : Type} (lib : Library) (p : Planner σ)
    (hadapted : ∀ system messages tools world c,
      (p.complete system messages tools world).1 = .ok c → Adapted lib c)
    (request : String) (feedback : Option String) (host : Host σ) :
    Conversed lib (trim request) (planIntentWithContext lib p request feedback host).turns ↔
      ∀ i t, (planIntentWithContext lib p request feedback host).turns[i]? = some t →
        Ends p i t ∧ t.Proposing lib (trim request) := by
  obtain ⟨after, -, ⟨e, heq⟩ | ⟨system, text, heq⟩⟩ :=
    planIntentWithContext_cases lib p request feedback host
  · rw [heq]
    exact iff_of_true conversed_nil fun i t ht => by cases ht
  · have hrun := @conversed_runTurns σ lib p (trim request) system 0 hadapted p.maxTurns
      [.userText text] [] after (Nat.zero_add _) (wellFormed_userText text)
    rw [heq]
    simpa only [Nat.zero_add] using hrun

theorem adapted_callingPlanner (name : String) (system : String) (messages : List Message)
    (tools : List ToolDefinition) (world : Unit) (c : Completion)
    (h : ((callingPlanner name).complete system messages tools world).1 = .ok c) :
    Adapted plainLibrary c := by
  obtain rfl := Except.ok.inj h
  exact .rig ⟨.toolCall "1" none name (.obj []), []⟩ rfl

theorem conversed_iff_memory :
    Conversed plainLibrary (trim "hi") (planIntentWithContext plainLibrary
        (callingPlanner "query_memory") "hi" none ⟨(), none, none⟩).turns ↔
      ∀ i t, (planIntentWithContext plainLibrary (callingPlanner "query_memory") "hi" none
          ⟨(), none, none⟩).turns[i]? = some t →
        Ends (callingPlanner "query_memory") i t ∧ t.Proposing plainLibrary (trim "hi") :=
  conversed_iff plainLibrary (callingPlanner "query_memory")
    (adapted_callingPlanner "query_memory") "hi" none ⟨(), none, none⟩

/-- A planner with two turns, whose provider writes a text, calls a tool and says that it stopped
at the end of its turn. -/
def stoppingPlanner : Planner Unit :=
  { callingPlanner "query_memory" with
    complete := fun _ _ _ world => (.ok ⟨[.text "ok", .toolUse "1" none "query_memory" (.obj [])],
      .endTurn⟩, world)
    maxTurns := 2
    maxTurns_pos := by decide }

theorem adapted_stoppingPlanner (system : String) (messages : List Message)
    (tools : List ToolDefinition) (world : Unit) (c : Completion)
    (h : (stoppingPlanner.complete system messages tools world).1 = .ok c) :
    Adapted plainLibrary c := by
  obtain rfl := Except.ok.inj h
  exact .openai ⟨[⟨some "ok", some [.function "1" "query_memory" "\x7b\x7d"], some .stop⟩]⟩ rfl

/-- The call of the first completion is followed by a text in the second request. -/
theorem not_conversed : ¬ ∀ (σ : Type) (lib : Library) (p : Planner σ),
    (∀ system messages tools world c,
      (p.complete system messages tools world).1 = .ok c → Adapted lib c) →
    ∀ (request : String) (feedback : Option String) (host : Host σ),
      Conversed lib (trim request) (planIntentWithContext lib p request feedback host).turns := by
  intro h
  have hconversed := h Unit plainLibrary stoppingPlanner adapted_stoppingPlanner "hi" none
    ⟨(), none, none⟩
  have hlength : (planIntentWithContext plainLibrary stoppingPlanner "hi" none
      ⟨(), none, none⟩).turns.length = 2 := by decide +kernel
  obtain ⟨after, -, ⟨e, heq⟩ | ⟨system, text, heq⟩⟩ :=
    planIntentWithContext_cases plainLibrary stoppingPlanner "hi" none ⟨(), none, none⟩
  · rw [heq] at hlength
    cases hlength
  · rw [heq] at hconversed
    have hsecond := hconversed.wellFormed _ (List.mem_cons_of_mem _ List.mem_cons_self) _
      List.mem_cons_self
    obtain ⟨-, -, -, -, hanswers, -⟩ := hsecond
    cases hanswers

end Sysknife.Brain
