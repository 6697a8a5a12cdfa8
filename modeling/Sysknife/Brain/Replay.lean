import Sysknife.Brain.Cassette

/-!
# A recording replays

A planner is run over a provider with a world of its own, beside the world of its tools. The
tools do not see the provider, so two runs in which the provider gives the same completions differ
in nothing else.

* `completeWithRetry_replays`: where a call and its retries came to a completion, a replay comes
  to the same one; it only leaves out the attempts that were not kept. By induction on the retries
  that are left, of which a replay may have more.
* `suite_replays`: **whatever else is recorded into a file, every run that was recorded into it
  is replayed from it, in any order and without a provider.**
-/

namespace Sysknife.Brain

variable {ω ω' τ : Type}

/-! ### The provider apart from the tools -/

/-- A host of the tools, beside the world of a provider. -/
def Host.beside (h : Host τ) (w : ω) : Host (ω × τ) := ⟨(w, h.world), h.prefs, h.audit⟩

/-- What the tools see of a host. -/
def Host.tools (h : Host (ω × τ)) : Host τ := ⟨h.world.2, h.prefs, h.audit⟩

@[simp] theorem Host.tools_beside (h : Host τ) (w : ω) : (h.beside w).tools = h := rfl

def Carried.beside (c : Carried τ) (w : ω) : Carried (ω × τ) := ⟨c.host.beside w, c.call⟩

def Carried.tools (c : Carried (ω × τ)) : Carried τ := ⟨c.host.tools, c.call⟩

/-- What was carried out in a turn, as the tools see it. -/
def Turn.carriedOut (t : Turn (ω × τ)) : List (Carried τ) := t.carried.map Carried.tools

/-- A planner with another provider and another rate limiter. -/
def Planner.over (p : Planner τ)
    (complete : String → List Message → List ToolDefinition → ω → Answer × ω)
    (rateLimiter : Option (ω → Except ℕ Unit × ω)) : Planner (ω × τ) where
  complete system messages tools world :=
    ((complete system messages tools world.1).1,
      ((complete system messages tools world.1).2, world.2))
  curatedState world := ((p.curatedState world.2).1, (world.1, (p.curatedState world.2).2))
  queryAction action params world :=
    ((p.queryAction action params world.2).1, (world.1, (p.queryAction action params world.2).2))
  currentUser world := ((p.currentUser world.2).1, (world.1, (p.currentUser world.2).2))
  rateLimiter := rateLimiter.map fun check world =>
    ((check world.1).1, ((check world.1).2, world.2))
  prefsPath := p.prefsPath
  tools := p.tools
  buildSystemPrompt := p.buildSystemPrompt
  maxTurns := p.maxTurns
  maxTurns_pos := p.maxTurns_pos

/-- The rest of a turn, once there is a completion. -/
def afterCompletion (lib : Library) (p : Planner τ) (intent : String) (turn : ℕ)
    (messages : List Message) (changes : List PendingPrefChange) (completion : Completion)
    (host : Host τ) : TurnEnd × List (Carried τ) × Host τ :=
  let messages := messages ++ [⟨.assistant, completion.content⟩]
  match completion.stopReason with
  | .maxTokens => (.done (.error (.error .noPlanProposed)), [], host)
  | .endTurn =>
    if completion.hasText ∧ turn + 1 < p.maxTurns then
      (.next (messages ++ [.userText proseCorrection]) changes, [], host)
    else (.done (.error (.error .noPlanProposed)), [], host)
  | .toolUse =>
    if completion.toolCalls.isEmpty then (.done (.error (.error .noPlanProposed)), [], host)
    else
      match handleCalls lib p intent turn completion.toolCalls [] changes host with
      | (.done outcome, carried, host) => (.done outcome, carried, host)
      | (.replied results changes, carried, host) =>
        match results.mapM redactResult with
        | .error stop => (.done (.error (.panic stop)), carried, host)
        | .ok results => (.next (messages ++ [.toolResults results]) changes, carried, host)

section Over

variable {lib : Library} {p : Planner τ} {intent system : String} {turn : ℕ}
  {complete : String → List Message → List ToolDefinition → ω → Answer × ω}
  {limiter : Option (ω → Except ℕ Unit × ω)}

theorem runTurn_of_error {q : Planner τ} {messages : List Message}
    {changes : List PendingPrefChange} {host after : Host τ} {e : ProviderError}
    {attempts : List Attempt}
    (h : completeWithRetry q system providerRetryLimit messages host =
      (.error e, attempts, after)) :
    runTurn lib q intent system turn messages changes host =
      (.done (.error (.error (.provider e))), ⟨attempts, []⟩, after) := by
  rw [runTurn, h]

theorem runTurn_of_ok {q : Planner τ} {messages : List Message}
    {changes : List PendingPrefChange} {host after : Host τ} {completion : Completion}
    {attempts : List Attempt}
    (h : completeWithRetry q system providerRetryLimit messages host =
      (.ok completion, attempts, after)) :
    runTurn lib q intent system turn messages changes host =
      ((afterCompletion lib q intent turn messages changes completion after).1,
        ⟨attempts, (afterCompletion lib q intent turn messages changes completion after).2.1⟩,
        (afterCompletion lib q intent turn messages changes completion after).2.2) := by
  rw [runTurn, h, afterCompletion]
  dsimp only
  cases completion.stopReason with
  | maxTokens => rfl
  | endTurn =>
    dsimp only
    split_ifs <;> rfl
  | toolUse =>
    dsimp only
    split_ifs
    · rfl
    rcases handleCalls lib q intent turn completion.toolCalls [] changes after with
      ⟨ended, carried, host⟩
    cases ended with
    | done outcome => rfl
    | replied results changes =>
      dsimp only
      cases results.mapM redactResult <;> rfl

/-- The tools do not see the provider. -/
theorem handleCall_over (call : ToolCall) (host : Host τ) (w : ω) :
    handleCall lib (p.over complete limiter) intent turn call (host.beside w) =
      ((handleCall lib p intent turn call host).1,
        (handleCall lib p intent turn call host).2.beside w) := by
  rw [handleCall, handleCall]
  cases toolOf call.name with
  | systemState =>
    show handleSystemState _ _ _ _ = _
    simp only [handleSystemState, Planner.over, Host.beside]
    cases (p.curatedState host.world).1 <;> rfl
  | proposePlan =>
    show handleProposePlan _ _ _ _ _ _ = _
    simp only [handleProposePlan, Planner.over]
    rcases parseProposedPlan lib intent call.input with (stop | e) | plan
    · rfl
    · dsimp only
      cases rejectedPlanNotice lib e.message call.input.canonicalJson (turn + 1) p.maxTurns <;> rfl
    · rfl
  | refuse =>
    show handleRefuse _ _ _ _ = _
    simp only [handleRefuse]
    rcases parseRefusal lib call.input with (stop | e) | refusal <;> rfl
  | pref kind =>
    show handlePref _ _ _ _ _ = _
    unfold handlePref
    simp only [Planner.over]
    cases queuedChange lib.letter lib.number p.prefsPath kind call.input <;> rfl
  | currentUser =>
    show handleCurrentUser _ _ _ _ = _
    simp only [handleCurrentUser, Planner.over, Host.beside]
    cases (p.currentUser host.world).1 <;> rfl
  | other =>
    show handleQuery _ _ _ _ _ _ = _
    simp only [handleQuery, Planner.over]
    rcases queryToolToAction call.name call.input with msg | (_ | ⟨action, params⟩)
    · rfl
    · dsimp only
      cases unknownToolNotice lib call.name (turn + 1) p.maxTurns <;> rfl
    · simp only [Host.beside]
      cases (p.queryAction action params host.world).1 <;> rfl

theorem handleCalls_over (calls : List ToolCall) (results : List ToolResultBlock)
    (changes : List PendingPrefChange) (host : Host τ) (w : ω) :
    handleCalls lib (p.over complete limiter) intent turn calls results changes (host.beside w) =
      ((handleCalls lib p intent turn calls results changes host).1,
        (handleCalls lib p intent turn calls results changes host).2.1.map (Carried.beside · w),
        (handleCalls lib p intent turn calls results changes host).2.2.beside w) := by
  induction calls generalizing results changes host with
  | nil => rfl
  | cons call calls ih =>
    rw [handleCalls, handleCalls, handleCall_over]
    rcases handleCall lib p intent turn call host with ⟨stop | (⟨result, queued⟩ | plan | e), after⟩
    · rfl
    · dsimp only
      rw [ih]
      rfl
    · rfl
    · rfl

theorem afterCompletion_over (messages : List Message) (changes : List PendingPrefChange)
    (completion : Completion) (host : Host τ) (w : ω) :
    afterCompletion lib (p.over complete limiter) intent turn messages changes completion
        (host.beside w) =
      ((afterCompletion lib p intent turn messages changes completion host).1,
        (afterCompletion lib p intent turn messages changes completion host).2.1.map
          (Carried.beside · w),
        (afterCompletion lib p intent turn messages changes completion host).2.2.beside w) := by
  rw [afterCompletion, afterCompletion]
  cases completion.stopReason with
  | maxTokens => rfl
  | endTurn =>
    show (if completion.hasText ∧ turn + 1 < p.maxTurns then _ else _) = _
    split_ifs <;> rfl
  | toolUse =>
    dsimp only
    split_ifs
    · rfl
    rw [handleCalls_over]
    rcases handleCalls lib p intent turn completion.toolCalls [] changes host with
      ⟨ended, carried, after⟩
    cases ended with
    | done outcome => rfl
    | replied results changes =>
      dsimp only
      cases results.mapM redactResult <;> rfl

theorem carriedOut_beside (attempts : List Attempt) (carried : List (Carried τ)) (w : ω) :
    (⟨attempts, carried.map (Carried.beside · w)⟩ : Turn (ω × τ)).carriedOut = carried := by
  rw [Turn.carriedOut, List.map_map]
  exact List.map_id carried

/-- A turn in which the provider comes to a completion, as the tools see it. -/
theorem runTurn_over_of_ok {messages : List Message} {changes : List PendingPrefChange}
    {host : Host τ} {w w' : ω} {completion : Completion} {attempts : List Attempt}
    (h : completeWithRetry (p.over complete limiter) system providerRetryLimit messages
      (host.beside w) = (.ok completion, attempts, host.beside w')) :
    runTurn lib (p.over complete limiter) intent system turn messages changes (host.beside w) =
      ((afterCompletion lib p intent turn messages changes completion host).1,
        ⟨attempts, (afterCompletion lib p intent turn messages changes completion host).2.1.map
          (Carried.beside · w')⟩,
        (afterCompletion lib p intent turn messages changes completion host).2.2.beside w') := by
  rw [runTurn_of_ok h, afterCompletion_over]

end Over

/-! ### Attempts -/

section Attempts

/-- The messages of a retry. -/
def retried (messages : List Message) (e : ProviderError) (tools : List ToolDefinition) :
    List Message :=
  messages ++ ((toolCallCorrection e tools).map Message.userText).toList

/-- Only a call of a tool that does not exist is corrected. -/
theorem retried_of_valid {e : ProviderError} (h : e.isInvalidToolCall = false)
    (messages : List Message) (tools : List ToolDefinition) :
    retried messages e tools = messages := by
  simp [retried, toolCallCorrection, h]

variable {σ : Type} {q : Planner σ} {system : String} {messages : List Message} {host : Host σ}
  {world : σ}

theorem completeWithRetry_of_ok {completion : Completion}
    (h : q.complete system messages q.tools host.world = (.ok completion, world)) (left : ℕ) :
    completeWithRetry q system left messages host =
      (.ok completion, [⟨messages, .ok completion⟩], { host with world := world }) := by
  cases left <;> rw [completeWithRetry, h]

theorem completeWithRetry_zero {e : ProviderError}
    (h : q.complete system messages q.tools host.world = (.error e, world)) :
    completeWithRetry q system 0 messages host =
      (.error e, [⟨messages, .error e⟩], { host with world := world }) := by
  rw [completeWithRetry, h]

theorem completeWithRetry_of_final {e : ProviderError} (hfinal : e.isRetryable = false)
    (h : q.complete system messages q.tools host.world = (.error e, world)) (left : ℕ) :
    completeWithRetry q system (left + 1) messages host =
      (.error e, [⟨messages, .error e⟩], { host with world := world }) := by
  rw [completeWithRetry, h]
  exact if_pos (by simp [hfinal])

theorem completeWithRetry_of_refused {e : ProviderError} {secs : ℕ} {after : Host σ}
    (hretry : e.isRetryable = true)
    (h : q.complete system messages q.tools host.world = (.error e, world))
    (htoken : consume q { host with world := world } = (.error secs, after)) (left : ℕ) :
    completeWithRetry q system (left + 1) messages host =
      (.error e, [⟨messages, .error e⟩], after) := by
  rw [completeWithRetry, h]
  dsimp only
  rw [if_neg (by simp [hretry]), htoken]

theorem completeWithRetry_of_retry {e : ProviderError} {after : Host σ}
    (hretry : e.isRetryable = true)
    (h : q.complete system messages q.tools host.world = (.error e, world))
    (htoken : consume q { host with world := world } = (.ok (), after)) (left : ℕ) :
    completeWithRetry q system (left + 1) messages host =
      let rest := completeWithRetry q system left (retried messages e q.tools) after
      (rest.1, ⟨messages, .error e⟩ :: rest.2.1, rest.2.2) := by
  rw [completeWithRetry, h]
  dsimp only
  rw [if_neg (by simp [hretry]), htoken]
  rfl

end Attempts

/-! ### Recording -/

/-- `from_config` with a cassette that records: the rate limiter is the usual one. -/
def Planner.recording (p : Planner τ) (provider : CassetteProvider ω)
    (limiter : Option (ω → Except ℕ Unit × ω)) : Planner (Deck ω × τ) :=
  p.over provider.complete (limiter.map fun check deck =>
    ((check deck.inner).1, { deck with inner := (check deck.inner).2 }))

/-- `from_config` with a cassette that replays: nothing is sent, so nothing is limited. -/
def Planner.replaying (p : Planner τ) (provider : CassetteProvider ω) : Planner (Deck ω × τ) :=
  p.over provider.complete none

section Recording

variable {lib : Library} {p : Planner τ} {provider : CassetteProvider ω}
  {limiter : Option (ω → Except ℕ Unit × ω)} {intent system : String} {turn : ℕ}

/-- A token is taken in the world of the provider. -/
theorem consume_recording (host : Host τ) (deck : Deck ω) : ∃ token inner,
    consume (p.recording provider limiter) (host.beside deck) =
        (token, host.beside { deck with inner := inner }) ∧
      (limiter = none → inner = deck.inner) := by
  cases limiter with
  | none => exact ⟨.ok (), deck.inner, rfl, fun _ => rfl⟩
  | some check => exact ⟨(check deck.inner).1, (check deck.inner).2, rfl, by rintro ⟨⟩⟩

/-- A call is the last one, or its error is followed by a retry. -/
theorem completeWithRetry_recording (left : ℕ) (messages : List Message) (host : Host τ)
    {deck asked : Deck ω} {answer : Answer}
    (hasked : provider.complete system messages p.tools deck = (answer, asked)) :
    (∃ inner, (limiter = none → inner = asked.inner) ∧
      completeWithRetry (p.recording provider limiter) system left messages (host.beside deck) =
        (answer, [⟨messages, answer⟩], host.beside { asked with inner := inner })) ∨
    ∃ left' e inner, left = left' + 1 ∧ answer = .error e ∧ e.isRetryable = true ∧
      (limiter = none → inner = asked.inner) ∧
      completeWithRetry (p.recording provider limiter) system left messages (host.beside deck) =
        let rest := completeWithRetry (p.recording provider limiter) system left'
          (retried messages e p.tools) (host.beside { asked with inner := inner })
        (rest.1, ⟨messages, .error e⟩ :: rest.2.1, rest.2.2) := by
  have hcall : (p.recording provider limiter).complete system messages
      (p.recording provider limiter).tools (host.beside deck).world =
        (answer, (asked, host.world)) := by
    show ((provider.complete system messages p.tools deck).1,
      ((provider.complete system messages p.tools deck).2, host.world)) = _
    rw [hasked]
  cases answer with
  | ok completion => exact .inl ⟨asked.inner, fun _ => rfl, completeWithRetry_of_ok hcall left⟩
  | error e =>
    cases left with
    | zero => exact .inl ⟨asked.inner, fun _ => rfl, completeWithRetry_zero hcall⟩
    | succ left =>
      cases hretry : e.isRetryable with
      | false =>
        exact .inl ⟨asked.inner, fun _ => rfl, completeWithRetry_of_final hretry hcall left⟩
      | true =>
        obtain ⟨token, inner, htoken, hinner⟩ :=
          @consume_recording _ _ p provider limiter host asked
        cases token with
        | error secs =>
          exact .inl ⟨inner, hinner, completeWithRetry_of_refused hretry hcall htoken left⟩
        | ok token =>
          exact .inr ⟨left, e, inner, rfl, rfl, hretry, hinner,
            completeWithRetry_of_retry hretry hcall htoken left⟩

/-- A call with its retries adds its attempts, and leaves the tools alone. -/
theorem completeWithRetry_recorded (left : ℕ) (messages : List Message) (host : Host τ)
    {deck : Deck ω} (hmode : deck.cassette.mode = .record)
    {r : Answer × List Attempt × Host (Deck ω × τ)}
    (hr : completeWithRetry (p.recording provider limiter) system left messages
      (host.beside deck) = r) : ∃ deck' : Deck ω, r.2.2 = host.beside deck' ∧
      Recorded provider system p.tools r.2.1 deck.cassette deck'.cassette := by
  induction left using Nat.strong_induction_on generalizing messages deck r with
  | _ left ih =>
    have hcall := @complete_recorded ω provider system p.tools messages deck hmode
    rcases hasked : provider.complete system messages p.tools deck with ⟨answer, asked⟩
    rw [hasked] at hcall
    obtain ⟨inner, -, hlast⟩ | ⟨left', e, inner, rfl, rfl, -, -, hrest⟩ :=
      @completeWithRetry_recording _ _ p provider limiter system left messages host _ _ _ hasked
    · rw [hlast] at hr
      subst hr
      exact ⟨_, rfl, hcall⟩
    · rw [hrest] at hr
      subst hr
      have hmode' : ({ asked with inner := inner } : Deck ω).cassette.mode = .record :=
        hcall.mode.trans hmode
      obtain ⟨deck', hhost, hadded⟩ := ih left' (Nat.lt_succ_self left')
        (retried messages e p.tools) hmode' rfl
      exact ⟨deck', hhost, hcall.append hadded⟩

end Recording

/-! ### Replaying -/

/-- A document answers at least what another one does. -/
def Document.Covers (d' d : Document) : Prop :=
  ∀ key answer, d.lookup key = some answer → d'.lookup key = some answer

theorem Document.Covers.trans {d d' d'' : Document} (h : d''.Covers d') (h' : d'.Covers d) :
    d''.Covers d :=
  fun key answer hd => h key answer (h' key answer hd)

theorem Grows.covers {provider : CassetteProvider ω} {system : String}
    {tools : List ToolDefinition} {attempts : List Attempt} {d d' : Document}
    (h : Grows provider system tools attempts d d') : d'.Covers d :=
  fun key answer hd => (h key answer).mpr (.inl hd)

/-- A rejection that a planner corrects is kept. Only a rate limit could be corrected and not
kept: one whose text says that a tool does not exist. -/
def Attempt.Kept (a : Attempt) : Prop :=
  ∀ m, a.answer = .error (.rateLimit m) → (ProviderError.rateLimit m).isInvalidToolCall = false

theorem Attempt.Kept.lasting {a : Attempt} {e : ProviderError} (h : a.Kept)
    (ha : a.answer = .error e) (he : e.isInvalidToolCall = true) :
    Lasting (.error e) := by
  rw [Lasting, recordableRejection, if_pos he]
  cases e with
  | http status body => rfl
  | parse m => rfl
  | request m => rfl
  | auth m => cases he
  | cassetteMiss m => cases he
  | rateLimit m => exact absurd (h m ha) (by rw [he]; decide)

/-- Two providers have the same keys. -/
def SameKeys (provider : CassetteProvider ω) (player : CassetteProvider ω') : Prop :=
  player.surface = provider.surface ∧ player.sha256Hex = provider.sha256Hex

section Replaying

variable {lib : Library} {p : Planner τ} {provider : CassetteProvider ω}
  {player : CassetteProvider ω'} {limiter : Option (ω → Except ℕ Unit × ω)}
  {intent system : String} {turn : ℕ}

theorem SameKeys.key (h : SameKeys provider player) (system : String)
    (tools : List ToolDefinition) (messages : List Message) :
    player.key system tools messages = provider.key system tools messages := by
  rw [CassetteProvider.key, CassetteProvider.key, h.1, h.2]

/-- A call of a planner that replays, with its answer in the document. -/
theorem complete_replaying {messages : List Message} {host : Host τ} {deck : Deck ω'}
    {answer : Answer} (hmode : deck.cassette.mode = .replay)
    (h : deck.cassette.state.lookup (player.key system p.tools messages) = some answer) :
    ∃ deck', (p.replaying player).complete system messages (p.replaying player).tools
        (host.beside deck).world = (answer, (deck', host.world)) ∧ Played 1 deck deck' := by
  obtain ⟨deck', hcomplete, hplayed⟩ := complete_played hmode h
  refine ⟨deck', ?_, hplayed⟩
  show ((player.complete system messages p.tools deck).1,
    ((player.complete system messages p.tools deck).2, host.world)) = _
  rw [hcomplete]

/-- Where a call with its retries came to a completion, a replay with at least as many retries
comes to it too. What was not kept is left out: it was followed by the same messages. -/
theorem completeWithRetry_replays {left left' : ℕ} {messages : List Message} {host : Host τ}
    {deck last : Deck ω} {deckP : Deck ω'} {completion : Completion} {attempts : List Attempt}
    (hrun : completeWithRetry (p.recording provider limiter) system left messages
      (host.beside deck) = (.ok completion, attempts, host.beside last))
    (hmode : deck.cassette.mode = .record) (hkept : ∀ a ∈ attempts, a.Kept)
    (hkeys : SameKeys provider player) (hle : left ≤ left')
    (hcovers : deckP.cassette.state.Covers last.cassette.state)
    (hplay : deckP.cassette.mode = .replay) :
    ∃ attempts' deckP', completeWithRetry (p.replaying player) system left' messages
        (host.beside deckP) = (.ok completion, attempts', host.beside deckP') ∧
      attempts'.Sublist attempts ∧ Played attempts'.length deckP deckP' := by
  induction left using Nat.strong_induction_on generalizing left' messages deck deckP attempts with
  | _ left ih =>
    have hcall := @complete_recorded ω provider system p.tools messages deck hmode
    rcases hasked : provider.complete system messages p.tools deck with ⟨answer, asked⟩
    rw [hasked] at hcall
    -- what is known after the call is still known at the end
    have hknown : Lasting answer → last.cassette.state.Covers asked.cassette.state →
        deckP.cassette.state.lookup (player.key system p.tools messages) = some answer := by
      intro hlasting hlast
      rw [hkeys.key]
      exact hcovers _ _ (hlast _ _ ((hcall.grows _ _).mpr
        (.inr ⟨_, List.mem_singleton_self _, rfl, rfl, hlasting⟩)))
    obtain ⟨inner, -, hone⟩ | ⟨rest, e, inner, rfl, rfl, hretry, -, hrest⟩ :=
      @completeWithRetry_recording _ _ p provider limiter system left messages host _ _ _ hasked
    · obtain ⟨rfl, rfl, hlast⟩ : answer = .ok completion ∧ [⟨messages, answer⟩] = attempts ∧
          host.beside { asked with inner := inner } = host.beside last := by
        simpa using hone.symm.trans hrun
      have hsame : asked.cassette = last.cassette :=
        congrArg (fun h : Host (Deck ω × τ) => h.world.1.cassette) hlast
      obtain ⟨deckP', hcomplete, hplayed⟩ := @complete_replaying _ _ p player system messages host
        _ _ hplay (hknown trivial fun _ _ h => hsame ▸ h)
      exact ⟨_, deckP', completeWithRetry_of_ok hcomplete left', .refl _, hplayed⟩
    · have hmode' : ({ asked with inner := inner } : Deck ω).cassette.mode = .record :=
        hcall.mode.trans hmode
      obtain ⟨last', hlast', hadded⟩ := @completeWithRetry_recorded _ _ p provider limiter system
        rest (retried messages e p.tools) host _ hmode' _ rfl
      rcases hafter : completeWithRetry (p.recording provider limiter) system rest
        (retried messages e p.tools) (host.beside { asked with inner := inner }) with
        ⟨answer', attempts', host'⟩
      rw [hafter] at hlast' hadded hrest
      obtain ⟨rfl, rfl, rfl⟩ : answer' = .ok completion ∧
          ⟨messages, .error e⟩ :: attempts' = attempts ∧ host' = host.beside last := by
        simpa using hrest.symm.trans hrun
      have hsame : last = last' := congrArg (fun h : Host (Deck ω × τ) => h.world.1) hlast'
      subst hsame
      obtain ⟨hfirst, hothers⟩ := List.forall_mem_cons.mp hkept
      cases hinvalid : e.isInvalidToolCall with
      | false =>
        rw [retried_of_valid hinvalid] at hafter
        obtain ⟨played, deckP', hplayed, hsub, hhits⟩ := ih rest (Nat.lt_succ_self rest) hafter
          hmode' hothers ((Nat.le_succ rest).trans hle) hcovers hplay
        exact ⟨played, deckP', hplayed, hsub.cons _, hhits⟩
      | true =>
        obtain ⟨deckP₁, hcomplete, hfirstPlayed⟩ := @complete_replaying _ _ p player system messages
          host _ _ hplay (hknown (hfirst.lasting rfl hinvalid) hadded.grows.covers)
        obtain ⟨left', rfl⟩ : ∃ k, left' = k + 1 := ⟨left' - 1, by omega⟩
        obtain ⟨played, deckP', hplayed, hsub, hhits⟩ := ih rest (Nat.lt_succ_self rest) hafter
          hmode' hothers (Nat.le_of_succ_le_succ hle) (hfirstPlayed.state ▸ hcovers)
          (hfirstPlayed.mode.trans hplay)
        refine ⟨⟨messages, .error e⟩ :: played, deckP', ?_, hsub.cons_cons _, ?_⟩
        · have htoken : consume (p.replaying player) ⟨(deckP₁, host.world), host.prefs,
              host.audit⟩ = (.ok (), host.beside deckP₁) := rfl
          rw [completeWithRetry_of_retry hretry hcomplete htoken left']
          show (_, _, _) = _
          rw [show (p.replaying player).tools = p.tools from rfl, hplayed]
        · rw [List.length_cons, Nat.add_comm]
          exact hfirstPlayed.trans hhits

end Replaying

/-! ### Runs -/

/-- The attempts of a run, in their order. -/
def Run.attempts {σ : Type} (r : Run σ) : List Attempt := r.turns.flatMap Turn.attempts

/-- Turns that differ in nothing but attempts that were left out. -/
def Turn.Replays (played : Turn (ω' × τ)) (t : Turn (ω × τ)) : Prop :=
  played.attempts.Sublist t.attempts ∧ played.carriedOut = t.carriedOut

/-- Planning ended for another reason than a provider that failed. -/
def TurnEnd.Completed (turnEnd : TurnEnd) : Prop :=
  ∀ e, turnEnd ≠ .done (.error (.error (.provider e)))

section Runs

variable {lib : Library} {p : Planner τ} {provider : CassetteProvider ω}
  {player : CassetteProvider ω'} {limiter : Option (ω → Except ℕ Unit × ω)}
  {intent system : String} {turn : ℕ}

theorem runTurn_recorded (messages : List Message) (changes : List PendingPrefChange)
    (host : Host τ) {deck : Deck ω} (hmode : deck.cassette.mode = .record)
    {r : TurnEnd × Turn (Deck ω × τ) × Host (Deck ω × τ)}
    (hr : runTurn lib (p.recording provider limiter) intent system turn messages changes
      (host.beside deck) = r) : ∃ (host' : Host τ) (deck' : Deck ω), r.2.2 = host'.beside deck' ∧
      Recorded provider system p.tools r.2.1.attempts deck.cassette deck'.cassette := by
  rcases hasked : completeWithRetry (p.recording provider limiter) system providerRetryLimit
    messages (host.beside deck) with ⟨answer, attempts, after⟩
  obtain ⟨deck', rfl, hadded⟩ := completeWithRetry_recorded providerRetryLimit messages host hmode
    hasked
  cases answer with
  | error e =>
    rw [runTurn_of_error hasked] at hr
    subst hr
    exact ⟨host, deck', rfl, hadded⟩
  | ok completion =>
    rw [Planner.recording, runTurn_over_of_ok hasked] at hr
    subst hr
    exact ⟨_, deck', rfl, hadded⟩

theorem runTurns_recorded (left : ℕ) (messages : List Message) (changes : List PendingPrefChange)
    (host : Host τ) {deck : Deck ω} (hmode : deck.cassette.mode = .record)
    {r : Run (Deck ω × τ)}
    (hr : runTurns lib (p.recording provider limiter) intent system left turn messages changes
      (host.beside deck) = r) : ∃ (host' : Host τ) (deck' : Deck ω), r.host = host'.beside deck' ∧
      Recorded provider system p.tools r.attempts deck.cassette deck'.cassette := by
  induction left generalizing turn messages changes host deck r with
  | zero =>
    subst hr
    exact ⟨host, deck, rfl, .refl _⟩
  | succ left ih =>
    rcases hturn : runTurn lib (p.recording provider limiter) intent system turn messages changes
      (host.beside deck) with ⟨turnEnd, log, after⟩
    obtain ⟨host', deck', rfl, hadded⟩ := runTurn_recorded messages changes host hmode hturn
    rw [runTurns, hturn] at hr
    cases turnEnd with
    | done outcome =>
      subst hr
      exact ⟨host', deck', rfl, by simpa [Run.attempts] using hadded⟩
    | next messages changes =>
      subst hr
      obtain ⟨last, deck'', hlast, hrest⟩ := ih messages changes host' (hadded.mode.trans hmode) rfl
      exact ⟨last, deck'', hlast, hadded.append hrest⟩

theorem runTurn_replays {messages : List Message} {changes : List PendingPrefChange}
    {host host' : Host τ} {deck last : Deck ω} {deckP : Deck ω'} {turnEnd : TurnEnd}
    {log : Turn (Deck ω × τ)}
    (hrun : runTurn lib (p.recording provider limiter) intent system turn messages changes
      (host.beside deck) = (turnEnd, log, host'.beside last))
    (hmode : deck.cassette.mode = .record) (hend : turnEnd.Completed)
    (hkept : ∀ a ∈ log.attempts, a.Kept) (hkeys : SameKeys provider player)
    (hcovers : deckP.cassette.state.Covers last.cassette.state)
    (hplay : deckP.cassette.mode = .replay) :
    ∃ played deckP', runTurn lib (p.replaying player) intent system turn messages changes
        (host.beside deckP) = (turnEnd, played, host'.beside deckP') ∧ played.Replays log ∧
      Played played.attempts.length deckP deckP' := by
  rcases hasked : completeWithRetry (p.recording provider limiter) system providerRetryLimit
    messages (host.beside deck) with ⟨answer, attempts, after⟩
  obtain ⟨deck', rfl, -⟩ := completeWithRetry_recorded providerRetryLimit messages host hmode hasked
  cases answer with
  | error e =>
    rw [runTurn_of_error hasked] at hrun
    exact absurd (congrArg Prod.fst hrun).symm (hend e)
  | ok completion =>
    rw [Planner.recording, runTurn_over_of_ok hasked] at hrun
    simp only [Prod.mk.injEq] at hrun
    obtain ⟨rfl, rfl, hhost⟩ := hrun
    obtain rfl : (afterCompletion lib p intent turn messages changes completion host).2.2 = host' :=
      congrArg Host.tools hhost
    obtain rfl : deck' = last := congrArg (fun h : Host (Deck ω × τ) => h.world.1) hhost
    obtain ⟨attempts', deckP', hplayed, hsub, hhits⟩ := completeWithRetry_replays hasked hmode hkept
      hkeys le_rfl hcovers hplay
    refine ⟨_, deckP', runTurn_over_of_ok hplayed, ⟨hsub, ?_⟩, hhits⟩
    rw [carriedOut_beside, carriedOut_beside]

/-- Two runs are the same but for what their providers did. -/
structure Run.Replays (played : Run (ω' × τ)) (r : Run (ω × τ)) : Prop where
  outcome : played.outcome = r.outcome
  turns : List.Forall₂ Turn.Replays played.turns r.turns
  tools : played.host.tools = r.host.tools

/-- Planning came to its end, and was not given up for the provider or the rate limiter. -/
def Run.Completed {σ : Type} (r : Run σ) : Prop :=
  (∀ e, r.outcome ≠ .error (.error (.provider e))) ∧
    ∀ secs, r.outcome ≠ .error (.error (.rateLimitExceeded secs))

theorem runTurns_replays {left : ℕ} {messages : List Message} {changes : List PendingPrefChange}
    {host : Host τ} {deck : Deck ω} {deckP : Deck ω'} {r : Run (Deck ω × τ)}
    (hrun : runTurns lib (p.recording provider limiter) intent system left turn messages changes
      (host.beside deck) = r)
    (hmode : deck.cassette.mode = .record)
    (hend : ∀ e, r.outcome ≠ .error (.error (.provider e))) (hkept : ∀ a ∈ r.attempts, a.Kept)
    (hkeys : SameKeys provider player)
    (hcovers : deckP.cassette.state.Covers r.host.world.1.cassette.state)
    (hplay : deckP.cassette.mode = .replay) :
    (runTurns lib (p.replaying player) intent system left turn messages changes
        (host.beside deckP)).Replays r ∧
      Played (runTurns lib (p.replaying player) intent system left turn messages changes
        (host.beside deckP)).attempts.length deckP (runTurns lib (p.replaying player) intent system
          left turn messages changes (host.beside deckP)).host.world.1 := by
  induction left generalizing turn messages changes host deck deckP r with
  | zero =>
    subst hrun
    exact ⟨⟨rfl, .nil, rfl⟩, .refl deckP⟩
  | succ left ih =>
    rcases hturn : runTurn lib (p.recording provider limiter) intent system turn messages changes
      (host.beside deck) with ⟨turnEnd, log, after⟩
    obtain ⟨host', deck', rfl, hadded⟩ := runTurn_recorded messages changes host hmode hturn
    rw [runTurns, hturn] at hrun
    cases turnEnd with
    | done outcome =>
      subst hrun
      have hkept' : ∀ a ∈ log.attempts, a.Kept := by simpa [Run.attempts] using hkept
      obtain ⟨played, deckP', hplayed, hreplays, hhits⟩ := runTurn_replays hturn hmode
        (fun e h => hend e (TurnEnd.done.inj h)) hkept' hkeys hcovers hplay
      rw [runTurns, hplayed]
      refine ⟨⟨rfl, .cons hreplays .nil, rfl⟩, ?_⟩
      show Played (List.length (played.attempts ++ [])) deckP deckP'
      rwa [List.append_nil]
    | next messages' changes' =>
      subst hrun
      obtain ⟨last, deck'', hlast, hrest⟩ := runTurns_recorded left messages' changes' host'
        (hadded.mode.trans hmode) rfl
      have hcovers' : deckP.cassette.state.Covers deck''.cassette.state := by
        have hworld := congrArg (fun h : Host (Deck ω × τ) => h.world.1.cassette.state) hlast
        exact hworld ▸ hcovers
      obtain ⟨hkeptTurn, hkeptRest⟩ := List.forall_mem_append.mp hkept
      obtain ⟨played, deckP', hplayed, hreplays, hhits⟩ := runTurn_replays hturn hmode
        (fun e => by rintro ⟨⟩) hkeptTurn hkeys (hcovers'.trans hrest.grows.covers) hplay
      obtain ⟨hreplaysRest, hhitsRest⟩ := @ih (turn + 1) messages' changes' host' deck' deckP' _ rfl
        (hadded.mode.trans hmode) hend hkeptRest (hhits.state ▸ hcovers)
        (hhits.mode.trans hplay)
      rw [runTurns, hplayed]
      refine ⟨⟨hreplaysRest.outcome, .cons hreplays hreplaysRest.turns, hreplaysRest.tools⟩, ?_⟩
      show Played (List.length (played.attempts ++ _)) _ _
      rw [List.length_append]
      exact hhits.trans hhitsRest

/-- A request is admitted to a recording at the cost of a token, and to a replay at none. -/
theorem admitRequest_recording (text : String) (host : Host τ) (deck : Deck ω) :
    ∃ admitted inner, admitRequest lib (p.recording provider limiter) text (host.beside deck) =
        (admitted, host.beside { deck with inner := inner }) ∧
      ((∀ secs, admitted ≠ .error (.rateLimitExceeded secs)) → ∀ deckP : Deck ω',
        admitRequest lib (p.replaying player) text (host.beside deckP) =
          (admitted, host.beside deckP)) := by
  rw [admitRequest]
  by_cases hlong : intentMaxBytes < Slices.size text.toList
  · refine ⟨_, deck.inner, if_pos hlong, fun _ deckP => ?_⟩
    rw [admitRequest, if_pos hlong]
  rw [if_neg hlong]
  by_cases hsecret : containsSensitive lib.letter lib.number text.toList = true
  · refine ⟨_, deck.inner, if_pos hsecret, fun _ deckP => ?_⟩
    rw [admitRequest, if_neg hlong, if_pos hsecret]
  rw [if_neg hsecret]
  obtain ⟨token, inner, htoken, -⟩ := @consume_recording _ _ p provider limiter host deck
  rw [htoken]
  cases token with
  | error secs => exact ⟨_, inner, rfl, fun h => absurd rfl (h secs)⟩
  | ok token =>
    refine ⟨.ok (), inner, rfl, fun _ deckP => ?_⟩
    rw [admitRequest, if_neg hlong, if_neg hsecret]
    rfl

/-- The text that is admitted and sent. -/
def admissionText (intent : String) (feedback : Option String) : String :=
  match feedback with
  | some feedback => intent ++ "\n\n" ++ feedback
  | none => intent

@[simp] theorem admissionText_none (intent : String) : admissionText intent none = intent := rfl

@[simp] theorem admissionText_some (intent feedback : String) :
    admissionText intent (some feedback) = intent ++ "\n\n" ++ feedback := rfl

theorem planIntentWithContext_of_empty {σ : Type} {q : Planner σ} {request : String}
    (h : trim request = "") (feedback : Option String) (host : Host σ) :
    planIntentWithContext lib q request feedback host =
      ⟨.error (.error .emptyIntent), [], host⟩ := by
  unfold planIntentWithContext
  exact if_pos h

theorem planIntentWithContext_of_refused {σ : Type} {q : Planner σ} {request : String}
    {feedback : Option String} {host after : Host σ} {e : PlanningError} (h : trim request ≠ "")
    (hadmitted : admitRequest lib q (admissionText (trim request) feedback) host =
      (.error e, after)) :
    planIntentWithContext lib q request feedback host = ⟨.error (.error e), [], after⟩ := by
  unfold planIntentWithContext
  dsimp only
  rw [if_neg h]
  cases feedback with
  | none =>
    rw [admissionText_none] at hadmitted
    simp only [hadmitted]
  | some feedback =>
    rw [admissionText_some] at hadmitted
    simp only [hadmitted]

theorem planIntentWithContext_of_admitted {σ : Type} {q : Planner σ} {request : String}
    {feedback : Option String} {host after : Host σ} (h : trim request ≠ "")
    (hadmitted : admitRequest lib q (admissionText (trim request) feedback) host =
      (.ok (), after)) :
    planIntentWithContext lib q request feedback host =
      runTurns lib q (trim request) (q.buildSystemPrompt (readPrefsAsync lib q after.prefs))
        q.maxTurns 0 [.userText (admissionText (trim request) feedback)] [] after := by
  unfold planIntentWithContext
  dsimp only
  rw [if_neg h]
  cases feedback with
  | none =>
    rw [admissionText_none] at hadmitted
    simp only [hadmitted, admissionText_none]
  | some feedback =>
    rw [admissionText_some] at hadmitted
    simp only [hadmitted, admissionText_some]

/-- The system prompt of a planner on a host. -/
def Planner.systemOn (p : Planner τ) (lib : Library) (host : Host τ) : String :=
  p.buildSystemPrompt (readPrefsAsync lib p host.prefs)

/-- A request that is recorded adds its attempts. -/
theorem planIntentWithContext_recorded (request : String) (feedback : Option String)
    (host : Host τ) {deck : Deck ω} (hmode : deck.cassette.mode = .record)
    {r : Run (Deck ω × τ)}
    (hr : planIntentWithContext lib (p.recording provider limiter) request feedback
      (host.beside deck) = r) :
    Recorded provider (p.systemOn lib host) p.tools r.attempts deck.cassette
      r.host.world.1.cassette := by
  subst hr
  by_cases hempty : trim request = ""
  · rw [planIntentWithContext_of_empty hempty]
    exact .refl _
  obtain ⟨admitted, inner, hadmitted, -⟩ := @admitRequest_recording _ _ _ lib p provider provider
    limiter (admissionText (trim request) feedback) host deck
  cases admitted with
  | error e =>
    rw [planIntentWithContext_of_refused hempty hadmitted]
    exact .refl _
  | ok token =>
    rw [planIntentWithContext_of_admitted hempty hadmitted]
    obtain ⟨host', deck', hlast, hadded⟩ := @runTurns_recorded _ _ lib p provider limiter
      (trim request) (p.systemOn lib host) 0 p.maxTurns
      [.userText (admissionText (trim request) feedback)] [] host
      { deck with inner := inner } hmode _ rfl
    have hworld := congrArg (fun h : Host (Deck ω × τ) => h.world.1.cassette) hlast
    exact hworld ▸ hadded

/-- A request that was recorded is replayed from every document that covers what was recorded. -/
theorem planIntentWithContext_replays {request : String} {feedback : Option String}
    {host : Host τ} {deck : Deck ω} {deckP : Deck ω'} {r : Run (Deck ω × τ)}
    (hrun : planIntentWithContext lib (p.recording provider limiter) request feedback
      (host.beside deck) = r)
    (hmode : deck.cassette.mode = .record) (hend : r.Completed) (hkept : ∀ a ∈ r.attempts, a.Kept)
    (hkeys : SameKeys provider player)
    (hcovers : deckP.cassette.state.Covers r.host.world.1.cassette.state)
    (hplay : deckP.cassette.mode = .replay) :
    (planIntentWithContext lib (p.replaying player) request feedback
        (host.beside deckP)).Replays r ∧
      Played (planIntentWithContext lib (p.replaying player) request feedback
        (host.beside deckP)).attempts.length deckP (planIntentWithContext lib (p.replaying player)
          request feedback (host.beside deckP)).host.world.1 := by
  subst hrun
  by_cases hempty : trim request = ""
  · rw [planIntentWithContext_of_empty hempty, planIntentWithContext_of_empty hempty]
    exact ⟨⟨rfl, .nil, rfl⟩, .refl deckP⟩
  obtain ⟨admitted, inner, hadmitted, hfree⟩ := @admitRequest_recording _ _ _ lib p provider player
    limiter (admissionText (trim request) feedback) host deck
  cases admitted with
  | error e =>
    rw [planIntentWithContext_of_refused hempty hadmitted] at hend ⊢
    have hadmittedP := hfree (fun secs h => hend.2 secs (congrArg (Except.error ∘ Stop.error)
      (Except.error.inj h))) deckP
    rw [planIntentWithContext_of_refused hempty hadmittedP]
    exact ⟨⟨rfl, .nil, rfl⟩, .refl deckP⟩
  | ok token =>
    have hadmittedP := hfree (by rintro secs ⟨⟩) deckP
    rw [planIntentWithContext_of_admitted hempty hadmitted] at hend hkept hcovers ⊢
    rw [planIntentWithContext_of_admitted hempty hadmittedP]
    exact @runTurns_replays _ _ _ lib p provider player limiter (trim request)
      (p.systemOn lib host) 0 p.maxTurns [.userText (admissionText (trim request) feedback)] [] host
      { deck with inner := inner } deckP _ rfl hmode hend.1 hkept hkeys hcovers hplay

end Runs

/-! ### Any replay -/

section Strictness

variable {lib : Library} {p : Planner τ} {player : CassetteProvider ω} {intent system : String}
  {turn : ℕ}

/-- A call with its retries ends at the first miss. -/
theorem completeWithRetry_strict (left : ℕ) (messages : List Message) (host : Host τ)
    {deck : Deck ω} (hmode : deck.cassette.mode = .replay)
    {r : Answer × List Attempt × Host (Deck ω × τ)}
    (hr : completeWithRetry (p.replaying player) system left messages (host.beside deck) = r) :
    ∃ deck' missed, r.2.2 = host.beside deck' ∧ Strict player system p.tools r.2.1 deck deck' ∧
      ServesUntil player system p.tools deck.cassette.state r.2.1 missed ∧
      ∀ m, missed = some m → r.1 = .error (.cassetteMiss m) := by
  induction left using Nat.strong_induction_on generalizing messages deck r with
  | _ left ih =>
    rcases hasked : player.complete system messages p.tools deck with ⟨answer, asked⟩
    obtain ⟨hstrict, hserved⟩ := complete_strict messages hmode hasked
    have hends : ∃ missed,
        ServesUntil player system p.tools deck.cassette.state [⟨messages, answer⟩] missed ∧
          ∀ m, missed = some m → answer = .error (.cassetteMiss m) := by
      obtain hserved | ⟨m, hmissed⟩ := hserved
      · exact ⟨none, .served _ (List.forall_mem_singleton.mpr hserved), by rintro m ⟨⟩⟩
      · refine ⟨some m, .missed [] _ m (by simp) hmissed, ?_⟩
        rintro _ ⟨⟩
        exact hmissed.2
    obtain ⟨inner, hinner, hlast⟩ | ⟨left', e, inner, rfl, rfl, hretry, hinner, hrest⟩ :=
      @completeWithRetry_recording _ _ p player none system left messages host _ _ _ hasked
    · obtain rfl := hinner rfl
      obtain ⟨missed, hmissed, hanswer⟩ := hends
      have hr' := hlast.symm.trans hr
      subst hr'
      exact ⟨asked, missed, rfl, hstrict, hmissed, hanswer⟩
    · obtain rfl := hinner rfl
      have hfirst : ∀ a ∈ [(⟨messages, .error e⟩ : Attempt)],
          Served player system p.tools deck.cassette.state a := by
        refine List.forall_mem_singleton.mpr ?_
        obtain hserved | ⟨m, hmissed⟩ := hserved
        · exact hserved
        · obtain rfl : e = .cassetteMiss m := Except.error.inj hmissed.2
          cases hretry
      obtain ⟨deck', missed, hhost, hrestStrict, hrestEnds, hanswer⟩ := ih left'
        (Nat.lt_succ_self left') (retried messages e p.tools) (hstrict.mode.trans hmode) rfl
      have hr' := hrest.symm.trans hr
      subst hr'
      rw [hstrict.state] at hrestEnds
      exact ⟨deck', missed, hhost, hstrict.append hrestStrict, .append hfirst hrestEnds, hanswer⟩

theorem runTurn_strict (messages : List Message) (changes : List PendingPrefChange)
    (host : Host τ) {deck : Deck ω} (hmode : deck.cassette.mode = .replay)
    {r : TurnEnd × Turn (Deck ω × τ) × Host (Deck ω × τ)}
    (hr : runTurn lib (p.replaying player) intent system turn messages changes
      (host.beside deck) = r) : ∃ (host' : Host τ) (deck' : Deck ω) (missed : Option String),
      r.2.2 = host'.beside deck' ∧ Strict player system p.tools r.2.1.attempts deck deck' ∧
      ServesUntil player system p.tools deck.cassette.state r.2.1.attempts missed ∧
      ∀ m, missed = some m → r.1 = .done (.error (.error (.provider (.cassetteMiss m)))) := by
  rcases hasked : completeWithRetry (p.replaying player) system providerRetryLimit messages
    (host.beside deck) with ⟨answer, attempts, after⟩
  obtain ⟨deck', missed, rfl, hstrict, hends, hanswer⟩ := completeWithRetry_strict
    providerRetryLimit messages host hmode hasked
  cases answer with
  | error e =>
    rw [runTurn_of_error hasked] at hr
    subst hr
    refine ⟨host, deck', missed, rfl, hstrict, hends, fun m hm => ?_⟩
    rw [Except.error.inj (hanswer m hm)]
  | ok completion =>
    rw [Planner.replaying, runTurn_over_of_ok hasked] at hr
    subst hr
    exact ⟨_, deck', missed, rfl, hstrict, hends, fun m hm => absurd (hanswer m hm) (by simp)⟩

theorem runTurns_strict (left : ℕ) (messages : List Message) (changes : List PendingPrefChange)
    (host : Host τ) {deck : Deck ω} (hmode : deck.cassette.mode = .replay)
    {r : Run (Deck ω × τ)}
    (hr : runTurns lib (p.replaying player) intent system left turn messages changes
      (host.beside deck) = r) : ∃ missed,
      Strict player system p.tools r.attempts deck r.host.world.1 ∧
      ServesUntil player system p.tools deck.cassette.state r.attempts missed ∧
      ∀ m, missed = some m → r.outcome = .error (.error (.provider (.cassetteMiss m))) := by
  induction left generalizing turn messages changes host deck r with
  | zero =>
    subst hr
    exact ⟨none, .refl deck, .served _ (by simp [Run.attempts, runTurns]), by rintro m ⟨⟩⟩
  | succ left ih =>
    rcases hturn : runTurn lib (p.replaying player) intent system turn messages changes
      (host.beside deck) with ⟨turnEnd, log, after⟩
    obtain ⟨host', deck', missed, rfl, hstrict, hends, hmissed⟩ := runTurn_strict messages changes
      host hmode hturn
    rw [runTurns, hturn] at hr
    cases turnEnd with
    | done outcome =>
      subst hr
      have hattempts : (⟨outcome, [log], host'.beside deck'⟩ : Run (Deck ω × τ)).attempts =
          log.attempts := List.append_nil _
      rw [hattempts]
      exact ⟨missed, hstrict, hends, fun m hm => TurnEnd.done.inj (hmissed m hm)⟩
    | next messages changes =>
      subst hr
      -- a turn that goes on has missed nothing
      have hserved : missed = none := by
        cases missed with
        | none => rfl
        | some m => cases hmissed m rfl
      subst hserved
      obtain ⟨missed, hrest, hrestEnds, hmissed⟩ := ih messages changes host'
        (hstrict.mode.trans hmode) rfl
      rw [hstrict.state] at hrestEnds
      exact ⟨missed, hstrict.append hrest, .append hends.all_served hrestEnds, hmissed⟩

theorem admitRequest_replaying (text : String) (host : Host τ) (deck : Deck ω) : ∃ admitted,
    admitRequest lib (p.replaying player) text (host.beside deck) =
      (admitted, host.beside deck) := by
  rw [admitRequest]
  split_ifs
  · exact ⟨_, rfl⟩
  · exact ⟨_, rfl⟩
  · exact ⟨.ok (), rfl⟩

theorem planIntentWithContext_strict (request : String) (feedback : Option String) (host : Host τ)
    {deck : Deck ω} (hmode : deck.cassette.mode = .replay) {r : Run (Deck ω × τ)}
    (hr : planIntentWithContext lib (p.replaying player) request feedback (host.beside deck) = r) :
    ∃ missed, Strict player (p.systemOn lib host) p.tools r.attempts deck r.host.world.1 ∧
      ServesUntil player (p.systemOn lib host) p.tools deck.cassette.state r.attempts missed ∧
      ∀ m, missed = some m → r.outcome = .error (.error (.provider (.cassetteMiss m))) := by
  subst hr
  have hidle : ServesUntil player (p.systemOn lib host) p.tools deck.cassette.state [] none :=
    .served [] (by simp)
  by_cases hempty : trim request = ""
  · rw [planIntentWithContext_of_empty hempty]
    exact ⟨none, .refl deck, hidle, by rintro m ⟨⟩⟩
  obtain ⟨admitted, hadmitted⟩ := @admitRequest_replaying _ _ lib p player
    (admissionText (trim request) feedback) host deck
  cases admitted with
  | error e =>
    rw [planIntentWithContext_of_refused hempty hadmitted]
    exact ⟨none, .refl deck, hidle, by rintro m ⟨⟩⟩
  | ok token =>
    rw [planIntentWithContext_of_admitted hempty hadmitted]
    exact runTurns_strict p.maxTurns [.userText (admissionText (trim request) feedback)] [] host
      hmode rfl

end Strictness

/-! ### Sessions -/

/-- A process that makes one request over a cassette: the file and the ledger are those of the
time. -/
structure Session (ω τ : Type) where
  lib : Library
  planner : Planner τ
  provider : CassetteProvider ω
  limiter : Option (ω → Except ℕ Unit × ω)
  path : String
  intent : String
  feedback : Option String
  /-- The world of the provider. -/
  world : ω
  host : Host τ

namespace Session

/-- The session, while its cassette records into a file. -/
def record (s : Session ω τ) (file : Option Document) :
    Except CassetteError (Run (Deck ω × τ)) := do
  let cassette ← Cassette.openAt s.path .record file []
  return planIntentWithContext s.lib (s.planner.recording s.provider s.limiter) s.intent s.feedback
    (s.host.beside ⟨cassette, s.world⟩)

/-- The session, while its cassette replays a file and another provider is wrapped. -/
def replay (s : Session ω τ) (player : CassetteProvider ω') (world : ω') (file : Option Document)
    (ledger : List Note) : Except CassetteError (Run (Deck ω' × τ)) := do
  let cassette ← Cassette.openAt s.path .replay file ledger
  return planIntentWithContext s.lib (s.planner.replaying player) s.intent s.feedback
    (s.host.beside ⟨cassette, world⟩)

/-- The file after a session that records. -/
def fileAfter (s : Session ω τ) (file : Option Document) : Option Document :=
  match s.record file with
  | .ok r => r.host.world.1.cassette.file
  | .error _ => file

/-- The file after sessions that record, one after the other. -/
def recordAll (sessions : List (Session ω τ)) (file : Option Document) : Option Document :=
  sessions.foldl (fun file s => s.fileAfter file) file

/-- The key of a call in a session. -/
def key (s : Session ω τ) (messages : List Message) : String :=
  s.provider.key (s.planner.systemOn s.lib s.host) s.planner.tools messages

end Session

section Sessions

variable {s : Session ω τ} {file : Option Document}

/-- What is opened is what is in the file. -/
theorem openAt_eq_ok {path : String} {mode : CassetteMode} {ledger : List Note} {c : Cassette}
    (h : Cassette.openAt path mode file ledger = .ok c) :
    c.mode = mode ∧ c.state = file.getD .blank ∧ c.file = file ∧ c.tally = ⟨0, 0⟩ ∧
      c.ledger = ledger ∧ c.Filed := by
  cases file with
  | some d =>
    unfold Cassette.openAt at h
    dsimp only at h
    split_ifs at h with hversion
    obtain rfl := Except.ok.inj h
    refine ⟨rfl, rfl, rfl, rfl, rfl, fun _ => rfl, ?_⟩
    rintro _ ⟨⟩
    exact not_lt.mp hversion
  | none =>
    cases mode with
    | replay => cases h
    | record =>
      obtain rfl := Except.ok.inj h
      exact ⟨rfl, rfl, rfl, rfl, rfl, fun _ => rfl, by rintro d ⟨⟩⟩

theorem Session.record_eq_ok {r : Run (Deck ω × τ)} (h : s.record file = .ok r) :
    ∃ c : Cassette, c.mode = .record ∧ c.state = file.getD .blank ∧ c.file = file ∧ c.Filed ∧
      planIntentWithContext s.lib (s.planner.recording s.provider s.limiter) s.intent s.feedback
        (s.host.beside ⟨c, s.world⟩) = r := by
  rw [Session.record] at h
  cases hopen : Cassette.openAt s.path .record file [] with
  | error e =>
    rw [hopen] at h
    cases h
  | ok c =>
    rw [hopen] at h
    obtain ⟨hmode, hstate, hfile, -, -, hfiled⟩ := openAt_eq_ok hopen
    exact ⟨c, hmode, hstate, hfile, hfiled, Except.ok.inj h⟩

/-- What a session that records leaves in the file. -/
theorem Session.record_recorded {r : Run (Deck ω × τ)} (h : s.record file = .ok r) :
    r.host.world.1.cassette.Filed ∧
      Grows s.provider (s.planner.systemOn s.lib s.host) s.planner.tools r.attempts
        (file.getD .blank) r.host.world.1.cassette.state := by
  obtain ⟨c, hmode, hstate, -, hfiled, hrun⟩ := s.record_eq_ok h
  have hrecorded := planIntentWithContext_recorded s.intent s.feedback s.host hmode hrun
  exact ⟨hrecorded.filed hfiled, hstate ▸ hrecorded.grows⟩

/-- A file that this program can read, if there is one. -/
def Readable (file : Option Document) : Prop := ∀ d, file = some d → d.version ≤ cassetteVersion

/-- Nothing that a file answers is lost by recording into it. -/
theorem Session.fileAfter_covers (s : Session ω τ) (h : Readable file) :
    Readable (s.fileAfter file) ∧
      ((s.fileAfter file).getD .blank).Covers (file.getD .blank) := by
  rw [Session.fileAfter]
  cases hrecord : s.record file with
  | error e => exact ⟨h, fun _ _ hd => hd⟩
  | ok r =>
    obtain ⟨hfiled, hgrows⟩ := s.record_recorded hrecord
    exact ⟨hfiled.version, fun key answer hd =>
      (hfiled.lookup key).trans (hgrows.covers key answer hd)⟩

theorem Session.recordAll_covers (sessions : List (Session ω τ)) (h : Readable file) :
    Readable (recordAll sessions file) ∧
      ((recordAll sessions file).getD .blank).Covers (file.getD .blank) := by
  induction sessions generalizing file with
  | nil => exact ⟨h, fun _ _ hd => hd⟩
  | cons s sessions ih =>
    obtain ⟨hreadable, hcovers⟩ := s.fileAfter_covers h
    obtain ⟨hreadable', hcovers'⟩ := ih hreadable
    exact ⟨hreadable', hcovers'.trans hcovers⟩

/-- A ledger of hits adds up to their number. -/
theorem readLedger_of_hits {notes : List Note} (h : ∀ note ∈ notes, note.hit = true) :
    readLedger notes = ⟨notes.length, 0⟩ := by
  have hfold : ∀ t : Tally, notes.foldl (fun t n => t.add n.hit) t =
      ⟨t.hits + notes.length, t.misses⟩ := by
    induction notes with
    | nil => exact fun t => rfl
    | cons note notes ih =>
      intro t
      obtain ⟨hnote, hnotes⟩ := List.forall_mem_cons.mp h
      rw [List.foldl_cons, ih hnotes, Tally.add, if_pos hnote, List.length_cons]
      simp only [Tally.mk.injEq, and_true]
      omega
  rw [readLedger, hfold, Nat.zero_add]

/-- A provider that fails once and has nothing to say after that. -/
def resetProvider : CassetteProvider ℕ where
  inner _ _ _ _ calls :=
    (if calls = 0 then .error (.request "reset") else .ok ⟨[], .endTurn⟩, calls + 1)
  persist _ calls := (none, calls)
  surface := "p/m"
  sha256Hex := id

def resetSession : Session ℕ Unit where
  lib := plainLibrary
  planner := callingPlanner ""
  provider := resetProvider
  limiter := none
  path := "c.json"
  intent := "hi"
  feedback := none
  world := 0
  host := ⟨(), none, none⟩

/-- A run of that session: an attempt that fails, and one that does not. -/
theorem resetSession_record : ∃ r, resetSession.record none = .ok r ∧
    r.outcome = .error (.error .noPlanProposed) ∧ r.attempts =
      [⟨[.userText "hi"], .error (.request "reset")⟩, ⟨[.userText "hi"], .ok ⟨[], .endTurn⟩⟩] :=
  ⟨_, rfl, rfl, rfl⟩

/-- **What is in the file after a recording.** It answers what it did before, and the calls of the
run whose answers last: completions, and rejections that a planner corrects. Whether writing the
file failed at times makes no difference. -/
theorem Session.recorded_iff {r : Run (Deck ω × τ)} (h : s.record file = .ok r) (key : String)
    (answer : Answer) :
    (r.host.world.1.cassette.file.getD .blank).lookup key = some answer ↔
      (file.getD .blank).lookup key = some answer ∨
        ∃ a ∈ r.attempts, s.key a.messages = key ∧ a.answer = answer ∧ Lasting answer := by
  obtain ⟨hfiled, hgrows⟩ := s.record_recorded h
  rw [hfiled.lookup]
  exact hgrows key answer

theorem Session.recorded_iff_reset : ∃ r, resetSession.record none = .ok r ∧ ∀ key answer,
    (r.host.world.1.cassette.file.getD .blank).lookup key = some answer ↔
      (none : Option Answer) = some answer ∨
        ∃ a ∈ r.attempts, resetSession.key a.messages = key ∧ a.answer = answer ∧
          Lasting answer := by
  obtain ⟨r, hr, -⟩ := resetSession_record
  exact ⟨r, hr, Session.recorded_iff hr⟩

/-- **A suite replays.** Sessions are recorded into one file. Take one of them that came to its
end, without a rate limit whose text says that a tool does not exist. From the final file, whatever
else was recorded before and after, it replays with the same outcome, the same calls of tools and
the same effect on them, and no provider is asked: every attempt is a hit. -/
theorem Session.suite_replays {before after : List (Session ω τ)} {r : Run (Deck ω × τ)}
    (hrecord : s.record (recordAll before file) = .ok r) (hend : r.Completed)
    (hkept : ∀ a ∈ r.attempts, a.Kept) {d : Document}
    (hfile : recordAll (before ++ s :: after) file = some d) {player : CassetteProvider ω'}
    (hkeys : SameKeys s.provider player) (world : ω') (ledger : List Note) :
    ∃ played notes, s.replay player world (some d) ledger = .ok played ∧ played.Replays r ∧
      played.host.world.1.inner = world ∧
      played.host.world.1.cassette.ledger = ledger ++ notes ∧
      readLedger notes = ⟨played.attempts.length, 0⟩ := by
  obtain ⟨c, hmode, -, -, -, hrun⟩ := s.record_eq_ok hrecord
  obtain ⟨hfiled, -⟩ := s.record_recorded hrecord
  have hafter : s.fileAfter (recordAll before file) = r.host.world.1.cassette.file := by
    rw [Session.fileAfter, hrecord]
  obtain ⟨hreadable, hcovers⟩ := Session.recordAll_covers after hfiled.version
  have hd : recordAll after r.host.world.1.cassette.file = some d := by
    rw [← hafter, ← hfile, recordAll, recordAll, recordAll, List.foldl_append, List.foldl_cons]
  rw [hd] at hreadable hcovers
  have hopen : Cassette.openAt s.path .replay (some d) ledger =
      .ok ⟨s.path, .replay, d, ⟨0, 0⟩, ledger, some d⟩ := by
    unfold Cassette.openAt
    exact if_neg (not_lt.mpr (hreadable d rfl))
  -- the final document covers what was known when the session ended
  have hknown : d.Covers r.host.world.1.cassette.state := fun key answer h =>
    hcovers key answer ((hfiled.lookup key).trans h)
  obtain ⟨hreplays, hplayed⟩ := @planIntentWithContext_replays _ _ _ s.lib s.planner s.provider
    player s.limiter s.intent s.feedback s.host ⟨c, s.world⟩
    ⟨⟨s.path, .replay, d, ⟨0, 0⟩, ledger, some d⟩, world⟩ r hrun hmode hend hkept hkeys hknown rfl
  obtain ⟨notes, hnotes, hlength, hhits⟩ := hplayed.ledger
  refine ⟨_, notes, ?_, hreplays, hplayed.inner, hnotes, ?_⟩
  · rw [Session.replay, hopen]
    rfl
  · rw [readLedger_of_hits hhits, hlength]

/-- A provider that always fails. -/
def deadProvider : CassetteProvider Unit where
  inner _ _ _ _ world := (.error (.auth ""), world)
  persist _ world := (none, world)
  surface := "p/m"
  sha256Hex := id

/-- The session that failed once is replayed over a provider that always fails. -/
theorem Session.suite_replays_reset : ∃ r d played notes,
    resetSession.record none = .ok r ∧ resetSession.fileAfter none = some d ∧
    resetSession.replay deadProvider () (some d) [] = .ok played ∧ played.Replays r ∧
    readLedger notes = ⟨played.attempts.length, 0⟩ := by
  obtain ⟨r, hr, houtcome, hattempts⟩ := resetSession_record
  have hkept : ∀ a ∈ r.attempts, a.Kept := by
    rw [hattempts]
    simp [Attempt.Kept]
  obtain ⟨d, hd⟩ : ∃ d, Session.recordAll ([] ++ resetSession :: []) none = some d := ⟨_, rfl⟩
  obtain ⟨played, notes, hplayed, hreplays, -, -, hnotes⟩ := @Session.suite_replays _ _ _
    resetSession none [] [] r hr ⟨by simp [houtcome], by simp [houtcome]⟩ hkept d hd deadProvider
    ⟨rfl, rfl⟩ () []
  exact ⟨r, d, played, notes, hr, hd, hplayed, hreplays, hnotes⟩

end Sessions

end Sysknife.Brain
