import Mathlib.Data.Finset.Insert
import Mathlib.Data.List.AList
import Sysknife.Brain.Planner

/-!
# Cassettes

A cassette stands between a planner and its provider. While it records, a call is answered from
the document if it is there, and made and kept otherwise; while it replays, nothing is made. Kept
are completions and the refusals that a planner corrects; what only describes the moment, such as
a timeout, is passed on and forgotten.

The digest, the provider and the outcome of writing the file are open.

* `Grows attempts d d'`: `d'` answers what `d` does, and otherwise exactly the lasting ones of the
  attempts. One call adds itself (`complete_recorded`), and nothing else is known of a document.
-/

namespace Sysknife.Brain

/-- `CASSETTE_VERSION` -/
def cassetteVersion : ℕ := 2

/-- `PLANNING_MAX_TOKENS` -/
def planningMaxTokens : ℕ := 4096

inductive CassetteMode
  | record
  | replay
  deriving DecidableEq, Repr

inductive CassetteError
  | unsupportedVersion (path : String) (found understood : ℕ)
  | missing (path : String)
  | io (path source : String)

def CassetteError.message : CassetteError → String
  | .unsupportedVersion path found understood =>
    "cassette " ++ path ++ " has version " ++ toString found ++ ", but this binary understands " ++
      toString understood ++ "; re-record it or use a matching build"
  | .missing path => "cannot replay: no cassette at " ++ path
  | .io path source => "cassette " ++ path ++ " is not readable: " ++ source

/-! ### Calls as JSON -/

def Role.name : Role → String
  | .user => "User"
  | .assistant => "Assistant"

/-- `Option<String>` as a value. -/
def optionValue : Option String → Value
  | none => .null
  | some s => .str s

def ContentBlock.value : ContentBlock → Value
  | .text s => .obj [("Text", .obj [("text", .str s)])]
  | .toolUse id callId name input =>
    .obj [("ToolUse", .obj [("id", .str id), ("call_id", optionValue callId),
      ("name", .str name), ("input", input)])]
  | .toolResult toolUseId callId content isError =>
    .obj [("ToolResult", .obj [("tool_use_id", .str toolUseId), ("call_id", optionValue callId),
      ("content", .str content), ("is_error", .bool isError)])]

def Message.value (m : Message) : Value :=
  .obj [("role", .str m.role.name), ("content", .arr (m.content.map ContentBlock.value))]

def ToolDefinition.value (t : ToolDefinition) : Value :=
  .obj [("name", .str t.name), ("description", .str t.description),
    ("input_schema", t.inputSchema)]

/-- An object whose members are rendered in the order of their declaration. -/
def object (members : List (String × String)) : String :=
  "\x7b" ++ ",".intercalate (members.map fun m => Value.quote m.1 ++ ":" ++ m.2) ++ "\x7d"

/-- `serde_json::to_string` of a block: only what is a value already has its keys sorted. -/
def ContentBlock.json : ContentBlock → String
  | .text s => object [("Text", object [("text", Value.quote s)])]
  | .toolUse id callId name input =>
    object [("ToolUse", object [("id", Value.quote id),
      ("call_id", (optionValue callId).canonicalJson), ("name", Value.quote name),
      ("input", input.canonicalJson)])]
  | .toolResult toolUseId callId content isError =>
    object [("ToolResult", object [("tool_use_id", Value.quote toolUseId),
      ("call_id", (optionValue callId).canonicalJson), ("content", Value.quote content),
      ("is_error", (Value.bool isError).canonicalJson)])]

def Message.json (m : Message) : String :=
  object [("role", Value.quote m.role.name),
    ("content", "[" ++ ",".intercalate (m.content.map ContentBlock.json) ++ "]")]

def ToolDefinition.json (t : ToolDefinition) : String :=
  object [("name", Value.quote t.name), ("description", Value.quote t.description),
    ("input_schema", t.inputSchema.canonicalJson)]

section Keys

variable (sha256Hex : String → String)

/-- `call_key` -/
def callKey (surface system : String) (messages : List Message) (tools : List ToolDefinition)
    (maxTokens : ℕ) : String :=
  surface ++ ":" ++ sha256Hex (Value.obj [("surface", .str surface), ("system", .str system),
    ("messages", .arr (messages.map Message.value)),
    ("tools", .arr (tools.map ToolDefinition.value)),
    ("max_tokens", .int maxTokens)]).canonicalJson

/-- Digests of the components of a call. -/
structure CallFingerprint where
  system : String
  tools : String
  maxTokens : ℕ
  messages : List String

def CallFingerprint.of (system : String) (messages : List Message) (tools : List ToolDefinition)
    (maxTokens : ℕ) : CallFingerprint where
  system := sha256Hex system
  tools := sha256Hex ("[" ++ ",".intercalate (tools.map ToolDefinition.json) ++ "]")
  maxTokens := maxTokens
  messages := messages.map fun m => sha256Hex m.json

/-- The index of the first message that differs, unless one conversation goes on with the
other. -/
def CallFingerprint.firstDivergentMessage (f g : CallFingerprint) : Option ℕ :=
  (f.messages.zip g.messages).findIdx? fun p => p.1 ≠ p.2

end Keys

/-! ### Entries -/

/-- What a provider answers a call with. -/
abbrev Answer := Except ProviderError Completion

structure RecordedRejection where
  kind : String
  message : String
  status : Option ℕ

namespace RecordedRejection

def of : ProviderError → Option RecordedRejection
  | .request m => some ⟨"request", m, none⟩
  | .parse m => some ⟨"parse", m, none⟩
  | .http status body => some ⟨"http", body, some status⟩
  | _ => none

/-- A kind that is not known is read as the broadest of the errors. -/
def toError (r : RecordedRejection) : ProviderError :=
  if r.kind = "parse" then .parse r.message
  else if r.kind = "http" then .http (r.status.getD 500) r.message
  else .request r.message

/-- A refusal is read back as what it was. -/
theorem toError_of {e : ProviderError} {r : RecordedRejection} (h : of e = some r) :
    r.toError = e := by
  cases e with
  | request m => obtain rfl := Option.some.inj h; rfl
  | parse m => obtain rfl := Option.some.inj h; rfl
  | http status body => obtain rfl := Option.some.inj h; rfl
  | auth m => cases h
  | rateLimit m => cases h
  | cassetteMiss m => cases h

end RecordedRejection

def recordableRejection (e : ProviderError) : Option RecordedRejection :=
  if e.isInvalidToolCall then RecordedRejection.of e else none

/-- `Entry` -/
structure CassetteEntry where
  surface : String
  output : Option Completion
  rejection : Option RecordedRejection
  fingerprint : Option CallFingerprint

/-- What an entry answers. One with neither an output nor a rejection was edited by hand. -/
def CassetteEntry.answer (entry : CassetteEntry) : Option Answer :=
  match entry.output, entry.rejection with
  | some output, _ => some (.ok output)
  | none, some r => some (.error r.toError)
  | none, none => none

/-- The contents of a cassette file. -/
structure Document where
  version : ℕ
  /-- `meta.surfaces` -/
  surfaces : Finset String
  /-- `meta.system_prompt_sha256` -/
  systemPrompts : Finset String
  entries : AList fun _ : String => CassetteEntry

namespace Document

def blank : Document := ⟨cassetteVersion, ∅, ∅, ∅⟩

/-- `lookup` -/
def lookup (d : Document) (key : String) : Option Answer :=
  (d.entries.lookup key).bind CassetteEntry.answer

@[simp] theorem lookup_blank (key : String) : blank.lookup key = none := rfl

/-- The document with another entry, and stamped as what this program writes. -/
def withEntry (d : Document) (key promptSha : String) (entry : CassetteEntry) : Document where
  version := cassetteVersion
  surfaces := insert entry.surface d.surfaces
  systemPrompts := insert promptSha d.systemPrompts
  entries := d.entries.insert key entry

theorem lookup_withEntry (d : Document) (key promptSha : String) (entry : CassetteEntry) :
    (d.withEntry key promptSha entry).lookup key = entry.answer := by
  rw [lookup, withEntry, AList.lookup_insert, Option.bind_some]

theorem lookup_withEntry_of_ne {key other : String} (d : Document) (promptSha : String)
    (entry : CassetteEntry) (h : other ≠ key) :
    (d.withEntry key promptSha entry).lookup other = d.lookup other := by
  rw [lookup, withEntry, AList.lookup_insert_ne h]
  rfl

/-- The document with what it had under a key taken back. -/
def without (d : Document) (key : String) : Document := { d with entries := d.entries.erase key }

theorem lookup_without (d : Document) (key : String) : (d.without key).lookup key = none := by
  rw [lookup, without, AList.lookup_erase, Option.bind_none]

theorem lookup_without_of_ne {key other : String} (d : Document) (h : other ≠ key) :
    (d.without key).lookup other = d.lookup other := by
  rw [lookup, without, AList.lookup_erase_ne h]
  rfl

end Document

/-! ### The ledger -/

/-- A line of the ledger. -/
structure Note where
  hit : Bool
  surface : String
  key : String

structure Tally where
  hits : ℕ
  misses : ℕ
  deriving DecidableEq, Repr

def Tally.add (t : Tally) (hit : Bool) : Tally :=
  if hit then { t with hits := t.hits + 1 } else { t with misses := t.misses + 1 }

/-- `read_ledger` -/
def readLedger (notes : List Note) : Tally := notes.foldl (fun t n => t.add n.hit) ⟨0, 0⟩

/-- `Cassette`, with the file it is kept in. -/
structure Cassette where
  path : String
  mode : CassetteMode
  state : Document
  tally : Tally
  ledger : List Note
  file : Option Document

namespace Cassette

/-- `open`: a newer version is refused, and so is the replay of nothing. -/
def openAt (path : String) (mode : CassetteMode) (file : Option Document) (ledger : List Note) :
    Except CassetteError Cassette :=
  match file, mode with
  | some d, _ =>
    if cassetteVersion < d.version then
      .error (.unsupportedVersion path d.version cassetteVersion)
    else .ok ⟨path, mode, d, ⟨0, 0⟩, ledger, file⟩
  | none, .replay => .error (.missing path)
  | none, .record => .ok ⟨path, mode, .blank, ⟨0, 0⟩, ledger, file⟩

/-- `note`: only a replay keeps a ledger. -/
def note (c : Cassette) (hit : Bool) (surface key : String) : Cassette :=
  { c with
    tally := c.tally.add hit
    ledger := if c.mode = .replay then c.ledger ++ [⟨hit, surface, key⟩] else c.ledger }

def promptIsUnknown (c : Cassette) (promptSha : String) : Bool :=
  decide (promptSha ∉ c.state.systemPrompts)

/-- `diagnose_miss` -/
def diagnoseMiss (c : Cassette) (surface : String) (want : CallFingerprint) : String :=
  let recorded := (c.state.entries.entries.map Sigma.snd).filterMap fun entry =>
    if entry.surface = surface then entry.fingerprint else none
  if recorded.isEmpty then
    "no recorded output for surface " ++ surface ++ " in " ++ c.path ++
      "; re-record with SYSKNIFE_CASSETTE_MODE=record"
  else if !recorded.any fun f => f.system = want.system then
    "the system prompt changed, so every call will miss; re-record with " ++
      "SYSKNIFE_CASSETTE_MODE=record"
  else if !recorded.any fun f => f.tools = want.tools then
    "the tool schema changed, so every call will miss; re-record with " ++
      "SYSKNIFE_CASSETTE_MODE=record"
  else
    -- the conversation itself diverged, and the deepest match is where
    let deepest := ((recorded.filter fun f => f.system = want.system ∧ f.tools = want.tools)
      |>.filterMap fun f => f.firstDivergentMessage want).max?
    match deepest with
    | some 0 =>
      "no recorded output for this intent in " ++ c.path ++ ". The prompt and tools match, so " ++
        "the cassette is current — this particular request was never recorded. A recording " ++
        "made before cassette v2 is the usual reason: only successes were kept, so an intent " ++
        "whose first call the provider rejected left the corrected retry behind and nothing to " ++
        "start it from. Re-record with SYSKNIFE_CASSETTE_MODE=record if it should be covered."
    | some index =>
      "the conversation diverged at message " ++ toString index ++ ": the intent and the turns " ++
        "before it replay, this one does not. That is the signature of a volatile tool result " ++
        "— a timestamp, a transaction id, or live system state folded into the call key. See " ++
        "issue #182."
    | none =>
      "no recorded output for this call in " ++ c.path ++ "; the prompt and tools match, so the " ++
        "conversation reached a turn that was never recorded. Re-record with " ++
        "SYSKNIFE_CASSETTE_MODE=record"

end Cassette

/-! ### The provider -/

/-- A cassette, and the world of the provider that it wraps. -/
structure Deck (ω : Type) where
  cassette : Cassette
  inner : ω

/-- `CassetteProvider`: the provider that is wrapped, and how writing the file goes. -/
structure CassetteProvider (ω : Type) where
  inner : String → List Message → List ToolDefinition → ℕ → ω → Answer × ω
  /-- `persist`: the error, if there is one. The file is replaced as a whole or not at all. -/
  persist : Document → ω → Option CassetteError × ω
  surface : String
  sha256Hex : String → String

namespace CassetteProvider

variable {ω : Type} (provider : CassetteProvider ω)

def key (system : String) (tools : List ToolDefinition) (messages : List Message) : String :=
  callKey provider.sha256Hex provider.surface system messages tools planningMaxTokens

/-- `store_entry`: what did not reach the file is taken back. -/
def storeEntry (key promptSha : String) (entry : CassetteEntry) (deck : Deck ω) :
    Except CassetteError Unit × Deck ω :=
  let state := deck.cassette.state.withEntry key promptSha entry
  match provider.persist state deck.inner with
  | (none, inner) => (.ok (), ⟨{ deck.cassette with state := state, file := some state }, inner⟩)
  | (some e, inner) =>
    (.error e, ⟨{ deck.cassette with state := state.without key }, inner⟩)

/-- What an answer is kept as, if it is. -/
def entryOf (fingerprint : CallFingerprint) : Answer → Option CassetteEntry
  | .ok output => some ⟨provider.surface, some output, none, some fingerprint⟩
  | .error e => (recordableRejection e).map fun rejection =>
    ⟨provider.surface, none, some rejection, some fingerprint⟩

def missDetail (cassette : Cassette) (fingerprint : CallFingerprint) : String :=
  if cassette.promptIsUnknown fingerprint.system then
    "the system prompt changed (sha256 " ++ fingerprint.system ++ " was never recorded in " ++
      cassette.path ++ "), so every call will miss; re-record after a prompt change"
  else cassette.diagnoseMiss provider.surface fingerprint

/-- An answer of the provider, kept where it lasts. -/
def keep (key : String) (fingerprint : CallFingerprint) (answer : Answer) (deck : Deck ω) :
    Answer × Deck ω :=
  match provider.entryOf fingerprint answer with
  | none => (answer, deck)
  | some entry =>
    match provider.storeEntry key fingerprint.system entry deck with
    | (.ok (), deck) => (answer, deck)
    | (.error e, deck) =>
      (.error (.cassetteMiss ("cannot write cassette: " ++ e.message)), deck)

/-- `complete` -/
def complete (system : String) (messages : List Message) (tools : List ToolDefinition)
    (deck : Deck ω) : Answer × Deck ω :=
  let key := provider.key system tools messages
  let fingerprint := CallFingerprint.of provider.sha256Hex system messages tools planningMaxTokens
  match deck.cassette.state.lookup key, deck.cassette.mode with
  | some answer, _ =>
    (answer, { deck with cassette := deck.cassette.note true provider.surface key })
  | none, .replay =>
    let missed := deck.cassette.note false provider.surface key
    (.error (.cassetteMiss (provider.missDetail missed fingerprint)),
      { deck with cassette := missed })
  | none, .record =>
    let asked := provider.inner system messages tools planningMaxTokens deck.inner
    provider.keep key fingerprint asked.1 { deck with inner := asked.2 }

end CassetteProvider

/-! ### What a call adds -/

/-- What the recorder keeps: a completion, or a rejection that a planner corrects. A rate limit is
never kept, whatever its text says. -/
def Lasting : Answer → Prop
  | .ok _ => True
  | .error e => (recordableRejection e).isSome = true

theorem not_lasting_cassetteMiss (m : String) : ¬ Lasting (.error (.cassetteMiss m)) := by
  rintro ⟨⟩

section Grows

variable {ω : Type} (provider : CassetteProvider ω) (system : String)
  (tools : List ToolDefinition)

/-- A document answers what another one does, and otherwise what the attempts were answered with
as far as that lasts. -/
def Grows (attempts : List Attempt) (d d' : Document) : Prop :=
  ∀ key answer, d'.lookup key = some answer ↔ d.lookup key = some answer ∨
    ∃ a ∈ attempts, provider.key system tools a.messages = key ∧ a.answer = answer ∧ Lasting answer

/-- What is in the file is what is known, and this program can read it. -/
structure Cassette.Filed (c : Cassette) : Prop where
  lookup (key : String) : (c.file.getD .blank).lookup key = c.state.lookup key
  version (d : Document) (h : c.file = some d) : d.version ≤ cassetteVersion

/-- What the attempts do to a cassette that records. -/
structure Recorded (attempts : List Attempt) (c c' : Cassette) : Prop where
  mode : c'.mode = c.mode
  grows : Grows provider system tools attempts c.state c'.state
  filed (h : c.Filed) : c'.Filed

variable {provider system tools}

theorem Grows.nil (d : Document) : Grows provider system tools [] d d := by
  simp [Grows]

theorem Grows.append {a b : List Attempt} {d d' d'' : Document}
    (ha : Grows provider system tools a d d') (hb : Grows provider system tools b d' d'') :
    Grows provider system tools (a ++ b) d d'' := by
  intro key answer
  rw [hb, ha, or_assoc]
  simp only [List.mem_append, or_and_right, exists_or]

theorem Recorded.refl (c : Cassette) : Recorded provider system tools [] c c :=
  ⟨rfl, .nil c.state, id⟩

theorem Recorded.append {a b : List Attempt} {c c' c'' : Cassette}
    (ha : Recorded provider system tools a c c') (hb : Recorded provider system tools b c' c'') :
    Recorded provider system tools (a ++ b) c c'' :=
  ⟨hb.mode.trans ha.mode, ha.grows.append hb.grows, hb.filed ∘ ha.filed⟩

/-- An attempt that was answered from the document adds nothing. -/
theorem grows_of_known {messages : List Message} {answer : Answer} {d : Document}
    (h : d.lookup (provider.key system tools messages) = some answer) :
    Grows provider system tools [⟨messages, answer⟩] d d := by
  intro key other
  refine ⟨.inl, ?_⟩
  rintro (hknown | ⟨a, ha, rfl, rfl, -⟩)
  · exact hknown
  · obtain rfl := List.mem_singleton.mp ha
    exact h

/-- An attempt whose answer does not last adds nothing. -/
theorem grows_of_not_lasting {messages : List Message} {answer : Answer} (h : ¬ Lasting answer)
    {d d' : Document} (hsame : ∀ key, d'.lookup key = d.lookup key) :
    Grows provider system tools [⟨messages, answer⟩] d d' := by
  intro key other
  rw [hsame]
  refine ⟨.inl, ?_⟩
  rintro (hknown | ⟨a, ha, -, rfl, hlasting⟩)
  · exact hknown
  · obtain rfl := List.mem_singleton.mp ha
    exact absurd hlasting h

/-- A new answer that lasts is added. -/
theorem grows_withEntry {messages : List Message} {answer : Answer} {d : Document}
    {entry : CassetteEntry} {promptSha : String}
    (hnone : d.lookup (provider.key system tools messages) = none)
    (hentry : entry.answer = some answer) (hlasting : Lasting answer) :
    Grows provider system tools [⟨messages, answer⟩] d
      (d.withEntry (provider.key system tools messages) promptSha entry) := by
  intro key other
  by_cases hkey : key = provider.key system tools messages
  · subst hkey
    rw [d.lookup_withEntry, hentry, hnone]
    constructor
    · rintro ⟨⟩
      exact .inr ⟨_, List.mem_singleton_self _, rfl, rfl, hlasting⟩
    · rintro (h | ⟨a, ha, -, rfl, -⟩)
      · cases h
      · obtain rfl := List.mem_singleton.mp ha
        rfl
  · rw [d.lookup_withEntry_of_ne promptSha entry hkey]
    refine ⟨.inl, ?_⟩
    rintro (h | ⟨a, ha, hsame, -⟩)
    · exact h
    · obtain rfl := List.mem_singleton.mp ha
      exact absurd hsame.symm hkey

/-- What is kept answers as the provider did, and lasts. -/
theorem answer_of_entryOf {fingerprint : CallFingerprint} {answer : Answer} {entry : CassetteEntry}
    (h : provider.entryOf fingerprint answer = some entry) :
    entry.answer = some answer ∧ Lasting answer := by
  cases answer with
  | ok output =>
    obtain rfl := Option.some.inj h
    exact ⟨rfl, trivial⟩
  | error e =>
    obtain ⟨rejection, hrejection, rfl⟩ := Option.map_eq_some_iff.mp h
    have hof : RecordedRejection.of e = some rejection := by
      rw [recordableRejection] at hrejection
      split_ifs at hrejection
      exact hrejection
    refine ⟨?_, Option.isSome_of_mem hrejection⟩
    show some (Except.error rejection.toError) = _
    rw [RecordedRejection.toError_of hof]

/-- What is not kept does not last. -/
theorem not_lasting_of_entryOf {fingerprint : CallFingerprint} {answer : Answer}
    (h : provider.entryOf fingerprint answer = none) : ¬ Lasting answer := by
  cases answer with
  | ok output => cases h
  | error e =>
    rw [Lasting, Option.map_eq_none_iff.mp h]
    rintro ⟨⟩

/-- An answer to a call that was not known is kept, or does not last. -/
theorem keep_recorded {messages : List Message} {answer : Answer} {fingerprint : CallFingerprint}
    {deck : Deck ω}
    (hnone : deck.cassette.state.lookup (provider.key system tools messages) = none)
    {kept : Answer × Deck ω}
    (hkept : provider.keep (provider.key system tools messages) fingerprint answer deck = kept) :
    Recorded provider system tools [⟨messages, kept.1⟩] deck.cassette kept.2.cassette := by
  subst hkept
  rw [CassetteProvider.keep]
  cases hentry : provider.entryOf fingerprint answer with
  | none => exact ⟨rfl, grows_of_not_lasting (not_lasting_of_entryOf hentry) fun _ => rfl, id⟩
  | some entry =>
    obtain ⟨hanswer, hlasting⟩ := answer_of_entryOf hentry
    dsimp only
    rw [CassetteProvider.storeEntry]
    dsimp only
    rcases provider.persist _ deck.inner with ⟨failed, inner⟩
    cases failed with
    | none =>
      refine ⟨rfl, grows_withEntry hnone hanswer hlasting, fun _ => ⟨fun _ => rfl, ?_⟩⟩
      rintro d ⟨⟩
      exact le_rfl
    | some e =>
      -- the entry is taken back, and there was none before
      have hsame : ∀ key, ((deck.cassette.state.withEntry (provider.key system tools messages)
          fingerprint.system entry).without (provider.key system tools messages)).lookup key =
          deck.cassette.state.lookup key := by
        intro key
        by_cases hkey : key = provider.key system tools messages
        · rw [hkey, Document.lookup_without, hnone]
        · rw [Document.lookup_without_of_ne _ hkey, Document.lookup_withEntry_of_ne _ _ _ hkey]
      exact ⟨rfl, grows_of_not_lasting (not_lasting_cassetteMiss _) hsame,
        fun hfiled => ⟨fun key => (hfiled.lookup key).trans (hsame key).symm, hfiled.version⟩⟩

/-- A call that is known from the document is answered from it, whatever the mode. -/
theorem complete_of_known {messages : List Message} {deck : Deck ω} {answer : Answer}
    (h : deck.cassette.state.lookup (provider.key system tools messages) = some answer) :
    provider.complete system messages tools deck = (answer,
      ⟨deck.cassette.note true provider.surface (provider.key system tools messages),
        deck.inner⟩) := by
  rw [CassetteProvider.complete]
  dsimp only
  rw [h]

/-- A recorder makes a call that is not known. -/
theorem complete_of_unknown {messages : List Message} {deck : Deck ω}
    (hmode : deck.cassette.mode = .record)
    (h : deck.cassette.state.lookup (provider.key system tools messages) = none) :
    ∃ fingerprint answer inner, provider.complete system messages tools deck =
      provider.keep (provider.key system tools messages) fingerprint answer
        { deck with inner := inner } := by
  rw [CassetteProvider.complete]
  dsimp only
  rw [h, hmode]
  exact ⟨_, _, _, rfl⟩

/-- A call to a recorder adds itself. -/
theorem complete_recorded (messages : List Message) {deck : Deck ω}
    (hmode : deck.cassette.mode = .record) :
    Recorded provider system tools
      [⟨messages, (provider.complete system messages tools deck).1⟩] deck.cassette
      (provider.complete system messages tools deck).2.cassette := by
  cases hlookup : deck.cassette.state.lookup (provider.key system tools messages) with
  | some answer =>
    rw [complete_of_known hlookup]
    exact ⟨rfl, grows_of_known hlookup, fun h => ⟨h.lookup, h.version⟩⟩
  | none =>
    obtain ⟨fingerprint, answer, inner, hcomplete⟩ := complete_of_unknown hmode hlookup
    rw [hcomplete]
    have hnone : ({ deck with inner := inner } : Deck ω).cassette.state.lookup
        (provider.key system tools messages) = none := hlookup
    exact keep_recorded hnone rfl

/-! ### A replay -/

/-- So many hits and nothing else happen to a deck. -/
structure Played (n : ℕ) (deck deck' : Deck ω) : Prop where
  inner : deck'.inner = deck.inner
  state : deck'.cassette.state = deck.cassette.state
  mode : deck'.cassette.mode = deck.cassette.mode
  file : deck'.cassette.file = deck.cassette.file
  tally : deck'.cassette.tally = ⟨deck.cassette.tally.hits + n, deck.cassette.tally.misses⟩
  ledger : ∃ notes, deck'.cassette.ledger = deck.cassette.ledger ++ notes ∧
    notes.length = n ∧ ∀ note ∈ notes, note.hit = true

theorem Played.refl (deck : Deck ω) : Played 0 deck deck :=
  ⟨rfl, rfl, rfl, rfl, rfl, [], by simp⟩

theorem Played.trans {m n : ℕ} {deck deck' deck'' : Deck ω} (h : Played m deck deck')
    (h' : Played n deck' deck'') : Played (m + n) deck deck'' where
  inner := h'.inner.trans h.inner
  state := h'.state.trans h.state
  mode := h'.mode.trans h.mode
  file := h'.file.trans h.file
  tally := by rw [h'.tally, h.tally, Nat.add_assoc]
  ledger := by
    obtain ⟨notes, hnotes, hlength, hhits⟩ := h.ledger
    obtain ⟨notes', hnotes', hlength', hhits'⟩ := h'.ledger
    refine ⟨notes ++ notes', ?_, ?_, List.forall_mem_append.mpr ⟨hhits, hhits'⟩⟩
    · rw [hnotes', hnotes, List.append_assoc]
    · rw [List.length_append, hlength, hlength']

/-- A replay answers a call that is known from the document. -/
theorem complete_played {messages : List Message} {deck : Deck ω} {answer : Answer}
    (hmode : deck.cassette.mode = .replay)
    (h : deck.cassette.state.lookup (provider.key system tools messages) = some answer) :
    ∃ deck', provider.complete system messages tools deck = (answer, deck') ∧
      Played 1 deck deck' := by
  refine ⟨_, complete_of_known h, rfl, rfl, rfl, rfl, rfl,
    [⟨true, provider.surface, provider.key system tools messages⟩], ?_, rfl, by simp⟩
  rw [Cassette.note, if_pos hmode]

/-! ### What a replay does -/

/-- An attempt that was answered from a document. -/
def Served (provider : CassetteProvider ω) (system : String) (tools : List ToolDefinition)
    (d : Document) (a : Attempt) : Prop :=
  d.lookup (provider.key system tools a.messages) = some a.answer

/-- An attempt that a document does not answer. -/
def Missed (provider : CassetteProvider ω) (system : String) (tools : List ToolDefinition)
    (d : Document) (a : Attempt) (m : String) : Prop :=
  d.lookup (provider.key system tools a.messages) = none ∧ a.answer = .error (.cassetteMiss m)

/-- The line of the ledger for an attempt. -/
def Noted (provider : CassetteProvider ω) (system : String) (tools : List ToolDefinition)
    (d : Document) (a : Attempt) (note : Note) : Prop :=
  note.key = provider.key system tools a.messages ∧ note.surface = provider.surface ∧
    (note.hit = true ∧ Served provider system tools d a ∨
      note.hit = false ∧ ∃ m, Missed provider system tools d a m)

/-- What attempts do to a deck that replays: they are noted. -/
structure Strict (provider : CassetteProvider ω) (system : String) (tools : List ToolDefinition)
    (attempts : List Attempt) (deck deck' : Deck ω) : Prop where
  inner : deck'.inner = deck.inner
  state : deck'.cassette.state = deck.cassette.state
  mode : deck'.cassette.mode = deck.cassette.mode
  file : deck'.cassette.file = deck.cassette.file
  noted : ∃ notes, deck'.cassette.ledger = deck.cassette.ledger ++ notes ∧
    deck'.cassette.tally = notes.foldl (fun t n => t.add n.hit) deck.cassette.tally ∧
    List.Forall₂ (Noted provider system tools deck.cassette.state) attempts notes

/-- All attempts are served, or the last one is the only one that is missed. -/
inductive ServesUntil (provider : CassetteProvider ω) (system : String)
    (tools : List ToolDefinition) (d : Document) : List Attempt → Option String → Prop
  | served (attempts : List Attempt) (h : ∀ a ∈ attempts, Served provider system tools d a) :
    ServesUntil provider system tools d attempts none
  | missed (front : List Attempt) (last : Attempt) (m : String)
    (h : ∀ a ∈ front, Served provider system tools d a)
    (hlast : Missed provider system tools d last m) :
    ServesUntil provider system tools d (front ++ [last]) (some m)

theorem ServesUntil.all_served {d : Document} {attempts : List Attempt}
    (h : ServesUntil provider system tools d attempts none) :
    ∀ a ∈ attempts, Served provider system tools d a := by
  cases h with
  | served attempts h => exact h

/-- What was served before does not change how the attempts end. -/
theorem ServesUntil.append {d : Document} {front attempts : List Attempt} {missed : Option String}
    (hfront : ∀ a ∈ front, Served provider system tools d a)
    (h : ServesUntil provider system tools d attempts missed) :
    ServesUntil provider system tools d (front ++ attempts) missed := by
  cases h with
  | served attempts h => exact .served _ (List.forall_mem_append.mpr ⟨hfront, h⟩)
  | missed init last m h hlast =>
    rw [← List.append_assoc]
    exact .missed _ last m (List.forall_mem_append.mpr ⟨hfront, h⟩) hlast

theorem Strict.refl (deck : Deck ω) : Strict provider system tools [] deck deck :=
  ⟨rfl, rfl, rfl, rfl, [], (List.append_nil _).symm, rfl, .nil⟩

theorem Strict.append {a b : List Attempt} {deck deck' deck'' : Deck ω}
    (h : Strict provider system tools a deck deck')
    (h' : Strict provider system tools b deck' deck'') :
    Strict provider system tools (a ++ b) deck deck'' where
  inner := h'.inner.trans h.inner
  state := h'.state.trans h.state
  mode := h'.mode.trans h.mode
  file := h'.file.trans h.file
  noted := by
    obtain ⟨notes, hledger, htally, hnoted⟩ := h.noted
    obtain ⟨notes', hledger', htally', hnoted'⟩ := h'.noted
    refine ⟨notes ++ notes', ?_, ?_, ?_⟩
    · rw [hledger', hledger, List.append_assoc]
    · rw [htally', htally, List.foldl_append]
    · rw [h.state] at hnoted'
      exact List.rel_append hnoted hnoted'

/-- A call to a replay is served, or missed for good. -/
theorem complete_strict (messages : List Message) {deck deck' : Deck ω} {answer : Answer}
    (hmode : deck.cassette.mode = .replay)
    (h : provider.complete system messages tools deck = (answer, deck')) :
    Strict provider system tools [⟨messages, answer⟩] deck deck' ∧
      (Served provider system tools deck.cassette.state ⟨messages, answer⟩ ∨
        ∃ m, Missed provider system tools deck.cassette.state ⟨messages, answer⟩ m) := by
  cases hlookup : deck.cassette.state.lookup (provider.key system tools messages) with
  | some known =>
    rw [complete_of_known hlookup] at h
    obtain ⟨rfl, rfl⟩ := Prod.mk.inj h
    have hserved : Served provider system tools deck.cassette.state ⟨messages, known⟩ := hlookup
    refine ⟨⟨rfl, rfl, rfl, rfl, _, if_pos hmode, rfl, .cons ⟨rfl, rfl, .inl ⟨rfl, ?_⟩⟩ .nil⟩,
      .inl hserved⟩
    exact hserved
  | none =>
    rw [CassetteProvider.complete] at h
    dsimp only at h
    rw [hlookup, hmode] at h
    obtain ⟨rfl, rfl⟩ := Prod.mk.inj h
    refine ⟨⟨rfl, rfl, rfl, rfl, _, if_pos hmode, rfl,
      .cons ⟨rfl, rfl, .inr ⟨rfl, _, hlookup, rfl⟩⟩ .nil⟩, .inr ⟨_, hlookup, rfl⟩⟩

end Grows

end Sysknife.Brain
