import Sysknife.Brain.Sanitize
import Sysknife.Lib.Pattern

/-!
# The envelope around tool output

The text that reaches the model carries the envelope's tags once each, whatever a tool printed:
no pass after the tags are broken joins text into a tag again.

* `Enveloped tool text maxBytes`: `text` is an envelope for `tool` with its tags once each.
* `envelope_integrity`: **what sanitising returns is enveloped, and normalised preferences are
  normalised for good.** The second part needs more of Unicode normalisation than that it is
  idempotent (`NormalForm`): the tags are broken and newlines deleted after it.
-/

namespace Sysknife.Brain

open Slices Marks

/-- What normal forms of Unicode are documented for: normalising twice is normalising once, a
piece of a normal text is normal, ASCII is normal, and so is what two normal texts make when the
second begins with an ASCII character. -/
structure NormalForm (nfc : List Char → List Char) : Prop where
  idem (s : List Char) : nfc (nfc s) = nfc s
  left {s t : List Char} (h : nfc (s ++ t) = s ++ t) : nfc s = s
  right {s t : List Char} (h : nfc (s ++ t) = s ++ t) : nfc t = t
  ascii {s : List Char} (h : ∀ c ∈ s, c.toNat < 128) : nfc s = s
  join {s t : List Char} {c : Char} (hs : nfc s = s) (ht : nfc (c :: t) = c :: t)
    (hc : c.toNat < 128) : nfc (s ++ c :: t) = s ++ c :: t

/-- `text` is the envelope of a tool's output: the tags stand once each, at its ends, nothing in
it is invisible, and the body is within the limit. -/
structure Enveloped (tool text : List Char) (maxBytes : ℕ) : Prop where
  opens : ∃ rest, OccursOnce (opening "untrusted_tool_output") text [] rest
  closes : ∃ front, OccursOnce (closing "untrusted_tool_output") text front ['>']
  preferences : ¬opening "user_preferences" <:+: text ∧ ¬closing "user_preferences" <:+: text
  visible : ∀ c ∈ text, c ≠ escape ∧ dangerous c = false
  body : ∃ body, text = envelope (sanitiseToolName tool) body ∧
    size body ≤ max maxBytes (size truncationMarker)

/-! ### The edits that break tags -/

/-- The tags without their angle brackets. -/
def tagNames : List (List Char) :=
  ["/untrusted_tool_output".toList, "untrusted_tool_output".toList,
    "/user_preferences".toList, "user_preferences".toList]

def tagEdits : List (List Char × List Char) :=
  [(closing "untrusted_tool_output", blockedClosing "untrusted_tool_output"),
    (opening "untrusted_tool_output", blockedOpening "untrusted_tool_output"),
    (closing "user_preferences", blockedClosing "user_preferences"),
    (opening "user_preferences", blockedOpening "user_preferences")]

theorem neutraliseEnvelopeTags_eq (s : List Char) :
    neutraliseEnvelopeTags s = replaceEach tagEdits s := rfl

/-- No tag stands in a text. -/
def Untagged (s : List Char) : Prop := ∀ v ∈ tagNames, ¬ '<' :: v <:+: s

theorem bracket_notMem_tagNames : ∀ v ∈ tagNames, '<' ∉ v ∧ '\n' ∉ v := by decide

/-- What is put in place of the tags differs from each of them. -/
theorem tagEdits_differ : ∀ edit ∈ tagEdits, edit.2.head? = some '<' ∧ '<' ∉ edit.2.tail ∧
    ∀ v ∈ tagNames, ∃ p ∈ v.zip edit.2.tail, p.1 ≠ p.2 := by decide

theorem tagEdits_complete : ∀ v ∈ tagNames, ∃ edit ∈ tagEdits, edit.1 = '<' :: v := by decide

theorem tagEdits_sound : ∀ edit ∈ tagEdits, ∃ v ∈ tagNames, edit.1 = '<' :: v := by decide

theorem untagged_neutralise (s : List Char) : Untagged (neutraliseEnvelopeTags s) := by
  intro v hv
  rw [neutraliseEnvelopeTags_eq]
  refine absent_replaceEach (bracket_notMem_tagNames v hv).1 ?_ (Or.inl (tagEdits_complete v hv))
  intro edit hedit
  obtain ⟨hhead, hmark, hdiffer⟩ := tagEdits_differ edit hedit
  exact ⟨edit.2.tail, (List.cons_head?_tail hhead).symm, hmark, hdiffer v hv⟩

theorem neutralise_of_untagged {s : List Char} (h : Untagged s) : neutraliseEnvelopeTags s = s := by
  rw [neutraliseEnvelopeTags_eq]
  refine replaceEach_of_absent ?_
  intro edit hedit
  obtain ⟨v, hv, heq⟩ := tagEdits_sound edit hedit
  rw [heq]
  exact h v hv

theorem untagged_collapse {s : List Char} (h : Untagged s) : Untagged (collapseBlankRuns s) := by
  intro v hv
  refine absent_collapse (List.cons_ne_nil _ _) ?_ (h v hv)
  rw [List.mem_cons, not_or]
  exact ⟨by decide, (bracket_notMem_tagNames v hv).2⟩

theorem untagged_redacted {s out : List Char} (h : Redacted s out) (hs : Untagged s) :
    Untagged out := by
  have hmarker : ∀ v ∈ tagNames, ∃ p ∈ v.zip "redacted>".toList, p.1 ≠ p.2 := by decide
  induction h with
  | keep t => exact hs
  | @cut kept secret rest out h ih =>
    have hrest : Untagged rest := by
      intro v hv hin
      exact hs v hv (hin.trans ⟨kept ++ secret, [], by simp⟩)
    intro v hv
    have hkept : ¬ '<' :: v <:+: kept := by
      intro hin
      exact hs v hv (List.infix_append_of_infix_left hin)
    -- A tag that came about would begin in the marker, which differs from it.
    exact absent_splice (bracket_notMem_tagNames v hv).1 (by decide) (hmarker v hv) hkept
      (ih hrest v hv)

theorem untagged_truncated {s r : List Char} {max : ℕ} (h : truncateWithMarker s max = .ok r)
    (hs : Untagged s) : Untagged r := by
  have hmarker : ∀ v ∈ tagNames, ¬ '<' :: v <:+: "[...truncated]".toList := by decide
  obtain ⟨_, heq, hcut⟩ := truncateWithMarker_returns s max
  obtain rfl := Except.ok.inj (h.symm.trans heq)
  rcases hcut with ⟨rfl, -⟩ | ⟨kept, rest, rfl, rfl, -⟩
  · exact hs
  · intro v hv
    have hkept : ¬ '<' :: v <:+: kept := by
      intro hin
      exact hs v hv (List.infix_append_of_infix_left hin)
    have hn : '\n' ∉ '<' :: v := by
      rw [List.mem_cons, not_or]
      exact ⟨by decide, (bracket_notMem_tagNames v hv).2⟩
    -- The marker opens with a newline, and no tag has one.
    exact absent_append_sep (List.cons_ne_nil _ _) hn hkept (hmarker v hv)

theorem size_truncated {s r : List Char} {maxBytes : ℕ}
    (h : truncateWithMarker s maxBytes = .ok r) :
    size r ≤ max maxBytes (size truncationMarker) := by
  obtain ⟨_, heq, hcut⟩ := truncateWithMarker_returns s maxBytes
  obtain rfl := Except.ok.inj (h.symm.trans heq)
  rcases hcut with ⟨rfl, hle⟩ | ⟨kept, rest, rfl, rfl, hle⟩
  · exact hle.trans (le_max_left _ _)
  · rw [size_append]
    omega

/-! ### Invisible characters -/

/-- Nothing in the text would be stripped. -/
def Visible (s : List Char) : Prop := ∀ c ∈ s, dangerous c = false

instance (s : List Char) : Decidable (Visible s) := List.decidableBAll _ s

theorem visible_append {s t : List Char} : Visible (s ++ t) ↔ Visible s ∧ Visible t := by
  simp only [Visible, List.mem_append, or_imp, forall_and]

theorem visible_strip (s : List Char) : Visible (stripDangerousUnicode s) := by
  intro c hc
  simpa using (List.mem_filter.mp hc).2

theorem strip_of_visible {s : List Char} (h : Visible s) : stripDangerousUnicode s = s := by
  rw [stripDangerousUnicode, List.filter_eq_self]
  intro c hc
  simpa using h c hc

/-- What normalisation makes of a stripped text is visible, if it brings nothing invisible in. -/
theorem visible_normalised {nfc : List Char → List Char}
    (hkept : ∀ s, ∀ c ∈ nfc s, dangerous c = true → c ∈ s) (s : List Char) :
    Visible (nfc (stripDangerousUnicode s)) := by
  intro c hc
  by_contra hd
  have hd' : dangerous c = true := by simpa using hd
  exact hd (visible_strip s c (hkept _ c hc hd'))

theorem visible_neutralise {s : List Char} (h : Visible s) :
    Visible (neutraliseEnvelopeTags s) := by
  have hedits : ∀ edit ∈ tagEdits, Visible edit.2 := by decide
  intro c hc
  rw [neutraliseEnvelopeTags_eq] at hc
  rcases mem_replaceEach hc with hc | ⟨edit, hedit, hc⟩
  · exact h c hc
  · exact hedits edit hedit c hc

theorem visible_collapse {s : List Char} (h : Visible s) : Visible (collapseBlankRuns s) := by
  intro c hc
  exact h c ((collapseFrom_sublist 0 s).subset hc)

theorem visible_redacted {s out : List Char} (h : Redacted s out) (hs : Visible s) :
    Visible out := by
  have hmarker : Visible redactedMarker := by decide
  induction h with
  | keep t => exact hs
  | cut kept secret h ih =>
    rw [visible_append, visible_append] at hs ⊢
    exact ⟨hs.1, hmarker, ih hs.2.2⟩

theorem visible_truncated {s r : List Char} {max : ℕ} (h : truncateWithMarker s max = .ok r)
    (hs : Visible s) : Visible r := by
  have hmarker : Visible truncationMarker := by decide
  obtain ⟨_, heq, hcut⟩ := truncateWithMarker_returns s max
  obtain rfl := Except.ok.inj (h.symm.trans heq)
  rcases hcut with ⟨rfl, -⟩ | ⟨kept, rest, rfl, rfl, -⟩
  · exact hs
  · rw [visible_append] at hs ⊢
    exact ⟨hs.1, hmarker⟩

/-! ### The finished envelope -/

theorem sanitiseToolName_chars (tool : List Char) :
    ∀ c ∈ sanitiseToolName tool, isToolNameChar c = true := by
  have hunknown : "unknown".toList.all isToolNameChar = true := by decide
  intro c hc
  simp only [sanitiseToolName] at hc
  split_ifs at hc with hall
  · exact List.all_eq_true.mp (Bool.and_eq_true_iff.mp hall).1 c hc
  · exact List.all_eq_true.mp hunknown c hc
  · obtain ⟨d, -, rfl⟩ := List.mem_map.mp hc
    split_ifs with hd
    · exact hd
    · decide

theorem visible_of_isToolNameChar {c : Char} (h : isToolNameChar c = true) :
    dangerous c = false := by
  have hrange : 45 ≤ c.toNat ∧ c.toNat ≤ 122 := by
    simp only [isToolNameChar, Bool.or_eq_true, beq_iff_eq] at h
    rcases h with (h | rfl) | rfl
    · have hword := toNat_of_isAlphanum h
      omega
    · decide
    · decide
  rw [← Bool.not_eq_true]
  intro hc
  simp only [dangerous, Bool.or_eq_true, Bool.and_eq_true, decide_eq_true_eq, beq_iff_eq] at hc
  omega

/-- The first line of the envelope, without its angle bracket. -/
def headerTail (tool : List Char) : List Char :=
  "untrusted_tool_output source=\"".toList ++ (tool ++ "\">".toList)

def footer : List Char := "</untrusted_tool_output>".toList

theorem envelope_eq (tool body : List Char) :
    envelope tool body = '<' :: headerTail tool ++ '\n' :: (body ++ '\n' :: footer) := by
  have hopen : "<untrusted_tool_output source=\"".toList =
      '<' :: "untrusted_tool_output source=\"".toList := by decide
  have hquote : "\">\n".toList = "\">".toList ++ ['\n'] := by decide
  have hclose : "\n</untrusted_tool_output>".toList = '\n' :: footer := by decide
  unfold envelope headerTail
  rw [hopen, hquote, hclose]
  simp only [List.append_assoc, List.cons_append, List.nil_append]

/-- The first line opens with a letter after its angle bracket. -/
theorem headerTail_eq_cons (tool : List Char) : ∃ rest, headerTail tool = 'u' :: 'n' :: rest := by
  have hopen : "untrusted_tool_output source=\"".toList =
      'u' :: 'n' :: "trusted_tool_output source=\"".toList := by decide
  unfold headerTail
  rw [hopen]
  exact ⟨_, rfl⟩

/-- No angle bracket comes in the first line after its own. -/
theorem headerTail_marks {tool : List Char} (htool : ∀ c ∈ tool, isToolNameChar c = true) :
    '<' ∉ headerTail tool := by
  have hopen : '<' ∉ "untrusted_tool_output source=\"".toList := by decide
  have hquote : '<' ∉ "\">".toList := by decide
  have hname : '<' ∉ tool := by
    intro h
    exact absurd (htool '<' h) (by decide)
  unfold headerTail
  simp only [List.mem_append, not_or]
  exact ⟨hopen, hname, hquote⟩

/-- In the envelope of a body without tags a tag stands only where the first line or the last line
has it. -/
theorem absent_envelope {tool body v : List Char} (htool : ∀ c ∈ tool, isToolNameChar c = true)
    (hbody : Untagged body) (hv : v ∈ tagNames)
    (hheader : ∃ p ∈ v.zip (headerTail tool), p.1 ≠ p.2)
    (hfooter : ¬ '<' :: v <:+: footer) : ¬ '<' :: v <:+: envelope tool body := by
  have hn : '\n' ∉ '<' :: v := by
    rw [List.mem_cons, not_or]
    exact ⟨by decide, (bracket_notMem_tagNames v hv).2⟩
  rw [envelope_eq]
  refine absent_append_sep (List.cons_ne_nil _ _) hn ?_ ?_
  · exact absent_of_differ (headerTail_marks htool) hheader
  · exact absent_append_sep (List.cons_ne_nil _ _) hn (hbody v hv) hfooter

/-- The envelope of a body without tags has its opening tag once. -/
theorem envelope_opens {tool body : List Char} (htool : ∀ c ∈ tool, isToolNameChar c = true)
    (hbody : Untagged body) :
    ∃ rest, OccursOnce (opening "untrusted_tool_output") (envelope tool body) [] rest := by
  have hv : "untrusted_tool_output".toList ∈ tagNames := by decide
  have hmarks := bracket_notMem_tagNames _ hv
  have hline : '<' ∉ " source=\"".toList ++ (tool ++ "\">".toList) := by
    have hall := headerTail_marks htool
    unfold headerTail at hall
    simp only [List.mem_append, not_or] at hall ⊢
    exact ⟨by decide, hall.2⟩
  have hn : '\n' ∉ opening "untrusted_tool_output" := by decide
  refine ⟨(" source=\"".toList ++ (tool ++ "\">".toList)) ++ '\n' :: (body ++ '\n' :: footer), ?_⟩
  have hsplit : envelope tool body = [] ++ (opening "untrusted_tool_output" ++
      ((" source=\"".toList ++ (tool ++ "\">".toList)) ++ '\n' :: (body ++ '\n' :: footer))) := by
    have hopen : '<' :: "untrusted_tool_output source=\"".toList =
        opening "untrusted_tool_output" ++ " source=\"".toList := by decide
    rw [envelope_eq]
    unfold headerTail
    rw [← List.cons_append, hopen]
    simp only [List.append_assoc, List.nil_append]
  rw [hsplit]
  -- Neither the rest of the first line nor the body nor the last line opens the tag again.
  refine occursOnce_append (Marked.cons hmarks.1) (by decide) ?_
  refine absent_append_of_not_mem hline ?_
  refine absent_append_sep (a := []) (List.cons_ne_nil _ _) hn (by decide) ?_
  exact absent_append_sep (List.cons_ne_nil _ _) hn (hbody _ hv) (by decide)

/-- The envelope of a body without tags has its closing tag once. -/
theorem envelope_closes {tool body : List Char} (htool : ∀ c ∈ tool, isToolNameChar c = true)
    (hbody : Untagged body) :
    ∃ front, OccursOnce (closing "untrusted_tool_output") (envelope tool body) front ['>'] := by
  have hv : "/untrusted_tool_output".toList ∈ tagNames := by decide
  have hmarks := bracket_notMem_tagNames _ hv
  have hn : '\n' ∉ closing "untrusted_tool_output" := by decide
  refine ⟨'<' :: headerTail tool ++ '\n' :: (body ++ '\n' :: []), ?_⟩
  have hsplit : envelope tool body = ('<' :: headerTail tool ++ '\n' :: (body ++ '\n' :: [])) ++
      (closing "untrusted_tool_output" ++ ['>']) := by
    have hfooter : footer = closing "untrusted_tool_output" ++ ['>'] := by decide
    rw [envelope_eq, hfooter]
    simp only [List.append_assoc, List.cons_append, List.nil_append]
  rw [hsplit]
  refine occursOnce_append (Marked.cons hmarks.1) ?_ (by decide)
  refine absent_append_sep (List.cons_ne_nil _ _) hn ?_ ?_
  · obtain ⟨rest, hheader⟩ := headerTail_eq_cons tool
    refine absent_of_differ (headerTail_marks htool) ⟨('/', 'u'), ?_, by decide⟩
    rw [hheader]
    exact List.mem_cons_self
  · exact absent_append_sep (List.cons_ne_nil _ _) hn (hbody _ hv) (by decide)

theorem visible_envelope {tool body : List Char} (htool : ∀ c ∈ tool, isToolNameChar c = true)
    (hbody : Visible body) : Visible (envelope tool body) := by
  have hopen : Visible "<untrusted_tool_output source=\"".toList := by decide
  have hquote : Visible "\">\n".toList := by decide
  have hclose : Visible "\n</untrusted_tool_output>".toList := by decide
  have hname : Visible tool := by
    intro c hc
    exact visible_of_isToolNameChar (htool c hc)
  unfold envelope
  simp only [visible_append]
  exact ⟨⟨⟨⟨hopen, hname⟩, hquote⟩, hbody⟩, hclose⟩

/-- A body without tags and invisible characters makes an envelope. -/
theorem enveloped {tool body : List Char} {maxBytes : ℕ} (htagged : Untagged body)
    (hvisible : Visible body) (hsize : size body ≤ max maxBytes (size truncationMarker)) :
    Enveloped tool (envelope (sanitiseToolName tool) body) maxBytes := by
  have htool := sanitiseToolName_chars tool
  obtain ⟨rest, hheader⟩ := headerTail_eq_cons (sanitiseToolName tool)
  have hpreferences : ∀ v ∈ ["/user_preferences".toList, "user_preferences".toList],
      v ∈ tagNames ∧ ¬ '<' :: v <:+: footer := by decide
  refine ⟨envelope_opens htool htagged, envelope_closes htool htagged, ⟨?_, ?_⟩, ?_, body, rfl,
    hsize⟩
  · obtain ⟨hv, hfooter⟩ := hpreferences "user_preferences".toList (by simp)
    refine absent_envelope htool htagged hv ⟨('s', 'n'), ?_, by decide⟩ hfooter
    rw [hheader]
    exact List.mem_cons_of_mem _ List.mem_cons_self
  · obtain ⟨hv, hfooter⟩ := hpreferences "/user_preferences".toList (by simp)
    refine absent_envelope htool htagged hv ⟨('/', 'u'), ?_, by decide⟩ hfooter
    rw [hheader]
    exact List.mem_cons_self
  · intro c hc
    have hdangerous := visible_envelope htool hvisible c hc
    refine ⟨?_, hdangerous⟩
    rintro rfl
    exact absurd hdangerous (by decide)

/-- Sanitising makes an envelope, if normalisation brings nothing invisible in. -/
theorem enveloped_of_sanitized {nfc : List Char → List Char}
    (hkept : ∀ s, ∀ c ∈ nfc s, dangerous c = true → c ∈ s) {tool raw text : List Char}
    {maxBytes : ℕ} (h : sanitizeToolOutputCapped nfc tool raw maxBytes = .ok text) :
    Enveloped tool text maxBytes := by
  obtain ⟨body, hbody, htext⟩ := exists_of_bind_eq_ok h
  obtain rfl := Except.ok.inj htext
  obtain ⟨redacted, -, hrest⟩ := exists_of_bind_eq_ok hbody
  obtain ⟨normalised, hnormalised, hrest⟩ := exists_of_bind_eq_ok hrest
  obtain ⟨again, hagain, htruncated⟩ := exists_of_bind_eq_ok hrest
  obtain ⟨stripped, -, hs⟩ := exists_of_bind_eq_ok hnormalised
  obtain rfl := Except.ok.inj hs
  obtain ⟨mid, _, hkeys, hsecrets, hok⟩ := redactToolSecrets_spec
    (collapseBlankRuns (neutraliseEnvelopeTags (nfc (stripDangerousUnicode stripped))))
  obtain rfl := Except.ok.inj (hagain.symm.trans hok)
  have hvisible := visible_normalised hkept stripped
  have htagged := untagged_collapse
    (untagged_neutralise (nfc (stripDangerousUnicode stripped)))
  refine enveloped ?_ ?_ (size_truncated htruncated)
  · exact untagged_truncated htruncated
      (untagged_redacted hsecrets (untagged_redacted hkeys htagged))
  · have hpasses := visible_collapse (visible_neutralise hvisible)
    exact visible_truncated htruncated (visible_redacted hsecrets (visible_redacted hkeys hpasses))

/-! ### Normalising twice -/

theorem strips_self {s : List Char} (h : escape ∉ s) : Strips s s := by
  induction s with
  | nil => exact .nil
  | cons c s ih =>
    rw [List.mem_cons, not_or] at h
    exact .char (Ne.symm h.1) (ih h.2)

/-- Breaking a tag puts `BLOCKED_` between two of its characters. -/
theorem tagEdits_insert : ∀ edit ∈ tagEdits, ∃ p v,
    edit.1 = p ++ 'u' :: v ∧ edit.2 = p ++ ("BLOCKED_".toList ++ 'u' :: v) := by
  intro edit hedit
  simp only [tagEdits, List.mem_cons, List.not_mem_nil, or_false] at hedit
  rcases hedit with rfl | rfl | rfl | rfl
  · exact ⟨"</".toList, "ntrusted_tool_output".toList, by decide, by decide⟩
  · exact ⟨"<".toList, "ntrusted_tool_output".toList, by decide, by decide⟩
  · exact ⟨"</".toList, "ser_preferences".toList, by decide, by decide⟩
  · exact ⟨"<".toList, "ser_preferences".toList, by decide, by decide⟩

section NormalForm

variable {nfc : List Char → List Char} (hnfc : NormalForm nfc)

include hnfc

/-- Putting ASCII before an ASCII character keeps a text normal. -/
theorem NormalForm.insert {x z w : List Char} {b u : Char} (hw : ∀ c ∈ b :: w, c.toNat < 128)
    (hu : u.toNat < 128) (h : nfc (x ++ u :: z) = x ++ u :: z) :
    nfc (x ++ (b :: w ++ u :: z)) = x ++ (b :: w ++ u :: z) := by
  have hword := hnfc.join (hnfc.ascii hw) (hnfc.right h) hu
  exact hnfc.join (hnfc.left h) hword (hw b (by simp))

theorem NormalForm.neutralise {s : List Char} (h : nfc s = s) :
    nfc (neutraliseEnvelopeTags s) = neutraliseEnvelopeTags s := by
  rw [neutraliseEnvelopeTags_eq]
  -- Each edit only puts ASCII between characters that are there already.
  refine replaceEach_closed (C := fun s => nfc s = s) ?_ h
  intro edit hedit
  obtain ⟨p, v, hold, hnew⟩ := tagEdits_insert edit hedit
  have hblocked : "BLOCKED_".toList = 'B' :: "LOCKED_".toList := by decide
  have hascii : (('B' :: "LOCKED_".toList).all fun c => decide (c.toNat < 128)) = true := by decide
  refine ⟨by rw [hold]; simp, ?_⟩
  intro x z hC
  rw [hold, ← List.append_assoc, ← List.append_assoc, List.append_assoc] at hC
  have hinsert := hnfc.insert (z := v ++ z)
    (fun c hc => of_decide_eq_true (List.all_eq_true.mp hascii c hc)) (by decide) hC
  rw [hnew, hblocked]
  simpa only [List.append_assoc, List.cons_append] using hinsert

theorem NormalForm.collapse {s : List Char} (h : nfc s = s) :
    nfc (collapseBlankRuns s) = collapseBlankRuns s := by
  refine collapseFrom_closed (C := fun s => nfc s = s) (x := []) ?_ (fun hpos => ?_) h
  · intro x z hC
    have hsplit : x ++ '\n' :: '\n' :: z = (x ++ ['\n']) ++ '\n' :: z := by simp
    have hright : nfc ('\n' :: z) = '\n' :: z := hnfc.right (hsplit ▸ hC)
    exact hnfc.join (hnfc.left hC) hright (by decide)
  · exact absurd hpos (Nat.lt_irrefl 0)

/-- Normalised preferences are normalised for good. -/
theorem normalisePreferences_idem (hkept : ∀ s, ∀ c ∈ nfc s, dangerous c = true → c ∈ s)
    {raw once : List Char} (h : normalisePreferences nfc raw = .ok once) :
    normalisePreferences nfc once = .ok once := by
  obtain ⟨stripped, -, honce⟩ := exists_of_bind_eq_ok h
  have hvisible := visible_normalised hkept stripped
  generalize hn : nfc (stripDangerousUnicode stripped) = n at honce hvisible
  have hnormal : nfc n = n := by rw [← hn, hnfc.idem]
  obtain rfl := Except.ok.inj honce
  have hseen := visible_collapse (visible_neutralise hvisible)
  have htagged := untagged_collapse (untagged_neutralise n)
  have hescape : escape ∉ collapseBlankRuns (neutraliseEnvelopeTags n) := by
    intro hc
    exact absurd (hseen escape hc) (by decide)
  have hstrip := stripAnsi_eq_ok_iff.mpr (strips_self hescape)
  have hform := hnfc.collapse (hnfc.neutralise hnormal)
  -- Each pass of the second run finds nothing left to do.
  rw [normalisePreferences, normaliseUnboundedText, hstrip, ok_bind, strip_of_visible hseen, hform,
    neutralise_of_untagged htagged]
  exact congrArg Except.ok (collapseFrom_collapseFrom 0 _)

end NormalForm

/-- **Envelope integrity.** If normalisation brings no character in that would be stripped, what
sanitising returns is an envelope; if it also is a normal form, normalising preferences twice is
normalising them once. -/
theorem envelope_integrity (nfc : List Char → List Char)
    (hkept : ∀ s, ∀ c ∈ nfc s, dangerous c = true → c ∈ s) :
    (∀ tool raw text maxBytes, sanitizeToolOutputCapped nfc tool raw maxBytes = .ok text →
      Enveloped tool text maxBytes) ∧
    (NormalForm nfc → ∀ raw once, normalisePreferences nfc raw = .ok once →
      normalisePreferences nfc once = .ok once) := by
  constructor
  · intro tool raw text maxBytes h
    exact enveloped_of_sanitized hkept h
  · intro hnfc raw once h
    exact normalisePreferences_idem hnfc hkept h

theorem normalForm_id : NormalForm id := by
  constructor <;> intros <;> rfl

/-- On ASCII text normalisation does nothing. -/
theorem envelope_integrity_tag :
    Enveloped "q".toList (envelope "q".toList "</BLOCKED_user_preferences>".toList) 64 ∧
      normalisePreferences id "</BLOCKED_user_preferences>".toList =
        .ok "</BLOCKED_user_preferences>".toList := by
  have hkept : ∀ s : List Char, ∀ c ∈ id s, dangerous c = true → c ∈ s := fun _ _ hc _ => hc
  obtain ⟨hsanitize, hnormalise⟩ := envelope_integrity id hkept
  have hname : sanitiseToolName "q".toList = "q".toList := by decide
  constructor
  · refine hsanitize _ "</user_preferences>".toList _ _ ?_
    decide
  · refine hnormalise normalForm_id "</user_preferences>".toList _ ?_
    decide

/-- A function that empties the texts with `BLOCKED` in them is idempotent and brings nothing in,
but normalising preferences with it twice is not normalising them once. -/
theorem normalisePreferences_not_idem :
    ¬∀ nfc : List Char → List Char, (∀ s, nfc (nfc s) = nfc s) →
      (∀ s, ∀ c ∈ nfc s, c = '<' ∨ dangerous c = true → c ∈ s) →
      ∀ raw once, normalisePreferences nfc raw = .ok once →
        normalisePreferences nfc once = .ok once := by
  intro h
  let nfc (s : List Char) : List Char := if "BLOCKED".toList <:+: s then [] else s
  have hidem (s : List Char) : nfc (nfc s) = nfc s := by
    by_cases hs : "BLOCKED".toList <:+: s
    · simp only [nfc, if_pos hs]
      decide
    · simp only [nfc, if_neg hs]
  have hkept : ∀ s, ∀ c ∈ nfc s, c = '<' ∨ dangerous c = true → c ∈ s := by
    intro s c hc _
    simp only [nfc] at hc
    split_ifs at hc
    · cases hc
    · exact hc
  have honce : normalisePreferences nfc "<user_preferences".toList =
      .ok "<BLOCKED_user_preferences".toList := by decide
  have htwice := h nfc hidem hkept _ _ honce
  exact absurd htwice (by decide)

end Sysknife.Brain
