import Sysknife.Actions.Validate
import Sysknife.Lib.Decoding

/-!
# Audit events for syslog

`audit_forward.rs` forwards an audit event as one RFC 5424 message. Its structured data is one
element, whose parameters hold texts of the caller and of the action; a value drops what is not
printable ASCII and escapes the three characters that mean something in an element.

`sdElement` reads an element by the grammar of the RFC. `sdElement_format` says that it finds the
parameters that were meant, and stops where the element was closed.
-/

namespace Sysknife.Syslog

open Decoding

/-! ### The message -/

/-- What is forwarded about a transaction. -/
structure AuditEvent where
  seq : UInt64
  transactionId : String
  actionName : String
  riskLevel : RiskLevel
  summary : String
  approvalId : Option String
  createdAt : String
  chainHash : String
  keyId : String
  callerRole : Option String
  callerPrincipal : Option String
  finalStatus : Option String

/-- `0x20..=0x7E` -/
def isPrintable (c : Char) : Bool := decide (0x20 ≤ c.toNat) && decide (c.toNat ≤ 0x7E)

/-- One character of `sd_escape`. -/
def sdEscapeChar (c : Char) : List Char :=
  if c = '"' then ['\\', '"']
  else if c = '\\' then ['\\', '\\']
  else if c = ']' then ['\\', ']']
  else if isPrintable c then [c]
  else []

def sdEscape (value : String) : String := String.ofList (value.toList.flatMap sdEscapeChar)

/-- The kernel's host name, or `-` for one that is no token. -/
def readHostname (read : Option String) : String :=
  let raw := (read.map trim).getD ""
  if raw.isEmpty || decide (255 < Text.byteLen raw) ||
      !raw.toList.all fun c => decide (0x21 ≤ c.toNat) && decide (c.toNat ≤ 0x7E) then "-"
  else raw

def riskText : RiskLevel → String
  | .low => "low"
  | .medium => "medium"
  | .high => "high"

/-- `sysknife@{enterprise_number}` -/
def sdId (enterpriseNumber : UInt32) : String := "sysknife@" ++ toString enterpriseNumber.toNat

/-- ` {name}="{value}"` -/
def paramText (name value : String) : String := " " ++ name ++ "=\"" ++ value ++ "\""

/-- The structured data; a terminal status is there for an execution only. -/
def structuredData (event : AuditEvent) (enterpriseNumber : UInt32) : String :=
  let terminalStatusParam :=
    match event.finalStatus with
    | some s => paramText "terminal_status" (sdEscape s)
    | none => ""
  "[" ++ sdId enterpriseNumber ++
    paramText "seq" (toString event.seq.toNat) ++
    paramText "tx" (sdEscape event.transactionId) ++
    paramText "action" (sdEscape event.actionName) ++
    paramText "risk" (riskText event.riskLevel) ++
    paramText "approval" (sdEscape (event.approvalId.getD "")) ++
    paramText "role" (sdEscape (event.callerRole.getD "")) ++
    paramText "principal" (sdEscape (event.callerPrincipal.getD "")) ++
    paramText "chain_hash" (sdEscape event.chainHash) ++
    paramText "key_id" (sdEscape event.keyId) ++ terminalStatusParam ++ "]"

/-- What stands in front of the structured data. Severity 5 is `NOTICE`. -/
def header (hostname : String) (pid : UInt32) (event : AuditEvent) (facility : UInt8) : String :=
  "<" ++ toString (facility.toNat * 8 + 5) ++ ">1 " ++ event.createdAt ++ " " ++ hostname ++
    " sysknife-daemon " ++ toString pid.toNat ++ " AUDIT "

def message (event : AuditEvent) : String := "[" ++ event.actionName ++ "] " ++ event.summary

/-- The host name and the process number are the daemon's own. -/
def formatRfc5424 (hostnameFile : Option String) (pid : UInt32) (event : AuditEvent)
    (facility : UInt8) (enterpriseNumber : UInt32) : String :=
  header (readHostname hostnameFile) pid event facility ++
    structuredData event enterpriseNumber ++ " " ++ message event

/-! ### The grammar of an element -/

/-- `SD-NAME` is printable ASCII without `=`, `]`, `"` and the space. -/
def isNameChar (c : Char) : Bool :=
  decide (0x21 ≤ c.toNat) && decide (c.toNat ≤ 0x7E) && !(['=', ']', '"'].contains c)

/-- `1*32` name characters. -/
def sdName : Reader Char (List Char) := fun text => do
  let (name, rest) ← token isNameChar text
  if 1 ≤ name.length ∧ name.length ≤ 32 then some (name, rest) else none

/-- One character of a value. A backslash in front of another character than the three stands
for itself, and the closing bracket has to be escaped. -/
def valueChar : Reader Char Char
  | [] => none
  | c :: rest =>
    if c = '\\' then
      match rest with
      | d :: rest' => if ['"', '\\', ']'].contains d then some (d, rest') else some (c, rest)
      | [] => some (c, rest)
    else if c = ']' then none
    else some (c, rest)

/-- `SP PARAM-NAME "=" %d34 PARAM-VALUE %d34` -/
def sdParam : Reader Char (List Char × List Char)
  | ' ' :: text => do
    let (name, rest) ← sdName text
    match rest with
    | '=' :: '"' :: rest => do
      let (value, rest) ← upTo '"' valueChar rest
      some ((name, value), rest)
    | _ => none
  | _ => none

/-- `"[" SD-ID *(SP SD-PARAM) "]"` -/
def sdElement : Reader Char (List Char × List (List Char × List Char))
  | '[' :: text => do
    let (id, rest) ← sdName text
    let (params, rest) ← upTo ']' sdParam rest
    some ((id, params), rest)
  | _ => none

/-- The parameters an event is meant to show, before they are made printable. -/
def rawParams (event : AuditEvent) : List (String × String) :=
  [("seq", toString event.seq.toNat), ("tx", event.transactionId), ("action", event.actionName),
    ("risk", riskText event.riskLevel), ("approval", event.approvalId.getD ""),
    ("role", event.callerRole.getD ""), ("principal", event.callerPrincipal.getD ""),
    ("chain_hash", event.chainHash), ("key_id", event.keyId)] ++
    (event.finalStatus.map fun s => ("terminal_status", s)).toList

/-- A parameter with its value less what is not printable. -/
def shownParam (param : String × String) : List Char × List Char :=
  (param.1.toList, param.2.toList.filter isPrintable)

/-! ### A value -/

/-- An escaped character is read back. -/
theorem reads_sdEscapeChar {c : Char} (h : isPrintable c = true) :
    Reads valueChar sdEscapeChar id c := by
  intro rest
  unfold sdEscapeChar
  split_ifs with hquote hbackslash hbracket
  · subst hquote; rfl
  · subst hbackslash; rfl
  · subst hbracket; rfl
  · simp [valueChar, hbackslash, hbracket]

/-- And it does not open with the mark that closes the value. -/
theorem opens_sdEscapeChar {c : Char} (h : isPrintable c = true) :
    ∃ b text, sdEscapeChar c = b :: text ∧ b ≠ '"' := by
  unfold sdEscapeChar
  split_ifs with hquote hbackslash hbracket
  · exact ⟨_, _, rfl, by decide⟩
  · exact ⟨_, _, rfl, by decide⟩
  · exact ⟨_, _, rfl, by decide⟩
  · exact ⟨_, _, rfl, hquote⟩

/-- A character that is dropped leaves nothing, no half of an escape either. -/
theorem flatMap_sdEscapeChar (value : List Char) :
    (value.filter isPrintable).flatMap sdEscapeChar = value.flatMap sdEscapeChar := by
  induction value with
  | nil => rfl
  | cons c value ih =>
    by_cases hc : isPrintable c = true
    · rw [List.filter_cons_of_pos hc, List.flatMap_cons, List.flatMap_cons, ih]
    · have hne : ∀ d, isPrintable d = true → c ≠ d := fun d hd heq => hc (heq ▸ hd)
      have hdrop : sdEscapeChar c = [] := by
        rw [sdEscapeChar, if_neg (hne _ (by decide)), if_neg (hne _ (by decide)),
          if_neg (hne _ (by decide)), if_neg hc]
      rw [List.filter_cons_of_neg hc, List.flatMap_cons, hdrop, List.nil_append, ih]

/-- The value of a parameter is read up to the quote that closes it. -/
theorem upTo_sdEscape (value : String) (rest : List Char) :
    upTo '"' valueChar ((sdEscape value).toList ++ '"' :: rest) =
      some (value.toList.filter isPrintable, rest) := by
  have hprintable : ∀ c ∈ value.toList.filter isPrintable, isPrintable c = true :=
    fun c hc => (List.mem_filter.mp hc).2
  rw [sdEscape, String.toList_ofList, ← flatMap_sdEscapeChar,
    upTo_flatMap (fun c hc => reads_sdEscapeChar (hprintable c hc))
      fun c hc => opens_sdEscapeChar (hprintable c hc),
    List.map_id]

/-- A value of plain characters is written as it is. -/
theorem sdEscape_of_plain {value : String}
    (h : ∀ c ∈ value.toList, isPrintable c = true ∧ c ∉ ['"', '\\', ']']) :
    sdEscape value = value := by
  have hchars : ∀ cs : List Char, (∀ c ∈ cs, isPrintable c = true ∧ c ∉ ['"', '\\', ']']) →
      cs.flatMap sdEscapeChar = cs := by
    intro cs hcs
    induction cs with
    | nil => rfl
    | cons c cs ih =>
      obtain ⟨⟨hc, hplain⟩, hcs⟩ := List.forall_mem_cons.mp hcs
      simp only [List.mem_cons, List.not_mem_nil, or_false, not_or] at hplain
      have hself : sdEscapeChar c = [c] := by
        rw [sdEscapeChar, if_neg hplain.1, if_neg hplain.2.1, if_neg hplain.2.2, if_pos hc]
      rw [List.flatMap_cons, hself, ih hcs, List.singleton_append]
  rw [sdEscape, hchars _ h, String.ofList_toList]

/-! ### A parameter -/

/-- A parameter as it stands in an element. -/
def printParam (param : String × String) : List Char :=
  (paramText param.1 (sdEscape param.2)).toList

theorem toList_paramText (name value : String) : (paramText name value).toList =
    ' ' :: (name.toList ++ '=' :: '"' :: (value.toList ++ ['"'])) := by
  have hspace : " ".toList = [' '] := rfl
  have hopen : "=\"".toList = ['=', '"'] := rfl
  have hclose : "\"".toList = ['"'] := rfl
  simp only [paramText, String.toList_append, hspace, hopen, hclose, List.append_assoc,
    List.cons_append, List.nil_append]

/-- A name is read up to a character that is none of a name. -/
theorem sdName_read {name rest : List Char} (h : ∀ c ∈ name, isNameChar c = true)
    (hpos : 1 ≤ name.length) (hlength : name.length ≤ 32)
    (hrest : ∀ c ∈ rest.head?, isNameChar c = false) :
    sdName (name ++ rest) = some (name, rest) := by
  simp [sdName, reads_token h hrest, hpos, hlength]

theorem reads_printParam {param : String × String}
    (h : param.1.toList.all isNameChar = true) (hpos : 1 ≤ param.1.toList.length)
    (hlength : param.1.toList.length ≤ 32) : Reads sdParam printParam shownParam param := by
  intro rest
  have hname : sdName (param.1.toList ++ '=' :: '"' :: ((sdEscape param.2).toList ++ '"' :: rest)) =
      some (param.1.toList, '=' :: '"' :: ((sdEscape param.2).toList ++ '"' :: rest)) := by
    refine sdName_read (List.all_eq_true.mp h) hpos hlength ?_
    rintro c ⟨⟩
    decide
  have htext : printParam param ++ rest = ' ' :: (param.1.toList ++
      '=' :: '"' :: ((sdEscape param.2).toList ++ '"' :: rest)) := by
    rw [printParam, toList_paramText]
    simp only [List.append_assoc, List.cons_append, List.nil_append]
  rw [htext]
  simp only [sdParam, hname, upTo_sdEscape, Option.bind_eq_bind, Option.bind_some, shownParam]

/-! ### The element -/

theorem plain_of_isDigit {c : Char} (h : c.isDigit = true) :
    isPrintable c = true ∧ c ∉ ['"', '\\', ']'] := by
  have hrange : 48 ≤ c.toNat ∧ c.toNat ≤ 57 := by
    simpa [Char.isDigit, UInt32.le_iff_toNat_le] using h
  have hne : ∀ d : Char, ¬ d.isDigit = true → c ≠ d := fun d hd heq => hd (heq ▸ h)
  refine ⟨?_, by simp [hne]⟩
  simp only [isPrintable, Bool.and_eq_true, decide_eq_true_eq]
  omega

theorem isNameChar_of_isDigit {c : Char} (h : c.isDigit = true) : isNameChar c = true := by
  have hrange : 48 ≤ c.toNat ∧ c.toNat ≤ 57 := by
    simpa [Char.isDigit, UInt32.le_iff_toNat_le] using h
  have hne : ∀ d : Char, ¬ d.isDigit = true → c ≠ d := fun d hd heq => hd (heq ▸ h)
  simp only [isNameChar, Bool.and_eq_true, decide_eq_true_eq]
  refine ⟨⟨by omega, by omega⟩, by simp [hne]⟩

theorem sdId_read (enterpriseNumber : UInt32) {rest : List Char}
    (h : ∀ c ∈ rest.head?, isNameChar c = false) :
    sdName ((sdId enterpriseNumber).toList ++ rest) =
      some ((sdId enterpriseNumber).toList, rest) := by
  have hfixed : "sysknife@".toList.length = 9 ∧ "sysknife@".toList.all isNameChar = true := by
    decide +kernel
  have hdigits : (Nat.toDigits 10 enterpriseNumber.toNat).length ≤ 10 := by
    rw [Nat.length_toDigits_le_iff (by omega) (by omega)]
    have hlt := enterpriseNumber.toNat_lt
    omega
  have hnames : ∀ c ∈ Nat.toDigits 10 enterpriseNumber.toNat, isNameChar c = true := fun c hc =>
    isNameChar_of_isDigit (Nat.isDigit_of_mem_toDigits (by omega) (by omega) hc)
  obtain ⟨hnine, hall⟩ := hfixed
  rw [sdId, String.toList_append]
  generalize "sysknife@".toList = fixed at hnine hall ⊢
  rw [toList_toString]
  generalize Nat.toDigits 10 enterpriseNumber.toNat = digits at hdigits hnames ⊢
  refine sdName_read ?_ ?_ ?_ h
  · rw [List.forall_mem_append]
    exact ⟨List.all_eq_true.mp hall, hnames⟩
  · rw [List.length_append]
    omega
  · rw [List.length_append]
    omega

/-- The element is its identifier and its parameters. -/
theorem structuredData_eq (event : AuditEvent) (enterpriseNumber : UInt32) :
    (structuredData event enterpriseNumber).toList = '[' :: ((sdId enterpriseNumber).toList ++
      ((rawParams event).flatMap printParam ++ [']'])) := by
  have hseq : sdEscape (toString event.seq.toNat) = toString event.seq.toNat :=
    sdEscape_of_plain fun c hc => plain_of_isDigit (isDigit_of_mem_toString hc)
  have hrisk : sdEscape (riskText event.riskLevel) = riskText event.riskLevel := by
    have hplain : (riskText event.riskLevel).toList.all (fun c => isPrintable c &&
        !(['"', '\\', ']'].contains c)) = true := by
      cases event.riskLevel <;> decide +kernel
    refine sdEscape_of_plain fun c hc => ?_
    simpa using List.all_eq_true.mp hplain c hc
  have hopen : "[".toList = ['['] := rfl
  have hclose : "]".toList = [']'] := rfl
  cases hstatus : event.finalStatus <;>
    simp only [structuredData, rawParams, printParam, hseq, hrisk, hstatus, hopen, hclose,
      String.toList_append, List.append_assoc, List.cons_append, List.nil_append,
      List.flatMap_cons, List.flatMap_nil, Option.map_none, Option.map_some, Option.toList_none,
      Option.toList_some, String.toList_empty]

/-- The names of the parameters are names. -/
theorem rawParams_names (event : AuditEvent) : ∀ param ∈ rawParams event,
    param.1.toList.all isNameChar = true ∧ 1 ≤ param.1.toList.length ∧
      param.1.toList.length ≤ 32 := by
  have hnames : (rawParams event).map Prod.fst <+: ["seq", "tx", "action", "risk", "approval",
      "role", "principal", "chain_hash", "key_id", "terminal_status"] := by
    cases hstatus : event.finalStatus <;> simp [rawParams, hstatus]
  have hall : (["seq", "tx", "action", "risk", "approval", "role", "principal", "chain_hash",
      "key_id", "terminal_status"].all fun name => name.toList.all isNameChar &&
        (decide (1 ≤ name.toList.length) && decide (name.toList.length ≤ 32))) = true := by
    decide +kernel
  intro param hparam
  have hmem := hnames.subset (List.mem_map_of_mem hparam)
  simpa only [Bool.and_eq_true, decide_eq_true_eq] using List.all_eq_true.mp hall _ hmem

/-- The identifier ends where the first parameter begins. -/
theorem head?_params (event : AuditEvent) (rest : List Char) :
    ((rawParams event).flatMap printParam ++ rest).head? = some ' ' := by
  rw [rawParams, List.cons_append, List.flatMap_cons, printParam, toList_paramText,
    List.cons_append, List.cons_append, List.head?_cons]

/-- **No value forges structured data.** In the message, what follows the header is one element:
it has the parameters that were meant, in their order, each with what is printable of its value,
and it ends where it was closed. -/
theorem sdElement_format (hostnameFile : Option String) (pid : UInt32) (event : AuditEvent)
    (facility : UInt8) (enterpriseNumber : UInt32) :
    sdElement ((formatRfc5424 hostnameFile pid event facility enterpriseNumber).toList.drop
        (header (readHostname hostnameFile) pid event facility).toList.length) =
      some (((sdId enterpriseNumber).toList, (rawParams event).map shownParam),
        (" " ++ message event).toList) := by
  have htail : (formatRfc5424 hostnameFile pid event facility enterpriseNumber).toList.drop
      (header (readHostname hostnameFile) pid event facility).toList.length =
        '[' :: ((sdId enterpriseNumber).toList ++ ((rawParams event).flatMap printParam ++
          ']' :: (" " ++ message event).toList)) := by
    simp only [formatRfc5424, String.toList_append, List.append_assoc, List.drop_left,
      structuredData_eq, List.cons_append, List.nil_append]
  have hparams := upTo_flatMap (fun param hparam =>
    reads_printParam (rawParams_names event param hparam).1
      (rawParams_names event param hparam).2.1 (rawParams_names event param hparam).2.2)
    (fun param _ => ⟨' ', _, toList_paramText _ _, show ' ' ≠ ']' by decide⟩)
    (" " ++ message event).toList
  have hid : sdName ((sdId enterpriseNumber).toList ++ ((rawParams event).flatMap printParam ++
      ']' :: (" " ++ message event).toList)) = some ((sdId enterpriseNumber).toList,
        (rawParams event).flatMap printParam ++ ']' :: (" " ++ message event).toList) := by
    refine sdId_read enterpriseNumber fun c hc => ?_
    rw [head?_params, Option.mem_some_iff] at hc
    rw [← hc]
    decide
  rw [htail]
  simp only [sdElement, hid, hparams, Option.bind_eq_bind, Option.bind_some]

end Sysknife.Syslog
