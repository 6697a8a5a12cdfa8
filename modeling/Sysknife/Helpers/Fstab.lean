import Sysknife.Actions.Build
import Sysknife.Helpers.Edits
import Sysknife.Lib.Serial

/-!
# What `mount-edit` does to `/etc/fstab`

The requests of `mount-edit` carried out, as programs over the file (`carryOut`): each reads it,
and replaces it as a whole. What the host makes of the rest (does the mount succeed, is the
path a link, which swap is active) stands in `Host`. The file is text in UTF-8; the exit status
and what is printed are left out.

Two helpers may run at once: their actions take no lock (`exclusiveResource`), and neither does the
file. `opMount` reads the file before it mounts and writes it afterwards, so an entry that
another helper wrote meanwhile is lost (`lost_entry`). `fstab_serial` says when this cannot
happen.
-/

namespace Sysknife

open Text
open Relation (ReflTransGen)

namespace MountEdit

/-! ### Text files -/

/-- Text mode: every line end is a line feed. -/
def translateNewlines : List Char → List Char
  | [] => []
  | '\r' :: '\n' :: cs => '\n' :: translateNewlines cs
  | c :: cs => (if c = '\r' then '\n' else c) :: translateNewlines cs

/-- The lines with their line feeds; the last one may have none. -/
def keepLines : List Char → List (List Char)
  | [] => []
  | c :: cs =>
    if c = '\n' then [c] :: keepLines cs
    else
      match keepLines cs with
      | [] => [[c]]
      | l :: ls => (c :: l) :: ls

/-- `readlines` -/
def readlines (text : String) : List String :=
  (keepLines (translateNewlines text.toList)).map String.ofList

/-- `writelines` -/
def joined (lines : List String) : String := String.ofList (lines.flatMap String.toList)

/-- `str.isspace`, of a character -/
def isSpace (c : Char) : Bool := isWhitespace c || (0x1C ≤ c.toNat && c.toNat ≤ 0x1F)

/-- `str.strip` -/
def strip (s : String) : String :=
  String.ofList ((s.toList.dropWhile isSpace).rdropWhile isSpace)

/-- A row of a file, or nothing for a comment. -/
def fields (line : String) : List String :=
  if strip line = "" ∨ startsWith "#" (strip line) then [] else wordsBy isSpace (strip line)

/-- The mountpoint of a line of `/etc/fstab`. -/
def fstabField2 (line : String) : String := (fields line)[1]?.getD ""

/-- The device of a line of `/etc/fstab`. -/
def fstabField1 (line : String) : String := (fields line)[0]?.getD ""

/-- The lines with an entry after them. -/
def appendFstabEntry (lines : List String) (entry : String) : List String :=
  lines ++ (if lines.getLast?.all (endsWith "\n") then [] else ["\n"]) ++ [entry]

/-- The lines without those whose field has the value. -/
def removeFstabLines (lines : List String) (field : String → String) (value : String) :
    List String :=
  lines.filter fun line => field line != value

/-! #### Reading what was written -/

/-- Lines as they are read: each ends with its line feed, but for the last one perhaps. -/
inductive IsLines : List (List Char) → Prop
  | nil : IsLines []
  | last {l : List Char} (hne : l ≠ []) (hl : '\n' ∉ l) : IsLines [l]
  | cons {l : List Char} {ls : List (List Char)} (hl : '\n' ∉ l) (hls : IsLines ls) :
    IsLines ((l ++ ['\n']) :: ls)

theorem keepLines_closed {l : List Char} (hl : '\n' ∉ l) (rest : List Char) :
    keepLines (l ++ '\n' :: rest) = (l ++ ['\n']) :: keepLines rest := by
  induction l with
  | nil => simp [keepLines]
  | cons c l ih =>
    have hc : c ≠ '\n' := fun h => hl (h ▸ List.mem_cons_self)
    rw [List.cons_append, keepLines, if_neg hc, ih fun h => hl (List.mem_cons_of_mem c h)]
    rfl

theorem keepLines_open {l : List Char} (hne : l ≠ []) (hl : '\n' ∉ l) : keepLines l = [l] := by
  induction l with
  | nil => exact absurd rfl hne
  | cons c l ih =>
    have hc : c ≠ '\n' := fun h => hl (h ▸ List.mem_cons_self)
    rw [keepLines, if_neg hc]
    by_cases hempty : l = []
    · rw [hempty]
      rfl
    · rw [ih hempty fun h => hl (List.mem_cons_of_mem c h)]

theorem isLines_keepLines (s : List Char) : IsLines (keepLines s) := by
  induction s with
  | nil => exact .nil
  | cons c cs ih =>
    rw [keepLines]
    by_cases hc : c = '\n'
    · rw [if_pos hc, hc]
      exact .cons (l := []) List.not_mem_nil ih
    · rw [if_neg hc]
      have hcons {l : List Char} (hl : '\n' ∉ l) : '\n' ∉ c :: l := by
        simp [hl, Ne.symm hc]
      generalize keepLines cs = ls at ih ⊢
      cases ih with
      | nil => exact .last (List.cons_ne_nil c []) (hcons List.not_mem_nil)
      | last hne hl => exact .last (List.cons_ne_nil c _) (hcons hl)
      | cons hl hls => exact .cons (l := c :: _) (hcons hl) hls

theorem flatten_keepLines (s : List Char) : (keepLines s).flatten = s := by
  induction s with
  | nil => rfl
  | cons c cs ih =>
    rw [keepLines]
    split
    · rw [List.flatten_cons, ih, List.singleton_append]
    · split
      · rename_i hnil
        rw [hnil] at ih
        rw [← ih]
        rfl
      · rename_i l ls hls
        rw [hls] at ih
        rw [← ih]
        rfl

theorem IsLines.keepLines {ls : List (List Char)} (h : IsLines ls) :
    MountEdit.keepLines ls.flatten = ls := by
  induction h with
  | nil => rfl
  | last hne hl => rw [List.flatten_singleton, keepLines_open hne hl]
  | cons hl hls ih =>
    rw [List.flatten_cons, List.append_assoc, List.singleton_append, keepLines_closed hl, ih]

theorem IsLines.filter {ls : List (List Char)} (h : IsLines ls) (p : List Char → Bool) :
    IsLines (ls.filter p) := by
  induction h with
  | nil => exact .nil
  | last hne hl =>
    rw [List.filter_cons, List.filter_nil]
    split
    · exact .last hne hl
    · exact .nil
  | cons hl hls ih =>
    rw [List.filter_cons]
    split
    · exact .cons hl ih
    · exact ih

theorem notMem_translateNewlines (s : List Char) : '\r' ∉ translateNewlines s := by
  fun_induction translateNewlines s with
  | case1 => exact List.not_mem_nil
  | case2 cs ih => simp [ih]
  | case3 c cs h ih =>
    have hc : '\r' ≠ if c = '\r' then '\n' else c := by
      split
      · decide
      · exact Ne.symm ‹_›
    simp [ih, hc]

theorem translateNewlines_append {a : List Char} (ha : '\r' ∉ a) (b : List Char) :
    translateNewlines (a ++ b) = a ++ translateNewlines b := by
  induction a with
  | nil => rfl
  | cons c a ih =>
    have hc : c ≠ '\r' := fun h => ha (h ▸ List.mem_cons_self)
    have ha := fun h => ha (List.mem_cons_of_mem c h)
    rw [List.cons_append, translateNewlines, if_neg hc, ih ha, List.cons_append]
    rintro cs rfl
    exact absurd rfl hc

theorem toList_joined (ls : List (List Char)) :
    (joined (ls.map String.ofList)).toList = ls.flatten := by
  rw [joined, String.toList_ofList, List.flatMap_map]
  simp [List.flatMap_id']

theorem translateNewlines_of_notMem {s : List Char} (h : '\r' ∉ s) : translateNewlines s = s := by
  have happend := translateNewlines_append h []
  rwa [List.append_nil, translateNewlines, List.append_nil] at happend

theorem exists_isLines (text : String) : ∃ ls, IsLines ls ∧ '\r' ∉ ls.flatten ∧
    readlines text = ls.map String.ofList := by
  refine ⟨keepLines (translateNewlines text.toList), isLines_keepLines _, ?_, rfl⟩
  rw [flatten_keepLines]
  exact notMem_translateNewlines text.toList

/-- What is left of the lines of a text is read as it was written. -/
theorem readlines_joined_filter (text : String) (p : String → Bool) :
    readlines (joined ((readlines text).filter p)) = (readlines text).filter p := by
  obtain ⟨ls, hlines, hplain, hread⟩ := exists_isLines text
  have hkept : '\r' ∉ (ls.filter (p ∘ String.ofList)).flatten := fun hmem => by
    obtain ⟨l, hl, hr⟩ := List.mem_flatten.mp hmem
    exact hplain (List.mem_flatten.mpr ⟨l, List.mem_of_mem_filter hl, hr⟩)
  rw [hread, List.filter_map, readlines, toList_joined, translateNewlines_of_notMem hkept,
    (hlines.filter _).keepLines]

/-- Lines that are followed by more are still there, the last one with a line feed if it had
none. -/
theorem IsLines.mem_append {ls : List (List Char)} (h : IsLines ls) {b l : List Char}
    (hb : b.head? = some '\n' ∨ ∀ x ∈ ls, '\n' ∈ x) (hl : l ∈ ls) :
    ∃ l' ∈ MountEdit.keepLines (ls.flatten ++ b), l' = l ∨ l' = l ++ ['\n'] := by
  induction h with
  | nil => cases hl
  | @last x hne hx =>
    obtain rfl := List.mem_singleton.mp hl
    rcases hb with hb | hb
    · obtain ⟨rest, rfl⟩ : ∃ rest, b = '\n' :: rest := by
        cases b with
        | nil => cases hb
        | cons c rest =>
          rw [List.head?_cons, Option.some.injEq] at hb
          exact ⟨rest, by rw [hb]⟩
      rw [List.flatten_singleton, keepLines_closed hx]
      exact ⟨_, List.mem_cons_self, .inr rfl⟩
    · exact absurd (hb l List.mem_cons_self) hx
  | @cons x ls hx hls ih =>
    rw [List.flatten_cons, List.append_assoc, List.append_assoc, List.singleton_append,
      keepLines_closed hx]
    rcases List.mem_cons.mp hl with rfl | hl
    · exact ⟨_, List.mem_cons_self, .inl rfl⟩
    · obtain ⟨l', hl', heq⟩ := ih (hb.imp_right fun hb y hy => hb y (List.mem_cons_of_mem _ hy)) hl
      exact ⟨l', List.mem_cons_of_mem _ hl', heq⟩

theorem IsLines.mem_of_last {ls : List (List Char)} (h : IsLines ls)
    (hlast : ∀ x, ls.getLast? = some x → '\n' ∈ x) : ∀ x ∈ ls, '\n' ∈ x := by
  induction h with
  | nil => simp
  | last hne hl => exact absurd (hlast _ rfl) hl
  | @cons l ls hl hls ih =>
    intro x hx
    rcases List.mem_cons.mp hx with rfl | hx
    · simp
    · refine ih (fun y hy => hlast y ?_) x hx
      rw [List.getLast?_cons, hy, Option.getD_some]

/-- Every line is still there, perhaps with a line feed, when an entry was appended. -/
theorem mem_readlines_append {text line : String} (entry : String) (h : line ∈ readlines text) :
    ∃ line' ∈ readlines (joined (appendFstabEntry (readlines text) entry)),
      line' = line ∨ line' = line ++ "\n" := by
  obtain ⟨ls, hlines, hplain, hread⟩ := exists_isLines text
  rw [hread] at h ⊢
  obtain ⟨l, hl, rfl⟩ := List.mem_map.mp h
  obtain ⟨b, hb, happended⟩ : ∃ b : List Char, (b.head? = some '\n' ∨ ∀ x ∈ ls, '\n' ∈ x) ∧
      (joined (appendFstabEntry (ls.map String.ofList) entry)).toList = ls.flatten ++ b := by
    have hjoined := toList_joined ls
    rw [joined, String.toList_ofList] at hjoined
    rw [appendFstabEntry, joined, String.toList_ofList, List.flatMap_append, List.flatMap_append,
      hjoined, List.append_assoc]
    split
    · rename_i hlast
      refine ⟨_, .inr (hlines.mem_of_last fun x hx => ?_), rfl⟩
      rw [List.getLast?_map, hx, Option.map_some, Option.all_some, endsWith,
        String.toList_ofList, List.isSuffixOf_iff_suffix] at hlast
      have hmem : '\n' ∈ "\n".toList := by decide
      have hin := hlast.subset hmem
      rwa [String.toList_ofList] at hin
    · exact ⟨_, .inl rfl, rfl⟩
  have hb' : (translateNewlines b).head? = some '\n' ∨ ∀ x ∈ ls, '\n' ∈ x := by
    refine hb.imp_left fun hb => ?_
    cases b with
    | nil => cases hb
    | cons c rest =>
      rw [List.head?_cons, Option.some.injEq] at hb
      rw [hb]
      simp [translateNewlines]
  obtain ⟨l', hl', heq⟩ := hlines.mem_append hb' hl
  refine ⟨String.ofList l', ?_, ?_⟩
  · rw [readlines, happended, translateNewlines_append hplain]
    exact List.mem_map_of_mem hl'
  · rcases heq with rfl | rfl
    · exact .inl rfl
    · exact .inr String.ofList_append

/-! ### Swap files -/

/-- The swap files that are active, by `/proc/swaps`; nothing if it cannot be read. -/
def activeSwapFiles (procSwaps : Option String) : Option (List String) :=
  procSwaps.map fun text => (readlines text).tail.filterMap fun line =>
    let columns := wordsBy isSpace line
    if columns[1]? = some "file" then columns[0]? else none

/-- The swap file a line of `/etc/fstab` is about. -/
def swapOfLine (line : String) : Option String :=
  if startsWith "#" (String.ofList (line.toList.dropWhile isSpace)) then none
  else
    let columns := wordsBy isSpace line
    if columns[2]? = some "swap" then columns[0]? else none

/-- The swap files the host knows. -/
def knownSwapFiles (procSwaps : Option String) (fstab : List String) : List String :=
  (activeSwapFiles procSwaps).getD [] ++ fstab.filterMap swapOfLine

/-! #### Rows -/

theorem words_dropWhile (p : Char → Bool) (l : List Char) :
    wordsBy p (String.ofList (l.dropWhile p)) = wordsBy p (String.ofList l) := by
  induction l with
  | nil => rfl
  | cons c l ih =>
    rw [List.dropWhile_cons]
    split
    · rename_i hc
      have hsplit := List.splitOnP_append_cons [] l hc
      rw [List.nil_append, List.splitOnP_nil] at hsplit
      rw [ih, wordsBy, wordsBy, String.toList_ofList, String.toList_ofList, hsplit]
      rfl
    · rfl

theorem words_append (p : Char → Bool) {c : Char} (hc : p c = true) (l : List Char) :
    wordsBy p (String.ofList (l ++ [c])) = wordsBy p (String.ofList l) := by
  rw [wordsBy, wordsBy, String.toList_ofList, String.toList_ofList,
    List.splitOnP_append_cons l [] hc, List.splitOnP_nil, List.filter_append]
  simp

theorem words_rdropWhile (p : Char → Bool) (l : List Char) :
    wordsBy p (String.ofList (l.rdropWhile p)) = wordsBy p (String.ofList l) := by
  induction l using List.reverseRecOn with
  | nil => rfl
  | append_singleton l c ih =>
    rw [List.rdropWhile_concat]
    split
    · rw [ih, words_append p ‹_›]
    · rfl

theorem words_strip (s : String) : wordsBy isSpace (strip s) = wordsBy isSpace s := by
  rw [strip, words_rdropWhile, words_dropWhile, String.ofList_toList]

/-- The swap file of a row is its device. -/
theorem fstabField1_of_swapOfLine {line path : String} (h : swapOfLine line = some path) :
    fstabField1 line = path := by
  unfold swapOfLine at h
  split at h
  · cases h
  · rename_i hcomment
    simp only at h
    split at h
    · have hrow : ¬(strip line = "" ∨ startsWith "#" (strip line) = true) := by
        rintro (hempty | hstart)
        · rw [← words_strip, hempty] at h
          cases h
        · obtain ⟨rest, hrest⟩ := startsWith_iff.mp hstart
          refine hcomment (startsWith_iff.mpr ?_)
          rw [strip, String.toList_ofList] at hrest
          have hpre := List.rdropWhile_prefix isSpace (line.toList.dropWhile isSpace)
          obtain ⟨more, hmore⟩ := hpre
          refine ⟨rest ++ more, ?_⟩
          rw [String.toList_ofList, ← hmore, hrest, List.append_assoc]
      rw [fstabField1, fields, if_neg hrow, words_strip, h, Option.getD_some]
    · cases h

/-- A line feed at its end makes no difference to a row. -/
theorem swapOfLine_append (line : String) : swapOfLine (line ++ "\n") = swapOfLine line := by
  have htext : line ++ "\n" = String.ofList (line.toList ++ ['\n']) := by
    rw [String.ofList_append, String.ofList_toList]
  have hwords : wordsBy isSpace (line ++ "\n") = wordsBy isSpace line := by
    rw [htext, words_append isSpace (by decide), String.ofList_toList]
  have hcomment : startsWith "#" (String.ofList ((line ++ "\n").toList.dropWhile isSpace)) =
      startsWith "#" (String.ofList (line.toList.dropWhile isSpace)) := by
    rw [htext, String.toList_ofList, List.dropWhile_append]
    split
    · rename_i hempty
      rw [List.isEmpty_iff.mp hempty]
      decide
    · rename_i hne
      cases hl : line.toList.dropWhile isSpace with
      | nil => rw [hl] at hne; exact absurd rfl hne
      | cons c cs =>
        rw [startsWith, startsWith, String.toList_ofList, String.toList_ofList]
        simp [List.isPrefixOf]
  rw [swapOfLine, swapOfLine, hcomment, hwords]

/-! ### The operations -/

/-- What the host answers while a request is carried out. -/
structure Host where
  /-- The mountpoint is a real directory and can be opened. -/
  opensMountpoint : Bool
  mounts : Bool
  /-- The swap file can be made and activated. -/
  makesSwap : Bool
  /-- `/proc/swaps`, before and after `swapoff`. -/
  procSwaps : Option String
  procSwapsAfter : Option String
  swapIsLink : Bool
  swapsOff : Bool
  /-- The file can be written next to `/etc/fstab` and put in its place. -/
  replaces : Bool

/-- The lines of `/etc/fstab`, which need not exist. -/
def readFstab : FileProg (Option String) (List String) := do
  let text ← FileProg.read
  pure (Option.elim text [] readlines)

def writeFstab (host : Host) (lines : List String) : FileProg (Option String) Unit :=
  if host.replaces then FileProg.replace (some (joined lines)) else pure ()

def mountEntry (device mountpoint fstype options : String) : String :=
  device ++ "\t" ++ mountpoint ++ "\t" ++ fstype ++ "\t" ++ options ++ "\t0\t0\n"

def mountFstab (host : Host) (device mountpoint fstype options : String) :
    FileProg (Option String) Unit := do
  let lines ← readFstab
  if lines.any fun line => fstabField2 line == mountpoint then pure ()
  else if !host.opensMountpoint then pure ()
  else if !host.mounts then pure ()
  else writeFstab host (appendFstabEntry lines (mountEntry device mountpoint fstype options))

/-- Write what is left without the lines of a value, if there are such lines. -/
def dropFstabLines (host : Host) (field : String → String) (value : String) :
    FileProg (Option String) Unit := do
  let lines ← readFstab
  let kept := removeFstabLines lines field value
  if kept.length ≠ lines.length then writeFstab host kept else pure ()

/-- A mountpoint that is not mounted is taken out of the file as well. -/
def unmountFstab (host : Host) (mountpoint : String) : FileProg (Option String) Unit :=
  dropFstabLines host fstabField2 mountpoint

def addswapFstab (host : Host) (path : String) : FileProg (Option String) Unit :=
  if !host.makesSwap then pure ()
  else do
    let lines ← readFstab
    if lines.any fun line => fstabField1 line == path then pure ()
    else writeFstab host (appendFstabEntry lines (path ++ "\tnone\tswap\tsw,nofail\t0\t0\n"))

/-- Is the swap still in use, as far as one can tell? -/
def Host.stillActive (host : Host) (path : String) : Bool :=
  !host.swapsOff && (activeSwapFiles host.procSwapsAfter).all fun active => active.contains path

def rmswapFstab (host : Host) (path : String) : FileProg (Option String) Unit := do
  let known ← readFstab
  if !(knownSwapFiles host.procSwaps known).contains path then pure ()
  else if host.swapIsLink then pure ()
  else if host.stillActive path then pure ()
  else dropFstabLines host fstabField1 path

/-- Carry out a request. -/
def carryOut (host : Host) : Request → FileProg (Option String) Unit
  | .mount device mountpoint fstype options => mountFstab host device mountpoint fstype options
  | .unmount mountpoint => unmountFstab host mountpoint
  | .addswap file _ => addswapFstab host file
  | .rmswap file => rmswapFstab host file

/-! ### Requests as updates -/

/-- The lines of a file that need not exist. -/
def linesOf (text : Option String) : List String := text.elim [] readlines

/-- The new contents, if the file can be replaced. -/
def Host.written (host : Host) (lines : List String) : Option (Option String) :=
  if host.replaces then some (some (joined lines)) else none

/-- What a request makes of the file. -/
def nextFstab (host : Host) (request : Request) (lines : List String) : Option (Option String) :=
  match request with
  | .mount device mountpoint fstype options =>
    if lines.any fun line => fstabField2 line == mountpoint then none
    else if !host.opensMountpoint then none
    else if !host.mounts then none
    else host.written (appendFstabEntry lines (mountEntry device mountpoint fstype options))
  | .unmount mountpoint =>
    let kept := removeFstabLines lines fstabField2 mountpoint
    if kept.length ≠ lines.length then host.written kept else none
  | .addswap path _ =>
    if !host.makesSwap then none
    else if lines.any fun line => fstabField1 line == path then none
    else host.written (appendFstabEntry lines (path ++ "\tnone\tswap\tsw,nofail\t0\t0\n"))
  | .rmswap path =>
    let kept := removeFstabLines lines fstabField1 path
    if kept.length ≠ lines.length then host.written kept else none

/-- What a request looks at first. -/
def firstLook (host : Host) : Request → Option (List String → Bool)
  | .mount .. => none
  | .unmount _ => none
  | .addswap .. => none
  | .rmswap path => some fun lines =>
    (knownSwapFiles host.procSwaps lines).contains path && !host.swapIsLink &&
      !host.stillActive path

/-- A request as an update of the file. -/
def updateOf (host : Host) (request : Request) : Update (Option String) where
  first := (firstLook host request).map fun look text => look (linesOf text)
  next text := nextFstab host request (linesOf text)

/-- A program that reads, and writes what an update makes of the lines, is its body. -/
theorem writes_eq_body {u : Update (Option String)}
    {f : List String → FileProg (Option String) Unit}
    (h : ∀ text, f (linesOf text) = FileProg.replaceBy (u.next text)) :
    (readFstab >>= f) = u.body :=
  congrArg (Prog.call _) (funext fun text => h text)

theorem writeFstab_eq (host : Host) (lines : List String) :
    writeFstab host lines = FileProg.replaceBy (host.written lines) := by
  unfold writeFstab Host.written
  split <;> rfl

theorem mountFstab_eq (host : Host) (device mountpoint fstype options : String) :
    mountFstab host device mountpoint fstype options =
      (updateOf host (.mount device mountpoint fstype options)).script := by
  refine writes_eq_body fun text => ?_
  simp only [updateOf, nextFstab]
  split
  · rfl
  · split
    · rfl
    · split
      · rfl
      · exact writeFstab_eq host _

theorem dropFstabLines_eq {host : Host} {field : String → String} {value : String}
    {u : Update (Option String)} (hnext : ∀ text, u.next text =
      if (removeFstabLines (linesOf text) field value).length ≠ (linesOf text).length then
        host.written (removeFstabLines (linesOf text) field value)
      else none) :
    dropFstabLines host field value = u.body := by
  refine writes_eq_body fun text => ?_
  rw [hnext]
  simp only
  split
  · exact writeFstab_eq host _
  · rfl

theorem addswapFstab_eq {host : Host} (path : String) (sizeMb : ℤ)
    (hmakes : host.makesSwap = true) :
    addswapFstab host path = (updateOf host (.addswap path sizeMb)).script := by
  rw [addswapFstab, hmakes]
  refine writes_eq_body fun text => ?_
  simp only [updateOf, nextFstab, hmakes, Bool.not_true, Bool.false_eq_true, if_false]
  split
  · rfl
  · exact writeFstab_eq host _

theorem rmswapFstab_eq (host : Host) (path : String) :
    rmswapFstab host path = (updateOf host (.rmswap path)).script := by
  refine congrArg (Prog.call _) (funext fun text => ?_)
  have hdrop : dropFstabLines host fstabField1 path = (updateOf host (.rmswap path)).body :=
    dropFstabLines_eq fun text => rfl
  generalize hknown : (knownSwapFiles host.procSwaps (linesOf text)).contains path = known
  change (if (!(knownSwapFiles host.procSwaps (linesOf text)).contains path) = true then
      Prog.pure ()
    else if host.swapIsLink = true then Prog.pure ()
    else if host.stillActive path = true then Prog.pure ()
    else dropFstabLines host fstabField1 path) =
      if ((knownSwapFiles host.procSwaps (linesOf text)).contains path && !host.swapIsLink &&
        !host.stillActive path) = true then (updateOf host (.rmswap path)).body
      else Prog.pure ()
  rw [hdrop, hknown]
  cases known with
  | false => rfl
  | true =>
    cases host.swapIsLink with
    | true => rfl
    | false =>
      cases host.stillActive path with
      | true => rfl
      | false => rfl

/-- A request is carried out as its update says, unless it ends before it comes to the file. -/
theorem carryOut_eq (host : Host) (request : Request) :
    carryOut host request = (updateOf host request).script ∨
      carryOut host request = .pure () ∧ ∀ text, (updateOf host request).apply text = text := by
  cases request with
  | mount device mountpoint fstype options => exact .inl (mountFstab_eq host _ _ _ _)
  | unmount mountpoint => exact .inl (dropFstabLines_eq fun text => rfl)
  | addswap path sizeMb =>
    by_cases hmakes : host.makesSwap = true
    · exact .inl (addswapFstab_eq path sizeMb hmakes)
    · have hnot : (!host.makesSwap) = true := by simpa using hmakes
      refine .inr ⟨if_pos hnot, fun text => Update.apply_of_next_none ?_⟩
      simp only [updateOf, nextFstab]
      rw [if_pos hnot]
  | rmswap path => exact .inl (rmswapFstab_eq host path)

theorem alone_carryOut (host : Host) (request : Request) (text : Option String) :
    FileProg.alone (carryOut host request) text = (updateOf host request).apply text := by
  rcases carryOut_eq host request with h | ⟨h, hsame⟩
  · rw [h, Update.alone_script]
  · rw [h, hsame, FileProg.alone]

theorem stands_carryOut (host : Host) (request : Request) (text : Option String) :
    (updateOf host request).Stands (· = text) text (carryOut host request) := by
  rcases carryOut_eq host request with h | ⟨h, hsame⟩
  · rw [h]
    exact .fresh
  · rw [h]
    exact .idle rfl (hsame text)

/-! ### One after the other -/

/-- An entry that is appended takes no swap file out of the file. -/
theorem mem_swaps_append {lines : List String} {text path : String} (entry : String)
    (hlines : lines = readlines text) (h : path ∈ lines.filterMap swapOfLine) :
    path ∈ (readlines (joined (appendFstabEntry lines entry))).filterMap swapOfLine := by
  subst hlines
  obtain ⟨line, hline, hswap⟩ := List.mem_filterMap.mp h
  obtain ⟨line', hline', heq⟩ := mem_readlines_append entry hline
  refine List.mem_filterMap.mpr ⟨line', hline', ?_⟩
  rcases heq with rfl | rfl
  · exact hswap
  · rw [swapOfLine_append, hswap]

/-- The lines of a file are those of a text. -/
theorem exists_readlines (text : Option String) : ∃ t, linesOf text = readlines t := by
  cases text with
  | none => exact ⟨"", rfl⟩
  | some t => exact ⟨t, rfl⟩

theorem linesOf_removed (text : Option String) (field : String → String) (value : String) :
    linesOf (some (joined (removeFstabLines (linesOf text) field value))) =
      removeFstabLines (linesOf text) field value := by
  obtain ⟨t, ht⟩ := exists_readlines text
  rw [ht, removeFstabLines, linesOf, Option.elim_some, readlines_joined_filter]

theorem written_eq_some {host : Host} {lines : List String} {t : Option String} :
    host.written lines = some t ↔ host.replaces = true ∧ t = some (joined lines) := by
  rw [Host.written]
  cases host.replaces with
  | false => exact ⟨fun h => (by cases h), fun h => absurd h.1 (by decide)⟩
  | true => exact ⟨fun h => ⟨rfl, (Option.some.inj h).symm⟩, fun h => congrArg some h.2.symm⟩

/-- What a request does to the lines: it appends an entry or removes the lines of a value. -/
theorem nextFstab_cases {host : Host} {request : Request} {lines : List String}
    {t : Option String} (h : nextFstab host request lines = some t) :
    host.replaces = true ∧
      ((∃ entry, t = some (joined (appendFstabEntry lines entry))) ∨
        ∃ field value, (request = .unmount value ∧ field = fstabField2 ∨
            request = .rmswap value ∧ field = fstabField1) ∧
          t = some (joined (removeFstabLines lines field value))) := by
  cases request with
  | mount device mountpoint fstype options =>
    simp only [nextFstab, Option.ite_none_left_eq_some] at h
    obtain ⟨-, -, -, hwritten⟩ := h
    obtain ⟨hreplaces, ht⟩ := written_eq_some.mp hwritten
    exact ⟨hreplaces, .inl ⟨_, ht⟩⟩
  | unmount mountpoint =>
    simp only [nextFstab] at h
    split at h
    · obtain ⟨hreplaces, ht⟩ := written_eq_some.mp h
      exact ⟨hreplaces, .inr ⟨_, _, .inl ⟨rfl, rfl⟩, ht⟩⟩
    · cases h
  | addswap path sizeMb =>
    simp only [nextFstab, Option.ite_none_left_eq_some] at h
    obtain ⟨-, -, hwritten⟩ := h
    obtain ⟨hreplaces, ht⟩ := written_eq_some.mp hwritten
    exact ⟨hreplaces, .inl ⟨_, ht⟩⟩
  | rmswap path =>
    simp only [nextFstab] at h
    split at h
    · obtain ⟨hreplaces, ht⟩ := written_eq_some.mp h
      exact ⟨hreplaces, .inr ⟨_, _, .inr ⟨rfl, rfl⟩, ht⟩⟩
    · cases h

/-- Removing lines of a value is what the removal leaves, whether or not it writes. -/
theorem apply_removal {host : Host} {request : Request} {field : String → String} {value : String}
    (hrequest : request = .unmount value ∧ field = fstabField2 ∨
      request = .rmswap value ∧ field = fstabField1)
    (hreplaces : host.replaces = true) {lines : List String} (text : String)
    (hlines : readlines text = lines) (hjoined : joined lines = text)
    (hok : (updateOf host request).ok (some text) = true) :
    (updateOf host request).apply (some text) =
      some (joined (removeFstabLines lines field value)) := by
  have hnext : (updateOf host request).next (some text) =
      if (removeFstabLines lines field value).length ≠ lines.length then
        host.written (removeFstabLines lines field value)
      else none := by
    rcases hrequest with ⟨rfl, rfl⟩ | ⟨rfl, rfl⟩
    · simp only [updateOf, nextFstab, linesOf, Option.elim_some, hlines]
    · simp only [updateOf, nextFstab, linesOf, Option.elim_some, hlines]
  rw [Update.apply, if_pos hok, hnext]
  split
  · rw [written_eq_some.mpr ⟨hreplaces, rfl⟩, Option.getD_some]
  · rename_i hsame
    have hkept : removeFstabLines lines field value = lines :=
      List.filter_sublist.eq_of_length (not_not.mp hsame)
    rw [Option.getD_none, hkept, hjoined]

theorem mem_known {host : Host} {lines : List String} {path : String} :
    (knownSwapFiles host.procSwaps lines).contains path = true ↔
      path ∈ (activeSwapFiles host.procSwaps).getD [] ∨ path ∈ lines.filterMap swapOfLine := by
  rw [List.contains_iff_mem, knownSwapFiles, List.mem_append]

theorem ok_rmswap {host : Host} {path : String} {text : Option String} :
    (updateOf host (.rmswap path)).ok text = true ↔
      (path ∈ (activeSwapFiles host.procSwaps).getD [] ∨
        path ∈ (linesOf text).filterMap swapOfLine) ∧
      host.swapIsLink = false ∧ host.stillActive path = false := by
  change (((knownSwapFiles host.procSwaps (linesOf text)).contains path && !host.swapIsLink &&
    !host.stillActive path) = true) ↔ _
  rw [Bool.and_eq_true, Bool.and_eq_true, mem_known, Bool.not_eq_true', Bool.not_eq_true',
    and_assoc]

theorem next_rmswap {host : Host} {path : String} {text t : Option String} :
    (updateOf host (.rmswap path)).next text = some t ↔
      (removeFstabLines (linesOf text) fstabField1 path).length ≠ (linesOf text).length ∧
        host.replaces = true ∧
          t = some (joined (removeFstabLines (linesOf text) fstabField1 path)) := by
  change (if (removeFstabLines (linesOf text) fstabField1 path).length ≠ (linesOf text).length then
    host.written (removeFstabLines (linesOf text) fstabField1 path) else none) = some t ↔ _
  rw [Option.ite_none_right_eq_some, written_eq_some]

theorem removeFstabLines_comm (lines : List String) (f g : String → String) (x y : String) :
    removeFstabLines (removeFstabLines lines f x) g y =
      removeFstabLines (removeFstabLines lines g y) f x := by
  simp only [removeFstabLines, List.filter_filter, Bool.and_comm]

/-- The rows of another swap file are kept. -/
theorem mem_swaps_removed {lines : List String} {path other : String} (hne : other ≠ path)
    (h : other ∈ lines.filterMap swapOfLine) :
    other ∈ (removeFstabLines lines fstabField1 path).filterMap swapOfLine := by
  obtain ⟨line, hline, hswap⟩ := List.mem_filterMap.mp h
  refine List.mem_filterMap.mpr ⟨line, List.mem_filter.mpr ⟨hline, ?_⟩, hswap⟩
  rw [fstabField1_of_swapOfLine hswap]
  simpa using hne

/-- Something is removed where the swap file has a row. -/
theorem length_removed_ne {lines : List String} {path : String}
    (h : path ∈ lines.filterMap swapOfLine) :
    (removeFstabLines lines fstabField1 path).length ≠ lines.length := by
  intro hlength
  obtain ⟨line, hline, hswap⟩ := List.mem_filterMap.mp h
  have hall := List.filter_sublist.eq_of_length hlength
  rw [← hall] at hline
  have hkept := (List.mem_filter.mp hline).2
  rw [fstabField1_of_swapOfLine hswap] at hkept
  simp at hkept

/-- Looking for a swap file first is harmless: if its row was removed since, it does not matter
which of the two removals is the first. -/
theorem settles (h₁ h₂ : Host) (a b : Request) :
    (updateOf h₁ a).Settles (updateOf h₂ b) := by
  intro s t w hok hnext hlook hlater hagain
  cases b with
  | mount => cases hlater
  | unmount => cases hlater
  | addswap => cases hlater
  | rmswap path =>
    obtain ⟨hknown, hflags⟩ := ok_rmswap.mp hlook
    have hgone : ¬(path ∈ (activeSwapFiles h₂.procSwaps).getD [] ∨
        path ∈ (linesOf t).filterMap swapOfLine) := fun h =>
      absurd (ok_rmswap.mpr ⟨h, hflags⟩) (by rw [hlater]; decide)
    have hrow := hknown.resolve_left fun h => hgone (.inl h)
    obtain ⟨hlength, hreplaces₂, rfl⟩ := next_rmswap.mp hagain
    obtain ⟨hreplaces₁, ⟨entry, rfl⟩ | ⟨field, value, hrequest, rfl⟩⟩ := nextFstab_cases hnext
    · -- an appended entry does not remove the row
      obtain ⟨text, htext⟩ := exists_readlines s
      exact absurd (.inr (mem_swaps_append entry htext hrow)) hgone
    · rw [linesOf_removed] at hgone hlength ⊢
      have hfirst : (updateOf h₂ (.rmswap path)).apply s =
          some (joined (removeFstabLines (linesOf s) fstabField1 path)) :=
        Update.apply_of_next_some hlook
          (next_rmswap.mpr ⟨length_removed_ne hrow, hreplaces₂, rfl⟩)
      have hlines := linesOf_removed s fstabField1 path
      rw [hfirst, apply_removal hrequest hreplaces₁ _ hlines rfl ?_, removeFstabLines_comm]
      rcases hrequest with ⟨rfl, rfl⟩ | ⟨rfl, rfl⟩
      · rfl
      · obtain ⟨hother, hflags₁⟩ := ok_rmswap.mp hok
        refine ok_rmswap.mpr ⟨hother.imp_right fun hother => ?_, hflags₁⟩
        rw [hlines]
        refine mem_swaps_removed ?_ hother
        -- the same swap file would have had nothing left to remove
        rintro rfl
        exact hlength (by simp [removeFstabLines, List.filter_filter])

/-- A host on which everything succeeds. -/
def willing : Host where
  opensMountpoint := true
  mounts := true
  makesSwap := true
  procSwaps := none
  procSwapsAfter := none
  swapIsLink := false
  swapsOff := true
  replaces := true

/-- The arguments of `AddMount`. -/
def mountArgv (device mountpoint : String) : List String :=
  ["--op", "mount", "--device", device, "--mountpoint", mountpoint, "--fstype", "ext4"]

/-- What they ask for, and the entry this makes. -/
def mountRequest (device mountpoint : String) : Request :=
  .mount device mountpoint "ext4" "defaults,nofail,nosuid,nodev"

def requestEntry (device mountpoint : String) : String :=
  mountEntry device mountpoint "ext4" "defaults,nofail,nosuid,nodev"

/-- **When no update of `/etc/fstab` is lost.** Two requests carried out at once, whatever they are
and whatever the host answers, leave the file as one after the other would, if neither puts a
new file in place while the other is about to put one that it made of the file before. -/
theorem fstab_serial {h₁ h₂ : Host} {a b : Request} {s t : Option String}
    (hrun : ReflTransGen Duo.Careful ⟨s, carryOut h₁ a, carryOut h₂ b⟩ ⟨t, .pure (), .pure ()⟩) :
    t = FileProg.alone (carryOut h₂ b) (FileProg.alone (carryOut h₁ a) s) ∨
      t = FileProg.alone (carryOut h₁ a) (FileProg.alone (carryOut h₂ b) s) := by
  simp only [alone_carryOut]
  exact Duo.serial_of_careful (settles h₁ h₂ a b) (settles h₂ h₁ b a) (stands_carryOut h₁ a s)
    (stands_carryOut h₂ b s) hrun

theorem fstab_serial_unmount :
    some (requestEntry "/dev/sdb1" "/mnt/a") =
        FileProg.alone (carryOut willing (.unmount "/mnt/b"))
          (FileProg.alone (carryOut willing (mountRequest "/dev/sdb1" "/mnt/a")) none) ∨
      some (requestEntry "/dev/sdb1" "/mnt/a") =
        FileProg.alone (carryOut willing (mountRequest "/dev/sdb1" "/mnt/a"))
          (FileProg.alone (carryOut willing (.unmount "/mnt/b")) none) := by
  refine fstab_serial (.head (.left (.read none _) fun h _ => h) (.head
    (.left (.replace none _ _) fun _ h => h) (.single (.right (.read _ _) fun h _ => h))))

/-- **A lost entry.** Two `AddMount` are let in at once. Both read the file before either has
written it, so the second to write drops the entry of the first. -/
theorem lost_entry :
    (main ⟨id, fun _ => false⟩ (mountArgv "/dev/sdb1" "/mnt/a") =
        .ok (mountRequest "/dev/sdb1" "/mnt/a") ∧
      main ⟨id, fun _ => false⟩ (mountArgv "/dev/sdc1" "/mnt/b") =
        .ok (mountRequest "/dev/sdc1" "/mnt/b")) ∧
    (exclusiveResource (sudoSpec "AddMount" .high (mountEdit :: mountArgv "/dev/sdb1" "/mnt/a")) =
        none ∧
      exclusiveResource (sudoSpec "AddMount" .high (mountEdit :: mountArgv "/dev/sdc1" "/mnt/b")) =
        none) ∧
    ∃ t, ReflTransGen Duo.Step
        ⟨some "", carryOut willing (mountRequest "/dev/sdb1" "/mnt/a"),
          carryOut willing (mountRequest "/dev/sdc1" "/mnt/b")⟩ ⟨t, .pure (), .pure ()⟩ ∧
      t ≠ FileProg.alone (carryOut willing (mountRequest "/dev/sdc1" "/mnt/b"))
        (FileProg.alone (carryOut willing (mountRequest "/dev/sdb1" "/mnt/a")) (some "")) ∧
      t ≠ FileProg.alone (carryOut willing (mountRequest "/dev/sdb1" "/mnt/a"))
        (FileProg.alone (carryOut willing (mountRequest "/dev/sdc1" "/mnt/b")) (some "")) := by
  refine ⟨⟨by decide, by decide⟩, ⟨by decide, by decide⟩,
    some (requestEntry "/dev/sdc1" "/mnt/b"), ?_, by decide, by decide⟩
  refine .head (.left (.read (some "") _)) (.head (.right (.read (some "") _)) (.head
    (.left (.replace (some "") _ _)) (.single (.right (.replace _ _ _)))))

end MountEdit

end Sysknife
