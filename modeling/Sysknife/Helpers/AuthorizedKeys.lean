import Mathlib.Data.List.DropRight
import Sysknife.Helpers.ActionSteps
import Sysknife.Lib.Bytes
import Sysknife.Lib.Lines

/-!
# Editing `authorized_keys`

`edit_key` of `packaging/sysknife-action-steps`, which `ssh-add` and `ssh-remove` end in. It
reads the file as bytes, cuts it with `bytes.splitlines` and compares each piece, less its
newlines, with the key.

`bytes.splitlines` cuts at a carriage return as well, but only newlines are taken off before the
comparison. A line that ends in `\r\n` is therefore never found, and a line that holds a carriage
return is taken for several. `EditsLines` is what the edit is for; `editsLines_iff` says on which
files it does that.
-/

namespace Sysknife.ActionSteps

/-! ### The edit -/

/-- `bytes.splitlines(keepends=True)` -/
def splitlines : Bytes → List Bytes
  | [] => []
  | 13 :: 10 :: rest => [13, 10] :: splitlines rest
  | c :: rest =>
    if c = 10 ∨ c = 13 then [c] :: splitlines rest
    else
      match splitlines rest with
      | [] => [[c]]
      | line :: lines => (c :: line) :: lines

/-- `line.rstrip(b"\n")` -/
def rstripNewlines (line : Bytes) : Bytes := line.rdropWhile (· == 10)

/-- The newline an unterminated last line lacks. -/
def missingNewline (original : Bytes) : Bytes :=
  if original ≠ [] ∧ ¬ [10] <:+ original then [10] else []

/-- `updated`, or the file as it is where `ssh-add` returns early. -/
def updated (original encoded : Bytes) (add : Bool) : Bytes :=
  let lines := splitlines original
  if add then
    if lines.any fun line => rstripNewlines line == encoded then original
    else original ++ missingNewline original ++ encoded ++ [10]
  else (lines.filter fun line => rstripNewlines line != encoded).flatten

def keysLimit : ℕ := 16 * 1024 * 1024

/-- What `open` finds at the path. It takes no symbolic link and no directory. -/
inductive Entry
  | absent
  | unopenable (error : String)
  | special
  | regular (contents : Bytes)
  deriving DecidableEq, Repr

/-- The part under the lock. A key that passes `public_key` is ASCII, so its encoding is its
UTF-8. -/
def rewriteKeys (original : Bytes) (key : String) (add : Bool) : Entry × Except String Unit :=
  if keysLimit < original.length then
    (.regular original, .error "authorized_keys exceeds size limit")
  else
    match publicKey key with
    | .error message => (.regular original, .error message)
    | .ok key => (.regular (updated original (utf8 key) add), .ok ())

/-- The file afterwards, and the exception if one is raised. -/
def editKey (path : Entry) (key : String) (add : Bool) : Entry × Except String Unit :=
  match path with
  | .absent =>
    if add then rewriteKeys [] key true else (.absent, .error "No such file or directory")
  | .unopenable error => (path, .error error)
  | .special => (path, .error "authorized_keys is not a regular file")
  | .regular original => rewriteKeys original key add

/-! ### The pieces of `bytes.splitlines` -/

section Splitlines

variable {c : UInt8} {rest : Bytes}

theorem splitlines_newline : splitlines (10 :: rest) = [10] :: splitlines rest := by
  simp [splitlines]

theorem splitlines_return (h : rest.head? ≠ some 10) :
    splitlines (13 :: rest) = [13] :: splitlines rest := by
  cases rest with
  | nil => rfl
  | cons d rest =>
    have hd : d ≠ 10 := fun hd => h (by simp [hd])
    rw [splitlines.eq_3 13 (d :: rest) (by rintro _ _ ⟨⟩; exact hd rfl)]
    simp

theorem splitlines_other (hnewline : c ≠ 10) (hreturn : c ≠ 13) :
    splitlines (c :: rest) = (c :: (splitlines rest).headD []) :: (splitlines rest).tail := by
  rw [splitlines.eq_3 c rest fun _ hc _ => hreturn hc, if_neg (by simp [hnewline, hreturn])]
  cases splitlines rest <;> rfl

theorem splitlines_ne_nil (h : rest ≠ []) : splitlines rest ≠ [] := by
  fun_cases splitlines rest <;> simp_all

theorem eq_of_mem_getLast? {a : Bytes} {d : UInt8} (h : c ∈ (a ++ [d]).getLast?) : c = d := by
  rw [List.getLast?_append, List.getLast?_singleton, Option.some_or] at h
  exact (Option.some.inj h).symm

/-- Behind a line that is over the cut starts afresh; a carriage return does not end one yet
when a newline follows. -/
theorem splitlines_append (a b : Bytes)
    (h : ∀ c ∈ a.getLast?, c = 10 ∨ c = 13 ∧ b.head? ≠ some 10) :
    splitlines (a ++ b) = splitlines a ++ splitlines b := by
  have hlast : ∀ {c : UInt8} {rest : Bytes}, rest ≠ [] →
      (c :: rest).getLast? = rest.getLast? := by
    intro c rest hrest
    cases rest with
    | nil => exact absurd rfl hrest
    | cons d rest => rfl
  induction a using splitlines.induct with
  | case1 => rfl
  | case2 rest ih =>
    by_cases hrest : rest = []
    · simp [hrest, splitlines]
    · rw [hlast (by simp), hlast hrest] at h
      simp [splitlines, ih h]
  | case3 c rest hcrlf hc ih =>
    by_cases hrest : rest = []
    · subst hrest
      rcases h c rfl with rfl | ⟨rfl, hb⟩
      · exact splitlines_newline
      · exact splitlines_return hb
    · rw [hlast hrest] at h
      rcases hc with rfl | rfl
      · rw [List.cons_append, splitlines_newline, splitlines_newline, ih h, List.cons_append]
      · have hhead : rest.head? ≠ some 10 := by
          cases rest with
          | nil => exact absurd rfl hrest
          | cons d rest =>
            rintro ⟨⟩
            exact hcrlf rest rfl rfl
        have hhead' : (rest ++ b).head? ≠ some 10 := by
          rwa [List.head?_append_of_ne_nil _ hrest]
        rw [List.cons_append, splitlines_return hhead', splitlines_return hhead, ih h,
          List.cons_append]
  | case4 c rest hcrlf hc hnil ih =>
    have hrest : rest = [] := by
      by_contra hrest
      exact splitlines_ne_nil hrest hnil
    subst hrest
    exact absurd (h c rfl) (by tauto)
  | case5 c rest hcrlf hc line lines hlines ih =>
    have hrest : rest ≠ [] := by
      rintro rfl
      cases hlines
    rw [hlast hrest] at h
    push Not at hc
    rw [List.cons_append, splitlines_other hc.1 hc.2, splitlines_other hc.1 hc.2, ih h, hlines]
    rfl

@[simp]
theorem flatten_splitlines (bs : Bytes) : (splitlines bs).flatten = bs := by
  fun_induction splitlines bs <;> simp_all

end Splitlines

/-! ### One line at a time -/

/-- Text that stands on one line. -/
structure LineText (key : Bytes) : Prop where
  ne_nil : key ≠ []
  newline : 10 ∉ key
  carriageReturn : 13 ∉ key

section Removal

variable {key body x terminator : Bytes}

theorem removed_append (a b : Bytes) (h : ∀ c ∈ a.getLast?, c = 10 ∨ c = 13 ∧ b.head? ≠ some 10) :
    updated (a ++ b) key false = updated a key false ++ updated b key false := by
  simp [updated, splitlines_append a b h]

/-- A carriage return ends a piece unless a newline follows. -/
theorem removed_append_return {b : Bytes} (h : b.head? ≠ some 10) :
    updated ((x ++ [13]) ++ b) key false =
      updated (x ++ [13]) key false ++ updated b key false := by
  exact removed_append _ _ fun c hc => .inr ⟨eq_of_mem_getLast? hc, h⟩

theorem rstripNewlines_of_notMem (h : 10 ∉ body)
    (hterminator : terminator = [] ∨ terminator = [10]) :
    rstripNewlines (body ++ terminator) = body := by
  have hbody : body.rdropWhile (· == 10) = body := by
    rw [List.rdropWhile_eq_self_iff]
    intro hne hlast
    exact h (by simpa using beq_iff_eq.mp hlast ▸ List.getLast_mem hne)
  rcases hterminator with rfl | rfl
  · simpa [rstripNewlines] using hbody
  · simpa [rstripNewlines, List.rdropWhile_concat] using hbody

/-- Only newlines are taken off. -/
theorem mem_rstripNewlines {line : Bytes} {c : UInt8} (hc : c ∈ line) (hne : c ≠ 10) :
    c ∈ rstripNewlines line := by
  induction line using List.reverseRecOn with
  | nil => exact hc
  | append_singleton line d ih =>
    rw [rstripNewlines, List.rdropWhile_concat]
    split_ifs with hd
    · refine ih ?_
      simp only [List.mem_append, List.mem_singleton] at hc
      rcases hc with hc | rfl
      · exact hc
      · exact absurd (by simpa using hd) hne
    · exact hc

/-- In front of a carriage return every piece holds one. -/
theorem mem_piece_of_return (hx : 10 ∉ x) (hterminator : terminator = [] ∨ terminator = [10]) :
    ∀ piece ∈ splitlines (x ++ 13 :: terminator), (13 : UInt8) ∈ piece := by
  induction x with
  | nil => rcases hterminator with rfl | rfl <;> simp [splitlines]
  | cons c x ih =>
    obtain ⟨hc, hx⟩ := List.ne_and_not_mem_of_not_mem_cons hx
    have hhead : (x ++ 13 :: terminator).head? ≠ some 10 := by
      cases x with
      | nil => simp
      | cons d x => simpa using Ne.symm (List.ne_of_not_mem_cons hx)
    have hpieces : splitlines (x ++ 13 :: terminator) ≠ [] := splitlines_ne_nil (by simp)
    intro piece hpiece
    by_cases hreturn : c = 13
    · rw [hreturn, List.cons_append, splitlines_return hhead, List.mem_cons] at hpiece
      rcases hpiece with rfl | hpiece
      · exact List.mem_singleton_self 13
      · exact ih hx piece hpiece
    · rw [List.cons_append, splitlines_other (Ne.symm hc) hreturn, List.mem_cons] at hpiece
      obtain ⟨line, lines, hlines⟩ := List.exists_cons_of_ne_nil hpieces
      rw [hlines] at hpiece
      rcases hpiece with rfl | hpiece
      · exact List.mem_cons_of_mem c (ih hx line (by simp [hlines]))
      · exact ih hx piece (by simpa [hlines] using .inr hpiece)

/-- A line that ends in a carriage return stays. -/
theorem removed_of_return (hkey : LineText key) (hx : 10 ∉ x)
    (hterminator : terminator = [] ∨ terminator = [10]) :
    updated (x ++ 13 :: terminator) key false = x ++ 13 :: terminator := by
  have hkeep : ∀ piece ∈ splitlines (x ++ 13 :: terminator),
      (rstripNewlines piece != key) = true := by
    intro piece hpiece
    refine bne_iff_ne.mpr fun heq => hkey.carriageReturn ?_
    exact heq ▸ mem_rstripNewlines (mem_piece_of_return hx hterminator piece hpiece) (by decide)
  simp only [updated, Bool.false_eq_true, if_false, List.filter_eq_self.mpr hkeep,
    flatten_splitlines]

/-- Without a carriage return the line is one piece. -/
theorem splitlines_of_notMem (hnewline : 10 ∉ body) (hreturn : 13 ∉ body) (hne : body ≠ [])
    (hterminator : terminator = [] ∨ terminator = [10]) :
    splitlines (body ++ terminator) = [body ++ terminator] := by
  induction body with
  | nil => exact absurd rfl hne
  | cons c body ih =>
    obtain ⟨hc, hnewline⟩ := List.ne_and_not_mem_of_not_mem_cons hnewline
    obtain ⟨hc', hreturn⟩ := List.ne_and_not_mem_of_not_mem_cons hreturn
    rw [List.cons_append, splitlines_other (Ne.symm hc) (Ne.symm hc')]
    by_cases hempty : body = []
    · rcases hterminator with rfl | rfl <;> simp [hempty, splitlines]
    · simp [ih hnewline hreturn hempty]

theorem removed_self (hkey : LineText key) (hterminator : terminator = [] ∨ terminator = [10]) :
    updated (key ++ terminator) key false = [] := by
  have hpiece := splitlines_of_notMem hkey.newline hkey.carriageReturn hkey.ne_nil hterminator
  simp [updated, hpiece, rstripNewlines_of_notMem hkey.newline hterminator]

/-- A carriage return in front of the key hides that the line is a longer one. -/
theorem removed_behind_return (hkey : LineText key) (hx : 10 ∉ x)
    (hterminator : terminator = [] ∨ terminator = [10]) :
    updated (x ++ 13 :: (key ++ terminator)) key false = x ++ [13] := by
  have hhead : (key ++ terminator).head? ≠ some 10 := by
    rw [List.head?_append_of_ne_nil _ hkey.ne_nil]
    exact fun h => hkey.newline (List.mem_of_mem_head? h)
  have hsplit : x ++ 13 :: (key ++ terminator) = (x ++ [13]) ++ (key ++ terminator) := by simp
  rw [hsplit, removed_append_return hhead, removed_self hkey hterminator,
    removed_of_return hkey hx (.inl rfl), List.append_nil]

/-- Every other line stays. -/
theorem removed_other (hkey : LineText key) (hnewline : 10 ∉ body) (hne : body ≠ key)
    (hreturn : ¬ 13 :: key <:+ body) (hterminator : terminator = [] ∨ terminator = [10]) :
    updated (body ++ terminator) key false = body ++ terminator := by
  have hwhole : ∀ {t : Bytes}, 10 ∉ t → 13 ∉ t → t ≠ [] → t ≠ key →
      updated (t ++ terminator) key false = t ++ terminator := by
    intro t hnewline hreturn hempty hne
    have hpiece := splitlines_of_notMem hnewline hreturn hempty hterminator
    simp [updated, hpiece, rstripNewlines_of_notMem hnewline hterminator, hne]
  by_cases hmem : 13 ∈ body
  · -- cut behind the last carriage return: what is in front stays, what is behind is one piece
    obtain ⟨x, t, rfl, ht⟩ := Lines.exists_last hmem
    have hx : 10 ∉ x := fun h => hnewline (List.mem_append_left _ h)
    have hnewline : 10 ∉ t := fun h =>
      hnewline (List.mem_append_right _ (List.mem_cons_of_mem _ h))
    by_cases hempty : t = []
    · simpa [hempty] using removed_of_return hkey hx hterminator
    · have hne : t ≠ key := by
        rintro rfl
        exact hreturn (List.suffix_append x _)
      have hhead : (t ++ terminator).head? ≠ some 10 := by
        rw [List.head?_append_of_ne_nil _ hempty]
        exact fun h => hnewline (List.mem_of_mem_head? h)
      have hsplit : x ++ 13 :: t ++ terminator = (x ++ [13]) ++ (t ++ terminator) := by simp
      rw [hsplit, removed_append_return hhead, removed_of_return hkey hx (.inl rfl),
        hwhole hnewline ht hempty hne]
  · by_cases hempty : body = []
    · rcases hterminator with rfl | rfl
      · simp [hempty, updated, splitlines]
      · simp [hempty, updated, splitlines, rstripNewlines, List.rdropWhile, Ne.symm hkey.ne_nil]
    · exact hwhole hnewline hmem hempty hne

end Removal

/-! ### What the edit is for -/

/-- A line less its terminator, which is `\n`, `\r\n` or missing. -/
def lineText (line : Bytes) : Bytes :=
  if [13, 10] <:+ line then line.dropLast.dropLast
  else if [10] <:+ line then line.dropLast
  else line

/-- Some line says exactly this. -/
def HasLine (key contents : Bytes) : Prop := ∃ line ∈ Lines.cut 10 contents, lineText line = key

/-- The other lines, with their terminators. -/
def withoutLine (key contents : Bytes) : Bytes :=
  ((Lines.cut 10 contents).filter fun line => lineText line != key).flatten

/-- `ssh-add` and `ssh-remove` add and take away one line. -/
structure EditsLines (key : String) (contents : Bytes) : Prop where
  add_idempotent : ∃ after,
    editKey (.regular contents) key true = (.regular after, .ok ()) ∧
      editKey (.regular after) key true = (.regular after, .ok ())
  add_appends : ¬ HasLine (utf8 key) contents →
    editKey (.regular contents) key true =
      (.regular (contents ++ missingNewline contents ++ utf8 key ++ [10]), .ok ())
  remove_deletes :
    editKey (.regular contents) key false = (.regular (withoutLine (utf8 key) contents), .ok ())
  remove_add : ¬ HasLine (utf8 key) contents → ∃ after restored,
    editKey (.regular contents) key true = (.regular after, .ok ()) ∧
      editKey (.regular after) key false = (.regular restored, .ok ()) ∧
      (restored = contents ∨ restored = contents ++ [10])

/-- `bytes.splitlines` sees this line as it is: the key does not end in `\r\n` there, and no
carriage return stands in front of it. -/
def Plain (key line : Bytes) : Prop :=
  line ≠ key ++ [13, 10] ∧ ¬ 13 :: key <:+ line ∧ ¬ 13 :: key ++ [10] <:+ line

/-- The file stays within the limit when the key is added. -/
def Fits (key contents : Bytes) : Prop :=
  contents.length ≤ keysLimit ∧ (¬ HasLine key contents →
    contents.length + (missingNewline contents).length + key.length + 1 ≤ keysLimit)

section Lines

variable {key body rest contents : Bytes}

theorem lineText_of_notMem (h : 10 ∉ body) : lineText body = body := by
  have hsuffix : ∀ {t : Bytes}, 10 ∈ t → ¬ t <:+ body := fun ht hs => h (hs.subset ht)
  rw [lineText, if_neg (hsuffix (by simp)), if_neg (hsuffix (by simp))]

theorem lineText_line (hkey : LineText key) :
    lineText (body ++ [10]) = key ↔ body = key ∨ body = key ++ [13] := by
  have hnewline : [10] <:+ body ++ [10] := List.suffix_append body [10]
  by_cases hcrlf : [13, 10] <:+ body ++ [10]
  · obtain ⟨x, hx⟩ := hcrlf
    obtain rfl : x ++ [13] = body := by
      have hx : (x ++ [13]) ++ [10] = body ++ [10] := by simpa using hx
      exact List.append_cancel_right hx
    have hne : x ++ [13] ≠ key := by
      rintro rfl
      exact hkey.carriageReturn (by simp)
    simp [lineText, hne]
  · have hne : body ≠ key ++ [13] := by
      rintro rfl
      exact hcrlf (by simp)
    simp [lineText, hcrlf, hnewline, hne]

theorem withoutLine_last (h : 10 ∉ body) :
    withoutLine key body = if body = key then [] else body := by
  by_cases hne : body = []
  · simp [hne, withoutLine]
  · rw [withoutLine, Lines.cut_of_notMem h hne]
    have htext := lineText_of_notMem h
    by_cases hbody : body = key
    · subst hbody
      simp [htext]
    · simp [htext, hbody]

theorem withoutLine_line (hkey : LineText key) (h : 10 ∉ body) :
    withoutLine key (body ++ 10 :: rest) =
      (if body = key ∨ body = key ++ [13] then [] else body ++ [10]) ++ withoutLine key rest := by
  by_cases hbody : lineText (body ++ [10]) = key
  · simp [withoutLine, Lines.cut_line h, hbody, (lineText_line hkey).mp hbody]
  · have hbody' := mt (lineText_line hkey).mpr hbody
    simp [withoutLine, Lines.cut_line h, hbody, hbody']

theorem splitlines_line :
    splitlines (body ++ 10 :: rest) = splitlines (body ++ [10]) ++ splitlines rest := by
  have hsplit : body ++ 10 :: rest = (body ++ [10]) ++ rest := by simp
  rw [hsplit, splitlines_append _ _ fun c hc => .inl (eq_of_mem_getLast? hc)]

theorem removed_line : updated (body ++ 10 :: rest) key false =
    updated (body ++ [10]) key false ++ updated rest key false := by
  simp only [updated, Bool.false_eq_true, if_false]
  rw [splitlines_line, List.filter_append, List.flatten_append]

/-- What is left holds no line `key\r\n`, so none is at its start. -/
theorem not_prefix_withoutLine (hkey : LineText key) :
    ¬ key ++ [13, 10] <+: withoutLine key contents := by
  have hkey' : 10 ∉ key ++ [13] := by simp [hkey.newline]
  have hkey'' : key ++ [13, 10] = (key ++ [13]) ++ [10] := by simp
  induction contents using Lines.induction (10 : UInt8) with
  | last body h =>
    rw [withoutLine_last h]
    intro hstart
    split_ifs at hstart with hbody
    · simpa using hstart.length_le
    · exact h (hstart.subset (by simp))
  | line body rest h ih =>
    rw [withoutLine_line hkey h]
    split_ifs with hbody
    · exact ih
    · rw [hkey'', List.append_assoc (body : Bytes), List.singleton_append]
      exact fun hstart => hbody (.inr (Lines.eq_of_prefix hkey' h hstart).symm)

/-- The pieces that are left hold no line `key\n`, so none is at their start. -/
theorem not_prefix_removed (hkey : LineText key) :
    ¬ key ++ [10] <+: updated contents key false := by
  induction contents using Lines.induction (10 : UInt8) with
  | last body h =>
    have hsublist : (updated body key false).Sublist body := by
      simpa [updated] using (List.filter_sublist (l := splitlines body)
        (p := fun line => rstripNewlines line != key)).flatten
    exact fun hstart => h (hsublist.subset (hstart.subset (by simp)))
  | line body rest h ih =>
    rw [removed_line]
    by_cases hbody : body = key
    · rw [hbody, removed_self hkey (.inr rfl), List.nil_append]
      exact ih
    by_cases hreturn : 13 :: key <:+ body
    · obtain ⟨x, rfl⟩ := hreturn
      have hx : 10 ∉ x := fun hx => h (List.mem_append_left _ hx)
      have hcut : x ++ 13 :: key ++ [10] = x ++ 13 :: (key ++ [10]) := by simp
      rw [hcut, removed_behind_return hkey hx (.inr rfl), List.append_assoc, List.singleton_append]
      exact Lines.not_prefix_of_notMem (by decide) hkey.carriageReturn hx
    · rw [removed_other hkey h hbody hreturn (.inr rfl), List.append_assoc, List.singleton_append]
      exact fun hstart => hbody (Lines.eq_of_prefix hkey.newline h hstart).symm

/-- On one line that is over, the two readings agree where it is plain. -/
theorem plain_line (hkey : LineText key) :
    Plain key (body ++ [10]) ↔ body ≠ key ++ [13] ∧ ¬ 13 :: key <:+ body := by
  have hcrlf : body ++ [10] = key ++ [13, 10] ↔ body = key ++ [13] := by
    rw [show key ++ [13, 10] = (key ++ [13]) ++ [10] by simp]
    exact List.append_left_inj [10]
  have hopen : ¬ 13 :: key <:+ body ++ [10] := by
    intro hsuffix
    have hlast := hsuffix.getLast (by simp)
    rw [List.getLast_append_singleton, List.getLast_cons hkey.ne_nil] at hlast
    exact hkey.newline (hlast ▸ List.getLast_mem hkey.ne_nil)
  have hclosed : 13 :: key ++ [10] <:+ body ++ [10] ↔ 13 :: key <:+ body := by
    refine ⟨fun ⟨x, hx⟩ => ⟨x, ?_⟩, fun ⟨x, hx⟩ => ⟨x, by rw [← hx]; simp⟩⟩
    have hclosed : x ++ 13 :: key ++ [10] = body ++ [10] := by
      rw [← hx]
      simp
    exact List.append_cancel_right hclosed
  rw [Plain, ne_eq, hcrlf, hclosed]
  tauto

theorem plain_last (h : 10 ∉ body) : Plain key body ↔ ¬ 13 :: key <:+ body := by
  have hcrlf : body ≠ key ++ [13, 10] := by
    rintro rfl
    exact h (by simp)
  have hclosed : ¬ 13 :: key ++ [10] <:+ body := fun hsuffix => h (hsuffix.subset (by simp))
  rw [Plain]
  tauto

/-- The pieces that go are the lines that go exactly when every line is plain. Line by line: at
the first one that is not, the two texts part for good. -/
theorem removed_eq_withoutLine_iff (hkey : LineText key) :
    updated contents key false = withoutLine key contents ↔
      ∀ line ∈ Lines.cut 10 contents, Plain key line := by
  induction contents using Lines.induction (10 : UInt8) with
  | last body h =>
    have hcut : (∀ line ∈ Lines.cut 10 body, Plain key line) ↔ ¬ 13 :: key <:+ body := by
      by_cases hempty : body = []
      · simp [hempty]
      · rw [Lines.cut_of_notMem h hempty, List.forall_mem_singleton, plain_last h]
    rw [withoutLine_last h, hcut]
    by_cases hbody : body = key
    · have hreturn : ¬ 13 :: key <:+ body := fun hsuffix => by
        simpa [hbody] using hsuffix.length_le
      have hremoved := removed_self hkey (.inl rfl)
      rw [List.append_nil] at hremoved
      simp [hbody, hremoved, hbody ▸ hreturn]
    · rw [if_neg hbody]
      by_cases hreturn : 13 :: key <:+ body
      · obtain ⟨x, rfl⟩ := hreturn
        have hx : 10 ∉ x := fun hx => h (List.mem_append_left _ hx)
        have hremoved := removed_behind_return hkey hx (.inl rfl)
        rw [List.append_nil] at hremoved
        simp [hremoved, hkey.ne_nil]
      · have hremoved := removed_other hkey h hbody hreturn (.inl rfl)
        simp only [List.append_nil] at hremoved
        simp [hremoved, hreturn]
  | line body rest h ih =>
    rw [removed_line, withoutLine_line hkey h, Lines.cut_line h, List.forall_mem_cons,
      plain_line hkey, ← ih]
    by_cases hreturn : 13 :: key <:+ body
    · -- the line keeps its place, the piece behind the carriage return goes
      obtain ⟨x, rfl⟩ := hreturn
      have hx : 10 ∉ x := fun hx => h (List.mem_append_left _ hx)
      have hne : ¬ (x ++ 13 :: key = key ∨ x ++ 13 :: key = key ++ [13]) := by
        rintro (heq | heq) <;> have hlength := congrArg List.length heq <;>
          simp only [List.length_append, List.length_cons, List.length_nil] at hlength
        · omega
        · obtain rfl : x = [] := List.length_eq_zero_iff.mp (by omega)
          have hhead := congrArg List.head? heq
          rw [List.nil_append, List.head?_cons, List.head?_append_of_ne_nil _ hkey.ne_nil] at hhead
          exact hkey.carriageReturn (List.mem_of_mem_head? hhead.symm)
      have hcut : x ++ 13 :: key ++ [10] = x ++ 13 :: (key ++ [10]) := by simp
      have hparts : updated rest key false ≠ key ++ 10 :: withoutLine key rest :=
        fun heq => not_prefix_removed hkey
          ⟨withoutLine key rest, show _ = updated rest key false by rw [heq]; simp⟩
      rw [if_neg hne, hcut, removed_behind_return hkey hx (.inr rfl)]
      simp [hparts]
    by_cases hbody : body = key
    · rw [if_pos (.inl hbody), hbody, removed_self hkey (.inr rfl)]
      simp [hbody ▸ hreturn]
    have hremoved := removed_other hkey h hbody hreturn (.inr rfl)
    by_cases hcrlf : body = key ++ [13]
    · -- the line goes, its piece stays
      have hparts : key ++ 13 :: 10 :: updated rest key false ≠ withoutLine key rest :=
        fun heq => not_prefix_withoutLine hkey
          ⟨updated rest key false, show _ = withoutLine key rest by rw [← heq]; simp⟩
      rw [if_pos (.inr hcrlf), hremoved, hcrlf]
      simp [hparts]
    · rw [if_neg (by tauto), hremoved, List.append_cancel_left_eq]
      simp [hcrlf, hreturn]

/-- `ssh-add` finds the key where `ssh-remove` would take something away. -/
theorem removed_eq_self_iff (hkey : LineText key) :
    updated contents key false = contents ↔
      ∀ piece ∈ splitlines contents, rstripNewlines piece ≠ key := by
  have hnonempty : ∀ piece ∈ splitlines contents,
      (rstripNewlines piece != key) = false → piece ≠ [] := by
    rintro piece - hpiece rfl
    exact hkey.ne_nil (by simpa [rstripNewlines] using hpiece.symm)
  have hiff := Lines.flatten_filter_eq_iff hnonempty
  rw [flatten_splitlines] at hiff
  simpa [updated] using hiff

theorem withoutLine_eq_self_iff (hkey : LineText key) :
    withoutLine key contents = contents ↔ ¬ HasLine key contents := by
  have hnonempty : ∀ line ∈ Lines.cut 10 contents, (lineText line != key) = false → line ≠ [] := by
    rintro line - hline rfl
    exact hkey.ne_nil (by simpa [lineText] using hline.symm)
  have hiff := Lines.flatten_filter_eq_iff hnonempty
  rw [Lines.flatten_cut] at hiff
  simpa [withoutLine, HasLine] using hiff

/-- The newline that closes the last line does not bring the key into the file. -/
theorem removed_newline (hkey : LineText key) (h : updated contents key false = contents) :
    updated (contents ++ [10]) key false = contents ++ [10] := by
  induction contents using Lines.induction (10 : UInt8) with
  | last body hbody =>
    have hne : body ≠ key := by
      rintro rfl
      have hremoved := removed_self hkey (.inl rfl)
      rw [List.append_nil, h] at hremoved
      exact hkey.ne_nil hremoved
    have hreturn : ¬ 13 :: key <:+ body := by
      rintro ⟨x, rfl⟩
      have hremoved := removed_behind_return hkey (fun hx => hbody (List.mem_append_left _ hx))
        (.inl rfl)
      rw [List.append_nil, h] at hremoved
      simp [hkey.ne_nil] at hremoved
    exact removed_other hkey hbody hne hreturn (.inr rfl)
  | line body rest hbody ih =>
    rw [removed_eq_self_iff hkey, splitlines_line, List.forall_mem_append] at h
    have hline := (removed_eq_self_iff hkey).mpr h.1
    have hrest := ih ((removed_eq_self_iff hkey).mpr h.2)
    rw [List.append_assoc, List.cons_append, removed_line, hline, hrest, List.append_assoc,
      List.singleton_append]

/-- A file as it is before the key is appended: the last line is over. -/
theorem removed_terminated (hkey : LineText key) (h : updated contents key false = contents) :
    updated (contents ++ missingNewline contents) key false =
      contents ++ missingNewline contents := by
  rw [missingNewline]
  split_ifs
  · exact removed_newline hkey h
  · simpa using h

theorem getLast?_terminated :
    ∀ c ∈ (contents ++ missingNewline contents).getLast?, c = 10 := by
  rw [missingNewline]
  split_ifs with h
  · simp
  · intro c hc
    rw [List.append_nil] at hc
    have hne : contents ≠ [] := by
      rintro rfl
      cases hc
    obtain ⟨x, rfl⟩ : [10] <:+ contents := by tauto
    exact eq_of_mem_getLast? hc

theorem splitlines_terminated (b : Bytes) :
    splitlines (contents ++ missingNewline contents ++ b) =
      splitlines (contents ++ missingNewline contents) ++ splitlines b :=
  splitlines_append _ _ fun c hc => .inl (getLast?_terminated c hc)

/-- Once the key is appended, it is found. -/
theorem added_twice (hkey : LineText key) :
    updated (contents ++ missingNewline contents ++ key ++ [10]) key true =
      contents ++ missingNewline contents ++ key ++ [10] := by
  have hpiece := splitlines_of_notMem hkey.newline hkey.carriageReturn hkey.ne_nil (.inr rfl)
  have hfound : (splitlines (contents ++ missingNewline contents ++ (key ++ [10]))).any
      (fun line => rstripNewlines line == key) = true := by
    rw [splitlines_terminated, hpiece]
    simp [rstripNewlines_of_notMem hkey.newline (.inr rfl)]
  rw [List.append_assoc _ key]
  simp only [updated, if_true, hfound]

/-- And `ssh-remove` takes off what `ssh-add` appended. -/
theorem removed_added (hkey : LineText key) (h : updated contents key false = contents) :
    updated (contents ++ missingNewline contents ++ key ++ [10]) key false =
      contents ++ missingNewline contents := by
  have hself := removed_self hkey (.inr rfl)
  have hterminated := removed_terminated hkey h
  simp only [updated, Bool.false_eq_true, if_false] at hself hterminated ⊢
  rw [List.append_assoc _ key, splitlines_terminated, List.filter_append, List.flatten_append,
    hself, hterminated, List.append_nil]

theorem added_of_absent (hkey : LineText key) (h : updated contents key false = contents) :
    updated contents key true = contents ++ missingNewline contents ++ key ++ [10] := by
  have hnone : (splitlines contents).any (fun line => rstripNewlines line == key) = false := by
    simpa using (removed_eq_self_iff hkey).mp h
  simp [updated, hnone]

theorem added_of_present (hkey : LineText key) (h : updated contents key false ≠ contents) :
    updated contents key true = contents := by
  have hsome : (splitlines contents).any (fun line => rstripNewlines line == key) = true := by
    rw [ne_eq, removed_eq_self_iff hkey] at h
    simpa using h
  simp [updated, hsome]

end Lines

/-! ### The edit against its purpose -/

section EditsLines

variable {key : String} {contents : Bytes}

/-- An accepted key stands on one line. -/
theorem lineText_publicKey (h : publicKey key = .ok key) : LineText (utf8 key) := by
  obtain ⟨hok, -⟩ := orRaise_eq_ok.mp h
  simp only [Bool.not_eq_true', Bool.or_eq_false_iff, Bool.not_eq_false', List.any_eq_false,
    decide_eq_true_eq, Bool.or_eq_true, not_or] at hok
  obtain ⟨⟨htypes, -⟩, hchars⟩ := hok
  have hsize : ∀ c ∈ key.toList, c.utf8Size = 1 := by
    intro c hc
    have hval : c.toNat ≤ 126 := by have := hchars c hc; omega
    have hval : c.val ≤ 0x7f := UInt32.le_iff_toNat_le.mpr (Nat.le_succ_of_le hval)
    simp [Char.utf8Size, hval]
  have hbytes : ∀ b ∈ utf8 key, 32 ≤ b.toNat := by
    intro b hb
    rw [← String.ofList_toList (s := key), utf8_ofList hsize] at hb
    obtain ⟨c, hc, rfl⟩ := List.mem_map.mp hb
    have hrange := hchars c hc
    rw [UInt32.toNat_toUInt8]
    change 32 ≤ c.toNat % 2 ^ 8
    omega
  refine ⟨?_, fun hmem => absurd (hbytes 10 hmem) (by decide),
    fun hmem => absurd (hbytes 13 hmem) (by decide)⟩
  rw [ne_eq, utf8_eq_nil]
  rintro rfl
  exact absurd htypes (by decide)

theorem editKey_regular (h : publicKey key = .ok key) (add : Bool) :
    editKey (.regular contents) key add = if keysLimit < contents.length
      then (.regular contents, .error "authorized_keys exceeds size limit")
      else (.regular (updated contents (utf8 key) add), .ok ()) := by
  simp [editKey, rewriteKeys, h]

/-- The key is edited in and out as a line, on exactly the files that fit and whose lines
`bytes.splitlines` sees as they are. -/
theorem editsLines_iff (h : publicKey key = .ok key) :
    EditsLines key contents ↔
      Fits (utf8 key) contents ∧ ∀ line ∈ Lines.cut 10 contents, Plain (utf8 key) line := by
  have hkey := lineText_publicKey h
  have hrun : ∀ {contents after : Bytes} {add : Bool},
      editKey (.regular contents) key add = (.regular after, .ok ()) ↔
        contents.length ≤ keysLimit ∧ updated contents (utf8 key) add = after := by
    intro contents after add
    rw [editKey_regular h]
    split_ifs with hlimit
    · simp; omega
    · simp; omega
  constructor
  · intro hedits
    obtain ⟨hlimit, hremoved⟩ := hrun.mp hedits.remove_deletes
    refine ⟨⟨hlimit, fun habsent => ?_⟩, (removed_eq_withoutLine_iff hkey).mp hremoved⟩
    obtain ⟨after, restored, hadd, hremove, -⟩ := hedits.remove_add habsent
    obtain ⟨-, hadded⟩ := hrun.mp (hedits.add_appends habsent)
    obtain ⟨-, rfl⟩ := hrun.mp hadd
    have hafter := (hrun.mp hremove).1
    rw [hadded] at hafter
    simpa [Nat.add_assoc] using hafter
  · rintro ⟨⟨hlimit, hfits⟩, hplain⟩
    have hremoved := (removed_eq_withoutLine_iff hkey).mpr hplain
    have hremove := hrun.mpr ⟨hlimit, hremoved⟩
    by_cases hline : HasLine (utf8 key) contents
    · have hpresent : updated contents (utf8 key) false ≠ contents := by
        rw [hremoved]
        exact fun heq => (withoutLine_eq_self_iff hkey).mp heq hline
      have hadd := hrun.mpr ⟨hlimit, added_of_present hkey hpresent⟩
      exact ⟨⟨contents, hadd, hadd⟩, absurd hline, hremove, absurd hline⟩
    · have habsent : updated contents (utf8 key) false = contents := by
        rw [hremoved]
        exact (withoutLine_eq_self_iff hkey).mpr hline
      have hadd := hrun.mpr ⟨hlimit, added_of_absent hkey habsent⟩
      have hlength :
          (contents ++ missingNewline contents ++ utf8 key ++ [10]).length ≤ keysLimit := by
        simpa [Nat.add_assoc] using hfits hline
      have hagain := hrun.mpr ⟨hlength, added_twice hkey⟩
      have hback := hrun.mpr ⟨hlength, removed_added hkey habsent⟩
      refine ⟨⟨_, hadd, hagain⟩, fun _ => hadd, hremove, fun _ => ⟨_, _, hadd, hback, ?_⟩⟩
      rw [missingNewline]
      split_ifs <;> simp

theorem editsLines_iff_empty : EditsLines "ssh-rsa" [] :=
  (editsLines_iff (by decide +kernel)).mpr
    ⟨⟨Nat.zero_le _, fun _ => by decide +kernel⟩, by simp⟩

/-- A key that was written with `\r\n` survives its removal. -/
theorem not_editsLines : ¬ ∀ (key : String) (contents : Bytes), publicKey key = .ok key →
    EditsLines key contents := by
  intro h
  have hremove := (h "ssh-rsa" (utf8 "ssh-rsa\r\n") (by decide +kernel)).remove_deletes
  have hkept : (editKey (.regular (utf8 "ssh-rsa\r\n")) "ssh-rsa" false).1 =
      .regular (utf8 "ssh-rsa\r\n") := by decide +kernel
  have hempty : withoutLine (utf8 "ssh-rsa") (utf8 "ssh-rsa\r\n") = [] := by decide +kernel
  rw [hremove, hempty] at hkept
  exact absurd (Entry.regular.inj hkept) (by decide +kernel)

end EditsLines

end Sysknife.ActionSteps
