import Sysknife.Actions.Validate
import Sysknife.Lib.Interference
import Sysknife.Lib.Pids
import Sysknife.Types

/-!
# Who is calling

A connection on the Unix socket is attributed to the account of the process that opened it, and
gets the role of that process's groups (`resolveCaller`). The kernel keeps the peer's PID,
primary group and account from `connect`; the supplementary groups are read afterwards from
`/proc/PID/status`, where the PID may by then belong to somebody else. So the peer is pinned
by a pidfd first, and what was read is dropped unless the pinned process turns out not to have
been reaped.

`runs_groupsForPinnedPeer` says that what is kept was read from the peer itself, whatever the
processes of the machine do meanwhile, and `no_role_by_reuse` that the role comes from groups of
the peer only.
-/

namespace Sysknife.Transport

open Pids (Table)
open Relation (ReflTransGen)

/-! ### Roles -/

def roleForGroup (group : String) : CallerRole :=
  if group = "sysknife-boot" then .boot
  else if group = "sysknife-admin" ∨ group = "wheel" then .admin
  else if group = "sysknife-dev" then .dev
  else .observer

def highestRoleFromGroups (groups : List String) : CallerRole :=
  (groups.map roleForGroup).foldl max .observer

/-! ### What the daemon asks the kernel -/

/-- `ENOPROTOOPT` -/
def enoprotoopt : ℤ := 92

/-- `ESRCH` -/
def esrch : ℤ := 3

/-- What `SO_PEERCRED` answers; without a PID where the platform reports none. -/
structure PeerCred where
  pid : Option ℤ
  gid : ℕ
  uid : ℕ
  deriving DecidableEq, Repr

/-- The system calls of the attribution. -/
inductive PeerCall
  /-- `getsockopt(SO_PEERPIDFD)` -/
  | peerPidfd
  /-- `getsockopt(SO_PEERCRED)` -/
  | peerCred
  /-- Read `/etc/group`. -/
  | readGroupFile
  /-- Read `/proc/PID/status`. -/
  | readStatus (pid : ℕ)
  /-- `pidfd_send_signal` with signal 0. -/
  | pidfdSendSignal (fd : ℤ)
  /-- Read `/proc/sys/kernel/overflowuid`. -/
  | readOverflowUid

/-- What a call answers: an error by its number, or just that there was one. -/
def PeerCall.Answer : PeerCall → Type
  | .peerPidfd => Except ℤ ℤ
  | .peerCred => Option PeerCred
  | .readGroupFile => Option String
  | .readStatus _ => Option String
  | .pidfdSendSignal _ => Except ℤ Unit
  | .readOverflowUid => Option String

abbrev Resolving := Prog PeerCall PeerCall.Answer

def ask (op : PeerCall) : Resolving op.Answer := Prog.perform op

/-! ### The pin -/

/-- The process that opened the connection, held by a pidfd. -/
inductive PeerPin
  | pinned (fd : ℤ)
  /-- The kernel does not know the option. -/
  | unsupported
  | unpinnable
  deriving DecidableEq, Repr

def PeerPin.fromError (errno : ℤ) : PeerPin :=
  if errno = enoprotoopt then .unsupported else .unpinnable

/-- What the answer of `getsockopt` makes of the pin. -/
def PeerPin.ofAnswer : Except ℤ ℤ → PeerPin
  | .error errno => .fromError errno
  | .ok fd => if fd < 0 then .unpinnable else .pinned fd

def peerPidfd : Resolving PeerPin := do
  let answer ← ask .peerPidfd
  pure (PeerPin.ofAnswer answer)

/-- Any error but `ESRCH` means that the process is still there. -/
def stillLive : Except ℤ Unit → Bool
  | .ok () => true
  | .error errno => decide (errno ≠ esrch)

def pidfdPeerStillLive (fd : ℤ) : Resolving Bool := do
  let answer ← ask (.pidfdSendSignal fd)
  pure (stillLive answer)

/-! ### Groups -/

/-- The group a line of `/etc/group` names, with its number. -/
def groupOfLine (line : String) : Option (ℕ × String) :=
  match Text.split ':' line with
  | name :: _ :: gid :: _ => (parseU32 gid).map fun gid => (gid, name)
  | _ => none

/-- The names of the groups, as `/etc/group` gives them; of two names for a number the later
stands. -/
def gidMap (content : String) : ℕ → Option String :=
  ((lines content).filterMap groupOfLine).foldl (fun m g => Function.update m g.1 (some g.2))
    fun _ => none

def readGidMap : Resolving (ℕ → Option String) := do
  let content ← ask .readGroupFile
  pure (Option.elim content (fun _ => none) gidMap)

/-- `trim_start_matches`: the text without any number of times `start` in front. -/
def trimStartMatches (start s : List Char) : List Char :=
  if _h : start ≠ [] ∧ start <+: s then trimStartMatches start (s.drop start.length) else s
termination_by s.length
decreasing_by
  have hpos := List.length_pos_iff.mpr _h.1
  have hle := _h.2.length_le
  rw [List.length_drop]
  omega

/-- The supplementary groups of a `/proc/PID/status`, by their numbers. -/
def statusGroups (status : String) : List ℕ :=
  match (lines status).find? (Text.startsWith "Groups:") with
  | none => []
  | some line =>
    (wordsBy isWhitespace (String.ofList (trimStartMatches "Groups:".toList line.toList))).filterMap
      parseU32

def groupsForPid (pid : ℕ) (gidMap : ℕ → Option String) : Resolving (List String) := do
  let status ← ask (.readStatus pid)
  pure ((Option.elim status [] statusGroups).filterMap gidMap)

/-- The supplementary groups of the peer, or none if it is not sure whose they are. -/
def groupsForPinnedPeer (pid : ℕ) (pin : PeerPin) (gidMap : ℕ → Option String) :
    Resolving (List String) :=
  match pin with
  | .unsupported => groupsForPid pid gidMap
  | .unpinnable => pure []
  | .pinned fd => do
    let groups ← groupsForPid pid gidMap
    let live ← pidfdPeerStillLive fd
    pure (if live then groups else [])

/-- The groups with the primary one, which `/proc/PID/status` does not list among them. -/
def withPrimary (groups : List String) (name : Option String) : List String :=
  match name with
  | none => groups
  | some name => if name ∈ groups then groups else groups ++ [name]

/-! ### The caller -/

/-- `DEFAULT_OVERFLOW_UID` -/
def defaultOverflowUid : ℕ := 65534

/-- The account the kernel reports for one it cannot map. -/
def overflowUid : Resolving ℕ := do
  let raw ← ask .readOverflowUid
  pure ((Option.bind raw fun raw => parseU32 (trim raw)).getD defaultOverflowUid)

/-- The PID to look the peer up by; zero is never a process. -/
def PeerCred.usablePid (cred : PeerCred) : Option ℕ :=
  (cred.pid.filter fun pid => decide (0 < pid)).map Int.toNat

/-- Attribute a connection of which the PID is known. -/
def resolvePeer (pid : ℕ) (cred : PeerCred) (pin : PeerPin) : Resolving CallerAttribution := do
  let gidMap ← readGidMap
  let groups ← groupsForPinnedPeer pid pin gidMap
  let overflow ← overflowUid
  let groups := withPrimary groups (gidMap cred.gid)
  pure (if cred.uid = overflow then .unattributed
    else .fromPeerUid cred.uid (highestRoleFromGroups groups))

def resolveCallerWithPin (pin : PeerPin) : Resolving CallerAttribution := do
  let cred ← ask .peerCred
  match cred with
  | none => pure .unattributed
  | some cred =>
    match cred.usablePid with
    | none => pure .unattributed
    | some pid => resolvePeer pid cred pin

/-- Resolve who is calling: the role, and the principal that records which account it was. -/
def resolveCaller : Resolving CallerAttribution := do
  let pin ← peerPidfd
  resolveCallerWithPin pin

/-! ### The kernel -/

/-- A connection as it was opened. -/
structure Connection where
  /-- The process that opened it. -/
  peer : ℕ
  /-- What its PID was. -/
  pid : ℕ
  gid : ℕ
  uid : ℕ

/-- The processes of the machine, each with its supplementary groups, and which process a pidfd
of the attribution stands for. -/
structure Kernel where
  processes : Table (List ℕ)
  pidfds : ℤ → Option ℕ

/-- What follows `Groups:` on the line of a `/proc/PID/status` that lists the groups. -/
def groupsField (groups : List ℕ) : List Char :=
  '\t' :: groups.flatMap fun g => (toString g).toList ++ [' ']

/-- The text of a `/proc/PID/status`: some lines, the first one of groups lists these. -/
def StatusText (groups : List ℕ) (status : String) : Prop :=
  ∃ above : List (List Char),
    (∀ l ∈ above, '\n' ∉ l ∧ ¬"Groups:".toList <+: l) ∧
    (status.toList = above.flatMap (· ++ ['\n']) ∨
      ∃ below, status.toList =
        above.flatMap (· ++ ['\n']) ++
          ("Groups:".toList ++ groupsField groups ++ '\n' :: below))

/-- What the calls answer on a kernel that knows `SO_PEERPIDFD`: the pidfd and `SO_PEERCRED` stand
for the process that connected, `ESRCH` says of a pidfd that its process was reaped, and a
status is that of the process the PID stands for. Any call may fail. -/
def Answers (conn : Connection) (k : Kernel) : (op : PeerCall) → op.Answer → Kernel → Prop
  | .peerPidfd, .error errno, k' => errno ≠ enoprotoopt ∧ k' = k
  | .peerPidfd, .ok fd, k' => k' = { k with pidfds := Function.update k.pidfds fd conn.peer }
  | .peerCred, cred, k' => k' = k ∧ ∀ c : PeerCred, cred = some c →
      c.gid = conn.gid ∧ c.uid = conn.uid ∧ ∀ pid, c.pid = some pid → 0 < pid → pid = conn.pid
  | .readGroupFile, _, k' => k' = k
  | .readStatus pid, status, k' => k' = k ∧ ∀ text : String, status = some text →
      ∃ p, k.processes.lookup pid = some p ∧ StatusText p.cred text
  | .pidfdSendSignal fd, answer, k' => k' = k ∧ ∀ id, k.pidfds fd = some id →
      (answer = .error esrch ↔ k.processes.Reaped id)
  | .readOverflowUid, _, k' => k' = k

/-- The machine around the attribution of a connection. -/
def machine (conn : Connection) : Around PeerCall PeerCall.Answer Kernel where
  step k k' := k.processes.Step k'.processes ∧ k'.pidfds = k.pidfds
  answer := Answers conn

/-- A run, with the kernel at each call. -/
abbrev History := List (Kernel × Call PeerCall PeerCall.Answer)

/-- The group stands in a status that was read from the process that connected, which was in
it. -/
def ReadFromPeer (conn : Connection) (calls : History) (gid : ℕ) : Prop :=
  ∃ (k : Kernel) (status : String) (p : Pids.Process (List ℕ)),
    (k, ⟨.readStatus conn.pid, some status⟩) ∈ calls ∧ gid ∈ statusGroups status ∧
      k.processes.lookup conn.pid = some p ∧ p.id = conn.peer ∧ gid ∈ p.cred

/-- The group file that was read calls the group so. -/
def NamedBy (calls : History) (gid : ℕ) (name : String) : Prop :=
  ∃ (k : Kernel) (content : String),
    (k, ⟨.readGroupFile, some content⟩) ∈ calls ∧ gidMap content gid = some name

/-- The group is one of the process that connected: its primary group then, or a supplementary
one read from it. -/
def HeldByPeer (conn : Connection) (calls : History) (name : String) : Prop :=
  ∃ gid, NamedBy calls gid name ∧ (gid = conn.gid ∨ ReadFromPeer conn calls gid)

/-! ### Reading a status -/

theorem trimStartMatches_of_append {start s : List Char} (hne : start ≠ [])
    (h : ¬start <+: s) : trimStartMatches start (start ++ s) = s := by
  rw [trimStartMatches, dif_pos ⟨hne, List.prefix_append start s⟩, List.drop_left,
    trimStartMatches, dif_neg fun hall => h hall.2]

/-- The numbers on a line of groups are read as they were printed. -/
theorem words_groupsField (groups : List ℕ) :
    wordsBy isWhitespace (String.ofList (groupsField groups)) = groups.map toString := by
  have hprinted : groupsField groups =
      [] ++ '\t' :: ((groups.map fun g => (toString g).toList).flatMap (· ++ [' ']) ++ []) := by
    rw [List.flatMap_map, List.append_nil, List.nil_append, groupsField]
  have hdigits : ∀ l ∈ groups.map fun g => (toString g).toList, ∀ c ∈ l,
      isWhitespace c = false := by
    intro l hl c hc
    obtain ⟨g, -, rfl⟩ := List.mem_map.mp hl
    exact isWhitespace_of_isDigit (isDigit_of_mem_toString hc)
  have hne : ((groups.map fun g => (toString g).toList).filter fun w => !w.isEmpty) =
      groups.map fun g => (toString g).toList := by
    refine List.filter_eq_self.mpr fun l hl => ?_
    obtain ⟨g, -, rfl⟩ := List.mem_map.mp hl
    simp
  rw [wordsBy, String.toList_ofList, hprinted,
    List.splitOnP_append_cons_of_forall_mem (by simp) '\t' (by decide),
    splitOnP_closed (by decide) _ [] hdigits, List.splitOnP_nil, List.filter_cons_of_neg (by simp),
    List.filter_append, hne, List.filter_cons_of_neg (by simp), List.filter_nil, List.append_nil,
    List.map_map]
  exact List.map_congr_left fun g _ => String.ofList_toList

theorem groupsField_plain (groups : List ℕ) : ∀ c ∈ groupsField groups, c ≠ '\n' ∧ c ≠ '\r' := by
  intro c hc
  rw [groupsField, List.mem_cons, List.mem_flatMap] at hc
  rcases hc with rfl | ⟨g, -, hc⟩
  · decide
  · rw [List.mem_append, List.mem_singleton] at hc
    rcases hc with hc | rfl
    · have hdigit := isDigit_of_mem_toString hc
      constructor <;> rintro rfl <;> exact absurd hdigit (by decide)
    · decide

/-- A line without its carriage return begins with no more than the line. -/
theorem not_startsWith_line {start : String} {l : List Char} (h : ¬start.toList <+: l) :
    Text.startsWith start (String.ofList (withoutReturn l)) = false := by
  rw [Text.startsWith, String.toList_ofList, Bool.eq_false_iff, ne_eq, List.isPrefixOf_iff_prefix,
    withoutReturn]
  split
  · exact fun hpre => h (hpre.trans (List.dropLast_prefix l))
  · exact h

/-- The first line that begins so is not among lines that do not. -/
theorem find?_lines_above {start : String} {above : List (List Char)}
    (h : ∀ l ∈ above, ¬start.toList <+: l) :
    (above.map fun l => String.ofList (withoutReturn l)).find? (Text.startsWith start) = none := by
  rw [List.find?_eq_none]
  intro line hline
  obtain ⟨l, hl, rfl⟩ := List.mem_map.mp hline
  rw [not_startsWith_line (h l hl)]
  decide

theorem find?_lines_of_closed {start : String} {above : List (List Char)} {status : String}
    (habove : ∀ l ∈ above, '\n' ∉ l ∧ ¬start.toList <+: l)
    (hstatus : status.toList = above.flatMap (· ++ ['\n'])) :
    (lines status).find? (Text.startsWith start) = none := by
  have hclosed : ∀ l ∈ above, ∀ c ∈ l, (c == '\n') = false := fun l hl c hc =>
    beq_eq_false_iff_ne.mpr fun heq => (habove l hl).1 (heq ▸ hc)
  have hpieces : status.toList.splitOnP (· == '\n') = above ++ [[]] := by
    rw [hstatus, ← List.append_nil (above.flatMap _), splitOnP_closed (by decide) above [] hclosed,
      List.splitOnP_nil]
  have hlines : lines status = above.map fun l => String.ofList (withoutReturn l) := by
    simp only [lines, hpieces, List.dropLast_concat, List.getLastD_concat, if_true, List.append_nil]
  rw [hlines]
  exact find?_lines_above fun l hl => (habove l hl).2

theorem find?_lines_of_line {start : String} {above : List (List Char)} {line below : List Char}
    {status : String} (habove : ∀ l ∈ above, '\n' ∉ l ∧ ¬start.toList <+: l)
    (hline : ∀ c ∈ line, c ≠ '\n' ∧ c ≠ '\r') (hstart : start.toList <+: line)
    (hstatus : status.toList = above.flatMap (· ++ ['\n']) ++ (line ++ '\n' :: below)) :
    (lines status).find? (Text.startsWith start) = some (String.ofList line) := by
  have hclosed : ∀ l ∈ above, ∀ c ∈ l, (c == '\n') = false := fun l hl c hc =>
    beq_eq_false_iff_ne.mpr fun heq => (habove l hl).1 (heq ▸ hc)
  have hpieces : status.toList.splitOnP (· == '\n') =
      above ++ line :: below.splitOnP (· == '\n') := by
    rw [hstatus, splitOnP_closed (by decide) above _ hclosed,
      List.splitOnP_append_cons_of_forall_mem (fun c hc => beq_eq_false_iff_ne.mpr (hline c hc).1)
        '\n' (by decide)]
  have hclosedLine : (status.toList.splitOnP (· == '\n')).dropLast =
      above ++ line :: (below.splitOnP (· == '\n')).dropLast := by
    rw [hpieces, List.dropLast_append_of_ne_nil (List.cons_ne_nil _ _),
      List.dropLast_cons_of_ne_nil (List.splitOnP_ne_nil _ below)]
  have hreturn : withoutReturn line = line := by
    rw [withoutReturn, if_neg]
    exact fun hlast => (hline '\r' (List.mem_of_getLast? hlast)).2 rfl
  have hstarts : Text.startsWith start (String.ofList line) = true := by
    rw [Text.startsWith, String.toList_ofList, List.isPrefixOf_iff_prefix]
    exact hstart
  simp only [lines, hclosedLine, List.map_append, List.map_cons, List.append_assoc,
    List.cons_append]
  rw [List.find?_append, find?_lines_above fun l hl => (habove l hl).2, Option.none_or, hreturn,
    List.find?_cons_of_pos hstarts]

/-- What is read of a status are groups of its process. -/
theorem statusGroups_subset {groups : List ℕ} {status : String} (h : StatusText groups status) :
    ∀ g ∈ statusGroups status, g ∈ groups := by
  obtain ⟨above, habove, hstatus | ⟨below, hstatus⟩⟩ := h
  · intro g hg
    rw [statusGroups, find?_lines_of_closed habove hstatus] at hg
    cases hg
  · have hplain : ∀ c ∈ "Groups:".toList ++ groupsField groups, c ≠ '\n' ∧ c ≠ '\r' := by
      intro c hc
      have hstart : "Groups:".toList.all (fun c => c ≠ '\n' ∧ c ≠ '\r') = true := by decide
      rcases List.mem_append.mp hc with hc | hc
      · exact of_decide_eq_true (List.all_eq_true.mp hstart c hc)
      · exact groupsField_plain groups c hc
    have hfield : ¬"Groups:".toList <+: groupsField groups := fun hpre => by
      have hhead := (List.cons_prefix_cons.mp hpre).1
      exact absurd hhead (by decide)
    have hread : statusGroups status = (groups.map toString).filterMap parseU32 := by
      unfold statusGroups
      rw [find?_lines_of_line habove hplain (List.prefix_append _ _) hstatus]
      simp only [String.toList_ofList]
      rw [trimStartMatches_of_append (by decide) hfield, words_groupsField]
    intro g hg
    rw [hread, List.filterMap_map, List.mem_filterMap] at hg
    obtain ⟨g', hg', hparsed⟩ := hg
    simp only [Function.comp_apply, parseU32_toString_eq] at hparsed
    split at hparsed
    · exact Option.some.inj hparsed ▸ hg'
    · cases hparsed

/-! ### Runs -/

section Runs

variable {conn : Connection} {k k' : Kernel} {calls : History} {m : ℕ → Option String}

/-- Between calls the processes go on, and nobody touches the pidfd. -/
theorem passes_machine (h : (machine conn).Passes k k') :
    ReflTransGen Table.Step k.processes k'.processes ∧ k'.pidfds = k.pidfds := by
  induction h with
  | refl => exact ⟨.refl, rfl⟩
  | tail _ hlast ih => exact ⟨ih.1.tail hlast.1, hlast.2.trans ih.2⟩

theorem runs_groupsForPid {pid : ℕ} {groups : List String}
    (h : (machine conn).Runs (groupsForPid pid m) k calls groups k') :
    ∃ status : Option String, (machine conn).Passes k k' ∧
      calls = [(k', ⟨.readStatus pid, status⟩)] ∧
      groups = (status.elim [] statusGroups).filterMap m ∧
      ∀ text, status = some text →
        ∃ p, k'.processes.lookup pid = some p ∧ StatusText p.cred text := by
  obtain ⟨u, status, v, rest, hbefore, ⟨rfl, hstatus⟩, rfl, hrest⟩ := Around.runs_perform_bind.mp h
  obtain ⟨rfl, rfl, rfl⟩ := Around.runs_pure.mp hrest
  exact ⟨status, hbefore, rfl, rfl, hstatus⟩

theorem runs_pidfdPeerStillLive {fd : ℤ} {live : Bool}
    (h : (machine conn).Runs (pidfdPeerStillLive fd) k calls live k') :
    (machine conn).Passes k k' ∧
      ∀ id, k'.pidfds fd = some id → live = true → ¬k'.processes.Reaped id := by
  obtain ⟨u, answer, v, rest, hbefore, ⟨rfl, hreaped⟩, rfl, hrest⟩ :=
    Around.runs_perform_bind.mp h
  obtain ⟨rfl, rfl, rfl⟩ := Around.runs_pure.mp hrest
  refine ⟨hbefore, fun id hid hlive hgone => ?_⟩
  rw [(hreaped id hid).mpr hgone] at hlive
  exact absurd hlive (by decide)

/-- **What is kept of the supplementary groups was read from the peer itself**, whatever became
of it and of its PID meanwhile: had the PID been another process's at the reading, the peer
would have been reaped before, and the pidfd said so after. -/
theorem runs_groupsForPinnedPeer {t : Table (List ℕ)} {pin : PeerPin} {groups : List String}
    (hnames : t.Names conn.pid conn.peer) (hsince : ReflTransGen Table.Step t k.processes)
    (hpin : pin ≠ .unsupported) (hfd : ∀ fd, pin = .pinned fd → k.pidfds fd = some conn.peer)
    (h : (machine conn).Runs (groupsForPinnedPeer conn.pid pin m) k calls groups k') :
    ∀ name ∈ groups, ∃ gid, m gid = some name ∧ ReadFromPeer conn calls gid := by
  cases pin with
  | unsupported => exact absurd rfl hpin
  | unpinnable =>
    obtain ⟨-, rfl, -⟩ := Around.runs_pure.mp h
    simp
  | pinned fd =>
    obtain ⟨first, read, u, rest, hread, hrest, rfl⟩ := Around.runs_bind.mp h
    obtain ⟨status, hbefore, rfl, rfl, hstatus⟩ := runs_groupsForPid hread
    obtain ⟨second, live, v, last, hlive, hlast, rfl⟩ := Around.runs_bind.mp hrest
    obtain ⟨hbetween, hnotReaped⟩ := runs_pidfdPeerStillLive hlive
    obtain ⟨rfl, rfl, rfl⟩ := Around.runs_pure.mp hlast
    intro name hname
    split at hname
    · rename_i hlive
      have hheld : k'.pidfds fd = some conn.peer := by
        rw [(passes_machine hbetween).2, (passes_machine hbefore).2, hfd fd rfl]
      have hpeer : u.processes.Names conn.pid conn.peer :=
        Table.names_of_not_reaped hnames (hsince.trans (passes_machine hbefore).1)
          (passes_machine hbetween).1 (hnotReaped _ hheld hlive)
      obtain ⟨gid, hgid, hmap⟩ := List.mem_filterMap.mp hname
      cases status with
      | none => cases hgid
      | some text =>
        obtain ⟨p, hp, htext⟩ := hstatus text rfl
        obtain ⟨q, hq, hid⟩ := hpeer
        obtain rfl := Option.some.inj (hp.symm.trans hq)
        exact ⟨gid, hmap, u, text, p, by simp, hgid, hp, hid, statusGroups_subset htext gid hgid⟩
    · cases hname

theorem runs_readGidMap (h : (machine conn).Runs readGidMap k calls m k') :
    (machine conn).Passes k k' ∧ ∀ gid name, m gid = some name → NamedBy calls gid name := by
  obtain ⟨u, content, v, rest, hbefore, rfl, rfl, hrest⟩ := Around.runs_perform_bind.mp h
  obtain ⟨rfl, rfl, rfl⟩ := Around.runs_pure.mp hrest
  refine ⟨hbefore, fun gid name hname => ?_⟩
  cases content with
  | none => cases hname
  | some content => exact ⟨k', content, by simp, hname⟩

theorem runs_peerPidfd {pin : PeerPin} (h : (machine conn).Runs peerPidfd k calls pin k') :
    ReflTransGen Table.Step k.processes k'.processes ∧ pin ≠ .unsupported ∧
      ∀ fd, pin = .pinned fd → k'.pidfds fd = some conn.peer := by
  obtain ⟨u, answer, v, rest, hbefore, hanswer, rfl, hrest⟩ := Around.runs_perform_bind.mp h
  obtain ⟨rfl, rfl, rfl⟩ := Around.runs_pure.mp hrest
  cases answer with
  | error errno =>
    obtain ⟨hne, rfl⟩ := hanswer
    simp [PeerPin.ofAnswer, PeerPin.fromError, hne, (passes_machine hbefore).1]
  | ok fd =>
    obtain rfl := hanswer
    refine ⟨(passes_machine hbefore).1, ?_, fun fd' hfd' => ?_⟩
    · simp only [PeerPin.ofAnswer]
      split <;> simp
    · simp only [PeerPin.ofAnswer] at hfd'
      split at hfd'
      · cases hfd'
      · cases hfd'
        exact Function.update_self fd _ _

theorem mem_withPrimary {groups : List String} {primary : Option String} {name : String}
    (h : name ∈ withPrimary groups primary) : name ∈ groups ∨ primary = some name := by
  unfold withPrimary at h
  split at h
  · exact .inl h
  · split at h
    · exact .inl h
    · rcases List.mem_append.mp h with h | h
      · exact .inl h
      · rw [List.mem_singleton] at h
        exact .inr (by rw [h])

/-- What is read of the peer in a part of a run is read in the run. -/
theorem ReadFromPeer.mono {calls' : History} {gid : ℕ} (h : ReadFromPeer conn calls gid)
    (hsub : calls ⊆ calls') : ReadFromPeer conn calls' gid := by
  obtain ⟨u, status, p, hmem, hrest⟩ := h
  exact ⟨u, status, p, hsub hmem, hrest⟩

theorem NamedBy.mono {calls' : History} {gid : ℕ} {name : String} (h : NamedBy calls gid name)
    (hsub : calls ⊆ calls') : NamedBy calls' gid name := by
  obtain ⟨u, content, hmem, hmap⟩ := h
  exact ⟨u, content, hsub hmem, hmap⟩

/-- What the attribution of a connection may be. -/
def Attributed (conn : Connection) (calls : History) (caller : CallerAttribution) : Prop :=
  (∃ groups, caller.role = highestRoleFromGroups groups ∧
    ∀ name ∈ groups, HeldByPeer conn calls name) ∧
  (caller.principal = .uid conn.uid ∨ caller.principal = .unattributed) ∧
  (caller.principal = .unattributed → caller.role = .observer)

theorem Attributed.mono {calls' : History} {caller : CallerAttribution}
    (h : Attributed conn calls caller) (hsub : calls ⊆ calls') : Attributed conn calls' caller := by
  obtain ⟨⟨groups, hrole, hheld⟩, hprincipal⟩ := h
  refine ⟨⟨groups, hrole, fun name hname => ?_⟩, hprincipal⟩
  obtain ⟨gid, hnamed, hgid⟩ := hheld name hname
  exact ⟨gid, hnamed.mono hsub, hgid.imp_right fun hread => hread.mono hsub⟩

theorem attributed_unattributed (conn : Connection) (calls : History) :
    Attributed conn calls .unattributed :=
  ⟨⟨[], rfl, by simp⟩, .inr rfl, fun _ => rfl⟩

theorem runs_resolvePeer {t : Table (List ℕ)} {pin : PeerPin} {cred : PeerCred}
    {caller : CallerAttribution} (hnames : t.Names conn.pid conn.peer)
    (hsince : ReflTransGen Table.Step t k.processes)
    (hpin : pin ≠ .unsupported) (hfd : ∀ fd, pin = .pinned fd → k.pidfds fd = some conn.peer)
    (hgid : cred.gid = conn.gid) (huid : cred.uid = conn.uid)
    (h : (machine conn).Runs (resolvePeer conn.pid cred pin) k calls caller k') :
    Attributed conn calls caller := by
  obtain ⟨c₁, m, u, r₁, hmap, hrest₁, rfl⟩ := Around.runs_bind.mp h
  obtain ⟨hbefore, hnamed⟩ := runs_readGidMap hmap
  obtain ⟨c₂, groups, v, r₂, hgroups, hrest₂, rfl⟩ := Around.runs_bind.mp hrest₁
  obtain ⟨c₃, overflow, w, r₃, -, hrest₃, rfl⟩ := Around.runs_bind.mp hrest₂
  obtain ⟨rfl, rfl, rfl⟩ := Around.runs_pure.mp hrest₃
  have hread := runs_groupsForPinnedPeer hnames (hsince.trans (passes_machine hbefore).1) hpin
    (fun fd heq => by rw [(passes_machine hbefore).2, hfd fd heq]) hgroups
  split
  · exact attributed_unattributed conn _
  · refine ⟨⟨_, rfl, fun name hname => ?_⟩, .inl (congrArg _ huid), fun heq => by cases heq⟩
    rcases mem_withPrimary hname with hname | hname
    · obtain ⟨gid, hgid, hpeer⟩ := hread name hname
      exact ⟨gid, (hnamed gid name hgid).mono (by simp), .inr (hpeer.mono (by simp))⟩
    · exact ⟨cred.gid, (hnamed _ name hname).mono (by simp), .inl hgid⟩

theorem PeerCred.usablePid_eq_some {cred : PeerCred} {pid : ℕ} (h : cred.usablePid = some pid) :
    ∃ n : ℤ, cred.pid = some n ∧ 0 < n ∧ n.toNat = pid := by
  rw [usablePid, Option.map_eq_some_iff] at h
  obtain ⟨n, hn, hpid⟩ := h
  obtain ⟨hcred, hpos⟩ := Option.filter_eq_some_iff.mp hn
  exact ⟨n, hcred, of_decide_eq_true hpos, hpid⟩

/-- **PID reuse never grants a role.** Whatever the processes of the machine do between the calls
of the attribution, and whichever of these fail, the role comes from groups of the process
that connected, the principal is its account or says that there is none, and then the role is
`observer`. -/
theorem no_role_by_reuse {caller : CallerAttribution}
    (hconnected : k.processes.Names conn.pid conn.peer)
    (hrun : (machine conn).Runs resolveCaller k calls caller k') :
    Attributed conn calls caller := by
  obtain ⟨c₁, pin, u, rest₁, hpidfd, hrest, rfl⟩ := Around.runs_bind.mp hrun
  obtain ⟨hsince, hpin, hfd⟩ := runs_peerPidfd hpidfd
  obtain ⟨v, cred, w, rest₂, hbefore, ⟨rfl, hcred⟩, rfl, hresolve⟩ :=
    Around.runs_perform_bind.mp hrest
  obtain ⟨hpasses, hpidfds⟩ := passes_machine hbefore
  cases cred with
  | none =>
    obtain ⟨-, rfl, -⟩ := Around.runs_pure.mp hresolve
    exact attributed_unattributed conn _
  | some cred =>
    obtain ⟨hgid, huid, hpid⟩ := hcred cred rfl
    simp only at hresolve
    split at hresolve
    · obtain ⟨-, rfl, -⟩ := Around.runs_pure.mp hresolve
      exact attributed_unattributed conn _
    · rename_i pid husable
      obtain ⟨n, hn, hpos, rfl⟩ := PeerCred.usablePid_eq_some husable
      have hsame : n.toNat = conn.pid := by
        have hn := hpid n hn hpos
        omega
      rw [hsame] at hresolve
      refine (runs_resolvePeer hconnected (hsince.trans hpasses) hpin (fun fd heq => ?_) hgid huid
        hresolve).mono (by simp)
      rw [hpidfds, hfd fd heq]

/-- A process of the group 100 alone. -/
private def beforeReuse : Table (List ℕ) := Table.empty.spawn 7 [100]

/-- It has ended, and its PID is that of a process of the group 27. -/
private def afterReuse : Table (List ℕ) :=
  ((@Table.change _ beforeReuse 7 _ rfl [100] true).reap 7).spawn 7 [27]

private def onePidfd : ℤ → Option ℕ := Function.update (fun _ => none) 5 (some 0)

/-- The PID is reused between the pin and the reading. -/
private def reuseCalls : History :=
  [(⟨beforeReuse, fun _ => none⟩, ⟨.peerPidfd, .ok (5 : ℤ)⟩),
    (⟨beforeReuse, onePidfd⟩, ⟨.peerCred, some (⟨some 7, 100, 1000⟩ : PeerCred)⟩),
    (⟨beforeReuse, onePidfd⟩,
      ⟨.readGroupFile, some "wheel:x:27:"⟩),
    (⟨afterReuse, onePidfd⟩, ⟨.readStatus 7, some "Groups:\t27 \n"⟩),
    (⟨afterReuse, onePidfd⟩, ⟨.pidfdSendSignal 5, .error esrch⟩),
    (⟨afterReuse, onePidfd⟩, ⟨.readOverflowUid, none⟩)]

private theorem passes_reuse (conn : Connection) :
    (machine conn).Passes ⟨beforeReuse, onePidfd⟩ ⟨afterReuse, onePidfd⟩ := by
  have hsteps : ReflTransGen Table.Step beforeReuse afterReuse :=
    ((ReflTransGen.single (.change _ _ _ fun _ => rfl)).tail (.reap rfl rfl)).tail (.spawn rfl _)
  exact hsteps.lift (fun t => (⟨t, onePidfd⟩ : Kernel)) fun t t' hstep => ⟨hstep, rfl⟩

private theorem reaped_reuse : afterReuse.Reaped 0 := by
  refine ⟨by decide, ?_⟩
  rintro pid ⟨p, hp, hid⟩
  simp only [afterReuse, Table.spawn, Table.reap, Table.change, beforeReuse, Table.empty,
    Function.update_apply] at hp
  split_ifs at hp
  obtain rfl := Option.some.inj hp
  exact absurd hid (by decide)

private theorem statusText_reuse : StatusText [27] "Groups:\t27 \n" := by
  refine ⟨[], by simp, .inr ⟨[], ?_⟩⟩
  decide

/-- The groups of the process that has the PID by then are dropped. -/
theorem no_role_by_reuse_reused :
    (machine ⟨0, 7, 100, 1000⟩).Runs resolveCaller ⟨beforeReuse, fun _ => none⟩ reuseCalls
      (.fromPeerUid 1000 .observer) ⟨afterReuse, onePidfd⟩ ∧
    Attributed ⟨0, 7, 100, 1000⟩ reuseCalls (.fromPeerUid 1000 .observer) := by
  have hrun : (machine ⟨0, 7, 100, 1000⟩).Runs resolveCaller ⟨beforeReuse, fun _ => none⟩ reuseCalls
      (.fromPeerUid 1000 .observer) ⟨afterReuse, onePidfd⟩ := by
    refine .call .refl rfl (.call .refl ⟨rfl, fun c hc => ?_⟩ (.call .refl rfl
      (.call (passes_reuse _) ⟨rfl, fun text htext => ?_⟩ (.call .refl ⟨rfl, fun id hid => ?_⟩
        (.call .refl rfl ?_)))))
    · cases hc
      exact ⟨rfl, rfl, fun n hn _ => (Option.some.inj hn).symm⟩
    · cases htext
      exact ⟨_, rfl, statusText_reuse⟩
    · cases hid
      exact ⟨fun _ => reaped_reuse, fun _ => rfl⟩
    · refine Around.runs_pure.mpr ⟨rfl, ?_, rfl⟩
      have hmap : gidMap "wheel:x:27:" 100 = none := by decide
      have hrole : CallerRole.observer = highestRoleFromGroups (withPrimary []
          (gidMap "wheel:x:27:" 100)) := by rw [hmap]; rfl
      exact congrArg (CallerAttribution.fromPeerUid 1000) hrole
  exact ⟨hrun, no_role_by_reuse ⟨_, rfl, rfl⟩ hrun⟩

end Runs

end Sysknife.Transport
