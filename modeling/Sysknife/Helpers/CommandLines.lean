import Sysknife.Actions.Build
import Sysknife.Helpers.EditGrammars

/-!
# What the file-editing helpers make of the daemon's command lines

An option written out with its value, in the daemon's order, reaches the operation it names
(`MountEdit.main_mount` and its kin), as long as the value does not look like an option itself.
-/

namespace Sysknife

open Text

/-- A text that stands for itself on a command line. -/
def IsValue (v : String) : Prop := startsWith "-" v = false ∧ v.isEmpty = false

theorem given_eq_some {args : List (String × String)} (flag : String) {v : String}
    (h : args.lookup flag = some v) (hv : IsValue v) : given args flag = some v := by
  rw [given, h, Option.filter_some, hv.2]
  rfl

theorem anyInt_toString (n : ℕ) : anyInt (toString n) = true := by
  rw [anyInt, intOf_toString]
  rfl

theorem intArg_eq {args : List (String × String)} (flag : String) {n : ℕ}
    (h : args.lookup flag = some (toString n)) : (args.lookup flag).bind intOf = some (n : ℤ) := by
  rw [h, Option.bind_some, intOf_toString]

theorem positiveArg_eq {args : List (String × String)} (flag : String) {n : ℕ}
    (h : args.lookup flag = some (toString n)) (hn : n ≠ 0) :
    ((args.lookup flag).bind intOf).filter (· != 0) = some (n : ℤ) := by
  rw [intArg_eq flag h, Option.filter_some]
  simp [hn]

theorem isValue_of_head {s : String} {c : Char} (h : s.toList.head? = some c) (hc : c ≠ '-') :
    IsValue s := by
  constructor
  · rw [← Bool.not_eq_true, startsWith_char (c := '-') rfl, h]
    simpa using hc
  · rw [← Bool.not_eq_true, isEmpty_iff_toList]
    intro hnil
    rw [hnil] at h
    cases h

namespace MountEdit

variable {paths : Paths} {d m f o : String}

theorem main_mount (hd : IsValue d) (hm : IsValue m) (hf : IsValue f) :
    main paths ["--op", "mount", "--device", d, "--mountpoint", m, "--fstype", f] =
      opMount paths d m f none := by
  have hparse : parser.parseArgs
      ["--op", "mount", "--device", d, "--mountpoint", m, "--fstype", f] =
        .ok [("--fstype", f), ("--mountpoint", m), ("--device", d), ("--op", "mount")] := by
    rw [Parser.parseArgs, Parser.parse_value rfl rfl (by decide) (by decide),
      Parser.parse_value rfl rfl hd.1 rfl, Parser.parse_value rfl rfl hm.1 rfl,
      Parser.parse_value rfl rfl hf.1 rfl, Parser.parse_nil]
  rw [main, hparse, ok_bind]
  rw [given_eq_some "--device" rfl hd, given_eq_some "--mountpoint" rfl hm,
    given_eq_some "--fstype" rfl hf]
  rfl

theorem main_mount_options (hd : IsValue d) (hm : IsValue m) (hf : IsValue f) (ho : IsValue o) :
    main paths ["--op", "mount", "--device", d, "--mountpoint", m, "--fstype", f, "--options", o] =
      opMount paths d m f (some o) := by
  have hparse : parser.parseArgs
      ["--op", "mount", "--device", d, "--mountpoint", m, "--fstype", f, "--options", o] =
        .ok [("--options", o), ("--fstype", f), ("--mountpoint", m), ("--device", d),
          ("--op", "mount")] := by
    rw [Parser.parseArgs, Parser.parse_value rfl rfl (by decide) (by decide),
      Parser.parse_value rfl rfl hd.1 rfl, Parser.parse_value rfl rfl hm.1 rfl,
      Parser.parse_value rfl rfl hf.1 rfl, Parser.parse_value rfl rfl ho.1 rfl, Parser.parse_nil]
  rw [main, hparse, ok_bind]
  rw [given_eq_some "--device" rfl hd, given_eq_some "--mountpoint" rfl hm,
    given_eq_some "--fstype" rfl hf, given_eq_some "--options" rfl ho]
  rfl

/-- Options that look like an option are nobody's value. -/
theorem main_mount_refused (hd : IsValue d) (hm : IsValue m) (hf : IsValue f)
    (ho : parser.isOption o = true) :
    main paths ["--op", "mount", "--device", d, "--mountpoint", m, "--fstype", f, "--options", o] =
      .error "usage" := by
  have hparse : parser.parseArgs
      ["--op", "mount", "--device", d, "--mountpoint", m, "--fstype", f, "--options", o] =
        .error "usage" := by
    rw [Parser.parseArgs, Parser.parse_value rfl rfl (by decide) (by decide),
      Parser.parse_value rfl rfl hd.1 rfl, Parser.parse_value rfl rfl hm.1 rfl,
      Parser.parse_value rfl rfl hf.1 rfl, Parser.parse, ho]
    rfl
  rw [main, hparse]
  rfl

theorem main_unmount (hm : IsValue m) :
    main paths ["--op", "unmount", "--mountpoint", m] = opUnmount paths m := by
  have hparse : parser.parseArgs ["--op", "unmount", "--mountpoint", m] =
      .ok [("--mountpoint", m), ("--op", "unmount")] := by
    rw [Parser.parseArgs, Parser.parse_value rfl rfl (by decide) (by decide),
      Parser.parse_value rfl rfl hm.1 rfl, Parser.parse_nil]
  rw [main, hparse, ok_bind, given_eq_some "--mountpoint" rfl hm]
  rfl

theorem main_addswap {n : ℕ} (hf : IsValue f) (hn : n ≠ 0) :
    main paths ["--op", "addswap", "--file", f, "--size-mb", toString n] =
      opAddswap paths f n := by
  have hparse : parser.parseArgs ["--op", "addswap", "--file", f, "--size-mb", toString n] =
      .ok [("--size-mb", toString n), ("--file", f), ("--op", "addswap")] := by
    rw [Parser.parseArgs, Parser.parse_value rfl rfl (by decide) (by decide),
      Parser.parse_value rfl rfl hf.1 rfl,
      Parser.parse_value rfl rfl (startsWith_toString n) (anyInt_toString n),
      Parser.parse_nil]
  rw [main, hparse, ok_bind, given_eq_some "--file" rfl hf,
    positiveArg_eq "--size-mb" rfl hn]
  rfl

theorem main_rmswap (hf : IsValue f) :
    main paths ["--op", "rmswap", "--file", f] = opRmswap paths f := by
  have hparse : parser.parseArgs ["--op", "rmswap", "--file", f] =
      .ok [("--file", f), ("--op", "rmswap")] := by
    rw [Parser.parseArgs, Parser.parse_value rfl rfl (by decide) (by decide),
      Parser.parse_value rfl rfl hf.1 rfl, Parser.parse_nil]
  rw [main, hparse, ok_bind, given_eq_some "--file" rfl hf]
  rfl

end MountEdit

namespace SudoersEdit

variable {name user commands runas : String}

theorem main_list : main ["--op", "list"] = .ok .list := by
  have hparse : parser.parseArgs ["--op", "list"] = .ok [("--op", "list")] := by
    rw [Parser.parseArgs, Parser.parse_value rfl rfl (by decide) (by decide), Parser.parse_nil]
  rw [main, hparse]
  rfl

theorem main_revoke (hname : IsValue name) :
    main ["--op", "revoke", "--name", name] = opRevoke name := by
  have hparse : parser.parseArgs ["--op", "revoke", "--name", name] =
      .ok [("--name", name), ("--op", "revoke")] := by
    rw [Parser.parseArgs, Parser.parse_value rfl rfl (by decide) (by decide),
      Parser.parse_value rfl rfl hname.1 rfl, Parser.parse_nil]
  rw [main, hparse, ok_bind, given_eq_some "--name" rfl hname]
  rfl

theorem main_grant {runas : Option String} (nopasswd : Bool) (hname : IsValue name)
    (huser : IsValue user) (hcommands : IsValue commands) (hrunas : ∀ r ∈ runas, IsValue r) :
    main (["--op", "grant", "--name", name, "--user", user, "--commands", commands] ++
      flagged "--runas" runas ++ if nopasswd then ["--nopasswd"] else []) =
        opGrant name user commands runas nopasswd := by
  have hparse : parser.parseArgs (["--op", "grant", "--name", name, "--user", user, "--commands",
      commands] ++ flagged "--runas" runas ++ if nopasswd then ["--nopasswd"] else []) =
        .ok ((if nopasswd then [("--nopasswd", "")] else []) ++
          (runas.map fun r => ("--runas", r)).toList ++
          [("--commands", commands), ("--user", user), ("--name", name), ("--op", "grant")]) := by
    have hswitch : ∀ args, parser.parse args (if nopasswd then ["--nopasswd"] else []) =
        .ok ((if nopasswd then [("--nopasswd", "")] else []) ++ args) := by
      intro args
      cases nopasswd with
      | false => exact Parser.parse_nil
      | true => exact Parser.parse_switch rfl
    rw [Parser.parseArgs]
    cases runas with
    | none =>
      simp only [flagged, List.cons_append, List.nil_append]
      rw [Parser.parse_value rfl rfl (by decide) (by decide),
        Parser.parse_value rfl rfl hname.1 rfl, Parser.parse_value rfl rfl huser.1 rfl,
        Parser.parse_value rfl rfl hcommands.1 rfl, hswitch]
      simp
    | some r =>
      simp only [flagged, List.cons_append, List.nil_append]
      rw [Parser.parse_value rfl rfl (by decide) (by decide),
        Parser.parse_value rfl rfl hname.1 rfl, Parser.parse_value rfl rfl huser.1 rfl,
        Parser.parse_value rfl rfl hcommands.1 rfl,
        Parser.parse_value rfl rfl (hrunas r rfl).1 rfl, hswitch]
      simp
  rw [main, hparse, ok_bind]
  cases runas with
  | none =>
    cases nopasswd <;>
      rw [given_eq_some "--name" rfl hname, given_eq_some "--user" rfl huser,
        given_eq_some "--commands" rfl hcommands] <;>
      rfl
  | some r =>
    cases nopasswd <;>
      rw [given_eq_some "--name" rfl hname, given_eq_some "--user" rfl huser,
        given_eq_some "--commands" rfl hcommands,
        given_eq_some "--runas" rfl (hrunas r rfl)] <;>
      rfl

end SudoersEdit

namespace LogEdit

variable {name path frequency host protocol : String}

theorem main_rmLogrotate (hname : IsValue name) :
    main ["--op", "rm-logrotate", "--name", name] = opRmLogrotate name := by
  have hparse : parser.parseArgs ["--op", "rm-logrotate", "--name", name] =
      .ok [("--name", name), ("--op", "rm-logrotate")] := by
    rw [Parser.parseArgs, Parser.parse_value rfl rfl (by decide) (by decide),
      Parser.parse_value rfl rfl hname.1 rfl, Parser.parse_nil]
  rw [main, hparse, ok_bind, given_eq_some "--name" rfl hname]
  rfl

theorem main_rmForward : main ["--op", "rm-forward"] = .ok .rmForward := by
  have hparse : parser.parseArgs ["--op", "rm-forward"] = .ok [("--op", "rm-forward")] := by
    rw [Parser.parseArgs, Parser.parse_value rfl rfl (by decide) (by decide), Parser.parse_nil]
  rw [main, hparse]
  rfl

theorem main_rsyslogForward {port : ℕ} (hhost : IsValue host) (hport : port ≠ 0)
    (hprotocol : IsValue protocol) :
    main ["--op", "rsyslog-forward", "--host", host, "--port", toString port, "--protocol",
      protocol] = opRsyslogForward host port protocol := by
  have hparse : parser.parseArgs ["--op", "rsyslog-forward", "--host", host, "--port",
      toString port, "--protocol", protocol] =
        .ok [("--protocol", protocol), ("--port", toString port), ("--host", host),
          ("--op", "rsyslog-forward")] := by
    rw [Parser.parseArgs, Parser.parse_value rfl rfl (by decide) (by decide),
      Parser.parse_value rfl rfl hhost.1 rfl,
      Parser.parse_value rfl rfl (startsWith_toString port) (anyInt_toString port),
      Parser.parse_value rfl rfl hprotocol.1 rfl, Parser.parse_nil]
  rw [main, hparse, ok_bind, given_eq_some "--host" rfl hhost,
    given_eq_some "--protocol" rfl hprotocol,
    positiveArg_eq "--port" rfl hport]
  rfl

theorem main_logrotate (rotate : ℕ) (compress : Bool) (hname : IsValue name) (hpath : IsValue path)
    (hfrequency : IsValue frequency) :
    main (["--op", "logrotate", "--name", name, "--path", path, "--frequency", frequency,
      "--rotate", toString rotate] ++ if compress then ["--compress"] else []) =
        opLogrotate name path frequency rotate compress := by
  have hparse : parser.parseArgs (["--op", "logrotate", "--name", name, "--path", path,
      "--frequency", frequency, "--rotate", toString rotate] ++
        if compress then ["--compress"] else []) =
      .ok ((if compress then [("--compress", "")] else []) ++ [("--rotate", toString rotate),
        ("--frequency", frequency), ("--path", path), ("--name", name),
        ("--op", "logrotate")]) := by
    rw [Parser.parseArgs]
    simp only [List.cons_append, List.nil_append]
    rw [Parser.parse_value rfl rfl (by decide) (by decide),
      Parser.parse_value rfl rfl hname.1 rfl, Parser.parse_value rfl rfl hpath.1 rfl,
      Parser.parse_value rfl rfl hfrequency.1 rfl,
      Parser.parse_value rfl rfl (startsWith_toString rotate) (anyInt_toString rotate)]
    cases compress with
    | false => exact Parser.parse_nil
    | true => exact Parser.parse_switch rfl
  cases compress <;>
    rw [main, hparse, ok_bind, given_eq_some "--name" rfl hname,
      given_eq_some "--path" rfl hpath,
      given_eq_some "--frequency" rfl hfrequency, intArg_eq "--rotate" rfl] <;>
    rfl

end LogEdit

end Sysknife
