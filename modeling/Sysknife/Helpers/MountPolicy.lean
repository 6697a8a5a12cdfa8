import Sysknife.Helpers.EditGrammars

/-!
# What a mount is made with, and on what

`mount-edit` is to make mounts without set-user-ID programs and devices, that do not stop a
boot, and never over a protected directory.

* `mounts_hardened_iff`: the daemon and the helper add `nosuid` and `nodev` unless they find
  them, in any case and in any place. So a mount is hardened exactly when the operator's own
  list either has neither of them or has them spelled out after the last `defaults`.
* `never_shadowed_iff`: the helper compares what a mountpoint resolves to with the protected
  names, not with what these resolve to. So no protected directory is shadowed exactly when
  every protected name resolves to a path that no mountpoint may have.
-/

namespace Sysknife.MountEdit

open Text
open ActionSteps (orRaise orRaise_eq_ok matchesAll)

/-! ### Reading the options of a mount -/

/-- What `defaults` stands for in `mount(8)`. -/
def defaultOptions : List String := ["rw", "suid", "dev", "exec", "auto", "nouser", "async"]

/-- Options are read from left to right, and the last of a pair counts. -/
def inEffect (on off : String) (options : List String) : Bool :=
  (options.flatMap fun o => if o = "defaults" then defaultOptions else [o]).foldl
    (fun b o => if o = on then true else if o = off then false else b) false

/-- The pairs of options that grant and withhold privilege. -/
def privilegePairs : List (String × String) := [("nosuid", "suid"), ("nodev", "dev")]

/-- The mount has neither set-user-ID programs nor devices, and does not stop a boot. -/
def Hardened (options : String) : Prop :=
  (∀ p ∈ privilegePairs, inEffect p.1 p.2 (split ',' options) = true) ∧
    "nofail" ∈ split ',' options

/-- The list has no spelling of the option, or has it after every `defaults`. -/
def Kept (option : String) (pieces : List String) : Prop :=
  (∀ o ∈ pieces, lower o ≠ option) ∨
    ∃ front back, pieces = front ++ option :: back ∧ "defaults" ∉ back

section Effect

variable {on off : String} {l extra : List String}

theorem inEffect_concat (h : (on, off) ∈ privilegePairs) (o : String) :
    inEffect on off (l ++ [o]) =
      if o = on then true else if o = off ∨ o = "defaults" then false else inEffect on off l := by
  -- Both `suid` and `dev` are among the defaults.
  have hdefaults : ∀ b, defaultOptions.foldl
      (fun b o => if o = on then true else if o = off then false else b) b = false := by
    simp only [privilegePairs, List.mem_cons, List.not_mem_nil, or_false, Prod.mk.injEq] at h
    rcases h with ⟨rfl, rfl⟩ | ⟨rfl, rfl⟩ <;> exact fun b => rfl
  have hne : "defaults" ≠ on := by
    simp only [privilegePairs, List.mem_cons, List.not_mem_nil, or_false, Prod.mk.injEq] at h
    rcases h with ⟨rfl, rfl⟩ | ⟨rfl, rfl⟩ <;> decide
  rw [inEffect, List.flatMap_append, List.foldl_append, ← inEffect, List.flatMap_singleton]
  by_cases ho : o = "defaults"
  · rw [if_pos ho, hdefaults, if_neg (ho ▸ hne), if_pos (.inr ho)]
  · rw [if_neg ho, List.foldl_cons, List.foldl_nil]
    simp only [ho, or_false]

/-- What does not speak of the pair changes nothing. -/
theorem inEffect_append (h : (on, off) ∈ privilegePairs)
    (hextra : ∀ o ∈ extra, o ≠ on ∧ o ≠ off ∧ o ≠ "defaults") :
    inEffect on off (l ++ extra) = inEffect on off l := by
  induction extra using List.reverseRecOn with
  | nil => rw [List.append_nil]
  | append_singleton extra o ih =>
    obtain ⟨hon, hoff, hdefaults⟩ := hextra o (by simp)
    rw [← List.append_assoc, inEffect_concat h, if_neg hon, if_neg (not_or.mpr ⟨hoff, hdefaults⟩)]
    exact ih fun o' ho' => hextra o' (List.mem_append_left _ ho')

/-- Without the option that grants, the one that withholds is in effect when it stands after
every `defaults`. -/
theorem inEffect_iff (h : (on, off) ∈ privilegePairs) (hoff : off ∉ l) :
    inEffect on off l = true ↔ ∃ front back, l = front ++ on :: back ∧ "defaults" ∉ back := by
  induction l using List.reverseRecOn with
  | nil =>
    constructor
    · exact fun hfalse => by cases hfalse
    · rintro ⟨front, back, hnil, -⟩
      exact absurd hnil.symm (List.append_ne_nil_of_right_ne_nil _ (List.cons_ne_nil _ _))
  | append_singleton l o ih =>
    have hl : off ∉ l := fun hmem => hoff (List.mem_append_left _ hmem)
    have ho : o ≠ off := fun heq => hoff (heq ▸ List.mem_append_right l List.mem_cons_self)
    -- The last option either is the one that counts, or stands after it.
    have hsplit : ∀ front back, l ++ [o] = front ++ on :: back →
        (back = [] ∧ o = on) ∨ ∃ back', back = back' ++ [o] ∧ l = front ++ on :: back' := by
      intro front back heq
      rcases List.eq_nil_or_concat back with rfl | ⟨back', o', rfl⟩
      · left
        obtain ⟨-, hlast⟩ := List.append_inj' heq rfl
        exact ⟨rfl, (List.cons.inj hlast).1⟩
      · right
        rw [List.concat_eq_append, ← List.cons_append, ← List.append_assoc] at heq
        obtain ⟨hfront, hlast⟩ := List.append_inj' heq rfl
        obtain rfl := (List.cons.inj hlast).1
        exact ⟨back', by rw [List.concat_eq_append], hfront⟩
    rw [inEffect_concat h]
    by_cases hon : o = on
    · rw [if_pos hon]
      exact ⟨fun _ => ⟨l, [], by rw [hon], List.not_mem_nil⟩, fun _ => rfl⟩
    · rw [if_neg hon]
      by_cases hdefaults : o = "defaults"
      · rw [if_pos (.inr hdefaults)]
        constructor
        · exact fun hfalse => by cases hfalse
        · rintro ⟨front, back, heq, hback⟩
          rcases hsplit front back heq with ⟨-, h⟩ | ⟨back', rfl, -⟩
          · exact absurd h hon
          · exact absurd (hdefaults ▸ List.mem_append_right back' List.mem_cons_self) hback
      · rw [if_neg (not_or.mpr ⟨ho, hdefaults⟩), ih hl]
        constructor
        · rintro ⟨front, back, rfl, hback⟩
          refine ⟨front, back ++ [o], by simp, ?_⟩
          rw [List.mem_append, List.mem_singleton]
          exact not_or.mpr ⟨hback, Ne.symm hdefaults⟩
        · rintro ⟨front, back, heq, hback⟩
          rcases hsplit front back heq with ⟨-, h⟩ | ⟨back', rfl, hl'⟩
          · exact absurd h hon
          · exact ⟨front, back', hl', fun hmem => hback (List.mem_append_left _ hmem)⟩

end Effect

/-! ### The options a mount is made with -/

section Options

variable {pieces extra : List String} {requested : String}

/-- The list with an option added, unless it is there in some spelling. -/
def harden (out : List String) (required : String) : List String :=
  if out.any fun o => lower o == required then out else out ++ [required]

/-- What hardening adds. -/
def hardening (pieces : List String) : List String :=
  (if pieces.any fun o => lower o == "nosuid" then [] else ["nosuid"]) ++
    if pieces.any fun o => lower o == "nodev" then [] else ["nodev"]

theorem harden_eq_append (pieces : List String) (required : String) :
    harden pieces required =
      pieces ++ if pieces.any fun o => lower o == required then [] else [required] := by
  rw [harden]
  split_ifs
  · rw [List.append_nil]
  · rfl

theorem harden_eq (pieces : List String) :
    ["nosuid", "nodev"].foldl harden pieces = pieces ++ hardening pieces := by
  -- The option added first is no spelling of the second.
  have hother : ((harden pieces "nosuid").any fun o => lower o == "nodev") =
      pieces.any fun o => lower o == "nodev" := by
    rw [harden]
    split_ifs
    · rfl
    · rw [List.any_append]
      exact Bool.or_false _
  rw [List.foldl_cons, List.foldl_cons, List.foldl_nil, harden_eq_append (harden pieces "nosuid"),
    hother, harden_eq_append, hardening, List.append_assoc]

theorem hardening_subset : ∀ o ∈ hardening pieces, o ∈ ["nosuid", "nodev"] := by
  intro o ho
  rw [hardening] at ho
  split_ifs at ho <;> simp_all

/-- Exactly what no piece spells is added. -/
theorem mem_hardening {option : String} (h : option ∈ ["nosuid", "nodev"]) :
    option ∈ hardening pieces ↔ ∀ o ∈ pieces, lower o ≠ option := by
  have hany : ∀ r, (pieces.any fun o => lower o == r) = true ↔ ¬∀ o ∈ pieces, lower o ≠ r := by
    intro r
    rw [List.any_eq_true]
    simp
  simp only [List.mem_cons, List.not_mem_nil, or_false] at h
  rw [hardening, List.mem_append]
  -- An option is added exactly when no piece spells it, so the other one does not matter.
  rcases h with rfl | rfl
  · by_cases hn : ∀ o ∈ pieces, lower o ≠ "nosuid"
    · simp [hany]
    · rw [if_pos ((hany _).mpr hn), iff_false_right hn]
      split_ifs <;> simp
  · by_cases hn : ∀ o ∈ pieces, lower o ≠ "nodev"
    · simp [hany]
    · rw [if_pos ((hany _).mpr hn), iff_false_right hn]
      split_ifs <;> simp

/-- Hardening twice adds nothing. -/
theorem hardening_hardened (pieces extra : List String) :
    hardening (pieces ++ hardening pieces ++ extra) = [] := by
  have hnone : ∀ option ∈ ["nosuid", "nodev"],
      option ∉ hardening (pieces ++ hardening pieces ++ extra) := by
    intro option hoption hmem
    have hnew := (mem_hardening hoption).mp hmem
    have hlower : ∀ r ∈ ["nosuid", "nodev"], lower r = r := by decide
    by_cases hold : option ∈ hardening pieces
    · refine hnew option ?_ (hlower option hoption)
      exact List.mem_append_left _ (List.mem_append_right _ hold)
    · refine hold ((mem_hardening hoption).mpr fun o ho => hnew o ?_)
      exact List.mem_append_left _ (List.mem_append_left _ ho)
  refine List.eq_nil_iff_forall_not_mem.mpr fun o ho => ?_
  exact hnone o (hardening_subset o ho) ho

/-- What is split at commas and put together again is the same, if no piece is empty. -/
theorem pieces_intercalate (hne : pieces ≠ []) (hpieces : ∀ p ∈ pieces, p ≠ "" ∧ ',' ∉ p.toList) :
    commaPieces (String.intercalate "," pieces) = pieces := by
  rw [commaPieces, split_intercalate rfl hne fun p hp => (hpieces p hp).2]
  refine List.filter_eq_self.mpr fun p hp => ?_
  simpa [String.isEmpty_iff] using (hpieces p hp).1

/-- The added options. -/
def additions (pieces : List String) : List String :=
  hardening pieces ++ if (pieces ++ hardening pieces).contains "nofail" then [] else ["nofail"]

theorem additions_subset : ∀ o ∈ additions pieces, o ∈ ["nosuid", "nodev", "nofail"] := by
  intro o ho
  rcases List.mem_append.mp ho with ho | ho
  · exact List.mem_append_left ["nofail"] (hardening_subset o ho)
  · split_ifs at ho
    · cases ho
    · rw [List.mem_singleton.mp ho]
      decide

theorem nofail_mem (pieces : List String) : "nofail" ∈ pieces ++ additions pieces := by
  rw [additions, ← List.append_assoc]
  by_cases h : (pieces ++ hardening pieces).contains "nofail" = true
  · exact List.mem_append_left _ (List.contains_iff_mem.mp h)
  · rw [if_neg h]
    exact List.mem_append_right _ List.mem_cons_self

/-- **The options after both layers**: the operator's, and what was added. -/
theorem split_passed (hok : mountOptionsOk requested = true) :
    split ',' (ensureHardened (ensureNofail (hardenedMountOptions requested))) =
      commaPieces requested ++ additions (commaPieces requested) := by
  have hsub : ∀ o ∈ additions (commaPieces requested), o ∈ ["nosuid", "nodev", "nofail"] :=
    additions_subset
  have hplain : ∀ o ∈ commaPieces requested ++ additions (commaPieces requested),
      o ≠ "" ∧ ',' ∉ o.toList := by
    intro o ho
    rcases List.mem_append.mp ho with ho | ho
    · obtain ⟨hne, hcomma, -⟩ := option_spec hok (fun _ h => h) o (List.mem_append_left _ ho)
      exact ⟨hne, hcomma⟩
    · have hall : ∀ o ∈ ["nosuid", "nodev", "nofail"], o ≠ "" ∧ ',' ∉ o.toList := by decide
      exact hall o (hsub o ho)
  have hsome : commaPieces requested ++ hardening (commaPieces requested) ≠ [] := by
    intro hnil
    obtain ⟨hpieces, hhardening⟩ := List.append_eq_nil_iff.mp hnil
    rw [hpieces] at hhardening
    exact absurd hhardening (by decide)
  -- The daemon adds what is missing of the two options.
  have hdaemon : commaPieces (hardenedMountOptions requested) =
      commaPieces requested ++ hardening (commaPieces requested) := by
    have hfold : hardenedMountOptions requested = String.intercalate ","
        (["nosuid", "nodev"].foldl harden (commaPieces requested)) := rfl
    rw [hfold, harden_eq]
    refine pieces_intercalate hsome fun o ho => hplain o ?_
    rw [additions, ← List.append_assoc]
    exact List.mem_append_left _ ho
  -- The helper adds `nofail`; it finds an option there, so `defaults` is never put in.
  have hnofail : ensureNofail (hardenedMountOptions requested) = String.intercalate ","
      (commaPieces requested ++ additions (commaPieces requested)) := by
    have hunfold : ensureNofail (hardenedMountOptions requested) = String.intercalate ","
        (let opts := commaPieces (hardenedMountOptions requested)
          let opts := if opts.isEmpty then ["defaults"] else opts
          if opts.contains "nofail" then opts else opts ++ ["nofail"]) := rfl
    rw [hunfold, hdaemon]
    have hempty : (commaPieces requested ++ hardening (commaPieces requested)).isEmpty = false :=
      List.isEmpty_eq_false_iff.mpr hsome
    simp only [hempty, Bool.false_eq_true, if_false, additions]
    split_ifs
    · rw [List.append_nil]
    · rw [List.append_assoc]
  have hne : commaPieces requested ++ additions (commaPieces requested) ≠ [] :=
    List.ne_nil_of_mem (nofail_mem _)
  -- The helper hardens again and finds nothing to add.
  have hagain : ensureHardened (ensureNofail (hardenedMountOptions requested)) =
      String.intercalate "," (commaPieces requested ++ additions (commaPieces requested)) := by
    have hunfold : ensureHardened (ensureNofail (hardenedMountOptions requested)) =
        String.intercalate "," (["nosuid", "nodev"].foldl harden
          (commaPieces (ensureNofail (hardenedMountOptions requested)))) := rfl
    rw [hunfold, hnofail, pieces_intercalate hne hplain, harden_eq, additions, ← List.append_assoc,
      hardening_hardened, List.append_nil]
  rw [hagain, split_intercalate rfl hne fun p hp => (hplain p hp).2]

/-- Each of the two options is in effect when it is kept. -/
theorem inEffect_passed (hok : mountOptionsOk requested = true) {on off : String}
    (h : (on, off) ∈ privilegePairs) :
    inEffect on off (commaPieces requested ++ additions (commaPieces requested)) = true ↔
      Kept on (commaPieces requested) := by
  have hon : on ∈ ["nosuid", "nodev"] := by
    have hall : ∀ p ∈ privilegePairs, p.1 ∈ ["nosuid", "nodev"] := by decide
    exact hall _ h
  have hforeign : ∀ o ∈ ["nosuid", "nodev", "nofail"], o ≠ off ∧ o ≠ "defaults" := by
    have hall : ∀ p ∈ privilegePairs, ∀ o ∈ ["nosuid", "nodev", "nofail"],
        o ≠ p.2 ∧ o ≠ "defaults" := by decide
    exact hall _ h
  have hoff : off ∉ commaPieces requested := by
    intro hmem
    obtain ⟨-, -, -, hdeny⟩ := option_spec hok (fun _ h => h) off (List.mem_append_left _ hmem)
    have hall : ∀ p ∈ privilegePairs, denyMountOptions.contains (lower p.2) = true := by decide
    rw [hall _ h] at hdeny
    cases hdeny
  have hadditions : ∀ o ∈ additions (commaPieces requested), o ≠ off ∧ o ≠ "defaults" := fun o ho =>
    hforeign o (additions_subset o ho)
  have hmem : on ∈ additions (commaPieces requested) ↔
      ∀ o ∈ commaPieces requested, lower o ≠ on := by
    rw [← mem_hardening hon, additions, List.mem_append, or_iff_left]
    have hne : on ≠ "nofail" := by
      rintro rfl
      exact absurd hon (by decide)
    split_ifs
    · exact List.not_mem_nil
    · exact fun hmem => hne (List.mem_singleton.mp hmem)
  by_cases hnew : on ∈ additions (commaPieces requested)
  · -- it was added, and nothing after it speaks of it
    obtain ⟨front, back, heq⟩ := List.append_of_mem hnew
    have hback : ∀ o ∈ back, o ≠ off ∧ o ≠ "defaults" := fun o ho =>
      hadditions o (heq ▸ List.mem_append_right front (List.mem_cons_of_mem _ ho))
    have hall : off ∉ commaPieces requested ++ additions (commaPieces requested) := by
      rw [List.mem_append]
      exact not_or.mpr ⟨hoff, fun hmem => (hadditions off hmem).1 rfl⟩
    rw [inEffect_iff h hall]
    refine ⟨fun _ => .inl (hmem.mp hnew), fun _ => ?_⟩
    refine ⟨commaPieces requested ++ front, back, by rw [heq, List.append_assoc],
      fun hdefaults => ?_⟩
    exact (hback _ hdefaults).2 rfl
  · rw [inEffect_append h fun o ho => ⟨fun heq => hnew (heq ▸ ho), hadditions o ho⟩,
      inEffect_iff h hoff, Kept, or_iff_right (mt hmem.mpr hnew)]

end Options

/-- An accepted mount is made with the options that were given, and those the helper adds. -/
theorem opMount_options {paths : Paths} {device mountpoint fstype : String}
    {options : Option String} {request : Request}
    (h : opMount paths device mountpoint fstype options = .ok request) :
    request = .mount device mountpoint fstype
      (ensureHardened (ensureNofail (options.getD "defaults"))) := by
  simp only [opMount, ite_error_eq_ok_iff] at h
  obtain ⟨-, -, -, -, -, h⟩ := h
  obtain ⟨_, -, h⟩ := exists_of_bind_eq_ok h
  exact (Except.ok.inj h).symm

/-- **Mounts are hardened exactly when the operator's own options leave them so**: each of `nosuid`
and `nodev` is missing in every spelling, or stands after every `defaults`. Without options of
the operator they always are. -/
theorem mounts_hardened_iff (paths : Paths) (device mountpoint fstype passed : String)
    (requested options : Option String)
    (hdaemon : (requested.mapM fun s => validatedMountOptions s "options") = .ok options)
    (hmount : opMount paths device mountpoint fstype options =
      .ok (.mount device mountpoint fstype passed)) :
    Hardened passed ↔
      ∀ s ∈ requested, Kept "nosuid" (commaPieces s) ∧ Kept "nodev" (commaPieces s) := by
  obtain ⟨-, -, -, hpassed⟩ := Request.mount.inj (opMount_options hmount)
  cases requested with
  | none =>
    obtain rfl := Except.ok.inj hdaemon
    have hdefaults : Hardened (ensureHardened (ensureNofail "defaults")) := by
      refine ⟨?_, ?_⟩ <;> decide
    rw [hpassed]
    exact iff_of_true hdefaults fun s hs => by cases hs
  | some s =>
    have hsome : ∃ hardened, validatedMountOptions s "options" = .ok hardened ∧
        options = some hardened := by
      cases hvalid : validatedMountOptions s "options" with
      | error e =>
        rw [Option.mapM_some, hvalid] at hdaemon
        cases hdaemon
      | ok hardened =>
        rw [Option.mapM_some, hvalid] at hdaemon
        exact ⟨hardened, rfl, (Except.ok.inj hdaemon).symm⟩
    obtain ⟨hardened, hvalid, rfl⟩ := hsome
    have hok : mountOptionsOk s = true ∧ hardened = hardenedMountOptions s := by
      rw [validatedMountOptions] at hvalid
      cases hchecked : checked (mountOptionsOk s) s "options" with
      | error e =>
        rw [hchecked] at hvalid
        cases hvalid
      | ok t =>
        obtain ⟨hok, rfl⟩ := checked_eq_ok.mp hchecked
        rw [hchecked] at hvalid
        exact ⟨hok, (Except.ok.inj hvalid).symm⟩
    obtain ⟨hok, rfl⟩ := hok
    rw [hpassed, Option.getD_some, Hardened, split_passed hok,
      and_iff_left (nofail_mem (commaPieces s))]
    constructor
    · intro hboth t ht
      obtain rfl := Option.mem_some.mp ht
      exact ⟨(inEffect_passed hok (by decide)).mp (hboth ("nosuid", "suid") (by decide)),
        (inEffect_passed hok (by decide)).mp (hboth ("nodev", "dev") (by decide))⟩
    · intro hkept
      obtain ⟨hnosuid, hnodev⟩ := hkept s rfl
      intro p hp
      simp only [privilegePairs, List.mem_cons, List.not_mem_nil, or_false] at hp
      rcases hp with rfl | rfl
      · exact (inEffect_passed hok (by decide)).mpr hnosuid
      · exact (inEffect_passed hok (by decide)).mpr hnodev

theorem mounts_hardened_defaults :
    Hardened "nodev,defaults,nosuid,nofail" ↔
      ∀ s ∈ some "nodev,defaults", Kept "nosuid" (commaPieces s) ∧ Kept "nodev" (commaPieces s) :=
  mounts_hardened_iff ⟨id, fun _ => false⟩ "/dev/sdb1" "/mnt/usb" "ext4" _ (some "nodev,defaults")
    (some "nodev,defaults,nosuid") rfl rfl

/-- A list that says `defaults` last takes both options back. -/
theorem defaults_unharden :
    ¬∀ (paths : Paths) (device mountpoint fstype passed : String)
      (requested options : Option String),
      (requested.mapM fun s => validatedMountOptions s "options") = .ok options →
      opMount paths device mountpoint fstype options =
        .ok (.mount device mountpoint fstype passed) → Hardened passed := by
  intro h
  have hpassed := h ⟨id, fun _ => false⟩ "/dev/sdb1" "/mnt/usb" "ext4"
    "nosuid,nodev,defaults,nofail" (some "nosuid,nodev,defaults") (some "nosuid,nodev,defaults")
    rfl rfl
  exact absurd (hpassed.1 ("nosuid", "suid") (by decide)) (by decide)

/-! ### What a mountpoint resolves to -/

section Shadowed

variable {paths : Paths}

/-- No mount is accepted on what a protected name resolves to. -/
def NeverShadowed (paths : Paths) : Prop :=
  ∀ (device mountpoint fstype : String) (options : Option String) (request : Request),
    opMount paths device mountpoint fstype options = .ok request →
      ∀ entry ∈ criticalMountpoints, paths.realpath mountpoint ≠ paths.realpath entry

/-- A path with nothing left to resolve in it. -/
def Resolved (paths : Paths) (path : String) : Prop :=
  paths.realpath path = path ∧ paths.islink path = false ∧ normpath path = path

theorem opMount_resolves {device mountpoint fstype : String} {options : Option String}
    {request : Request} (h : opMount paths device mountpoint fstype options = .ok request) :
    validMountpoint (paths.realpath mountpoint) = true := by
  simp only [opMount, ite_error_eq_ok_iff] at h
  obtain ⟨-, -, -, -, -, h⟩ := h
  obtain ⟨u, hsafe, -⟩ := exists_of_bind_eq_ok h
  rw [mountpointSafe, ite_error_eq_ok_iff, Bool.not_eq_true', Bool.not_eq_false] at hsafe
  exact hsafe.1

/-- Any resolved path that may be a mountpoint is accepted as one. -/
theorem opMount_resolved {path : String} (hpath : Resolved paths path)
    (hvalid : validMountpoint path = true) :
    ∃ request, opMount paths "/dev/sdb1" path "ext4" none = .ok request := by
  obtain ⟨hreal, hlink, hnorm⟩ := hpath
  have hsafe : mountpointSafe paths path = .ok () := by
    rw [mountpointSafe, hreal, hvalid, hlink, hnorm]
    simp [orRaise]
  refine ⟨.mount "/dev/sdb1" path "ext4" (ensureHardened (ensureNofail "defaults")), ?_⟩
  simp only [opMount, ite_error_eq_ok_iff, hvalid, Option.getD_none]
  refine ⟨by decide, by decide, by decide, by decide, by decide, ?_⟩
  rw [hsafe]
  rfl

/-- **Nothing is shadowed exactly when every protected name resolves to a path that no mountpoint
may have**, on a host whose resolved paths have nothing left to resolve. That this is enough
holds on any host. -/
theorem never_shadowed_iff (paths : Paths) :
    ((∀ entry ∈ criticalMountpoints, validMountpoint (paths.realpath entry) = false) →
        NeverShadowed paths) ∧
      ((∀ path, Resolved paths (paths.realpath path)) → NeverShadowed paths →
        ∀ entry ∈ criticalMountpoints, validMountpoint (paths.realpath entry) = false) := by
  constructor
  · intro hentries device mountpoint fstype options request h entry hentry heq
    have hvalid := opMount_resolves h
    rw [heq, hentries entry hentry] at hvalid
    cases hvalid
  · intro hresolved hnever entry hentry
    -- What a protected name resolves to is then a mountpoint that is accepted itself.
    by_contra hvalid
    rw [Bool.not_eq_false] at hvalid
    obtain ⟨request, hmount⟩ := opMount_resolved (hresolved entry) hvalid
    exact hnever _ _ _ _ _ hmount entry hentry (hresolved entry).1

theorem never_shadowed_plain : NeverShadowed ⟨id, fun _ => false⟩ :=
  (never_shadowed_iff ⟨id, fun _ => false⟩).1 (by decide)

/-- Where `/bin` is a link to `/usr/bin`, a mount on `/usr/bin` is accepted. -/
theorem merged_usr_shadowed :
    ¬∀ paths : Paths, (∀ path, paths.realpath (paths.realpath path) = paths.realpath path) →
      NeverShadowed paths := by
  intro h
  have hmerged := h ⟨fun path => if path = "/bin" then "/usr/bin" else path, (· == "/bin")⟩
    fun path => by
      by_cases hbin : path = "/bin"
      · rw [hbin]
        rfl
      · simp only [if_neg hbin]
  exact hmerged "/dev/sdb1" "/usr/bin" "ext4" none
    (.mount "/dev/sdb1" "/usr/bin" "ext4" "defaults,nofail,nosuid,nodev") rfl "/bin" (by decide) rfl

end Shadowed

end Sysknife.MountEdit
