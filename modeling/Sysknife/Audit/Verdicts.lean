import Mathlib.Data.List.Induction
import Sysknife.Audit.Walk

/-!
# What the walk concludes

`walkChain` carries four running variables through a loop with two ways out. Its verdict is a
function of the rows: a row **breaks** the chain if it does not point at the row before it or if
its own check says so (`Breaks`), and

* the walk reports a break exactly if some row breaks, and then it reports the first one;
* it cannot verify exactly if no row breaks and the check of some row is inconclusive;
* it finds the chain intact exactly if every row is verified and points at the row before it.

While no row has broken, the variables are counts over the rows walked so far (`walkChain_append`);
all of the above follows from that.
-/

namespace Sysknife.Audit

variable {R : Type} [ChainLink R] (check : R → RowCheck)

/-! ### Breaks -/

/-- The row, coming after the rows `pre`, points elsewhere or fails its check. -/
def Breaks (pre : List R) (row : R) : Prop :=
  ChainLink.prevChainHash row ≠ tipOf pre ∨ ∃ expected actual, check row = .broken expected actual

/-- No row breaks. -/
def Unbroken (rows : List R) : Prop :=
  ∀ pre row post, rows = pre ++ row :: post → ¬ Breaks check pre row

/-- What the walk says of a row that breaks. A link is looked at first. -/
def breakTexts (pre : List R) (row : R) : String × String :=
  if ChainLink.prevChainHash row ≠ tipOf pre then
    ("prev_chain_hash=" ++ tipOf pre, "prev_chain_hash=" ++ ChainLink.prevChainHash row)
  else
    match check row with
    | .broken expected actual => (expected, actual)
    | _ => ("", "")

def isVerified (row : R) : Bool :=
  match check row with
  | .verified => true
  | _ => false

/-- The reason a check was inconclusive, if it was. -/
def unverifiableReason (row : R) : Option String :=
  match check row with
  | .unverifiable reason => some reason
  | _ => none

variable {check}

omit [ChainLink R] in
theorem isVerified_iff {row : R} : isVerified check row = true ↔ check row = .verified := by
  unfold isVerified
  cases check row with
  | verified => simp
  | unverifiable reason => simp
  | broken expected actual => simp

omit [ChainLink R] in
theorem unverifiableReason_eq_some {row : R} {reason : String} :
    unverifiableReason check row = some reason ↔ check row = .unverifiable reason := by
  unfold unverifiableReason
  cases check row with
  | verified => simp
  | unverifiable reason' => simp
  | broken expected actual => simp

theorem unbroken_nil : Unbroken check [] := by
  intro pre row post h
  simp at h

/-- One row more breaks nothing if it does not break itself. -/
theorem unbroken_concat {rows : List R} {row : R} :
    Unbroken check (rows ++ [row]) ↔ Unbroken check rows ∧ ¬ Breaks check rows row := by
  constructor
  · intro h
    refine ⟨fun pre r post hrows => h pre r (post ++ [row]) ?_, h rows row [] rfl⟩
    rw [hrows, List.append_assoc, List.cons_append]
  · rintro ⟨hrows, hrow⟩ pre r post hsplit
    rcases List.eq_nil_or_concat post with rfl | ⟨post, last, rfl⟩
    · obtain ⟨rfl, hr⟩ := List.append_inj' hsplit rfl
      obtain rfl := List.singleton_inj.mp hr
      exact hrow
    · have hinit : rows ++ [row] = (pre ++ r :: post) ++ [last] := by simpa using hsplit
      exact hrows pre r post (List.append_inj' hinit rfl).1

/-- Either no row breaks, or there is a first one that does. -/
theorem unbroken_or_exists_first (rows : List R) : Unbroken check rows ∨
    ∃ pre row post, rows = pre ++ row :: post ∧ Unbroken check pre ∧ Breaks check pre row := by
  induction rows using List.reverseRecOn with
  | nil => exact .inl unbroken_nil
  | append_singleton rows row ih =>
    rcases ih with hrows | ⟨pre, r, post, rfl, hpre, hr⟩
    · by_cases hrow : Breaks check rows row
      · exact .inr ⟨rows, row, [], rfl, hrows, hrow⟩
      · exact .inl (unbroken_concat.mpr ⟨hrows, hrow⟩)
    · exact .inr ⟨pre, r, post ++ [row], by simp, hpre, hr⟩

/-! ### The walk along rows that do not break -/

/-- **The running variables.** After an unbroken beginning, the walk stands at its tip, with the
number of verified rows, the first reason for doubt and the number of doubtful rows. -/
theorem walkChain_append {pre : List R} (h : Unbroken check pre) (rest : List R) :
    walkChain check (pre ++ rest) =
      walkFrom check (tipOf pre) (pre.countP (isVerified check))
        (pre.findSome? (unverifiableReason check))
        (pre.countP fun row => (unverifiableReason check row).isSome) rest := by
  induction pre using List.reverseRecOn generalizing rest with
  | nil => rfl
  | append_singleton pre row ih =>
    obtain ⟨hpre, hrow⟩ := unbroken_concat.mp h
    have hlink : ChainLink.prevChainHash row = tipOf pre :=
      not_not.mp fun hne => hrow (.inl hne)
    rw [List.append_assoc, List.singleton_append, ih hpre, walkFrom,
      if_neg (not_not.mpr hlink), tipOf_concat, List.countP_append, List.findSome?_append,
      List.countP_append]
    cases hcheck : check row with
    | verified =>
      have hverified : isVerified check row = true := isVerified_iff.mpr hcheck
      have hreason : unverifiableReason check row = none := by rw [unverifiableReason, hcheck]
      simp [hverified, hreason]
    | unverifiable reason =>
      have hverified : isVerified check row = false := by rw [isVerified, hcheck]
      have hreason : unverifiableReason check row = some reason :=
        unverifiableReason_eq_some.mpr hcheck
      have hfirst : (pre.findSome? (unverifiableReason check)).or (some reason) =
          some ((pre.findSome? (unverifiableReason check)).getD reason) := by
        cases pre.findSome? (unverifiableReason check) with
        | none => rfl
        | some first => rfl
      simp [hverified, hreason, hfirst]
    | broken expected actual => exact absurd (.inr ⟨expected, actual, hcheck⟩) hrow

/-- The walk ends at a row that breaks, whatever follows. -/
theorem walkChain_of_breaks {pre : List R} {row : R} (hpre : Unbroken check pre)
    (hrow : Breaks check pre row) (post : List R) :
    walkChain check (pre ++ row :: post) =
      .broken (pre.countP (isVerified check)) (ChainLink.seq row) (ChainLink.transactionId row)
        (breakTexts check pre row).1 (breakTexts check pre row).2 := by
  rw [walkChain_append hpre, walkFrom, breakTexts]
  by_cases hlink : ChainLink.prevChainHash row ≠ tipOf pre
  · rw [if_pos hlink, if_pos hlink]
  · rw [if_neg hlink, if_neg hlink]
    obtain ⟨expected, actual, hcheck⟩ := hrow.resolve_left hlink
    rw [hcheck]

/-- The walk of unbroken rows ends in doubt or in confidence. -/
theorem walkChain_of_unbroken {rows : List R} (h : Unbroken check rows) :
    walkChain check rows = walkFrom check (tipOf rows) (rows.countP (isVerified check))
      (rows.findSome? (unverifiableReason check))
      (rows.countP fun row => (unverifiableReason check row).isSome) [] := by
  have hwalk := walkChain_append h []
  rwa [List.append_nil] at hwalk

/-- Unbroken rows without a doubtful one are all verified. -/
theorem isVerified_of_unbroken {rows : List R} (h : Unbroken check rows)
    (hnone : rows.findSome? (unverifiableReason check) = none) {row : R} (hrow : row ∈ rows) :
    isVerified check row = true := by
  obtain ⟨pre, post, rfl⟩ := List.append_of_mem hrow
  have hreason : unverifiableReason check row = none :=
    List.findSome?_eq_none_iff.mp hnone row hrow
  cases hcheck : check row with
  | verified => exact isVerified_iff.mpr hcheck
  | unverifiable reason =>
    rw [unverifiableReason_eq_some.mpr hcheck] at hreason
    cases hreason
  | broken expected actual =>
    exact absurd (.inr ⟨expected, actual, hcheck⟩) (h pre row post rfl)

/-! ### The three verdicts -/

theorem intact_of_unbroken {rows : List R} (h : Unbroken check rows)
    (hnone : rows.findSome? (unverifiableReason check) = none) :
    walkChain check rows = .intact rows.length := by
  have hall : rows.countP (isVerified check) = rows.length :=
    List.countP_eq_length.mpr fun row hrow => isVerified_of_unbroken h hnone hrow
  rw [walkChain_of_unbroken h, hnone, walkFrom, hall]

theorem cannotVerify_of_unbroken {rows : List R} {first : String} (h : Unbroken check rows)
    (hsome : rows.findSome? (unverifiableReason check) = some first) :
    ∃ reason, walkChain check rows = .cannotVerify reason := by
  rw [walkChain_of_unbroken h, hsome]
  exact ⟨_, rfl⟩

/-- **The verdict of the walk.** A break is reported exactly if some row breaks, and it is the
first, with the number of verified rows before it; a doubtful row never hides a later break. -/
theorem walkChain_verdict (check : R → RowCheck) (rows : List R) :
    ((∃ n seq transactionId expected actual,
        walkChain check rows = .broken n seq transactionId expected actual) ↔
      ∃ pre row post, rows = pre ++ row :: post ∧ Breaks check pre row) ∧
    (∀ n seq transactionId expected actual,
      walkChain check rows = .broken n seq transactionId expected actual →
      ∃ pre row post, rows = pre ++ row :: post ∧ Unbroken check pre ∧ Breaks check pre row ∧
        n = pre.countP (isVerified check) ∧ seq = ChainLink.seq row ∧
        transactionId = ChainLink.transactionId row ∧
        (expected, actual) = breakTexts check pre row) ∧
    ((∃ reason, walkChain check rows = .cannotVerify reason) ↔
      Unbroken check rows ∧ ∃ row ∈ rows, ∃ reason, check row = .unverifiable reason) ∧
    (∀ n, walkChain check rows = .intact n ↔
      (Unbroken check rows ∧ ∀ row ∈ rows, check row = .verified) ∧ n = rows.length) := by
  rcases @unbroken_or_exists_first R _ check rows with h | ⟨pre, row, post, rfl, hpre, hrow⟩
  · -- nobody breaks: the verdict hangs on whether some check was inconclusive
    have hno : ¬ ∃ pre row post, rows = pre ++ row :: post ∧ Breaks check pre row :=
      fun ⟨pre, row, post, hrows, hbreaks⟩ => h pre row post hrows hbreaks
    cases hreason : rows.findSome? (unverifiableReason check) with
    | none =>
      have hverified (row : R) (hrow : row ∈ rows) : check row = .verified :=
        isVerified_iff.mp (isVerified_of_unbroken h hreason hrow)
      have hsure : ¬ ∃ row ∈ rows, ∃ reason, check row = .unverifiable reason := by
        rintro ⟨row, hrow, reason, hcheck⟩
        rw [hverified row hrow] at hcheck
        cases hcheck
      rw [intact_of_unbroken h hreason]
      refine ⟨iff_of_false (by simp) hno, by simp, iff_of_false (by simp) fun hd => hsure hd.2, ?_⟩
      intro n
      rw [VerifyOutcome.intact.injEq, eq_comm]
      exact ⟨fun hn => ⟨⟨h, hverified⟩, hn⟩, fun hn => hn.2⟩
    | some first =>
      obtain ⟨row, hrow, hfirst⟩ := List.exists_of_findSome?_eq_some hreason
      have hcheck := unverifiableReason_eq_some.mp hfirst
      obtain ⟨reason, hwalk⟩ := cannotVerify_of_unbroken h hreason
      rw [hwalk]
      refine ⟨iff_of_false (by simp) hno, by simp,
        iff_of_true ⟨reason, rfl⟩ ⟨h, row, hrow, first, hcheck⟩, fun n => ?_⟩
      refine iff_of_false (by simp) fun hn => ?_
      rw [hn.1.2 row hrow] at hcheck
      cases hcheck
  · have hbroken : ¬ Unbroken check (pre ++ row :: post) := fun h => h pre row post rfl hrow
    rw [walkChain_of_breaks hpre hrow post]
    refine ⟨iff_of_true ⟨_, _, _, _, _, rfl⟩ ⟨pre, row, post, rfl, hrow⟩, ?_,
      iff_of_false (by simp) fun h => hbroken h.1, fun n => iff_of_false (by simp)
        fun h => hbroken h.1.1⟩
    intro n seq transactionId expected actual heq
    obtain ⟨rfl, rfl, rfl, rfl, rfl⟩ := VerifyOutcome.broken.inj heq
    exact ⟨pre, row, post, rfl, hpre, hrow, rfl, rfl, rfl, rfl⟩

end Sysknife.Audit
