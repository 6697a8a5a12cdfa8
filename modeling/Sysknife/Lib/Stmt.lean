import Mathlib.Data.Nat.Notation

/-!
# Statements on a database connection

A program on a connection (`Stmt`) runs one statement after the other. A statement outside a
transaction commits at once; one inside writes a working copy, which `COMMIT` makes the
committed state and every failure drops. What the outside decides is a function of the number
of statements run so far: the statement fails, or it runs at some moment. So a failure can hit
any statement of a program, `BEGIN` and `COMMIT` among them.

* `Inside`: what a program does to the working copy of an open transaction. It composes along
  `bind` (`Inside.bind`).
* `Atomic`: a program that changes the committed state in one transaction or not at all
  (`Inside.atomic_transaction`), possibly after reading (`Atomic.bind_of_reads`).
* `Computes` and `Answers`: what a program computes inside and outside a transaction when no
  statement fails and all run at one moment.
-/

/-- What a connection sees. -/
structure Session (σ : Type) where
  committed : σ
  /-- The working copy of the open transaction, if there is one. -/
  working : Option σ
  /-- How many statements have run. -/
  tick : ℕ

namespace Session

variable {σ : Type}

/-- The state a statement reads. -/
def view (s : Session σ) : σ := s.working.getD s.committed

/-- One more statement has run. -/
def advance (s : Session σ) : Session σ := { s with tick := s.tick + 1 }

/-- A statement writes the working copy, or commits at once when no transaction is open. -/
def write (s : Session σ) (t : σ) : Session σ :=
  match s.working with
  | some _ => { s with working := some t }
  | none => { s with committed := t }

/-- `BEGIN` -/
def start (s : Session σ) : Session σ := { s with working := some s.committed }

/-- `ROLLBACK` -/
def rollback (s : Session σ) : Session σ := { s with working := none }

/-- `COMMIT` -/
def commit (s : Session σ) : Session σ where
  committed := s.view
  working := none
  tick := s.tick

end Session

/-- Programs on a connection: the outside decides for each statement whether it fails, with
which error, and at which moment it runs. -/
def Stmt (ω ε σ α : Type) : Type := (ℕ → Except ε ω) → Session σ → Except ε α × Session σ

namespace Stmt

variable {ω ε σ α β : Type}

instance : Monad (Stmt ω ε σ) where
  pure a := fun _ s => (.ok a, s)
  bind m k := fun w s =>
    match m w s with
    | (.ok a, s') => k a w s'
    | (.error e, s') => (.error e, s')

/-- Give up with an error. -/
def fail (e : ε) : Stmt ω ε σ α := fun _ s => (.error e, s)

/-- Run one statement. A statement that fails has no effect. -/
def exec (f : ω → σ → Except ε (α × σ)) : Stmt ω ε σ α := fun w s =>
  match w s.tick with
  | .error e => (.error e, s.advance)
  | .ok now =>
    match f now s.view with
    | .error e => (.error e, s.advance)
    | .ok (a, t) => (.ok a, (s.write t).advance)

/-- Run one statement that only reads. -/
def query (f : ω → σ → α) : Stmt ω ε σ α := exec fun now t => .ok (f now t, t)

/-- Run one statement that only writes, and answers a value. -/
def write (f : ω → σ → α × σ) : Stmt ω ε σ α := exec fun now t => .ok (f now t)

/-- `BEGIN`, the body and `COMMIT`. A failure of any of them drops the working copy. -/
def transaction (body : Stmt ω ε σ α) : Stmt ω ε σ α := fun w s =>
  match w s.tick with
  | .error e => (.error e, s.advance)
  | .ok _ =>
    match body w s.start.advance with
    | (.error e, s') => (.error e, s'.rollback)
    | (.ok a, s') =>
      match w s'.tick with
      | .error e => (.error e, s'.rollback.advance)
      | .ok _ => (.ok a, s'.commit.advance)

theorem bind_apply (m : Stmt ω ε σ α) (k : α → Stmt ω ε σ β) (w : ℕ → Except ε ω)
    (s : Session σ) :
    (m >>= k) w s =
      match m w s with
      | (.ok a, s') => k a w s'
      | (.error e, s') => (.error e, s') := rfl

theorem pure_apply (a : α) (w : ℕ → Except ε ω) (s : Session σ) :
    (pure a : Stmt ω ε σ α) w s = (.ok a, s) := rfl

/-! ### Inside a transaction -/

/-- Inside an open transaction the program writes only the working copy, and when it answers,
`Q` relates the working copy before, the answer and the working copy after. -/
def Inside (m : Stmt ω ε σ α) (Q : σ → α → σ → Prop) : Prop :=
  ∀ w c t n, ∃ r t' n', m w ⟨c, some t, n⟩ = (r, ⟨c, some t', n'⟩) ∧ ∀ a, r = .ok a → Q t a t'

theorem Inside.mono {m : Stmt ω ε σ α} {Q R : σ → α → σ → Prop} (h : Inside m Q)
    (hQR : ∀ t a t', Q t a t' → R t a t') : Inside m R := by
  intro w c t n
  obtain ⟨r, t', n', hrun, hpost⟩ := h w c t n
  exact ⟨r, t', n', hrun, fun a ha => hQR t a t' (hpost a ha)⟩

theorem inside_pure (a : α) : Inside (pure a : Stmt ω ε σ α) fun t b t' => b = a ∧ t' = t := by
  intro w c t n
  exact ⟨.ok a, t, n, rfl, fun b hb => ⟨(Except.ok.inj hb).symm, rfl⟩⟩

theorem inside_fail (e : ε) (Q : σ → α → σ → Prop) : Inside (fail e : Stmt ω ε σ α) Q := by
  intro w c t n
  exact ⟨.error e, t, n, rfl, fun b hb => by cases hb⟩

theorem inside_exec (f : ω → σ → Except ε (α × σ)) :
    Inside (exec f) fun t a t' => ∃ now, f now t = .ok (a, t') := by
  intro w c t n
  rcases hw : w n with e | now
  · exact ⟨.error e, t, n + 1, by simp [exec, hw, Session.advance], fun a ha => by cases ha⟩
  · rcases hf : f now t with e | ⟨b, t'⟩
    · exact ⟨.error e, t, n + 1, by simp [exec, hw, hf, Session.advance, Session.view],
        fun a ha => by cases ha⟩
    · refine ⟨.ok b, t', n + 1, by simp [exec, hw, hf, Session.advance, Session.view,
        Session.write], fun a ha => ⟨now, ?_⟩⟩
      rw [hf, Except.ok.inj ha]

theorem inside_query (f : ω → σ → α) :
    Inside (query f : Stmt ω ε σ α) fun t a t' => (∃ now, a = f now t) ∧ t' = t := by
  refine (inside_exec _).mono fun t a t' ⟨now, h⟩ => ?_
  have hpair := Except.ok.inj h
  exact ⟨⟨now, (congrArg Prod.fst hpair).symm⟩, (congrArg Prod.snd hpair).symm⟩

theorem inside_write (f : ω → σ → α × σ) :
    Inside (write f : Stmt ω ε σ α) fun t a t' => ∃ now, f now t = (a, t') :=
  (inside_exec _).mono fun _ _ _ ⟨now, h⟩ => ⟨now, Except.ok.inj h⟩

/-- The rule of sequential composition. -/
theorem Inside.bind {m : Stmt ω ε σ α} {k : α → Stmt ω ε σ β} {Q : σ → α → σ → Prop}
    {R : α → σ → β → σ → Prop} (hm : Inside m Q) (hk : ∀ a, Inside (k a) (R a)) :
    Inside (m >>= k) fun t b t' => ∃ a u, Q t a u ∧ R a u b t' := by
  intro w c t n
  obtain ⟨r, u, n₁, hrun, hpost⟩ := hm w c t n
  rcases r with e | a
  · exact ⟨.error e, u, n₁, by rw [bind_apply, hrun], fun b hb => by cases hb⟩
  · obtain ⟨r', t', n₂, hrun', hpost'⟩ := hk a w c u n₁
    exact ⟨r', t', n₂, by rw [bind_apply, hrun]; exact hrun',
      fun b hb => ⟨a, u, hpost a rfl, hpost' b hb⟩⟩

/-- Composition with one postcondition for the whole. -/
theorem Inside.bind_of {m : Stmt ω ε σ α} {k : α → Stmt ω ε σ β} {Q : σ → α → σ → Prop}
    {R : α → σ → β → σ → Prop} {S : σ → β → σ → Prop} (hm : Inside m Q)
    (hk : ∀ a, Inside (k a) (R a)) (hS : ∀ t a u b t', Q t a u → R a u b t' → S t b t') :
    Inside (m >>= k) S :=
  (hm.bind hk).mono fun t b t' ⟨a, u, hQ, hR⟩ => hS t a u b t' hQ hR

/-! ### Atomic programs -/

/-- Outside a transaction: the program leaves none open, it has no effect when it fails, and
when it answers `Q` relates the committed state before, the answer and the committed state
after. -/
def Atomic (m : Stmt ω ε σ α) (Q : σ → α → σ → Prop) : Prop :=
  ∀ w c n, ∃ r c' n', m w ⟨c, none, n⟩ = (r, ⟨c', none, n'⟩) ∧
    (∀ e, r = .error e → c' = c) ∧ ∀ a, r = .ok a → Q c a c'

theorem Atomic.mono {m : Stmt ω ε σ α} {Q R : σ → α → σ → Prop} (h : Atomic m Q)
    (hQR : ∀ t a t', Q t a t' → R t a t') : Atomic m R := by
  intro w c n
  obtain ⟨r, c', n', hrun, herror, hpost⟩ := h w c n
  exact ⟨r, c', n', hrun, herror, fun a ha => hQR c a c' (hpost a ha)⟩

theorem atomic_pure (a : α) : Atomic (pure a : Stmt ω ε σ α) fun t b t' => b = a ∧ t' = t := by
  intro w c n
  exact ⟨.ok a, c, n, rfl, fun _ _ => rfl, fun b hb => ⟨(Except.ok.inj hb).symm, rfl⟩⟩

theorem Atomic.map {m : Stmt ω ε σ α} {Q : σ → α → σ → Prop} (h : Atomic m Q) (f : α → β) :
    Atomic (f <$> m) fun t b t' => ∃ a, b = f a ∧ Q t a t' := by
  intro w c n
  obtain ⟨r, c', n', hrun, herror, hpost⟩ := h w c n
  have hmap : (f <$> m) w ⟨c, none, n⟩ = (m >>= fun a => pure (f a)) w ⟨c, none, n⟩ := rfl
  rcases r with e | a
  · exact ⟨.error e, c', n', by rw [hmap, bind_apply, hrun], fun _ _ => herror e rfl,
      fun b hb => by cases hb⟩
  · refine ⟨.ok (f a), c', n', by rw [hmap, bind_apply, hrun]; rfl, (fun e he => by cases he),
      fun b hb => ⟨a, (Except.ok.inj hb).symm, hpost a rfl⟩⟩

theorem atomic_fail (e : ε) (Q : σ → α → σ → Prop) : Atomic (fail e : Stmt ω ε σ α) Q := by
  intro w c n
  exact ⟨.error e, c, n, rfl, fun _ _ => rfl, fun b hb => by cases hb⟩

theorem atomic_query (f : ω → σ → α) :
    Atomic (query f : Stmt ω ε σ α) fun t a t' => (∃ now, a = f now t) ∧ t' = t := by
  intro w c n
  rcases hw : w n with e | now
  · exact ⟨.error e, c, n + 1, by simp [query, exec, hw, Session.advance], fun _ _ => rfl,
      fun a ha => by cases ha⟩
  · refine ⟨.ok (f now c), c, n + 1, ?_, fun _ _ => rfl, fun a ha =>
      ⟨⟨now, (Except.ok.inj ha).symm⟩, rfl⟩⟩
    simp [query, exec, hw, Session.advance, Session.view, Session.write]

/-- A transaction takes effect as a whole: when its body fails, or `BEGIN` or `COMMIT` does,
nothing is committed. -/
theorem Inside.atomic_transaction {body : Stmt ω ε σ α} {Q : σ → α → σ → Prop}
    (h : Inside body Q) : Atomic (transaction body) Q := by
  intro w c n
  rcases hw : w n with e | now
  · exact ⟨.error e, c, n + 1, by simp [transaction, hw, Session.advance], fun _ _ => rfl,
      fun a ha => by cases ha⟩
  obtain ⟨r, t', n', hrun, hpost⟩ := h w c c (n + 1)
  rcases r with e | a
  · refine ⟨.error e, c, n', ?_, fun _ _ => rfl, fun a ha => by cases ha⟩
    simp [transaction, hw, hrun, Session.start, Session.advance, Session.rollback]
  rcases hw' : w n' with e | now'
  · refine ⟨.error e, c, n' + 1, ?_, fun _ _ => rfl, fun a ha => by cases ha⟩
    simp [transaction, hw, hrun, hw', Session.start, Session.advance, Session.rollback]
  · refine ⟨.ok a, t', n' + 1, ?_, (fun e he => by cases he), hpost⟩
    simp [transaction, hw, hrun, hw', Session.start, Session.advance, Session.commit,
      Session.view]

/-- Reading first does not spoil atomicity: whatever was read, the rest decides. -/
theorem Atomic.bind_of_reads {m : Stmt ω ε σ α} {k : α → Stmt ω ε σ β} {P : σ → α → Prop}
    {R : σ → β → σ → Prop} (hm : Atomic m fun t a t' => P t a ∧ t' = t)
    (hk : ∀ a, Atomic (k a) R) : Atomic (m >>= k) R := by
  intro w c n
  obtain ⟨r, u, n₁, hrun, herror, hpost⟩ := hm w c n
  rcases r with e | a
  · exact ⟨.error e, u, n₁, by rw [bind_apply, hrun], fun e' _ => herror e rfl,
      fun b hb => by cases hb⟩
  · obtain rfl : u = c := (hpost a rfl).2
    obtain ⟨r', c', n₂, hrun', herror', hpost'⟩ := hk a w u n₁
    exact ⟨r', c', n₂, by rw [bind_apply, hrun]; exact hrun', herror', hpost'⟩

/-! ### Undisturbed runs -/

/-- Inside an open transaction, when no statement fails and all run at one moment, the program
computes `f` on the working copy. -/
def Computes (m : Stmt ω ε σ α) (f : ω → σ → Except ε (α × σ)) : Prop :=
  ∀ now c t n, ∃ t' n', m (fun _ => .ok now) ⟨c, some t, n⟩ =
    match f now t with
    | .ok (a, u) => (.ok a, ⟨c, some u, n'⟩)
    | .error e => (.error e, ⟨c, some t', n'⟩)

/-- The same outside a transaction, where an error leaves the committed state alone. -/
def Answers (m : Stmt ω ε σ α) (f : ω → σ → Except ε (α × σ)) : Prop :=
  ∀ now c n, ∃ n', m (fun _ => .ok now) ⟨c, none, n⟩ =
    match f now c with
    | .ok (a, u) => (.ok a, ⟨u, none, n'⟩)
    | .error e => (.error e, ⟨c, none, n'⟩)

theorem Computes.congr {m : Stmt ω ε σ α} {f g : ω → σ → Except ε (α × σ)}
    (h : Computes m f) (hfg : ∀ now t, f now t = g now t) : Computes m g := by
  have : f = g := by
    funext now t
    exact hfg now t
  rwa [← this]

theorem Answers.congr {m : Stmt ω ε σ α} {f g : ω → σ → Except ε (α × σ)}
    (h : Answers m f) (hfg : ∀ now t, f now t = g now t) : Answers m g := by
  have : f = g := by
    funext now t
    exact hfg now t
  rwa [← this]

theorem computes_pure (a : α) : Computes (pure a : Stmt ω ε σ α) fun _ t => .ok (a, t) :=
  fun _ _ t n => ⟨t, n, rfl⟩

theorem computes_fail (e : ε) : Computes (fail e : Stmt ω ε σ α) fun _ _ => .error e :=
  fun _ _ t n => ⟨t, n, rfl⟩

theorem computes_exec (f : ω → σ → Except ε (α × σ)) : Computes (exec f) f := by
  intro now c t n
  refine ⟨t, n + 1, ?_⟩
  rcases hf : f now t with e | ⟨a, u⟩
  · simp [exec, hf, Session.advance, Session.view]
  · simp [exec, hf, Session.advance, Session.view, Session.write]

theorem computes_query (f : ω → σ → α) :
    Computes (query f : Stmt ω ε σ α) fun now t => .ok (f now t, t) :=
  computes_exec _

theorem computes_write (f : ω → σ → α × σ) :
    Computes (write f : Stmt ω ε σ α) fun now t => .ok (f now t) :=
  computes_exec _

theorem Computes.bind {m : Stmt ω ε σ α} {k : α → Stmt ω ε σ β}
    {f : ω → σ → Except ε (α × σ)} {g : α → ω → σ → Except ε (β × σ)} (hm : Computes m f)
    (hk : ∀ a, Computes (k a) (g a)) :
    Computes (m >>= k) fun now t =>
      match f now t with
      | .ok (a, u) => g a now u
      | .error e => .error e := by
  intro now c t n
  obtain ⟨t', n', hrun⟩ := hm now c t n
  rcases hf : f now t with e | ⟨a, u⟩
  · rw [hf] at hrun
    exact ⟨t', n', by simp only [bind_apply, hrun, hf]⟩
  · rw [hf] at hrun
    obtain ⟨t'', n'', hrun'⟩ := hk a now c u n'
    exact ⟨t'', n'', by simp only [bind_apply, hrun, hf, hrun']⟩

theorem computes_ite {p : Prop} {_ : Decidable p} {m m' : Stmt ω ε σ α}
    {f g : ω → σ → Except ε (α × σ)} (hm : Computes m f) (hm' : Computes m' g) :
    Computes (if p then m else m') fun now t => if p then f now t else g now t := by
  by_cases hp : p
  · simpa only [if_pos hp] using hm
  · simpa only [if_neg hp] using hm'

theorem Computes.answers_transaction {body : Stmt ω ε σ α} {f : ω → σ → Except ε (α × σ)}
    (h : Computes body f) : Answers (transaction body) f := by
  intro now c n
  obtain ⟨t', n', hrun⟩ := h now c c (n + 1)
  rcases hf : f now c with e | ⟨a, u⟩
  · rw [hf] at hrun
    exact ⟨n', by simp [transaction, hrun, Session.start, Session.advance, Session.rollback]⟩
  · rw [hf] at hrun
    exact ⟨n' + 1, by simp [transaction, hrun, Session.start, Session.advance, Session.commit,
      Session.view]⟩

theorem answers_pure (a : α) : Answers (pure a : Stmt ω ε σ α) fun _ t => .ok (a, t) :=
  fun _ _ n => ⟨n, rfl⟩

theorem answers_fail (e : ε) : Answers (fail e : Stmt ω ε σ α) fun _ _ => .error e :=
  fun _ _ n => ⟨n, rfl⟩

theorem Answers.map {m : Stmt ω ε σ α} {f : ω → σ → Except ε (α × σ)} (h : Answers m f)
    (g : α → β) : Answers (g <$> m) fun now t => (f now t).map fun p => (g p.1, p.2) := by
  intro now c n
  obtain ⟨n', hrun⟩ := h now c n
  have hmap : (g <$> m) (fun _ => .ok now) ⟨c, none, n⟩ =
      (m >>= fun a => pure (g a)) (fun _ => .ok now) ⟨c, none, n⟩ := rfl
  rcases hf : f now c with e | ⟨a, u⟩
  · rw [hf] at hrun
    exact ⟨n', by simp only [hmap, bind_apply, hrun, hf, Except.map]⟩
  · rw [hf] at hrun
    exact ⟨n', by simp only [hmap, bind_apply, hrun, hf, Except.map, pure_apply]⟩

theorem answers_ite {p : Prop} {_ : Decidable p} {m m' : Stmt ω ε σ α}
    {f g : ω → σ → Except ε (α × σ)} (hm : Answers m f) (hm' : Answers m' g) :
    Answers (if p then m else m') fun now t => if p then f now t else g now t := by
  by_cases hp : p
  · simpa only [if_pos hp] using hm
  · simpa only [if_neg hp] using hm'

/-- Reading first, with something to follow. -/
theorem answers_query_bind (f : ω → σ → α) {k : α → Stmt ω ε σ β}
    {g : α → ω → σ → Except ε (β × σ)} (hk : ∀ a, Answers (k a) (g a)) :
    Answers (query f >>= k) fun now t => g (f now t) now t := by
  intro now c n
  obtain ⟨n', hrun⟩ := hk (f now c) now c (n + 1)
  exact ⟨n', hrun⟩

end Stmt
