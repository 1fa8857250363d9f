import NewsNotifier.InterleavedContracts

namespace Interleaving

/-- A statement as it was executed: its answer, and the private part and the data it found. -/
structure Event (σ : Type) (ρ : σ → Type) (L D : Type) where
  stmt : σ
  answer : ρ stmt
  before : L
  data : D

/-- What is observed of an execution: a state that each answer moves on, the answers that are
given, and the statements that are asked. -/
structure Monitor (σ : Type) (ρ : σ → Type) (M : Type) where
  next : M → (s : σ) → ρ s → M
  given : M → (s : σ) → ρ s → Prop
  asked : M → σ → Prop

variable {ι σ : Type} {ρ : σ → Type} {ε L D J E M : Type} {α β γ : Type}

/-- What was asked, and what was answered. -/
abbrev Said (ρ : σ → Type) := (s : σ) × ρ s

def Event.said (e : Event σ ρ L D) : Said ρ := ⟨e.stmt, e.answer⟩

namespace Monitor

variable (O : Monitor σ ρ M)

def observe (m : M) (tr : List (Event σ ρ L D)) : M :=
  tr.foldl (fun m e => O.next m e.stmt e.answer) m

/-- Every answer of the trace is given where it stands. -/
def Given : M → List (Event σ ρ L D) → Prop
  | _, [] => True
  | m, e :: tr => O.given m e.stmt e.answer ∧ Given (O.next m e.stmt e.answer) tr

variable {O}

theorem observe_append (m : M) (tr tr' : List (Event σ ρ L D)) :
    O.observe m (tr ++ tr') = O.observe (O.observe m tr) tr' := List.foldl_append

theorem given_append {m : M} {tr tr' : List (Event σ ρ L D)} :
    O.Given m (tr ++ tr') ↔ O.Given m tr ∧ O.Given (O.observe m tr) tr' := by
  induction tr generalizing m with
  | nil => exact ⟨fun h => ⟨True.intro, h⟩, fun h => h.2⟩
  | cons e tr ih =>
    rw [List.cons_append]
    exact ⟨fun h => ⟨⟨h.1, (ih.mp h.2).1⟩, (ih.mp h.2).2⟩, fun h => ⟨h.1.1, ih.mpr ⟨h.1.2, h.2⟩⟩⟩

theorem given_of {m : M} {tr : List (Event σ ρ L D)} (h : ∀ before e after, tr = before ++ e :: after →
    O.given (O.observe m before) e.stmt e.answer) : O.Given m tr := by
  induction tr generalizing m with
  | nil => exact True.intro
  | cons e tr ih =>
    refine ⟨h [] e tr rfl, ih fun before e' after split => ?_⟩
    exact h (e :: before) e' after (by rw [split, List.cons_append])

/-- A monitor without a state, by the answers it assumes and the statements it expects. -/
def along (R : (s : σ) → ρ s → Prop) (P : σ → Prop) : Monitor σ ρ Unit :=
  ⟨fun _ _ _ => (), fun _ => R, fun _ => P⟩

theorem given_along {R : (s : σ) → ρ s → Prop} {P : σ → Prop} {tr : List (Event σ ρ L D)}
    (h : ∀ e ∈ tr, R e.stmt e.answer) : (along R P).Given () tr :=
  given_of fun before e _ split => h e (split ▸ List.mem_append_right before List.mem_cons_self)

/-- The monitor whose state is all that was said. -/
def history (G : List (Said ρ) → (s : σ) → ρ s → Prop) (A : List (Said ρ) → σ → Prop) :
    Monitor σ ρ (List (Said ρ)) :=
  ⟨fun m s r => m ++ [⟨s, r⟩], G, A⟩

variable {G : List (Said ρ) → (s : σ) → ρ s → Prop} {A : List (Said ρ) → σ → Prop}

theorem observe_history (m : List (Said ρ)) (tr : List (Event σ ρ L D)) :
    (history G A).observe m tr = m ++ tr.map Event.said := by
  induction tr generalizing m with
  | nil => exact (List.append_nil m).symm
  | cons e tr ih =>
    have rest := ih (m ++ [e.said])
    rw [List.append_assoc, List.singleton_append] at rest
    exact rest

theorem given_history {m : List (Said ρ)} {tr : List (Event σ ρ L D)}
    (h : ∀ before e after, tr = before ++ e :: after → G (m ++ before.map Event.said) e.stmt e.answer) :
    (history G A).Given m tr := by
  refine given_of fun before e after split => ?_
  rw [observe_history]
  exact h before e after split

end Monitor

namespace Prog

/-- Under the given answers the program asks what the monitor expects, and ends where the monitor's
state meets `Q`, or `F` if it raises. -/
def Obeys (O : Monitor σ ρ M) (Q : M → α → Prop) (F : M → ε → Prop) : M → Prog σ ρ ε α → Prop
  | m, ret a => Q m a
  | m, raise e => F m e
  | m, stmt s next => O.asked m s ∧ ∀ r, O.given m s r → Obeys O Q F (O.next m s r) (next r)

/-- Every statement reached along answers that meet `R` satisfies `P`. -/
abbrev Along (R : (s : σ) → ρ s → Prop) (P : σ → Prop) (p : Prog σ ρ ε α) : Prop :=
  p.Obeys (Monitor.along R P) (fun _ _ => True) (fun _ _ => True) ()

/-- Under answers that meet `R` the program raises nothing and returns a value that meets `Q`. -/
abbrev Returns (R : (s : σ) → ρ s → Prop) (Q : α → Prop) (p : Prog σ ρ ε α) : Prop :=
  p.Obeys (Monitor.along R fun _ => True) (fun _ => Q) (fun _ _ => False) ()

variable {O : Monitor σ ρ M} {Q Q' : M → α → Prop} {F F' : M → ε → Prop} {m : M} {p : Prog σ ρ ε α}

theorem Obeys.mono (h : p.Obeys O Q F m) (hQ : ∀ m a, Q m a → Q' m a) (hF : ∀ m e, F m e → F' m e) :
    p.Obeys O Q' F' m := by
  induction p generalizing m with
  | ret a => exact hQ m a h
  | raise e => exact hF m e h
  | stmt s next ih => exact ⟨h.1, fun r hr => ih r (h.2 r hr)⟩

theorem Obeys.bind {f : α → Prog σ ρ ε β} {Q : M → β → Prop}
    (h : p.Obeys O (fun m a => (f a).Obeys O Q F m) F m) : (p.bind f).Obeys O Q F m := by
  induction p generalizing m with
  | ret a => exact h
  | raise e => exact h
  | stmt s next ih => exact ⟨h.1, fun r hr => ih r (h.2 r hr)⟩

/-- A loop meets what each round leaves to the rest. -/
theorem Obeys.forEach {f : γ → Prog σ ρ ε Unit} {K : List γ → M → Prop} {F : M → ε → Prop}
    (round : ∀ x xs m, K (x :: xs) m → (f x).Obeys O (fun m _ => K xs m) F m) (xs : List γ) (h : K xs m) :
    (Prog.forEach xs f).Obeys O (fun m _ => K [] m) F m := by
  induction xs generalizing m with
  | nil => exact h
  | cons x xs ih => exact ((round x xs m h).mono (fun m _ hk => ih hk) fun _ _ h => h).bind

theorem Each.obeys {P : σ → Prop} {E : ε → Prop} (h : p.Each P E) (asked : ∀ m s, P s → O.asked m s) (m : M) :
    p.Obeys O (fun _ _ => True) (fun _ _ => True) m := by
  induction p generalizing m with
  | ret a => exact True.intro
  | raise e => exact True.intro
  | stmt s next ih => exact ⟨asked m s h.1, fun r _ => ih r (h.2 r) _⟩

theorem Leads.obeys {P : σ → Prop} {E : ε → Prop} {R : Prog σ ρ ε α → Prop} (h : p.Leads P E R)
    (asked : ∀ m s, P s → O.asked m s) (last : ∀ q, R q → ∀ m, q.Obeys O Q F m)
    (raised : ∀ m e, E e → F m e) (m : M) : p.Obeys O Q F m := by
  induction h generalizing m with
  | last h => exact last _ h m
  | raise h => exact raised m _ h
  | stmt known _ ih => exact ⟨asked m _ known, fun r _ => ih r _⟩

theorem Each.along {R : (s : σ) → ρ s → Prop} {P : σ → Prop} {E : ε → Prop} (h : p.Each P E) :
    p.Along R P :=
  h.obeys (fun _ _ hs => hs) ()

/-- What is asked after what was said may be put another way. -/
theorem Obeys.restate {G : List (Said ρ) → (s : σ) → ρ s → Prop} {A A' : List (Said ρ) → σ → Prop}
    {Q : List (Said ρ) → α → Prop} {F : List (Said ρ) → ε → Prop} {m : List (Said ρ)}
    (h : p.Obeys (Monitor.history G A) Q F m) (put : ∀ more s, A (m ++ more) s → A' (m ++ more) s) :
    p.Obeys (Monitor.history G A') Q F m := by
  induction p generalizing m with
  | ret a => exact h
  | raise e => exact h
  | stmt s next ih =>
    have here := put [] s
    rw [List.append_nil] at here
    refine ⟨here h.1, fun r hr => ih r (h.2 r hr) fun more s' asked => ?_⟩
    have later := put (⟨s, r⟩ :: more) s'
    rw [List.append_cons] at later
    exact later asked

/-- What the program says under these answers, as it ends. -/
abbrev Tells (R : (s : σ) → ρ s → Prop) (p : Prog σ ρ ε α) (Q : List (Said ρ) → α → Prop)
    (m : List (Said ρ)) : Prop :=
  p.Obeys (Monitor.history (fun _ => R) fun _ _ => True) Q (fun _ _ => True) m

theorem Each.tells {R : (s : σ) → ρ s → Prop} {P : σ → Prop} {E : ε → Prop} {Y : α → Prop}
    (h : p.Each P E) (hY : p.Yields Y) (m : List (Said ρ)) :
    p.Tells R (fun m' a => Y a ∧ ∃ more, m' = m ++ more ∧ ∀ x ∈ more, P x.1) m := by
  induction p generalizing m with
  | ret a => exact ⟨hY, [], (List.append_nil m).symm, by simp⟩
  | raise e => exact True.intro
  | stmt s next ih =>
    refine ⟨True.intro, fun r _ => (ih r (h.2 r) (hY r) (m ++ [⟨s, r⟩])).mono (fun m' a => ?_) fun _ _ h => h⟩
    rintro ⟨hy, more, rfl, all⟩
    refine ⟨hy, ⟨s, r⟩ :: more, by simp, fun x hx => ?_⟩
    rcases List.mem_cons.mp hx with rfl | hx
    · exact h.1
    · exact all x hx

/-- The rest of a program is none of its statements. -/
theorem next_ne {s : σ} {next : ρ s → Prog σ ρ ε α} (r : ρ s) : next r ≠ .stmt s next := by
  have smaller : ∀ p : Prog σ ρ ε α, ∀ (s : σ) (next : ρ s → Prog σ ρ ε α) r, p = .stmt s next → next r ≠ p := by
    intro p
    induction p with
    | ret a => intro s next r h; cases h
    | raise e => intro s next r h; cases h
    | stmt s' next' ih =>
      intro s next r h
      cases h
      intro e
      exact ih r _ _ r e rfl
  exact smaller _ s next r rfl

end Prog

variable [DecidableEq ι] {S : Sys ι σ ρ ε L D J E} {i : ι} {j : J} {w w' w'' : World ι σ ρ ε L D}
  {tr : List (Event σ ρ L D)}

/-- A run in which `i` starts `j` at `w` and has since executed the trace, among the steps of others. -/
inductive Execution (S : Sys ι σ ρ ε L D J E) (i : ι) (j : J) (w : World ι σ ρ ε L D) :
    List (Event σ ρ L D) → World ι σ ρ ε L D → Prop
  | start {p : Prog σ ρ ε Unit} {d' : D} (idle : w.proc i = none)
      (hs : S.start i j w.data = some (p, d')) : Execution S i j w [] (w.set i (some (p, S.idle)) d')
  | exec {tr : List (Event σ ρ L D)} {w' : World ι σ ρ ε L D} {s : σ} {next : ρ s → Prog σ ρ ε Unit}
      {l l' : L} {d' : D} (before : Execution S i j w tr w') (r : ρ s)
      (hp : w'.proc i = some (.stmt s next, l)) (hx : S.exec i s r l w'.data = some (l', d')) :
      Execution S i j w (tr ++ [⟨s, r, l, w'.data⟩]) (w'.set i (some (next r, l')) d')
  | beside {tr : List (Event σ ρ L D)} {w' w'' : World ι σ ρ ε L D} (before : Execution S i j w tr w')
      (step : Step S w' w'') (same : w''.proc i = w'.proc i) : Execution S i j w tr w''

/-- The statement was executed with this answer. -/
def Took (tr : List (Event σ ρ L D)) (s : σ) (r : ρ s) : Prop := ∃ l d, ⟨s, r, l, d⟩ ∈ tr

namespace Execution

theorem steps (h : Execution S i j w tr w') : Steps S w w' := by
  induction h with
  | start idle hs => exact .single (.start idle hs)
  | exec _ r hp hx ih => exact ih.tail (.exec r hp hx)
  | beside _ step _ ih => exact ih.tail step

theorem started (h : Execution S i j w tr w') : ∃ p d', S.start i j w.data = some (p, d') := by
  induction h with
  | start _ hs => exact ⟨_, _, hs⟩
  | exec _ _ _ _ ih => exact ih
  | beside _ _ _ ih => exact ih

theorem alive (h : Execution S i j w tr w') : ∃ p l, w'.proc i = some (p, l) := by
  induction h with
  | start => exact ⟨_, _, World.set_self _ _ _ _⟩
  | exec => exact ⟨_, _, World.set_self _ _ _ _⟩
  | beside _ _ same ih => exact same ▸ ih

/-- Statements that leave the private part leave it as at the start. -/
theorem resting (h : Execution S i j w tr w') (rests : ∀ e ∈ tr, ∀ l' d',
    S.exec i e.stmt e.answer e.before e.data = some (l', d') → l' = e.before) {p : Prog σ ρ ε Unit} {l : L}
    (live : w'.proc i = some (p, l)) : l = S.idle := by
  induction h generalizing p l with
  | start => exact (Prod.mk.inj (Option.some.inj ((World.set_self _ _ _ _).symm.trans live))).2.symm
  | exec _ r hp hx ih =>
    obtain ⟨_, rfl⟩ := Prod.mk.inj (Option.some.inj ((World.set_self _ _ _ _).symm.trans live))
    have kept := rests _ (List.mem_append_right _ List.mem_cons_self) _ _ hx
    exact kept.trans (ih (fun e he => rests e (List.mem_append_left _ he)) hp)
  | beside _ _ same ih => exact ih rests (same ▸ live)

/-- Before its first statement a process has its private part as at the start. -/
theorem unmoved (h : Execution S i j w [] w') {p : Prog σ ρ ε Unit} {l : L} (live : w'.proc i = some (p, l)) :
    l = S.idle :=
  h.resting (fun _ he => absurd he List.not_mem_nil) live

/-- A started program obeys a monitor all along its execution. -/
theorem obeys {O : Monitor σ ρ M} {Q : M → Unit → Prop} {F : M → ε → Prop} {m : M}
    (h : Execution S i j w tr w') (starts : ∀ p d', S.start i j w.data = some (p, d') → p.Obeys O Q F m)
    (given : O.Given m tr) {p : Prog σ ρ ε Unit} {l : L} (hp : w'.proc i = some (p, l)) :
    p.Obeys O Q F (O.observe m tr) := by
  induction h generalizing p l with
  | start idle hs =>
    obtain ⟨rfl, rfl⟩ := Prod.mk.inj (Option.some.inj ((World.set_self _ _ _ _).symm.trans hp))
    exact starts _ _ hs
  | exec _ r hp' hx ih =>
    obtain ⟨rfl, rfl⟩ := Prod.mk.inj (Option.some.inj ((World.set_self _ _ _ _).symm.trans hp))
    obtain ⟨before, last⟩ := Monitor.given_append.mp given
    rw [Monitor.observe_append]
    exact (ih before hp').2 r last.1
  | beside _ _ same ih => exact ih given (same ▸ hp)

/-- What the monitor expects is what has been asked. -/
theorem asked {O : Monitor σ ρ M} {Q : M → Unit → Prop} {F : M → ε → Prop} {m : M}
    (h : Execution S i j w tr w') (starts : ∀ p d', S.start i j w.data = some (p, d') → p.Obeys O Q F m)
    (given : O.Given m tr) {e : Event σ ρ L D} {before after : List (Event σ ρ L D)}
    (split : tr = before ++ e :: after) : O.asked (O.observe m before) e.stmt := by
  induction h generalizing after with
  | start => simp at split
  | @exec tr w' s next l l' d' run r hp hx ih =>
    obtain ⟨earlier, _⟩ := Monitor.given_append.mp given
    rcases List.eq_nil_or_concat after with rfl | ⟨after, last, rfl⟩
    · obtain ⟨rfl, last⟩ := List.append_inj' split rfl
      obtain ⟨rfl, _⟩ := List.cons.inj last
      exact (run.obeys starts earlier hp).1
    · rw [List.concat_eq_append, ← List.cons_append, ← List.append_assoc] at split
      exact ih earlier (List.append_inj' split rfl).1
  | beside _ _ _ ih => exact ih given split

theorem along {R : (s : σ) → ρ s → Prop} {P : σ → Prop} (h : Execution S i j w tr w')
    (starts : ∀ p d', S.start i j w.data = some (p, d') → p.Along R P)
    (given : ∀ e ∈ tr, R e.stmt e.answer) {e : Event σ ρ L D} (he : e ∈ tr) : P e.stmt := by
  obtain ⟨before, after, split⟩ := List.append_of_mem he
  exact h.asked starts (Monitor.given_along given) split

/-- What is asked after what was said. -/
theorem recorded {G : List (Said ρ) → (s : σ) → ρ s → Prop} {A : List (Said ρ) → σ → Prop}
    {Q : List (Said ρ) → Unit → Prop} {F : List (Said ρ) → ε → Prop} (h : Execution S i j w tr w')
    (starts : ∀ p d', S.start i j w.data = some (p, d') → p.Obeys (Monitor.history G A) Q F [])
    (given : ∀ before e after, tr = before ++ e :: after → G (before.map Event.said) e.stmt e.answer)
    {e : Event σ ρ L D} {before after : List (Event σ ρ L D)} (split : tr = before ++ e :: after) :
    A (before.map Event.said) e.stmt := by
  have asked := h.asked starts (Monitor.given_history given) split
  rw [Monitor.observe_history] at asked
  exact asked

/-- What a started program tells holds of its trace once it has returned. -/
theorem tells {R : (s : σ) → ρ s → Prop} {Q : List (Said ρ) → Unit → Prop} {l : L}
    (h : Execution S i j w tr w')
    (starts : ∀ p d', S.start i j w.data = some (p, d') → p.Tells R Q [])
    (given : ∀ e ∈ tr, R e.stmt e.answer) (ended : w'.proc i = some (.ret (), l)) :
    Q (tr.map Event.said) () := by
  have final := h.obeys starts (Monitor.given_history fun before e after split => given e (by simp [split])) ended
  rw [Monitor.observe_history] at final
  exact final

/-- The execution up to an event, the event, and the run after it. -/
theorem split (h : Execution S i j w tr w') {e : Event σ ρ L D} {before after : List (Event σ ρ L D)}
    (split : tr = before ++ e :: after) : ∃ w₁ next l' d', Execution S i j w before w₁ ∧ w₁.data = e.data ∧
      w₁.proc i = some (.stmt e.stmt next, e.before) ∧
      S.exec i e.stmt e.answer e.before e.data = some (l', d') ∧
      Steps S (w₁.set i (some (next e.answer, l')) d') w' := by
  induction h generalizing after with
  | start => simp at split
  | @exec tr w' s next l l' d' run r hp hx ih =>
    rcases List.eq_nil_or_concat after with rfl | ⟨after, last, rfl⟩
    · obtain ⟨rfl, last⟩ := List.append_inj' split rfl
      obtain ⟨rfl, _⟩ := List.cons.inj last
      exact ⟨w', next, l', d', run, rfl, hp, hx, .refl⟩
    · rw [List.concat_eq_append, ← List.cons_append, ← List.append_assoc] at split
      obtain ⟨w₁, next₁, l₁, d₁, first, at_, live, executed, rest⟩ := ih (List.append_inj' split rfl).1
      exact ⟨w₁, next₁, l₁, d₁, first, at_, live, executed, rest.tail (.exec r hp hx)⟩
  | beside _ step _ ih =>
    obtain ⟨w₁, next₁, l₁, d₁, first, at_, live, executed, rest⟩ := ih split
    exact ⟨w₁, next₁, l₁, d₁, first, at_, live, executed, rest.tail step⟩

/-- Every event of the trace is a step of the run. -/
theorem event (h : Execution S i j w tr w') {e : Event σ ρ L D} (he : e ∈ tr) :
    ∃ w₁ w₂ l' d', Steps S w w₁ ∧ w₁.data = e.data ∧ S.exec i e.stmt e.answer e.before e.data = some (l', d') ∧
      w₂.data = d' ∧ Step S w₁ w₂ ∧ Steps S w₂ w' := by
  obtain ⟨before, after, split⟩ := List.append_of_mem he
  obtain ⟨w₁, next, l', d', first, at_, live, executed, rest⟩ := h.split split
  exact ⟨w₁, _, l', d', first.steps, at_, executed, World.set_data _ _ _ _, .exec _ live (at_ ▸ executed), rest⟩

end Execution

section Restricted

variable {allow : ι → (s : σ) → ρ s → L → D → Bool}

theorem Execution.of_restrict (h : Execution (S.restrict allow) i j w tr w') : Execution S i j w tr w' := by
  induction h with
  | start idle hs => exact .start idle hs
  | exec _ r hp hx ih => exact ih.exec r hp (Sys.exec_of_restrict hx).2
  | beside _ step same ih => exact ih.beside step.of_restrict same

/-- Every answer of a restricted execution was allowed. -/
theorem Execution.allowed (h : Execution (S.restrict allow) i j w tr w') :
    ∀ e ∈ tr, allow i e.stmt e.answer e.before e.data = true := by
  induction h with
  | start => simp
  | exec _ r hp hx ih =>
    intro e he
    rcases List.mem_append.mp he with he | he
    · exact ih e he
    · obtain rfl := List.mem_singleton.mp he
      exact (Sys.exec_of_restrict hx).1
  | beside _ _ _ ih => exact ih

end Restricted

/-- What a step that leaves a process where it is can be. -/
inductive Apart (S : Sys ι σ ρ ε L D J E) (i : ι) (w : World ι σ ρ ε L D) : World ι σ ρ ε L D → Prop
  | exec {k : ι} {s : σ} {next : ρ s → Prog σ ρ ε Unit} {l l' : L} {d' : D} (r : ρ s) (ne : k ≠ i)
      (hp : w.proc k = some (.stmt s next, l)) (hx : S.exec k s r l w.data = some (l', d')) :
      Apart S i w (w.set k (some (next r, l')) d')
  | start {k : ι} {j : J} {p : Prog σ ρ ε Unit} {d' : D} (ne : k ≠ i) (idle : w.proc k = none)
      (hs : S.start k j w.data = some (p, d')) : Apart S i w (w.set k (some (p, S.idle)) d')
  | stop {k : ι} (ne : k ≠ i) : Apart S i w (w.set k none (S.stop k w.data))
  | env {e : E} {d' : D} (he : S.env e w.data = some d') : Apart S i w ⟨d', w.proc⟩

theorem Step.apart (step : Step S w w') (same : w'.proc i = w.proc i) : Apart S i w w' := by
  cases step with
  | exec r hp hx =>
    refine .exec r ?_ hp hx
    rintro rfl
    rw [World.set_self, hp] at same
    exact Prog.next_ne r (Prod.mk.inj (Option.some.inj same)).1
  | start hp hs =>
    refine .start ?_ hp hs
    rintro rfl
    rw [World.set_self, hp] at same
    simp at same
  | stop hp =>
    refine .stop ?_
    rintro rfl
    rw [World.set_self] at same
    exact hp same.symm
  | env he => exact .env he

/-- A step that leaves a live process where it is, is a step of the others. -/
theorem Step.others {C : Contract ι ε D} (hC : C.Governs S) (hw : C.Sound S w) (step : Step S w w')
    (same : w'.proc i = w.proc i) : ∃ a, a ≠ some i ∧ C.act a w.data w'.data := by
  have other : ∀ {k : ι}, k ≠ i → some k ≠ some i := fun ne e => ne (Option.some.inj e)
  cases step.apart same with
  | exec r ne hp hx => exact ⟨_, other ne, (hw.proc hp w.data .refl hw.data r _ _ hx).1⟩
  | start ne _ hs => exact ⟨_, other ne, (hC.start hs hw.data).1⟩
  | stop ne => exact ⟨_, other ne, hC.stop hw.data⟩
  | env he => exact ⟨none, by simp, hC.env he hw.data⟩

/-- A step that moves a process is its own: a statement, its start or its end. -/
theorem Step.own (step : Step S w w') (moved : w'.proc i ≠ w.proc i) :
    (∃ s next l r l' d', w.proc i = some (.stmt s next, l) ∧ S.exec i s r l w.data = some (l', d') ∧
      w' = w.set i (some (next r, l')) d') ∨
    (∃ j p d', w.proc i = none ∧ S.start i j w.data = some (p, d') ∧ w' = w.set i (some (p, S.idle)) d') ∨
    w' = w.set i none (S.stop i w.data) := by
  have other : ∀ {k : ι} {q : Option (Prog σ ρ ε Unit × L)} {d : D}, w' = w.set k q d → k = i := by
    rintro k q d rfl
    by_contra ne
    exact moved (World.set_other w (Ne.symm ne) q d)
  cases step with
  | exec r hp hx =>
    obtain rfl := other rfl
    exact .inl ⟨_, _, _, r, _, _, hp, hx, rfl⟩
  | start hp hs =>
    obtain rfl := other rfl
    exact .inr (.inl ⟨_, _, _, hp, hs, rfl⟩)
  | stop hp =>
    obtain rfl := other rfl
    exact .inr (.inr rfl)
  | env he => exact absurd rfl moved

/-- Every live process of a run is an execution. -/
theorem Execution.exists {w₀ : World ι σ ρ ε L D} (idle : w₀.proc i = none) (h : Steps S w₀ w)
    {q : Prog σ ρ ε Unit × L} (live : w.proc i = some q) :
    ∃ w₁ j tr, Steps S w₀ w₁ ∧ Execution S i j w₁ tr w := by
  induction h generalizing q with
  | refl => simp [idle] at live
  | @tail w₁ w₂ run step ih =>
    by_cases same : w₂.proc i = w₁.proc i
    · obtain ⟨w, j, tr, first, execution⟩ := ih (same ▸ live)
      exact ⟨w, j, tr, first, execution.beside step same⟩
    · rcases step.own same with ⟨s, next, l, r, l', d', hp, hx, rfl⟩ | ⟨j, p, d', idle, hs, rfl⟩ | rfl
      · obtain ⟨w, j, tr, first, execution⟩ := ih hp
        exact ⟨w, j, _, first, execution.exec r hp hx⟩
      · exact ⟨w₁, j, [], run, .start idle hs⟩
      · simp at live

/-- Who moves; `none` is the environment. -/
def Move.mover : Move ι σ ρ L D J E → Option ι
  | .exec i _ => some i
  | .start i _ => some i
  | .stop i => some i
  | .env _ => none

/-- One statement of `i` for its trace. -/
def Sys.record (S : Sys ι σ ρ ε L D J E) (i : ι) (tr : List (Event σ ρ L D)) (w : World ι σ ρ ε L D) :
    Move ι σ ρ L D J E → Option (List (Event σ ρ L D) × World ι σ ρ ε L D)
  | .exec _ answer =>
    match w.proc i with
    | some (.stmt s next, l) =>
      match answer l w.data s with
      | some r =>
        match S.exec i s r l w.data with
        | some (l', d') => some (tr ++ [⟨s, r, l, w.data⟩], w.set i (some (next r, l')) d')
        | none => none
      | none => none
    | _ => none
  | _ => none

/-- The moves of a run in which `i` neither starts nor stops, with its trace. -/
def Sys.follow (S : Sys ι σ ρ ε L D J E) (i : ι) (tr : List (Event σ ρ L D)) (w : World ι σ ρ ε L D) :
    List (Move ι σ ρ L D J E) → Option (List (Event σ ρ L D) × World ι σ ρ ε L D)
  | [] => some (tr, w)
  | m :: ms =>
    if m.mover = some i then
      match S.record i tr w m with
      | some (tr', w') => S.follow i tr' w' ms
      | none => none
    else
      match S.move w m with
      | some w' => S.follow i tr w' ms
      | none => none

/-- Process `i` starts `j`, and the moves follow. -/
def Sys.execute (S : Sys ι σ ρ ε L D J E) (i : ι) (j : J) (w : World ι σ ρ ε L D)
    (ms : List (Move ι σ ρ L D J E)) : Option (List (Event σ ρ L D) × World ι σ ρ ε L D) :=
  match S.move w (.start i j) with
  | some w' => S.follow i [] w' ms
  | none => none

/-- An executed statement moves its process. -/
theorem Sys.move_own {answer : L → D → (s : σ) → Option (ρ s)} (h : S.move w (.exec i answer) = some w') :
    w'.proc i ≠ w.proc i := by
  simp only [Sys.move] at h
  split at h
  next s next l hp =>
    split at h
    next r _ =>
      split at h
      next l' d' _ =>
        obtain rfl := Option.some.inj h
        rw [World.set_self, hp]
        exact fun same => Prog.next_ne r (Prod.mk.inj (Option.some.inj same)).1
      next => simp at h
    next => simp at h
  next => simp at h

/-- A move of another process leaves this one as it is. -/
theorem Sys.move_same {m : Move ι σ ρ L D J E} (h : S.move w m = some w') (other : m.mover ≠ some i) :
    w'.proc i = w.proc i := by
  have apart : ∀ k, m.mover = some k → ∀ q d, (w.set k q d).proc i = w.proc i :=
    fun k hk q d => World.set_other w (fun e => other (hk.trans (congrArg some e.symm))) q d
  cases m with
  | exec k answer =>
    simp only [Sys.move] at h
    split at h
    next =>
      split at h
      next =>
        split at h
        next => cases Option.some.inj h; exact apart k rfl _ _
        next => simp at h
      next => simp at h
    next => simp at h
  | start k j =>
    simp only [Sys.move] at h
    split at h
    next =>
      split at h
      next => cases Option.some.inj h; exact apart k rfl _ _
      next => simp at h
    next => simp at h
  | stop k =>
    simp only [Sys.move] at h
    split at h
    next => simp at h
    next => cases Option.some.inj h; exact apart k rfl _ _
  | env e =>
    simp only [Sys.move] at h
    split at h
    next => cases Option.some.inj h; rfl
    next => simp at h

theorem Execution.record {m : Move ι σ ρ L D J E} (h : Execution S i j w tr w')
    {tr' : List (Event σ ρ L D)} (hm : S.record i tr w' m = some (tr', w'')) : Execution S i j w tr' w'' := by
  cases m with
  | exec k answer =>
    simp only [Sys.record] at hm
    split at hm
    next s next l hp =>
      split at hm
      next r _ =>
        split at hm
        next l' d' hx =>
          obtain ⟨rfl, rfl⟩ := Prod.mk.inj (Option.some.inj hm)
          exact h.exec r hp hx
        next => simp at hm
      next => simp at hm
    next => simp at hm
  | start | stop | env => simp [Sys.record] at hm

theorem Execution.follow {ms : List (Move ι σ ρ L D J E)} (h : Execution S i j w tr w')
    {tr' : List (Event σ ρ L D)} (hm : S.follow i tr w' ms = some (tr', w'')) :
    Execution S i j w tr' w'' := by
  induction ms generalizing tr w' with
  | nil =>
    obtain ⟨rfl, rfl⟩ := Prod.mk.inj (Option.some.inj hm)
    exact h
  | cons m ms ih =>
    simp only [Sys.follow] at hm
    split at hm
    next own =>
      split at hm
      next tr₁ w₁ hr => exact ih (h.record hr) hm
      next => simp at hm
    next other =>
      split at hm
      next w₁ hv => exact ih (h.beside (Sys.move_step hv) (Sys.move_same hv other)) hm
      next => simp at hm

/-- An evaluated execution is an execution. -/
theorem Sys.execute_execution {ms : List (Move ι σ ρ L D J E)} (h : S.execute i j w ms = some (tr, w')) :
    Execution S i j w tr w' := by
  simp only [Sys.execute] at h
  split at h
  next w₁ hm =>
    simp only [Sys.move] at hm
    split at hm
    next idle =>
      split at hm
      next p d' hs =>
        cases Option.some.inj hm
        exact (Execution.start idle hs).follow h
      next => simp at hm
    next => simp at hm
  next => simp at h

end Interleaving
