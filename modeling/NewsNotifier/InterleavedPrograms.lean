import Mathlib.Logic.Relation
import Mathlib.Logic.Function.Basic

namespace Interleaving

/-- A program is a tree of statements, each continued by its answer. -/
inductive Prog (σ : Type) (ρ : σ → Type) (ε α : Type) where
  | ret (a : α)
  | raise (e : ε)
  | stmt (s : σ) (next : ρ s → Prog σ ρ ε α)

namespace Prog

variable {σ : Type} {ρ : σ → Type} {ε α β : Type}

def bind : Prog σ ρ ε α → (α → Prog σ ρ ε β) → Prog σ ρ ε β
  | ret a, f => f a
  | raise e, _ => raise e
  | stmt s next, f => stmt s fun r => (next r).bind f

instance : Monad (Prog σ ρ ε) where
  pure := ret
  bind := bind

/-- The program of one statement, which returns its answer. -/
def call (s : σ) : Prog σ ρ ε (ρ s) := stmt s ret

/-- A `for` loop over a list. -/
def forEach {γ : Type} : List γ → (γ → Prog σ ρ ε Unit) → Prog σ ρ ε Unit
  | [], _ => ret ()
  | x :: xs, f => (f x).bind fun _ => forEach xs f

@[simp] theorem pure_eq (a : α) : (pure a : Prog σ ρ ε α) = ret a := rfl

@[simp] theorem bind_eq (p : Prog σ ρ ε α) (f : α → Prog σ ρ ε β) : p >>= f = p.bind f := rfl

@[simp] theorem ret_bind (a : α) (f : α → Prog σ ρ ε β) : (ret a).bind f = f a := rfl

@[simp] theorem raise_bind (e : ε) (f : α → Prog σ ρ ε β) :
    (raise e : Prog σ ρ ε α).bind f = raise e := rfl

@[simp] theorem stmt_bind (s : σ) (next : ρ s → Prog σ ρ ε α) (f : α → Prog σ ρ ε β) :
    (stmt s next).bind f = stmt s fun r => (next r).bind f := rfl

@[simp] theorem call_bind (s : σ) (f : ρ s → Prog σ ρ ε β) :
    (call s : Prog σ ρ ε (ρ s)).bind f = stmt s f := rfl

theorem bind_assoc {γ : Type} (p : Prog σ ρ ε α) (f : α → Prog σ ρ ε β) (g : β → Prog σ ρ ε γ) :
    (p.bind f).bind g = p.bind fun a => (f a).bind g := by
  induction p with
  | ret a => rfl
  | raise e => rfl
  | stmt s next ih => exact congrArg (stmt s) (funext fun r => ih r)

/-- There is nothing left to execute. -/
def Ended : Prog σ ρ ε α → Prop
  | ret _ => True
  | raise _ => True
  | stmt _ _ => False

/-- Every statement the program can reach satisfies `P`, and every exception it can end with `F`. -/
def Each (P : σ → Prop) (F : ε → Prop) : Prog σ ρ ε α → Prop
  | ret _ => True
  | raise e => F e
  | stmt s next => P s ∧ ∀ r, (next r).Each P F

theorem Each.mono {P P' : σ → Prop} {F F' : ε → Prop} {p : Prog σ ρ ε α} (h : p.Each P F)
    (hP : ∀ s, P s → P' s) (hF : ∀ e, F e → F' e) : p.Each P' F' := by
  induction p with
  | ret a => exact True.intro
  | raise e => exact hF e h
  | stmt s next ih => exact ⟨hP s h.1, fun r => ih r (h.2 r)⟩

theorem Each.bind {P : σ → Prop} {F : ε → Prop} {p : Prog σ ρ ε α} {f : α → Prog σ ρ ε β}
    (hp : p.Each P F) (hf : ∀ a, (f a).Each P F) : (p.bind f).Each P F := by
  induction p with
  | ret a => exact hf a
  | raise e => exact hp
  | stmt s next ih => exact ⟨hp.1, fun r => ih r (hp.2 r)⟩

theorem Each.trivial (p : Prog σ ρ ε α) : p.Each (fun _ => True) fun _ => True := by
  induction p with
  | ret a => exact True.intro
  | raise e => exact True.intro
  | stmt s next ih => exact ⟨True.intro, ih⟩

/-- Every value the program can return satisfies `Y`. -/
def Yields (Y : α → Prop) : Prog σ ρ ε α → Prop
  | ret a => Y a
  | raise _ => True
  | stmt _ next => ∀ r, (next r).Yields Y

theorem Yields.bind {Y : α → Prop} {Z : β → Prop} {p : Prog σ ρ ε α} {f : α → Prog σ ρ ε β}
    (hp : p.Yields Y) (hf : ∀ a, Y a → (f a).Yields Z) : (p.bind f).Yields Z := by
  induction p with
  | ret a => exact hf a hp
  | raise e => exact True.intro
  | stmt s next ih => exact fun r => ih r (hp r)

theorem Yields.trivial (p : Prog σ ρ ε α) : p.Yields fun _ => True := by
  induction p with
  | ret a => exact True.intro
  | raise e => exact True.intro
  | stmt s next ih => exact ih

theorem Each.forEach {γ : Type} {P : σ → Prop} {F : ε → Prop} {f : γ → Prog σ ρ ε Unit} {xs : List γ}
    (hf : ∀ x ∈ xs, (f x).Each P F) : (Prog.forEach xs f).Each P F := by
  induction xs with
  | nil => exact True.intro
  | cons x xs ih =>
    exact (hf x List.mem_cons_self).bind fun _ => ih fun y hy => hf y (List.mem_cons_of_mem _ hy)

/-- Along statements that satisfy `P` the program raises an exception that satisfies `F`, or goes on as
a program in `R`. -/
inductive Leads (P : σ → Prop) (F : ε → Prop) (R : Prog σ ρ ε α → Prop) : Prog σ ρ ε α → Prop
  | last {p : Prog σ ρ ε α} (h : R p) : Leads P F R p
  | raise {e : ε} (h : F e) : Leads P F R (.raise e)
  | stmt {s : σ} {next : ρ s → Prog σ ρ ε α} (asked : P s) (rest : ∀ r, Leads P F R (next r)) :
    Leads P F R (.stmt s next)

theorem Leads.bind {P : σ → Prop} {F : ε → Prop} {R : Prog σ ρ ε β → Prop} {p : Prog σ ρ ε α}
    {f : α → Prog σ ρ ε β} (hp : p.Each P F) (hf : ∀ a, (f a).Leads P F R) : (p.bind f).Leads P F R := by
  induction p with
  | ret a => exact hf a
  | raise e => exact .raise hp
  | stmt s next ih => exact .stmt hp.1 fun r => ih r (hp.2 r)

theorem Leads.mono {P : σ → Prop} {F : ε → Prop} {R R' : Prog σ ρ ε α → Prop} {p : Prog σ ρ ε α}
    (h : p.Leads P F R) (hR : ∀ q, R q → R' q) : p.Leads P F R' := by
  induction h with
  | last h => exact .last (hR _ h)
  | raise h => exact .raise h
  | stmt asked _ ih => exact .stmt asked ih

theorem Leads.each {P : σ → Prop} {F : ε → Prop} {R : Prog σ ρ ε α → Prop} {p : Prog σ ρ ε α}
    (h : p.Leads P F R) (last : ∀ q, R q → q.Each P F) : p.Each P F := by
  induction h with
  | last h => exact last _ h
  | raise h => exact h
  | stmt asked _ ih => exact ⟨asked, ih⟩

end Prog

/-- Processes named by `ι` run programs over shared data `D`, each with a private part `L`.
An execution of a statement is given its answer and says whether this answer is possible. -/
structure Sys (ι σ : Type) (ρ : σ → Type) (ε L D J E : Type) where
  idle : L
  exec : ι → (s : σ) → ρ s → L → D → Option (L × D)
  start : ι → J → D → Option (Prog σ ρ ε Unit × D)
  stop : ι → D → D
  env : E → D → Option D

structure World (ι σ : Type) (ρ : σ → Type) (ε L D : Type) where
  data : D
  proc : ι → Option (Prog σ ρ ε Unit × L)

variable {ι σ : Type} {ρ : σ → Type} {ε L D J E : Type} [DecidableEq ι]

def World.set (w : World ι σ ρ ε L D) (i : ι) (q : Option (Prog σ ρ ε Unit × L)) (d : D) :
    World ι σ ρ ε L D :=
  ⟨d, Function.update w.proc i q⟩

@[simp] theorem World.set_data (w : World ι σ ρ ε L D) (i : ι)
    (q : Option (Prog σ ρ ε Unit × L)) (d : D) : (w.set i q d).data = d := rfl

@[simp] theorem World.set_self (w : World ι σ ρ ε L D) (i : ι)
    (q : Option (Prog σ ρ ε Unit × L)) (d : D) : (w.set i q d).proc i = q := by
  simp [World.set]

theorem World.set_other (w : World ι σ ρ ε L D) {i j : ι} (h : j ≠ i)
    (q : Option (Prog σ ρ ε Unit × L)) (d : D) : (w.set i q d).proc j = w.proc j := by
  simp [World.set, h]

/-- One step of a world: a process executes its next statement, a job starts as a process, a
process ends (returned, raised or killed at any point), or the environment acts. -/
inductive Step (S : Sys ι σ ρ ε L D J E) :
    World ι σ ρ ε L D → World ι σ ρ ε L D → Prop
  | exec {w : World ι σ ρ ε L D} {i : ι} {s : σ} {next : ρ s → Prog σ ρ ε Unit} {l l' : L}
      {d' : D} (r : ρ s) (hp : w.proc i = some (.stmt s next, l))
      (hx : S.exec i s r l w.data = some (l', d')) : Step S w (w.set i (some (next r, l')) d')
  | start {w : World ι σ ρ ε L D} {i : ι} {j : J} {p : Prog σ ρ ε Unit} {d' : D}
      (hp : w.proc i = none) (hs : S.start i j w.data = some (p, d')) :
      Step S w (w.set i (some (p, S.idle)) d')
  | stop {w : World ι σ ρ ε L D} {i : ι} (hp : w.proc i ≠ none) :
      Step S w (w.set i none (S.stop i w.data))
  | env {w : World ι σ ρ ε L D} {e : E} {d' : D} (he : S.env e w.data = some d') :
      Step S w ⟨d', w.proc⟩

abbrev Steps (S : Sys ι σ ρ ε L D J E) := Relation.ReflTransGen (Step S)

/-- The worlds reached from data `d` with no process running. -/
def Reachable (S : Sys ι σ ρ ε L D J E) (d : D) (w : World ι σ ρ ε L D) : Prop :=
  Steps S ⟨d, fun _ => none⟩ w

/-- A move names who acts and how a statement is answered, so that a run can be evaluated. -/
inductive Move (ι σ : Type) (ρ : σ → Type) (L D J E : Type) where
  | exec (i : ι) (answer : L → D → (s : σ) → Option (ρ s))
  | start (i : ι) (j : J)
  | stop (i : ι)
  | env (e : E)

def Sys.move (S : Sys ι σ ρ ε L D J E) (w : World ι σ ρ ε L D) :
    Move ι σ ρ L D J E → Option (World ι σ ρ ε L D)
  | .exec i answer =>
    match w.proc i with
    | some (.stmt s next, l) =>
      match answer l w.data s with
      | some r =>
        match S.exec i s r l w.data with
        | some (l', d') => some (w.set i (some (next r, l')) d')
        | none => none
      | none => none
    | _ => none
  | .start i j =>
    match w.proc i with
    | none =>
      match S.start i j w.data with
      | some (p, d') => some (w.set i (some (p, S.idle)) d')
      | none => none
    | some _ => none
  | .stop i =>
    match w.proc i with
    | none => none
    | some _ => some (w.set i none (S.stop i w.data))
  | .env e =>
    match S.env e w.data with
    | some d' => some ⟨d', w.proc⟩
    | none => none

def Sys.run (S : Sys ι σ ρ ε L D J E) (w : World ι σ ρ ε L D) :
    List (Move ι σ ρ L D J E) → Option (World ι σ ρ ε L D)
  | [] => some w
  | m :: ms =>
    match S.move w m with
    | some w' => S.run w' ms
    | none => none

theorem Sys.move_step {S : Sys ι σ ρ ε L D J E} {w w' : World ι σ ρ ε L D}
    {m : Move ι σ ρ L D J E} (h : S.move w m = some w') : Step S w w' := by
  cases m with
  | exec i answer =>
    simp only [Sys.move] at h
    split at h
    next s next l hp =>
      split at h
      next r hr =>
        split at h
        next l' d' hx => cases Option.some.inj h; exact .exec r hp hx
        next => simp at h
      next => simp at h
    next => simp at h
  | start i j =>
    simp only [Sys.move] at h
    split at h
    next hp =>
      split at h
      next p d' hs => cases Option.some.inj h; exact .start hp hs
      next => simp at h
    next => simp at h
  | stop i =>
    simp only [Sys.move] at h
    split at h
    next => simp at h
    next q hp => cases Option.some.inj h; exact .stop (by simp [hp])
  | env e =>
    simp only [Sys.move] at h
    split at h
    next d' he => cases Option.some.inj h; exact .env he
    next => simp at h

/-- An evaluated run is a run. -/
theorem Sys.run_steps {S : Sys ι σ ρ ε L D J E} {w w' : World ι σ ρ ε L D}
    {ms : List (Move ι σ ρ L D J E)} (h : S.run w ms = some w') : Steps S w w' := by
  induction ms generalizing w with
  | nil => cases Option.some.inj h; exact .refl
  | cons m ms ih =>
    simp only [Sys.run] at h
    split at h
    next w₁ hm => exact .head (Sys.move_step hm) (ih h)
    next => simp at h

theorem Sys.run_reaches {S : Sys ι σ ρ ε L D J E} {w : World ι σ ρ ε L D}
    {ms : List (Move ι σ ρ L D J E)} {p : World ι σ ρ ε L D → Bool}
    (h : (S.run w ms).map p = some true) : ∃ w', Steps S w w' ∧ p w' = true := by
  obtain ⟨w', hr, hp⟩ := Option.map_eq_some_iff.mp h
  exact ⟨w', Sys.run_steps hr, hp⟩

end Interleaving
