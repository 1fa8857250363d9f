import NewsNotifier.ExecutionTraces

namespace Interleaving

variable {ι σ : Type} {ρ : σ → Type} {ε L D J E M : Type}

/-- An execution of a process: where it started, what it executed, and where it stopped. -/
structure Round (ι σ : Type) (ρ : σ → Type) (ε L D J : Type) where
  job : J
  first : World ι σ ρ ε L D
  trace : List (Event σ ρ L D)
  last : World ι σ ρ ε L D

/-- The program has returned or raised. -/
def Prog.ended {α : Type} : Prog σ ρ ε α → Bool
  | ret _ => true
  | raise _ => true
  | stmt _ _ => false

/-- The process is at the end of its program. -/
def World.ended (w : World ι σ ρ ε L D) (i : ι) : Bool :=
  match w.proc i with
  | some (p, _) => p.ended
  | none => false

namespace Monitor

variable {O : Monitor σ ρ M}

/-- A flag that the monitor raises at some statements tells whether one of them was executed. -/
theorem observe_flag (flag : M → Bool) (raises : (s : σ) → ρ s → Bool)
    (next : ∀ m s r, flag (O.next m s r) = (flag m || raises s r)) (m : M) (tr : List (Event σ ρ L D)) :
    flag (O.observe m tr) = (flag m || tr.any fun e => raises e.stmt e.answer) := by
  induction tr generalizing m with
  | nil => exact (Bool.or_false _).symm
  | cons e tr ih =>
    have rest := ih (O.next m e.stmt e.answer)
    rw [next, Bool.or_assoc] at rest
    exact rest

end Monitor

variable [DecidableEq ι] {S : Sys ι σ ρ ε L D J E} {i : ι} {w w' w'' : World ι σ ρ ε L D}

/-- A run from `w`, cut at the executions that `i` has stopped. -/
inductive Rounds (S : Sys ι σ ρ ε L D J E) (i : ι) (w : World ι σ ρ ε L D) :
    List (Round ι σ ρ ε L D J) → World ι σ ρ ε L D → Prop
  | none : Rounds S i w [] w
  | beside {rs : List (Round ι σ ρ ε L D J)} {w' w'' : World ι σ ρ ε L D} (before : Rounds S i w rs w')
      (step : Step S w' w'') (same : w''.proc i = w'.proc i) : Rounds S i w rs w''
  | round {rs : List (Round ι σ ρ ε L D J)} {w' w'' : World ι σ ρ ε L D} {j : J} {tr : List (Event σ ρ L D)}
      (before : Rounds S i w rs w') (run : Execution S i j w' tr w'') :
      Rounds S i w (rs ++ [⟨j, w', tr, w''⟩]) (w''.set i none (S.stop i w''.data))

theorem Execution.stop {j : J} {tr : List (Event σ ρ L D)} (h : Execution S i j w tr w') :
    Step S w' (w'.set i none (S.stop i w'.data)) := by
  obtain ⟨p, l, live⟩ := h.alive
  exact .stop (by simp [live])

theorem Rounds.steps {rs : List (Round ι σ ρ ε L D J)} (h : Rounds S i w rs w') : Steps S w w' := by
  induction h with
  | none => exact .refl
  | beside _ step _ ih => exact ih.tail step
  | round _ run ih => exact (ih.trans run.steps).tail run.stop

/-- The jobs of `i` one after the other, each with the moves of its execution. -/
def Sys.rounds (S : Sys ι σ ρ ε L D J E) (i : ι) (rs : List (Round ι σ ρ ε L D J)) (w : World ι σ ρ ε L D) :
    List (J × List (Move ι σ ρ L D J E)) → Option (List (Round ι σ ρ ε L D J) × World ι σ ρ ε L D)
  | [] => some (rs, w)
  | (j, ms) :: js =>
    match S.execute i j w ms with
    | some (tr, w') => S.rounds i (rs ++ [⟨j, w, tr, w'⟩]) (w'.set i none (S.stop i w'.data)) js
    | none => none

theorem Rounds.rounds {w₀ : World ι σ ρ ε L D} {js : List (J × List (Move ι σ ρ L D J E))}
    {rs rs' : List (Round ι σ ρ ε L D J)} (h : Rounds S i w₀ rs w) (hs : S.rounds i rs w js = some (rs', w')) :
    Rounds S i w₀ rs' w' := by
  induction js generalizing rs w with
  | nil =>
    obtain ⟨rfl, rfl⟩ := Prod.mk.inj (Option.some.inj hs)
    exact h
  | cons job js ih =>
    simp only [Sys.rounds] at hs
    split at hs
    next tr w₁ found => exact ih (h.round (Sys.execute_execution found)) hs
    next => simp at hs

end Interleaving
