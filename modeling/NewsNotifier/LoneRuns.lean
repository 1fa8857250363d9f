import NewsNotifier.ExecutionTraces

namespace Interleaving

variable {ι σ : Type} {ρ : σ → Type} {ε L D J E : Type} {α β γ : Type}

/-- Some answers lead the program, run alone after `h` was said, to an end that meets `Q`. -/
def Prog.Can (S : Sys ι σ ρ ε L D J E) (i : ι) :
    Prog σ ρ ε α → (List (Said ρ) → α → L → D → Prop) → List (Said ρ) → L → D → Prop
  | .ret a, Q, h, l, d => Q h a l d
  | .raise _, _, _, _, _ => False
  | .stmt s next, Q, h, l, d => ∃ r l' d', S.exec i s r l d = some (l', d') ∧ Can S i (next r) Q (h ++ [⟨s, r⟩]) l' d'

section Can

variable {S : Sys ι σ ρ ε L D J E} {i : ι} {p : Prog σ ρ ε α} {Q Q' : List (Said ρ) → α → L → D → Prop}
  {h : List (Said ρ)} {l : L} {d : D}

theorem Prog.Can.mono (can : p.Can S i Q h l d) (hQ : ∀ h a l d, Q h a l d → Q' h a l d) : p.Can S i Q' h l d := by
  induction p generalizing h l d with
  | ret a => exact hQ h a l d can
  | raise e => exact can
  | stmt s next ih =>
    obtain ⟨r, l', d', hx, rest⟩ := can
    exact ⟨r, l', d', hx, ih r rest⟩

theorem Prog.Can.bind {f : α → Prog σ ρ ε β} {Q : List (Said ρ) → β → L → D → Prop}
    (can : p.Can S i (fun h a l d => (f a).Can S i Q h l d) h l d) : (p.bind f).Can S i Q h l d := by
  induction p generalizing h l d with
  | ret a => exact can
  | raise e => exact can.elim
  | stmt s next ih =>
    obtain ⟨r, l', d', hx, rest⟩ := can
    exact ⟨r, l', d', hx, ih r rest⟩

/-- A loop, by what each round leaves to the rest. -/
theorem Prog.Can.forEach {f : γ → Prog σ ρ ε Unit} {K : List γ → List (Said ρ) → L → D → Prop}
    (round : ∀ x xs h l d, K (x :: xs) h l d → (f x).Can S i (fun h _ => K xs h) h l d) (xs : List γ)
    (start : K xs h l d) : (Prog.forEach xs f).Can S i (fun h _ => K [] h) h l d := by
  induction xs generalizing h l d with
  | nil => exact start
  | cons x xs ih => exact ((round x xs h l d start).mono fun _ _ _ _ hk => ih hk).bind

end Can

variable [DecidableEq ι] {S : Sys ι σ ρ ε L D J E} {w w' : World ι σ ρ ε L D} {i : ι} {j : J}

/-- The process starts the job at `w` and executes the trace, and nobody else moves. -/
inductive Alone (S : Sys ι σ ρ ε L D J E) (i : ι) (j : J) (w : World ι σ ρ ε L D) :
    List (Event σ ρ L D) → World ι σ ρ ε L D → Prop
  | start {p : Prog σ ρ ε Unit} {d' : D} (idle : w.proc i = none) (hs : S.start i j w.data = some (p, d')) :
      Alone S i j w [] (w.set i (some (p, S.idle)) d')
  | exec {tr : List (Event σ ρ L D)} {w' : World ι σ ρ ε L D} {s : σ} {next : ρ s → Prog σ ρ ε Unit} {l l' : L}
      {d' : D} (before : Alone S i j w tr w') (r : ρ s) (hp : w'.proc i = some (.stmt s next, l))
      (hx : S.exec i s r l w'.data = some (l', d')) :
      Alone S i j w (tr ++ [⟨s, r, l, w'.data⟩]) (w'.set i (some (next r, l')) d')

/-- The job runs alone from its start to the end of its program, and is over. -/
def Completes (S : Sys ι σ ρ ε L D J E) (i : ι) (j : J) (w : World ι σ ρ ε L D) (tr : List (Event σ ρ L D))
    (w' : World ι σ ρ ε L D) : Prop :=
  ∃ v l, Alone S i j w tr v ∧ v.proc i = some (.ret (), l) ∧ w' = v.set i none (S.stop i v.data)

/-- Processes are stopped and time passes, and nothing else happens. -/
inductive Restarts (S : Sys ι σ ρ ε L D J E) (w : World ι σ ρ ε L D) : World ι σ ρ ε L D → Prop
  | refl : Restarts S w w
  | stop {w' : World ι σ ρ ε L D} (before : Restarts S w w') {i : ι} (live : w'.proc i ≠ none) :
      Restarts S w (w'.set i none (S.stop i w'.data))
  | env {w' : World ι σ ρ ε L D} (before : Restarts S w w') {e : E} {d : D} (he : S.env e w'.data = some d) :
      Restarts S w ⟨d, w'.proc⟩

theorem Alone.execution {tr : List (Event σ ρ L D)} (h : Alone S i j w tr w') : Execution S i j w tr w' := by
  induction h with
  | start idle hs => exact .start idle hs
  | exec _ r hp hx ih => exact ih.exec r hp hx

theorem Completes.steps {tr : List (Event σ ρ L D)} (h : Completes S i j w tr w') : Steps S w w' := by
  obtain ⟨v, l, alone, ended, rfl⟩ := h
  exact alone.execution.steps.tail (.stop (by simp [ended]))

theorem Restarts.steps (h : Restarts S w w') : Steps S w w' := by
  induction h with
  | refl => exact .refl
  | stop _ live ih => exact ih.tail (.stop live)
  | env _ he ih => exact ih.tail (.env he)

/-- What a process can do alone it does in some run. -/
theorem Prog.Can.reaches {p : Prog σ ρ ε Unit} {Q : List (Said ρ) → L → D → Prop} {v : World ι σ ρ ε L D}
    {tr : List (Event σ ρ L D)} {l : L} (can : p.Can S i (fun h _ => Q h) (tr.map Event.said) l v.data)
    (before : Alone S i j w tr v) (hp : v.proc i = some (p, l)) :
    ∃ tr' v' l', Alone S i j w tr' v' ∧ v'.proc i = some (.ret (), l') ∧ Q (tr'.map Event.said) l' v'.data ∧
      ∀ k, k ≠ i → v'.proc k = v.proc k := by
  induction p generalizing v tr l with
  | ret a => exact ⟨tr, v, l, before, hp, can, fun _ _ => rfl⟩
  | raise e => exact can.elim
  | stmt s next ih =>
    obtain ⟨r, l', d', hx, rest⟩ := can
    have live : (v.set i (some (next r, l')) d').proc i = some (next r, l') := World.set_self ..
    have said : (tr ++ [(⟨s, r, l, v.data⟩ : Event σ ρ L D)]).map Event.said = tr.map Event.said ++ [⟨s, r⟩] := by
      simp [Event.said]
    rw [← said] at rest
    obtain ⟨tr', v', l'', alone, ended, q, others⟩ := ih r rest (before.exec r hp hx) live
    exact ⟨tr', v', l'', alone, ended, q, fun k other => (others k other).trans (World.set_other v other _ _)⟩

/-- A job that can be done alone by a process that is not busy is done and over in some run. -/
theorem Sys.does {p : Prog σ ρ ε Unit} {d : D} {Q : List (Said ρ) → L → D → Prop} (idle : ∀ i, w.proc i = none)
    (hs : S.start i j w.data = some (p, d)) (can : p.Can S i (fun h _ => Q h) [] S.idle d) :
    ∃ w' tr l d', Completes S i j w tr w' ∧ (∀ i, w'.proc i = none) ∧ Q (tr.map Event.said) l d' ∧
      w'.data = S.stop i d' := by
  have live : (w.set i (some (p, S.idle)) d).proc i = some (p, S.idle) := World.set_self ..
  obtain ⟨tr, w₁, l, alone, ended, q, others⟩ :=
    can.reaches (v := w.set i (some (p, S.idle)) d) (.start (idle i) hs) live
  refine ⟨w₁.set i none (S.stop i w₁.data), tr, l, w₁.data, ⟨w₁, l, alone, ended, rfl⟩, fun k => ?_, q, rfl⟩
  by_cases same : k = i
  · exact same ▸ World.set_self ..
  · rw [World.set_other _ same, others k same, World.set_other _ same]
    exact idle k

/-- Only finitely many processes are live in a run. -/
theorem Steps.finite (h : Steps S w w') (is : List ι) (listed : ∀ i, i ∉ is → w.proc i = none) :
    ∃ is : List ι, ∀ i, i ∉ is → w'.proc i = none := by
  induction h with
  | refl => exact ⟨is, listed⟩
  | @tail w₁ w₂ _ step ih =>
    obtain ⟨is, listed⟩ := ih
    have set : ∀ i q d, ∃ is : List ι, ∀ j, j ∉ is → (w₁.set i q d).proc j = none := by
      refine fun i q d => ⟨i :: is, fun j out => ?_⟩
      obtain ⟨other, out⟩ := not_or.mp fun mem => out (List.mem_cons.mpr mem)
      rw [World.set_other w₁ other]
      exact listed j out
    cases step with
    | exec => exact set _ _ _
    | start => exact set _ _ _
    | stop => exact set _ _ _
    | env => exact ⟨is, listed⟩

/-- Every run can be brought to rest: all that is live is stopped. -/
theorem Steps.rest (h : Steps S w w') (idle : ∀ i, w.proc i = none) {P : D → Prop} (keep : ∀ i d, P d → P (S.stop i d))
    (now : P w'.data) : ∃ w'', Restarts S w' w'' ∧ (∀ i, w''.proc i = none) ∧ P w''.data := by
  obtain ⟨is, listed⟩ := h.finite [] fun i _ => idle i
  clear h
  have stops : ∀ (is : List ι) (v : World ι σ ρ ε L D), Restarts S w' v → P v.data → (∀ i, i ∉ is → v.proc i = none) →
      ∃ w'', Restarts S w' w'' ∧ (∀ i, w''.proc i = none) ∧ P w''.data := by
    intro is
    induction is with
    | nil => exact fun v before now listed => ⟨v, before, fun i => listed i List.not_mem_nil, now⟩
    | cons i is ih =>
      intro v before now listed
      have elsewhere : ∀ k, k ∉ is → k ≠ i → v.proc k = none := fun k out other =>
        listed k fun mem => (List.mem_cons.mp mem).elim other out
      by_cases live : v.proc i = none
      · refine ih v before now fun k out => ?_
        by_cases same : k = i
        · exact same ▸ live
        · exact elsewhere k out same
      · refine ih _ (before.stop live) (keep i _ now) fun k out => ?_
        by_cases same : k = i
        · exact same ▸ World.set_self ..
        · rw [World.set_other v same]
          exact elsewhere k out same
  exact stops is w' .refl now listed

end Interleaving
