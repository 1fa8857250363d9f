import NewsNotifier.ExecutionTraces
import NewsNotifier.InterleavedTotal

namespace Interleaving

namespace Prog

section Known

variable {σ : Type} {ρ : σ → Type} {ε α β γ : Type}

/-- Once all of `known` has been said, the program asks what `A` lets it ask after what was said. -/
def Knowing (A : List (Said ρ) → σ → Prop) (known : List (Said ρ)) (p : Prog σ ρ ε α) : Prop :=
  ∀ h, known ⊆ h → p.Obeys (Monitor.history (fun _ _ _ => True) A) (fun _ _ => True) (fun _ _ => True) h

namespace Knowing

variable {A : List (Said ρ) → σ → Prop} {known more : List (Said ρ)} {p : Prog σ ρ ε α}

theorem ret (a : α) : (Prog.ret a : Prog σ ρ ε α).Knowing A known := fun _ _ => True.intro

theorem raise (e : ε) : (Prog.raise e : Prog σ ρ ε α).Knowing A known := fun _ _ => True.intro

theorem stmt {s : σ} {next : ρ s → Prog σ ρ ε α} (asked : ∀ h, known ⊆ h → A h s)
    (rest : ∀ r, (next r).Knowing A (⟨s, r⟩ :: known)) : (Prog.stmt s next).Knowing A known := by
  intro h sub
  refine ⟨asked h sub, fun r _ => rest r _ ?_⟩
  refine List.cons_subset.mpr ⟨by simp [Monitor.history], List.Subset.trans sub ?_⟩
  exact List.subset_append_left _ _

theorem mono (h : p.Knowing A known) (sub : known ⊆ more) : p.Knowing A more :=
  fun said all => h said (List.Subset.trans sub all)

theorem bind {f : α → Prog σ ρ ε β} (hp : p.Knowing A known) (hf : ∀ a, (f a).Knowing A known) :
    (p.bind f).Knowing A known := by
  intro h sub
  have first := hp h sub
  clear hp
  induction p generalizing h with
  | ret a => exact hf a h sub
  | raise e => exact True.intro
  | stmt s next ih =>
    exact ⟨first.1, fun r given => ih r _ (List.Subset.trans sub (List.subset_append_left _ _)) (first.2 r given)⟩

theorem forEach {xs : List γ} {f : γ → Prog σ ρ ε Unit} (h : ∀ x ∈ xs, (f x).Knowing A known) :
    (Prog.forEach xs f).Knowing A known := by
  induction xs with
  | nil => exact .ret ()
  | cons x xs ih => exact (h x List.mem_cons_self).bind fun _ => ih fun y hy => h y (List.mem_cons_of_mem _ hy)

theorem within {leave : Prog σ ρ ε Unit} (hp : p.Knowing A known) (hl : leave.Knowing A known) :
    (Prog.within leave p).Knowing A known := by
  intro h sub
  have first := hp h sub
  clear hp
  induction p generalizing h with
  | ret a => exact (hl.bind fun _ => ret a) h sub
  | raise e => exact (hl.bind fun _ => raise e) h sub
  | stmt s next ih =>
    exact ⟨first.1, fun r given => ih r _ (List.Subset.trans sub (List.subset_append_left _ _)) (first.2 r given)⟩

theorem of_each {P : σ → Prop} {F : ε → Prop} (h : p.Each P F) (asked : ∀ said s, P s → A said s) :
    p.Knowing A known :=
  fun said _ => h.obeys (fun m s hs => asked m s hs) said

end Knowing

end Known

end Prog

variable {ι σ : Type} {ρ : σ → Type} {ε L D J E : Type} [DecidableEq ι] {S : Sys ι σ ρ ε L D J E}

/-- Process `i` executes `j`; its trace ends with a statement that brings the data to satisfy `P`. -/
structure Brings (S : Sys ι σ ρ ε L D J E) (P : D → Prop) (i : ι) (j : J) (w : World ι σ ρ ε L D)
    (tr : List (Event σ ρ L D)) (e : Event σ ρ L D) (w₁ w₂ : World ι σ ρ ε L D) : Prop where
  before : Execution S i j w tr w₁
  after : Execution S i j w (tr ++ [e]) w₂
  found : w₁.data = e.data
  executed : ∃ next l', w₁.proc i = some (.stmt e.stmt next, e.before) ∧
    S.exec i e.stmt e.answer e.before e.data = some (l', w₂.data) ∧ w₂.proc i = some (next e.answer, l')
  unseen : ¬ P e.data
  holds : P w₂.data

/-- What neither a start nor an end nor the environment can bring about was brought about by a
statement that some process executed. -/
theorem Steps.origin {P : D → Prop} {w₀ w : World ι σ ρ ε L D} (idle : ∀ i, w₀.proc i = none)
    (run : Steps S w₀ w) (start : ∀ {i j d p d'}, S.start i j d = some (p, d') → P d' → P d)
    (stop : ∀ {i d}, P (S.stop i d) → P d) (env : ∀ {x d d'}, S.env x d = some d' → P d' → P d)
    (first : ¬ P w₀.data) (last : P w.data) :
    ∃ i j v tr e w₁ w₂, Steps S w₀ v ∧ Brings S P i j v tr e w₁ w₂ ∧ Steps S w₂ w := by
  rcases Steps.last_change (fun w => P w.data) run with kept | ⟨v, v', before, step, changed, kept⟩
  · exact absurd (kept.steps.2 ▸ last) first
  · have now : P v'.data := kept.steps.2 ▸ last
    have unseen : ¬ P v.data := fun old => changed (by simp [old, now])
    cases step with
    | @exec i s next l l' d' r hp hx =>
      obtain ⟨u, j, tr, reach, execution⟩ := Execution.exists (idle i) before hp
      exact ⟨i, j, u, tr, ⟨s, r, l, v.data⟩, v, _, reach, ⟨execution, execution.exec r hp hx, rfl,
        ⟨next, l', hp, hx, World.set_self _ _ _ _⟩, unseen, now⟩, kept.steps.1⟩
    | start hp hs => exact absurd (start hs now) unseen
    | stop hp => exact absurd (stop now) unseen
    | env he => exact absurd (env he now) unseen

/-- What was said before an event stands in the trace and was executed. -/
theorem Execution.said_event {i : ι} {j : J} {w w' : World ι σ ρ ε L D} {tr before after : List (Event σ ρ L D)}
    {e : Event σ ρ L D} (run : Execution S i j w tr w') (split : tr = before ++ e :: after) {s : σ} {r : ρ s}
    (said : ⟨s, r⟩ ∈ before.map Event.said) : ∃ b₁ b₂ l d l' d', tr = b₁ ++ (⟨s, r, l, d⟩ : Event σ ρ L D) :: b₂ ∧
      S.exec i s r l d = some (l', d') := by
  obtain ⟨⟨s', r', l, d⟩, mem, same⟩ := List.mem_map.mp said
  obtain ⟨rfl, answer⟩ := Sigma.mk.inj same
  obtain rfl := eq_of_heq answer
  obtain ⟨b₁, b₂, parts⟩ := List.append_of_mem mem
  have split' : tr = b₁ ++ (⟨s', r', l, d⟩ : Event σ ρ L D) :: (b₂ ++ e :: after) := by simp [split, parts]
  obtain ⟨_, _, l', d', _, _, _, hx, _⟩ := run.split split'
  exact ⟨b₁, _, l, d, l', d', split', hx⟩

end Interleaving
