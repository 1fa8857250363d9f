import NewsNotifier.InterleavedPrograms

namespace Interleaving

/-- What a process may assume of the others and owes at each of its own steps. -/
structure Terms (D : Type) where
  inv : D → Prop
  rely : D → D → Prop
  guar : D → D → Prop
  rely_refl : ∀ d, rely d d
  rely_trans : ∀ {d d' d''}, rely d d' → rely d' d'' → rely d d''

variable {ι σ : Type} {ρ : σ → Type} {ε L D J E : Type} {α β γ : Type}

/-- Weakest precondition: whatever the others do between two statements, every step keeps the
guarantee, a returned value meets `Q` and a raised exception meets `F`. -/
def wp (S : Sys ι σ ρ ε L D J E) (T : Terms D) (i : ι) :
    Prog σ ρ ε α → (α → L → D → Prop) → (ε → Prop) → L → D → Prop
  | .ret a, Q, _, l, d => ∀ d', T.rely d d' → T.inv d' → Q a l d'
  | .raise e, _, F, _, d => ∀ d', T.rely d d' → T.inv d' → F e
  | .stmt s next, Q, F, l, d => ∀ d', T.rely d d' → T.inv d' → ∀ r l' d'',
      S.exec i s r l d' = some (l', d'') →
        T.guar d' d'' ∧ wp S T i (next r) Q F l' d''

variable {S : Sys ι σ ρ ε L D J E} {T : Terms D} {i : ι} {p : Prog σ ρ ε α}
  {Q Q' : α → L → D → Prop} {F F' : ε → Prop} {l : L} {d d' : D}

theorem wp_rely (h : wp S T i p Q F l d) (hr : T.rely d d') : wp S T i p Q F l d' := by
  cases p with
  | ret a => exact fun d'' h' hi => h d'' (T.rely_trans hr h') hi
  | raise e => exact fun d'' h' hi => h d'' (T.rely_trans hr h') hi
  | stmt s next => exact fun d'' h' hi => h d'' (T.rely_trans hr h') hi

theorem wp_of_rely (h : ∀ d', T.rely d d' → T.inv d' → wp S T i p Q F l d') :
    wp S T i p Q F l d := by
  cases p with
  | ret a => exact fun d' hr hi => h d' hr hi d' (T.rely_refl d') hi
  | raise e => exact fun d' hr hi => h d' hr hi d' (T.rely_refl d') hi
  | stmt s next => exact fun d' hr hi => h d' hr hi d' (T.rely_refl d') hi

theorem wp_mono (h : wp S T i p Q F l d)
    (hQ : ∀ a l d, T.inv d → Q a l d → Q' a l d) (hF : ∀ e, F e → F' e) :
    wp S T i p Q' F' l d := by
  induction p generalizing l d with
  | ret a => exact fun d' hr hi => hQ a l d' hi (h d' hr hi)
  | raise e => exact fun d' hr hi => hF e (h d' hr hi)
  | stmt s next ih =>
    intro d' hr hi r l' d'' hx
    obtain ⟨hg, hn⟩ := h d' hr hi r l' d'' hx
    exact ⟨hg, ih r hn⟩

/-- Sequencing: what follows is proved where the first part ends. -/
theorem wp_bind {f : α → Prog σ ρ ε β} {Q : β → L → D → Prop}
    (h : wp S T i p (fun a l d => T.inv d → wp S T i (f a) Q F l d) F l d) :
    wp S T i (p.bind f) Q F l d := by
  induction p generalizing l d with
  | ret a => exact wp_of_rely fun d' hr hi => h d' hr hi hi
  | raise e => exact h
  | stmt s next ih =>
    intro d' hr hi r l' d'' hx
    obtain ⟨hg, hn⟩ := h d' hr hi r l' d'' hx
    exact ⟨hg, ih r hn⟩

/-- A loop keeps what each round keeps. -/
theorem wp_forEach {f : γ → Prog σ ρ ε Unit} {K : L → D → Prop} (xs : List γ)
    (hK : ∀ x ∈ xs, ∀ l d, T.inv d → K l d → wp S T i (f x) (fun _ => K) F l d)
    (stable : ∀ l d d', T.rely d d' → T.inv d' → K l d → K l d') (h : K l d) :
    wp S T i (Prog.forEach xs f) (fun _ => K) F l d := by
  induction xs generalizing l d with
  | nil => exact fun d' hr hi => stable l d d' hr hi h
  | cons x xs ih =>
    refine wp_of_rely fun d' hr hi => wp_bind ?_
    refine wp_mono (hK x (by simp) l d' hi (stable l d d' hr hi h)) ?_ fun _ h => h
    exact fun _ l d _ hk _ => ih (fun y hy => hK y (by simp [hy])) hk

/-- A program whose statements all keep `K` and the guarantee meets its terms from `K`. -/
theorem wp_of_each {P : σ → Prop} {K : L → D → Prop} (hp : p.Each P F)
    (stable : ∀ l d d', T.rely d d' → T.inv d' → K l d → K l d')
    (keep : ∀ s, P s → ∀ r l d l' d', K l d → T.inv d → S.exec i s r l d = some (l', d') →
      T.guar d d' ∧ K l' d')
    (h : K l d) : wp S T i p (fun _ => K) F l d := by
  induction p generalizing l d with
  | ret a => exact fun d' hr hi => stable l d d' hr hi h
  | raise e => exact fun _ _ _ => hp
  | stmt s next ih =>
    intro d' hr hi r l' d'' hx
    obtain ⟨hg, hk⟩ := keep s hp.1 r l d' l' d'' (stable l d d' hr hi h) hi hx
    exact ⟨hg, ih r (hp.2 r) hk⟩

/-- What every returned value satisfies holds at the end as well. -/
theorem wp_yields {Y : α → Prop} (hy : p.Yields Y) (h : wp S T i p Q F l d) :
    wp S T i p (fun a l d => Q a l d ∧ Y a) F l d := by
  induction p generalizing l d with
  | ret a => exact fun d' hr hi => ⟨h d' hr hi, hy⟩
  | raise e => exact h
  | stmt s next ih =>
    intro d' hr hi r l' d'' hx
    obtain ⟨hg, hn⟩ := h d' hr hi r l' d'' hx
    exact ⟨hg, ih r (hy r) hn⟩

/-- What no step destroys holds at the end as well. -/
theorem wp_keep {K : D → Prop} (rely : ∀ d d', T.rely d d' → T.inv d' → K d → K d')
    (guar : ∀ d d', T.inv d → T.guar d d' → K d → K d') (h : wp S T i p Q F l d) (hk : K d) :
    wp S T i p (fun a l d => Q a l d ∧ K d) F l d := by
  induction p generalizing l d with
  | ret a => exact fun d' hr hi => ⟨h d' hr hi, rely d d' hr hi hk⟩
  | raise e => exact h
  | stmt s next ih =>
    intro d' hr hi r l' d'' hx
    obtain ⟨hg, hn⟩ := h d' hr hi r l' d'' hx
    exact ⟨hg, ih r hn (guar d' d'' hi hg (rely d d' hr hi hk))⟩

/-- Terms whose guarantee is that of two others, under a rely and an invariant as strong as
those of both. -/
structure Terms.Both (T T₁ T₂ : Terms D) : Prop where
  inv₁ : ∀ d, T.inv d → T₁.inv d
  inv₂ : ∀ d, T.inv d → T₂.inv d
  rely₁ : ∀ d d', T.rely d d' → T₁.rely d d'
  rely₂ : ∀ d d', T.rely d d' → T₂.rely d d'
  guar : ∀ d d', T₁.guar d d' → T₂.guar d d' → T.guar d d'

theorem wp_both {T₁ T₂ : Terms D} {Q₁ Q₂ : α → L → D → Prop} {F₁ F₂ : ε → Prop}
    (hT : T.Both T₁ T₂) (h₁ : wp S T₁ i p Q₁ F₁ l d) (h₂ : wp S T₂ i p Q₂ F₂ l d) :
    wp S T i p (fun a l d => Q₁ a l d ∧ Q₂ a l d) (fun e => F₁ e ∧ F₂ e) l d := by
  induction p generalizing l d with
  | ret a =>
    exact fun d' hr hi => ⟨h₁ d' (hT.rely₁ _ _ hr) (hT.inv₁ _ hi),
      h₂ d' (hT.rely₂ _ _ hr) (hT.inv₂ _ hi)⟩
  | raise e =>
    exact fun d' hr hi => ⟨h₁ d' (hT.rely₁ _ _ hr) (hT.inv₁ _ hi),
      h₂ d' (hT.rely₂ _ _ hr) (hT.inv₂ _ hi)⟩
  | stmt s next ih =>
    intro d' hr hi r l' d'' hx
    obtain ⟨hg₁, hn₁⟩ := h₁ d' (hT.rely₁ _ _ hr) (hT.inv₁ _ hi) r l' d'' hx
    obtain ⟨hg₂, hn₂⟩ := h₂ d' (hT.rely₂ _ _ hr) (hT.inv₂ _ hi) r l' d'' hx
    exact ⟨hT.guar _ _ hg₁ hg₂, ih r hn₁ hn₂⟩

end Interleaving
