import NewsNotifier.InterleavedContracts

namespace Interleaving

variable {ι σ : Type} {ρ : σ → Type} {ε L D J E : Type} {α β : Type}

/-- The body of a block whose `leave` runs on any way out. -/
def Prog.within (leave : Prog σ ρ ε Unit) : Prog σ ρ ε α → Prog σ ρ ε α
  | ret a => leave.bind fun _ => ret a
  | raise e => leave.bind fun _ => raise e
  | stmt s next => stmt s fun r => within leave (next r)

/-- Total weakest precondition: beyond `wp`, every statement can be answered and nothing is raised. -/
def wpt (S : Sys ι σ ρ ε L D J E) (T : Terms D) (i : ι) :
    Prog σ ρ ε α → (α → L → D → Prop) → L → D → Prop
  | .ret a, Q, l, d => ∀ d', T.rely d d' → T.inv d' → Q a l d'
  | .raise _, _, _, _ => False
  | .stmt s next, Q, l, d => ∀ d', T.rely d d' → T.inv d' →
      (∃ r x, S.exec i s r l d' = some x) ∧ ∀ r l' d'', S.exec i s r l d' = some (l', d'') →
        T.guar d' d'' ∧ wpt S T i (next r) Q l' d''

variable {S : Sys ι σ ρ ε L D J E} {T : Terms D} {i : ι} {p : Prog σ ρ ε α}
  {Q Q' : α → L → D → Prop} {l : L} {d d' : D}

theorem wpt_rely (h : wpt S T i p Q l d) (hr : T.rely d d') : wpt S T i p Q l d' := by
  cases p with
  | ret a => exact fun d'' h' hi => h d'' (T.rely_trans hr h') hi
  | raise e => exact h
  | stmt s next => exact fun d'' h' hi => h d'' (T.rely_trans hr h') hi

theorem wpt_of_rely (h : ∀ d', T.rely d d' → T.inv d' → wpt S T i p Q l d') (hi : T.inv d) :
    wpt S T i p Q l d := h d (T.rely_refl d) hi

theorem wpt_mono (h : wpt S T i p Q l d) (hQ : ∀ a l d, T.inv d → Q a l d → Q' a l d) :
    wpt S T i p Q' l d := by
  induction p generalizing l d with
  | ret a => exact fun d' hr hi => hQ a l d' hi (h d' hr hi)
  | raise e => exact h
  | stmt s next ih =>
    intro d' hr hi
    obtain ⟨can, does⟩ := h d' hr hi
    exact ⟨can, fun r l' d'' hx => ⟨(does r l' d'' hx).1, ih r (does r l' d'' hx).2⟩⟩

theorem wpt_bind {f : α → Prog σ ρ ε β} {Q : β → L → D → Prop} (hi : T.inv d)
    (keep : ∀ d d', T.inv d → T.guar d d' → T.inv d')
    (h : wpt S T i p (fun a l d => T.inv d → wpt S T i (f a) Q l d) l d) :
    wpt S T i (p.bind f) Q l d := by
  induction p generalizing l d with
  | ret a => exact wpt_of_rely (fun d' hr hi => h d' hr hi hi) hi
  | raise e => exact h
  | stmt s next ih =>
    intro d' hr hi'
    obtain ⟨can, does⟩ := h d' hr hi'
    refine ⟨can, fun r l' d'' hx => ?_⟩
    obtain ⟨hg, hn⟩ := does r l' d'' hx
    exact ⟨hg, ih r (keep d' d'' hi' hg) hn⟩

variable [DecidableEq ι] {w w' : World ι σ ρ ε L D} {p : Prog σ ρ ε Unit} {Q : Unit → L → D → Prop}

/-- A process that meets its total terms can be run to its end. -/
theorem wpt_ends (keep : ∀ d d', T.inv d → T.guar d d' → T.inv d') (h : wpt S T i p Q l w.data)
    (hi : T.inv w.data) (hp : w.proc i = some (p, l)) :
    ∃ w' l', Steps S w w' ∧ w'.proc i = some (.ret (), l') ∧ Q () l' w'.data := by
  induction p generalizing w l with
  | ret a => exact ⟨w, l, .refl, hp, h w.data (T.rely_refl _) hi⟩
  | raise e => exact h.elim
  | stmt s next ih =>
    obtain ⟨can, does⟩ := h w.data (T.rely_refl _) hi
    obtain ⟨r, ⟨l', d'⟩, hx⟩ := can
    obtain ⟨hg, hn⟩ := does r l' d' hx
    have step : Step S w (w.set i (some (next r, l')) d') := .exec r hp hx
    obtain ⟨w', l'', run, ended, q⟩ := @ih r l' (w.set i (some (next r, l')) d') hn
      (keep _ _ hi hg) (World.set_self ..)
    exact ⟨w', l'', .head step run, ended, q⟩

/-- A process alone: only it executes, and the environment keeps to its rely. -/
theorem wpt_alone (never : ∀ j job d, S.start j job d = none)
    (env : ∀ e d d', S.env e d = some d' → T.rely d d' ∧ (T.inv d → T.inv d'))
    (stop : ∀ d, T.inv d → T.inv (S.stop i d))
    (keep : ∀ d d', T.inv d → T.guar d d' → T.inv d')
    (alone : ∀ j, j ≠ i → w.proc j = none) (hi : T.inv w.data)
    (own : ∀ p l, w.proc i = some (p, l) → wpt S T i p Q l w.data) (run : Steps S w w') :
    T.inv w'.data ∧ (∀ j, j ≠ i → w'.proc j = none) ∧
      ∀ p l, w'.proc i = some (p, l) → wpt S T i p Q l w'.data := by
  induction run with
  | refl => exact ⟨hi, alone, own⟩
  | @tail w₁ w₂ _ step ih =>
    obtain ⟨hi, alone, own⟩ := ih
    have mine : ∀ {j q}, w₁.proc j = some q → j = i := by
      intro j q hp
      by_contra ne
      simp [alone j ne] at hp
    cases step with
    | @exec j s next l l' d' r hp hx =>
      obtain rfl := mine hp
      obtain ⟨hg, hn⟩ := (own _ _ hp _ (T.rely_refl _) hi).2 r l' d' hx
      refine ⟨keep _ _ hi hg, fun k ne => ?_, fun p m hq => ?_⟩
      · rw [World.set_other w₁ ne]
        exact alone k ne
      · rw [World.set_self] at hq
        obtain ⟨rfl, rfl⟩ := Prod.mk.inj (Option.some.inj hq)
        exact hn
    | @start j job q d' hp hs => simp [never] at hs
    | @stop j hp =>
      obtain ⟨q, hq⟩ := Option.ne_none_iff_exists'.mp hp
      obtain rfl := mine hq
      refine ⟨stop _ hi, fun k ne => ?_, fun p m hq => ?_⟩
      · rw [World.set_other w₁ ne]
        exact alone k ne
      · simp at hq
    | @env e d' he =>
      have moved := env e _ _ he
      exact ⟨moved.2 hi, alone, fun p m hq => wpt_rely (own p m hq) moved.1⟩

end Interleaving
