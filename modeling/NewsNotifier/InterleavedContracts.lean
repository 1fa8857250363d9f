import NewsNotifier.InterleavedRules

namespace Interleaving

/-- An invariant of the shared data, what each party may do to it (`none` is the environment),
and the exceptions a process may end with. -/
structure Contract (ι ε D : Type) where
  inv : D → Prop
  act : Option ι → D → D → Prop
  fault : ε → Prop

variable {ι σ : Type} {ρ : σ → Type} {ε L D J E : Type} {α : Type}

/-- A step of anyone but `i`. -/
def Contract.Other (C : Contract ι ε D) (i : ι) (d d' : D) : Prop :=
  ∃ a, a ≠ some i ∧ C.inv d ∧ C.inv d' ∧ C.act a d d'

def Contract.terms (C : Contract ι ε D) (i : ι) : Terms D where
  inv := C.inv
  rely := Relation.ReflTransGen (C.Other i)
  guar := C.act (some i)
  rely_refl _ := .refl
  rely_trans := .trans

/-- A relation that every step of the others keeps is kept along the rely. -/
theorem Contract.rely_ind {C : Contract ι ε D} {i : ι} {R : D → D → Prop} {d d' : D}
    (refl : R d d) (trans : ∀ {b c}, R d b → R b c → R d c)
    (one : ∀ {b c}, C.Other i b c → R b c) (h : (C.terms i).rely d d') : R d d' := by
  change Relation.ReflTransGen (C.Other i) d d' at h
  induction h with
  | refl => exact refl
  | tail _ hs ih => exact trans ih (one hs)

/-- Every job of the system starts as a process that meets its terms. -/
structure Contract.Governs (C : Contract ι ε D) (S : Sys ι σ ρ ε L D J E) : Prop where
  keep : ∀ {a d d'}, C.inv d → C.act a d d' → C.inv d'
  start : ∀ {i j d p d'}, S.start i j d = some (p, d') → C.inv d →
    C.act (some i) d d' ∧ wp S (C.terms i) i p (fun _ _ _ => True) C.fault S.idle d'
  stop : ∀ {i d}, C.inv d → C.act (some i) d (S.stop i d)
  env : ∀ {e d d'}, S.env e d = some d' → C.inv d → C.act none d d'

/-- The invariant of a world: the data's, and every live process still meets its terms. -/
structure Contract.Sound (C : Contract ι ε D) (S : Sys ι σ ρ ε L D J E)
    (w : World ι σ ρ ε L D) : Prop where
  data : C.inv w.data
  proc : ∀ {i p l}, w.proc i = some (p, l) →
    wp S (C.terms i) i p (fun _ _ _ => True) C.fault l w.data

/-- A reachable process never stands at an exception its contract does not allow. -/
theorem Contract.Sound.fault {C : Contract ι ε D} {S : Sys ι σ ρ ε L D J E}
    {w : World ι σ ρ ε L D} (hw : C.Sound S w) {i : ι} {e : ε} {l : L}
    (h : w.proc i = some (.raise e, l)) : C.fault e :=
  hw.proc h w.data .refl hw.data

/-- The runs of a system in which every executed statement meets `allow`. -/
def Sys.restrict (S : Sys ι σ ρ ε L D J E) (allow : ι → (s : σ) → ρ s → L → D → Bool) :
    Sys ι σ ρ ε L D J E :=
  { S with exec := fun i s r l d => if allow i s r l d then S.exec i s r l d else none }

theorem Sys.restrict_true (S : Sys ι σ ρ ε L D J E) : S.restrict (fun _ _ _ _ _ => true) = S := by
  simp [Sys.restrict]

theorem Sys.exec_of_restrict {S : Sys ι σ ρ ε L D J E}
    {allow : ι → (s : σ) → ρ s → L → D → Bool} {i : ι} {s : σ} {r : ρ s} {l l' : L} {d d' : D}
    (h : (S.restrict allow).exec i s r l d = some (l', d')) :
    allow i s r l d = true ∧ S.exec i s r l d = some (l', d') := by
  simp only [Sys.restrict] at h
  split at h
  next ha => exact ⟨ha, h⟩
  next => simp at h

/-- A process keeps stronger terms as long as its steps do, in a system of fewer steps. -/
theorem wp_strengthen {S S' : Sys ι σ ρ ε L D J E} {T T' : Terms D} {i : ι} {p : Prog σ ρ ε α}
    {Q : α → L → D → Prop} {F F' : ε → Prop} {l : L} {d : D}
    (fewer : ∀ s r l d l' d', S'.exec i s r l d = some (l', d') → S.exec i s r l d = some (l', d'))
    (inv : ∀ d, T'.inv d → T.inv d) (rely : ∀ d d', T'.rely d d' → T.rely d d')
    (guar : ∀ s r l d l' d', T'.inv d → S'.exec i s r l d = some (l', d') → T.guar d d' → T'.guar d d')
    (fault : ∀ e, F e → F' e) (h : wp S T i p Q F l d) : wp S' T' i p Q F' l d := by
  induction p generalizing l d with
  | ret a => exact fun d' hr hi => h d' (rely _ _ hr) (inv _ hi)
  | raise e => exact fun d' hr hi => fault e (h d' (rely _ _ hr) (inv _ hi))
  | stmt s next ih =>
    intro d' hr hi r l' d'' hx
    obtain ⟨hg, hn⟩ := h d' (rely _ _ hr) (inv _ hi) r l' d'' (fewer s r l d' l' d'' hx)
    exact ⟨guar s r l d' l' d'' hi hx hg, ih r hn⟩

/-- What is sound stays so in a system of fewer executions. -/
theorem Contract.Sound.fewer {C : Contract ι ε D} {S S' : Sys ι σ ρ ε L D J E} {w : World ι σ ρ ε L D}
    (hw : C.Sound S w) (fewer : ∀ i s r l d l' d', S'.exec i s r l d = some (l', d') →
      S.exec i s r l d = some (l', d')) : C.Sound S' w where
  data := hw.data
  proc hp := wp_strengthen (fewer _) (fun _ h => h) (fun _ _ h => h) (fun _ _ _ _ _ _ _ _ h => h)
    (fun _ h => h) (hw.proc hp)

/-- A stronger contract governs the restricted runs when the restriction gives what it adds. -/
theorem Contract.Governs.restrict {C C' : Contract ι ε D} {S : Sys ι σ ρ ε L D J E}
    {allow : ι → (s : σ) → ρ s → L → D → Bool} (hC : C.Governs S)
    (inv : ∀ d, C'.inv d → C.inv d) (act : ∀ a d d', C'.act a d d' → C.act a d d')
    (fault : ∀ e, C.fault e → C'.fault e)
    (keep : ∀ a d d', C'.inv d → C'.act a d d' → C'.inv d')
    (exec : ∀ i s r l d l' d', C'.inv d → allow i s r l d = true →
      S.exec i s r l d = some (l', d') → C.act (some i) d d' → C'.act (some i) d d')
    (start : ∀ i j d p d', C'.inv d → S.start i j d = some (p, d') → C'.act (some i) d d')
    (stop : ∀ i d, C'.inv d → C'.act (some i) d (S.stop i d))
    (env : ∀ e d d', C'.inv d → S.env e d = some d' → C'.act none d d') :
    C'.Governs (S.restrict allow) where
  keep := keep _ _ _
  start := by
    intro i j d p d' hs hi
    refine ⟨start i j d p d' hi hs, ?_⟩
    refine wp_strengthen (T := C.terms i) ?_ inv ?_ ?_ fault (hC.start hs (inv d hi)).2
    · exact fun s r l d l' d' hx => (Sys.exec_of_restrict hx).2
    · intro d d' hr
      refine Relation.ReflTransGen.mono ?_ _ _ hr
      rintro d d' ⟨a, ha, hi, hi', h⟩
      exact ⟨a, ha, inv d hi, inv d' hi', act a d d' h⟩
    · intro s r l d l' d' hi hx hg
      obtain ⟨ok, hx⟩ := Sys.exec_of_restrict hx
      exact exec i s r l d l' d' hi ok hx hg
  stop := stop _ _
  env he hi := env _ _ _ hi he

variable [DecidableEq ι] {C : Contract ι ε D} {S : Sys ι σ ρ ε L D J E}
  {w w' : World ι σ ρ ε L D}

theorem Step.of_restrict {allow : ι → (s : σ) → ρ s → L → D → Bool} (h : Step (S.restrict allow) w w') :
    Step S w w' := by
  cases h with
  | exec r hp hx => exact .exec r hp (Sys.exec_of_restrict hx).2
  | start hp hs => exact .start hp hs
  | stop hp => exact .stop hp
  | env he => exact .env he

theorem Step.restrict_true (h : Step S w w') : Step (S.restrict fun _ _ _ _ _ => true) w w' := by
  rw [Sys.restrict_true]
  exact h

theorem Steps.of_restrict {allow : ι → (s : σ) → ρ s → L → D → Bool} (h : Steps (S.restrict allow) w w') :
    Steps S w w' :=
  Relation.ReflTransGen.mono (fun _ _ => Step.of_restrict) _ _ h

/-- A step whose statement meets a condition on the world in which it is executed. -/
abbrev StepIf (S : Sys ι σ ρ ε L D J E) (G : World ι σ ρ ε L D → ι → (s : σ) → ρ s → L → D → Bool)
    (w w' : World ι σ ρ ε L D) : Prop :=
  Step (S.restrict (G w)) w w'

abbrev StepsIf (S : Sys ι σ ρ ε L D J E) (G : World ι σ ρ ε L D → ι → (s : σ) → ρ s → L → D → Bool) :=
  Relation.ReflTransGen (StepIf S G)

/-- A run whose statements all meet the condition. -/
def Sys.runIf (S : Sys ι σ ρ ε L D J E) (G : World ι σ ρ ε L D → ι → (s : σ) → ρ s → L → D → Bool)
    (w : World ι σ ρ ε L D) : List (Move ι σ ρ L D J E) → Option (World ι σ ρ ε L D)
  | [] => some w
  | m :: ms =>
    match (S.restrict (G w)).move w m with
    | some w' => S.runIf G w' ms
    | none => none

section Conditions

variable {G : World ι σ ρ ε L D → ι → (s : σ) → ρ s → L → D → Bool}

theorem StepsIf.steps (h : StepsIf S G w w') : Steps S w w' :=
  Relation.ReflTransGen.mono (fun _ _ => Step.of_restrict) _ _ h

theorem Sys.runIf_steps {ms : List (Move ι σ ρ L D J E)} (h : S.runIf G w ms = some w') : StepsIf S G w w' := by
  induction ms generalizing w with
  | nil =>
    obtain rfl := Option.some.inj h
    exact .refl
  | cons m ms ih =>
    simp only [Sys.runIf] at h
    split at h
    next w₁ moved => exact .head (Sys.move_step moved) (ih h)
    next => simp at h

theorem Sys.runIf_reaches {ms : List (Move ι σ ρ L D J E)} {p : World ι σ ρ ε L D → Bool}
    (h : (S.runIf G w ms).map p = some true) : ∃ w', StepsIf S G w w' ∧ p w' = true := by
  obtain ⟨w', run, hp⟩ := Option.map_eq_some_iff.mp h
  exact ⟨w', Sys.runIf_steps run, hp⟩

end Conditions

/-- The steps that leave what `f` observes as it is. -/
abbrev Keeping {β : Type} (S : Sys ι σ ρ ε L D J E) (f : World ι σ ρ ε L D → β) :=
  Relation.ReflTransGen fun w w' => Step S w w' ∧ f w' = f w

/-- What a run observes at its end was so from the start, or since the last step that changed it. -/
theorem Steps.last_change {β : Type} (f : World ι σ ρ ε L D → β) (h : Steps S w w') :
    Keeping S f w w' ∨ ∃ v v', Steps S w v ∧ Step S v v' ∧ f v' ≠ f v ∧ Keeping S f v' w' := by
  induction h with
  | refl => exact .inl .refl
  | @tail w₁ w₂ run step ih =>
    by_cases same : f w₂ = f w₁
    · rcases ih with kept | ⟨v, v', first, last, changed, kept⟩
      · exact .inl (kept.tail ⟨step, same⟩)
      · exact .inr ⟨v, v', first, last, changed, kept.tail ⟨step, same⟩⟩
    · exact .inr ⟨w₁, w₂, run, step, same, .refl⟩

theorem Keeping.steps {β : Type} {f : World ι σ ρ ε L D → β} (h : Keeping S f w w') : Steps S w w' ∧ f w' = f w := by
  induction h with
  | refl => exact ⟨.refl, rfl⟩
  | tail _ step ih => exact ⟨ih.1.tail step.1, step.2.trans ih.2⟩

theorem Contract.Sound.set (hw : C.Sound S w) {i : ι} {q : Option (Prog σ ρ ε Unit × L)} {d' : D}
    (hi : C.inv d') (ha : C.act (some i) w.data d')
    (hq : ∀ p l, q = some (p, l) → wp S (C.terms i) i p (fun _ _ _ => True) C.fault l d') :
    C.Sound S (w.set i q d') := by
  refine ⟨hi, ?_⟩
  intro j p l hp
  by_cases hj : j = i
  · subst j
    exact hq p l (by simpa using hp)
  · rw [World.set_other w hj] at hp
    have other : C.Other j w.data d' :=
      ⟨some i, fun h => hj (Option.some.inj h).symm, hw.data, hi, ha⟩
    exact wp_rely (hw.proc hp) (.single other)

/-- One step: every step of the world is an act of the contract, and keeps its invariant. -/
theorem Contract.Governs.step (hC : C.Governs S) (hw : C.Sound S w) (h : Step S w w') :
    C.Sound S w' ∧ ∃ a, C.act a w.data w'.data := by
  cases h with
  | @exec i s next l l' d' r hp hx =>
    obtain ⟨hg, hn⟩ := hw.proc hp w.data .refl hw.data r l' d' hx
    refine ⟨hw.set (hC.keep hw.data hg) hg ?_, some i, hg⟩
    intro p l hq
    obtain ⟨rfl, rfl⟩ := Prod.mk.inj (Option.some.inj hq)
    exact hn
  | @start i j p d' hp hs =>
    obtain ⟨ha, hn⟩ := hC.start hs hw.data
    refine ⟨hw.set (hC.keep hw.data ha) ha ?_, some i, ha⟩
    intro p l hq
    obtain ⟨rfl, rfl⟩ := Prod.mk.inj (Option.some.inj hq)
    exact hn
  | @stop i hp =>
    have ha : C.act (some i) w.data (S.stop i w.data) := hC.stop hw.data
    exact ⟨hw.set (hC.keep hw.data ha) ha (by simp), some i, ha⟩
  | @env e d' he =>
    have ha := hC.env he hw.data
    have hi := hC.keep hw.data ha
    refine ⟨⟨hi, fun {i p l} hp => ?_⟩, none, ha⟩
    exact wp_rely (hw.proc hp) (.single ⟨none, by simp, hw.data, hi, ha⟩)

/-- Runs: the contract holds in every reachable world. -/
theorem Contract.Governs.sound {d : D} (hC : C.Governs S) (hi : C.inv d)
    (h : Reachable S d w) : C.Sound S w := by
  change Relation.ReflTransGen (Step S) ⟨d, fun _ => none⟩ w at h
  induction h with
  | refl => exact ⟨hi, by simp⟩
  | tail _ hs ih => exact (hC.step ih hs).1

/-- A property that every act keeps holds after every run. -/
theorem Contract.Governs.steps_ind {R : D → D → Prop} (hC : C.Governs S)
    (refl : R w.data w.data) (trans : ∀ {b c}, R w.data b → R b c → R w.data c)
    (one : ∀ {a b c}, C.inv b → C.act a b c → R b c) (hw : C.Sound S w) (h : Steps S w w') :
    C.Sound S w' ∧ R w.data w'.data := by
  induction h with
  | refl => exact ⟨hw, refl⟩
  | tail _ hs ih =>
    obtain ⟨hs', a, ha⟩ := hC.step ih.1 hs
    exact ⟨hs', trans ih.2 (one ih.1.data ha)⟩

/-- A process that is never started again keeps its own terms, where the contract's invariant and
the steps of the others give it what these assume. -/
theorem Contract.Governs.follow {T : Terms D} {i : ι} {Q : Unit → L → D → Prop} {F : ε → Prop}
    (hC : C.Governs S) (never : ∀ j d, S.start i j d = none) (inv : ∀ d, C.inv d → T.inv d)
    (rely : ∀ d d', C.Other i d d' → T.rely d d') (hw : C.Sound S w)
    (own : ∀ p l, w.proc i = some (p, l) → wp S T i p Q F l w.data) (h : Steps S w w') :
    C.Sound S w' ∧ ∀ p l, w'.proc i = some (p, l) → wp S T i p Q F l w'.data := by
  induction h with
  | refl => exact ⟨hw, own⟩
  | @tail w₁ w₂ _ hs ih =>
    obtain ⟨sound, own⟩ := ih
    have sound' := (hC.step sound hs).1
    refine ⟨sound', ?_⟩
    have others : ∀ {a : Option ι}, a ≠ some i → C.act a w₁.data w₂.data → T.rely w₁.data w₂.data :=
      fun ne ha => rely _ _ ⟨_, ne, sound.data, sound'.data, ha⟩
    cases hs with
    | @exec j s next l l' d' r hp hx =>
      intro p m hq
      by_cases hj : j = i
      · subst j
        obtain ⟨rfl, rfl⟩ := Prod.mk.inj (Option.some.inj ((World.set_self w₁ i _ _).symm.trans hq))
        exact (own _ _ hp _ (T.rely_refl _) (inv _ sound.data) r l' d' hx).2
      · rw [World.set_other w₁ (Ne.symm hj)] at hq
        refine wp_rely (own p m hq) (others (fun e => hj (Option.some.inj e)) ?_)
        exact (sound.proc hp _ .refl sound.data r l' d' hx).1
    | @start j job q d' hp hs =>
      intro p m hq
      by_cases hj : j = i
      · subst j
        simp [never] at hs
      · rw [World.set_other w₁ (Ne.symm hj)] at hq
        exact wp_rely (own p m hq) (others (fun e => hj (Option.some.inj e)) (hC.start hs sound.data).1)
    | @stop j hp =>
      intro p m hq
      by_cases hj : j = i
      · subst j
        simp at hq
      · rw [World.set_other w₁ (Ne.symm hj)] at hq
        exact wp_rely (own p m hq) (others (fun e => hj (Option.some.inj e)) (hC.stop sound.data))
    | @env e d' he =>
      exact fun p m hq => wp_rely (own p m hq) (others (by simp) (hC.env he sound.data))

end Interleaving
