import NewsNotifier.FiniteRuns
import NewsNotifier.LoneRuns

namespace Interleaving

variable {ι σ : Type} {ρ : σ → Type} {ε L D J E K : Type} {α : Type} [DecidableEq ι]

/-- Locks that a statement takes and that a process gives back all at once. -/
structure Locking (S : Sys ι σ ρ ε L D J E) (K : Type) where
  locks : D → List (K × ι)
  takes : σ → Option K
  frees : (s : σ) → ρ s → Bool
  exec : ∀ {i s r l l' d d'}, S.exec i s r l d = some (l', d') → locks d' = ((takes s).map (·, i)).toList ++
    if frees s r then (locks d).filter (·.2 ≠ i) else locks d
  taken : ∀ {i s r l l' d d'}, S.exec i s r l d = some (l', d') → ∀ e ∈ locks d, takes s = some e.1 → e.2 = i
  free : ∀ i s l d, (∀ e ∈ locks d, takes s = some e.1 → e.2 = i) → ∃ r l' d', S.exec i s r l d = some (l', d')
  start : ∀ {i j d p d'}, S.start i j d = some (p, d') → locks d' = locks d
  stop : ∀ i d, locks (S.stop i d) = (locks d).filter (·.2 ≠ i)
  env : ∀ {e d d'}, S.env e d = some d' → locks d' = locks d

/-- A step in which a process executes, or leaves when it has nothing left to execute. -/
inductive Orderly (S : Sys ι σ ρ ε L D J E) (w : World ι σ ρ ε L D) : World ι σ ρ ε L D → Prop
  | exec {i : ι} {s : σ} {next : ρ s → Prog σ ρ ε Unit} {l l' : L} {d' : D} (r : ρ s)
      (hp : w.proc i = some (.stmt s next, l)) (hx : S.exec i s r l w.data = some (l', d')) :
      Orderly S w (w.set i (some (next r, l')) d')
  | leave {i : ι} {p : Prog σ ρ ε Unit} {l : L} (hp : w.proc i = some (p, l)) (ended : p.Ended) :
      Orderly S w (w.set i none (S.stop i w.data))

section Locking

variable {S : Sys ι σ ρ ε L D J E} (A : Locking S K) {w w' : World ι σ ρ ε L D}

theorem Orderly.step (h : Orderly S w w') : Step S w w' := by
  cases h with
  | exec r hp hx => exact .exec r hp hx
  | leave hp _ => exact .stop (by simp [hp])

/-- The lock that a process holds; it takes no other beside it. -/
def Locking.single : Monitor σ ρ (Option K) where
  next m s r := (A.takes s).or (if A.frees s r then none else m)
  given _ _ _ := True
  asked m s := ∀ key, A.takes s = some key → m = none ∨ m = some key

/-- A program that never holds two locks, from a state that holds `m`. -/
abbrev Locking.Single (m : Option K) (p : Prog σ ρ ε α) (Q : Option K → Prop) : Prop :=
  p.Obeys A.single (fun m _ => Q m) (fun _ _ => True) m

/-- A process holds what its monitor says, and no more. -/
def Locking.Holds (i : ι) (m : Option K) (d : D) : Prop := ∀ e ∈ A.locks d, e.2 = i → m = some e.1

/-- A program that asks for no lock but one goes from none or that one to none or that one. -/
theorem Locking.single_each (A : Locking S K) {p : Prog σ ρ ε α} {P : σ → Prop} {F : ε → Prop} {key : K}
    (each : p.Each P F) (only : ∀ s, P s → ∀ k, A.takes s = some k → k = key) {m : Option K}
    (hm : m = none ∨ m = some key) : A.Single m p fun m => m = none ∨ m = some key := by
  induction p generalizing m with
  | ret a => exact hm
  | raise e => exact True.intro
  | stmt s next ih =>
    refine ⟨fun k takes => only s each.1 k takes ▸ hm, fun r _ => ih r (each.2 r) ?_⟩
    cases takes : A.takes s with
    | none =>
      cases frees : A.frees s r
      · simpa [Locking.single, takes, frees] using hm
      · simp [Locking.single, takes, frees]
    | some k => exact .inr (by simp [Locking.single, takes, only s each.1 k takes])

/-- A program that asks for no lock holds none after, if it held none before. -/
theorem Locking.unlocked_each (A : Locking S K) {p : Prog σ ρ ε α} {P : σ → Prop} {F : ε → Prop} (each : p.Each P F)
    (never : ∀ s, P s → A.takes s = none) : A.Single none p (· = none) := by
  induction p with
  | ret a => exact rfl
  | raise e => exact True.intro
  | stmt s next ih =>
    refine ⟨fun _ _ => .inl rfl, fun r _ => ?_⟩
    have none : A.single.next none s r = none := by simp [Locking.single, never s each.1]
    rw [none]
    exact ih r (each.2 r)

/-- The locks are held by live processes, no two hold the same and none holds two. -/
structure Locking.Kept (w : World ι σ ρ ε L D) : Prop where
  alive : ∀ e ∈ A.locks w.data, w.proc e.2 ≠ none
  alone : ∀ e ∈ A.locks w.data, ∀ e' ∈ A.locks w.data, e.1 = e'.1 → e.2 = e'.2
  staged : Staged (fun _ => A.single) (fun _ _ => True) A.Holds w

/-- The process has a statement to execute and can execute it. -/
def World.Able (S : Sys ι σ ρ ε L D J E) (w : World ι σ ρ ε L D) (i : ι) : Prop :=
  ∃ s next l r l' d', w.proc i = some (.stmt s next, l) ∧ S.exec i s r l w.data = some (l', d')

variable {A}

theorem Locking.mem_exec {i : ι} {s : σ} {r : ρ s} {l l' : L} {d d' : D} (h : S.exec i s r l d = some (l', d'))
    {e : K × ι} (he : e ∈ A.locks d') : (A.takes s = some e.1 ∧ e.2 = i) ∨
      e ∈ A.locks d ∧ (e.2 = i → A.frees s r = false) := by
  rw [A.exec h, List.mem_append] at he
  rcases he with taken | old
  · obtain ⟨key, same, rfl⟩ := Option.map_eq_some_iff.mp (Option.mem_toList.mp taken)
    exact .inl ⟨same, rfl⟩
  · split at old
    next =>
      obtain ⟨mem, other⟩ := List.mem_filter.mp old
      exact .inr ⟨mem, fun own => absurd own (of_decide_eq_true other)⟩
    next kept => exact .inr ⟨old, fun _ => by simpa using kept⟩

theorem Locking.Holds.exec {i : ι} {m : Option K} {s : σ} {r : ρ s} {l l' : L} {d d' : D} (holds : A.Holds i m d)
    (asked : A.single.asked m s) (h : S.exec i s r l d = some (l', d')) : A.Holds i (A.single.next m s r) d' := by
  intro e he own
  rcases Locking.mem_exec h he with ⟨taken, _⟩ | ⟨old, kept⟩
  · simp [Locking.single, taken]
  · have mine : m = some e.1 := holds e old own
    cases takes : A.takes s with
    | none => simp [Locking.single, takes, kept own, mine]
    | some key =>
      have same : key = e.1 := by simpa [mine, eq_comm] using asked key takes
      simp [Locking.single, takes, same]

theorem Locking.Kept.step (h : A.Kept w) (step : Step S w w')
    (starts : ∀ {i j d p d'}, S.start i j d = some (p, d') → A.Single none p fun _ => True) : A.Kept w' := by
  cases step with
  | @exec i s next l l' d' r hp hx =>
    have alive : ∀ j, w.proc j ≠ none → (w.set i (some (next r, l')) d').proc j ≠ none := by
      intro j live
      by_cases same : j = i
      · rw [same, World.set_self]
        exact Option.some_ne_none _
      · rwa [World.set_other w same]
    refine ⟨fun e he => ?_, fun e he e' he' same => ?_, ?_⟩
    · rcases Locking.mem_exec hx he with ⟨_, own⟩ | ⟨old, _⟩
      · rw [own, World.set_self]
        exact Option.some_ne_none _
      · exact alive _ (h.alive e old)
    · rcases Locking.mem_exec hx he with ⟨taken, own⟩ | ⟨old, _⟩ <;>
        rcases Locking.mem_exec hx he' with ⟨taken', own'⟩ | ⟨old', _⟩
      · exact own.trans own'.symm
      · exact own.trans (A.taken hx e' old' (same ▸ taken)).symm
      · exact (A.taken hx e old (same ▸ taken')).trans own'.symm
      · exact h.alone e old e' old' same
    · refine h.staged.exec hp (fun j m other holds e he own => ?_) fun m asked holds =>
        ⟨True.intro, holds.exec asked hx⟩
      rcases Locking.mem_exec hx he with ⟨_, own'⟩ | ⟨old, _⟩
      · exact absurd (own.symm.trans own') other
      · exact holds e old own
  | @start i j p d' hp hs =>
    have alive : ∀ q : Prog σ ρ ε Unit × L, ∀ d j, w.proc j ≠ none → (w.set i (some q) d).proc j ≠ none := by
      intro q d j live
      have other : j ≠ i := by
        rintro rfl
        exact live hp
      rwa [World.set_other w other]
    have same := A.start hs
    refine ⟨fun e he => ?_, ?_, h.staged.set (fun j m _ holds => ?_) fun q l eq => ⟨none, ?_, fun e he own => ?_⟩⟩
    · exact alive _ _ _ (h.alive e (same ▸ he))
    · simp only [World.set_data, same]
      exact h.alone
    · simp only [Locking.Holds, same]
      exact holds
    · obtain ⟨rfl, rfl⟩ := Prod.mk.inj (Option.some.inj eq)
      exact starts hs
    · exact absurd hp (own ▸ h.alive e (same ▸ he))
  | @stop i hp =>
    have others : ∀ e ∈ A.locks (S.stop i w.data), e ∈ A.locks w.data ∧ e.2 ≠ i := fun e he => by
      rw [A.stop] at he
      exact ⟨(List.mem_filter.mp he).1, of_decide_eq_true (List.mem_filter.mp he).2⟩
    refine ⟨fun e he => ?_, fun e he e' he' => ?_, h.staged.set (fun j m _ holds e he => ?_) fun p l none => ?_⟩
    · obtain ⟨mem, other⟩ := others e he
      rw [World.set_other w other]
      exact h.alive e mem
    · exact h.alone e (others e he).1 e' (others e' he').1
    · exact holds e (others e he).1
    · simp at none
  | @env e d' he =>
    have same := A.env he
    refine ⟨fun x hx => h.alive x (same ▸ hx), ?_, fun i p l live => ?_⟩
    · simp only [same]
      exact h.alone
    · obtain ⟨m, obeys, holds⟩ := h.staged i p l live
      exact ⟨m, obeys, by simpa only [Locking.Holds, same] using holds⟩

theorem Locking.kept {d₀ : D} (free : A.locks d₀ = []) (reach : Reachable S d₀ w)
    (starts : ∀ {i j d p d'}, S.start i j d = some (p, d') → A.Single none p fun _ => True) : A.Kept w := by
  induction reach with
  | refl => exact ⟨by simp [free], by simp [free], fun i p l live => by simp at live⟩
  | tail _ step ih => exact ih.step step starts

/-- A process holds one lock at most. -/
theorem Locking.Kept.once (h : A.Kept w) {e e' : K × ι} (he : e ∈ A.locks w.data) (he' : e' ∈ A.locks w.data)
    (same : e.2 = e'.2) : e.1 = e'.1 := by
  obtain ⟨⟨p, l⟩, live⟩ := Option.ne_none_iff_exists'.mp (h.alive e he)
  obtain ⟨m, _, holds⟩ := h.staged _ _ _ live
  exact Option.some.inj ((holds e he rfl).symm.trans (holds e' he' same.symm))

/-- Who holds a lock waits for none. -/
theorem Locking.Kept.holder (h : A.Kept w) {e : K × ι} (he : e ∈ A.locks w.data) : w.Able S e.2 ∨
    ∃ p l, w.proc e.2 = some (p, l) ∧ p.Ended := by
  obtain ⟨⟨p, l⟩, live⟩ := Option.ne_none_iff_exists'.mp (h.alive e he)
  cases p with
  | ret a => exact .inr ⟨_, l, live, True.intro⟩
  | raise e => exact .inr ⟨_, l, live, True.intro⟩
  | stmt s next =>
    obtain ⟨m, obeys, holds⟩ := h.staged _ _ _ live
    have mine := holds e he rfl
    have own : ∀ e' ∈ A.locks w.data, A.takes s = some e'.1 → e'.2 = e.2 := by
      intro e' he' takes
      have same : e.1 = e'.1 := by simpa [mine] using obeys.1 _ takes
      exact (h.alone e he e' he' same).symm
    obtain ⟨r, l', d', hx⟩ := A.free e.2 s l w.data own
    exact .inl ⟨s, next, l, r, l', d', live, hx⟩

/-- A process that cannot execute has ended or waits for the lock of another. -/
theorem Locking.waits (A : Locking S K) {i : ι} {p : Prog σ ρ ε Unit} {l : L} (live : w.proc i = some (p, l)) :
    w.Able S i ∨ p.Ended ∨ ∃ s next, p = .stmt s next ∧ ∃ e ∈ A.locks w.data, A.takes s = some e.1 ∧ e.2 ≠ i := by
  cases p with
  | ret a => exact .inr (.inl True.intro)
  | raise e => exact .inr (.inl True.intro)
  | stmt s next =>
    by_cases waits : ∃ e ∈ A.locks w.data, A.takes s = some e.1 ∧ e.2 ≠ i
    · exact .inr (.inr ⟨s, next, rfl, waits⟩)
    · obtain ⟨r, l', d', hx⟩ := A.free i s l w.data fun e he takes => by
        by_contra other
        exact waits ⟨e, he, takes, other⟩
      exact .inl ⟨s, next, l, r, l', d', live, hx⟩

/-- Whoever holds locks runs on until it has given them back, and takes no other. -/
theorem Locking.gives_back {i : ι} {p : Prog σ ρ ε Unit} {l : L} {key : K} (live : w.proc i = some (p, l))
    (obeys : A.Single (some key) p fun _ => True) (holds : A.Holds i (some key) w.data)
    (alone : ∀ e ∈ A.locks w.data, e.1 = key → e.2 = i) : ∃ w', Relation.ReflTransGen (Orderly S) w w' ∧
      A.locks w'.data = (A.locks w.data).filter (·.2 ≠ i) := by
  induction p generalizing w l with
  | ret a => exact ⟨_, .single (.leave live True.intro), A.stop i w.data⟩
  | raise e => exact ⟨_, .single (.leave live True.intro), A.stop i w.data⟩
  | stmt s next ih =>
    obtain ⟨asked, obeys⟩ := obeys
    have own : ∀ e ∈ A.locks w.data, A.takes s = some e.1 → e.2 = i := by
      intro e he takes
      have same : key = e.1 := by simpa using asked _ takes
      exact alone e he same.symm
    obtain ⟨r, l', d', hx⟩ := A.free i s l w.data own
    have first : Orderly S w (w.set i (some (next r, l')) d') := .exec r live hx
    have others : (A.locks d').filter (·.2 ≠ i) = (A.locks w.data).filter (·.2 ≠ i) := by
      rw [A.exec hx, List.filter_append]
      have mine : (((A.takes s).map (·, i)).toList.filter fun e : K × ι => decide (e.2 ≠ i)) = [] := by
        cases A.takes s <;> simp
      rw [mine, List.nil_append]
      split
      next => rw [List.filter_filter]; simp
      next => rfl
    by_cases still : A.single.next (some key) s r = some key
    · have later := holds.exec asked hx
      rw [still] at later
      have rest := obeys r True.intro
      rw [still] at rest
      have alone' : ∀ e ∈ A.locks d', e.1 = key → e.2 = i := by
        intro e he same
        rcases Locking.mem_exec hx he with ⟨_, own⟩ | ⟨old, _⟩
        · exact own
        · exact alone e old same
      obtain ⟨w', run, freed⟩ := ih r (w := w.set i (some (next r, l')) d') (World.set_self ..) rest later alone'
      exact ⟨w', .head first run, freed.trans others⟩
    · have given : A.takes s = none ∧ A.frees s r = true := by
        cases takes : A.takes s with
        | none =>
          refine ⟨rfl, ?_⟩
          by_contra keeps
          exact still (by simp [Locking.single, takes, keeps])
        | some other =>
          have same : key = other := by simpa using asked other takes
          exact absurd (by simp [Locking.single, takes, same]) still
      refine ⟨_, .single first, ?_⟩
      simp [A.exec hx, given.1, given.2]

/-- Where all locks are its own, a process runs on to its end and leaves. -/
theorem Locking.leaves (A : Locking S K) {i : ι} {p : Prog σ ρ ε Unit} {l : L} (live : w.proc i = some (p, l))
    (own : ∀ e ∈ A.locks w.data, e.2 = i) : ∃ w', Relation.ReflTransGen (Orderly S) w w' ∧ w'.proc i = none ∧
      (∀ j, j ≠ i → w'.proc j = w.proc j) ∧ A.locks w'.data = [] := by
  have gone : A.locks (S.stop i w.data) = [] := by
    rw [A.stop, List.filter_eq_nil_iff]
    exact fun e he => by simp [own e he]
  induction p generalizing w l with
  | ret a =>
    exact ⟨_, .single (.leave live True.intro), World.set_self .., fun j other => World.set_other w other _ _, gone⟩
  | raise e =>
    exact ⟨_, .single (.leave live True.intro), World.set_self .., fun j other => World.set_other w other _ _, gone⟩
  | stmt s next ih =>
    obtain ⟨r, l', d', hx⟩ := A.free i s l w.data fun e he _ => own e he
    have mine : ∀ e ∈ A.locks d', e.2 = i := fun e he =>
      (Locking.mem_exec hx he).elim And.right fun old => own e old.1
    obtain ⟨w', run, left, others, freed⟩ := ih r (w := w.set i (some (next r, l')) d') (World.set_self ..) mine (by
      rw [World.set_data, A.stop, List.filter_eq_nil_iff]
      exact fun e he => by simp [mine e he])
    exact ⟨w', .head (.exec r live hx) run, left,
      fun j other => (others j other).trans (World.set_other w other _ _), freed⟩

theorem Locking.Kept.run (h : A.Kept w) (run : Relation.ReflTransGen (Orderly S) w w')
    (starts : ∀ {i j d p d'}, S.start i j d = some (p, d') → A.Single none p fun _ => True) : A.Kept w' := by
  induction run with
  | refl => exact h
  | tail _ step ih => exact ih.step step.step starts

theorem Locking.Kept.freed (h : A.Kept w)
    (starts : ∀ {i j d p d'}, S.start i j d = some (p, d') → A.Single none p fun _ => True) :
    ∃ w', Relation.ReflTransGen (Orderly S) w w' ∧ A.locks w'.data = [] := by
  induction held : (A.locks w.data).length using Nat.strongRecOn generalizing w with
  | ind n ih =>
    cases locks : A.locks w.data with
    | nil => exact ⟨w, .refl, locks⟩
    | cons e rest =>
      have mem : e ∈ A.locks w.data := locks ▸ List.mem_cons_self
      obtain ⟨⟨p, l⟩, live⟩ := Option.ne_none_iff_exists'.mp (h.alive e mem)
      obtain ⟨m, obeys, holds⟩ := h.staged _ _ _ live
      obtain rfl := holds e mem rfl
      obtain ⟨w₁, run, freed⟩ := Locking.gives_back live obeys holds fun e' he' same => h.alone e' he' e mem same
      have fewer : (A.locks w₁.data).length < n := by
        rw [freed, ← held]
        exact List.length_filter_lt_length_iff_exists.mpr ⟨e, mem, by simp⟩
      obtain ⟨w', run', none⟩ := ih _ fewer (h.run run starts) rfl
      exact ⟨w', run.trans run', none⟩

/-- From wherever it is, the system can come to rest with every process run to its own end. -/
theorem Locking.Kept.drains (h : A.Kept w)
    (starts : ∀ {i j d p d'}, S.start i j d = some (p, d') → A.Single none p fun _ => True) {is : List ι}
    (listed : ∀ i, i ∉ is → w.proc i = none) :
    ∃ w', Relation.ReflTransGen (Orderly S) w w' ∧ (∀ i, w'.proc i = none) ∧ A.locks w'.data = [] := by
  obtain ⟨w₁, run, free⟩ := h.freed starts
  have listed₁ : ∀ i, i ∉ is → w₁.proc i = none := by
    clear free
    induction run with
    | refl => exact listed
    | @tail u v _ step ih =>
      intro i out
      have none := ih i out
      cases step with
      | @exec j s next l l' d' r hp hx =>
        have other : i ≠ j := by
          rintro rfl
          simp [none] at hp
        rwa [World.set_other u other]
      | @leave j p l hp ended =>
        by_cases same : i = j
        · exact same ▸ World.set_self ..
        · rwa [World.set_other u same]
  clear listed h
  suffices ∃ w', Relation.ReflTransGen (Orderly S) w₁ w' ∧ (∀ i, w'.proc i = none) ∧ A.locks w'.data = [] from
    this.imp fun _ rest => ⟨run.trans rest.1, rest.2⟩
  clear run
  induction is generalizing w₁ with
  | nil => exact ⟨w₁, .refl, fun i => listed₁ i List.not_mem_nil, free⟩
  | cons i is ih =>
    have rest : ∀ {v : World ι σ ρ ε L D}, v.proc i = none → (∀ j, j ≠ i → v.proc j = w₁.proc j) →
        ∀ j, j ∉ is → v.proc j = none := by
      intro v left others j out
      by_cases same : j = i
      · exact same ▸ left
      · exact (others j same).trans (listed₁ j fun mem => (List.mem_cons.mp mem).elim same out)
    by_cases live : w₁.proc i = none
    · exact ih w₁ free (rest live fun _ _ => rfl)
    · obtain ⟨⟨p, l⟩, live⟩ := Option.ne_none_iff_exists'.mp live
      obtain ⟨w₂, run, left, others, free₂⟩ := A.leaves live (by simp [free])
      obtain ⟨w', run', idle⟩ := ih w₂ free₂ (rest left others)
      exact ⟨w', run.trans run', idle⟩

end Locking

end Interleaving
