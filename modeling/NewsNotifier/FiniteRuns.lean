import NewsNotifier.ExecutionTraces
import NewsNotifier.InterleavedTotal
import Mathlib.Algebra.Order.BigOperators.Group.List
import Mathlib.Algebra.GroupWithZero.Nat
import Mathlib.Algebra.Order.Group.Nat

namespace Interleaving

variable {ι σ : Type} {ρ : σ → Type} {ε L D J E M : Type} {α β : Type}

namespace Prog

/-- No path of the program has more than `n` statements. -/
def Within : Nat → Prog σ ρ ε α → Prop
  | _, ret _ => True
  | _, raise _ => True
  | 0, stmt _ _ => False
  | n + 1, stmt _ next => ∀ r, (next r).Within n

theorem Within.mono {p : Prog σ ρ ε α} {n m : Nat} (h : p.Within n) (le : n ≤ m) : p.Within m := by
  induction p generalizing n m with
  | ret a => cases m <;> exact True.intro
  | raise e => cases m <;> exact True.intro
  | stmt s next ih =>
    cases n with
    | zero => exact h.elim
    | succ n =>
      obtain ⟨m, rfl⟩ := Nat.exists_eq_add_of_le le
      rw [Nat.add_right_comm]
      exact fun r => ih r (h r) (Nat.le_add_right n m)

theorem Within.ret (a : α) (n : Nat) : (Prog.ret a : Prog σ ρ ε α).Within n := by cases n <;> exact True.intro

theorem Within.raise (e : ε) (n : Nat) : (Prog.raise e : Prog σ ρ ε α).Within n := by cases n <;> exact True.intro

theorem Within.bind {p : Prog σ ρ ε α} {f : α → Prog σ ρ ε β} {n m : Nat} (hp : p.Within n)
    (hf : ∀ a, (f a).Within m) : (p.bind f).Within (n + m) := by
  induction p generalizing n with
  | ret a => exact (hf a).mono (Nat.le_add_left m n)
  | raise e => exact .raise e _
  | stmt s next ih =>
    cases n with
    | zero => exact hp.elim
    | succ n =>
      rw [Nat.add_right_comm]
      exact fun r => ih r (hp r)

theorem Within.within {p : Prog σ ρ ε α} {leave : Prog σ ρ ε Unit} {n m : Nat} (hp : p.Within n)
    (hl : leave.Within m) : (Prog.within leave p).Within (n + m) := by
  induction p generalizing n with
  | ret a => exact ((hl.bind (m := 0) fun _ => .ret a 0).mono (Nat.le_add_left m n))
  | raise e => exact ((hl.bind (m := 0) fun _ => .raise e 0).mono (Nat.le_add_left m n))
  | stmt s next ih =>
    cases n with
    | zero => exact hp.elim
    | succ n =>
      rw [Nat.add_right_comm]
      exact fun r => ih r (hp r)

/-- What the body leaves is what the way out starts from. -/
theorem Obeys.within {O : Monitor σ ρ M} {Q : M → α → Prop} {F : M → ε → Prop} {p : Prog σ ρ ε α}
    {leave : Prog σ ρ ε Unit} {m : M} (h : p.Obeys O (fun m a => leave.Obeys O (fun m _ => Q m a) F m)
      (fun m e => leave.Obeys O (fun m _ => F m e) F m) m) : (Prog.within leave p).Obeys O Q F m := by
  induction p generalizing m with
  | ret a => exact h.bind
  | raise e => exact Obeys.bind (f := fun _ => Prog.raise e) (Q := Q) h
  | stmt s next ih => exact ⟨h.1, fun r hr => ih r (h.2 r hr)⟩

end Prog

variable [DecidableEq ι] {S : Sys ι σ ρ ε L D J E} {w w' : World ι σ ρ ε L D}

/-- Each live process obeys its monitor from a state that is related to the data. -/
def Staged (O : ι → Monitor σ ρ M) (Q : ι → M → Prop) (R : ι → M → D → Prop) (w : World ι σ ρ ε L D) : Prop :=
  ∀ i p l, w.proc i = some (p, l) → ∃ m, p.Obeys (O i) (fun m _ => Q i m) (fun m _ => Q i m) m ∧ R i m w.data

section Staged

variable {O : ι → Monitor σ ρ M} {Q : ι → M → Prop} {R : ι → M → D → Prop} {i : ι}

/-- What becomes of one process, while the data keep what relates them to the others. -/
theorem Staged.set (h : Staged O Q R w) {q : Option (Prog σ ρ ε Unit × L)} {d : D}
    (others : ∀ j m, j ≠ i → R j m w.data → R j m d)
    (own : ∀ p l, q = some (p, l) → ∃ m, p.Obeys (O i) (fun m _ => Q i m) (fun m _ => Q i m) m ∧ R i m d) :
    Staged O Q R (w.set i q d) := by
  intro j p l live
  by_cases same : j = i
  · subst j
    rw [World.set_self] at live
    exact own p l live
  · rw [World.set_other w same] at live
    obtain ⟨m, obeys, related⟩ := h j p l live
    exact ⟨m, obeys, others j m same related⟩

theorem Staged.exec (h : Staged O Q R w) {s : σ} {next : ρ s → Prog σ ρ ε Unit} {l l' : L} {r : ρ s} {d : D}
    (hp : w.proc i = some (.stmt s next, l)) (others : ∀ j m, j ≠ i → R j m w.data → R j m d)
    (own : ∀ m, (O i).asked m s → R i m w.data → (O i).given m s r ∧ R i ((O i).next m s r) d) :
    Staged O Q R (w.set i (some (next r, l')) d) := by
  refine h.set others fun p l₁ same => ?_
  obtain ⟨rfl, rfl⟩ := Prod.mk.inj (Option.some.inj same)
  obtain ⟨m, obeys, related⟩ := h i _ _ hp
  obtain ⟨given, later⟩ := own m obeys.1 related
  exact ⟨_, obeys.2 r given, later⟩

end Staged

/-- What is left of a process to execute is nothing. -/
def World.Ended (w : World ι σ ρ ε L D) (i : ι) : Prop := ∀ p l, w.proc i = some (p, l) → p.Ended

/-- A step in which a process of the list executes a statement. -/
inductive Fires (S : Sys ι σ ρ ε L D J E) (is : List ι) (w : World ι σ ρ ε L D) : World ι σ ρ ε L D → Prop
  | exec {i : ι} {s : σ} {next : ρ s → Prog σ ρ ε Unit} {l l' : L} {d' : D} (mem : i ∈ is) (r : ρ s)
      (hp : w.proc i = some (.stmt s next, l)) (hx : S.exec i s r l w.data = some (l', d')) :
      Fires S is w (w.set i (some (next r, l')) d')

theorem Fires.step {is : List ι} (h : Fires S is w w') : Step S w w' := by
  cases h with
  | exec _ r hp hx => exact .exec r hp hx

/-- The processes of the list have this much left to execute. -/
def Left (is : List ι) (left : ι → Nat) (w : World ι σ ρ ε L D) : Prop :=
  ∀ i ∈ is, ∀ p l, w.proc i = some (p, l) → p.Within (left i)

/-- A statement that is executed is one less to execute. -/
theorem Left.fires {is : List ι} {left : ι → Nat} (h : Left is left w) (fires : Fires S is w w') :
    ∃ left', Left is left' w' ∧ (is.map left').sum < (is.map left).sum := by
  cases fires with
  | @exec i s next l l' d' mem r hp hx =>
    have some_left := h i mem _ _ hp
    obtain ⟨n, hn⟩ : ∃ n, left i = n + 1 := by
      cases same : left i with
      | zero =>
        rw [same] at some_left
        exact some_left.elim
      | succ n => exact ⟨n, rfl⟩
    rw [hn] at some_left
    refine ⟨Function.update left i n, fun j hj p l₁ live => ?_, ?_⟩
    · by_cases same : j = i
      · subst j
        rw [World.set_self] at live
        obtain ⟨rfl, rfl⟩ := Prod.mk.inj (Option.some.inj live)
        rw [Function.update_self]
        exact some_left r
      · rw [World.set_other w same] at live
        rw [Function.update_of_ne same]
        exact h j hj p l₁ live
    · refine List.sum_lt_sum _ _ (fun j _ => ?_) ⟨i, mem, ?_⟩
      · by_cases same : j = i
        · subst j
          rw [Function.update_self, hn]
          exact Nat.le_succ n
        · rw [Function.update_of_ne same]
      · rw [Function.update_self, hn]
        exact Nat.lt_succ_self n

/-- The processes cannot execute for ever. -/
theorem not_endless {is : List ι} {left : ι → Nat} (bound : Left is left w) {run : Nat → World ι σ ρ ε L D}
    (start : run 0 = w) : ¬∀ n, Fires S is (run n) (run (n + 1)) := by
  intro fires
  have falls : ∀ n, ∃ left', Left is left' (run n) ∧ (is.map left').sum + n ≤ (is.map left).sum := by
    intro n
    induction n with
    | zero => exact ⟨left, start ▸ bound, le_rfl⟩
    | succ n ih =>
      obtain ⟨before, bound, fall⟩ := ih
      obtain ⟨after, bound', less⟩ := bound.fires (fires n)
      exact ⟨after, bound', by omega⟩
  obtain ⟨_, _, fall⟩ := falls ((is.map left).sum + 1)
  omega

/-- Where some unfinished process can always execute, all of them can be run to their ends. -/
theorem completes {is : List ι} {I : World ι σ ρ ε L D → Prop}
    (keep : ∀ w w', I w → Fires S is w w' → I w') (free : ∀ w, I w → (∃ i ∈ is, ¬w.Ended i) → ∃ w', Fires S is w w')
    {left : ι → Nat} (bound : Left is left w) (hi : I w) :
    ∃ w', Relation.ReflTransGen (Fires S is) w w' ∧ I w' ∧ ∀ i ∈ is, w'.Ended i := by
  induction total : (is.map left).sum using Nat.strongRecOn generalizing w left with
  | ind n ih =>
    by_cases unfinished : ∃ i ∈ is, ¬w.Ended i
    · obtain ⟨w₁, fires⟩ := free w hi unfinished
      obtain ⟨left', bound', less⟩ := bound.fires fires
      obtain ⟨w', run, inv, ended⟩ := ih _ (total ▸ less) bound' (keep _ _ hi fires) rfl
      exact ⟨w', .head fires run, inv, ended⟩
    · exact ⟨w, .refl, hi, fun i hmem => by
        by_contra open_
        exact unfinished ⟨i, hmem, open_⟩⟩

end Interleaving
