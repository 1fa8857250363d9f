import NewsNotifier.ExecutionTraces
import NewsNotifier.NewsSystem

namespace NewsNotifier

open Interleaving

abbrev NewsEvent := Event Stmt Answer (List Write) Data

/-- A commit applies what is staged; any other statement stages at most more. -/
theorem exec_after {lib : PyLib} {i : JobId} {s : Stmt} {r : Answer s} {l l' : List Write} {d d' : Data}
    (h : exec lib i s r l d = some (l', d')) : (d'.db = d.db ∧ l <+: l') ∨
      (s.commits = true ∧ l' = [] ∧ ∃ rest, d'.db = d.db.after (l ++ rest)) := by
  cases exec_outcome h with
  | staged | drewStaged | drewBatch => exact .inl ⟨rfl, List.prefix_append _ _⟩
  | committed e => exact .inr ⟨e ▸ rfl, rfl, [], by rw [List.append_nil]; rfl⟩
  | marketInserted row e =>
    exact .inr ⟨e ▸ rfl, rfl, [.insertMarket row], by rw [Database.after_append]; rfl⟩
  | _ => exact .inl ⟨rfl, List.prefix_rfl⟩

/-- Every step leaves the committed rows, or applies writes to them. -/
theorem step_after {lib : PyLib} {admits : Admits} {w w' : NewsWorld} (h : Step (newsSys lib admits) w w') :
    ∃ l, w'.data.db = w.data.db.after l := by
  rcases newsSys_step h.restrict_true with ⟨i, s, r, l, l', _, hx⟩ | ⟨_, _, _, _, idle⟩
  · rcases exec_after hx with ⟨same, _⟩ | ⟨_, _, rest, applied⟩
    · exact ⟨[], same⟩
    · exact ⟨l ++ rest, applied⟩
  · exact ⟨[], by rw [idle]; rfl⟩

theorem steps_after {lib : PyLib} {admits : Admits} {w w' : NewsWorld} (h : Steps (newsSys lib admits) w w') :
    ∃ l, w'.data.db = w.data.db.after l := by
  induction h with
  | refl => exact ⟨[], rfl⟩
  | tail _ step ih =>
    obtain ⟨l, first⟩ := ih
    obtain ⟨l', last⟩ := step_after step
    exact ⟨l ++ l', by rw [last, first, Database.after_append]⟩

/-- A read of a market returns the row of that id. -/
theorem read_market {lib : PyLib} {i : JobId} {id : Uuid} {market : Market} {l l' : List Write} {d d' : Data}
    (h : exec lib i (.getMarket id) (some market) l d = some (l', d')) : market.id = id := by
  obtain ⟨ok, _, _⟩ := answered_eq h
  exact (KeyedRows.key_of_find (of_decide_eq_true ok).symm).2

/-- The writes that a statement can stage. -/
def Stmt.Stages (s : Stmt) (x : Write) : Prop :=
  s.Writes x ∨ ∃ row watermark, x = .insertBatch row ∧ s = .insertBatch row.marketId row.expectedCount watermark

theorem exec_staged {lib : PyLib} {i : JobId} {s : Stmt} {r : Answer s} {l l' : List Write} {d d' : Data}
    (h : exec lib i s r l d = some (l', d')) {x : Write} (mem : x ∈ l') : x ∈ l ∨ s.Stages x := by
  have last : ∀ {y : Write}, x ∈ l ++ [y] → x ∈ l ∨ x = y := by
    intro y hx
    exact (List.mem_append.mp hx).imp_right List.mem_singleton.mp
  cases exec_outcome h with
  | staged y writes | drewStaged _ y _ writes =>
    rcases last mem with old | rfl
    · exact .inl old
    · exact .inr (.inl writes)
  | drewBatch u row watermark fresh writes id =>
    rcases last mem with old | rfl
    · exact .inl old
    · exact .inr (.inr ⟨row, watermark, rfl, writes⟩)
  | committed | marketInserted => simp at mem
  | _ => exact .inl mem

section Staged

variable {lib : PyLib} {admits : Admits} {i : JobId} {job : Task × Settings} {w w' : NewsWorld}
  {before after : List NewsEvent} {e : NewsEvent} {l₁ : List Write} {d₁ : Data} {x : Write}

/-- A write was committed in a state of the run. -/
def CommittedIn (lib : PyLib) (admits : Admits) (w w' : NewsWorld) (x : Write) : Prop :=
  ∃ v db l, Steps (newsSys lib admits) w v ∧ Steps (newsSys lib admits) v w' ∧ x ∈ l ∧
    v.data.db = Database.after db l

theorem CommittedIn.tail {w'' : NewsWorld} (h : CommittedIn lib admits w w' x)
    (step : Step (newsSys lib admits) w' w'') : CommittedIn lib admits w w'' x := by
  obtain ⟨v, db, l, first, last, mem, committed⟩ := h
  exact ⟨v, db, l, first, last.tail step, mem, committed⟩

/-- What a statement stages is committed, or still staged if no commit followed. -/
theorem staged_kept {tr : List NewsEvent} (h : Execution (newsSys lib admits) i job w tr w')
    (split : tr = before ++ e :: after)
    (hx : exec lib i e.stmt e.answer e.before e.data = some (l₁, d₁)) (staged : x ∈ l₁) :
    CommittedIn lib admits w w' x ∨
      (∀ e' ∈ after, e'.stmt ≠ .commit) ∧ ∃ p l, w'.proc i = some (p, l) ∧ x ∈ l := by
  induction h generalizing after with
  | start => simp at split
  | @exec tr w' s next l l' d' run r hp hx' ih =>
    have step : Step (newsSys lib admits) w' _ := .exec r hp hx'
    have hx' : exec lib i s r l w'.data = some (l', d') := hx'
    rcases List.eq_nil_or_concat after with rfl | ⟨after, last, rfl⟩
    · obtain ⟨rfl, last⟩ := List.append_inj' split rfl
      obtain ⟨rfl, _⟩ := List.cons.inj last
      obtain ⟨rfl, rfl⟩ := Prod.mk.inj (Option.some.inj (hx'.symm.trans hx))
      exact .inr ⟨by simp, _, _, World.set_self _ _ _ _, staged⟩
    · rw [List.concat_eq_append, ← List.cons_append, ← List.append_assoc] at split
      obtain ⟨earlier, last_eq⟩ := List.append_inj' split rfl
      obtain ⟨rfl, _⟩ := List.cons.inj last_eq
      rcases ih earlier with committed | ⟨pending, p, l₂, own, mem⟩
      · exact .inl (committed.tail step)
      · obtain ⟨_, rfl⟩ := Prod.mk.inj (Option.some.inj (own.symm.trans hp))
        rcases exec_after hx' with ⟨_, kept⟩ | ⟨_, _, rest, applied⟩
        · refine .inr ⟨fun e' he' => ?_, _, _, World.set_self _ _ _ _, kept.subset mem⟩
          rw [List.concat_eq_append] at he'
          rcases List.mem_append.mp he' with he' | he'
          · exact pending e' he'
          · obtain rfl := List.mem_singleton.mp he'
            rintro (rfl : s = .commit)
            obtain ⟨rfl, _⟩ := Prod.mk.inj (Option.some.inj hx')
            exact absurd (kept.subset mem) (by simp)
        · refine .inl ⟨_, w'.data.db, _, run.steps.tail step, .refl, List.mem_append_left rest mem, ?_⟩
          rw [World.set_data, applied]
  | beside run step same ih =>
    rcases ih split with committed | ⟨pending, p, l, own, mem⟩
    · exact .inl (committed.tail step)
    · exact .inr ⟨pending, p, l, same.trans own, mem⟩

theorem staged_committed {tr : List NewsEvent} (h : Execution (newsSys lib admits) i job w tr w')
    (split : tr = before ++ e :: after)
    (hx : exec lib i e.stmt e.answer e.before e.data = some (l₁, d₁)) (staged : x ∈ l₁)
    (commit : ∃ e' ∈ after, e'.stmt = .commit) : CommittedIn lib admits w w' x := by
  rcases staged_kept h split hx staged with committed | ⟨pending, _⟩
  · exact committed
  · obtain ⟨e', he', same⟩ := commit
    exact absurd same (pending e' he')

/-- What each statement stages, and every step of the run keeps, holds of all that is staged. -/
theorem staged_holds {K : Data → Write → Prop} {tr : List NewsEvent}
    (keep : ∀ {v v' : NewsWorld}, Step (newsSys lib admits) v v' → ∀ x, K v.data x → K v'.data x)
    (h : Execution (newsSys lib admits) i job w tr w') (writes : ∀ e ∈ tr, ∀ x, e.stmt.Stages x → K e.data x)
    {p : Program Unit} {l : List Write} (live : w'.proc i = some (p, l)) : ∀ x ∈ l, K w'.data x := by
  induction h generalizing p l with
  | start idle hs =>
    obtain ⟨_, rfl⟩ := Prod.mk.inj (Option.some.inj ((World.set_self _ _ _ _).symm.trans live))
    exact fun x hx => absurd hx List.not_mem_nil
  | @exec tr w' s next l₀ l₁ d' run r hp hx ih =>
    obtain ⟨_, rfl⟩ := Prod.mk.inj (Option.some.inj ((World.set_self _ _ _ _).symm.trans live))
    have step : Step (newsSys lib admits) w' _ := .exec r hp hx
    have hx : exec lib i s r l₀ w'.data = some (l₁, d') := hx
    intro x mem
    refine keep step x ?_
    rcases exec_staged hx mem with old | stages
    · exact ih (fun e he => writes e (List.mem_append_left _ he)) hp x old
    · exact writes _ (List.mem_append_right _ List.mem_cons_self) x stages
  | beside run step same ih => exact fun x mem => keep step x (ih writes (same ▸ live) x mem)

theorem staged_before {K : Data → Write → Prop} {tr : List NewsEvent}
    (keep : ∀ {v v' : NewsWorld}, Step (newsSys lib admits) v v' → ∀ x, K v.data x → K v'.data x)
    (h : Execution (newsSys lib admits) i job w tr w') (writes : ∀ e ∈ tr, ∀ x, e.stmt.Stages x → K e.data x)
    (he : e ∈ tr) : ∀ x ∈ e.before, K e.data x := by
  obtain ⟨before, after, rfl⟩ := List.append_of_mem he
  obtain ⟨w₁, next, l', d', first, at_, live, _, _⟩ := h.split rfl
  rw [← at_]
  exact staged_holds keep first (fun e' he' => writes e' (List.mem_append_left _ he')) live

end Staged

end NewsNotifier
