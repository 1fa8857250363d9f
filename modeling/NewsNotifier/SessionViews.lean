import NewsNotifier.CommittedRows
import NewsNotifier.ExecutionOrigins
import NewsNotifier.StoredArticles

namespace NewsNotifier

open Interleaving KeyedRows

/-- Rows, or columns of them, that writes only ever add to. -/
def Accrues {β : Type} (rows : Database → List β) (added : Write → Option β) : Prop :=
  ∀ (db : Database) (x : Write), rows (x.apply db) = rows db ++ (added x).toList

namespace Accrues

variable {β : Type} {rows : Database → List β} {added : Write → Option β} (accrues : Accrues rows added)

include accrues

theorem after (db : Database) (l : List Write) : rows (db.after l) = rows db ++ l.filterMap added := by
  induction l generalizing db with
  | nil => simp
  | cons x l ih =>
    rw [Database.after_cons, ih, accrues]
    cases h : added x <;> simp [h]

theorem kept {db : Database} (l : List Write) {y : β} (mem : y ∈ rows db) : y ∈ rows (db.after l) := by
  rw [accrues.after]
  exact List.mem_append_left _ mem

/-- What a session sees it still sees once others have added rows. -/
theorem under {db : Database} (k : List Write) {l : List Write} {y : β} (mem : y ∈ rows (db.after l)) :
    y ∈ rows ((db.after k).after l) := by
  rw [accrues.after] at mem ⊢
  rcases List.mem_append.mp mem with old | own
  · exact List.mem_append_left _ (accrues.kept k old)
  · exact List.mem_append_right _ own

section Runs

variable {lib : PyLib} {admits : Admits} {i : JobId} {job : Task × Settings} {w w' : NewsWorld} {y : β}

theorem steps (run : Steps (newsSys lib admits) w w') (mem : y ∈ rows w.data.db) : y ∈ rows w'.data.db := by
  obtain ⟨l, same⟩ := steps_after run
  rw [same]
  exact accrues.kept l mem

theorem exec {s : Stmt} {r : Answer s} {l l' : List Write} {d d' : Data} (hx : exec lib i s r l d = some (l', d'))
    (mem : y ∈ rows (d.db.after l)) : y ∈ rows (d'.db.after l') := by
  rcases exec_after hx with ⟨same, more, rfl⟩ | ⟨_, rfl, rest, applied⟩
  · rw [same, Database.after_append]
    exact accrues.kept more mem
  · rw [applied, Database.after_append, Database.after_nil]
    exact accrues.kept rest mem

/-- Rows appear with a commit, out of the session that commits. -/
theorem committed (inserts : ∀ row, added (.insertMarket row) = none) {s : Stmt} {r : Answer s} {l l' : List Write}
    {d d' : Data} (hx : NewsNotifier.exec lib i s r l d = some (l', d')) (unseen : y ∉ rows d.db)
    (holds : y ∈ rows d'.db) : l' = [] ∧ y ∈ rows (d.db.after l) := by
  cases exec_outcome hx with
  | committed => exact ⟨rfl, holds⟩
  | marketInserted row =>
    have holds : y ∈ rows ((Write.insertMarket row).apply (d.db.after l)) := holds
    rw [accrues, inserts, Option.toList_none, List.append_nil] at holds
    exact ⟨rfl, holds⟩
  | _ => exact absurd holds unseen

/-- A session never loses sight of a row. -/
theorem seen {tr before after : List NewsEvent} {e : NewsEvent} (run : Execution (newsSys lib admits) i job w tr w')
    (split : tr = before ++ e :: after) {l₁ : List Write} {d₁ : Data}
    (hx : NewsNotifier.exec lib i e.stmt e.answer e.before e.data = some (l₁, d₁)) (mem : y ∈ rows (d₁.db.after l₁))
    {p : Program Unit} {l : List Write} (live : w'.proc i = some (p, l)) : y ∈ rows (w'.data.db.after l) := by
  induction run generalizing after p l with
  | start => simp at split
  | @exec tr w' s next l₀ l' d' run r hp hx' ih =>
    have hx' : NewsNotifier.exec lib i s r l₀ w'.data = some (l', d') := hx'
    obtain ⟨_, rfl⟩ := Prod.mk.inj (Option.some.inj ((World.set_self _ _ _ _).symm.trans live))
    rw [World.set_data]
    rcases List.eq_nil_or_concat after with rfl | ⟨after, last, rfl⟩
    · obtain ⟨_, last⟩ := List.append_inj' split rfl
      obtain ⟨rfl, _⟩ := List.cons.inj last
      obtain ⟨rfl, rfl⟩ := Prod.mk.inj (Option.some.inj (hx'.symm.trans hx))
      exact mem
    · rw [List.concat_eq_append, ← List.cons_append, ← List.append_assoc] at split
      exact accrues.exec hx' (ih (List.append_inj' split rfl).1 hp)
  | beside run step same ih =>
    obtain ⟨k, grown⟩ := step_after step
    rw [grown]
    exact accrues.under k (ih split (same ▸ live))

/-- A row that a run has added was staged by an execution that has committed all it has seen. -/
theorem origin (inserts : ∀ row, added (.insertMarket row) = none) {d₀ : Data}
    (reach : Reachable (newsSys lib admits) d₀ w) (absent : y ∉ rows d₀.db) (mem : y ∈ rows w.data.db) :
    ∃ i job v tr v' p before e after x, Reachable (newsSys lib admits) d₀ v ∧
      Execution (newsSys lib admits) i job v tr v' ∧
      Steps (newsSys lib admits) v' w ∧ v'.proc i = some (p, []) ∧ tr = before ++ e :: after ∧ e.stmt.Stages x ∧
        added x = some y := by
  obtain ⟨i, job, v, tr, e, w₁, w₂, first, brings, rest⟩ :=
    Steps.origin (P := fun d => y ∈ rows d.db) (fun _ => rfl) reach
    (fun hs now => by obtain ⟨_, _, _, _, rfl⟩ := newsSys_start hs; exact now) (fun now => by exact now)
    (fun he now => by obtain ⟨_, rfl⟩ := newsSys_env he; exact now) absent mem
  obtain ⟨next, l', live, hx, ended⟩ := brings.executed
  obtain ⟨rfl, view⟩ := accrues.committed inserts hx brings.unseen brings.holds
  rw [accrues.after] at view
  obtain ⟨x, hx, same⟩ := List.mem_filterMap.mp ((List.mem_append.mp view).resolve_left brings.unseen)
  obtain ⟨e', he', stages⟩ := staged_holds (K := fun _ x => ∃ e' ∈ tr, e'.stmt.Stages x) (fun _ _ h => h) brings.before
    (fun e' he' x stages => ⟨e', he', stages⟩) live x hx
  obtain ⟨before, after, rfl⟩ := List.append_of_mem he'
  exact ⟨i, job, v, _, w₂, _, before, e', after ++ [e], x, first, brings.after, rest, ended, by simp, stages, same⟩

end Runs

end Accrues

/-- The columns of a market that nothing updates. -/
def Market.key (market : Market) : Uuid × String := (market.id, market.externalMarketId)

theorem MarketChange.key_apply (c : MarketChange) (market : Market) : (c.apply market).key = market.key := by
  cases c <;> rfl

def Write.market : Write → Option (Uuid × String)
  | .insertMarket row => some row.key
  | _ => none

theorem markets_accrue : Accrues (fun db => db.markets.map Market.key) Write.market := by
  intro db x
  cases x with
  | insertMarket row => simp [Write.apply, Write.market]
  | setMarket id c => simp [Write.apply, Write.market, map_update (MarketChange.key_apply c)]
  | _ => simp [Write.apply, Write.market]

/-- The columns of a batch that nothing updates. -/
def NewsBatch.key (row : NewsBatch) : Uuid × Uuid := (row.id, row.marketId)

def Write.batch : Write → Option (Uuid × Uuid)
  | .insertBatch row => some row.key
  | _ => none

theorem batches_accrue : Accrues (fun db => db.batches.map NewsBatch.key) Write.batch := by
  intro db x
  cases x with
  | insertBatch row => simp [Write.apply, Write.batch]
  | setBatch id n s =>
    have same : ∀ row : NewsBatch, (row.set n s).key = row.key := fun _ => rfl
    simp [Write.apply, Write.batch, map_update same]
  | _ => simp [Write.apply, Write.batch]

theorem items_accrue : Accrues (fun db => db.tables.items) Write.item := by
  intro db x
  have added := after_items db [x]
  cases h : x.item <;> simpa [h] using added

theorem logs_accrue : Accrues (fun db => db.tables.logs) Write.log := by
  intro db x
  have added := after_logs db [x]
  cases h : x.log <;> simpa [h] using added

def Write.slot : Write → Option NewsBatchCandidate
  | .insertCandidate row => some row
  | _ => none

theorem slots_accrue : Accrues Database.candidates Write.slot := by
  intro db x
  cases x <;> simp [Write.apply, Write.slot]

def Write.failure : Write → Option ScrapeFailure
  | .insertFailure row => some row
  | _ => none

theorem failures_accrue : Accrues Database.failures Write.failure := by
  intro db x
  cases x <;> simp [Write.apply, Write.failure]

end NewsNotifier
