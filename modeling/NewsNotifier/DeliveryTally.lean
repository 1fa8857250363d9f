import NewsNotifier.CommittedRows
import NewsNotifier.DeliveryGoverns
import NewsNotifier.ExecutionRounds

namespace NewsNotifier

open Interleaving KeyedRows

def Database.logRow (db : Database) (id : Uuid) : Option DeliveryLog := db.logs.find? (·.id = id)

/-- What a write makes of the row of a log. -/
def Write.onLog : Write → DeliveryLog → DeliveryLog
  | .setLog id c, row => if row.id = id then c.apply row else row
  | _, row => row

namespace Stmt

def isCommit : Stmt → Bool
  | .commit => true
  | _ => false

def onLog : Stmt → DeliveryLog → DeliveryLog
  | .assign x, row => x.onLog row
  | _, row => row

/-- The last of the skip guards of `deliver_batch` lets the execution pass. -/
def passes : (s : Stmt) → Answer s → Bool
  | .getMarket _, some market => market.status = .active
  | _, _ => false

/-- The call raised. -/
def raises : (s : Stmt) → Answer s → Bool
  | .decryptSecret _, none => true
  | .sendWebhook _ _ _, .error _ => true
  | .sendTelegram _ _ _ _, .error _ => true
  | _, _ => false

/-- Telegram answered, but not with a success. -/
def rejects : (s : Stmt) → Answer s → Bool
  | .sendTelegram _ _ _ _, .ok (statusCode, error) => sendFailed statusCode error
  | _, _ => false

end Stmt

/-- An execution of `deliver_batch` so far: the row of its log as committed and as its session has
it, and which of the turns above it has taken. -/
structure Tally where
  row : DeliveryLog
  view : DeliveryLog
  past : Bool
  committed : Bool
  raised : Bool

namespace Tally

def start (row : DeliveryLog) : Tally := ⟨row, row, false, false, false⟩

def next (m : Tally) (s : Stmt) (r : Answer s) : Tally where
  row := if s.isCommit then m.view else m.row
  view := s.onLog m.view
  past := m.past || s.passes r
  committed := m.committed || s.isCommit
  raised := m.raised || s.raises r

@[simp] theorem next_assign (m : Tally) (x : Write) (r : Unit) :
    m.next (.assign x) r = { m with view := x.onLog m.view } := by
  simp [next, Stmt.isCommit, Stmt.onLog, Stmt.passes, Stmt.raises]

@[simp] theorem next_commit (m : Tally) (r : Unit) :
    m.next .commit r = { m with row := m.view, committed := true } := by
  simp [next, Stmt.isCommit, Stmt.onLog, Stmt.passes, Stmt.raises]

theorem next_call {m : Tally} {s : Stmt} {r : Answer s} (commit : s.isCommit = false)
    (assign : ∀ row, s.onLog row = row)
    (passes : s.passes r = false) :
    m.next s r = { m with raised := m.raised || s.raises r } := by
  simp [next, commit, assign, passes]

theorem next_quiet {m : Tally} {s : Stmt} {r : Answer s} (commit : s.isCommit = false)
    (assign : ∀ row, s.onLog row = row)
    (passes : s.passes r = false) (raises : s.raises r = false) : m.next s r = m := by
  simp [next, commit, assign, passes, raises]

end Tally

theorem logRow_after {db : Database} {id : Uuid} {row : DeliveryLog} (h : db.logRow id = some row) (l : List Write) :
    (db.after l).logRow id = some (l.foldl (fun row x => x.onLog row) row) := by
  induction l generalizing db row with
  | nil => exact h
  | cons x l ih =>
    refine ih ?_
    cases x with
    | insertLog new => exact (List.find?_append).trans (by rw [show db.logs.find? (·.id = id) = some row from h]; rfl)
    | setLog id' c =>
      have found : (update DeliveryLog.id id' c.apply db.logs).find? (·.id = id) = _ :=
        find_update (LogEffect.LogChange.id_apply c) db.logs
      rw [show db.logs.find? (·.id = id) = some row from h] at found
      exact found
    | _ => exact h

section Tracking

variable {lib : PyLib} {i : JobId} {logId : Uuid} {m : Tally}

/-- A statement moves the row of a log as the tally has it. -/
theorem exec_tally {s : Stmt} {r : Answer s} {l l' : List Write} {d d' : Data}
    (hx : exec lib i s r l d = some (l', d')) (other : ∀ row, s ≠ .insertMarket row)
    (row : d.db.logRow logId = some m.row) (view : l.foldl (fun row x => x.onLog row) m.row = m.view) :
    d'.db.logRow logId = some (m.next s r).row ∧
      l'.foldl (fun row x => x.onLog row) (m.next s r).row = (m.next s r).view := by
  by_cases assign : ∃ x, s = .assign x
  · obtain ⟨x, rfl⟩ := assign
    obtain ⟨rfl, rfl⟩ := Prod.mk.inj (Option.some.inj hx)
    rw [Tally.next_assign, List.foldl_append, view]
    exact ⟨row, rfl⟩
  by_cases commit : s = .commit
  · subst commit
    obtain ⟨rfl, rfl⟩ := Prod.mk.inj (Option.some.inj hx)
    rw [Tally.next_commit]
    exact ⟨view ▸ logRow_after row l, rfl⟩
  have keepsRow : (m.next s r).row = m.row := by
    have open_ : s.isCommit = false := by
      cases s <;> first | rfl | exact absurd rfl commit
    simp [Tally.next, open_]
  have keepsView : (m.next s r).view = m.view := by
    have quiet : ∀ row, s.onLog row = row := by
      intro row
      cases s with
      | assign x => exact absurd ⟨x, rfl⟩ assign
      | _ => rfl
    exact quiet _
  rw [keepsRow, keepsView]
  have stages : ∀ {x : Write}, s.Writes x → ∀ row, x.onLog row = row := by
    intro x writes
    cases writes with
    | assigned x => exact absurd ⟨x, rfl⟩ assign
    | _ => exact fun _ => rfl
  cases exec_outcome hx with
  | staged x writes | drewStaged _ x _ writes =>
    refine ⟨row, ?_⟩
    rw [List.foldl_append, view]
    exact stages writes _
  | drewBatch u batch =>
    refine ⟨row, ?_⟩
    rw [List.foldl_append, view]
    rfl
  | committed e => exact absurd e commit
  | marketInserted row e => exact absurd e (other row)
  | _ => exact ⟨row, view⟩

variable {d₀ : Data} {job : Task × Settings} {w w' : NewsWorld} {tr : List NewsEvent} {row : DeliveryLog}

/-- The others leave the row of a delivery's log. -/
theorem others_logRow (h₀ : d₀.Initial) (reach : Reachable (newsSys lib plainTask) d₀ w)
    (step : Step (newsSys lib plainTask) w w') (same : w'.proc (.deliverBatch logId) = w.proc (.deliverBatch logId))
    (h : w.data.db.logRow logId = some row) : w'.data.db.logRow logId = some row := by
  have sound := (plain_governs lib).sound h₀.deliveryInv reach
  obtain ⟨sound', _⟩ := (plain_governs lib).step sound step
  obtain ⟨a, ne, act⟩ := step.others (plain_governs lib) sound same
  obtain ⟨mem, key⟩ := key_of_find h
  have kept := (act.2.undisturbed sound.data.1.keyed.logs ne).log row mem (congrArg JobId.deliverBatch key.symm)
  rw [← key]
  exact find_of_mem sound'.data.1.keyed.logs kept

/-- The row of the log when the execution began to read, or now if it has not begun. -/
def FoundRow (logId : Uuid) (row : DeliveryLog) (tr : List NewsEvent) (d : Data) : Prop :=
  match tr with
  | [] => d.db.logRow logId = some row
  | e :: _ => e.data.db.logRow logId = some row

/-- A log that is there when its execution starts is found as it was. -/
theorem foundRow (h₀ : d₀.Initial) (reach : Reachable (newsSys lib plainTask) d₀ w)
    (run : Execution (newsSys lib plainTask) (.deliverBatch logId) job w tr w')
    (h : w.data.db.logRow logId = some row) :
    FoundRow logId row tr w'.data := by
  induction run with
  | start idle hs =>
    obtain ⟨_, _, _, _, rfl⟩ := @newsSys_start lib plainTask _ _ _ _ _ _ hs
    exact h
  | @exec tr w' s next l l' d' run r hp hx ih =>
    cases tr with
    | nil => exact ih
    | cons e tr => exact ih
  | @beside tr w' w'' run step same ih =>
    cases tr with
    | nil => exact others_logRow h₀ (reach.trans run.steps) step same ih
    | cons e tr => exact ih

/-- The tally of an execution is what is committed and staged of its log. -/
theorem tallied {O : Monitor Stmt Answer Tally} (moves : O.next = Tally.next) (h₀ : d₀.Initial)
    (reach : Reachable (newsSys lib plainTask) d₀ w)
    (run : Execution (newsSys lib plainTask) (.deliverBatch logId) job w tr w')
    (other : ∀ e ∈ tr, ∀ row, e.stmt ≠ .insertMarket row) (h : FoundRow logId row tr w'.data)
    {p : Program Unit} {l : List Write} (live : w'.proc (.deliverBatch logId) = some (p, l)) :
    w'.data.db.logRow logId = some (O.observe (.start row) tr).row ∧
      l.foldl (fun row x => x.onLog row) (O.observe (.start row) tr).row = (O.observe (.start row) tr).view := by
  induction run generalizing p l with
  | start idle hs =>
    obtain ⟨_, rfl⟩ := Prod.mk.inj (Option.some.inj ((World.set_self _ _ _ _).symm.trans live))
    obtain ⟨_, _, _, _, rfl⟩ := @newsSys_start lib plainTask _ _ _ _ _ _ hs
    exact ⟨h, rfl⟩
  | @exec tr w' s next l₀ l₁ d' run r hp hx ih =>
    obtain ⟨_, rfl⟩ := Prod.mk.inj (Option.some.inj ((World.set_self _ _ _ _).symm.trans live))
    have found : FoundRow logId row tr w'.data := by
      cases tr with
      | nil => exact h
      | cons e tr => exact h
    obtain ⟨committed, staged⟩ := ih (fun e he => other e (List.mem_append_left _ he)) found hp
    have hx : exec lib (.deliverBatch logId) s r l₀ w'.data = some (l₁, d') := hx
    have last : O.observe (.start row) (tr ++ [⟨s, r, l₀, w'.data⟩]) = (O.observe (.start row) tr).next s r := by
      rw [Monitor.observe_append, ← moves]
      rfl
    rw [last]
    exact exec_tally hx (other _ (List.mem_append_right _ List.mem_cons_self)) committed staged
  | @beside tr w' w'' run step same ih =>
    cases tr with
    | nil =>
      obtain rfl := run.unmoved (same ▸ live)
      exact ⟨h, rfl⟩
    | cons e tr =>
      obtain ⟨committed, staged⟩ := ih other h (same ▸ live)
      exact ⟨others_logRow h₀ (reach.trans run.steps) step same committed, staged⟩

end Tracking

end NewsNotifier
