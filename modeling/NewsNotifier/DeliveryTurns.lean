import NewsNotifier.PollJobs
import NewsNotifier.DeliveryTally

namespace NewsNotifier

open Interleaving KeyedRows

/-- The market whose delivery runs under this id. -/
def Database.delivers (db : Database) : JobId → Option Uuid
  | .deliverBatch logId => (db.logRow logId).map (·.marketId)
  | _ => none

/-- The deliveries of a market take turns, and a log that has been given up is not tried again. -/
def oneAtATime : Allows := fun i _ _ _ d =>
  match i with
  | .deliverBatch logId => (d.db.logRow logId).all fun log => log.status ≠ .deadLetter &&
      d.redis.running.all fun e => e.id = i || d.db.delivers e.id ≠ some log.marketId
  | _ => true

/-- A live process is entered once, with its task and its settings. -/
theorem running_entry {lib : PyLib} {admits : Admits} {i : JobId} {job : Task × Settings} {w w' : NewsWorld}
    {tr : List NewsEvent} (run : Execution (newsSys lib admits) i job w tr w') :
    ∃ spawned, w'.data.entriesOf i = [⟨i, job.1, job.2, spawned⟩] := by
  induction run with
  | start idle hs =>
    obtain ⟨_, _, _, _, rfl⟩ := @newsSys_start lib admits _ _ _ _ _ _ hs
    exact ⟨false, begin_own⟩
  | @exec tr w' s next l l' d' run r hp hx ih =>
    obtain ⟨spawned, entry⟩ := ih
    have hx : exec lib i s r l w'.data = some (l', d') := hx
    rcases exec_redis hx with ⟨_, running⟩ | ⟨q, _, _, rfl⟩
    · refine ⟨spawned, ?_⟩
      rw [World.set_data, Data.entriesOf, running]
      exact entry
    · have own : (w'.data.enqueue i q).entriesOf i =
          (w'.data.entriesOf i).map fun e =>
            if e.id = i ∧ q.job.isProcessMarket = true then { e with spawned := true } else e := by
        simp only [Data.entriesOf, Data.enqueue, List.filter_map]
        have id : ∀ e : Running, (if e.id = i ∧ q.job.isProcessMarket = true then
            { e with spawned := true } else e).id = e.id := fun e => by split <;> rfl
        simp only [Function.comp_def, id]
      rw [World.set_data, own, entry, List.map_singleton]
      split
      · exact ⟨true, rfl⟩
      · exact ⟨spawned, rfl⟩
  | @beside tr w' w'' run step same ih =>
    obtain ⟨spawned, entry⟩ := ih
    refine ⟨spawned, ?_⟩
    cases step.apart same with
    | @exec k s next l l' d' r ne hp hx =>
      have hx : exec lib k s r l w'.data = some (l', d') := hx
      rw [World.set_data]
      rcases exec_redis hx with ⟨_, running⟩ | ⟨q, _, _, rfl⟩
      · rw [Data.entriesOf, running]
        exact entry
      · rw [entriesOf_enqueue ne.symm]
        exact entry
    | start ne _ hs =>
      obtain ⟨_, _, _, _, rfl⟩ := @newsSys_start lib admits _ _ _ _ _ _ hs
      exact (begin_entriesOf ne.symm).trans entry
    | stop ne => exact (finish_entriesOf ne.symm).trans entry
    | env he =>
      obtain ⟨_, rfl⟩ := @newsSys_env lib admits _ _ _ he
      exact entry

end NewsNotifier
