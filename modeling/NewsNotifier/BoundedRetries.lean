import NewsNotifier.AttemptBudget
import NewsNotifier.ResumableDelivery

namespace NewsNotifier

open Interleaving KeyedRows

def DeliveryLog.terminal (log : DeliveryLog) : Prop := log.status = .success ∨ log.status = .deadLetter

section Rows

variable {lib : PyLib} {logId : Uuid} {d : Data} {row : DeliveryLog} {maxAttempts : Nat} {m : Tally}

/-- Once terminal, with the attempts used up, a log stays so through every commit. -/
theorem Tally.Sound.terminal {spared : Prop} (h : m.Sound maxAttempts spared row) (done : row.terminal)
    (used : maxAttempts ≤ row.attempt) :
    m.row.terminal := by
  cases committed : m.committed with
  | false => exact h.kept committed ▸ done
  | true =>
    obtain ⟨_, _, same | success | failed⟩ := h.moved committed
    · exact done.imp same.trans same.trans
    · exact .inl success
    · refine .inr (failed.trans (if_pos ?_))
      omega

end Rows

section Runs

variable {lib : PyLib} {d₀ : Data} {logId : Uuid} {maxAttempts : Nat} {w w' : NewsWorld} {row : DeliveryLog}

end Runs

/-- The webhook answers with this status and Telegram with an error; the key may be wrong. -/
def failingOracle (key : Option String) (status : Int) : Oracle
  | .decryptSecret _ => some key
  | .sendWebhook _ _ _ => some (.ok (some status, none))
  | .sendTelegram _ _ _ _ => some (.ok (none, some "e"))
  | s => sampleOracle "t" s

def attempt (key : Option String) (status : Int) (n : Nat) : (Task × Settings) × List NewsMove :=
  ((.job (.deliverBatch 4), telegramSettings), execs sampleLib (failingOracle key status) (.deliverBatch 4) n)

end NewsNotifier
