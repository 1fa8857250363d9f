import NewsNotifier.DeliveryTurns
import NewsNotifier.AttemptBudget
import NewsNotifier.WatermarkUpdates

namespace NewsNotifier

open Interleaving KeyedRows

/-- An execution of `deliver_batch` so far: the log and the market that it has read, the watermark
that it has staged, and whether it has done no more than read them. -/
structure Marking where
  log : Option DeliveryLog
  read : Option Market
  mark : Option Time
  quiet : Bool

namespace Marking

def start : Marking := ⟨none, none, none, true⟩

def next (m : Marking) (s : Stmt) (r : Answer s) : Marking :=
  match s, r with
  | .getLog _, found => { m with log := found }
  | .getMarket _, found => { m with read := found }
  | .assign (.setMarket _ (.maxDeliveredPublishedAt t)), _ => { m with mark := some t, quiet := false }
  | .commit, _ => if m.mark.isSome then ⟨m.log, none, none, false⟩ else { m with quiet := false }
  | _, _ => { m with quiet := false }

/-- The log and the market are read first, and a watermark is staged only ahead of the one read. -/
def Asks (logId : Uuid) (m : Marking) : Stmt → Prop
  | .getLog id => id = logId ∧ m = start
  | .getMarket id => m.quiet = true ∧ m.read = none ∧ m.mark = none ∧ ∃ log, m.log = some log ∧ id = log.marketId
  | .assign (.setMarket id c) => ∃ market t, m.read = some market ∧ id = market.id ∧
      c = .maxDeliveredPublishedAt t ∧ advancesWatermark market t = true
  | .insertMarket _ => False
  | _ => True

end Marking

/-- The statements that the marking does not look at. -/
def Stmt.unmarked : Stmt → Bool
  | .getLog _ | .getMarket _ | .assign (.setMarket _ _) | .insertMarket _ | .commit => false
  | _ => true

def markings (logId : Uuid) : Monitor Stmt Answer Marking where
  next := Marking.next
  given _ _ _ := True
  asked := Marking.Asks logId

abbrev Marks (logId : Uuid) (p : Program Unit) (m : Marking) : Prop :=
  p.Obeys (markings logId) (fun _ _ => True) (fun _ _ => True) m

section Programs

variable {logId : Uuid} {cfg : Settings} {log : DeliveryLog} {market : Market} {items : List NewsItem} {m : Marking}

theorem Marking.next_unmarked {s : Stmt} (h : s.unmarked = true) (r : Answer s) :
    m.next s r = { m with quiet := false } := by
  unfold Marking.next
  split <;> first | rfl | simp [Stmt.unmarked] at h

theorem Marking.asks_unmarked {s : Stmt} (h : s.unmarked = true) : m.Asks logId s := by
  unfold Marking.Asks
  split <;> first | exact True.intro | simp [Stmt.unmarked] at h

theorem marks_unmarked {s : Stmt} {next : Answer s → Program Unit} (h : s.unmarked = true)
    (rest : ∀ r, Marks logId (next r) { m with quiet := false }) : Marks logId (.stmt s next) m := by
  refine ⟨Marking.asks_unmarked h, fun r _ => ?_⟩
  show Marks logId (next r) (m.next s r)
  rw [Marking.next_unmarked h r]
  exact rest r

theorem marks_commit {next : Unit → Program Unit} (none : m.mark = none)
    (rest : Marks logId (next ()) { m with quiet := false }) : Marks logId (.stmt .commit next) m := by
  refine ⟨True.intro, fun r _ => ?_⟩
  have moved : m.next .commit r = { m with quiet := false } := by
    simp [Marking.next, none]
  show Marks logId (next r) (m.next .commit r)
  rw [moved]
  exact rest

theorem recordFailure_marks (none : m.mark = none) (channel : String) (statusCode : Option Int)
    (error : Option String) :
    Marks logId (recordFailure cfg log channel statusCode error) m := by
  refine marks_unmarked rfl fun _ => marks_unmarked rfl fun _ => ?_
  simp only [Prog.ret_bind]
  split
  next => exact marks_unmarked rfl fun _ => marks_commit none True.intro
  next => exact marks_unmarked rfl fun _ => marks_commit none True.intro

theorem finishDelivery_marks (read : m.read = some market) (none : m.mark = none) :
    Marks logId (finishDelivery market log items) m := by
  refine marks_unmarked rfl fun _ => marks_unmarked rfl fun _ => marks_unmarked rfl fun now =>
    marks_unmarked rfl fun _ => ?_
  simp only [Prog.ret_bind, Prog.bind_eq]
  refine Prog.Obeys.bind (Prog.Obeys.mono (Prog.Obeys.forEach (K := fun _ m => m.read = some market ∧ m.mark = .none)
    (F := fun _ _ => True) ?_ items ⟨read, none⟩) ?_ fun _ _ _ => True.intro)
  · intro item rest m kept
    refine ⟨True.intro, fun r _ => ?_⟩
    show (m.next _ r).read = some market ∧ (m.next _ r).mark = .none
    rw [Marking.next_unmarked rfl r]
    exact kept
  · rintro m _ ⟨read, none⟩
    split
    next => exact marks_commit none True.intro
    next newest _ =>
      split
      next advances =>
        unfold assignMarket
        split
        next => exact marks_commit none True.intro
        next => exact ⟨⟨market, newest, read, rfl, rfl, advances⟩, fun _ _ => ⟨True.intro, fun _ _ => True.intro⟩⟩
      next => exact marks_commit none True.intro

theorem telegramLoop_marks (rest : List NewsItem) (sent : List Uuid) (read : m.read = some market)
    (none : m.mark = none) :
    Marks logId (telegramLoop cfg market log items rest sent) m := by
  induction rest generalizing sent m with
  | nil => exact finishDelivery_marks read none
  | cons item rest ih =>
    unfold telegramLoop
    split
    next => exact ih sent read none
    next =>
      refine marks_unmarked rfl fun answer => ?_
      simp only [Prog.ret_bind]
      split
      next => exact True.intro
      next =>
        split
        next => exact recordFailure_marks none _ _ _
        next =>
          refine marks_unmarked rfl fun _ => marks_unmarked rfl fun _ => marks_unmarked rfl fun _ => ?_
          exact marks_commit none (ih _ read none)

theorem deliverTelegram_marks (read : m.read = some market) (none : m.mark = none) :
    Marks logId (deliverTelegram cfg market log items) m := by
  unfold deliverTelegram
  split
  next => exact telegramLoop_marks _ _ read none
  next => exact finishDelivery_marks read none

theorem deliverWebhook_marks (read : m.read = some market) (none : m.mark = none) (payload : WebhookPayload) :
    Marks logId (deliverWebhook cfg market log items payload) m := by
  refine marks_unmarked rfl fun secret => ?_
  simp only [Prog.ret_bind]
  split
  next => exact True.intro
  next =>
    refine marks_unmarked rfl fun answer => ?_
    simp only [Prog.ret_bind]
    split
    next => exact True.intro
    next =>
      split
      next => exact recordFailure_marks none _ _ _
      next =>
        refine marks_unmarked rfl fun _ => marks_unmarked rfl fun _ => marks_unmarked rfl fun _ => ?_
        exact marks_commit none (deliverTelegram_marks read none)

theorem deliverBatch_marks : Marks logId (deliverBatch cfg logId) .start := by
  refine ⟨⟨rfl, rfl⟩, fun found _ => ?_⟩
  rcases found with _ | log
  · exact True.intro
  simp only [Prog.ret_bind]
  split
  next => exact True.intro
  next =>
    refine ⟨⟨rfl, rfl, rfl, log, rfl, rfl⟩, fun found _ => ?_⟩
    rcases found with _ | market
    · exact True.intro
    simp only [Prog.ret_bind]
    split
    next => exact True.intro
    next =>
      refine marks_unmarked rfl fun fetched => marks_unmarked rfl fun now => marks_unmarked rfl fun _ => ?_
      simp only [Prog.ret_bind]
      split
      next => exact deliverTelegram_marks rfl rfl
      next => exact deliverWebhook_marks rfl rfl _

end Programs

theorem onLog_marketId (l : List Write) (row : DeliveryLog) :
    (l.foldl (fun row x => x.onLog row) row).marketId = row.marketId := by
  induction l generalizing row with
  | nil => rfl
  | cons x l ih =>
    refine (ih _).trans ?_
    cases x with
    | setLog id c =>
      show (if row.id = id then c.apply row else row).marketId = row.marketId
      split
      · cases c <;> rfl
      · rfl
    | _ => rfl

theorem known_after (l : List Write) {db : Database} {m : Uuid} (known : ∃ market ∈ db.markets, market.id = m) :
    ∃ market ∈ (db.after l).markets, market.id = m := by
  induction l generalizing db with
  | nil => exact known
  | cons x l ih => exact ih (known_apply x db known)

/-- The session of a delivery has staged the marked watermark and no other; the log and the market
that it has read are as committed. -/
structure Marked (logId : Uuid) (m : Marking) (l : List Write) (d : Data) : Prop where
  quiet : m.quiet = true → l = []
  staged : ∀ x, stagedWatermark l x = if m.read.any (·.id = x) then m.mark else none
  log : ∀ log, m.log = some log → ∃ row, d.db.logRow logId = some row ∧ row.marketId = log.marketId
  market : ∀ market, m.read = some market → d.db.watermarkOf market.id = market.watermark ∧
    (∃ row ∈ d.db.markets, row.id = market.id) ∧ (∃ log, m.log = some log ∧ market.id = log.marketId) ∧
    ∀ t, m.mark = some t → advancesWatermark market t = true

namespace Marked

variable {lib : PyLib} {logId : Uuid} {m : Marking} {l l' : List Write} {d d' : Data}

/-- The statements that the marking does not look at stage no watermark and commit nothing. -/
theorem unmarked (h : Marked logId m l d) {i : JobId} {s : Stmt} {r : Answer s} (hs : s.unmarked = true)
    (hx : exec lib i s r l d = some (l', d')) : Marked logId (m.next s r) l' d' := by
  rw [Marking.next_unmarked hs]
  have stages : d'.db = d.db ∧ ∀ x, stagedWatermark l' x = stagedWatermark l x := by
    have last : ∀ (w : Write), (∀ x, stagedWatermark [w] x = none) → ∀ x,
        stagedWatermark (l ++ [w]) x = stagedWatermark l x := by
      intro w none x
      have silent := none x
      simp only [stagedWatermark, List.filterMap_append, List.getLast?_append] at silent ⊢
      rw [silent]
      rfl
    have other : ∀ {w : Write}, s.Writes w → ∀ x, stagedWatermark [w] x = none := by
      intro w writes x
      cases writes with
      | assigned w =>
        cases w with
        | setMarket => simp [Stmt.unmarked] at hs
        | _ => rfl
      | _ => rfl
    cases exec_outcome hx with
    | staged w writes => exact ⟨rfl, last w (other writes)⟩
    | drewStaged u w _ writes => exact ⟨rfl, last w (other writes)⟩
    | drewBatch u row => exact ⟨rfl, last _ fun _ => rfl⟩
    | committed e => simp [e, Stmt.unmarked] at hs
    | marketInserted row e => simp [e, Stmt.unmarked] at hs
    | _ => exact ⟨rfl, fun _ => rfl⟩
  obtain ⟨same, kept⟩ := stages
  refine ⟨fun quiet => Bool.noConfusion quiet, fun x => (kept x).trans (h.staged x), ?_, ?_⟩
  · rw [same]
    exact h.log
  · rw [same]
    exact h.market

theorem commit (h : Marked logId m l d) {i : JobId} {r : Unit} (hx : exec lib i .commit r l d = some (l', d')) :
    Marked logId (m.next .commit r) l' d' := by
  obtain ⟨rfl, rfl⟩ := Prod.mk.inj (Option.some.inj hx)
  have log : ∀ log, m.log = some log → ∃ row, (d.db.after l).logRow logId = some row ∧ row.marketId = log.marketId := by
    intro log read
    obtain ⟨row, found, same⟩ := h.log log read
    exact ⟨_, logRow_after found l, (onLog_marketId l row).trans same⟩
  cases mark : m.mark with
  | none =>
    have moved : m.next .commit r = { m with quiet := false } := by
      simp [Marking.next, mark]
    rw [moved]
    refine ⟨fun quiet => Bool.noConfusion quiet, fun x => ?_, log, fun market read => ?_⟩
    · show none = if m.read.any (·.id = x) then m.mark else none
      rw [mark, ite_self]
    · obtain ⟨watermark, known, same, ahead⟩ := h.market market read
      have silent : stagedWatermark l market.id = none := by
        rw [h.staged, mark, ite_self]
      have after := watermark_after l d.db known
      rw [silent] at after
      exact ⟨after.trans watermark, known_after l known, same, ahead⟩
  | some t =>
    have moved : m.next .commit r = ⟨m.log, none, none, false⟩ := by
      simp [Marking.next, mark]
    rw [moved]
    exact ⟨fun quiet => Bool.noConfusion quiet, fun x => rfl, log,
      fun market read => nomatch (show none = some market from read)⟩

theorem getLog (h : Marked logId m l d) {i : JobId} {id : Uuid} {r : Option DeliveryLog}
    (asks : m.Asks logId (.getLog id))
    (hx : exec lib i (.getLog id) r l d = some (l', d')) : Marked logId (m.next (.getLog id) r) l' d' := by
  obtain ⟨rfl, rfl⟩ := asks
  obtain ⟨ok, rfl, rfl⟩ := answered_eq hx
  obtain rfl := h.quiet rfl
  refine ⟨fun _ => rfl, fun x => rfl, fun log read => ⟨log, ?_, rfl⟩,
    fun market read => nomatch (show none = some market from read)⟩
  have found : r = some log := read
  have answer : r = d'.db.logs.find? (·.id = id) := of_decide_eq_true ok
  exact answer.symm.trans found

theorem getMarket (h : Marked logId m l d) {i : JobId} {id : Uuid} {r : Option Market}
    (asks : m.Asks logId (.getMarket id)) (hx : exec lib i (.getMarket id) r l d = some (l', d')) :
    Marked logId (m.next (.getMarket id) r) l' d' := by
  obtain ⟨quiet, _, none, log, read, rfl⟩ := asks
  obtain ⟨ok, rfl, rfl⟩ := answered_eq hx
  obtain rfl := h.quiet quiet
  refine ⟨fun _ => rfl, fun x => ?_, h.log, fun market found => ?_⟩
  · show Option.none = if r.any (·.id = x) then m.mark else Option.none
    rw [none, ite_self]
  · have found : r = some market := found
    have answer : r = d'.db.market log.marketId := of_decide_eq_true ok
    have there : d'.db.market log.marketId = some market := answer.symm.trans found
    obtain ⟨mem, key⟩ := key_of_find there
    refine ⟨?_, ⟨market, mem, rfl⟩, ⟨log, read, key⟩, fun t mark => ?_⟩
    · rw [key, Database.watermarkOf, there]
    · have mark : m.mark = some t := mark
      rw [none] at mark
      simp at mark

theorem setMarket (h : Marked logId m l d) {i : JobId} {id : Uuid} {c : MarketChange} {r : Unit}
    (asks : m.Asks logId (.assign (.setMarket id c)))
    (hx : exec lib i (.assign (.setMarket id c)) r l d = some (l', d')) :
    Marked logId (m.next (.assign (.setMarket id c)) r) l' d' := by
  obtain ⟨market, t, read, rfl, rfl, ahead⟩ := asks
  obtain ⟨rfl, rfl⟩ := Prod.mk.inj (Option.some.inj hx)
  refine ⟨fun quiet => Bool.noConfusion quiet, fun x => ?_, h.log, fun market' read' => ?_⟩
  · show stagedWatermark (l ++ [.setMarket market.id (.maxDeliveredPublishedAt t)]) x =
      if m.read.any (·.id = x) then some t else none
    have old := h.staged x
    rw [read, Option.any_some] at old ⊢
    by_cases same : market.id = x
    · rw [← same, stagedWatermark_mark]
      simp
    · simp only [same, decide_false, Bool.false_eq_true, if_false] at old ⊢
      simp only [stagedWatermark, List.filterMap_append] at old ⊢
      simp [same, old]
  · obtain ⟨watermark, known, log, _⟩ := h.market market' read'
    refine ⟨watermark, known, log, fun t' mark => ?_⟩
    have read' : m.read = some market' := read'
    obtain rfl := Option.some.inj (read.symm.trans read')
    obtain rfl : t = t' := Option.some.inj mark
    exact ahead

/-- Every statement that is asked keeps it. -/
theorem exec (h : Marked logId m l d) {i : JobId} {s : Stmt} {r : Answer s} (asks : m.Asks logId s)
    (hx : NewsNotifier.exec lib i s r l d = some (l', d')) : Marked logId (m.next s r) l' d' := by
  cases hs : s.unmarked with
  | true => exact h.unmarked hs hx
  | false =>
    unfold Stmt.unmarked at hs
    split at hs
    next => exact h.getLog asks hx
    next => exact h.getMarket asks hx
    next => exact h.setMarket asks hx
    next => exact False.elim asks
    next => exact h.commit hx
    next => exact Bool.noConfusion hs

end Marked

end NewsNotifier
