import NewsNotifier.AnswerTraces
import NewsNotifier.LlmClient
import NewsNotifier.QueryGeneration

namespace NewsNotifier

open Interleaving Prog

abbrev LlmSaid := Said LlmAnswer

namespace LLMClient

/-- The rounds of a request that have failed: each is answered with a status that may pass, and followed by a pause
that the server names, or that doubles with each round. -/
inductive Retried (lib : LlmLib) (request : LlmRequest) : Nat → List LlmSaid → Prop
  | start : Retried lib request 0 []
  | told {k : Nat} {said : List LlmSaid} {resp : LlmResponse} {delay : PyFloat} (rounds : Retried lib request k said)
      (busy : resp.statusCode ∈ retryableStatuses) (named : resp.retryAfter.bind lib.float = some delay) :
      Retried lib request (k + 1) (said ++ [⟨.post request, some resp⟩, ⟨.sleep delay, ()⟩])
  | backedOff {k : Nat} {said : List LlmSaid} {resp : LlmResponse} (u : Rat) (rounds : Retried lib request k said)
      (busy : resp.statusCode ∈ retryableStatuses) (unnamed : resp.retryAfter.bind lib.float = none) :
      Retried lib request (k + 1)
        (said ++ [⟨.post request, some resp⟩, ⟨.random, u⟩, ⟨.sleep (.finite (2 ^ k + u)), ()⟩])

/-- After `k` failed rounds the request has had its last answer. -/
structure Concluded (lib : LlmLib) (request : LlmRequest) (k : Nat) (before said : List LlmSaid)
    (answer : Option LlmResponse) : Prop where
  few : k ≤ maxRetries
  rounds : Retried lib request k before
  said : said = before ++ [⟨.post request, answer⟩]
  last : ∀ resp, answer = some resp → resp.statusCode ∈ retryableStatuses → k = maxRetries

/-- The status is one of success. -/
def succeeds (resp : LlmResponse) : Prop := 200 ≤ resp.statusCode ∧ resp.statusCode < 300

instance (resp : LlmResponse) : Decidable (succeeds resp) :=
  inferInstanceAs (Decidable (200 ≤ resp.statusCode ∧ resp.statusCode < 300))

section Rounds

variable {lib : LlmLib} {request : LlmRequest}

def Posted (lib : LlmLib) (request : LlmRequest) (said : List LlmSaid) (resp : LlmResponse) : Prop :=
  succeeds resp ∧ ∃ k before, Concluded lib request k before said (some resp)

def Failed (lib : LlmLib) (request : LlmRequest) (said : List LlmSaid) (e : LlmRaised) : Prop :=
  ∃ k before answer, Concluded lib request k before said answer ∧
    match answer with
    | none => e = .httpError
    | some resp => ¬ succeeds resp ∧ e = .httpStatusError resp.statusCode

abbrev anyHistory : Monitor LlmStmt LlmAnswer (List LlmSaid) := Monitor.history (fun _ _ _ => True) fun _ _ => True

theorem raiseForStatus_obeys {k : Nat} {before said : List LlmSaid} {resp : LlmResponse}
    (done : Concluded lib request k before said (some resp)) :
    (raiseForStatus resp).Obeys anyHistory (Posted lib request) (Failed lib request) said := by
  unfold raiseForStatus
  split
  next good => exact ⟨good, k, before, done⟩
  next bad => exact ⟨k, before, some resp, done, bad, rfl⟩

theorem retryDelay_obeys (resp : LlmResponse) (k : Nat) (said : List LlmSaid) :
    (retryDelay lib resp k).Obeys anyHistory (fun m delay =>
      (resp.retryAfter.bind lib.float = some delay ∧ m = said) ∨
      ∃ u, resp.retryAfter.bind lib.float = none ∧ delay = .finite (2 ^ k + u) ∧ m = said ++ [⟨.random, u⟩])
      (fun _ _ => False) said := by
  unfold retryDelay
  cases resp.retryAfter with
  | none => exact ⟨True.intro, fun u _ => .inr ⟨u, rfl, rfl, rfl⟩⟩
  | some retryAfter =>
    simp only [Option.bind_some]
    cases lib.float retryAfter with
    | none => exact ⟨True.intro, fun u _ => .inr ⟨u, rfl, rfl, rfl⟩⟩
    | some delay => exact .inl ⟨rfl, rfl⟩

theorem postRounds_obeys (n : Nat) {k : Nat} {said : List LlmSaid} (rounds : Retried lib request k said)
    (few : k + n = maxRetries) : (postRounds lib request (List.range' k (n + 1))).Obeys anyHistory
      (Posted lib request) (Failed lib request) said := by
  induction n generalizing k said with
  | zero =>
    rw [List.range'_succ]
    refine ⟨True.intro, fun answer _ => ?_⟩
    cases answer with
    | none => exact ⟨k, said, none, ⟨few.le, rounds, rfl, fun _ same => (by cases same)⟩, rfl⟩
    | some resp =>
      simp only [Prog.ret_bind]
      rw [if_pos (.inr few)]
      exact raiseForStatus_obeys ⟨few.le, rounds, rfl, fun _ _ _ => few⟩
  | succ n ih =>
    rw [List.range'_succ]
    refine ⟨True.intro, fun answer _ => ?_⟩
    have le : k ≤ maxRetries := by omega
    cases answer with
    | none => exact ⟨k, said, none, ⟨le, rounds, rfl, fun _ same => (by cases same)⟩, rfl⟩
    | some resp =>
      simp only [Prog.ret_bind]
      split
      next stops =>
        refine raiseForStatus_obeys ⟨le, rounds, rfl, fun resp' same busy => ?_⟩
        obtain rfl := Option.some.inj same
        exact stops.resolve_left (not_not_intro busy)
      next goes =>
        obtain ⟨busy, _⟩ := not_or.mp goes
        have busy := not_not.mp busy
        refine Obeys.bind ((retryDelay_obeys resp k _).mono (fun m delay pause => ?_) fun _ _ none => none.elim)
        refine ⟨True.intro, fun _ _ => ?_⟩
        rcases pause with ⟨named, rfl⟩ | ⟨u, unnamed, rfl, rfl⟩
        · have later := ih (rounds.told busy named) (by omega)
          simpa [Monitor.history] using later
        · have later := ih (rounds.backedOff u busy unnamed) (by omega)
          simpa [Monitor.history] using later

/-- The request that is made again with each statement, if it is one. -/
def posted : LlmSaid → Option LlmRequest
  | ⟨.post request, _⟩ => some request
  | _ => none

def pause : LlmSaid → Option PyFloat
  | ⟨.sleep delay, _⟩ => some delay
  | _ => none

theorem Retried.posts {k : Nat} {said : List LlmSaid} (h : Retried lib request k said) :
    said.filterMap posted = List.replicate k request ∧ said.length ≤ 3 * k := by
  induction h with
  | start => exact ⟨rfl, le_rfl⟩
  | told rounds busy named ih =>
    rw [List.filterMap_append, ih.1, List.replicate_succ', List.length_append]
    exact ⟨rfl, by have := ih.2; simp; omega⟩
  | backedOff u rounds busy unnamed ih =>
    rw [List.filterMap_append, ih.1, List.replicate_succ', List.length_append]
    exact ⟨rfl, by have := ih.2; simp; omega⟩

/-- The server names no pause, and what is drawn is from `random.random()`. -/
def unnamed (lib : LlmLib) : LlmSaid → Prop
  | ⟨.post _, some resp⟩ => resp.retryAfter.bind lib.float = none
  | ⟨.random, u⟩ => 0 ≤ (u : Rat) ∧ (u : Rat) < 1
  | _ => True

/-- Where the server names no pause, `k` rounds wait for `2 ^ k - 1` seconds, and for less than one more each. -/
theorem Retried.waits {k : Nat} {said : List LlmSaid} (h : Retried lib request k said)
    (free : ∀ x ∈ said, unnamed lib x) : ∃ delays : List Rat, said.filterMap pause = delays.map .finite ∧
      (2 : Rat) ^ k - 1 ≤ delays.sum ∧ delays.sum ≤ (2 : Rat) ^ k - 1 + k := by
  induction h with
  | start => exact ⟨[], rfl, by simp⟩
  | @told k said resp delay rounds busy named ih =>
    have none : resp.retryAfter.bind lib.float = none :=
      free ⟨.post request, some resp⟩ (List.mem_append_right _ List.mem_cons_self)
    rw [none] at named
    cases named
  | @backedOff k said resp u rounds busy _ ih =>
    obtain ⟨delays, pauses, low, high⟩ := ih fun x hx => free x (List.mem_append_left _ hx)
    obtain ⟨nonneg, small⟩ : 0 ≤ u ∧ u < 1 :=
      free ⟨.random, u⟩ (List.mem_append_right _ (List.mem_cons_of_mem _ List.mem_cons_self))
    refine ⟨delays ++ [2 ^ k + u], ?_, ?_, ?_⟩
    · rw [List.filterMap_append, pauses, List.map_append]
      rfl
    · rw [List.sum_append, List.sum_singleton, pow_succ]
      linarith
    · rw [List.sum_append, List.sum_singleton, pow_succ, Nat.cast_succ]
      linarith

end Rounds

/-- What the last answer makes of a request. -/
def settle (lib : LlmLib) (schema : Json) : Option LlmResponse → Except LlmRaised Json
  | none => .error .httpError
  | some resp => if succeeds resp then readAnswer lib schema resp else .error (.httpStatusError resp.statusCode)

theorem settle_ok {schema data : Json} {answer : Option LlmResponse} {lib : LlmLib}
    (h : settle lib schema answer = .ok data) :
    ∃ resp, answer = some resp ∧ succeeds resp ∧ decode lib resp = some data ∧
      ensureRequiredKeys (requiredOf schema) data = .ok () := by
  cases answer with
  | none => cases h
  | some resp =>
    simp only [settle] at h
    split at h
    next good =>
      unfold readAnswer at h
      split at h
      next => cases h
      next data' decoded =>
        obtain ⟨_, shaped, same⟩ := ok_of_bind h
        obtain rfl := Except.ok.inj same
        cases checked : ensureRequiredKeys (requiredOf schema) data' with
        | error e =>
          rw [checked] at shaped
          cases shaped
        | ok => exact ⟨resp, rfl, good, decoded, rfl⟩
    next => cases h

theorem generateJson_obeys (lib : LlmLib) (cfg : LlmSettings) (model system prompt : String) (schema : Json)
    (name : String) (temperature : Rat) :
    let concluded := fun said answer => ∃ k before,
      Concluded lib (request cfg model system prompt schema name temperature) k before said answer
    (generateJson lib cfg model system prompt schema name temperature).Obeys anyHistory
      (fun said data => ∃ answer, concluded said answer ∧ settle lib schema answer = .ok data)
      (fun said e => ∃ answer, concluded said answer ∧ settle lib schema answer = .error e) [] := by
  intro concluded
  have rounds := @postRounds_obeys lib (request cfg model system prompt schema name temperature) maxRetries 0 []
    .start (Nat.zero_add _)
  refine Obeys.bind (rounds.mono (fun said resp posted => ?_) fun said e failed => ?_)
  · obtain ⟨good, done⟩ := posted
    have settled : settle lib schema (some resp) = readAnswer lib schema resp := if_pos good
    cases read : readAnswer lib schema resp with
    | error e => exact ⟨some resp, done, settled.trans read⟩
    | ok data => exact ⟨some resp, done, settled.trans read⟩
  · obtain ⟨k, before, answer, done, why⟩ := failed
    cases answer with
    | none =>
      obtain rfl := why
      exact ⟨none, ⟨k, before, done⟩, rfl⟩
    | some resp =>
      obtain ⟨bad, rfl⟩ := why
      exact ⟨some resp, ⟨k, before, done⟩, if_neg bad⟩

end LLMClient

open LLMClient

/-- `generate_json` makes one request at most four times: again only after a status that may pass, after the pause
that the server names or else one that doubles; what comes of it the last answer alone decides; and what the jobs
take the statement for is that outcome. -/
theorem llm_client (lib : LlmLib) (cfg : LlmSettings) (model system prompt : String) (schema : Json) (name : String)
    (temperature : Rat) {said : List LlmSaid} {out : Except LlmRaised Json}
    (run : Concludes (LLMClient.generateJson lib cfg model system prompt schema name temperature) said out) :
    ∃ k before answer,
      Concluded lib (request cfg model system prompt schema name temperature) k before said answer ∧
      out = settle lib schema answer ∧
      said.filterMap posted = List.replicate (k + 1) (request cfg model system prompt schema name temperature) ∧
      said.length ≤ 3 * maxRetries + 1 ∧
      ((∀ x ∈ before, unnamed lib x) → ∃ delays : List Rat, said.filterMap pause = delays.map .finite ∧
        (2 : Rat) ^ k - 1 ≤ delays.sum ∧ delays.sum ≤ (2 : Rat) ^ k - 1 + k) ∧
      ∀ fields, NewsNotifier.generateJson (requiredOf schema) out.toOption = .ok fields ↔ out = .ok (.obj fields) := by
  obtain ⟨returns, raises⟩ := (generateJson_obeys lib cfg model system prompt schema name temperature).concludes run
  have outcome : ∃ answer, (∃ k before,
      Concluded lib (request cfg model system prompt schema name temperature) k before said answer) ∧
        settle lib schema answer = out := by
    cases out with
    | ok data => exact returns data rfl
    | error e => exact raises e rfl
  obtain ⟨answer, ⟨k, before, done⟩, settled⟩ := outcome
  obtain ⟨posts, short⟩ := done.rounds.posts
  have few := done.few
  refine ⟨k, before, answer, done, settled.symm, ?_, ?_, fun free => ?_, fun fields => ?_⟩
  · rw [done.said, List.filterMap_append, posts, List.replicate_succ']
    rfl
  · rw [done.said, List.length_append, List.length_singleton]
    omega
  · obtain ⟨delays, pauses, bounds⟩ := done.rounds.waits free
    refine ⟨delays, ?_, bounds⟩
    rw [done.said, List.filterMap_append, pauses]
    exact List.append_nil _
  · constructor
    · intro read
      obtain ⟨data, _⟩ := generateJson_ok.mp read
      cases out with
      | error e => cases data
      | ok data' => exact congrArg Except.ok (Option.some.inj data)
    · rintro rfl
      obtain ⟨_, _, _, _, shaped⟩ := settle_ok settled
      exact generateJson_ok.mpr ⟨rfl, ensured shaped⟩

/-- A server that is busy for a moment: the pause that it names, and then the answer. -/
theorem llm_client_sample : ∃ (said : List LlmSaid) (out : Except LlmRaised Json),
    out = .ok (.obj [("queries", .arr [])]) ∧
    said.length = 3 ∧ said.length ≤ 3 * maxRetries + 1 := by
  let lib : LlmLib := ⟨fun _ => some (.finite 7), fun _ => some (.obj [("queries", .arr [])])⟩
  let cfg : LlmSettings := ⟨"key", false⟩
  let content : Json := .obj [("choices", .arr [.obj [("message", .obj [("content", .str "{}")])]])]
  have run : Concludes (LLMClient.generateJson lib cfg "local" "s" "p" queryGenSchema "query_gen" (7 / 10))
      [⟨.post (request cfg "local" "s" "p" queryGenSchema "query_gen" (7 / 10)), some ⟨429, some "7", none⟩⟩,
        ⟨.sleep (.finite 7), ()⟩,
        ⟨.post (request cfg "local" "s" "p" queryGenSchema "query_gen" (7 / 10)), some ⟨200, none, some content⟩⟩]
      (.ok (.obj [("queries", .arr [])])) :=
    .stmt _ (.stmt _ (.stmt _ (.ret _)))
  obtain ⟨_, _, _, _, _, _, short, _⟩ := llm_client lib cfg "local" "s" "p" queryGenSchema "query_gen" (7 / 10) run
  exact ⟨_, _, rfl, rfl, short⟩

end NewsNotifier
