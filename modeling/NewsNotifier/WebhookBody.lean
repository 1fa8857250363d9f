import NewsNotifier.ArticleScoring
import NewsNotifier.JsonText
import NewsNotifier.TelegramMessage

namespace NewsNotifier

open JsonText

/-- The texts of ids and instants, `str(uuid)` and `datetime.isoformat`, and how they are read back. -/
structure WebhookTexts where
  str : Uuid → String
  isoformat : Time → String
  uuid : String → Option Uuid
  fromisoformat : String → Option Time

def NewsPayload.json (texts : WebhookTexts) (news : NewsPayload) : Json :=
  .obj [("news_id", .str (texts.str news.newsId)), ("title", .str news.title), ("summary", .str news.summary),
    ("url", .str news.url), ("source_domain", .str news.sourceDomain),
    ("published_at", (news.publishedAt.map fun t => Json.str (texts.isoformat t)).getD .null),
    ("credibility_score", .num news.credibilityScore), ("relevance_score", .num news.relevanceScore),
    ("impact_hint", .str news.impactHint.value),
    ("proofs", .arr (news.proofs.map fun quote => .obj [("quote", .str quote)]))]

/-- The `payload` of `deliver_batch`. -/
def WebhookPayload.json (texts : WebhookTexts) (payload : WebhookPayload) : Json :=
  .obj [("market_id", .str payload.marketId), ("batch_id", .str (texts.str payload.batchId)),
    ("generated_at", .str (texts.isoformat payload.generatedAt)),
      ("news", .arr (payload.news.map (NewsPayload.json texts)))]

structure WebhookRequest where
  url : String
  content : List Char
  headers : List (String × String)

/-- The POST of `send_webhook`; its content is ASCII, so that encoding it leaves it as it is. -/
def webhookRequest (numbers : JsonNumbers) (texts : WebhookTexts) (signPayload : String → List Char → String)
    (url secret : String) (payload : WebhookPayload) : WebhookRequest :=
  let body := write numbers (payload.json texts)
  { url := url
    content := body
    headers := [("Content-Type", "application/json"), ("X-Signature", "sha256=" ++ signPayload secret body),
      ("Idempotency-Key", texts.str payload.batchId)] }

section Subscriber

variable (texts : WebhookTexts) (fields : List (String × Json)) (key : String)

def textAt : Option String := (Json.field fields key).bind Json.string

def idAt : Option Uuid := (textAt fields key).bind texts.uuid

def timeAt : Option Time := (textAt fields key).bind texts.fromisoformat

def numberAt : Option Rat := (Json.field fields key).bind Json.number

/-- A time, or `null`. -/
def dateAt : Option (Option Time) :=
  match Json.field fields key with
  | some .null => some none
  | _ => (timeAt texts fields key).map some

def arrayAt : Option (List Json) :=
  match Json.field fields key with
  | some (.arr xs) => some xs
  | _ => none

def readQuote : Json → Option String
  | .obj fields => textAt fields "quote"
  | _ => none

/-- What a subscriber reads of one entry. -/
def readNews : Json → Option NewsPayload
  | .obj fields => do
    let newsId ← idAt texts fields "news_id"
    let title ← textAt fields "title"
    let summary ← textAt fields "summary"
    let url ← textAt fields "url"
    let sourceDomain ← textAt fields "source_domain"
    let publishedAt ← dateAt texts fields "published_at"
    let credibilityScore ← numberAt fields "credibility_score"
    let relevanceScore ← numberAt fields "relevance_score"
    let impactHint ← Json.field fields "impact_hint"
    let proofs ← (← arrayAt fields "proofs").mapM readQuote
    return ⟨newsId, title, summary, url, sourceDomain, publishedAt, credibilityScore, relevanceScore,
      impactHintOf impactHint, proofs⟩
  | _ => none

def readPayload : Json → Option WebhookPayload
  | .obj fields => do
    let marketId ← textAt fields "market_id"
    let batchId ← idAt texts fields "batch_id"
    let generatedAt ← timeAt texts fields "generated_at"
    let news ← (← arrayAt fields "news").mapM (readNews texts)
    return ⟨marketId, batchId, generatedAt, news⟩
  | _ => none

end Subscriber

/-- The id and the time of an entry can be told from their texts, and its scores have texts. -/
structure NewsPayload.Printable (numbers : JsonNumbers) (texts : WebhookTexts) (news : NewsPayload) : Prop where
  newsId : texts.uuid (texts.str news.newsId) = some news.newsId
  publishedAt : ∀ t, news.publishedAt = some t → texts.fromisoformat (texts.isoformat t) = some t
  credibilityScore : numbers.Reads news.credibilityScore
  relevanceScore : numbers.Reads news.relevanceScore

structure WebhookPayload.Printable (numbers : JsonNumbers) (texts : WebhookTexts)
    (payload : WebhookPayload) : Prop where
  batchId : texts.uuid (texts.str payload.batchId) = some payload.batchId
  generatedAt : texts.fromisoformat (texts.isoformat payload.generatedAt) = some payload.generatedAt
  news : ∀ news ∈ payload.news, news.Printable numbers texts

section RoundTrip

variable {numbers : JsonNumbers} {texts : WebhookTexts}

theorem impactHint_value (hint : ImpactHint) : impactHintOf (.str hint.value) = hint := by
  cases hint <;> rfl

theorem mapM_some {α β : Type} {f : α → β} {g : β → Option α} {l : List α} (inverse : ∀ a ∈ l, g (f a) = some a) :
    (l.map f).mapM g = some l := by
  induction l with
  | nil => rfl
  | cons a l ih =>
    rw [List.map_cons, List.mapM_cons, inverse a List.mem_cons_self,
      ih fun b hb => inverse b (List.mem_cons_of_mem _ hb)]
    rfl

theorem readNews_json {news : NewsPayload} (h : news.Printable numbers texts) :
    readNews texts (news.json texts) = some news := by
  have quotes : (news.proofs.map fun quote => Json.obj [("quote", .str quote)]).mapM readQuote = some news.proofs :=
    mapM_some fun _ _ => rfl
  have date : dateAt texts [("news_id", .str (texts.str news.newsId)), ("title", .str news.title),
      ("summary", .str news.summary), ("url", .str news.url), ("source_domain", .str news.sourceDomain),
      ("published_at", (news.publishedAt.map fun t => Json.str (texts.isoformat t)).getD .null),
      ("credibility_score", .num news.credibilityScore), ("relevance_score", .num news.relevanceScore),
      ("impact_hint", .str news.impactHint.value),
      ("proofs", .arr (news.proofs.map fun quote => .obj [("quote", .str quote)]))] "published_at" =
        some news.publishedAt := by
    cases published : news.publishedAt with
    | none => rfl
    | some t => exact congrArg (Option.map some) (h.publishedAt t published)
  rw [NewsPayload.json, readNews, date]
  simp [idAt, textAt, numberAt, arrayAt, Json.field, Json.string, Json.number, h.newsId, impactHint_value, quotes]

theorem readPayload_json {payload : WebhookPayload} (h : payload.Printable numbers texts) :
    readPayload texts (payload.json texts) = some payload := by
  have news : (payload.news.map (NewsPayload.json texts)).mapM (readNews texts) = some payload.news :=
    mapM_some fun news hn => readNews_json (h.news news hn)
  simp [WebhookPayload.json, readPayload, idAt, timeAt, textAt, arrayAt, Json.field, Json.string, h.batchId,
    h.generatedAt, news]

theorem writable_map {α : Type} {f : α → Json} {l : List α} (each : ∀ a ∈ l, Writable numbers (f a)) :
    WritableElements numbers (l.map f) := by
  induction l with
  | nil => exact True.intro
  | cons a l ih => exact ⟨each a List.mem_cons_self, ih fun b hb => each b (List.mem_cons_of_mem _ hb)⟩

theorem news_writable {news : NewsPayload} (h : news.Printable numbers texts) : Writable numbers (news.json texts) := by
  have keys : ["news_id", "title", "summary", "url", "source_domain", "published_at", "credibility_score",
      "relevance_score", "impact_hint", "proofs"].Nodup := by decide
  have date : Writable numbers ((news.publishedAt.map fun t => Json.str (texts.isoformat t)).getD .null) := by
    cases news.publishedAt <;> exact True.intro
  have quotes : WritableElements numbers (news.proofs.map fun quote => .obj [("quote", .str quote)]) :=
    writable_map fun _ _ => ⟨List.nodup_singleton _, True.intro, True.intro⟩
  exact ⟨keys, True.intro, True.intro, True.intro, True.intro, True.intro, date, h.credibilityScore,
    h.relevanceScore, True.intro, quotes, True.intro⟩

theorem payload_writable {payload : WebhookPayload} (h : payload.Printable numbers texts) :
    Writable numbers (payload.json texts) := by
  have keys : ["market_id", "batch_id", "generated_at", "news"].Nodup := by decide
  have news : WritableElements numbers (payload.news.map (NewsPayload.json texts)) :=
    writable_map fun news hn => news_writable (h.news news hn)
  exact ⟨keys, True.intro, True.intro, True.intro, news, True.intro⟩

/-- What a subscriber makes of a POST. -/
def received (numbers : JsonNumbers) (texts : WebhookTexts) (request : WebhookRequest) : Option WebhookPayload :=
  (loads numbers request.content).bind (readPayload texts)

/-- A webhook's content is ASCII, so that the bytes signed are the bytes sent; the subscriber reads back from it
exactly the payload, under the key that the header bears; and no other payload has that content. -/
theorem webhook_content (numbers : JsonNumbers) (texts : WebhookTexts) (signPayload : String → List Char → String)
    (url secret : String) {payload : WebhookPayload} (printable : payload.Printable numbers texts) :
    let request := webhookRequest numbers texts signPayload url secret payload
    (∀ c ∈ request.content, isAscii c = true) ∧ received numbers texts request = some payload ∧
    (("X-Signature", "sha256=" ++ signPayload secret request.content) ∈ request.headers) ∧
    (∀ key, ("Idempotency-Key", key) ∈ request.headers → texts.uuid key = some payload.batchId) ∧
    ∀ url' secret' payload', payload'.Printable numbers texts →
      (webhookRequest numbers texts signPayload url' secret' payload').content = request.content →
        payload' = payload := by
  have reads : ∀ url secret {payload : WebhookPayload}, payload.Printable numbers texts →
      received numbers texts (webhookRequest numbers texts signPayload url secret payload) = some payload := by
    intro url secret payload printable
    have body : loads numbers (webhookRequest numbers texts signPayload url secret payload).content =
        some (payload.json texts) := loads_write (payload_writable printable)
    rw [received, body]
    exact readPayload_json printable
  refine ⟨write_ascii numbers _ (payload_writable printable), reads url secret printable, by simp [webhookRequest],
    fun key bears => ?_, fun url' secret' payload' printable' same => ?_⟩
  · have own : key = texts.str payload.batchId := by simpa [webhookRequest] using bears
    exact own ▸ printable.batchId
  · have read := reads url' secret' printable'
    rw [received, same] at read
    exact Option.some.inj (read.symm.trans (reads url secret printable))

/-- A quote, a line break and a character beyond the first plane, in and out. -/
example : loads ⟨fun _ => [], fun _ => none⟩ (write ⟨fun _ => [], fun _ => none⟩
    (.obj [("a", .arr [.str (String.ofList ['"', '\n', Char.ofNat 128512]), .null]), ("b", .bool true)])) =
      some (.obj [("a", .arr [.str (String.ofList ['"', '\n', Char.ofNat 128512]), .null]), ("b", .bool true)]) := by
  decide +kernel

/-- `json` on 1.0 and 0.5. -/
def halfNumbers : JsonNumbers where
  repr q := if q = 1 then ['1', '.', '0'] else ['0', '.', '5']
  read text := if text = ['1', '.', '0'] then some 1 else if text = ['0', '.', '5'] then some (1 / 2) else none

/-- The texts of the first id and of the epoch. -/
def firstTexts : WebhookTexts where
  str _ := "00000000-0000-0000-0000-000000000001"
  isoformat _ := "1970-01-01T00:00:00+00:00"
  uuid text := if text = "00000000-0000-0000-0000-000000000001" then some 1 else none
  fromisoformat text := if text = "1970-01-01T00:00:00+00:00" then some 0 else none

theorem webhook_content_sample : ∃ payload : WebhookPayload, payload.news.length = 1 ∧
    received halfNumbers firstTexts (webhookRequest halfNumbers firstTexts (fun _ _ => "") "u" "k" payload) =
      some payload := by
  let payload : WebhookPayload := ⟨"m", 1, 0, [⟨1, "t", "s", "u", "d", some 0, 1 / 2, 1, .neutral, ["q"]⟩]⟩
  have half : halfNumbers.Reads (1 / 2) :=
    ⟨by decide +kernel, List.all_eq_true.mp (by decide +kernel), by decide +kernel⟩
  have one : halfNumbers.Reads 1 := ⟨by decide +kernel, List.all_eq_true.mp (by decide +kernel), by decide +kernel⟩
  have news : ∀ news ∈ payload.news, news.Printable halfNumbers firstTexts :=
    List.forall_mem_singleton.mpr ⟨rfl, fun t same => Option.some.inj same ▸ rfl, half, one⟩
  exact ⟨payload, rfl, (webhook_content halfNumbers firstTexts (fun _ _ => "") "u" "k" ⟨rfl, rfl, news⟩).2.1⟩

end RoundTrip

end NewsNotifier
