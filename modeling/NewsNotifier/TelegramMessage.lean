import NewsNotifier.HalfEvenRounding
import NewsNotifier.NewsRuns

namespace NewsNotifier

def telegramMessageLimit : Nat := 4096

/-- `value or default` of a text field. -/
def textOr (value : Option String) (default : String) : String :=
  match value with
  | none => default
  | some text => if text = "" then default else text

/-- `str.rstrip()`. -/
def pyRstrip (lib : PyLib) (s : String) : String :=
  String.ofList (s.toList.reverse.dropWhile lib.isSpace).reverse

/-- `_shorten`. -/
def shorten (lib : PyLib) (value : Option String) (limit : Nat) : String :=
  let text := pyStrip lib (textOr value "")
  if text.length ≤ limit then text
  else pyRstrip lib (String.ofList (text.toList.take (limit - 3))) ++ "..."

/-- `f"{value:.2f}"`. -/
def fixedTwo (value : Rat) : String :=
  let cents := (roundHalfEven (|value| * 100)).toNat
  (if value < 0 then "-" else "") ++ toString (cents / 100) ++ "." ++ toString (cents % 100 / 10) ++
    toString (cents % 10)

/-- The fields `format_telegram_news` reads. -/
structure TelegramNews where
  title : Option String
  summary : Option String
  url : Option String
  sourceDomain : Option String
  publishedAt : Option String
  impactHint : Option String
  relevanceScore : Option Rat
  credibilityScore : Option Rat

def ImpactHint.value : ImpactHint → String
  | supportsYes => "supports_yes"
  | supportsNo => "supports_no"
  | neutral => "neutral"
  | ambiguous => "ambiguous"

/-- `{score or 'unknown'}`, where `text` is `str` of a number. -/
def scoreOr (text : Rat → String) (score : Option Rat) : String :=
  match score with
  | none => "unknown"
  | some q => if q = 0 then "unknown" else text q

def telegramScores (text : Rat → String) (news : TelegramNews) : String :=
  match news.relevanceScore, news.credibilityScore with
  | some relevance, some credibility =>
    "Relevance: " ++ fixedTwo relevance ++ " | Credibility: " ++ fixedTwo credibility
  | relevance, credibility =>
    "Relevance: " ++ scoreOr text relevance ++ " | Credibility: " ++ scoreOr text credibility

def telegramHead (lib : PyLib) (marketId : String) (news : TelegramNews) : String :=
  let title := shorten lib (some (textOr news.title "Untitled news")) 700
  let market := shorten lib (some marketId) 300
  "New market news\nMarket: " ++ market ++ "\n\n" ++ title

def telegramTail (lib : PyLib) (text : Rat → String) (news : TelegramNews) : String :=
  let source := shorten lib (some (textOr news.sourceDomain "unknown")) 200
  let published := shorten lib (some (textOr news.publishedAt "unknown")) 80
  let impact := shorten lib (some (textOr news.impactHint "unknown")) 80
  let url := shorten lib news.url 1000
  "Source: " ++ source ++ " | Published: " ++ published ++ "\nImpact: " ++ impact ++ " | " ++
    telegramScores text news ++ "\n" ++ url

def formatTelegramNews (lib : PyLib) (text : Rat → String) (marketId : String)
    (news : TelegramNews) : String :=
  let head := telegramHead lib marketId news
  let tail := telegramTail lib text news
  let summaryLimit := telegramMessageLimit - head.length - tail.length - 4
  let summary := shorten lib news.summary summaryLimit
  let message := head ++ "\n\n" ++ summary ++ "\n\n" ++ tail
  String.ofList (message.toList.take telegramMessageLimit)

theorem pyRstrip_length_le (lib : PyLib) (s : String) : (pyRstrip lib s).length ≤ s.length := by
  have dropped := (List.dropWhile_sublist (l := s.toList.reverse) lib.isSpace).length_le
  rw [List.length_reverse, String.length_toList] at dropped
  simpa [pyRstrip] using dropped

theorem shorten_length_le (lib : PyLib) (value : Option String) {limit : Nat} (h : 3 ≤ limit) :
    (shorten lib value limit).length ≤ limit := by
  simp only [shorten]
  split
  next short => exact short
  next long =>
    have cut := pyRstrip_length_le lib
      (String.ofList ((pyStrip lib (textOr value "")).toList.take (limit - 3)))
    have taken : (String.ofList ((pyStrip lib (textOr value "")).toList.take (limit - 3))).length ≤
        limit - 3 := by simp
    have dots : "...".length = 3 := rfl
    rw [String.length_append, dots]
    omega

theorem shorten_short {lib : PyLib} {value : Option String} {limit : Nat}
    (h : (pyStrip lib (textOr value "")).length ≤ limit) :
    shorten lib value limit = pyStrip lib (textOr value "") := by
  simp only [shorten, h, if_true]

theorem cents_length : ∀ n ≤ 100,
    (toString (n / 100) ++ "." ++ toString (n % 100 / 10) ++ toString (n % 10)).length = 4 := by
  decide +kernel

theorem fixedTwo_length {q : Rat} (low : 0 ≤ q) (high : q ≤ 1) : (fixedTwo q).length = 4 := by
  have cents : (roundHalfEven (|q| * 100)).toNat ≤ 100 := by
    have bound : roundHalfEven (|q| * 100) ≤ 100 := by
      apply roundHalfEven_le
      rw [abs_of_nonneg low]
      push_cast
      linarith
    omega
  have digits := cents_length _ cents
  have sign : ¬ q < 0 := not_lt.mpr low
  simpa only [fixedTwo, sign, if_false, String.empty_append] using digits

section Message

variable (lib : PyLib) (text : Rat → String) (marketId : String) {news : TelegramNews}

theorem telegramScores_length {r c : Rat} (hr : news.relevanceScore = some r)
    (hc : news.credibilityScore = some c) (relevance : 0 ≤ r ∧ r ≤ 1) (credibility : 0 ≤ c ∧ c ≤ 1) :
    (telegramScores text news).length = 35 := by
  have first : "Relevance: ".length = 11 := rfl
  have second : " | Credibility: ".length = 16 := rfl
  have r4 := fixedTwo_length relevance.1 relevance.2
  have c4 := fixedTwo_length credibility.1 credibility.2
  simp only [telegramScores, hr, hc]
  rw [String.length_append, String.length_append, String.length_append, first, second, r4, c4]

theorem telegramHead_length (news : TelegramNews) : (telegramHead lib marketId news).length ≤ 1026 := by
  have title := @shorten_length_le lib (some (textOr news.title "Untitled news")) 700 (by omega)
  have market := @shorten_length_le lib (some marketId) 300 (by omega)
  have label : "New market news\nMarket: ".length = 24 := rfl
  have blank : "\n\n".length = 2 := rfl
  unfold telegramHead
  rw [String.length_append, String.length_append, String.length_append, label, blank]
  omega

theorem telegramTail_length (scores : (telegramScores text news).length = 35) :
    (telegramTail lib text news).length ≤ 1430 := by
  have source := @shorten_length_le lib (some (textOr news.sourceDomain "unknown")) 200 (by omega)
  have published := @shorten_length_le lib (some (textOr news.publishedAt "unknown")) 80 (by omega)
  have impact := @shorten_length_le lib (some (textOr news.impactHint "unknown")) 80 (by omega)
  have url := @shorten_length_le lib news.url 1000 (by omega)
  have l₁ : "Source: ".length = 8 := rfl
  have l₂ : " | Published: ".length = 14 := rfl
  have l₃ : "\nImpact: ".length = 9 := rfl
  have l₄ : " | ".length = 3 := rfl
  have l₅ : "\n".length = 1 := rfl
  unfold telegramTail
  rw [String.length_append, String.length_append, String.length_append, String.length_append,
    String.length_append, String.length_append, String.length_append, String.length_append,
    String.length_append, l₁, l₂, l₃, l₄, l₅, scores]
  omega

/-- What the head and the tail leave for the summary. -/
def summaryRoom (lib : PyLib) (text : Rat → String) (marketId : String) (news : TelegramNews) : Nat :=
  telegramMessageLimit - (telegramHead lib marketId news).length - (telegramTail lib text news).length - 4

/-- The message before the final slice. -/
def telegramMessage (lib : PyLib) (text : Rat → String) (marketId : String) (news : TelegramNews) :
    String :=
  telegramHead lib marketId news ++ "\n\n" ++
    shorten lib news.summary (summaryRoom lib text marketId news) ++ "\n\n" ++ telegramTail lib text news

theorem telegramMessage_length (scores : (telegramScores text news).length = 35) :
    (telegramMessage lib text marketId news).length ≤ telegramMessageLimit := by
  have head := telegramHead_length lib marketId news
  have tail := telegramTail_length lib text scores
  have wide : 3 ≤ summaryRoom lib text marketId news := by
    unfold summaryRoom telegramMessageLimit
    omega
  have summary := shorten_length_le lib news.summary wide
  have blank : "\n\n".length = 2 := rfl
  unfold telegramMessage
  rw [String.length_append, String.length_append, String.length_append, String.length_append, blank]
  unfold summaryRoom telegramMessageLimit at *
  omega

theorem formatTelegramNews_uncut (scores : (telegramScores text news).length = 35) :
    formatTelegramNews lib text marketId news = telegramMessage lib text marketId news := by
  have fits := telegramMessage_length lib text marketId scores
  rw [← String.length_toList] at fits
  show String.ofList ((telegramMessage lib text marketId news).toList.take telegramMessageLimit) = _
  rw [List.take_of_length_le fits, String.ofList_toList]

theorem telegramTail_url (short : (pyStrip lib (textOr news.url "")).length ≤ 1000) :
    ∃ front, telegramTail lib text news = front ++ "\n" ++ pyStrip lib (textOr news.url "") := by
  have url := shorten_short short
  unfold telegramTail
  rw [url]
  exact ⟨_, rfl⟩

theorem telegram_message (news : TelegramNews) {r c : Rat} (hr : news.relevanceScore = some r)
    (hc : news.credibilityScore = some c) (relevance : 0 ≤ r ∧ r ≤ 1) (credibility : 0 ≤ c ∧ c ≤ 1) :
    (formatTelegramNews lib text marketId news).length ≤ telegramMessageLimit ∧
    formatTelegramNews lib text marketId news =
      telegramHead lib marketId news ++ "\n\n" ++
        shorten lib news.summary (summaryRoom lib text marketId news) ++ "\n\n" ++
        telegramTail lib text news ∧
    ((pyStrip lib (textOr news.url "")).length ≤ 1000 →
      ∃ front, formatTelegramNews lib text marketId news =
        front ++ "\n" ++ pyStrip lib (textOr news.url "")) ∧
    ((pyStrip lib (textOr news.summary "")).length ≤ summaryRoom lib text marketId news →
      formatTelegramNews lib text marketId news =
        telegramHead lib marketId news ++ "\n\n" ++ pyStrip lib (textOr news.summary "") ++ "\n\n" ++
          telegramTail lib text news) := by
  have scores := telegramScores_length text hr hc relevance credibility
  have uncut := formatTelegramNews_uncut lib text marketId scores
  rw [uncut]
  refine ⟨telegramMessage_length lib text marketId scores, rfl, fun short => ?_, fun short => ?_⟩
  · obtain ⟨front, tail⟩ := telegramTail_url lib text short
    refine ⟨telegramHead lib marketId news ++ "\n\n" ++
      shorten lib news.summary (summaryRoom lib text marketId news) ++ "\n\n" ++ front, ?_⟩
    unfold telegramMessage
    rw [tail, ← String.append_assoc, ← String.append_assoc]
  · simp only [telegramMessage, shorten_short short]

end Message

def ratesNews : TelegramNews where
  title := some "Important update"
  summary := some " Rates  fall"
  url := some "https://example.com/news "
  sourceDomain := none
  publishedAt := none
  impactHint := some "supports_yes"
  relevanceScore := some (4 / 5)
  credibilityScore := some (9 / 10)

theorem telegram_message_sample : ∃ front,
    formatTelegramNews sampleLib (fun _ => "") "market-1" ratesNews =
      front ++ "\n" ++ "https://example.com/news" := by
  obtain ⟨_, _, url, _⟩ := @telegram_message sampleLib (fun _ => "") "market-1" ratesNews (4 / 5) (9 / 10)
    rfl rfl (by norm_num) (by norm_num)
  exact url (by decide +kernel)

end NewsNotifier
