import NewsNotifier.ArticleScoring
import NewsNotifier.InterleavedPrograms

namespace NewsNotifier

open Interleaving Prog

/-- A float that `float(text)` can give. -/
inductive PyFloat where
  | finite (q : Rat)
  | inf (positive : Bool)
  | nan
  deriving DecidableEq

/-- What is read of an `httpx.Response`; `body` is `resp.json()`, or nothing where it raises. -/
structure LlmResponse where
  statusCode : Nat
  retryAfter : Option String
  body : Option Json
  deriving DecidableEq

structure LlmRequest where
  path : String
  payload : Json
  headers : List (String × String)
  deriving DecidableEq

inductive LlmRaised where
  | httpError
  | httpStatusError (status : Nat)
  | badAnswer
  | py (e : PyError)
  deriving DecidableEq

inductive LlmStmt where
  | post (request : LlmRequest)
  | random
  | sleep (delay : PyFloat)

/-- A POST that raised is answered with nothing. -/
abbrev LlmAnswer : LlmStmt → Type
  | .post _ => Option LlmResponse
  | .random => Rat
  | .sleep _ => Unit

abbrev LlmProgram := Prog LlmStmt LlmAnswer LlmRaised

/-- `float` and `json.loads` on texts. -/
structure LlmLib where
  float : String → Option PyFloat
  loads : String → Option Json

structure LlmSettings where
  llmApiKey : String
  llmDisableThinking : Bool

namespace LLMClient

def ask (s : LlmStmt) : LlmProgram (LlmAnswer s) := .stmt s .ret

@[simp] theorem ask_eq (s : LlmStmt) : ask s = .stmt s .ret := rfl

def retryableStatuses : List Nat := [429, 500, 502, 503, 504]

def maxRetries : Nat := 3

def retryDelay (lib : LlmLib) (resp : LlmResponse) (attempt : Nat) : LlmProgram PyFloat :=
  let backoff : LlmProgram PyFloat := do
    let u ← ask .random
    return .finite (2 ^ attempt + u)
  match resp.retryAfter with
  | none => backoff
  | some retryAfter =>
    match lib.float retryAfter with
    | some delay => return delay
    | none => backoff

def raiseForStatus (resp : LlmResponse) : LlmProgram LlmResponse :=
  if 200 ≤ resp.statusCode ∧ resp.statusCode < 300 then return resp
  else raise (.httpStatusError resp.statusCode)

/-- The rounds of `_post_with_retry`; after the last one it would return `None`, whose `json` there is not. -/
def postRounds (lib : LlmLib) (request : LlmRequest) : List Nat → LlmProgram LlmResponse
  | [] => raise (.py .attributeError)
  | attempt :: attempts => do
    let answer ← ask (.post request)
    match answer with
    | none => raise .httpError
    | some resp =>
      if resp.statusCode ∉ retryableStatuses ∨ attempt = maxRetries then raiseForStatus resp
      else do
        let delay ← retryDelay lib resp attempt
        let _ ← ask (.sleep delay)
        postRounds lib request attempts

def postWithRetry (lib : LlmLib) (request : LlmRequest) : LlmProgram LlmResponse :=
  postRounds lib request (List.range (maxRetries + 1))

/-- `value[key]`. -/
def lookup (key : String) : Json → Option Json
  | .obj fields => Json.field fields key
  | _ => none

/-- `value[0]`. -/
def first : Json → Option Json
  | .arr (x :: _) => some x
  | .str s => s.toList.head?.map fun c => .str (String.ofList [c])
  | _ => none

/-- `json.loads(resp.json()["choices"][0]["message"]["content"])`. -/
def decode (lib : LlmLib) (resp : LlmResponse) : Option Json := do
  let body ← resp.body
  let choices ← lookup "choices" body
  let choice ← first choices
  let message ← lookup "message" choice
  let content ← lookup "content" message
  let text ← content.string
  lib.loads text

/-- `schema.get("required", [])`. -/
def requiredOf (schema : Json) : List String :=
  match lookup "required" schema with
  | some (.arr keys) => keys.filterMap Json.string
  | _ => []

def message (role content : String) : Json := .obj [("role", .str role), ("content", .str content)]

def request (cfg : LlmSettings) (model system prompt : String) (schema : Json) (name : String) (temperature : Rat) :
    LlmRequest where
  path := "/chat/completions"
  payload := .obj ([("model", .str model), ("messages", .arr [message "system" system, message "user" prompt]),
    ("response_format", .obj [("type", .str "json_schema"),
      ("json_schema", .obj [("name", .str name), ("strict", .bool true), ("schema", schema)])]),
    ("temperature", .num temperature)] ++
    if cfg.llmDisableThinking then [("chat_template_kwargs", .obj [("enable_thinking", .bool false)])] else [])
  headers := if cfg.llmApiKey = "" then [] else [("Authorization", "Bearer " ++ cfg.llmApiKey)]

/-- `generate_json` after the POST. -/
def readAnswer (lib : LlmLib) (schema : Json) (resp : LlmResponse) : Except LlmRaised Json :=
  match decode lib resp with
  | none => .error .badAnswer
  | some data => do
    (ensureRequiredKeys (requiredOf schema) data).mapError .py
    return data

def generateJson (lib : LlmLib) (cfg : LlmSettings) (model system prompt : String) (schema : Json) (name : String)
    (temperature : Rat) : LlmProgram Json := do
  let resp ← postWithRetry lib (request cfg model system prompt schema name temperature)
  match readAnswer lib schema resp with
  | .error e => raise e
  | .ok data => return data

end LLMClient

def queryGenSchema : Json :=
  .obj [("type", .str "object"),
    ("properties", .obj [("queries", .obj [("type", .str "array"), ("items", .obj [("type", .str "string")]),
      ("minItems", .num 2), ("maxItems", .num 5)])]),
    ("required", .arr [.str "queries"]),
    ("additionalProperties", .bool false)]

def extractionSchema : Json :=
  .obj [("type", .str "object"),
    ("properties", .obj [
      ("is_relevant", .obj [("type", .str "boolean")]),
      ("relevance_reasoning", .obj [("type", .str "string")]),
      ("relevance_score", .obj [("type", .str "number")]),
      ("credibility_reasoning", .obj [("type", .str "string")]),
      ("credibility_signal", .obj [("type", .str "number")]),
      ("impact_hint", .obj [("type", .str "string"),
        ("enum", .arr [.str "supports_yes", .str "supports_no", .str "neutral", .str "ambiguous"])]),
      ("title", .obj [("type", .str "string")]),
      ("summary", .obj [("type", .str "string")]),
      ("proofs", .obj [("type", .str "array"),
        ("items", .obj [("type", .str "object"), ("properties", .obj [("quote", .obj [("type", .str "string")])]),
          ("required", .arr [.str "quote"]), ("additionalProperties", .bool false)]),
        ("maxItems", .num 3)])]),
    ("required", .arr [.str "is_relevant", .str "relevance_reasoning", .str "relevance_score",
      .str "credibility_reasoning", .str "credibility_signal", .str "impact_hint", .str "title", .str "summary",
      .str "proofs"]),
    ("additionalProperties", .bool false)]

theorem queryGen_required : LLMClient.requiredOf queryGenSchema = queryGenRequired := by decide +kernel

theorem extraction_required : LLMClient.requiredOf extractionSchema = extractionRequired := by decide +kernel

end NewsNotifier
