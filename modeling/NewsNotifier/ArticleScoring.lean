import NewsNotifier.NewsRows

namespace NewsNotifier

/-- `missing` of `_ensure_required_keys`, for any value `json.loads` can return. -/
def ensureRequiredKeys (required : List String) : Json → Except PyError Unit
  | .obj fields =>
    if required.all fun key => (Json.field fields key).isSome then .ok () else .error .valueError
  | .arr xs =>
    if required.all fun key => xs.any fun x => x.string == some key then .ok ()
    else .error .valueError
  | .str s => if required.all fun key => pyContains key s then .ok () else .error .valueError
  | _ => .error .typeError

/-- `generate_json` from the decoded answer on; `none` is a failed request or not JSON. The
result is used as a dict. -/
def generateJson (required : List String) : Option Json → Except PyError (List (String × Json))
  | none => .error .external
  | some data => do
    ensureRequiredKeys required data
    match data with
    | .obj fields => .ok fields
    | _ => .error .attributeError

def queryGenRequired : List String := ["queries"]

def extractionRequired : List String :=
  ["is_relevant", "relevance_reasoning", "relevance_score", "credibility_reasoning",
   "credibility_signal", "impact_hint", "title", "summary", "proofs"]

/-- The elements a `for` loop over the value sees. -/
def Json.elements : Json → Except PyError (List Json)
  | .arr xs => .ok xs
  | .str s => .ok (s.toList.map fun c => .str (String.ofList [c]))
  | .obj fields => .ok (fields.map fun f => .str f.1)
  | _ => .error .typeError

/-- `value or []` of a field, iterated. -/
def elementsOrEmpty (value : Option Json) : Except PyError (List Json) :=
  match value with
  | none => .ok []
  | some value => if value.truthy then value.elements else .ok []

def collapse (lib : PyLib) (s : String) : String :=
  lib.casefold (" ".intercalate (pySplit lib s))

def addQuery (lib : PyLib) (acc : List String × List String) (query : Json) :
    Except PyError (List String × List String) :=
  match query with
  | .str query =>
    let normalized := collapse lib query
    if normalized = "" ∨ normalized ∈ acc.1 then .ok acc
    else .ok (acc.1 ++ [normalized], acc.2 ++ [pyStrip lib query])
  | _ => .error .attributeError

def generateQueries (lib : PyLib) (raw : Option Json) : Except PyError (List String) := do
  let result ← generateJson queryGenRequired raw
  let queries ← elementsOrEmpty (Json.field result "queries")
  let (_, unique) ← queries.foldlM (addQuery lib) ([], [])
  return unique.take 5

/-- `(proof.get("quote") or "").strip()`. -/
def quoteOf (lib : PyLib) : Json → Except PyError String
  | .obj fields =>
    match Json.field fields "quote" with
    | none => .ok ""
    | some value =>
      if value.truthy then
        match value with
        | .str s => .ok (pyStrip lib s)
        | _ => .error .attributeError
      else .ok ""
  | _ => .error .attributeError

/-- The kept quotes, in input order. -/
def verifyProofs (lib : PyLib) (proofs : List Json) (articleText : String) :
    Except PyError (List String) :=
  let normalizedArticle := collapse lib articleText
  proofs.foldlM (fun verified proof => do
    let quote ← quoteOf lib proof
    if quote ≠ "" ∧ pyContains (collapse lib quote) normalizedArticle then .ok (verified ++ [quote])
    else .ok verified) []

/-- The dict `extract_and_score` returns; `proofs` holds the verified quotes of a relevant one. -/
structure Extracted where
  fields : List (String × Json)
  proofs : List String

def Extracted.get (e : Extracted) (key : String) : Json := (Json.field e.fields key).getD .null

def Extracted.isRelevant (e : Extracted) : Bool := (e.get "is_relevant").truthy

/-- `extract_and_score` after the model's answer. -/
def scoreAnswer (lib : PyLib) (articleText : String) (raw : Option Json) :
    Except PyError Extracted := do
  let fields ← generateJson extractionRequired raw
  let e : Extracted := ⟨fields, []⟩
  if e.isRelevant then
    let proofs ← elementsOrEmpty (Json.field fields "proofs")
    let verified ← verifyProofs lib proofs articleText
    return ⟨fields, verified⟩
  else return e

def tierBaseScore : ReliabilityTier → Rat
  | .tier1Official => 95 / 100
  | .tier2MajorMedia => 85 / 100
  | .tier3Aggregator => 6 / 10
  | .tier4SocialBlog => 35 / 100
  | .unknown => 5 / 10

def sourceWeight : Rat := 6 / 10

def llmSignalWeight : Rat := 4 / 10

def domainCandidates (domain : String) : List String :=
  let parts := domain.toList.splitOn '.'
  (List.range (parts.length - 1)).map fun i => String.ofList (['.'].intercalate (parts.drop i))

/-- `compute_credibility` after the query; `rows` is what it returned, or nothing without a
candidate. -/
def credibilityOf (domain : String) (rows : List Source) (llmSignal : Rat) : Rat :=
  let source := (domainCandidates domain).findSome? fun c => rows.find? (·.domain == c)
  let base := match source with
    | some source => tierBaseScore source.reliabilityTier
    | none => tierBaseScore .unknown
  (roundHalfEven ((sourceWeight * base + llmSignalWeight * clamp01 llmSignal) * 1000) : Rat) / 1000

/-- `ImpactHint(value)`, with `ambiguous` for the `ValueError`. -/
def impactHintOf : Json → ImpactHint
  | .str "supports_yes" => .supportsYes
  | .str "supports_no" => .supportsNo
  | .str "neutral" => .neutral
  | .str "ambiguous" => .ambiguous
  | _ => .ambiguous

end NewsNotifier
