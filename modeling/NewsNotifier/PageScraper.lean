import NewsNotifier.FiniteRuns
import NewsNotifier.MsnExtractor

namespace NewsNotifier

open Interleaving Prog

/-- `str` of an exception that the library functions raise. -/
structure ScrapeLib extends ArticleLib where
  str : PyError → String

/-- One entry of the results; an entry of the `except` branch has no `published_at`. -/
structure Scraped where
  finalUrl : String
  text : Json
  success : Bool
  publishedAt : Option Json
  error : Option String
  deriving DecidableEq

structure DomainExtractor where
  name : String
  handles : String → Bool

def msnExtractor : DomainExtractor := ⟨"msn", fun url => pyContains "msn.com/" url && (contentId url).isSome⟩

def extractors : List DomainExtractor := [msnExtractor]

def findExtractor (url : String) : Option DomainExtractor := extractors.find? (·.handles url)

/-- The statements of a scrape. The answers of the browser are a value or the text of an exception;
`page.url` and the entry in the results are not awaited. -/
inductive ScrapeStmt where
  | acquire
  | release
  | extract (extractor url : String)
  | newContext
  | newPage
  | goto (url : String) (timeoutMs : Nat)
  | waitForSelector (selector : String) (timeoutMs : Nat)
  | pageUrl
  | content
  | closeContext
  | record (url : String) (result : Scraped)

/-- An extractor answers with an article, or with nothing, or raises. -/
abbrev ScrapeAnswer : ScrapeStmt → Type
  | .extract _ _ => Except Unit (Option Article)
  | .pageUrl => String
  | .content => Except String String
  | .newContext | .newPage | .goto _ _ | .waitForSelector _ _ | .closeContext => Except String Unit
  | _ => Unit

abbrev ScrapeProgram := Prog ScrapeStmt ScrapeAnswer Raised

def scrape (s : ScrapeStmt) : ScrapeProgram (ScrapeAnswer s) := .stmt s .ret

@[simp] theorem scrape_eq (s : ScrapeStmt) : scrape s = .stmt s .ret := rfl

def failedScrape (url error : String) : Scraped := ⟨url, .str "", false, none, some error⟩

def articleResult (a : Article) : Scraped := ⟨a.finalUrl, a.text, a.success, some a.publishedAt, none⟩

/-- The entry made of the extracted page. -/
def pageResult (lib : ScrapeLib) (finalUrl html : String) : Except PyError Scraped := do
  let extracted ← lib.extract (.str html)
  let doc ← documentOf lib.toArticleLib extracted
  match (Json.field doc "text").filter Json.truthy with
  | none => return ⟨finalUrl, .str "", false, some ((Json.field doc "date").getD .null), none⟩
  | some text => return ⟨finalUrl, text, true, some ((Json.field doc "date").getD .null), none⟩

/-- The body of the `try` once there is a context; an error is what the `except` is given. -/
def readPage (lib : ScrapeLib) (timeoutMs : Nat) (url : String) : ScrapeProgram (Except String Scraped) := do
  match ← scrape .newPage with
  | .error e => return .error e
  | .ok _ =>
    match ← scrape (.goto url timeoutMs) with
    | .error e => return .error e
    | .ok _ => do
      let _ ← scrape (.waitForSelector "article, main, [role=main]" timeoutMs)
      let finalUrl ← scrape .pageUrl
      match ← scrape .content with
      | .error e => return .error e
      | .ok html =>
        match pageResult lib finalUrl html with
        | .error e => return .error (lib.str e)
        | .ok result => return .ok result

/-- The `finally` of a scrape that has a context. -/
def closeContext : ScrapeProgram Unit := do
  match ← scrape .closeContext with
  | .error _ => raise (.py .external)
  | .ok _ => return ()

def scrapeViaBrowser (lib : ScrapeLib) (timeoutMs : Nat) (url : String) : ScrapeProgram Unit := do
  match ← scrape .newContext with
  | .error e => scrape (.record url (failedScrape url e))
  | .ok _ => do
    match ← readPage lib timeoutMs url with
    | .error e => scrape (.record url (failedScrape url e))
    | .ok result => scrape (.record url result)
    closeContext

/-- `async with semaphore`. -/
def withSemaphore (body : ScrapeProgram Unit) : ScrapeProgram Unit := do
  scrape .acquire
  within (scrape .release) body

def scrapeOne (lib : ScrapeLib) (timeoutMs : Nat) (url : String) : ScrapeProgram Unit :=
  withSemaphore do
    match findExtractor url with
    | none => scrapeViaBrowser lib timeoutMs url
    | some extractor =>
      match ← scrape (.extract extractor.name url) with
      | .ok (some article) => scrape (.record url (articleResult article))
      | _ => scrapeViaBrowser lib timeoutMs url

/-- A batch: the semaphore's value, who is inside, whose context is open and not asked to close, the
results as a dict in the order of its keys, and which tasks have started and which were cancelled. -/
structure Batch where
  urls : List String
  value : Nat
  inside : List Nat
  contexts : List Nat
  results : List (String × Scraped)
  started : List Nat
  gone : List Nat
  deriving DecidableEq

/-- `results[url] = result`. -/
def setResult (results : List (String × Scraped)) (url : String) (result : Scraped) : List (String × Scraped) :=
  if results.any (·.1 = url) then results.map fun e => if e.1 = url then (url, result) else e
  else results ++ [(url, result)]

def scrapeExec (i : Nat) (s : ScrapeStmt) (r : ScrapeAnswer s) (b : Batch) : Option Batch :=
  match s, r with
  | .acquire, _ => if 0 < b.value then some { b with value := b.value - 1, inside := i :: b.inside } else none
  | .release, _ => some { b with value := b.value + 1, inside := b.inside.erase i }
  | .newContext, .ok _ => some { b with contexts := i :: b.contexts }
  | .newContext, .error _ => some b
  | .closeContext, _ => some { b with contexts := b.contexts.erase i }
  | .record url result, _ => some { b with results := setResult b.results url result }
  | .extract _ _, _ => some b
  | .newPage, _ => some b
  | .goto _ _, _ => some b
  | .waitForSelector _ _, _ => some b
  | .pageUrl, _ => some b
  | .content, _ => some b

/-- A cancelled scrape closes its context and leaves the semaphore on its way out. -/
def Batch.cancel (b : Batch) (i : Nat) : Batch :=
  { b with
    value := b.value + b.inside.count i
    inside := b.inside.filter (· ≠ i)
    contexts := b.contexts.filter (· ≠ i)
    gone := i :: b.gone }

/-- The tasks of one `gather`, one for each url, each started once. -/
def scrapeSys (lib : ScrapeLib) (timeoutMs : Nat) : Sys Nat ScrapeStmt ScrapeAnswer Raised Unit Batch Unit Empty where
  idle := ()
  exec i s r _ b := (scrapeExec i s r b).map fun b' => ((), b')
  start i _ b :=
    match b.urls[i]? with
    | none => none
    | some url =>
      if b.started.contains i then none
      else some (scrapeOne lib timeoutMs url, { b with started := i :: b.started })
  stop i b := b.cancel i
  env e _ := e.elim

abbrev ScrapeWorld := World Nat ScrapeStmt ScrapeAnswer Raised Unit Batch

/-- `_scrape_batch` before its tasks run. -/
def newBatch (urls : List String) (concurrency : Nat) : Batch := ⟨urls, concurrency, [], [], [], [], []⟩

end NewsNotifier
