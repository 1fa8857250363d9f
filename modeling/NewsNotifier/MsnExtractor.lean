import NewsNotifier.InterleavedTotal
import NewsNotifier.PyValues

namespace NewsNotifier

open Interleaving Prog

/-- `json.loads` and `trafilatura.extract`. -/
structure ArticleLib where
  loads : String → Option Json
  extract : Json → Except PyError (Option String)

structure Response where
  statusCode : Nat
  content : String
  deriving DecidableEq

structure Article where
  finalUrl : String
  text : Json
  success : Bool
  publishedAt : Json
  deriving DecidableEq

def keySeed : String := "0QfOX3Vn51YCzitbLaRkTTBadtWpgTN8NZLW0C1SEM"

def refreshCooldown : Int := 300 * 1000000

/-- The group of a search for one of `heads` followed by at least `least` characters of a class. -/
def searchGroup (heads : List (List Char)) (p : Char → Bool) (least : Nat) (s : String) : Option String :=
  (s.toList.tails.findSome? fun t => heads.findSome? fun head =>
    let run := (t.drop head.length).takeWhile p
    if head.isPrefixOf t ∧ least ≤ run.length then some run else none).map String.ofList

def contentId (url : String) : Option String := searchGroup ["/ar-".toList] Char.isAlphanum 1 url

def apikey (url : String) : Option String :=
  if pyContains "assets.msn.com" url then
    searchGroup ["?apikey=".toList, "&apikey=".toList] Char.isAlphanum 20 url
  else none

/-- The statements of the extractor. A response to a request or a sniff is awaited; what follows up
to the next statement runs at once. -/
inductive MsnStmt where
  | cachedKey
  | httpGet (contentId key : String)
  | acquireKeyLock
  | releaseKeyLock
  | beginRefresh
  | sniff
  | cacheKey (newKey : String)
  | finish (result : Option Article)

/-- A sniff answers with the urls requested by the page, in the order of a set, or with nothing
where the page did not load. -/
abbrev MsnAnswer : MsnStmt → Type
  | .cachedKey => String
  | .httpGet _ _ => Option Response
  | .beginRefresh => Bool
  | .sniff => Except Raised (Option (List String))
  | _ => Unit

abbrev MsnProgram := Prog MsnStmt MsnAnswer Raised

def msn (s : MsnStmt) : MsnProgram (MsnAnswer s) := .stmt s .ret

@[simp] theorem msn_eq (s : MsnStmt) : msn s = .stmt s .ret := rfl

def sniffKeyViaBrowser : MsnProgram (Option String) := do
  match ← msn .sniff with
  | .error e => raise e
  | .ok none => return none
  | .ok (some urls) => return (urls.filterMap apikey).head?

/-- `async with _key_lock`. -/
def withKeyLock {α : Type} (body : MsnProgram α) : MsnProgram α := do
  msn .acquireKeyLock
  within (msn .releaseKeyLock) body

def refreshKey : MsnProgram (Option String) :=
  withKeyLock do
    match ← msn .beginRefresh with
    | false => return none
    | true => do
      let newKey ← sniffKeyViaBrowser
      match newKey.filter (· ≠ "") with
      | none => return newKey
      | some key => do
        msn (.cacheKey key)
        return newKey

def fetchDetail (contentId key : String) : MsnProgram (Option Response) := msn (.httpGet contentId key)

def documentOf (lib : ArticleLib) : Option String → Except PyError (List (String × Json))
  | none => .ok []
  | some extracted =>
    if extracted = "" then .ok []
    else match lib.loads extracted with
      | none => .error .valueError
      | some (.obj doc) => .ok doc
      | some _ => .error .attributeError

/-- What `extract` makes of an accepted response. -/
def articleOf (lib : ArticleLib) (url : String) (resp : Response) : Except PyError (Option Article) :=
  match lib.loads resp.content with
  | none => .ok none
  | some (.obj data) =>
    match (Json.field data "body").filter Json.truthy with
    | none => .ok none
    | some bodyHtml => do
      let extracted ← lib.extract bodyHtml
      let doc ← documentOf lib extracted
      match (Json.field doc "text").filter Json.truthy with
      | none => return none
      | some text => return some ⟨url, text, true, (Json.field doc "date").getD .null⟩
  | some _ => .error .attributeError

/-- One runtime refresh and one retry for a rejected key. -/
def retryRejected (contentId : String) (resp : Option Response) : MsnProgram (Option Response) :=
  match resp with
  | none => return none
  | some rejected =>
    if rejected.statusCode = 200 then return resp
    else do
      let newKey ← refreshKey
      match newKey.filter (· ≠ "") with
      | none => return resp
      | some key => fetchDetail contentId key

def extract (lib : ArticleLib) (url : String) : MsnProgram (Option Article) :=
  match contentId url with
  | none => return none
  | some contentId => do
    let cached ← msn .cachedKey
    let first ← fetchDetail contentId cached
    let resp ← retryRejected contentId first
    match resp with
    | none => return none
    | some resp =>
      if resp.statusCode = 200 then
        match articleOf lib url resp with
        | .error e => raise (.py e)
        | .ok article => return article
      else return none

/-- A call of `extract` by its caller, who is given the result. -/
def extractCall (lib : ArticleLib) (url : String) : MsnProgram Unit := do
  let result ← extract lib url
  msn (.finish result)

/-- The globals of the module, the clock, and what the calls have done so far: the requests sent,
the sniffs started and the results returned. -/
structure MsnState where
  cachedKey : String
  keyLock : Option Nat
  lastRefresh : Option Time
  monotonic : Time
  requests : List (Nat × String × String)
  sniffs : List (Nat × Time)
  results : List (Nat × Option Article)
  deriving DecidableEq

def MsnState.refreshDue (g : MsnState) : Bool :=
  match g.lastRefresh with
  | none => true
  | some last => !(g.monotonic - last < refreshCooldown)

/-- The cooldown test, and with it the stamp and the start of the sniff: nothing is awaited between
them. -/
def MsnState.beginRefresh (g : MsnState) (i : Nat) : Bool × MsnState :=
  if g.refreshDue then
    (true, { g with lastRefresh := some g.monotonic, sniffs := g.sniffs ++ [(i, g.monotonic)] })
  else (false, g)

def msnExec (i : Nat) (s : MsnStmt) (r : MsnAnswer s) (g : MsnState) : Option MsnState :=
  match s, r with
  | .cachedKey, r => if r = g.cachedKey then some g else none
  | .httpGet contentId key, _ => some { g with requests := g.requests ++ [(i, contentId, key)] }
  | .acquireKeyLock, _ => if g.keyLock = none then some { g with keyLock := some i } else none
  | .releaseKeyLock, _ => some { g with keyLock := none }
  | .beginRefresh, r => if r = (g.beginRefresh i).1 then some (g.beginRefresh i).2 else none
  | .sniff, _ => some g
  | .cacheKey newKey, _ => some { g with cachedKey := newKey }
  | .finish result, _ => some { g with results := g.results ++ [(i, result)] }

/-- The calls of one process. A cancelled call leaves the lock. -/
def msnSys (lib : ArticleLib) : Sys Nat MsnStmt MsnAnswer Raised Unit MsnState String Nat where
  idle := ()
  exec i s r _ g := (msnExec i s r g).map fun g' => ((), g')
  start _ url g := some (extractCall lib url, g)
  stop i g := if g.keyLock = some i then { g with keyLock := none } else g
  env elapsed g := some { g with monotonic := g.monotonic + elapsed }

abbrev MsnWorld := World Nat MsnStmt MsnAnswer Raised Unit MsnState

/-- The module as imported. -/
def msnLoaded (now : Time) : MsnState := ⟨keySeed, none, none, now, [], [], []⟩

end NewsNotifier
