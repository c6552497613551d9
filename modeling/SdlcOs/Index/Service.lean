/-
The index service: one server for all tenants (index_server/service.py,
the queries of engine/repo_index.py that read files again).

A call meets a file system and a clock of its own. Its result is an
envelope, or `raised` for an exception that is not one of the service's:
a cursor that is no number, a summary that is `None`. The tokens, the
scores and the order of one repository's candidates are the ranking's,
`rank`.
-/
import SdlcOs.Index.Tenants

namespace SdlcOs.Index

open Data (Dict sortBy)

-- ==== platform

/-- `SearchDoc`, without its tokens. -/
structure SearchDoc where
  docId : String
  file : String
  symbol : Option String
  text : String
  deriving DecidableEq, Repr

/-- A candidate of a search. -/
structure SearchHit where
  file : String
  score : ℚ
  symbol : Option String
  snippet : String
  deriving DecidableEq

/-- The platform, with a file's size, `fnmatch`, and BM25 with its scores
rounded. -/
structure Machine (Blob : Type) extends Platform Blob where
  size : Blob → Nat
  fnmatch : String → String → Bool
  rank : List SearchDoc → String → Int → List (SearchDoc × ℚ)

-- ==== responses

/-- What `get_ownership_metadata` answers. -/
structure Ownership where
  owners : List String
  changeFrequency : ChangeFrequency
  deriving DecidableEq, Repr

/-- `_definition_dict`. -/
structure DefinitionDict where
  file : String
  line : Int
  column : Int
  symbol : String
  kind : Kind
  snippet : String
  deriving DecidableEq, Repr

def definitionDict (d : Definition) : DefinitionDict :=
  ⟨d.file, d.line, d.column, d.name, d.kind, d.snippet⟩

/-- `_reference_dict`. -/
structure ReferenceDict where
  file : String
  line : Int
  column : Int
  contextSnippet : String
  deriving DecidableEq, Repr

def referenceDict (r : Reference) : ReferenceDict :=
  ⟨r.file, r.line, r.column, r.contextSnippet⟩

/-- `_caller_dict`. -/
structure CallerDict where
  file : String
  line : Int
  callSiteSymbol : String
  containingSymbol : String
  deriving DecidableEq, Repr

def callerDict (s : CallSite) : CallerDict :=
  ⟨s.file, s.line, s.calleeBareName, s.containingSymbolName⟩

/-- `ToolError`, and `GitUnavailable`. -/
structure ToolError where
  code : String
  message : String
  deriving DecidableEq, Repr

/-- What a call returns. -/
inductive Response where
  | error (e : ToolError)
  | rateLimited (retryAfterSeconds : Int)
  | raised
  | empty (reason : String)
  | definitions (definitions : List DefinitionDict)
  | references (references : List ReferenceDict) (totalCount : Nat)
  | callers (callers : List CallerDict) (nextCursor : Option Int)
  | results (results : List SearchHit)
  | summary (path summary : String) (symbolCount : Nat) (generated : Bool)
  | ownership (path : String) (ownership : Ownership)
  | refreshed (result : RefreshResult)
  deriving DecidableEq

-- ==== queries that read files

namespace RepoIndex

variable {Blob : Type} {treeOf : String → Tree Blob}

/-- `_ensure_bm25`: a document for each symbol and one for the file. -/
def searchDocs (idx : RepoIndex) : List SearchDoc :=
  idx.fileRecords.files.flatMap fun r =>
    (r.definitions.map fun d =>
      ⟨"sym:" ++ d.fqn, d.file, some d.name,
        d.name ++ " " ++ d.kind.text ++ " " ++ d.file ++ " " ++ d.snippet⟩) ++
    [⟨"file:" ++ r.path, r.path, none,
      r.path ++ " " ++ String.intercalate " " (r.definitions.map (·.name))⟩]

/-- `search`. -/
def search (env : Machine Blob) (idx : RepoIndex) (query : String)
    (maxResults : Int) : List SearchHit :=
  (env.rank idx.searchDocs query maxResults).map fun hit =>
    ⟨hit.1.file, hit.2, hit.1.symbol.filter (· ≠ ""),
      .ofList (hit.1.text.toList.take 160)⟩

/-- `file_summary`: the summary, the number of symbols and whether the
file is generated; `none` is `None`. -/
def fileSummary (env : Machine Blob) (fs : Store treeOf)
    (root : List String) (idx : RepoIndex) (path : String) :
    Option (String × Nat × Bool) :=
  match idx.fileRecords.records.get path with
  | some r =>
    some (summarize path r.definitions r.lineCount r.isGenerated,
      r.definitions.length, r.isGenerated)
  | none =>
    (fs.fileAt (joinPath root path)).map fun blob =>
      let text := env.readText blob
      let generated := isGenerated path (.ofList (text.toList.take 2000))
      (summarize path [] (splitLines text).length generated, 0, generated)

/-- `parse_codeowners`: the first candidate that is a file. -/
def parseCodeowners (env : Machine Blob) (fs : Store treeOf)
    (root : List String) : List OwnersRule :=
  (([["CODEOWNERS"], [".github", "CODEOWNERS"], ["docs", "CODEOWNERS"]].map
      fun rel => fs.fileAt (root ++ rel)).findSome? id).elim [] fun blob =>
    (splitLines (env.readText blob)).filterMap ownersRule

/-- The owners of a path. -/
def ownersOf (env : Machine Blob) (fs : Store treeOf) (root : List String)
    (path : String) : List String :=
  ownersForPath env.fnmatch (parseCodeowners env fs root) path

/-- The change frequency, in a git repository. -/
def frequencyOf (fs : Store treeOf) (root : List String) (path : String) :
    Except String (Option ChangeFrequency) :=
  if (fs.repo (resolve root)).git = .absent then .ok none
  else changeFrequency (fs.log (resolve root)) path

/-- `ownership`; an error is `GitUnavailable`. -/
def ownership (env : Machine Blob) (fs : Store treeOf) (root : List String)
    (path : String) : Except String (Option Ownership) :=
  if ownersOf env fs root path = [] then .ok none
  else
    match frequencyOf fs root path with
    | .error message => .error message
    | .ok (some cf) => .ok (some ⟨ownersOf env fs root path, cf⟩)
    | .ok none =>
      .ok ((fs.modifiedAt (joinPath root path)).map fun t =>
        ⟨ownersOf env fs root path, ⟨0, t, []⟩⟩)

end RepoIndex

-- ==== service

/-- A call, less its tenant. -/
inductive Tool where
  | findDefinition (repository symbol : String) (origin : Option Origin)
  | findReferences (repository symbol : String) (origin : Option Origin)
      (includeTestFiles : Bool)
  | findCallers (repository symbol : String) (origin : Option Origin)
      (cursor : Cursor) (maxResults : Int)
  | search (query : String) (repository : Option String) (maxResults : Int)
  | fileModuleSummary (repository path : String)
  | ownershipMetadata (repository path : String)
  /-- `refresh_repo`. -/
  | refresh (repository : String)
  deriving DecidableEq

/-- A call, with the clock and the file system it meets. -/
structure Event {Blob : Type} (treeOf : String → Tree Blob) where
  tenant : String
  now : ℚ
  fs : Store treeOf
  tool : Tool

/-- `IndexService`, what it keeps: the tenants' windows and the indexes by
path. -/
structure IndexService where
  windows : Dict String Window
  indexes : Dict (List String) RepoIndex

namespace IndexService

/-- `IndexService(...)`. -/
def new : IndexService := ⟨.empty, .empty⟩

variable {Blob : Type} {treeOf : String → Tree Blob}

/-- The index of a path, built if there is none. -/
def indexOf (env : Machine Blob) (fs : Store treeOf) (s : IndexService)
    (path : List String) : RepoIndex :=
  (s.indexes.get path).getD
    (RepoIndex.build env.toPlatform .new (fs.repo (resolve path)))

/-- A service that has the index of a path. -/
def keep (s : IndexService) (path : List String) (idx : RepoIndex) :
    IndexService :=
  { s with indexes := s.indexes.set path idx }

/-- The path `_resolve_repo` goes by. -/
def checkedPath (reg : Registry) (fs : Store treeOf)
    (tenant repository : String) : Except ToolError (List String) :=
  if !reg.isKnownTenant tenant then
    .error ⟨"permission-denied", "Unknown tenant '" ++ tenant ++ "'."⟩
  else
    match reg.repoPath tenant repository with
    | none =>
      .error ⟨"permission-denied", "Tenant '" ++ tenant ++
        "' is not authorized for repository '" ++ repository ++ "'."⟩
    | some path =>
      if !fs.isDirAt path then
        .error ⟨"not-found", "Repository '" ++ repository ++
          "' is registered but its path does not exist."⟩
      else .ok path

/-- `find_definition`, of a resolved repository's index. -/
def findDefinition (idx : RepoIndex) (repository symbol : String)
    (origin : Option Origin) : Response :=
  let defs := idx.fileRecords.findDefinition symbol origin
  if defs = [] then
    .empty ("No definition found for symbol '" ++ symbol ++
      "' in repository '" ++ repository ++ "'.")
  else .definitions (defs.map definitionDict)

/-- `find_references`. -/
def findReferences (idx : RepoIndex) (symbol : String)
    (origin : Option Origin) (includeTestFiles : Bool) : Response :=
  let found := idx.fileRecords.findReferences symbol origin includeTestFiles
  if found.1 = [] then
    .empty (if found.2 then
        "Symbol '" ++ symbol ++ "' has zero references anywhere in the index."
      else "Symbol '" ++ symbol ++ "' was not found in the index.")
  else .references (found.1.map referenceDict) found.1.length

/-- `find_callers`. -/
def findCallers (idx : RepoIndex) (symbol : String) (origin : Option Origin)
    (cursor : Cursor) (maxResults : Int) : Response :=
  match idx.fileRecords.findCallers symbol origin cursor maxResults with
  | none => .raised
  | some ((calls, nextCursor), _) =>
    if calls = [] then
      .empty ("'" ++ symbol ++ "' has no callers anywhere in the index.")
    else .callers (calls.map callerDict) nextCursor

/-- What `search` returns of its candidates. -/
def searchResults (query : String) (results : List SearchHit) : Response :=
  if results = [] then
    .empty ("No candidates matched query '" ++ query ++ "'.")
  else .results results

/-- The file that `_safe_join` accepts. -/
def accepted (fs : Store treeOf) (root : List String) (path : String) :
    Option Blob :=
  (safeJoin root path).bind fs.fileAt

/-- A path that is not accepted, or no file. -/
def noSuchFile (repository path : String) : Response :=
  .error ⟨"not-found", "'" ++ path ++ "' does not exist in repository '" ++
    repository ++ "'."⟩

/-- `get_file_module_summary`. -/
def getFileModuleSummary (env : Machine Blob) (fs : Store treeOf)
    (root : List String) (idx : RepoIndex) (repository path : String) :
    Response :=
  match accepted fs root path with
  | none => noSuchFile repository path
  | some blob =>
    if env.size blob = 0 then
      .empty ("'" ++ path ++ "' is indexed but empty (zero bytes) -- " ++
        "nothing to summarize.")
    else
      match idx.fileSummary env fs root path with
      | none => .raised
      | some (summary, symbolCount, generated) =>
        .summary path summary symbolCount generated

/-- `get_ownership_metadata`. -/
def getOwnershipMetadata (env : Machine Blob) (fs : Store treeOf)
    (root : List String) (repository path : String) : Response :=
  match accepted fs root path with
  | none => noSuchFile repository path
  | some _ =>
    match RepoIndex.ownership env fs root path with
    | .error message => .error ⟨"upstream-unavailable", message⟩
    | .ok none =>
      .empty ("'" ++ path ++ "' has no CODEOWNERS entry and no commit " ++
        "history (untracked/new file).")
    | .ok (some result) => .ownership path result

/-- `refresh_repo`, after its `_resolve_repo`. -/
def refreshRepo (env : Machine Blob) (fs : Store treeOf)
    (root : List String) (idx : RepoIndex) : Response :=
  match (RepoIndex.refresh env.toPlatform idx (fs.repo (resolve root))).2 with
  | none => .raised
  | some result => .refreshed result

/-- The response of a tool that asks one repository, its path resolved and
its index at hand. -/
def answer (env : Machine Blob) (fs : Store treeOf) (root : List String)
    (idx : RepoIndex) : Tool → Response
  | .findDefinition repository symbol origin =>
    findDefinition idx repository symbol origin
  | .findReferences _ symbol origin includeTestFiles =>
    findReferences idx symbol origin includeTestFiles
  | .findCallers _ symbol origin cursor maxResults =>
    findCallers idx symbol origin cursor maxResults
  | .search query _ maxResults =>
    searchResults query (idx.search env query maxResults)
  | .fileModuleSummary repository path =>
    getFileModuleSummary env fs root idx repository path
  | .ownershipMetadata repository path =>
    getOwnershipMetadata env fs root repository path
  | .refresh _ => refreshRepo env fs root idx

/-- The index after a tool that asks one repository. -/
def indexAfter (env : Machine Blob) (fs : Store treeOf) (root : List String)
    (idx : RepoIndex) : Tool → RepoIndex
  | .refresh _ =>
    (RepoIndex.refresh env.toPlatform idx (fs.repo (resolve root))).1
  | _ => idx

/-- A tool on one repository. -/
def onRepository (env : Machine Blob) (reg : Registry) (fs : Store treeOf)
    (s : IndexService) (tenant repository : String) (tool : Tool) :
    IndexService × Response :=
  match checkedPath reg fs tenant repository with
  | .error e => (s, .error e)
  | .ok path =>
    let idx := indexOf env fs s path
    (s.keep path (indexAfter env fs path idx tool),
      answer env fs path idx tool)

/-- The loop of `search` over a tenant's repositories. -/
def searchAll (env : Machine Blob) (reg : Registry) (fs : Store treeOf)
    (tenant query : String) (maxResults : Int) :
    IndexService → List SearchHit → List String →
      IndexService × Except ToolError (List SearchHit)
  | s, results, [] => (s, .ok results)
  | s, results, repository :: repositories =>
    match checkedPath reg fs tenant repository with
    | .error e => (s, .error e)
    | .ok path =>
      let idx := indexOf env fs s path
      searchAll env reg fs tenant query maxResults (s.keep path idx)
        (results ++ idx.search env query maxResults) repositories

/-- The response of a search over all repositories. -/
def searchResponse (query : String) (maxResults : Int) :
    Except ToolError (List SearchHit) → Response
  | .error e => .error e
  | .ok results =>
    searchResults query
      (slice (sortBy (fun r => -r.score) results) 0 maxResults)

/-- The repository a tool asks; `none` is all of the tenant's. -/
def Tool.repository : Tool → Option String
  | .findDefinition repository _ _ => some repository
  | .findReferences repository _ _ _ => some repository
  | .findCallers repository _ _ _ _ => some repository
  | .search _ repository _ => repository.filter (· ≠ "")
  | .fileModuleSummary repository _ => some repository
  | .ownershipMetadata repository _ => some repository
  | .refresh repository => some repository

/-- The query and the bound of a search. -/
def Tool.searched : Tool → String × Int
  | .search query _ maxResults => (query, maxResults)
  | _ => ("", 0)

/-- A tool's body. -/
def perform (env : Machine Blob) (reg : Registry) (fs : Store treeOf)
    (s : IndexService) (tenant : String) (tool : Tool) :
    IndexService × Response :=
  match Tool.repository tool with
  | some repository => onRepository env reg fs s tenant repository tool
  | none =>
    let query := Tool.searched tool
    let found := searchAll env reg fs tenant query.1 query.2 s []
      (reg.repositoriesFor tenant)
    (found.1, searchResponse query.1 query.2 found.2)

/-- Whether a tool goes through `_call`; `refresh_repo` does not. -/
def Tool.limited : Tool → Bool
  | .refresh _ => false
  | _ => true

/-- `rate_limiter.check` on a call: the service after it, and the seconds
to wait if it is refused. -/
def checkRate (lim : RateLimiter) (s : IndexService) (e : Event treeOf) :
    IndexService × Option Int :=
  if Tool.limited e.tool then
    let checked := lim.check e.now (s.windows.get e.tenant)
    ({ s with windows := s.windows.set e.tenant checked.1 }, checked.2)
  else (s, none)

/-- A call. `refresh_repo`'s `ToolError` is raised and not returned. -/
def step (env : Machine Blob) (lim : RateLimiter) (reg : Registry)
    (s : IndexService) (e : Event treeOf) : IndexService × Response :=
  (checkRate lim s e).2.elim
    (perform env reg e.fs (checkRate lim s e).1 e.tenant e.tool)
    fun retryAfter => ((checkRate lim s e).1, .rateLimited retryAfter)

end IndexService

end SdlcOs.Index
