import Mathlib.Data.List.Basic

/-!
# Re-export chains (`modules/ontology/resolver/cascade.ts`, `path-resolution.ts`)

The file nodes and the definition nodes of a graph, and the walk from an export to the definition
behind it. Of a node, only what the walk reads is here.
-/

namespace WorkflowBoard.Ontology

/-! ## Paths, with what they use of `node:path/posix` -/

namespace PosixPath

def dirname : List Char → List Char
  | [] => ['.']
  | c :: path =>
    -- the last name goes with the separators behind it, and with one before it
    match (path.reverse.dropWhile (· = '/')).dropWhile (· ≠ '/') with
    | [] => if c = '/' then ['/'] else ['.']
    | _ :: before => if c = '/' ∧ before = [] then ['/', '/'] else c :: before.reverse

/-- A segment in `normalizeString`: `..` takes away the segment before it. The last comes first. -/
def normalizeSegment (allowAboveRoot : Bool) (res : List (List Char)) (segment : List Char) :
    List (List Char) :=
  if segment = [] ∨ segment = ['.'] then res
  else if segment = ['.', '.'] then
    match res with
    | [] => if allowAboveRoot then [segment] else []
    | last :: rest =>
      if last ≠ ['.', '.'] then rest else if allowAboveRoot then segment :: res else res
  else segment :: res

def normalize (path : List Char) : List Char :=
  if path = [] then ['.'] else
  let isAbsolute : Bool := path.head? = some '/'
  let trailingSeparator : Bool := path.getLast? = some '/'
  let segments := (path.splitOn '/').foldl (normalizeSegment !isAbsolute) []
  let res := ['/'].intercalate segments.reverse
  if res = [] then
    if isAbsolute then ['/'] else if trailingSeparator then ['.', '/'] else ['.']
  else
    (if isAbsolute then ['/'] else []) ++ res ++ if trailingSeparator then ['/'] else []

def join (dir name : List Char) : List Char :=
  match [dir, name].filter (· ≠ []) with
  | [] => ['.']
  | parts => normalize (['/'].intercalate parts)

end PosixPath

def candidateExtensions : List String :=
  ["", ".ts", ".tsx", ".js", ".jsx", ".mts", ".cts", ".mjs", ".cjs"]

def indexBasenames : List String := ["index.ts", "index.tsx", "index.js", "index.jsx"]

/-- The paths that a relative source may mean, the first ones first. -/
def resolveRelativeImportCandidates (fromFilePath source : String) : List String :=
  if source.toList.head? = some '.' then
    let fromDir := PosixPath.dirname fromFilePath.toList
    let joined := PosixPath.normalize (PosixPath.join fromDir source.toList)
    candidateExtensions.map (String.ofList joined ++ ·) ++
      indexBasenames.map fun idx => String.ofList (PosixPath.join joined idx.toList)
  else []

/-! ## The index -/

structure ExportFact where
  localName : String
  exportedName : String
  reExportSource : Option String
deriving DecidableEq

structure FileNodeInfo where
  path : String
  exports : List ExportFact
deriving DecidableEq

structure DefNodeInfo where
  id : String
  symbolId : String
  name : String
  qualifiedName : String
  path : String
deriving DecidableEq

/-- The nodes in the order in which `addFile` and `addDef` had them. -/
structure GraphSymbolIndex where
  files : List FileNodeInfo
  defs : List DefNodeInfo

namespace GraphSymbolIndex

/-- `filesByPath.get`: a later file of a path has replaced an earlier one. -/
def fileByPath (index : GraphSymbolIndex) (path : String) : Option FileNodeInfo :=
  index.files.reverse.find? (·.path = path)

def defsByFilePath (index : GraphSymbolIndex) (path : String) : List DefNodeInfo :=
  index.defs.filter (·.path = path)

end GraphSymbolIndex

/-! ## The walk -/

def MAX_REEXPORT_HOPS : Nat := 8

/-- A top-level definition of the name, or else any. -/
def findDefInFileByName (index : GraphSymbolIndex) (filePath name : String) : Option DefNodeInfo :=
  let byFile := index.defsByFilePath filePath
  (byFile.find? fun d => d.name = name && d.qualifiedName = d.name).or
    (byFile.find? (·.name = name))

/-- The export of a name that has a source. -/
def FileNodeInfo.reexport (file : FileNodeInfo) (name : String) : Option ExportFact :=
  file.exports.find? fun e => e.exportedName = name && e.reExportSource.any (· ≠ "")

/-- The files that the source of an export may mean. -/
def hopTargets (index : GraphSymbolIndex) (file : FileNodeInfo) (reexport : ExportFact) :
    List FileNodeInfo :=
  (resolveRelativeImportCandidates file.path (reexport.reExportSource.getD "")).filterMap
    index.fileByPath

/-- What a call returns, and the set `visited` after it; `none` is for out of fuel. -/
abbrev Followed := Option (Option DefNodeInfo × List String)

/-- The loop over the targets, up to the first that leads to a definition. -/
def followFirst (follow : FileNodeInfo → List String → Followed) :
    List FileNodeInfo → List String → Followed
  | [], visited => some (none, visited)
  | nextFile :: files, visited =>
    match follow nextFile visited with
    | none => none
    | some (some next, visited) => some (some next, visited)
    | some (none, visited) => followFirst follow files visited

/-- All calls share one set `visited`, which has the paths of files. -/
def followReexportChain (index : GraphSymbolIndex) :
    Nat → FileNodeInfo → String → List String → Followed
  | 0, _, _, _ => none
  | fuel + 1, file, name, visited =>
    if file.path ∈ visited ∨ MAX_REEXPORT_HOPS ≤ visited.length then some (none, visited)
    else
      let visited := file.path :: visited
      match file.reexport name with
      | some reexport =>
        followFirst (fun nextFile => followReexportChain index fuel nextFile reexport.localName)
          (hopTargets index file reexport) visited
      | none => some (findDefInFileByName index file.path name, visited)

end WorkflowBoard.Ontology
