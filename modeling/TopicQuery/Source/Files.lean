import TopicQuery.Iri.Parse
import TopicQuery.Source

/-!
Documents in files. What a file system has to tell is a record, so that the same
code serves the disk and a tree of files held in memory.
-/

namespace TopicQuery

/-- What can be asked of a file system, with effects in `m`. -/
structure Files (m : Type → Type) where
  /-- The absolute name of a file or directory, without links. -/
  canonical : String → m (Except FileFault String)
  /-- Whether a name is that of a file. -/
  isFile : String → m Bool
  /-- The content of a file. -/
  contents : String → m (Except FileFault (List UInt8))

namespace Files

variable {m : Type → Type} [Monad m]

/-- The content of a file, or why it has none. -/
def read (files : Files m) (name : String) : m SourceContent := do
  match ← files.contents name with
  | .ok bytes => return .bytes bytes
  | .error fault => return .unreadable fault

/-- The document in a file that is named by a user. -/
def openNamed (files : Files m) (name : String) : m (Except Failure Source) := do
  match ← files.canonical name with
  | .error fault => return .error (.source (.cannotOpen name fault))
  | .ok path => do
    let content ← files.read path
    return .ok ⟨content, Iri.ofFileName path.toList⟩

/-- The document an IRI stands for; only IRIs of the file scheme stand for one. -/
def source? (files : Files m) (iri : Iri) : m (Except Failure (Option Source)) := do
  if iri.scheme ≠ "file" then return .ok none
  else
    match Iri.fileName? iri with
    | none => return .error (.source (.noLocalPath iri))
    | some bytes =>
      match Text.Utf8.decode bytes with
      | .error _ => return .error (.source (.moduleNotFound iri))
      | .ok name => do
        let name := String.ofList name
        if ← files.isFile name then
          let content ← files.read name
          return .ok (some ⟨content, iri⟩)
        else return .error (.source (.moduleNotFound iri))

end Files

/-! ## Files in memory -/

/-- Files by the segments of their absolute names, and the directory names are relative to. -/
structure FileTree where
  files : List (List String × List UInt8)
  current : List String
  deriving DecidableEq, Repr

namespace FileTree

/-- What a name stands for. -/
inductive Entry
  | file (bytes : List UInt8)
  | directory
  deriving DecidableEq, Repr

/-- The entry with the given segments. -/
def entry? (t : FileTree) (path : List String) : Option Entry :=
  match t.files.find? (·.1 == path) with
  | some (_, bytes) => some (.file bytes)
  | none =>
    if path.isPrefixOf t.current || t.files.any (path.isPrefixOf ·.1) then some .directory else none

/-- The segments of a name. -/
def segments (name : List Char) : List String :=
  match name with
  | [] => [""]
  | c :: cs =>
    if c = '/' then "" :: segments cs
    else
      match segments cs with
      | [] => [String.ofList [c]]
      | s :: rest => String.ofList (c :: s.toList) :: rest

/-- Follows the segments of a name from an entry on. -/
def walk (t : FileTree) (path : List String) (entry : Entry) :
    List String → Except FileFault (List String × Entry)
  | [] => .ok (path, entry)
  | s :: rest =>
    match entry with
    | .file _ => .error .notDirectory
    | .directory =>
      if s = "" ∨ s = "." then t.walk path .directory rest
      else if s = ".." then t.walk path.dropLast .directory rest
      else if 255 < s.utf8ByteSize then .error .nameTooLong
      else
        match t.entry? (path ++ [s]) with
        | some entry => t.walk (path ++ [s]) entry rest
        | none => .error .notFound

/-- The entry with a name. -/
def find (t : FileTree) (name : String) : Except FileFault (List String × Entry) :=
  if name.toList.contains '\x00' then .error .badName
  else
    match name.toList with
    | [] => .error .notFound
    | '/' :: cs => t.walk [] .directory (segments cs)
    | cs => t.walk t.current .directory (segments cs)

/-- An absolute name. -/
def absolute (path : List String) : String :=
  if path.isEmpty then "/" else String.join (path.map ("/" ++ ·))

/-- What the tree tells of its files. -/
def toFiles (t : FileTree) : Files Id where
  canonical name := pure ((t.find name).map fun (path, _) => absolute path)
  isFile name := pure <|
    match t.find name with
    | .ok (_, .file _) => true
    | _ => false
  contents name := pure <|
    match t.find name with
    | .ok (_, .file bytes) => .ok bytes
    | .ok (_, .directory) => .error .isDirectory
    | .error fault => .error fault

end FileTree

end TopicQuery
