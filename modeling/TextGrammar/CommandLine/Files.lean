import TextGrammar.Fault
import TextGrammar.Table

/-!
# Files

A tree of files as a table from paths to contents. A path is followed part by part:
`.` and repeated slashes mean nothing, `..` goes back up, and everything but the last
part has to be a directory.
-/

namespace TextGrammar

inductive FileEntry where
  | file (bytes : List UInt8)
  | directory
  deriving Repr

/-- Contents by path, relative to the place where the program runs. -/
abbrev Files := Table String FileEntry

namespace Files

/-- The parts of a path, without those that mean nothing. -/
def parts (path : String) : List String :=
  (path.splitOn "/").filter fun part => part != "" && part != "."

/-- A path in its shortest spelling; an empty path is the current directory. -/
def tidyPath (path : String) : String :=
  let joined := "/".intercalate (parts path)
  if path.startsWith "/" then "/" ++ joined
  else if joined.isEmpty then "." else joined

/-- Whether the path can only mean a directory. -/
def endsAsDirectory (path : String) : Bool := path.endsWith "/" || path.endsWith "/."

def entryAt (files : Files) (place : List String) : Option FileEntry :=
  if place.isEmpty then some .directory
  else
    let name := "/".intercalate place
    match files.find? fun e => parts e.1 == place with
    | some (_, entry) => some entry
    | none =>
      -- a directory is known by what lies in it
      if files.any fun e => (name ++ "/").isPrefixOf ("/".intercalate (parts e.1)) then
        some .directory
      else none

/-- Follows the parts of a path from a directory. The result is where it ends. -/
def follow (files : Files) (path : String) :
    List String → List String → Except FileFault (List String)
  | place, [] => .ok place
  | place, part :: rest =>
    match files.entryAt place with
    | some .directory =>
      if part = ".." then follow files path place.dropLast rest
      else follow files path (place ++ [part]) rest
    | some (.file _) => .error (.notDirectory path)
    | none => .error (.notFound path)

def read (files : Files) (path : String) : Except FileFault (List UInt8) :=
  if path.toList.contains '\x00' then .error .nullInPath
  else if path.isEmpty || path.startsWith "/" then .error (.notFound path)
  else do
    let place ← files.follow path [] (parts path)
    match files.entryAt place with
    | some (.file bytes) =>
      if endsAsDirectory path then .error (.notDirectory path) else .ok bytes
    | some .directory => .error (.isDirectory path)
    | none => .error (.notFound path)

end Files

/-- Reads the bytes of a file by its path. -/
abbrev FileReader := String → Except FileFault (List UInt8)

/-- The text of a file, with its line breaks normalised. -/
def readText (read : FileReader) (path : String) : Except Fault (List Char) :=
  match read path with
  | .error f => .error (.file f)
  | .ok bytes =>
    match decodeUtf8 bytes with
    | .error f => .error (.file (.notUtf8 f))
    | .ok text => .ok (normalizeBreaks text)

end TextGrammar
