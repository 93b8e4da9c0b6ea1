import Peering.Text.FileText
import Peering.Decimal.Integer

/-!
# Folders

Paths are sequences of names; empty ones and single dots do not count. A folder
holds files at paths, and with them the folders on the way there. Paths may lead
out of it, to places of which nothing is known.
-/

namespace Peering

/-- A path, from the root of all files or from the current folder. -/
structure Path where
  /-- The slashes at its beginning: none, one, or two if there are exactly two. -/
  root : String := ""
  /-- The names on the way, two dots for the way back. -/
  names : List String
  deriving DecidableEq

namespace Path

/-- The slashes that count at the beginning of a text: two of them count twice, and more than
two only once. -/
def rootOf (s : String) : String :=
  match (s.toList.takeWhile (· = '/')).length with
  | 0 => ""
  | 2 => "//"
  | _ => "/"

/-- The names in a text. -/
def namesIn (s : String) : List String :=
  (s.splitOn "/").filter (fun name => name ≠ "" ∧ name ≠ ".")

/-- The path that a text writes. -/
def parse (s : String) : Path := { root := rootOf s, names := namesIn s }

/-- It begins at the root. -/
def isAbsolute (p : Path) : Bool := !p.root.isEmpty

/-- The text of a path, a dot for the current folder. -/
def text (p : Path) : String :=
  let joined := p.root ++ "/".intercalate p.names
  if joined.isEmpty then "." else joined

/-- The names left when every way back is taken together with the name before it. -/
def shorten (absolute : Bool) (way : List String) : List String → List String
  | [] => way
  | name :: rest =>
    if name = ".." then
      if way.isEmpty || way.getLast? = some ".." then
        shorten absolute (if absolute then way else way ++ [name]) rest
      else shorten absolute way.dropLast rest
    else shorten absolute (way ++ [name]) rest

/-- The path without ways back, apart from those at its beginning that lead out of the
current folder. -/
def shortened (p : Path) : Path := { p with names := shorten p.isAbsolute [] p.names }

/-- Where the path begins. -/
def start (p : Path) : Path := { root := if p.isAbsolute then "/" else "", names := [] }

/-- The path with one more name, without ways back if there were none before. -/
def next (p : Path) (name : String) : Path :=
  { p with names := shorten p.isAbsolute p.names [name] }

/-- The names on the way, if the path stays in the current folder. -/
def inside? (p : Path) : Option (List String) :=
  let names := p.shortened.names
  if p.isAbsolute || names.contains ".." then none else some names

end Path

/-- Why a file cannot be used. -/
inductive FileError where
  /-- There is nothing at the path. -/
  | missing
  /-- A file stands where a folder is to be made. -/
  | isAFile
  /-- A file stands where the path needs a folder. -/
  | notAFolder
  /-- A folder stands at the path. -/
  | isAFolder
  /-- The path or a name on it has too many bytes. -/
  | nameTooLong
  /-- Too many folders are to be made one inside of the other. -/
  | tooDeep
  /-- The path has a character with the number zero in it. -/
  | zeroInPath
  /-- The bytes of a path on which a folder is to be made have a zero among them. -/
  | zeroInBytes
  /-- The path has halves of characters in it that are no bytes: the first of them, the number of
  characters before it, and the number of halves there. -/
  | strayHalves (code before count : Nat)
  deriving DecidableEq

namespace FileError

/-- The number of the error, none if it has no number. -/
def number? : FileError → Option Nat
  | missing => some 2
  | isAFile => some 17
  | notAFolder => some 20
  | isAFolder => some 21
  | nameTooLong => some 36
  | tooDeep | zeroInPath | zeroInBytes | strayHalves _ _ _ => none

/-- The error in words. -/
def words : FileError → String
  | missing => "No such file or directory"
  | isAFile => "File exists"
  | notAFolder => "Not a directory"
  | isAFolder => "Is a directory"
  | nameTooLong => "File name too long"
  | tooDeep => "there are too many folders one inside of the other"
  | zeroInPath => "embedded null byte"
  | zeroInBytes => "mkdir: embedded null character in path"
  | strayHalves code before count => strayMessage code before count

/-- The message for a path. -/
def message (e : FileError) (p : Path) : String :=
  match e.number? with
  | some n => "[Errno " ++ intText n ++ "] " ++ e.words ++ ": " ++ quoted p.text
  | none => e.words

end FileError

/-- The bytes of a file. -/
abbrev Bytes := List UInt8

/-- Files by the names on the way to them. -/
structure Folder where
  /-- The files. -/
  files : List (List String × Bytes)
  /-- Folders that have been made, anywhere. -/
  made : List Path := []

namespace Folder

/-- The file at a path without ways back. Outside of the folder none is known. -/
def file? (f : Folder) (p : Path) : Option Bytes :=
  if p.isAbsolute then none else f.files.lookup p.names

/-- A folder stands at a path without ways back: at the beginning and on the ways back there, where
one has been made, and on the way to a file. -/
def isFolder (f : Folder) (p : Path) : Bool :=
  p.names.all (· = "..") || f.made.contains p ||
    (!p.isAbsolute && f.files.any fun e =>
      p.names.length < e.1.length && e.1.take p.names.length == p.names)

/-- The largest number of bytes in a name. -/
def longestName : Nat := 255

/-- The largest number of bytes in a path. -/
def longestPath : Nat := 4095

/-- A text that is to be a path or a part of one: there is no zero and no stray half in it. -/
def checkText (s : String) : Except FileError Unit :=
  match strayHalf? 0 (codesOf s.toList) with
  | some (code, before, count) => .error (.strayHalves code before count)
  | none => if s.contains '\x00' then .error .zeroInPath else .ok ()

/-- Goes on from a folder by one name, which may be one dot or two. Outside of the folder there are
only folders on the way back and those that have been made. -/
def enter (f : Folder) (place : Path) (name : String) : Except FileError Path :=
  if f.isFolder place then
    if name = "." then .ok place
    else if name ≠ ".." ∧ longestName < fileSize name then .error .nameTooLong
    else .ok (place.next name)
  else if (f.file? place).isSome then .error .notAFolder
  else .error .missing

/-- The bytes of the file at a path. -/
def read (f : Folder) (p : Path) : Except FileError Bytes := do
  checkText p.text
  if longestPath < fileSize p.text then throw .nameTooLong
  let place ← p.names.foldlM f.enter p.start
  match f.file? place with
  | some bytes => return bytes
  | none => throw (if f.isFolder place then .isAFolder else .missing)

end Folder

end Peering
