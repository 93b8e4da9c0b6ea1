import Peering.Folder

/-!
# Making folders

Before a file is written, the folders on the way to it are made. The way is taken as
the text of the path has it, so a way back is taken from a folder that has just been
made; the file itself is looked for without ways back.
-/

namespace Peering.Folder

/-- A name on the way to a folder. -/
structure Step where
  /-- The name, one dot or two included. -/
  name : String
  /-- The number of bytes in the path as far as the end of the name. -/
  size : Nat

/-- The steps of a path, given the names and empty texts between its slashes and the number of bytes
before them. -/
def stepsOf (size : Nat) : List String → List Step
  | [] => []
  | name :: rest =>
    let reached := size + fileSize name
    let others := stepsOf (reached + 1) rest
    if name = "" then others else ⟨name, reached⟩ :: others

/-- Something stands at a place. -/
def stands (f : Folder) (place : Path) : Bool := f.isFolder place || (f.file? place).isSome

/-- The place to which a step leads, if something stands there. -/
def follow? (f : Folder) (place : Path) (s : Step) : Option Path :=
  match checkText s.name, f.enter place s.name with
  | .ok (), .ok next => if s.size ≤ longestPath && f.stands next then some next else none
  | _, _ => none

/-- Follows steps as far as something stands there, and not the last one. What is left begins at the
place that is reached. -/
def followAll (f : Folder) (place : Path) : List Step → Path × List Step
  | [] => (place, [])
  | [last] => (place, [last])
  | s :: rest =>
    match f.follow? place s with
    | some next => f.followAll next rest
    | none => (place, s :: rest)

/-- Makes the folder at a step unless there is one. A file in its place is an error at the last step
only: at another one it is found when the next folder is to be made in it. -/
def makeStep (f : Folder) (place : Path) (s : Step) (last : Bool) :
    Except FileError (Folder × Path) := do
  checkText s.name
  if longestPath < s.size then throw .nameTooLong
  let next ← f.enter place s.name
  if f.isFolder next then return (f, next)
  else if (f.file? next).isNone then return ({ f with made := next :: f.made }, next)
  else if last then throw .isAFile
  else return (f, next)

/-- Makes the folders of steps one after the other. Nothing is made for a dot. -/
def makeSteps (f : Folder) (place : Path) : List Step → Except FileError Folder
  | [] => .ok f
  | s :: rest =>
    if s.name = "." then f.makeSteps place rest
    else
      match f.makeStep place s rest.isEmpty with
      | .error e => .error e
      | .ok (f, place) => f.makeSteps place rest

/-- So many folders may be made one inside of the other. -/
def makingRoom : Nat := 985

/-- Makes the folders of steps as far as there is nothing. What comes first is always made, even
for a dot. -/
def makeFolders (f : Folder) (place : Path) (steps : List Step) : Except FileError Folder :=
  match f.followAll place steps with
  | (_, []) => .ok f
  | (place, s :: rest) =>
    if makingRoom ≤ rest.length then .error .tooDeep
    else
      match f.makeStep place s rest.isEmpty with
      | .error e => .error e
      | .ok (f, place) => f.makeSteps place rest

/-- A file can be written at a place, if there is a folder for it and no folder stands there. -/
def checkWritable (f : Folder) (place : Path) : Except FileError Unit :=
  let outer := { place with names := place.names.dropLast }
  if f.isFolder place then .error .isAFolder
  else if longestName < fileSize (place.names.getLastD "") then .error .nameTooLong
  else if f.isFolder outer then .ok ()
  else if (f.file? outer).isSome then .error .notAFolder
  else .error .missing

/-- Makes ready to write to the file at a path, which may be given as bytes: makes the folders on
the way and finds the file. The result is the path of the file without ways back. -/
def prepare (f : Folder) (s : String) (asBytes : Bool) : Except FileError Path := do
  let p := Path.parse s
  let f ← (f.makeFolders p.start (stepsOf 0 (s.splitOn "/").dropLast)).mapError fun e =>
    if e = .zeroInPath && asBytes then .zeroInBytes else e
  checkText s
  let p := p.shortened
  if longestPath < fileSize p.text then throw .nameTooLong
  f.checkWritable { p.start with names := p.names }
  return p

end Peering.Folder
