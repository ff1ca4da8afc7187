import Mos6502.Run

namespace Mos6502

/-- Where names start: at the root, or some steps above the current directory. -/
inductive Origin where
  | root
  | above (steps : Nat)
  deriving DecidableEq

/-- A place among files and folders, by the names that lead down to it. -/
structure Place where
  origin : Origin
  names : List String := []
  deriving DecidableEq

namespace Place

/-- The root is its own parent. -/
def parent : Place → Place
  | ⟨.root, []⟩ => ⟨.root, []⟩
  | ⟨.above steps, []⟩ => ⟨.above (steps + 1), []⟩
  | ⟨origin, name :: names⟩ => ⟨origin, (name :: names).dropLast⟩

/-- Where one name of a path leads. An empty name and a dot both stay. -/
def step (p : Place) (name : String) : Place :=
  if name = "" || name = "." then p
  else if name = ".." then p.parent
  else { p with names := p.names ++ [name] }

def start (path : String) : Place := if path.startsWith "/" then ⟨.root, []⟩ else ⟨.above 0, []⟩

/-- The places that names lead through, one for each name. -/
def along (p : Place) : List String → List Place
  | [] => []
  | name :: rest => p.step name :: (p.step name).along rest

end Place

/-- Files and folders, the root and the current directory being folders always. -/
structure Directory where
  files : List (Place × List UInt8) := []
  folders : List Place := []

namespace Directory

/-- Adds an entry, and as a folder every place on the way to it. A path that ends in a slash names
a folder. -/
def add (d : Directory) (path : String) (content : List UInt8) : Directory :=
  let places := (Place.start path).along (path.splitOn "/")
  match places.getLast? with
  | some last =>
    if path.endsWith "/" then { d with folders := places ++ d.folders }
    else { files := (last, content) :: d.files, folders := places.dropLast ++ d.folders }
  | none => d

/-- What every system holds: a folder for temporary files, and a device that reads as empty. -/
def standard : Directory := (({} : Directory).add "/tmp/" []).add "/dev/null" []

def file (d : Directory) (p : Place) : Option (List UInt8) := d.files.lookup p

def hasFolder (d : Directory) (p : Place) : Bool := p.names.isEmpty || d.folders.contains p

def longestName : Nat := 255

def longestPath : Nat := 4095

/-- Follows names from a folder. -/
def follow (d : Directory) (p : Place) : List String → Except ReadError (List UInt8)
  | [] => .error .isADirectory
  | name :: rest =>
    if longestName < name.utf8ByteSize then .error .nameTooLong
    else
      let next := p.step name
      match d.file next with
      | some content => if rest.isEmpty then .ok content else .error .notADirectory
      | none => if d.hasFolder next then d.follow next rest else .error .notFound

/-- The content of the file at a path. -/
def read (d : Directory) (path : String) : Except ReadError (List UInt8) :=
  if path.contains '\x00' then .error (.other "file name contained an unexpected NUL byte")
  else if path = "" then .error .notFound
  else if longestPath < path.utf8ByteSize then .error .nameTooLong
  else d.follow (Place.start path) (path.splitOn "/")

end Directory

end Mos6502
