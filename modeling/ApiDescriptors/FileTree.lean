import ApiDescriptors.Text.Split

/-!
A file system, as far as the commands use it: text files, directories, and paths that lead to them.
-/

namespace ApiDescriptors

-- Files and directories are known by the names on the way to them from the root. A directory with a
-- file in it need not be listed, and neither need the one where relative paths start.
structure FileTree where
  files       : List (List String × String)
  directories : List (List String) := []
  -- Where relative paths start.
  current     : List String        := []

namespace FileTree

-- Paths

-- The names in a path. Some may be empty or stand for a directory that was passed before.
def names (path : String) : List String :=
  (splitAt '/' path.toList).map String.ofList

-- The place that a name leads to from another place. Above the root there is the root again.
def step (place : List String) (name : String) : List String :=
  if name = "" ∨ name = "." then place
  else if name = ".." then place.dropLast
  else place ++ [name]

-- A name in a directory, as a path.
def join (directory name : String) : String :=
  match directory.toList.getLast? with
  | none | some '/' => directory ++ name
  | _               => directory ++ "/" ++ name

-- The directory that a path lies in, as a path: what stands before the last name.
def parent (path : String) : String :=
  String.ofList (path.toList.reverse.dropWhile (· ≠ '/')).reverse

def start (t : FileTree) (path : String) : List String :=
  if path.toList.head? = some '/' then [] else t.current

-- Looking things up

def ofFiles (files : List (String × String)) : FileTree where
  files := files.map fun (path, contents) => (names path, contents)

def contents? (t : FileTree) (place : List String) : Option String :=
  t.files.lookup place

def isFile (t : FileTree) (place : List String) : Bool :=
  (t.contents? place).isSome

def isDirectory (t : FileTree) (place : List String) : Bool :=
  place.isPrefixOf t.current || place ∈ t.directories ||
    t.files.any fun (file, _) => place ≠ file ∧ place.isPrefixOf file

-- Names lead on from directories only.
def follow? (t : FileTree) (place : List String) (name : String) : Option (List String) :=
  if t.isDirectory place then some (step place name) else none

-- The place that a path leads to. There need not be anything.
def place? (t : FileTree) (path : String) : Option (List String) :=
  (names path).foldlM t.follow? (t.start path)

def has (t : FileTree) (path : String) : Bool :=
  (t.place? path).any fun place => t.isFile place || t.isDirectory place

def read? (t : FileTree) (path : String) : Option String :=
  (t.place? path).bind t.contents?

-- The files of `after` that are new or have other contents than before.
def changes (before after : FileTree) : List (String × String) :=
  (after.files.filter fun (place, contents) => before.contents? place ≠ some contents).map
    fun (place, contents) => ("/".intercalate place, contents)

-- Making directories and writing files

def makeDirectory (t : FileTree) (place : List String) : FileTree :=
  if t.isDirectory place then t else { t with directories := place :: t.directories }

-- Makes the directories along a path one after the other, as far as they are missing. Where a file
-- is in the way, those before it stay.
def makeAlong (t : FileTree) (place : List String) : List String → FileTree × Bool
  | []            => (t, true)
  | name :: names =>
    let next := step place name
    if t.isFile next then (t, false) else (t.makeDirectory next).makeAlong next names

def makeDirectories (t : FileTree) (path : String) : FileTree × Bool :=
  t.makeAlong (t.start path) (names path)

def put (t : FileTree) (place : List String) (contents : String) : FileTree :=
  { t with files := (place, contents) :: t.files.filter (·.1 ≠ place) }

-- Writes a file, which must not be a directory.
def write? (t : FileTree) (path contents : String) : Option FileTree := do
  let place ← t.place? path
  if t.isDirectory place then none else some (t.put place contents)

end FileTree
end ApiDescriptors
