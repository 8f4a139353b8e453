/-!
A tree of directories and files with their octets, seen from one of its directories, the home.
Paths are lists of names. The way a path leads through the tree counts: each directory on it has to
be there, also those that two dots leave at once.
-/

set_option autoImplicit false
set_option relaxedAutoImplicit false

namespace Interpose

/-- Where a file or a directory is, from the home directory on: the names of the directories down to
it, after two dots for each directory to go up. -/
abbrev Path := List String

structure FileTree where
  directories : List Path
  files : List (Path × List UInt8)

namespace FileTree

/-- The tree with a home directory that has nothing in it. -/
def empty : FileTree := ⟨[], []⟩

def content? (t : FileTree) (p : Path) : Option (List UInt8) := t.files.lookup p

def isFile (t : FileTree) (p : Path) : Bool := (t.content? p).isSome

/-- There is a directory at a path. The home directory and those above it are always there. -/
def isDirectory (t : FileTree) (p : Path) : Bool :=
  p.all (· = "..") || t.directories.contains p

def above (p : Path) : Path := if p.all (· = "..") then p ++ [".."] else p.dropLast

/-- Where a name leads from a directory: a dot stays in it, and two dots go to the one above. -/
def step (p : Path) (name : String) : Path :=
  if name = "" || name = "." then p
  else if name = ".." then above p
  else p ++ [name]

/-- Where names lead one after the other from a path on, if all that they pass are directories. What
the last one leads to need not be there. -/
def follow? (t : FileTree) : (p : Path) → (names : List String) → Option Path
  | p, [] => some p
  | p, name :: rest => if t.isDirectory p then t.follow? (step p name) rest else none

/-- Makes the directory at a path if it is not there. Fails where there is a file. -/
def makeDirectory? (t : FileTree) (p : Path) : Option FileTree :=
  if t.isFile p then none
  else if t.isDirectory p then some t
  else some { t with directories := p :: t.directories }

/-- Makes every directory that names lead to one after the other from a path on. Gives the last. -/
def makeAlong? : (t : FileTree) → (p : Path) → (names : List String) → Option (FileTree × Path)
  | t, p, [] => some (t, p)
  | t, p, name :: rest =>
    (t.makeDirectory? (step p name)).bind fun t => makeAlong? t (step p name) rest

def remove (t : FileTree) (p : Path) : FileTree :=
  { t with files := t.files.filter fun e => e.1 ≠ p }

/-- Puts a file at a path, in place of one that is there. Fails where there is a directory. -/
def put? (t : FileTree) (p : Path) (content : List UInt8) : Option FileTree :=
  if t.isDirectory p then none
  else some { t with files := (p, content) :: (t.remove p).files }

/-- Writes the file that names lead to from the home directory on, and makes the directories on the
way to it. -/
def write? (t : FileTree) (names : List String) (content : List UInt8) : Option FileTree :=
  (t.makeAlong? [] names.dropLast).bind fun (t, directory) =>
    t.put? (step directory (names.getLast?.getD "")) content

end FileTree

end Interpose
