import QuokyPlatform.Foundations.PlainObject

/-!
# A file system

Files, directories and symbolic links under one root directory, and the calls a program makes on
them. A path is the list of its components below the root. A call follows the symbolic links of the
directories on its way, and of the last component where the call says so.
-/

namespace QuokyPlatform
set_option autoImplicit false
set_option maxHeartbeats 250000

abbrev Path := List String
abbrev Bytes := List UInt8

inductive Errno where
  | ENOENT
  | EEXIST
  | ENOTDIR
  | EISDIR
  | ELOOP
  | EPERM
  | ENOTEMPTY
  | EIO
  deriving DecidableEq, Repr

/-- What a path names. A file that is linked twice is two equal entries with one id. -/
inductive Entry where
  | file (id : ℕ) (mode : ℕ) (content : Bytes)
  | dir (id : ℕ)
  | symlink (id : ℕ) (absolute : Bool) (target : Path)
  deriving DecidableEq, Repr

namespace Entry

def id : Entry → ℕ
  | .file id _ _ => id
  | .dir id => id
  | .symlink id _ _ => id

def isFile : Entry → Bool
  | .file .. => true
  | _ => false

def isDirectory : Entry → Bool
  | .dir _ => true
  | _ => false

def isSymbolicLink : Entry → Bool
  | .symlink .. => true
  | _ => false

def mode : Entry → ℕ
  | .file _ mode _ => mode
  | _ => 0

def size : Entry → ℕ
  | .file _ _ content => content.length
  | _ => 0

/-- The entry, with another mode if it is this file. -/
def chmod (id mode : ℕ) : Entry → Entry
  | .file id' mode' content => .file id' (if id' = id then mode else mode') content
  | entry => entry

/-- The same kind of entry with the same data, whatever its id. -/
def SameData : Entry → Entry → Prop
  | .file _ mode content, .file _ mode' content' => mode = mode' ∧ content = content'
  | .dir _, .dir _ => True
  | .symlink _ absolute target, .symlink _ absolute' target' =>
    absolute = absolute' ∧ target = target'
  | _, _ => False

theorem SameData.refl (entry : Entry) : entry.SameData entry := by
  cases entry <;> simp [SameData]

end Entry

/-- The entries below the root directory, and the next unused id. -/
structure FileSystem where
  entries : PlainObject Path Entry
  next : ℕ

namespace FileSystem

def ROOT_ID : ℕ := 0

def entry (fs : FileSystem) : Path → Option Entry
  | [] => some (.dir ROOT_ID)
  | path => fs.entries.get path

def set (fs : FileSystem) (path : Path) (entry : Entry) : FileSystem :=
  { fs with entries := fs.entries.set path entry }

def delete (fs : FileSystem) (path : Path) : FileSystem :=
  { fs with entries := fs.entries.delete path }

/-- The trees hold the same: the same paths, with the same data. -/
def SameTree (fs other : FileSystem) : Prop :=
  ∀ path, Option.Rel Entry.SameData (fs.entry path) (other.entry path)

/-- Every entry lies in a directory, and its id was given out. -/
structure WellFormed (fs : FileSystem) : Prop where
  parent : ∀ path name entry, fs.entry (path ++ [name]) = some entry →
    ∃ id, fs.entry path = some (.dir id)
  fresh : ∀ path entry, fs.entry path = some entry → entry.id < fs.next

/-! ## Resolution -/

def MAX_SYMLINKS : ℕ := 40

/-- The rest of a path from a directory; `follow` goes on behind a symbolic link. -/
def walkWith (fs : FileSystem) (follow : Path → Path → Except Errno Path) :
    Path → Path → Except Errno Path
  | dir, [] => .ok dir
  | dir, name :: rest =>
    if name = ".." then walkWith fs follow dir.dropLast rest
    else match fs.entry (dir ++ [name]) with
      | none => .error .ENOENT
      | some (.dir _) => walkWith fs follow (dir ++ [name]) rest
      | some (.file ..) => if rest = [] then .ok (dir ++ [name]) else .error .ENOTDIR
      | some (.symlink _ absolute target) => follow (if absolute then [] else dir) (target ++ rest)

/-- The rest of a path from a directory, with so many symbolic links left to follow. -/
def walk (fs : FileSystem) : ℕ → Path → Path → Except Errno Path
  | 0 => walkWith fs fun _ _ => .error .ELOOP
  | links + 1 => walkWith fs (walk fs links)

def realpath (fs : FileSystem) (path : Path) : Except Errno Path := walk fs MAX_SYMLINKS [] path

/-- Where a path is that may not exist: its last component, never followed, in its real parent. -/
def locate (fs : FileSystem) (path : Path) : Except Errno Path :=
  match path.getLast? with
  | none => .error .EPERM
  | some name => do
    let parent ← fs.realpath path.dropLast
    match fs.entry parent with
    | some (.dir _) => .ok (parent ++ [name])
    | _ => .error .ENOTDIR

/-! ## Calls -/

/-- An entry that is there. -/
def present (fs : FileSystem) (path : Path) : Except Errno Entry :=
  match fs.entry path with
  | some entry => .ok entry
  | none => .error .ENOENT

def lstat (fs : FileSystem) (path : Path) : Except Errno Entry := do
  if path = [] then fs.present []
  else fs.present (← fs.locate path)

def stat (fs : FileSystem) (path : Path) : Except Errno Entry := do
  fs.present (← fs.realpath path)

def readFile (fs : FileSystem) (path : Path) : Except Errno Bytes := do
  match ← fs.stat path with
  | .file _ _ content => .ok content
  | _ => .error .EISDIR

/-- A new entry with the next id, where there is none. -/
def create (fs : FileSystem) (path : Path) (entry : ℕ → Entry) : Except Errno FileSystem := do
  let place ← fs.locate path
  match fs.entry place with
  | some _ => .error .EEXIST
  | none => .ok { fs.set place (entry fs.next) with next := fs.next + 1 }

def mkdir (fs : FileSystem) (path : Path) : Except Errno FileSystem := fs.create path .dir

/-- `O_CREAT | O_EXCL` -/
def writeNew (fs : FileSystem) (path : Path) (mode : ℕ) (content : Bytes) :
    Except Errno FileSystem :=
  fs.create path fun id => .file id mode content

def chmod (fs : FileSystem) (path : Path) (mode : ℕ) : Except Errno FileSystem := do
  match ← fs.stat path with
  | .file id _ _ => .ok { fs with entries := fs.entries.map (Entry.chmod id mode) }
  | _ => .error .EPERM

/-- The rename of a file; only files are renamed here. -/
def rename (fs : FileSystem) (path target : Path) : Except Errno FileSystem := do
  let source ← fs.locate path
  let place ← fs.locate target
  match ← fs.present source, fs.entry place with
  | .file .., some (.dir _) => .error .EISDIR
  | .file id mode content, there =>
    if there.any (fun e => e.isFile && e.id == id) then .ok fs
    else .ok ((fs.delete source).set place (.file id mode content))
  | _, _ => .error .EPERM

def link (fs : FileSystem) (path target : Path) : Except Errno FileSystem := do
  let source ← fs.locate path
  let place ← fs.locate target
  match ← fs.present source, fs.entry place with
  | _, some _ => .error .EEXIST
  | .dir _, none => .error .EPERM
  | entry, none => .ok (fs.set place entry)

def unlink (fs : FileSystem) (path : Path) : Except Errno FileSystem := do
  let place ← fs.locate path
  match ← fs.present place with
  | .dir _ => .error .EPERM
  | _ => .ok (fs.delete place)

/-- Whether a directory has no entry. -/
def isEmpty (fs : FileSystem) (place : Path) : Bool :=
  fs.entries.keys.all fun path => path.dropLast ≠ place || path = []

def rmdir (fs : FileSystem) (path : Path) : Except Errno FileSystem := do
  let place ← fs.locate path
  match ← fs.present place with
  | .dir _ => if fs.isEmpty place then .ok (fs.delete place) else .error .ENOTEMPTY
  | _ => .error .ENOTDIR

end FileSystem

end QuokyPlatform
