import QuokyPlatform.Foundations.FileSystem

/-!
# File-system calls that may throw

The program that applies a change set makes one call after the other. At most one of its calls
throws without being refused by the file system: the one at a given place in their sequence. It has
no effect, but an exclusive write may leave a part of its file. What the calls acted on is recorded;
the program does not see the record.
-/

namespace QuokyPlatform.WorkspaceWrites
set_option autoImplicit false
set_option maxHeartbeats 250000

inductive FsError where
  | errno (code : Errno)
  | refused (message : String)
  deriving DecidableEq, Repr

inductive FsCall where
  | lstat (path : Path)
  | stat (path : Path)
  | realpath (path : Path)
  | readFile (path : Path)
  | mkdir (path : Path)
  | writeNew (path : Path)
  | chmod (path : Path)
  | rename (path target : Path)
  | link (path target : Path)
  | unlink (path : Path)
  | rmdir (path : Path)
  deriving DecidableEq, Repr

/-- The call that throws, and the one before it. -/
structure Thrown where
  call : FsCall
  after : Option FsCall
  deriving DecidableEq, Repr

/-- Which call throws, with which code, and what it leaves of a file it should have written. A call
that says that something is missing or there already says it truly. -/
structure Fault where
  place : Option ℕ
  torn : Option Bytes
  code : Errno
  untruth : code ≠ .ENOENT ∧ code ≠ .EEXIST

/-- A directory the apply made; `rel` is the path it was made for. -/
structure CreatedDir where
  dir : Path
  id : ℕ
  rel : String
  deriving DecidableEq, Repr

/-- The file system, the local variables of the apply, and the record of its calls. -/
structure World where
  fs : FileSystem
  drawn : ℕ
  tmpFiles : PlainObject Path (Option ℕ)
  createdDirs : List CreatedDir
  staged : PlainObject ℕ (Path × Option ℕ)
  promoted : List ℕ
  current : ℕ
  calls : ℕ
  last : Option FsCall
  threw : Option Thrown
  touched : List Path

def World.start (fs : FileSystem) : World where
  fs := fs
  drawn := 0
  tmpFiles := .empty
  createdDirs := []
  staged := .empty
  promoted := []
  current := 0
  calls := 0
  last := none
  threw := none
  touched := []

/-- A computation that keeps what it did when it throws. -/
def Fs (α : Type) := World → Except FsError α × World

namespace Fs

variable {α β : Type}

instance : Monad Fs where
  pure a w := (.ok a, w)
  bind p rest w :=
    match p w with
    | (.ok a, w') => rest a w'
    | (.error e, w') => (.error e, w')

def raise (e : FsError) : Fs α := fun w => (.error e, w)

/-- `throw new Error(message)` -/
def refuse (message : String) : Fs α := raise (.refused message)

/-- `try`: the result of the call as a value. -/
def attempt (p : Fs α) : Fs (Except FsError α) := fun w => (.ok (p w).1, (p w).2)

def get : Fs World := fun w => (.ok w, w)

def update (f : World → World) : Fs Unit := fun w => (.ok (), f w)

end Fs

/-! ## The calls -/

/-- The place a path is at, if there is one. -/
def placeOf (place : Except Errno Path) : List Path :=
  match place with
  | .ok path => [path]
  | .error _ => []

/-- The places a call changes. -/
def FsCall.places (fs : FileSystem) : FsCall → List Path
  | .mkdir path => placeOf (fs.locate path)
  | .writeNew path => placeOf (fs.locate path)
  | .chmod path => placeOf (fs.realpath path)
  | .rename path target => placeOf (fs.locate path) ++ placeOf (fs.locate target)
  | .link _ target => placeOf (fs.locate target)
  | .unlink path => placeOf (fs.locate path)
  | .rmdir path => placeOf (fs.locate path)
  | _ => []

section
variable (fault : Fault)

/-- One call: it throws at its place in the sequence, and otherwise does what the file system
says. -/
def call {α : Type} (what : FsCall) (op : FileSystem → Except Errno (α × FileSystem))
    (torn : FileSystem → FileSystem) : Fs α := fun w =>
  let w' := { w with
    calls := w.calls + 1, last := some what, touched := what.places w.fs ++ w.touched }
  if fault.place = some w.calls then
    (.error (.errno fault.code), { w' with threw := some ⟨what, w.last⟩, fs := torn w.fs })
  else match op w.fs with
    | .ok (a, fs) => (.ok a, { w' with fs := fs })
    | .error e => (.error (.errno e), w')

/-- A call that changes nothing. -/
def observe {α : Type} (what : FsCall) (op : FileSystem → Except Errno α) : Fs α :=
  call fault what (fun fs => (op fs).map fun a => (a, fs)) id

/-- A call that changes the file system. -/
def change (what : FsCall) (op : FileSystem → Except Errno FileSystem)
    (torn : FileSystem → FileSystem) : Fs Unit :=
  call fault what (fun fs => (op fs).map fun next => ((), next)) torn

def lstatSync (path : Path) : Fs Entry := observe fault (.lstat path) fun fs => fs.lstat path

def statSync (path : Path) : Fs Entry := observe fault (.stat path) fun fs => fs.stat path

def realpathSync (path : Path) : Fs Path := observe fault (.realpath path) fun fs => fs.realpath path

def readFileSync (path : Path) : Fs Bytes := observe fault (.readFile path) fun fs => fs.readFile path

def mkdirSync (path : Path) : Fs Unit := change fault (.mkdir path) (fun fs => fs.mkdir path) id

/-- What a write that throws leaves. -/
def tornWrite (path : Path) (mode : ℕ) (fs : FileSystem) : FileSystem :=
  match fault.torn with
  | some part => (fs.writeNew path mode part).toOption.getD fs
  | none => fs

def writeFileSync (path : Path) (mode : ℕ) (content : Bytes) : Fs Unit :=
  change fault (.writeNew path) (fun fs => fs.writeNew path mode content) (tornWrite fault path mode)

def chmodSync (path : Path) (mode : ℕ) : Fs Unit :=
  change fault (.chmod path) (fun fs => fs.chmod path mode) id

def renameSync (path target : Path) : Fs Unit :=
  change fault (.rename path target) (fun fs => fs.rename path target) id

def linkSync (path target : Path) : Fs Unit :=
  change fault (.link path target) (fun fs => fs.link path target) id

def unlinkSync (path : Path) : Fs Unit := change fault (.unlink path) (fun fs => fs.unlink path) id

def rmdirSync (path : Path) : Fs Unit := change fault (.rmdir path) (fun fs => fs.rmdir path) id

/-- `lstat` that reports a missing entry as `none`. -/
def lstatOrNull (path : Path) : Fs (Option Entry) := do
  match ← Fs.attempt (lstatSync fault path) with
  | .ok st => return some st
  | .error (.errno .ENOENT) => return none
  | .error e => Fs.raise e

end

end QuokyPlatform.WorkspaceWrites
