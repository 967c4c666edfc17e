import KVTiering.Data.ByteFile
import Mathlib.Data.UInt
import Mathlib.Logic.Function.Basic

/-! # Block files

In the file layout each block has a file of its own. `store_block` writes a temporary file and renames it,
`load_block` reads a block file and removes it if that fails, and `delete` unlinks block files. Any number of
threads do so at once, one system call at a time. Every call may fail, and a read or a write may transfer less
than it was asked to.

A path names a file, and a file that is open outlives its path. The blocks taken from the buffers are history: no
call reads them.
-/

namespace KVTiering.Model

/-- `<hash_hex>.bin`, with the directories in front. -/
structure BlockPath where
  stem : String
deriving DecidableEq, Repr

def BlockPath.name (path : BlockPath) : String := path.stem ++ ".bin"

/-- `_get_tmp_suffix`, for the number that a thread has drawn. -/
def tmpSuffix (number : ℕ) : String := "_" ++ toString number ++ ".tmp"

/-- `tmp_path`. -/
def BlockPath.tmpPath (path : BlockPath) (number : ℕ) : String := path.name ++ tmpSuffix number

/-- The arguments of a call: the path of the block, and where its slice begins in one of the buffers. -/
structure BlockCall (β : Type) where
  path : BlockPath
  buffer : β
  offset : ℕ
deriving DecidableEq, Repr

/-- The next system call of `store_block`. -/
inductive StorePoint where
  | pathExists
  | makedirs
  | openTemporary
  | write (fd : ℕ)
  /-- `os.close`, and whether the block was written whole -/
  | close (fd : ℕ) (whole : Bool)
  | replace
  | removeTemporary
deriving DecidableEq, Repr

/-- The next system call of `load_block`. -/
inductive LoadPoint where
  | openSource
  | readv (fd : ℕ)
  | removeSource (fd : Option ℕ)
  /-- `os.close`, and whether an exception is on its way -/
  | close (fd : ℕ) (raising : Bool)
deriving DecidableEq, Repr

inductive BlockThread (β : Type) where
  | idle
  | storing (call : BlockCall β) (point : StorePoint)
  | loading (call : BlockCall β) (point : LoadPoint)
  /-- the last call has returned normally -/
  | returned
  /-- the last call has raised -/
  | raised
deriving DecidableEq, Repr

def BlockThread.isBusy {β : Type} : BlockThread β → Bool
  | .storing .. | .loading .. => true
  | _ => false

/-- How a system call ends, with the number of bytes that it has transferred. An exclusive create that fails may
have made the file; then the number is not zero. -/
inductive SystemOutcome where
  | completed (transferred : ℕ)
  | failed (transferred : ℕ)
deriving DecidableEq, Repr

structure BlockFiles (ι β : Type) where
  paths : String → Option ℕ
  contents : ℕ → List UInt8
  nextFile : ℕ
  buffers : β → List UInt8
  threads : ι → BlockThread β
  /-- the blocks that `store_block` has taken from its buffer, by path -/
  taken : List (BlockPath × List UInt8)

inductive BlockEvent (ι β : Type) where
  | storeBlock (thread : ι) (call : BlockCall β)
  | loadBlock (thread : ι) (call : BlockCall β)
  | systemCall (thread : ι) (outcome : SystemOutcome)
  /-- the `os.unlink` of `delete` -/
  | unlink (path : BlockPath)
  /-- someone else writes to a buffer -/
  | bufferWrite (buffer : β) (bytes : List UInt8)

namespace BlockFiles

variable {ι β : Type} [DecidableEq ι] [DecidableEq β]

def goto (s : BlockFiles ι β) (thread : ι) (place : BlockThread β) : BlockFiles ι β :=
  { s with threads := Function.update s.threads thread place }

/-- A new file under a path. -/
def create (s : BlockFiles ι β) (path : String) : BlockFiles ι β :=
  { s with
    paths := Function.update s.paths path (some s.nextFile)
    contents := Function.update s.contents s.nextFile []
    nextFile := s.nextFile + 1 }

/-- `os.remove`. -/
def remove (s : BlockFiles ι β) (path : String) : Option (BlockFiles ι β) :=
  if (s.paths path).isSome then some { s with paths := Function.update s.paths path none } else none

/-- `os.replace`. -/
def rename (s : BlockFiles ι β) (source dest : String) : Option (BlockFiles ι β) :=
  (s.paths source).map fun file =>
    { s with paths := Function.update (Function.update s.paths source none) dest (some file) }

/-- The slice of a call, as it is now. -/
def slice (s : BlockFiles ι β) (blockSize : ℕ) (call : BlockCall β) : List UInt8 :=
  readAt (s.buffers call.buffer) call.offset blockSize

/-- The first bytes of a block get into an open file. -/
def writeBlock (s : BlockFiles ι β) (blockSize : ℕ) (call : BlockCall β) (fd transferred : ℕ) : BlockFiles ι β :=
  let block := s.slice blockSize call
  { s with
    contents := Function.update s.contents fd (writeAt (s.contents fd) 0 (block.take transferred))
    taken := (call.path, block) :: s.taken }

/-- What `os.readv` gets from an open file. -/
def readBytes (s : BlockFiles ι β) (blockSize : ℕ) (call : BlockCall β) (fd transferred : ℕ) : List UInt8 :=
  ((s.contents fd).take (s.slice blockSize call).length).take transferred

/-- The first bytes of an open file get into the slice of a call. -/
def readBlock (s : BlockFiles ι β) (blockSize : ℕ) (call : BlockCall β) (fd transferred : ℕ) : BlockFiles ι β :=
  { s with
    buffers := Function.update s.buffers call.buffer
      (writeAt (s.buffers call.buffer) call.offset (s.readBytes blockSize call fd transferred)) }

/-- A system call of `store_block`. -/
def storeStep (number : ι → ℕ) (blockSize : ℕ) (s : BlockFiles ι β) (thread : ι) (call : BlockCall β) :
    StorePoint → SystemOutcome → Option (BlockFiles ι β)
  | .pathExists, .completed _ =>
    some (s.goto thread (if (s.paths call.path.name).isSome then .returned else .storing call .makedirs))
  -- `os.path.exists` is false when the call fails
  | .pathExists, .failed _ => some (s.goto thread (.storing call .makedirs))
  | .makedirs, .completed _ => some (s.goto thread (.storing call .openTemporary))
  | .makedirs, .failed _ => some (s.goto thread .raised)
  | .openTemporary, .completed _ =>
    if s.paths (call.path.tmpPath (number thread)) = none then
      some ((s.create (call.path.tmpPath (number thread))).goto thread (.storing call (.write s.nextFile)))
    else none
  | .openTemporary, .failed made =>
    if made ≠ 0 ∧ s.paths (call.path.tmpPath (number thread)) = none then
      some ((s.create (call.path.tmpPath (number thread))).goto thread (.storing call .removeTemporary))
    else some (s.goto thread (.storing call .removeTemporary))
  | .write fd, .completed transferred =>
    some ((s.writeBlock blockSize call fd transferred).goto thread
      (.storing call (.close fd ((s.slice blockSize call).length ≤ transferred))))
  | .write fd, .failed transferred =>
    some ((s.writeBlock blockSize call fd transferred).goto thread (.storing call (.close fd false)))
  | .close _ whole, .completed _ =>
    some (s.goto thread (.storing call (if whole then .replace else .removeTemporary)))
  | .close _ _, .failed _ => some (s.goto thread (.storing call .removeTemporary))
  | .replace, .completed _ =>
    (s.rename (call.path.tmpPath (number thread)) call.path.name).map fun s => s.goto thread .returned
  | .replace, .failed _ => some (s.goto thread (.storing call .removeTemporary))
  | .removeTemporary, .completed _ =>
    (s.remove (call.path.tmpPath (number thread))).map fun s => s.goto thread .raised
  | .removeTemporary, .failed _ => some (s.goto thread .raised)

/-- A system call of `load_block`. -/
def loadStep (blockSize : ℕ) (s : BlockFiles ι β) (thread : ι) (call : BlockCall β) :
    LoadPoint → SystemOutcome → Option (BlockFiles ι β)
  | .openSource, .completed _ =>
    (s.paths call.path.name).map fun file => s.goto thread (.loading call (.readv file))
  | .openSource, .failed _ => some (s.goto thread (.loading call (.removeSource none)))
  | .readv fd, .completed transferred =>
    some ((s.readBlock blockSize call fd transferred).goto thread (.loading call
      (if (s.readBytes blockSize call fd transferred).length < blockSize then .removeSource (some fd)
        else .close fd false)))
  | .readv fd, .failed transferred =>
    some ((s.readBlock blockSize call fd transferred).goto thread (.loading call (.removeSource (some fd))))
  | .removeSource fd, .completed _ =>
    (s.remove call.path.name).map fun s => s.goto thread (fd.elim .raised fun fd => .loading call (.close fd true))
  | .removeSource fd, .failed _ =>
    some (s.goto thread (fd.elim .raised fun fd => .loading call (.close fd true)))
  | .close _ raising, .completed _ => some (s.goto thread (if raising then .raised else .returned))
  | .close _ _, .failed _ => some (s.goto thread .raised)

def step (number : ι → ℕ) (blockSize : ℕ) (s : BlockFiles ι β) : BlockEvent ι β → Option (BlockFiles ι β)
  | .storeBlock thread call =>
    if (s.threads thread).isBusy then none else some (s.goto thread (.storing call .pathExists))
  | .loadBlock thread call =>
    if (s.threads thread).isBusy then none else some (s.goto thread (.loading call .openSource))
  | .systemCall thread outcome =>
    match s.threads thread with
    | .storing call point => s.storeStep number blockSize thread call point outcome
    | .loading call point => s.loadStep blockSize thread call point outcome
    | _ => none
  | .unlink path => s.remove path.name
  | .bufferWrite buffer bytes => some { s with buffers := Function.update s.buffers buffer bytes }

/-- What a block path holds, if it exists. -/
def holds (s : BlockFiles ι β) (path : BlockPath) : Option (List UInt8) := (s.paths path.name).map s.contents

end BlockFiles

end KVTiering.Model
