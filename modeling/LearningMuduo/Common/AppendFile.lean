import Mathlib.Data.List.Basic

/-! The log's append-only file over a buffered stream, and the directory it lies in. -/
namespace LearningMuduo.Common

structure File where
  name : List UInt8
  bytes : List UInt8
  deriving DecidableEq, Repr

/-- In the order of creation. -/
abbrev Directory := List File

namespace Directory

/-- `fopen` with mode `a+`, which creates the file if there is none of that name. -/
def fopen (dir : Directory) (name : List UInt8) : Directory :=
  if ∃ f ∈ dir, f.name = name then dir else dir ++ [⟨name,[]⟩]

/-- Where `fseek` to the end and `ftell` land. -/
def fileEnd (dir : Directory) (name : List UInt8) : Nat :=
  match dir.find? (fun f => f.name = name) with
  | none => 0
  | some f => f.bytes.length

/-- What a stream opened for appending writes goes to the end of its file. -/
def write (dir : Directory) (name bytes : List UInt8) : Directory :=
  dir.map (fun f => if f.name = name then { f with bytes := f.bytes ++ bytes } else f)

variable {dir : Directory} {name : List UInt8}

private theorem write_of_forall_ne (h : ∀ f ∈ dir, f.name ≠ name) (bytes : List UInt8) : dir.write name bytes = dir := by
  rw [write]
  refine (List.map_congr_left fun f hf => ?_).trans (List.map_id dir)
  exact if_neg (h f hf)

/-- Only the file of that name grows. -/
theorem write_middle {front back : Directory} (hfront : ∀ f ∈ front, f.name ≠ name) (hback : ∀ f ∈ back, f.name ≠ name)
    (bytes more : List UInt8) :
    write (front ++ ⟨name,bytes⟩ :: back) name more = front ++ ⟨name,bytes ++ more⟩ :: back := by
  have hf := write_of_forall_ne hfront more
  have hb := write_of_forall_ne hback more
  rw [write] at hf hb ⊢
  rw [List.map_append,List.map_cons,hf,hb,if_pos rfl]

/-- A file that exists is opened as it is. -/
theorem fopen_of_mem {f : File} (h : f ∈ dir) : dir.fopen f.name = dir := if_pos ⟨f,h,rfl⟩

/-- A new name makes an empty file. -/
theorem fopen_of_forall_ne (h : ∀ f ∈ dir, f.name ≠ name) : dir.fopen name = dir ++ [⟨name,[]⟩] :=
  if_neg fun ⟨f,hf,heq⟩ => h f hf heq

/-- A new file is written from its start. -/
theorem fileEnd_append_new (h : ∀ f ∈ dir, f.name ≠ name) : fileEnd (dir ++ [⟨name,[]⟩]) name = 0 := by
  have hnone : dir.find? (fun f => f.name = name) = none :=
    List.find?_eq_none.mpr fun f hf => by rw [decide_eq_true_eq]; exact h f hf
  have hlast : List.find? (fun f : File => f.name = name) [⟨name,[]⟩] = some ⟨name,[]⟩ :=
    List.find?_cons_of_pos (decide_eq_true rfl)
  rw [fileEnd,List.find?_append,hnone,Option.none_or,hlast]
  rfl

end Directory

/-- `pending` is what the stream has taken and not written to the disk. -/
structure AppendFile where
  filename : List UInt8
  pending : List UInt8
  writtenBytes : Nat
  deriving DecidableEq, Repr

namespace AppendFile

/-- The constructor, and the directory with the file. -/
def new (dir : Directory) (filename : List UInt8) : Directory × AppendFile :=
  let dir := dir.fopen filename
  (dir,{ filename := filename,pending := [],writtenBytes := dir.fileEnd filename })

/-- An `fwrite` from p that takes r bytes. -/
def fwrite (f : AppendFile) (p : List UInt8) (r : Nat) : AppendFile := { f with pending := f.pending ++ p.take r }

/-- The loop of `append`, and its nWritten in the end. Each call of `fwrite` takes as many
bytes as the next result says, or all once the results run out. -/
def appendLoop (buf : List UInt8) : List Nat → AppendFile → Nat → AppendFile × Nat
  | [],f,nWritten =>
    if nWritten < buf.length then (f.fwrite buf (buf.length - nWritten),buf.length) else (f,nWritten)
  | r :: results,f,nWritten =>
    if nWritten < buf.length then
      let x := min r (buf.length - nWritten)
      if x = 0 then (f,nWritten) else appendLoop buf results (f.fwrite buf x) (nWritten + x)
    else (f,nWritten)

def append (f : AppendFile) (buf : List UInt8) (results : List Nat) : AppendFile :=
  let nWritten := min (results.headD buf.length) buf.length
  let (f,nWritten) := appendLoop buf results.tail (f.fwrite buf nWritten) nWritten
  { f with writtenBytes := f.writtenBytes + nWritten }

/-- The stream writes its first n pending bytes to the disk. -/
def drain (f : AppendFile) (dir : Directory) (n : Nat) : Directory × AppendFile :=
  (dir.write f.filename (f.pending.take n),{ f with pending := f.pending.drop n })

def flush (f : AppendFile) (dir : Directory) : Directory × AppendFile := f.drain dir f.pending.length

/-- The destructor. -/
def close (f : AppendFile) (dir : Directory) : Directory := (f.flush dir).1

/-- A write that succeeds at once. -/
theorem append_nil (f : AppendFile) (buf : List UInt8) : f.append buf [] =
    { f with pending := f.pending ++ buf,writtenBytes := f.writtenBytes + buf.length } := by
  have hlen : min buf.length buf.length = buf.length := Nat.min_self _
  simp only [append,List.headD_nil,hlen,List.tail_nil,appendLoop,Nat.lt_irrefl,if_false,fwrite,List.take_length]

/-- To close a file is to write what its stream holds back. -/
theorem close_eq (f : AppendFile) (dir : Directory) : f.close dir = dir.write f.filename f.pending := by
  rw [close,flush,drain,List.take_length]

end AppendFile
end LearningMuduo.Common
