/-
SequoiaIpc.CookieFile — `struct CookieFile` of `lib.rs`: an open,
exclusively locked rendezvous file, and its `read`, `write` and `clear`.

The open file is its bytes and the handle's offset, and the system calls
the source makes have their POSIX meaning: `read_to_end` reads from the
offset to the end and leaves the offset there, `rewind` moves it to 0,
`set_len` truncates or zero-extends without moving it, and `write_all`
writes at the offset and moves it past what it wrote. The lock and the
path are the protocol's business (`Protocol.System`); the messages
`Opening`, `Rewinding`, `Truncating` and `Updating` belong to failed
system calls, which this model does not have, and an interrupted `write`
is `writeCut`.

## The handle laws

`read` returns `Cookie::extract` of the bytes from the offset on
(`read_fst`). That is the whole file only on a handle fresh from `open`
(`read_open`), which is how `connect_with_policy` and `bootstrap` use
it. `write` rewinds before it truncates, but `read` does not rewind, so
after a `write` the offset sits at the end of the record and a `read`
on the same handle finds no cookie (`read_after_write`).
-/
import SequoiaIpc.Cookie

namespace SequoiaIpc

/-- An open `fs::File`: the file's bytes and the handle's offset. -/
structure OpenFile where
  contents : Bytes
  pos : Nat
deriving DecidableEq, Repr

namespace OpenFile

/-- `read_to_end`: the bytes from the offset on; the offset moves to the end. -/
def readToEnd (f : OpenFile) : Bytes × OpenFile :=
  (f.contents.drop f.pos, { f with pos := max f.pos f.contents.length })

/-- `rewind`: the offset back to 0. -/
def rewind (f : OpenFile) : OpenFile := { f with pos := 0 }

/-- `set_len`: truncate or zero-extend to `n` bytes; the offset stays. -/
def setLen (f : OpenFile) (n : Nat) : OpenFile :=
  { f with contents := f.contents.take n ++ List.replicate (n - f.contents.length) 0 }

/-- `write_all` at the offset, zero-filling a gap past the end. -/
def writeAll (f : OpenFile) (bs : Bytes) : OpenFile where
  contents := f.contents.take f.pos ++ List.replicate (f.pos - f.contents.length) 0 ++ bs ++
    f.contents.drop (f.pos + bs.length)
  pos := f.pos + bs.length

/-- Truncating after rewinding leaves an empty file at offset 0. -/
@[simp] theorem rewind_setLen_zero (f : OpenFile) : f.rewind.setLen 0 = ⟨[], 0⟩ := by
  simp [rewind, setLen]

@[simp] theorem writeAll_empty (bs : Bytes) : (⟨[], 0⟩ : OpenFile).writeAll bs = ⟨bs, bs.length⟩ := by
  simp [writeAll]

@[simp] theorem writeAll_at_end (a bs : Bytes) :
    (⟨a, a.length⟩ : OpenFile).writeAll bs = ⟨a ++ bs, a.length + bs.length⟩ := by
  simp [writeAll]

end OpenFile

/-- `struct CookieFile`: the locked file (its path only names errors). -/
structure CookieFile where
  file : OpenFile
deriving DecidableEq, Repr

namespace CookieFile

/-- `CookieFile::open`: the file, created empty if it was absent, at offset 0. -/
def «open» (contents : Bytes) : CookieFile := ⟨⟨contents, 0⟩⟩

/-- `CookieFile::read`: `read_to_end` and `Cookie::extract`. -/
def read (cf : CookieFile) : Option (Cookie × Bytes) × CookieFile :=
  (Cookie.extract cf.file.readToEnd.1, ⟨cf.file.readToEnd.2⟩)

/-- `CookieFile::write`: rewind, truncate, the cookie, then the data. -/
def write (cf : CookieFile) (cookie : Cookie) (data : Bytes) : CookieFile :=
  ⟨((cf.file.rewind.setLen 0).writeAll cookie.bytes).writeAll data⟩

/-- `CookieFile::clear`: truncate to 0. -/
def clear (cf : CookieFile) : CookieFile := ⟨cf.file.setLen 0⟩

/-- A `write` whose byte stream stops after `n` bytes: the process died,
or a `write_all` failed, part way through the record. -/
def writeCut (cf : CookieFile) (cookie : Cookie) (data : Bytes) (n : Nat) : CookieFile :=
  ⟨(cf.file.rewind.setLen 0).writeAll ((cookie.bytes ++ data).take n)⟩

theorem read_fst (cf : CookieFile) :
    cf.read.1 = Cookie.extract (cf.file.contents.drop cf.file.pos) := rfl

/-- On a fresh handle `read` sees the whole file. -/
@[simp] theorem read_open (contents : Bytes) :
    (CookieFile.open contents).read.1 = Cookie.extract contents := rfl

/-- After `write` the file holds exactly the cookie and the data, and the
offset is at its end. -/
@[simp] theorem write_file (cf : CookieFile) (c : Cookie) (d : Bytes) :
    (cf.write c d).file = ⟨c.bytes ++ d, c.bytes.length + d.length⟩ := by
  simp [write]

/-- A cut `write` leaves a prefix of the record. -/
theorem writeCut_contents (cf : CookieFile) (c : Cookie) (d : Bytes) (n : Nat) :
    (cf.writeCut c d n).file.contents = (c.bytes ++ d).take n := by
  simp [writeCut]

/-- A write cut after all its bytes is the write. -/
theorem writeCut_length (cf : CookieFile) (c : Cookie) (d : Bytes) :
    (cf.writeCut c d (c.bytes ++ d).length).file.contents = (cf.write c d).file.contents := by
  simp [writeCut_contents]

@[simp] theorem clear_contents (cf : CookieFile) : cf.clear.file.contents = [] := by
  simp [clear, OpenFile.setLen]

/-- `read` after `write` on the same handle returns no cookie, whatever
was written. -/
theorem read_after_write (cf : CookieFile) (c : Cookie) (d : Bytes) :
    (cf.write c d).read.1 = none := by
  rw [read_fst, write_file]
  simp [Cookie.extract_short, Cookie.SIZE]

end CookieFile

end SequoiaIpc
