/-
SequoiaIpc.Cookie — `struct Cookie` of `lib.rs`: the 32-byte token a
client presents on every connection, its constructors, its framed I/O
and its `PartialEq`.

The source's `Cookie(Vec<u8>)` does not fix the length in its type, but
every constructor does (`new` and `receive` allocate `SIZE` bytes,
`from` checks the length, `extract` splits at `SIZE`), so here the
length is a field of the structure and a cookie of another length
cannot be built. What the comparison in `PartialEq` then reduces to is
`cookieEq_iff`: byte-wise equality, the length test always passing.
The constant-time behaviour of `memsec::memeq` is a timing property
and is not modelled; only its result is.

A stream is modelled by the bytes it delivers before it is closed, so a
read of `n` bytes succeeds exactly when at least `n` arrive.
-/
import SequoiaIpc.Core

namespace SequoiaIpc

/-- `Cookie::SIZE`. -/
def Cookie.SIZE : Nat := 32

/-- `struct Cookie(Vec<u8>)`, with the length every constructor gives it. -/
structure Cookie where
  bytes : Bytes
  size_eq : bytes.length = Cookie.SIZE
deriving DecidableEq, Repr

namespace Cookie

theorem length_take_SIZE {buf : Bytes} (h : SIZE ≤ buf.length) :
    (buf.take SIZE).length = SIZE :=
  List.length_take_of_le h

/-- `Cookie::from`: a cookie from a slice of exactly `SIZE` bytes. -/
def «from» (buf : Bytes) : Option Cookie :=
  if h : buf.length = SIZE then some ⟨buf, h⟩ else none

/-- `Cookie::extract`: split a buffer that starts with a cookie into the
cookie and the rest (`split_off(SIZE)`). -/
def extract (buf : Bytes) : Option (Cookie × Bytes) :=
  if h : SIZE ≤ buf.length then
    some (⟨buf.take SIZE, length_take_SIZE h⟩, buf.drop SIZE)
  else none

/-- `read_exact` into an `n`-byte buffer from a stream that delivers
`data` and then closes: the first `n` bytes, or `UnexpectedEof`. -/
def readExact (n : Nat) (data : Bytes) : Option Bytes :=
  if n ≤ data.length then some (data.take n) else none

/-- `Cookie::receive`: read `SIZE` bytes into a fresh buffer. -/
def receive (data : Bytes) : Option Cookie :=
  if h : SIZE ≤ data.length then
    some ⟨data.take SIZE, length_take_SIZE h⟩
  else none

/-- `Cookie::receive_async`: tokio's `read_exact` of `SIZE` bytes, then
`Cookie::from(&buf).expect("enough bytes read")`. A failed read is the
`io::Error` the accept loop skips, `UnexpectedEof` with tokio's text
`early eof`; a failed `expect` is a panic. -/
def receiveAsync (data : Bytes) : Outcome Cookie :=
  match readExact SIZE data with
  | none => .err "early eof"
  | some buf =>
    match Cookie.from buf with
    | some c => .ok c
    | none => .panic

/-- `Cookie::send`: `write_all` of the cookie's bytes. -/
def send (c : Cookie) : Bytes := c.bytes

/-- `memsec::memeq`: the first `n` bytes behind the two pointers agree. -/
def memeq (p q : Bytes) (n : Nat) : Bool := p.take n == q.take n

/-- `impl PartialEq for Cookie`: the lengths first (they are not
secret), then `memeq` over the first cookie's length. -/
def eq (a b : Cookie) : Bool :=
  a.bytes.length == b.bytes.length && memeq a.bytes b.bytes a.bytes.length

theorem ext_bytes {a b : Cookie} (h : a.bytes = b.bytes) : a = b := by
  cases a; cases b; cases h; rfl

/-- The comparison is equality of the 32 bytes. -/
theorem cookieEq_iff (a b : Cookie) : eq a b = true ↔ a = b := by
  constructor
  · intro h
    have hb : a.bytes.length = b.bytes.length := by rw [a.size_eq, b.size_eq]
    simp only [eq, memeq, Bool.and_eq_true, beq_iff_eq] at h
    have hb' : b.bytes.take a.bytes.length = b.bytes := by rw [hb, List.take_length]
    exact ext_bytes (by rw [← List.take_length (l := a.bytes), h.2, hb'])
  · rintro rfl
    simp [eq, memeq]

/-- `receive_async` succeeds with the first `SIZE` bytes, as `receive`
does, and fails exactly when fewer arrive. -/
theorem receiveAsync_eq (data : Bytes) :
    receiveAsync data = match receive data with
      | some c => .ok c
      | none => .err "early eof" := by
  by_cases h : SIZE ≤ data.length
  · simp [receiveAsync, readExact, receive, Cookie.from, h, length_take_SIZE h]
  · simp [receiveAsync, readExact, receive, h]

/-- A connection that delivers a cookie's bytes is received as that cookie. -/
@[simp] theorem receive_bytes_append (c : Cookie) (rest : Bytes) :
    receive (c.bytes ++ rest) = some c := by
  have h := c.size_eq
  have hle : SIZE ≤ (c.bytes ++ rest).length := by simp [h]
  simp only [receive, hle, dite_true, Option.some.injEq]
  exact ext_bytes (by simp [List.take_append_eq_append_take, h])

@[simp] theorem receive_bytes (c : Cookie) : receive c.bytes = some c := by
  simpa using receive_bytes_append c []

/-- `extract` of a buffer that starts with a cookie gives back the cookie
and exactly what followed it. -/
@[simp] theorem extract_append (c : Cookie) (rest : Bytes) :
    extract (c.bytes ++ rest) = some (c, rest) := by
  have h := c.size_eq
  have hle : SIZE ≤ (c.bytes ++ rest).length := by simp [h]
  simp only [extract, hle, dite_true, Option.some.injEq, Prod.mk.injEq]
  exact ⟨ext_bytes (by simp [List.take_append_eq_append_take, h]),
    by simp [List.drop_append_eq_append_drop, h]⟩

/-- A buffer shorter than a cookie holds none (§8 "Truncation"). -/
theorem extract_short {buf : Bytes} (h : buf.length < SIZE) : extract buf = none := by
  simp [extract, show ¬ SIZE ≤ buf.length by omega]

end Cookie

end SequoiaIpc
