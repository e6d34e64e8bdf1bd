/-
SequoiaIpc.Record — the rendezvous record as the code writes and reads
it: `file.write(&cookie, format!("{}", addr).as_bytes())` in
`connect_with_policy` and `bootstrap`, and on the reading side a fresh
`CookieFile::open`, `read`, `String::from_utf8` and
`parse::<SocketAddr>()`.

`recordOf` is that reading side. A completed write is read back exactly
(`record_write_read`), whatever the file held and wherever the writer's
offset was. A cut write is not always harmless: a cut inside the port's
digits still parses, as the address of a smaller port, and every other
cut parses as nothing (`recordOf_cut`).
-/
import SequoiaIpc.CookieFile
import SequoiaIpc.Net.RoundTrip
import Mathlib.Data.List.Infix

namespace SequoiaIpc

/-- The cookie and address a reader takes from a file holding `contents`:
a fresh handle's `read`, then the decoding of the rest. -/
def recordOf (contents : Bytes) : Option (Cookie × SocketAddr) := do
  let (cookie, rest) ← (CookieFile.open contents).read.1
  let addr ← recordAddr rest
  pure (cookie, addr)

theorem recordOf_eq (contents : Bytes) :
    recordOf contents = (Cookie.extract contents).bind fun r => (recordAddr r.2).map (r.1, ·) := by
  simp only [recordOf, CookieFile.read_open]
  cases Cookie.extract contents with
  | none => rfl
  | some r =>
    obtain ⟨c, rest⟩ := r
    show (recordAddr rest).bind (fun addr => some (c, addr)) = (recordAddr rest).map (c, ·)
    cases recordAddr rest <;> rfl

/-- The record a launcher writes is what the next reader finds. -/
@[simp] theorem recordOf_record (c : Cookie) (a : SocketAddrV4) :
    recordOf (c.bytes ++ a.fmt) = some (c, .v4 a) := by
  simp [recordOf_eq, recordAddr_fmt]

/-- **Write, drop, open, read.** After a completed `write` of a cookie and
the text of an address, the next `open` and `read` return that cookie and
a rest that decodes to that address, whatever the file held before and
wherever the writer's handle stood. -/
theorem record_write_read (cf : CookieFile) (c : Cookie) (a : SocketAddrV4) :
    (CookieFile.open (cf.write c a.fmt).file.contents).read.1 = some (c, a.fmt) ∧
      recordAddr a.fmt = some (.v4 a) := by
  simp [recordAddr_fmt]

/-- A file shorter than a cookie holds no record. -/
theorem recordOf_short {contents : Bytes} (h : contents.length < Cookie.SIZE) :
    recordOf contents = none := by
  simp [recordOf_eq, Cookie.extract_short h]

/-- **Cut records.** A `write` of `c ‖ 127.0.0.1:<port>` cut after `n`
bytes, short of the whole record, is read as a record exactly when the cut
reaches into the port's digits, and then as the cookie `c` and the address
`127.0.0.1:q` of the port `q` that the digits left spell, a smaller one. -/
theorem recordOf_cut (cf : CookieFile) (c : Cookie) (port : UInt16) (n : Nat)
    (hn : n < (c.bytes ++ (⟨Ipv4Addr.LOCALHOST, port⟩ : SocketAddrV4).fmt).length)
    (k : Cookie) (x : SocketAddr) :
    recordOf (cf.writeCut c (⟨Ipv4Addr.LOCALHOST, port⟩ : SocketAddrV4).fmt n).file.contents =
        some (k, x) ↔
      Cookie.SIZE + localhostPrefix.length < n ∧ k = c ∧
        ∃ q : UInt16, x = .localhost q ∧ q < port ∧
          decimal q.toNat = (decimal port.toNat).take (n - (Cookie.SIZE + localhostPrefix.length)) := by
  have hL : localhostPrefix.length = 10 := rfl
  have hS : c.bytes.length = Cookie.SIZE := c.size_eq
  rw [CookieFile.writeCut_contents, fmt_localhost]
  simp only [fmt_localhost, List.length_append, hS, hL] at hn
  by_cases hk : n < Cookie.SIZE
  · -- the cut ends inside the cookie
    rw [recordOf_short (by rw [List.length_take]; omega)]
    simp only [reduceCtorEq, false_iff, not_and, hL]
    omega
  rw [List.take_append_eq_append_take, List.take_of_length_le (by omega : c.bytes.length ≤ n), hS]
  simp only [recordOf_eq, Cookie.extract_append, Option.some_bind, hL, ← Nat.sub_sub]
  obtain ⟨hnone, hsome⟩ := recordAddr_cut port (n - Cookie.SIZE) (by rw [List.length_append, hL]; omega)
  by_cases hin : n - Cookie.SIZE ≤ 10
  · -- the cut ends inside `127.0.0.1:`
    simp only [hnone hin, Option.map_none', reduceCtorEq, false_iff, not_and]
    omega
  · -- the cut ends inside the port's digits
    obtain ⟨q, hq, hD, h⟩ := hsome (by omega)
    simp only [h, Option.map_some', Option.some.injEq, Prod.mk.injEq]
    constructor
    · rintro ⟨rfl, rfl⟩
      exact ⟨by omega, rfl, q, rfl, hq, hD⟩
    · rintro ⟨-, rfl, q', rfl, -, hD'⟩
      obtain rfl : q' = q := UInt16.toNat.inj (decimal_injective (hD'.trans hD.symm))
      exact ⟨rfl, rfl⟩

/-- A record of port 65535 cut after two of its digits is read as port 65. -/
theorem recordOf_cut_port_max :
    let c : Cookie := ⟨List.replicate 32 7, rfl⟩
    let a : SocketAddrV4 := ⟨Ipv4Addr.LOCALHOST, 65535⟩
    44 < (c.bytes ++ a.fmt).length ∧
      recordOf ((CookieFile.open [1, 2, 3]).writeCut c a.fmt 44).file.contents = some (c, .localhost 65) :=
  ⟨by decide, (recordOf_cut _ _ 65535 44 (by decide) _ _).mpr ⟨by decide, rfl, 65, rfl, by decide, by decide⟩⟩

/-- A `write` of the record of port 10 cut after the first digit of the
port leaves a file that a reader takes for a record of port 1. -/
theorem recordOf_cut_dials_port_one :
    let c : Cookie := ⟨List.replicate 32 0, rfl⟩
    let a : SocketAddrV4 := ⟨Ipv4Addr.LOCALHOST, 10⟩
    43 < (c.bytes ++ a.fmt).length ∧
      recordOf ((CookieFile.open []).writeCut c a.fmt 43).file.contents = some (c, .localhost 1) :=
  ⟨by decide, by decide⟩

end SequoiaIpc
