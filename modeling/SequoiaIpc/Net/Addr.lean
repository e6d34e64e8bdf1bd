/-
SequoiaIpc.Net.Addr — the socket addresses of `std::net` that the crate
binds, records and dials, and the text `format!("{}", addr)` gives an
IPv4 one.

`Descriptor::start` binds `(Ipv4Addr::LOCALHOST, 0)` and returns the
listener's `local_addr()`; `connect_with_policy` and `bootstrap` write
that address into the rendezvous file as `format!("{}", addr)`. Only the
`Display` of `SocketAddrV4` is needed, and it is `"{ip}:{port}"` with
the four octets and the port in plain decimal.

`decimal` follows the shape of core's `Nat.toDigitsCore`: it is
structural in a fuel argument, so it evaluates by `decide`, and
`decimal_eq` gives the equation that peels the last digit, which is the
only fact about it later proofs use.
-/
import SequoiaIpc.Core

namespace SequoiaIpc

/-- `std::net::Ipv4Addr`, by its four octets. -/
structure Ipv4Addr where
  a : UInt8
  b : UInt8
  c : UInt8
  d : UInt8
deriving DecidableEq, Repr

/-- `Ipv4Addr::LOCALHOST`, `127.0.0.1`. -/
def Ipv4Addr.LOCALHOST : Ipv4Addr := ⟨127, 0, 0, 1⟩

/-- `std::net::Ipv6Addr`, by its eight 16-bit segments. -/
structure Ipv6Addr where
  segments : List UInt16
deriving DecidableEq, Repr

/-- `std::net::SocketAddrV4`. -/
structure SocketAddrV4 where
  ip : Ipv4Addr
  port : UInt16
deriving DecidableEq, Repr

/-- `std::net::SocketAddrV6` (the flow info the parser always sets to 0
is left out). -/
structure SocketAddrV6 where
  ip : Ipv6Addr
  port : UInt16
  scopeId : UInt32
deriving DecidableEq, Repr

/-- `std::net::SocketAddr`. -/
inductive SocketAddr where
  | v4 (a : SocketAddrV4)
  | v6 (a : SocketAddrV6)
deriving DecidableEq, Repr

/-- The address a listener bound to `(Ipv4Addr::LOCALHOST, port)` reports. -/
def SocketAddr.localhost (port : UInt16) : SocketAddr := .v4 ⟨Ipv4Addr.LOCALHOST, port⟩

/-- The ASCII byte of a decimal digit. -/
def digitByte (d : Nat) : UInt8 := (48 + d).toUInt8

/-- Decimal digits of `n`, most significant first, consed onto `acc`. -/
def decimalCore : Nat → Nat → Bytes → Bytes
  | 0, _, acc => acc
  | fuel + 1, n, acc =>
    if n / 10 = 0 then digitByte (n % 10) :: acc
    else decimalCore fuel (n / 10) (digitByte (n % 10) :: acc)

/-- `Display` of an unsigned integer: its decimal digits, `0` for zero. -/
def decimal (n : Nat) : Bytes := decimalCore (n + 1) n []

theorem decimalCore_append : ∀ (fuel n : Nat) (acc : Bytes),
    decimalCore fuel n acc = decimalCore fuel n [] ++ acc
  | 0, _, _ => rfl
  | fuel + 1, n, acc => by
    simp only [decimalCore]
    split
    · rfl
    · rw [decimalCore_append fuel _ (_ :: acc), decimalCore_append fuel _ [_]]
      simp

theorem decimalCore_fuel : ∀ (f g n : Nat), n < f → n < g →
    decimalCore f n [] = decimalCore g n []
  | 0, _, _, hf, _ => absurd hf (Nat.not_lt_zero _)
  | _, 0, _, _, hg => absurd hg (Nat.not_lt_zero _)
  | f + 1, g + 1, n, hf, hg => by
    simp only [decimalCore]
    split
    · rfl
    · rw [decimalCore_append f, decimalCore_append g, decimalCore_fuel f g (n / 10) (by omega) (by omega)]

/-- The last digit comes off the end. -/
theorem decimal_eq (n : Nat) :
    decimal n = (if n < 10 then [] else decimal (n / 10)) ++ [digitByte (n % 10)] := by
  show decimalCore (n + 1) n [] = _
  rw [decimalCore]
  split
  · rw [if_pos (by omega)]; rfl
  · rw [if_neg (by omega), decimalCore_append,
      decimalCore_fuel n (n / 10 + 1) (n / 10) (by omega) (by omega)]
    rfl

theorem decimal_ne_nil (n : Nat) : decimal n ≠ [] := by
  rw [decimal_eq]; simp

/-- `Display for Ipv4Addr`: `"{}.{}.{}.{}"` of the octets. -/
def Ipv4Addr.fmt (ip : Ipv4Addr) : Bytes :=
  decimal ip.a.toNat ++ [46] ++ decimal ip.b.toNat ++ [46] ++ decimal ip.c.toNat ++ [46] ++
    decimal ip.d.toNat

/-- `Display for SocketAddrV4`: `"{}:{}"` of the address and the port. -/
def SocketAddrV4.fmt (a : SocketAddrV4) : Bytes := a.ip.fmt ++ [58] ++ decimal a.port.toNat

end SequoiaIpc
