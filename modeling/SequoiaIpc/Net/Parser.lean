/-
SequoiaIpc.Net.Parser — what `String::from_utf8(rest)` followed by
`rest.parse::<SocketAddr>()` does to the bytes after the cookie in a
rendezvous file (`connect_with_policy`, `bootstrap`).

The parse is the standard library's `SocketAddr::from_str`, which runs
`Parser::read_socket_addr` (`core::net::parser`) on the string's bytes
and succeeds only if the whole input is consumed. The functions below
follow that parser one for one: each takes the unconsumed input and
returns the value and what is left, and a failure consumes nothing,
which is what `read_atomically` arranges in the source. Numbers are
`Nat`s checked against the size of the integer type they are read into.

`fromUtf8` is `String::from_utf8`'s validity test: well-formed UTF-8 in
the sense of the Unicode standard's Table 3-7 (no overlong forms, no
surrogates, nothing above U+10FFFF).
-/
import SequoiaIpc.Net.Addr

namespace SequoiaIpc

/-- The continuation bytes a sequence with lead byte `b` needs (Table
3-7), checked at the front of `rest`: what follows them, if they are
well formed. -/
def utf8Continue (b : UInt8) (rest : Bytes) : Option Bytes :=
  let cont (c : UInt8) : Bool := 0x80 ≤ c && c ≤ 0xBF
  if 0xC2 ≤ b ∧ b ≤ 0xDF then
    match rest with
    | c :: r => if cont c then some r else none
    | [] => none
  else if 0xE0 ≤ b ∧ b ≤ 0xEF then
    let lo : UInt8 := if b = 0xE0 then 0xA0 else 0x80
    let hi : UInt8 := if b = 0xED then 0x9F else 0xBF
    match rest with
    | c1 :: c2 :: r => if lo ≤ c1 ∧ c1 ≤ hi ∧ cont c2 then some r else none
    | _ => none
  else if 0xF0 ≤ b ∧ b ≤ 0xF4 then
    let lo : UInt8 := if b = 0xF0 then 0x90 else 0x80
    let hi : UInt8 := if b = 0xF4 then 0x8F else 0xBF
    match rest with
    | c1 :: c2 :: c3 :: r => if lo ≤ c1 ∧ c1 ≤ hi ∧ cont c2 ∧ cont c3 then some r else none
    | _ => none
  else none

/-- Well-formed UTF-8, one scalar value at a time; `fuel` bounds the
number of sequences and the input's length is always enough. -/
def utf8ValidCore : Nat → Bytes → Bool
  | _, [] => true
  | 0, _ :: _ => false
  | fuel + 1, b :: rest =>
    if b < 0x80 then utf8ValidCore fuel rest
    else
      match utf8Continue b rest with
      | some r => utf8ValidCore fuel r
      | none => false

/-- `String::from_utf8`'s test: the bytes are well-formed UTF-8. -/
def utf8Valid (bs : Bytes) : Bool := utf8ValidCore bs.length bs

/-- `String::from_utf8`. -/
def fromUtf8 (bs : Bytes) : Option Bytes := if utf8Valid bs then some bs else none

namespace Parser

/-- `char::to_digit` in radix 10 or 16, of the character `char::from(b)`
the parser reads from one input byte. -/
def toDigit (radix : Nat) (b : UInt8) : Option Nat :=
  let d := b.toNat
  if 48 ≤ d ∧ d < 58 then (if d - 48 < radix then some (d - 48) else none)
  else if 10 < radix then
    let l := d ||| 0x20
    if 97 ≤ l ∧ l - 97 + 10 < radix then some (l - 97 + 10) else none
  else none

/-- The digit loop of `read_number`: the digits up to the first byte that
is not one, and the input from that byte on. -/
def readDigits (radix : Nat) : Bytes → List Nat × Bytes
  | [] => ([], [])
  | b :: rest =>
    match toDigit radix b with
    | some d => ((d :: (readDigits radix rest).1), (readDigits radix rest).2)
    | none => ([], b :: rest)

/-- One step of the unbounded loop: `checked_mul(radix)` then
`checked_add(digit)` in an integer type of size `bound`. -/
def checkedStep (radix bound acc d : Nat) : Option Nat :=
  if acc * radix < bound ∧ acc * radix + d < bound then some (acc * radix + d) else none

/-- `Parser::read_number` into an integer type of size `bound`. With
`maxDigits` the loop gives up past that many digits and the value is
narrowed by `try_into`; without it each step is checked. A number of
several digits with a leading `0` is refused unless `allowZeroPrefix`. -/
def readNumber (radix : Nat) (maxDigits : Option Nat) (allowZeroPrefix : Bool) (bound : Nat)
    (s : Bytes) : Option (Nat × Bytes) :=
  let ds := (readDigits radix s).1
  let result : Option Nat :=
    match maxDigits with
    | some m =>
      if m < ds.length then none
      else
        let v := ds.foldl (fun acc d => acc * radix + d) 0
        if v < bound then some v else none
    | none => ds.foldlM (checkedStep radix bound) 0
  if ds.length = 0 then none
  else if !allowZeroPrefix && s.head? == some 48 && 1 < ds.length then none
  else result.map (·, (readDigits radix s).2)

/-- `Parser::read_given_char`. -/
def readGivenChar (c : UInt8) : Bytes → Option Bytes
  | b :: rest => if b = c then some rest else none
  | [] => none

/-- `Parser::read_separator`: the separator before every item but the first. -/
def readSeparator {α : Type} (sep : UInt8) (index : Nat) (inner : Bytes → Option (α × Bytes))
    (s : Bytes) : Option (α × Bytes) :=
  if 0 < index then (readGivenChar sep s).bind inner else inner s

/-- An octet of an IPv4 address: `read_number(10, Some(3), false)` into a `u8`. -/
def readOctet : Bytes → Option (Nat × Bytes) := readNumber 10 (some 3) false 256

/-- `Parser::read_ipv4_addr`: four octets separated by `.`. -/
def readIpv4Addr (s : Bytes) : Option (Ipv4Addr × Bytes) := do
  let (a, s) ← readSeparator 46 0 readOctet s
  let (b, s) ← readSeparator 46 1 readOctet s
  let (c, s) ← readSeparator 46 2 readOctet s
  let (d, s) ← readSeparator 46 3 readOctet s
  pure (⟨a.toUInt8, b.toUInt8, c.toUInt8, d.toUInt8⟩, s)

/-- `read_groups` inside `Parser::read_ipv6_addr`: up to `limit` groups
separated by `:`, each a hex `u16` or, while two slots remain, an
embedded IPv4 address filling both. Returns the groups, whether the
IPv4 form ended them, and the rest. `i` is the slot index and `fuel`
the slots left. -/
def readGroups (limit : Nat) : Nat → Nat → Bytes → (List Nat × Bool) × Bytes
  | _, 0, s => (([], false), s)
  | i, fuel + 1, s =>
    match (if i + 1 < limit then readSeparator 58 i readIpv4Addr s else none) with
    | some (v4, s') =>
      (([v4.a.toNat * 256 + v4.b.toNat, v4.c.toNat * 256 + v4.d.toNat], true), s')
    | none =>
      match readSeparator 58 i (readNumber 16 (some 4) true 65536) s with
      | some (g, s') =>
        let r := readGroups limit (i + 1) fuel s'
        ((g :: r.1.1, r.1.2), r.2)
      | none => (([], false), s)

/-- `Parser::read_ipv6_addr`: a head of groups, then, unless it filled all
eight, `::` and a tail; the groups `::` stands for are zero. -/
def readIpv6Addr (s : Bytes) : Option (Ipv6Addr × Bytes) :=
  let ((head, headIpv4), s) := readGroups 8 0 8 s
  if head.length = 8 then some (⟨head.map Nat.toUInt16⟩, s)
  else if headIpv4 then none
  else do
    let s ← readGivenChar 58 s
    let s ← readGivenChar 58 s
    let limit := 8 - (head.length + 1)
    let ((tail, _), s) := readGroups limit 0 limit s
    let groups := head ++ List.replicate (8 - head.length - tail.length) 0 ++ tail
    pure (⟨groups.map Nat.toUInt16⟩, s)

/-- `Parser::read_port`: `:` and a decimal `u16`, leading zeros allowed. -/
def readPort (s : Bytes) : Option (Nat × Bytes) :=
  (readGivenChar 58 s).bind (readNumber 10 none true 65536)

/-- `Parser::read_scope_id`: `%` and a decimal `u32`. -/
def readScopeId (s : Bytes) : Option (Nat × Bytes) :=
  (readGivenChar 37 s).bind (readNumber 10 none true 4294967296)

/-- `Parser::read_socket_addr_v4`. -/
def readSocketAddrV4 (s : Bytes) : Option (SocketAddrV4 × Bytes) := do
  let (ip, s) ← readIpv4Addr s
  let (port, s) ← readPort s
  pure (⟨ip, port.toUInt16⟩, s)

/-- `Parser::read_socket_addr_v6`: `[`, the address, an optional scope,
`]` and the port. -/
def readSocketAddrV6 (s : Bytes) : Option (SocketAddrV6 × Bytes) := do
  let s ← readGivenChar 91 s
  let (ip, s) ← readIpv6Addr s
  let (scopeId, s) := (readScopeId s).getD (0, s)
  let s ← readGivenChar 93 s
  let (port, s) ← readPort s
  pure (⟨ip, port.toUInt16, scopeId.toUInt32⟩, s)

/-- `Parser::read_socket_addr`: an IPv4 socket address, or else an IPv6 one. -/
def readSocketAddr (s : Bytes) : Option (SocketAddr × Bytes) :=
  match readSocketAddrV4 s with
  | some (a, rest) => some (.v4 a, rest)
  | none => (readSocketAddrV6 s).map fun (a, rest) => (.v6 a, rest)

end Parser

/-- `SocketAddr::from_str`: `parse_with` succeeds only when the parser
has consumed the whole input. -/
def SocketAddr.parse (s : Bytes) : Option SocketAddr :=
  match Parser.readSocketAddr s with
  | some (a, []) => some a
  | _ => none

/-- The address a rendezvous record's tail names, decoded as
`connect_with_policy` and `bootstrap` decode it:
`String::from_utf8(rest)` and then `rest.parse::<SocketAddr>()`. -/
def recordAddr (rest : Bytes) : Option SocketAddr := (fromUtf8 rest).bind SocketAddr.parse

end SequoiaIpc
