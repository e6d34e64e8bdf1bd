/-
SequoiaIpc.RecordFormat — what a reader of the rendezvous file accepts as a
record naming an IPv4 address.

`Net.RoundTrip` shows that the text `format!("{}", addr)` of every IPv4
socket address is read back. This module proves the converse, for the
decoding `connect_with_policy` and `bootstrap` apply to a file (`read`,
`String::from_utf8`, `parse::<SocketAddr>()`): whatever they take as a
record `(cookie, V4(a))` is the cookie's 32 bytes followed by the text of
`a`, except that the port may carry leading zeros, which `read_port`
allows and the octets of `read_ipv4_addr` do not:

    recordOf contents = some (c, .v4 a) ↔
      ∃ z, contents = c.bytes ++ (a.ip.fmt ++ ":" ++ "0"^z ++ decimal a.port)

§1 runs of digits: `readDigits_split` cuts the input where the digit loop
stops; `decimal_digitsValue` says a run without a leading zero is the
`decimal` of its value, and `digits_zeros_decimal` that any run is zeros
and then that text.
§2 numbers: the spec lemma of `read_number`, `readNumber_some`, and from
it `readOctet_sound` and `readPort_sound`; `readNumber_zeros` reads a port
with leading zeros.
§3 addresses: `readIpv4Addr_sound`, `readSocketAddrV4_sound` and
`parse_eq_v4_iff`.
§4 records: `recordAddr_eq_v4_iff` and `recordOf_eq_v4_iff`.
-/
import SequoiaIpc.Record

namespace SequoiaIpc

open Parser

/-! ## 1. Runs of digits -/

theorem digitByte_of_isDigit {b : UInt8} (h : IsDigitByte b) : digitByte (b.toNat - 48) = b := by
  unfold IsDigitByte at h
  exact UInt8.toNat.inj (by rw [digitByte_toNat (by omega)]; omega)

theorem digitByte_eq_48 {d : Nat} (h : d < 10) : digitByte d = 48 ↔ d = 0 := by
  constructor
  · intro he
    have := congrArg UInt8.toNat he
    rw [digitByte_toNat h] at this
    exact Nat.add_left_cancel (this.trans rfl : 48 + d = 48 + 0)
  · rintro rfl; rfl

/-- The digit loop stops at the first byte that is no digit: the input is
the digits it read, then what it leaves. -/
theorem readDigits_split : ∀ s : Bytes, ∃ ds rest, readDigits 10 s = (ds, rest) ∧
    s = ds.map digitByte ++ rest ∧ NoDigitHead rest ∧ ∀ d ∈ ds, d < 10
  | [] => ⟨[], [], rfl, rfl, noDigitHead_nil, by simp⟩
  | b :: s => by
    by_cases hb : IsDigitByte b
    · obtain ⟨ds, rest, hrd, hs, hr, hd⟩ := readDigits_split s
      refine ⟨(b.toNat - 48) :: ds, rest, ?_, ?_, hr, ?_⟩
      · simp [readDigits, toDigit_ten, hb, hrd]
      · rw [List.map_cons, digitByte_of_isDigit hb, hs, List.cons_append]
      · unfold IsDigitByte at hb
        simpa using ⟨by omega, hd⟩
    · exact ⟨[], b :: s, by simp [readDigits, toDigit_ten, hb], rfl, noDigitHead_cons hb,
        by simp⟩

theorem digitsValue_append_singleton (ds : List Nat) (d : Nat) :
    digitsValue 10 (ds ++ [d]) = digitsValue 10 ds * 10 + d := by
  simp [digitsValue, List.foldl_append]

theorem digitsValue_zero_cons (ds : List Nat) : digitsValue 10 (0 :: ds) = digitsValue 10 ds := rfl

theorem digitsValue_pos {d : Nat} (ds : List Nat) (h : 0 < d) : 0 < digitsValue 10 (d :: ds) := by
  have := foldl_le 10 (by omega) ds (0 * 10 + d)
  simp only [digitsValue, List.foldl_cons]
  omega

/-- A run of digits that is one digit or starts with no zero is the
`decimal` of its value. -/
theorem decimal_digitsValue (ds : List Nat) (hd : ∀ d ∈ ds, d < 10) (hne : ds ≠ [])
    (hz : ds.length = 1 ∨ ∀ d ∈ ds.head?, 0 < d) :
    decimal (digitsValue 10 ds) = ds.map digitByte := by
  induction ds using List.reverseRecOn with
  | nil => exact absurd rfl hne
  | append_singleton ds d ih =>
    have hd10 : d < 10 := hd d (by simp)
    rw [digitsValue_append_singleton, decimal_eq, List.map_append, List.map_singleton]
    by_cases hds : ds = []
    · subst hds
      simp [digitsValue, hd10, Nat.mod_eq_of_lt hd10]
    obtain ⟨x, xs, rfl⟩ := List.exists_cons_of_ne_nil hds
    have hx : 0 < x := by
      rcases hz with hz | hz
      · simp at hz
      · exact hz x (by simp)
    have hpos := digitsValue_pos xs hx
    have hdiv : (digitsValue 10 (x :: xs) * 10 + d) / 10 = digitsValue 10 (x :: xs) := by omega
    have hmod : (digitsValue 10 (x :: xs) * 10 + d) % 10 = d := by omega
    rw [if_neg (by omega), hdiv, hmod,
      ih (fun y hy => hd y (List.mem_append_left _ hy)) (List.cons_ne_nil _ _) (.inr (by simpa using hx))]

/-- Every nonempty run of digits is zeros and then the `decimal` of its value. -/
theorem digits_zeros_decimal : ∀ ds : List Nat, (∀ d ∈ ds, d < 10) → ds ≠ [] →
    ∃ z, ds.map digitByte = List.replicate z 48 ++ decimal (digitsValue 10 ds)
  | [], _, hne => absurd rfl hne
  | d :: ds, hd, _ => by
    by_cases h0 : d = 0
    · subst h0
      by_cases hds : ds = []
      · exact ⟨0, by subst hds; rfl⟩
      obtain ⟨z, hz⟩ := digits_zeros_decimal ds (fun y hy => hd y (by simp [hy])) hds
      exact ⟨z + 1, by rw [List.map_cons, hz, digitsValue_zero_cons]; rfl⟩
    · exact ⟨0, (decimal_digitsValue _ hd (List.cons_ne_nil _ _)
        (.inr (by simpa using Nat.pos_of_ne_zero h0))).symm⟩

theorem digitsValue_replicate_zero (z : Nat) (ds : List Nat) :
    digitsValue 10 (List.replicate z 0 ++ ds) = digitsValue 10 ds := by
  induction z with
  | zero => rfl
  | succ z ih => rw [List.replicate_succ, List.cons_append, digitsValue_zero_cons, ih]

/-! ## 2. Numbers -/

/-- What a successful `read_number` in radix 10 read: a nonempty run of
digits whose value fits the integer type, and the input after the run; a
leading zero only as the whole number unless `allowZeroPrefix`. -/
theorem readNumber_some {maxDigits : Option Nat} {zp : Bool} {bound n : Nat} {s r : Bytes}
    (hb : 0 < bound) (h : readNumber 10 maxDigits zp bound s = some (n, r)) :
    ∃ ds, ds ≠ [] ∧ (∀ d ∈ ds, d < 10) ∧ s = ds.map digitByte ++ r ∧ NoDigitHead r ∧
      n = digitsValue 10 ds ∧ n < bound ∧
      (zp = false → ds.length = 1 ∨ ∀ d ∈ ds.head?, 0 < d) := by
  obtain ⟨ds, rest, hrd, hs, hr, hd⟩ := readDigits_split s
  have key : ds.length ≠ 0 ∧ ¬((zp = false ∧ s.head? = some 48) ∧ 1 < ds.length) ∧
      digitsValue 10 ds = n ∧ digitsValue 10 ds < bound ∧ rest = r := by
    -- with or without a digit limit, the same three checks
    cases maxDigits <;>
    · simp only [readNumber, hrd, foldlM_checkedStep 10 bound (by omega) _ 0 hb] at h
      split_ifs at h with h0 hz <;> simp only [Option.map_none', Option.map_some',
        Option.some.injEq, Prod.mk.injEq, reduceCtorEq] at h
      simp only [Bool.and_eq_true, Bool.not_eq_true', beq_iff_eq, decide_eq_true_eq] at hz
      exact ⟨h0, hz, h.1, by assumption, h.2⟩
  obtain ⟨h0, hz, hvn, hlt, rfl⟩ := key
  obtain ⟨x, xs, rfl⟩ := List.exists_cons_of_ne_nil fun he : ds = [] => h0 (by simp [he])
  have hx : x < 10 := hd x (by simp)
  refine ⟨x :: xs, List.cons_ne_nil _ _, hd, hs, hr, hvn.symm, hvn ▸ hlt, fun hzp => ?_⟩
  by_cases hl : (x :: xs).length = 1
  · exact .inl hl
  · have hl1 : 1 < (x :: xs).length := by rw [List.length_cons] at hl ⊢; omega
    refine .inr fun y hy => ?_
    obtain rfl : x = y := by simpa using hy
    refine Nat.pos_of_ne_zero fun hx0 => hz ⟨⟨hzp, ?_⟩, hl1⟩
    rw [hs, List.map_cons, List.cons_append, List.head?_cons, (digitByte_eq_48 hx).mpr hx0]

/-- An octet is the `decimal` of a `u8` value: no leading zero, at most
three digits. -/
theorem readOctet_sound {s r : Bytes} {n : Nat} (h : readOctet s = some (n, r)) :
    n < 256 ∧ NoDigitHead r ∧ s = decimal n ++ r := by
  obtain ⟨ds, hne, hd, rfl, hr, rfl, hn, hz⟩ := readNumber_some (by omega) h
  exact ⟨hn, hr, by rw [decimal_digitsValue ds hd hne (hz rfl)]⟩

theorem readGivenChar_eq_some {c : UInt8} {s s' : Bytes} :
    readGivenChar c s = some s' ↔ s = c :: s' := by
  cases s with
  | nil => simp [readGivenChar]
  | cons b s => simp [readGivenChar, eq_comm]

/-- A port is `:`, zeros and the `decimal` of a `u16` value. -/
theorem readPort_sound {s r : Bytes} {n : Nat} (h : readPort s = some (n, r)) :
    n < 65536 ∧ NoDigitHead r ∧ ∃ z, s = 58 :: (List.replicate z 48 ++ decimal n ++ r) := by
  obtain ⟨s', h58, h⟩ := Option.bind_eq_some.mp h
  obtain ⟨ds, hne, hd, rfl, hr, rfl, hn, -⟩ := readNumber_some (by omega) h
  obtain ⟨z, hz⟩ := digits_zeros_decimal ds hd hne
  exact ⟨hn, hr, z, by rw [readGivenChar_eq_some.mp h58, hz]⟩

/-- The port's regime reads zeros and then the `decimal` of the value. -/
theorem readNumber_zeros (z n : Nat) (hn : n < 65536) (rest : Bytes) (hr : NoDigitHead rest) :
    readNumber 10 none true 65536 (List.replicate z 48 ++ decimal n ++ rest) = some (n, rest) := by
  have hdig : ∀ b ∈ List.replicate z 48 ++ decimal n, IsDigitByte b := by
    intro b hb
    rcases List.mem_append.mp hb with hb | hb
    · rw [List.eq_of_mem_replicate hb]; decide
    · exact decimal_isDigit n b hb
  have hds : (List.replicate z 48 ++ decimal n).map (fun b : UInt8 => b.toNat - 48) =
      List.replicate z 0 ++ (decimal n).map (·.toNat - 48) := by
    rw [List.map_append, List.map_replicate]; rfl
  have hv : digitsValue 10 (List.replicate z 0 ++ (decimal n).map (·.toNat - 48)) = n := by
    rw [digitsValue_replicate_zero, decimal_value]
  have hne : (List.replicate z 0 ++ (decimal n).map (fun b : UInt8 => b.toNat - 48)).length ≠ 0 := by
    simp [decimal_ne_nil]
  unfold digitsValue at hv
  simp only [readNumber, readDigits_digits rest hr _ hdig, hds,
    foldlM_checkedStep 10 65536 (by omega) _ 0 (by omega), hv, if_pos hn, if_neg hne,
    Bool.not_true, Bool.false_and, Bool.false_eq_true, if_false, Option.map_some']

/-! ## 3. Addresses -/

theorem toUInt8_toNat {n : Nat} (h : n < 256) : n.toUInt8.toNat = n :=
  UInt8.toNat_ofNat_of_lt (by unfold UInt8.size; omega)

theorem toUInt16_toNat {n : Nat} (h : n < 65536) : n.toUInt16.toNat = n :=
  UInt16.toNat_ofNat_of_lt (by unfold UInt16.size; omega)

/-- An IPv4 address is read only from its `Display` text. -/
theorem readIpv4Addr_sound {s r : Bytes} {ip : Ipv4Addr} (h : readIpv4Addr s = some (ip, r)) :
    NoDigitHead r ∧ s = ip.fmt ++ r := by
  simp only [readIpv4Addr, readSeparator, Nat.lt_irrefl, if_false, Nat.zero_lt_one,
    Nat.zero_lt_two, Nat.zero_lt_succ, if_true, Option.bind_eq_bind, Option.bind_eq_some,
    readGivenChar_eq_some] at h
  obtain ⟨⟨a, s₁⟩, ha, ⟨b, s₂⟩, ⟨t₂, rfl, hb⟩, ⟨c, s₃⟩, ⟨t₃, rfl, hc⟩, ⟨d, s₄⟩, ⟨t₄, rfl, hd⟩,
    he⟩ := h
  obtain ⟨ha', -, rfl⟩ := readOctet_sound ha
  obtain ⟨hb', -, rfl⟩ := readOctet_sound hb
  obtain ⟨hc', -, rfl⟩ := readOctet_sound hc
  obtain ⟨hd', hr, rfl⟩ := readOctet_sound hd
  simp only [pure, Option.some.injEq, Prod.mk.injEq] at he
  obtain ⟨rfl, rfl⟩ := he
  refine ⟨hr, ?_⟩
  simp [Ipv4Addr.fmt, toUInt8_toNat ha', toUInt8_toNat hb', toUInt8_toNat hc', toUInt8_toNat hd']

/-- An IPv4 socket address is read only from its `Display` text, with any
number of zeros before the port. -/
theorem readSocketAddrV4_sound {s r : Bytes} {a : SocketAddrV4}
    (h : readSocketAddrV4 s = some (a, r)) :
    ∃ z, s = a.ip.fmt ++ [58] ++ List.replicate z 48 ++ decimal a.port.toNat ++ r := by
  simp only [readSocketAddrV4, Option.bind_eq_bind, Option.bind_eq_some] at h
  obtain ⟨⟨ip, s₁⟩, hip, ⟨p, s₂⟩, hp, he⟩ := h
  obtain ⟨-, rfl⟩ := readIpv4Addr_sound hip
  obtain ⟨hp', -, z, rfl⟩ := readPort_sound hp
  simp only [pure, Option.some.injEq, Prod.mk.injEq] at he
  obtain ⟨rfl, rfl⟩ := he
  exact ⟨z, by simp [toUInt16_toNat hp']⟩

theorem parse_eq_v4 (s : Bytes) (a : SocketAddrV4) :
    SocketAddr.parse s = some (.v4 a) ↔ readSocketAddrV4 s = some (a, []) := by
  unfold SocketAddr.parse readSocketAddr
  cases readSocketAddrV4 s with
  | some x =>
    obtain ⟨a', rest⟩ := x
    cases rest <;> simp
  | none =>
    cases readSocketAddrV6 s with
    | none => simp
    | some y =>
      obtain ⟨a6, rest⟩ := y
      cases rest <;> simp

/-- `SocketAddr::from_str` returns an IPv4 address `a` exactly on the
`Display` text of `a` with any number of zeros before the port. -/
theorem parse_eq_v4_iff (s : Bytes) (a : SocketAddrV4) :
    SocketAddr.parse s = some (.v4 a) ↔
      ∃ z, s = a.ip.fmt ++ [58] ++ List.replicate z 48 ++ decimal a.port.toNat := by
  rw [parse_eq_v4]
  constructor
  · intro h
    simpa using readSocketAddrV4_sound h
  · rintro ⟨z, rfl⟩
    have h58 : NoDigitHead (58 :: (List.replicate z 48 ++ decimal a.port.toNat)) :=
      noDigitHead_cons (by decide)
    have hp := readNumber_zeros z a.port.toNat a.port.toNat_lt_size [] noDigitHead_nil
    rw [List.append_nil] at hp
    simp only [List.append_assoc, List.singleton_append] at h58 ⊢
    simp [readSocketAddrV4, readIpv4Addr_fmt _ _ h58, readPort, readGivenChar, hp,
      uint16_toNat_toUInt16]

/-! ## 4. Records -/

theorem padded_ascii (z : Nat) (a : SocketAddrV4) :
    ∀ b ∈ a.ip.fmt ++ [58] ++ List.replicate z 48 ++ decimal a.port.toNat, b.toNat < 128 := by
  have h := fmt_ascii a
  simp only [SocketAddrV4.fmt, List.forall_mem_append] at h ⊢
  exact ⟨⟨h.1, fun b hb => by rw [List.eq_of_mem_replicate hb]; decide⟩, h.2⟩

/-- The tail of a record names the IPv4 address `a` exactly when it is the
text of `a`, with any number of zeros before the port. -/
theorem recordAddr_eq_v4_iff (rest : Bytes) (a : SocketAddrV4) :
    recordAddr rest = some (.v4 a) ↔
      ∃ z, rest = a.ip.fmt ++ [58] ++ List.replicate z 48 ++ decimal a.port.toNat := by
  rw [← parse_eq_v4_iff]
  unfold recordAddr fromUtf8
  split
  · rfl
  · rename_i hv
    refine ⟨fun h => Option.noConfusion h, fun hp => ?_⟩
    obtain ⟨z, rfl⟩ := (parse_eq_v4_iff _ _).mp hp
    exact absurd (utf8Valid_ascii _ (padded_ascii z a)) hv

theorem Cookie.extract_eq_some {buf rest : Bytes} {c : Cookie}
    (h : Cookie.extract buf = some (c, rest)) : buf = c.bytes ++ rest := by
  unfold Cookie.extract at h
  split at h
  · simp only [Option.some.injEq, Prod.mk.injEq] at h
    obtain ⟨rfl, rfl⟩ := h
    exact (List.take_append_drop _ _).symm
  · exact absurd h (by simp)

/-- **What a reader accepts.** A rendezvous file is read as the record of a
cookie `c` and an IPv4 address `a` exactly when it holds the 32 bytes of `c`
followed by the text of `a`, with any number of zeros before the port. -/
theorem recordOf_eq_v4_iff (contents : Bytes) (c : Cookie) (a : SocketAddrV4) :
    recordOf contents = some (c, .v4 a) ↔
      ∃ z, contents = c.bytes ++ (a.ip.fmt ++ [58] ++ List.replicate z 48 ++ decimal a.port.toNat) := by
  constructor
  · intro h
    simp only [recordOf_eq, Option.bind_eq_some, Option.map_eq_some', Prod.mk.injEq] at h
    obtain ⟨⟨c', rest⟩, hx, x, hx', rfl, rfl⟩ := h
    obtain ⟨z, rfl⟩ := (recordAddr_eq_v4_iff rest a).mp hx'
    exact ⟨z, Cookie.extract_eq_some hx⟩
  · rintro ⟨z, rfl⟩
    rw [recordOf_eq, Cookie.extract_append, Option.some_bind, (recordAddr_eq_v4_iff _ a).mpr ⟨z, rfl⟩]
    rfl

end SequoiaIpc
