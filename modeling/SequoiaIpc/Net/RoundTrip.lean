/-
SequoiaIpc.Net.RoundTrip — the parser reads back what `Display` wrote:
`SocketAddr.parse (a.fmt) = some (.v4 a)` for every IPv4 socket address,
and the bytes are valid UTF-8, so `recordAddr` recovers `a` too.

## How the proof goes

`readDigits_digits` says the digit loop takes exactly a run of digit
bytes and stops at the separator after it; `decimal_value` says the
left fold the loop computes gives the number back. `readNumber` then
succeeds on `decimal n` under the two regimes the parser uses: the
unbounded, checked one of the port (`readNumber_port`) and the
three-digit, no-leading-zero one of an octet (`readNumber_octet`),
which needs `decimal_length_le` and `decimal_head_ne_zero`. The address
is read chunk by chunk along `List.append_assoc`.

§2 is what a cut record leaves: a nonempty proper prefix of the digits
of a port is itself the `decimal` of a smaller number
(`take_decimal`), so it parses as another port.
-/
import SequoiaIpc.Net.Parser

namespace SequoiaIpc

open Parser

/-! ## 1. The round trip -/

/-- A byte is an ASCII decimal digit. -/
def IsDigitByte (b : UInt8) : Prop := 48 ≤ b.toNat ∧ b.toNat < 58

instance (b : UInt8) : Decidable (IsDigitByte b) := inferInstanceAs (Decidable (_ ∧ _))

/-- No digit starts the list. -/
def NoDigitHead (bs : Bytes) : Prop := ∀ b ∈ bs.head?, ¬ IsDigitByte b

@[simp] theorem noDigitHead_nil : NoDigitHead [] := by simp [NoDigitHead]

theorem noDigitHead_cons {b : UInt8} {bs : Bytes} (h : ¬ IsDigitByte b) :
    NoDigitHead (b :: bs) := by simpa [NoDigitHead] using h

theorem toDigit_ten (b : UInt8) :
    toDigit 10 b = if IsDigitByte b then some (b.toNat - 48) else none := by
  unfold toDigit IsDigitByte
  by_cases h : 48 ≤ b.toNat ∧ b.toNat < 58
  · simp only [if_pos h]; rw [if_pos (by omega)]
  · simp [h]

theorem digitByte_toNat {d : Nat} (h : d < 10) : (digitByte d).toNat = 48 + d :=
  UInt8.toNat_ofNat_of_lt (by unfold UInt8.size; omega)

theorem uint8_toNat_toUInt8 (x : UInt8) : x.toNat.toUInt8 = x :=
  UInt8.toNat.inj (UInt8.toNat_ofNat_of_lt x.toNat_lt_size)

theorem uint16_toNat_toUInt16 (x : UInt16) : x.toNat.toUInt16 = x :=
  UInt16.toNat.inj (UInt16.toNat_ofNat_of_lt x.toNat_lt_size)

theorem decimal_isDigit (n : Nat) : ∀ b ∈ decimal n, IsDigitByte b := by
  induction n using Nat.strong_induction_on with
  | _ n ih =>
    rw [decimal_eq]
    intro b hb
    rcases List.mem_append.mp hb with hb | hb
    · split at hb
      · simp at hb
      · exact ih (n / 10) (by omega) b hb
    · rw [List.mem_singleton.mp hb, IsDigitByte, digitByte_toNat (Nat.mod_lt _ (by omega))]
      omega

theorem readDigits_digits (rest : Bytes) (hr : NoDigitHead rest) :
    ∀ bs : Bytes, (∀ b ∈ bs, IsDigitByte b) →
      readDigits 10 (bs ++ rest) = (bs.map (·.toNat - 48), rest)
  | [], _ => by
    cases rest with
    | nil => rfl
    | cons b r =>
      have : ¬ IsDigitByte b := hr b rfl
      simp [readDigits, toDigit_ten, this]
  | b :: bs, hbs => by
    have hb : IsDigitByte b := hbs b (List.mem_cons_self _ _)
    simp [readDigits, toDigit_ten, hb,
      readDigits_digits rest hr bs fun x hx => hbs x (List.mem_cons_of_mem _ hx)]

/-- The fold `read_number`'s loop computes. -/
def digitsValue (radix : Nat) (ds : List Nat) : Nat := ds.foldl (fun acc d => acc * radix + d) 0

theorem decimal_value (n : Nat) : digitsValue 10 ((decimal n).map (·.toNat - 48)) = n := by
  induction n using Nat.strong_induction_on with
  | _ n ih =>
    have hd := digitByte_toNat (Nat.mod_lt n (by omega : 10 > 0))
    rw [decimal_eq]
    split
    · simp [digitsValue, hd]; omega
    · have := ih (n / 10) (by omega)
      simp only [digitsValue] at this ⊢
      simp [List.foldl_append, this, hd]
      omega

theorem foldl_le (radix : Nat) (hr : 0 < radix) :
    ∀ (ds : List Nat) (acc : Nat), acc ≤ ds.foldl (fun acc d => acc * radix + d) acc
  | [], _ => le_rfl
  | d :: ds, acc => by
    have := foldl_le radix hr ds (acc * radix + d)
    have : acc ≤ acc * radix := Nat.le_mul_of_pos_right acc hr
    simp only [List.foldl_cons]; omega

/-- The checked loop fails exactly when the unchecked value overflows. -/
theorem foldlM_checkedStep (radix bound : Nat) (hr : 0 < radix) :
    ∀ (ds : List Nat) (acc : Nat), acc < bound →
      ds.foldlM (checkedStep radix bound) acc =
        if ds.foldl (fun acc d => acc * radix + d) acc < bound
        then some (ds.foldl (fun acc d => acc * radix + d) acc) else none
  | [], acc, h => by simp [h]
  | d :: ds, acc, _ => by
    simp only [List.foldlM_cons, List.foldl_cons, checkedStep]
    split
    · exact foldlM_checkedStep radix bound hr ds _ (by omega)
    · have := foldl_le radix hr ds (acc * radix + d)
      rw [if_neg (by omega)]; rfl

theorem decimal_length (n : Nat) :
    (decimal n).length = if n < 10 then 1 else (decimal (n / 10)).length + 1 := by
  rw [decimal_eq]; split <;> simp

theorem decimal_length_le : ∀ (k n : Nat), n < Nat.pow 10 (k + 1) → (decimal n).length ≤ k + 1
  | 0, n, h => by rw [decimal_length, if_pos (by change n < 10 at h; exact h)]
  | k + 1, n, h => by
    rw [decimal_length]
    split
    · omega
    · have := decimal_length_le k (n / 10) (by change n < Nat.pow 10 (k + 1) * 10 at h; omega)
      omega

theorem decimal_head_ne_zero (n : Nat) (h : 0 < n) : (decimal n).head? ≠ some 48 := by
  induction n using Nat.strong_induction_on with
  | _ n ih =>
    rw [decimal_eq]
    split
    · rename_i hn
      intro he
      simp only [List.nil_append, List.head?_cons, Option.some.injEq] at he
      have h := congrArg UInt8.toNat he
      rw [digitByte_toNat (Nat.mod_lt n (by omega))] at h
      have h48 : (48 : UInt8).toNat = 48 := rfl
      omega
    · rw [List.head?_append_of_ne_nil _ (decimal_ne_nil _)]
      exact ih (n / 10) (by omega) (by omega)

/-- The port's regime: unbounded digits, checked in a `u16`. -/
theorem readNumber_port (n : Nat) (hn : n < 65536) (rest : Bytes) (hr : NoDigitHead rest) :
    readNumber 10 none true 65536 (decimal n ++ rest) = some (n, rest) := by
  have hv := decimal_value n
  simp only [digitsValue] at hv
  simp [readNumber, readDigits_digits rest hr _ (decimal_isDigit n),
    foldlM_checkedStep 10 65536 (by omega) _ 0 (by omega), hv, hn, decimal_ne_nil]

/-- An octet's regime: at most three digits, no leading zero, a `u8`. -/
theorem readNumber_octet (n : Nat) (hn : n < 256) (rest : Bytes) (hr : NoDigitHead rest) :
    readOctet (decimal n ++ rest) = some (n, rest) := by
  have hv := decimal_value n
  simp only [digitsValue] at hv
  have hlen : (decimal n).length ≤ 3 := decimal_length_le 2 n (by change n < 1000; omega)
  have hlead : ¬ ((decimal n ++ rest).head? = some 48 ∧ 1 < (decimal n).length) := by
    rintro ⟨h0, h1⟩
    rw [List.head?_append_of_ne_nil _ (decimal_ne_nil _)] at h0
    rcases Nat.eq_zero_or_pos n with rfl | hpos
    · exact absurd h1 (by decide)
    · exact decimal_head_ne_zero n hpos h0
  simp only [readOctet, readNumber, readDigits_digits rest hr _ (decimal_isDigit n),
    List.length_map, hv]
  simp only [beq_iff_eq, Bool.not_true, Bool.false_and, Bool.and_eq_true, decide_eq_true_eq,
    Bool.not_eq_true', Bool.true_and] at hlead ⊢
  rw [if_neg (by simpa using decimal_ne_nil n), if_neg (by simpa [Bool.and_eq_true] using hlead),
    if_neg (by omega), if_pos hn]
  rfl

theorem readOctet_decimal (x : UInt8) (rest : Bytes) (hr : NoDigitHead rest) :
    readOctet (decimal x.toNat ++ rest) = some (x.toNat, rest) :=
  readNumber_octet _ x.toNat_lt_size rest hr

theorem readOctet_dot (x : UInt8) (rest : Bytes) :
    readOctet (decimal x.toNat ++ 46 :: rest) = some (x.toNat, 46 :: rest) :=
  readOctet_decimal x _ (noDigitHead_cons (by decide))

theorem readIpv4Addr_fmt (ip : Ipv4Addr) (rest : Bytes) (hr : NoDigitHead rest) :
    readIpv4Addr (ip.fmt ++ rest) = some (ip, rest) := by
  simp only [Ipv4Addr.fmt, List.append_assoc, List.singleton_append, List.cons_append,
    readIpv4Addr, readSeparator, Nat.lt_irrefl, if_false, readOctet_dot]
  simp [readGivenChar, readOctet_dot, readOctet_decimal _ _ hr, uint8_toNat_toUInt8]

theorem readPort_decimal (p : UInt16) (rest : Bytes) (hr : NoDigitHead rest) :
    readPort (58 :: (decimal p.toNat ++ rest)) = some (p.toNat, rest) := by
  simp [readPort, readGivenChar, readNumber_port _ p.toNat_lt_size _ hr]

theorem readSocketAddrV4_fmt (a : SocketAddrV4) (rest : Bytes) (hr : NoDigitHead rest) :
    readSocketAddrV4 (a.fmt ++ rest) = some (a, rest) := by
  have h58 : NoDigitHead (58 :: (decimal a.port.toNat ++ rest)) :=
    noDigitHead_cons (by decide)
  simp only [SocketAddrV4.fmt, List.append_assoc, List.singleton_append] at h58 ⊢
  simp [readSocketAddrV4, readIpv4Addr_fmt _ _ h58, readPort_decimal _ _ hr,
    uint16_toNat_toUInt16]

/-- `SocketAddr::from_str` reads back `Display` of every IPv4 socket address. -/
theorem parse_fmt (a : SocketAddrV4) : SocketAddr.parse a.fmt = some (.v4 a) := by
  have h := readSocketAddrV4_fmt a [] noDigitHead_nil
  rw [List.append_nil] at h
  simp [SocketAddr.parse, readSocketAddr, h]

theorem lt_0x80_iff (b : UInt8) : b < 0x80 ↔ b.toNat < 128 := by
  rw [UInt8.lt_def, BitVec.lt_def]; rfl

theorem utf8Valid_ascii : ∀ bs : Bytes, (∀ b ∈ bs, b.toNat < 128) → utf8Valid bs = true
  | [], _ => rfl
  | b :: bs, h => by
    have hb : b < 0x80 := (lt_0x80_iff b).mpr (h b (List.mem_cons_self _ _))
    rw [utf8Valid, List.length_cons, utf8ValidCore, if_pos hb]
    exact utf8Valid_ascii bs fun x hx => h x (List.mem_cons_of_mem _ hx)

theorem fmt_ascii (a : SocketAddrV4) : ∀ b ∈ a.fmt, b.toNat < 128 := by
  have hd : ∀ n, ∀ b ∈ decimal n, b.toNat < 128 := fun n b hb => by
    have := decimal_isDigit n b hb; unfold IsDigitByte at this; omega
  have h46 : ∀ b ∈ ([46] : Bytes), b.toNat < 128 := by decide
  have h58 : ∀ b ∈ ([58] : Bytes), b.toNat < 128 := by decide
  rw [SocketAddrV4.fmt, Ipv4Addr.fmt]
  simp only [List.forall_mem_append]
  exact ⟨⟨⟨⟨⟨⟨⟨⟨hd _, h46⟩, hd _⟩, h46⟩, hd _⟩, h46⟩, hd _⟩, h58⟩, hd _⟩

/-- The address of a record written by `connect_with_policy` or `bootstrap`
is read back by their decoding. -/
theorem recordAddr_fmt (a : SocketAddrV4) : recordAddr a.fmt = some (.v4 a) := by
  rw [recordAddr, fromUtf8, if_pos (utf8Valid_ascii _ (fmt_ascii a)), Option.some_bind, parse_fmt]

/-! ## 2. Cut addresses -/

/-- A nonempty proper prefix of the digits of `n` is the decimal of a smaller number. -/
theorem take_decimal (n : Nat) :
    ∀ j, 0 < j → j < (decimal n).length → ∃ m < n, (decimal n).take j = decimal m := by
  induction n using Nat.strong_induction_on with
  | _ n ih =>
    intro j hj hlt
    have h10 : ¬ n < 10 := fun h => by rw [decimal_length, if_pos h] at hlt; omega
    have hlen := decimal_length n
    rw [if_neg h10] at hlen
    rw [decimal_eq, if_neg h10, List.take_append_of_le_length (by omega)]
    by_cases hj' : j = (decimal (n / 10)).length
    · exact ⟨n / 10, by omega, by rw [hj', List.take_length]⟩
    · obtain ⟨m, hm, he⟩ := ih (n / 10) (by omega) j hj (by omega)
      exact ⟨m, by omega, he⟩

/-- The bytes `127.0.0.1:` that precede the port. -/
def localhostPrefix : Bytes := [49, 50, 55, 46, 48, 46, 48, 46, 49, 58]

theorem fmt_localhost (port : UInt16) :
    (⟨Ipv4Addr.LOCALHOST, port⟩ : SocketAddrV4).fmt = localhostPrefix ++ decimal port.toNat := by
  show Ipv4Addr.LOCALHOST.fmt ++ [58] ++ decimal port.toNat = _
  rw [show Ipv4Addr.LOCALHOST.fmt ++ [58] = localhostPrefix by decide]

/-- No cut inside `127.0.0.1:` is an address. -/
theorem recordAddr_take_localhostPrefix :
    ∀ j, j ≤ 10 → recordAddr (localhostPrefix.take j) = none := by
  decide

theorem decimal_injective : Function.Injective decimal := fun a b h => by
  rw [← decimal_value a, h, decimal_value]

/-- A cut of `127.0.0.1:<port>` after `j` bytes is no address while it ends
inside `127.0.0.1:`, and once it reaches into the port it is the address
of the port its remaining digits spell, a smaller one. -/
theorem recordAddr_cut (port : UInt16) (j : Nat)
    (hj : j < (localhostPrefix ++ decimal port.toNat).length) :
    (j ≤ 10 → recordAddr ((localhostPrefix ++ decimal port.toNat).take j) = none) ∧
      (10 < j → ∃ q : UInt16, q < port ∧ decimal q.toNat = (decimal port.toNat).take (j - 10) ∧
        recordAddr ((localhostPrefix ++ decimal port.toNat).take j) = some (.localhost q)) := by
  have hL : localhostPrefix.length = 10 := rfl
  rw [List.take_append_eq_append_take, hL]
  rw [List.length_append, hL] at hj
  refine ⟨fun hk => ?_, fun hk => ?_⟩
  · rw [Nat.sub_eq_zero_of_le hk, List.take_zero, List.append_nil]
    exact recordAddr_take_localhostPrefix _ hk
  · rw [List.take_of_length_le (show localhostPrefix.length ≤ j by rw [hL]; omega)]
    obtain ⟨m, hm, hD⟩ := take_decimal port.toNat (j - 10) (by omega) (by omega)
    have hq : m.toUInt16.toNat = m :=
      UInt16.toNat_ofNat_of_lt (by have := port.toNat_lt_size; unfold UInt16.size at *; omega)
    have hlt : m.toUInt16 < port := by
      rw [UInt16.lt_def, BitVec.lt_def]
      show m.toUInt16.toNat < port.toNat
      omega
    refine ⟨m.toUInt16, hlt, by rw [hq, hD], ?_⟩
    rw [hD]
    simpa only [fmt_localhost, hq] using recordAddr_fmt ⟨Ipv4Addr.LOCALHOST, m.toUInt16⟩

end SequoiaIpc
