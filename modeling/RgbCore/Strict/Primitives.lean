import RgbCore.Strict.Codec

/-!
# Integers and byte arrays

Integers are written little-endian at their fixed width: `u8` to `u64`, and
`i64` as its two's complement bits. A byte array is written as its bytes. The
width is the whole story, so one codec `fixedWidth` serves every integer type,
with its three conversion facts as the hypotheses of its round trip.
-/

namespace RgbCore.Strict

/-- The low `w` bytes of `n`, least significant first. -/
def encodeLE : Nat → Nat → List UInt8
  | 0, _ => []
  | w + 1, n => UInt8.ofNat (n % 256) :: encodeLE w (n / 256)

/-- Read `w` little-endian bytes. -/
def decodeLE : Nat → List UInt8 → Except DecodeError (Nat × List UInt8)
  | 0, b => .ok (0, b)
  | _ + 1, [] => .error .unexpectedEof
  | w + 1, x :: b => (decodeLE w b).map fun p => (x.toNat + 256 * p.1, p.2)

theorem uint8_ofNat_toNat (x : UInt8) : UInt8.ofNat x.toNat = x :=
  UInt8.toNat.inj (UInt8.toNat_ofNat_of_lt x.toNat_lt_size)

theorem uint16_ofNat_toNat (x : UInt16) : UInt16.ofNat x.toNat = x :=
  UInt16.toNat.inj (UInt16.toNat_ofNat_of_lt x.toNat_lt_size)

theorem uint32_ofNat_toNat (x : UInt32) : UInt32.ofNat x.toNat = x :=
  UInt32.toNat.inj (UInt32.toNat_ofNat_of_lt x.toNat_lt_size)

theorem decodeLE_encodeLE (w n : Nat) (rest : List UInt8) :
    decodeLE w (encodeLE w n ++ rest) = .ok (n % 256 ^ w, rest) := by
  induction w generalizing n with
  | zero => simp [encodeLE, decodeLE, Nat.mod_one]
  | succ w ih =>
    have hlow : (UInt8.ofNat (n % 256)).toNat = n % 256 :=
      UInt8.toNat_ofNat_of_lt (Nat.mod_lt _ (by decide))
    rw [encodeLE, List.cons_append, decodeLE, ih]
    simp only [Except.map, hlow, Nat.pow_succ', Nat.mod_mul]

theorem encodeLE_of_decodeLE {w n : Nat} {b rest : List UInt8}
    (h : decodeLE w b = .ok (n, rest)) : n < 256 ^ w ∧ b = encodeLE w n ++ rest := by
  induction w generalizing b n with
  | zero =>
    cases h
    exact ⟨by decide, rfl⟩
  | succ w ih =>
    rcases b with _ | ⟨x, b⟩
    · cases h
    obtain ⟨⟨m, r⟩, hm, he⟩ := map_eq_ok.1 h
    simp only [Prod.mk.injEq] at he
    obtain ⟨rfl, rfl⟩ := he
    obtain ⟨hlt, rfl⟩ := ih hm
    have hx : x.toNat < 256 := x.toNat_lt_size
    refine ⟨by rw [Nat.pow_succ']; omega, ?_⟩
    have hmod : (x.toNat + 256 * m) % 256 = x.toNat := by omega
    have hdiv : (x.toNat + 256 * m) / 256 = m := by omega
    simp [encodeLE, hmod, hdiv, uint8_ofNat_toNat]

/-- A fixed-width integer type, `w` bytes little-endian. -/
def fixedWidth (w : Nat) (toNat : α → Nat) (ofNat : Nat → α) : StrictCodec α where
  encode a := encodeLE w (toNat a)
  decode b := (decodeLE w b).map fun p => (ofNat p.1, p.2)

theorem fixedWidth_lawful {w : Nat} {toNat : α → Nat} {ofNat : Nat → α}
    (hlt : ∀ a, toNat a < 256 ^ w) (hof : ∀ a, ofNat (toNat a) = a)
    (hto : ∀ n < 256 ^ w, toNat (ofNat n) = n) : (fixedWidth w toNat ofNat).Lawful where
  decode_encode a rest := by
    simp [fixedWidth, decodeLE_encodeLE, Nat.mod_eq_of_lt (hlt a), hof, Except.map]
  encode_of_decode hd := by
    obtain ⟨⟨n, r⟩, hn, he⟩ := map_eq_ok.1 hd
    cases he
    obtain ⟨hlt', rfl⟩ := encodeLE_of_decodeLE hn
    simp [fixedWidth, hto n hlt']

def u8 : StrictCodec UInt8 := fixedWidth 1 UInt8.toNat UInt8.ofNat
def u16 : StrictCodec UInt16 := fixedWidth 2 UInt16.toNat UInt16.ofNat
def u32 : StrictCodec UInt32 := fixedWidth 4 UInt32.toNat UInt32.ofNat
def u64 : StrictCodec UInt64 := fixedWidth 8 UInt64.toNat UInt64.ofNat

theorem u8_lawful : u8.Lawful :=
  fixedWidth_lawful UInt8.toNat_lt_size uint8_ofNat_toNat fun _ => UInt8.toNat_ofNat_of_lt

theorem u16_lawful : u16.Lawful :=
  fixedWidth_lawful UInt16.toNat_lt_size uint16_ofNat_toNat fun _ => UInt16.toNat_ofNat_of_lt

theorem u32_lawful : u32.Lawful :=
  fixedWidth_lawful UInt32.toNat_lt_size uint32_ofNat_toNat fun _ => UInt32.toNat_ofNat_of_lt

theorem u64_lawful : u64.Lawful :=
  fixedWidth_lawful UInt64.toNat_lt_size
    (fun a => UInt64.toNat.inj (UInt64.toNat_ofNat_of_lt a.toNat_lt_size))
    fun _ => UInt64.toNat_ofNat_of_lt

end RgbCore.Strict

namespace RgbCore

/-- Rust's `i64`: an integer that carries its range. -/
structure I64 where
  val : Int
  range : -2 ^ 63 ≤ val ∧ val < 2 ^ 63
  deriving DecidableEq

namespace I64

/-- The two's complement bits. -/
def toBits (x : I64) : Nat := (x.val % 2 ^ 64).toNat

/-- The integer of 64 two's complement bits, read modulo `2^64`. -/
def ofBits (n : Nat) : I64 :=
  if h : n % 2 ^ 64 < 2 ^ 63 then ⟨(n % 2 ^ 64 : Nat), by omega⟩
  else ⟨((n % 2 ^ 64 : Nat) : Int) - 2 ^ 64, by omega⟩

theorem ext_val {x y : I64} (h : x.val = y.val) : x = y := by
  cases x; cases y; cases h; rfl

theorem val_inj {x y : I64} : x.val = y.val ↔ x = y := ⟨ext_val, congrArg _⟩

theorem toBits_lt (x : I64) : x.toBits < 256 ^ 8 := by
  have := x.range
  unfold toBits
  omega

theorem ofBits_toBits (x : I64) : ofBits x.toBits = x := by
  have := x.range
  apply ext_val
  unfold ofBits toBits
  split <;> simp only <;> omega

theorem toBits_ofBits {n : Nat} (h : n < 256 ^ 8) : (ofBits n).toBits = n := by
  unfold ofBits toBits
  split <;> simp only <;> omega

end I64

namespace Strict

def i64 : StrictCodec I64 := fixedWidth 8 I64.toBits I64.ofBits

theorem i64_lawful : i64.Lawful :=
  fixedWidth_lawful I64.toBits_lt I64.ofBits_toBits fun _ => I64.toBits_ofBits

/-- A byte array, its bytes as they are. -/
def bytes32 : StrictCodec Bytes32 where
  encode a := a.bytes
  decode b :=
    if h : 32 ≤ b.length then
      .ok (⟨b.take 32, by rw [List.length_take, Nat.min_eq_left h]⟩, b.drop 32)
    else .error .unexpectedEof

theorem bytes32_lawful : bytes32.Lawful where
  decode_encode a rest := by
    have h := a.length_eq
    simp [bytes32, h, List.take_left' h, List.drop_left' h]
  encode_of_decode {b} _ _ hd := by
    simp only [bytes32] at hd
    split at hd
    · cases hd
      exact (List.take_append_drop 32 b).symm
    · cases hd

end Strict

end RgbCore
