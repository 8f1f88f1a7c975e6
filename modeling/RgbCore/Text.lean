import RgbCore.Ordering

/-!
# Text

The source reads and writes identifiers as text: node ids as lowercase hex
(`to_hex`, `from_hex`), integers in decimal (`Display` and `from_str` of
`u16`), fields separated by `'/'` or `':'` (`str::split`, `str::split_once`).
Text is a list of characters.

Each printer is followed by the facts its parser needs: the parser reads the
printed text back, and the printed text holds no separator, so splitting a
joined string gives back its pieces.
-/

namespace RgbCore.Text

/-! ### Hex -/

/-- The value of a hex digit, either case. -/
def hexValue (c : Char) : Option Nat :=
  if 48 ≤ c.toNat ∧ c.toNat ≤ 57 then some (c.toNat - 48)
  else if 97 ≤ c.toNat ∧ c.toNat ≤ 102 then some (c.toNat - 87)
  else if 65 ≤ c.toNat ∧ c.toNat ≤ 70 then some (c.toNat - 55)
  else none

/-- `hex::Error`. -/
inductive HexError where
  | invalidChar (c : Char)
  | oddLengthString (len : Nat)
  | invalidLength (expected got : Nat)
  deriving DecidableEq, Repr

/-- `to_hex`: two lowercase digits a byte, high digit first. -/
def toHex : List UInt8 → List Char
  | [] => []
  | b :: bs => Nat.digitChar (b.toNat / 16) :: Nat.digitChar (b.toNat % 16) :: toHex bs

def hexDigit (c : Char) : Except HexError Nat :=
  match hexValue c with
  | some d => .ok d
  | none => .error (.invalidChar c)

/-- The bytes of a string of hex digit pairs. -/
def hexPairs : List Char → Except HexError (List UInt8)
  | hi :: lo :: cs => do
    let h ← hexDigit hi
    let l ← hexDigit lo
    let bs ← hexPairs cs
    pure (UInt8.ofNat (16 * h + l) :: bs)
  | _ => .ok []

/-- `Vec<u8>::from_hex`: an odd length fails before any digit is read. -/
def fromHex (s : List Char) : Except HexError (List UInt8) :=
  if s.length % 2 = 0 then hexPairs s else .error (.oddLengthString s.length)

theorem hexValue_digitChar : ∀ d : Fin 16, hexValue (Nat.digitChar d) = some d := by decide

theorem hexPairs_toHex (bs : List UInt8) : hexPairs (toHex bs) = .ok bs := by
  induction bs with
  | nil => rfl
  | cons b bs ih =>
    have hb : b.toNat < 256 := b.toNat_lt_size
    have hhi := hexValue_digitChar ⟨b.toNat / 16, by omega⟩
    have hlo := hexValue_digitChar ⟨b.toNat % 16, by omega⟩
    simp only at hhi hlo
    have hv : UInt8.ofNat (16 * (b.toNat / 16) + b.toNat % 16) = b :=
      UInt8.toNat.inj (by
        rw [UInt8.toNat_ofNat_of_lt (show 16 * (b.toNat / 16) + b.toNat % 16 < 256 by omega)]
        omega)
    simp [toHex, hexPairs, hexDigit, hhi, hlo, ih, hv, bind, Except.bind, pure, Except.pure]

theorem length_toHex (bs : List UInt8) : (toHex bs).length = 2 * bs.length := by
  induction bs with
  | nil => rfl
  | cons b bs ih => simp [toHex, ih]; omega

theorem fromHex_toHex (bs : List UInt8) : fromHex (toHex bs) = .ok bs := by
  simp [fromHex, length_toHex, hexPairs_toHex]

theorem hexValue_isSome_of_mem_toHex {bs : List UInt8} {c : Char} (h : c ∈ toHex bs) :
    (hexValue c).isSome := by
  induction bs with
  | nil => cases h
  | cons b bs ih =>
    have hb : b.toNat < 256 := b.toNat_lt_size
    simp only [toHex, List.mem_cons] at h
    rcases h with rfl | rfl | h
    · simp [hexValue_digitChar ⟨b.toNat / 16, by omega⟩]
    · simp [hexValue_digitChar ⟨b.toNat % 16, by omega⟩]
    · exact ih h

/-- A character that is no hex digit, a separator, never occurs in hex. -/
theorem not_mem_toHex {c : Char} (hc : hexValue c = none) (bs : List UInt8) : c ∉ toHex bs :=
  fun h => by simpa [hc] using hexValue_isSome_of_mem_toHex h

/-- `Bytes32::from_hex`: the hex digits of exactly 32 bytes. -/
def bytes32FromHex (s : List Char) : Except HexError Bytes32 :=
  fromHex s >>= fun bs =>
    if h : bs.length = 32 then .ok ⟨bs, h⟩ else .error (.invalidLength 32 bs.length)

theorem bytes32FromHex_toHex (b : Bytes32) : bytes32FromHex (toHex b.bytes) = .ok b := by
  simp [bytes32FromHex, fromHex_toHex, bind, Except.bind, b.length_eq]

/-! ### Decimal -/

/-- `char::to_digit(10)`. -/
def decimalDigit (c : Char) : Option Nat :=
  if 48 ≤ c.toNat ∧ c.toNat ≤ 57 then some (c.toNat - 48) else none

/-- The kinds of Rust's `ParseIntError` an unsigned type can return. -/
inductive IntErrorKind where
  | empty
  | invalidDigit
  | posOverflow
  deriving DecidableEq, Repr

/-- The digit loop of `from_str_radix` for an unsigned type of `size` values:
each step takes a digit, then multiplies by ten and adds it, failing on
overflow. -/
def accumulate (size : Nat) : Nat → List Char → Except IntErrorKind Nat
  | acc, [] => .ok acc
  | acc, c :: cs =>
    match decimalDigit c with
    | none => .error .invalidDigit
    | some d =>
      if acc * 10 + d < size then accumulate size (acc * 10 + d) cs else .error .posOverflow

/-- `from_str` of an unsigned type of `size` values: an optional `'+'`, then
digits; a lone sign is an invalid digit. -/
def parseUnsigned (size : Nat) : List Char → Except IntErrorKind Nat
  | [] => .error .empty
  | ['+'] => .error .invalidDigit
  | ['-'] => .error .invalidDigit
  | '+' :: ds => accumulate size 0 ds
  | ds => accumulate size 0 ds

/-- `Display` of an integer: `Nat.toDigits 10`. -/
def decimal (n : Nat) : List Char := Nat.toDigits 10 n

theorem toDigitsCore_append (f n : Nat) (ds : List Char) :
    Nat.toDigitsCore 10 f n ds = Nat.toDigitsCore 10 f n [] ++ ds := by
  induction f generalizing n ds with
  | zero => rfl
  | succ f ih =>
    simp only [Nat.toDigitsCore]
    split
    · rfl
    · rw [ih _ (_ :: ds), ih _ [_]]
      simp

theorem toDigitsCore_fuel {f g n : Nat} (hf : n < f) (hg : n < g) (ds : List Char) :
    Nat.toDigitsCore 10 f n ds = Nat.toDigitsCore 10 g n ds := by
  induction f generalizing g n ds with
  | zero => omega
  | succ f ih =>
    obtain ⟨g, rfl⟩ : ∃ g', g = g' + 1 := ⟨g - 1, by omega⟩
    simp only [Nat.toDigitsCore]
    split
    · rfl
    · exact ih (by omega) (by omega) _

theorem decimal_of_lt {n : Nat} (h : n < 10) : decimal n = [Nat.digitChar n] := by
  simp [decimal, Nat.toDigits, Nat.toDigitsCore, Nat.div_eq_of_lt h, Nat.mod_eq_of_lt h]

theorem decimal_of_ge {n : Nat} (h : 10 ≤ n) :
    decimal n = decimal (n / 10) ++ [Nat.digitChar (n % 10)] := by
  have hne : n / 10 ≠ 0 := by omega
  have hl : decimal n = Nat.toDigitsCore 10 n (n / 10) [Nat.digitChar (n % 10)] := by
    simp [decimal, Nat.toDigits, Nat.toDigitsCore, hne]
  rw [hl, toDigitsCore_append, toDigitsCore_fuel (by omega) (Nat.lt_succ_self (n / 10))]
  rfl

theorem decimal_ne_nil (n : Nat) : decimal n ≠ [] := by
  by_cases hn : n < 10
  · simp [decimal_of_lt hn]
  · simp [decimal_of_ge (by omega : 10 ≤ n)]

theorem decimalDigit_digitChar : ∀ d : Fin 10, decimalDigit (Nat.digitChar d) = some d := by
  decide

theorem accumulate_append (size acc : Nat) (xs ys : List Char) :
    accumulate size acc (xs ++ ys) = accumulate size acc xs >>= fun a => accumulate size a ys := by
  induction xs generalizing acc with
  | nil => rfl
  | cons c cs ih =>
    simp only [List.cons_append, accumulate]
    split
    · rfl
    · split
      · exact ih _
      · rfl

theorem accumulate_decimal {size n : Nat} (h : n < size) :
    accumulate size 0 (decimal n) = .ok n := by
  induction n using Nat.strong_induction_on with
  | _ n ih =>
    by_cases hn : n < 10
    · have hd := decimalDigit_digitChar ⟨n, hn⟩
      simp only at hd
      simp [decimal_of_lt hn, accumulate, hd, h]
    · have hd := decimalDigit_digitChar ⟨n % 10, Nat.mod_lt _ (by decide)⟩
      simp only at hd
      have hq : n / 10 * 10 + n % 10 = n := by omega
      rw [decimal_of_ge (by omega), accumulate_append, ih _ (by omega) (by omega)]
      simp [bind, Except.bind, accumulate, hd, hq, h]

theorem decimalDigit_isSome_of_mem_decimal {n : Nat} {c : Char} (h : c ∈ decimal n) :
    (decimalDigit c).isSome := by
  induction n using Nat.strong_induction_on with
  | _ n ih =>
    by_cases hn : n < 10
    · rw [decimal_of_lt hn, List.mem_singleton] at h
      simp [h, decimalDigit_digitChar ⟨n, hn⟩]
    · rw [decimal_of_ge (by omega), List.mem_append, List.mem_singleton] at h
      rcases h with h | rfl
      · exact ih _ (by omega) h
      · simp [decimalDigit_digitChar ⟨n % 10, Nat.mod_lt _ (by decide)⟩]

/-- A character that is no decimal digit, a separator, never occurs in a number. -/
theorem not_mem_decimal {c : Char} (hc : decimalDigit c = none) (n : Nat) : c ∉ decimal n :=
  fun h => by simpa [hc] using decimalDigit_isSome_of_mem_decimal h

theorem parseUnsigned_decimal {size n : Nat} (h : n < size) :
    parseUnsigned size (decimal n) = .ok n := by
  have hd := accumulate_decimal h
  have hmem : ∀ c ∈ decimal n, (decimalDigit c).isSome :=
    fun _ => decimalDigit_isSome_of_mem_decimal
  rcases hs : decimal n with _ | ⟨c, cs⟩
  · exact absurd hs (decimal_ne_nil n)
  · rw [hs] at hd hmem
    have hc : c ≠ '+' ∧ c ≠ '-' := by
      have := hmem c (List.mem_cons_self _ _)
      constructor <;> rintro rfl <;> simp [decimalDigit] at this
    rcases cs with _ | ⟨c', cs⟩ <;> simp [parseUnsigned, hc.1, hc.2, hd]

/-! ### Splitting -/

/-- `str::split_once`: the text before the first separator, and after it. -/
def splitOnce (sep : Char) : List Char → Option (List Char × List Char)
  | [] => none
  | c :: cs => if c = sep then some ([], cs) else (splitOnce sep cs).map fun p => (c :: p.1, p.2)

theorem splitOnce_append {sep : Char} {a : List Char} (ha : sep ∉ a) (b : List Char) :
    splitOnce sep (a ++ sep :: b) = some (a, b) := by
  induction a with
  | nil => simp [splitOnce]
  | cons c cs ih =>
    simp only [List.mem_cons, not_or] at ha
    simp [splitOnce, Ne.symm ha.1, ih ha.2]

theorem splitOnce_eq_none {sep : Char} {s : List Char} : splitOnce sep s = none ↔ sep ∉ s := by
  induction s with
  | nil => simp [splitOnce]
  | cons c cs ih =>
    by_cases hc : c = sep
    · simp [splitOnce, hc]
    · simp [splitOnce, hc, ih, Ne.symm hc]

theorem splitOnce_some {sep : Char} {s a b : List Char} (h : splitOnce sep s = some (a, b)) :
    s = a ++ sep :: b ∧ sep ∉ a := by
  induction s generalizing a with
  | nil => cases h
  | cons c cs ih =>
    simp only [splitOnce] at h
    split at h
    · cases h
      simp_all
    · obtain ⟨⟨a', b'⟩, h', he⟩ := Option.map_eq_some'.1 h
      cases he
      obtain ⟨rfl, ha⟩ := ih h'
      exact ⟨rfl, by simp [ha, Ne.symm ‹c ≠ sep›]⟩

/-- `str::split`: the pieces between separators; there is always one more
piece than there are separators. -/
def split (sep : Char) (s : List Char) : List (List Char) := s.splitOn sep

theorem length_split (sep : Char) (s : List Char) :
    (split sep s).length = s.count sep + 1 := by
  induction s with
  | nil => rfl
  | cons c cs ih =>
    simp only [split, List.splitOn, List.splitOnP_cons, List.count_cons] at ih ⊢
    split <;> simp_all

theorem split_append {sep : Char} {a : List Char} (ha : sep ∉ a) (b : List Char) :
    split sep (a ++ sep :: b) = a :: split sep b :=
  List.splitOnP_first (· == sep) a (fun _ hx h => ha (beq_iff_eq.1 h ▸ hx)) _ (by simp) _

theorem split_of_not_mem {sep : Char} {a : List Char} (ha : sep ∉ a) : split sep a = [a] :=
  List.splitOnP_eq_single (· == sep) a (fun _ hx h => ha (beq_iff_eq.1 h ▸ hx))

/-- `str::split` with a slice of separator characters: the pieces between
any of them. -/
def splitAny (seps s : List Char) : List (List Char) := s.splitOnP fun c => c ∈ seps

theorem splitAny_append {seps a : List Char} (ha : ∀ c ∈ seps, c ∉ a) {sep : Char}
    (hsep : sep ∈ seps) (b : List Char) : splitAny seps (a ++ sep :: b) = a :: splitAny seps b :=
  List.splitOnP_first _ a (fun _ hx h => ha _ (of_decide_eq_true h) hx) _ (decide_eq_true hsep) _

theorem splitAny_of_not_mem {seps a : List Char} (ha : ∀ c ∈ seps, c ∉ a) :
    splitAny seps a = [a] :=
  List.splitOnP_eq_single _ a fun _ hx h => ha _ (of_decide_eq_true h) hx

end RgbCore.Text

namespace RgbCore

/-- `Display`: the text `to_string` writes. -/
class Display (α : Type) where
  fmt : α → List Char

/-- `FromStr`, with its error type. -/
class FromStr (α : Type) (ε : outParam Type) where
  fromStr : List Char → Except ε α

end RgbCore
