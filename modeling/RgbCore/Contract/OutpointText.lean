import RgbCore.Contract.Operations
import RgbCore.Text
import RgbCore.Strict.Primitives

/-!
# Node outpoints as text

`NodeOutpoint` prints as `{node_id}/{ty}/{no}`: the node id as the lowercase
hex of its bytes, the owned-right type and the output number in decimal.
`from_str` splits at every `/` and matches exactly three pieces; any other
number of pieces is `WrongFormat` with the whole text, and a piece that does
not parse fails with the error of its field.
-/

namespace RgbCore

open Text

/-- `NodeId`'s `Display`: `to_hex`. -/
instance : Display NodeId := ⟨fun n => toHex n.bytes.bytes⟩

/-- `NodeId::from_str`: `from_hex`. -/
instance : FromStr NodeId HexError := ⟨fun s => NodeId.mk <$> bytes32FromHex s⟩

/-- `u16::from_str`. -/
def parseU16 (s : List Char) : Except IntErrorKind UInt16 :=
  (parseUnsigned UInt16.size s).map UInt16.ofNat

/-- `NodeOutpoint`'s `Display`: `{node_id}/{ty}/{no}`. -/
instance : Display NodeOutpoint :=
  ⟨fun o => Display.fmt o.nodeId ++ '/' :: (decimal o.ty.toNat ++ '/' :: decimal o.no.toNat)⟩

/-- `OutpointParseError`. -/
inductive OutpointParseError where
  | invalidNodeId (e : HexError)
  | invalidType (e : IntErrorKind)
  | invalidOutputNo (e : IntErrorKind)
  | wrongFormat (s : List Char)
  deriving DecidableEq

namespace NodeOutpoint

/-- The arm of `from_str` for three pieces: each field parsed in turn. -/
def parseFields (nodeId ty no : List Char) : Except OutpointParseError NodeOutpoint := do
  let nodeId ← (FromStr.fromStr nodeId).mapError .invalidNodeId
  let ty ← (parseU16 ty).mapError .invalidType
  let no ← (parseU16 no).mapError .invalidOutputNo
  pure ⟨nodeId, ty, no⟩

/-- `NodeOutpoint::from_str`. -/
def fromStr (s : List Char) : Except OutpointParseError NodeOutpoint :=
  match split '/' s with
  | [nodeId, ty, no] => parseFields nodeId ty no
  | _ => .error (.wrongFormat s)

instance : FromStr NodeOutpoint OutpointParseError := ⟨fromStr⟩

theorem parseU16_decimal (x : UInt16) : parseU16 (decimal x.toNat) = .ok x := by
  rw [parseU16, parseUnsigned_decimal x.toNat_lt_size]
  exact congrArg Except.ok (Strict.uint16_ofNat_toNat x)

theorem parseFields_fmt (o : NodeOutpoint) :
    parseFields (Display.fmt o.nodeId) (decimal o.ty.toNat) (decimal o.no.toNat) = .ok o := by
  have hid : (FromStr.fromStr (Display.fmt o.nodeId) : Except HexError NodeId) = .ok o.nodeId := by
    show NodeId.mk <$> bytes32FromHex (toHex o.nodeId.bytes.bytes) = _
    rw [bytes32FromHex_toHex]
    rfl
  simp only [parseFields, hid, parseU16_decimal]
  rfl

/-- The arm for three pieces fails only with the error of a field. -/
theorem parseFields_ne_wrongFormat (nodeId ty no s : List Char) :
    parseFields nodeId ty no ≠ .error (.wrongFormat s) := by
  unfold parseFields
  cases (FromStr.fromStr nodeId : Except HexError NodeId) <;> cases parseU16 ty <;>
    cases parseU16 no <;> nofun

theorem slash_not_mem_fmt_nodeId (n : NodeId) : '/' ∉ Display.fmt n :=
  not_mem_toHex (show hexValue '/' = none from rfl) _

theorem split_fmt (o : NodeOutpoint) :
    split '/' (Display.fmt o) =
      [Display.fmt o.nodeId, decimal o.ty.toNat, decimal o.no.toNat] := by
  show split '/' (_ ++ '/' :: (_ ++ '/' :: _)) = _
  rw [split_append (slash_not_mem_fmt_nodeId _),
    split_append (not_mem_decimal (show decimalDigit '/' = none from rfl) _),
    split_of_not_mem (not_mem_decimal (show decimalDigit '/' = none from rfl) _)]

/-- `WrongFormat` is the answer exactly to the text that does not split into
three pieces. -/
theorem fromStr_eq_wrongFormat (s : List Char) :
    fromStr s = .error (.wrongFormat s) ↔ s.count '/' ≠ 2 := by
  have hl := length_split '/' s
  unfold fromStr
  rcases h : split '/' s with _ | ⟨a, _ | ⟨b, _ | ⟨c, _ | ⟨d, r⟩⟩⟩⟩ <;>
    simp only [h, List.length_cons, List.length_nil] at hl
  case cons.cons.cons.nil =>
    exact iff_of_false (parseFields_ne_wrongFormat a b c s) (by omega)
  all_goals exact iff_of_true rfl (by omega)

/-- Printed outpoints parse back, and `WrongFormat` answers exactly the text
without two `/`. -/
theorem fromStr_spec :
    (∀ o : NodeOutpoint, fromStr (Display.fmt o) = .ok o) ∧
    (∀ s, fromStr s = .error (.wrongFormat s) ↔ s.count '/' ≠ 2) :=
  ⟨fun o => by rw [fromStr, split_fmt]; exact parseFields_fmt o, fromStr_eq_wrongFormat⟩

end NodeOutpoint

end RgbCore
