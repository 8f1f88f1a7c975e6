import RgbCore.Contract.Seal
import RgbCore.Text
import RgbCore.Strict.Primitives

/-!
# Seals as text

`Display` of a seal writes `bitcoin:` or `liquid:` before the inner seal's own
text. `FromStr` splits at the first `:` only: text without any `:` is read as an
inner seal on Bitcoin, text before the first `:` other than `bitcoin` or
`liquid` is refused as an unknown prefix, and the rest goes to the inner parser.

The inner seals of the Bitcoin protocol crates are not in this repository; the
explicit seal is modelled with the text those crates give it: `Display` writes
`{method}:{txid}:{vout}`, which has two `:` of its own, and `from_str` takes the
three fields between `:` or `#`. A txid is written as `Bytes32StrRev` writes it,
the hex of its bytes last byte first. A printed seal with its prefix reads back;
the bare printed form of an explicit seal never reads as a Bitcoin seal, and its
bare `#` form, which has no `:`, does.
-/

namespace RgbCore

open Text

/-! ### The explicit seal of the Bitcoin protocol crates -/

/-- `Method` as text. -/
instance : Display CloseMethod :=
  ⟨fun | .opretFirst => "opret1st".toList | .tapretFirst => "tapret1st".toList⟩

/-- `Method::from_str`: an unknown name comes back in the error. -/
instance : FromStr CloseMethod (List Char) :=
  ⟨fun s => if s = "opret1st".toList then .ok .opretFirst
    else if s = "tapret1st".toList then .ok .tapretFirst else .error s⟩

/-- The 32 bytes in the opposite order. -/
def Bytes32.reverse (b : Bytes32) : Bytes32 := ⟨b.bytes.reverse, by rw [List.length_reverse, b.length_eq]⟩

@[simp] theorem Bytes32.reverse_reverse (b : Bytes32) : b.reverse.reverse = b :=
  ext_bytes (List.reverse_reverse _)

/-- A txid as `Bytes32StrRev` writes it: the hex digits of its bytes, last byte first. -/
instance : Display Txid := ⟨fun t => toHex t.bytes.reverse.bytes⟩

/-- A txid read back from its hex digits, last byte first. -/
instance : FromStr Txid HexError := ⟨fun s => (fun b => Txid.mk b.reverse) <$> bytes32FromHex s⟩

/-- An output number in decimal, read back as a `u32`. -/
instance : Display Vout := ⟨fun v => decimal v.no.toNat⟩

instance : FromStr Vout IntErrorKind :=
  ⟨fun s => (parseUnsigned UInt32.size s).map fun n => ⟨UInt32.ofNat n⟩⟩

/-- The errors of reading an explicit seal. -/
inductive SealParseError where
  | method (name : List Char)
  | txid (e : HexError)
  | vout (e : IntErrorKind)
  | wrongStructure
  deriving DecidableEq

/-- `ExplicitSeal<Txid>` as `{method}:{txid}:{vout}`. -/
instance : Display (ExplicitSeal Txid) :=
  ⟨fun s => Display.fmt s.method ++ ':' :: (Display.fmt s.txid ++ ':' :: Display.fmt s.vout)⟩

/-- `ExplicitSeal<Txid>::from_str`: exactly three fields, between `:` or `#`. -/
instance : FromStr (ExplicitSeal Txid) SealParseError :=
  ⟨fun s => match splitAny [':', '#'] s with
    | [m, t, v] => do
      let method ← (FromStr.fromStr m).mapError .method
      let txid ← (FromStr.fromStr t).mapError .txid
      let vout ← (FromStr.fromStr v).mapError .vout
      pure ⟨method, txid, vout⟩
    | _ => .error .wrongStructure⟩

theorem sep_not_mem_fmt_method (m : CloseMethod) : ∀ c ∈ [':', '#'], c ∉ Display.fmt m := by
  cases m <;> decide

theorem sep_not_mem_fmt_txid (t : Txid) : ∀ c ∈ [':', '#'], c ∉ Display.fmt t := fun c hc =>
  not_mem_toHex ((show ∀ c ∈ [':', '#'], hexValue c = none by decide) c hc) _

theorem sep_not_mem_fmt_vout (v : Vout) : ∀ c ∈ [':', '#'], c ∉ Display.fmt v := fun c hc =>
  not_mem_decimal ((show ∀ c ∈ [':', '#'], decimalDigit c = none by decide) c hc) _

theorem fromStr_fmt_method (m : CloseMethod) :
    (FromStr.fromStr (Display.fmt m) : Except (List Char) CloseMethod) = .ok m := by
  cases m <;> rfl

theorem fromStr_fmt_txid (t : Txid) :
    (FromStr.fromStr (Display.fmt t) : Except HexError Txid) = .ok t := by
  show (fun b => Txid.mk b.reverse) <$> bytes32FromHex (toHex t.bytes.reverse.bytes) = _
  rw [bytes32FromHex_toHex]
  simp [Functor.map, Except.map]

theorem fromStr_fmt_vout (v : Vout) :
    (FromStr.fromStr (Display.fmt v) : Except IntErrorKind Vout) = .ok v := by
  show (parseUnsigned UInt32.size (decimal v.no.toNat)).map _ = _
  rw [parseUnsigned_decimal v.no.toNat_lt_size]
  simp only [Except.map, Strict.uint32_ofNat_toNat]

/-- The three printed fields of an explicit seal read back between any two
separators the parser takes. -/
theorem fromStr_fields_explicitSeal (s : ExplicitSeal Txid) {c d : Char} (hc : c ∈ [':', '#'])
    (hd : d ∈ [':', '#']) :
    (FromStr.fromStr (Display.fmt s.method ++ c :: (Display.fmt s.txid ++ d :: Display.fmt s.vout)) :
      Except SealParseError (ExplicitSeal Txid)) = .ok s := by
  show (match splitAny [':', '#'] _ with | [m, t, v] => _ | _ => _) = _
  rw [splitAny_append (sep_not_mem_fmt_method _) hc, splitAny_append (sep_not_mem_fmt_txid _) hd,
    splitAny_of_not_mem (sep_not_mem_fmt_vout _)]
  dsimp only
  rw [fromStr_fmt_method, fromStr_fmt_txid, fromStr_fmt_vout]
  rfl

theorem fromStr_fmt_explicitSeal (s : ExplicitSeal Txid) :
    (FromStr.fromStr (Display.fmt s) : Except SealParseError (ExplicitSeal Txid)) = .ok s :=
  fromStr_fields_explicitSeal s (List.mem_cons_self _ _) (List.mem_cons_self _ _)

/-! ### Seals on their layer -/

/-- `XchainParseError`. -/
inductive XchainParseError (ε : Type) where
  | unknownPrefix (name : List Char)
  | sealError (e : ε)
  deriving DecidableEq

namespace XSeal

variable {U ε : Type}

/-- `Display for XSeal`. -/
instance [Display U] : Display (XSeal U) :=
  ⟨fun | .bitcoin u => "bitcoin:".toList ++ Display.fmt u
       | .liquid u => "liquid:".toList ++ Display.fmt u⟩

/-- `FromStr for XSeal`: split at the first `:`, and read the bare form as Bitcoin. -/
def fromStr [FromStr U ε] (s : List Char) : Except (XchainParseError ε) (XSeal U) :=
  match splitOnce ':' s with
  | some (name, rest) =>
    if name = "bitcoin".toList then ((FromStr.fromStr rest).map bitcoin).mapError .sealError
    else if name = "liquid".toList then ((FromStr.fromStr rest).map liquid).mapError .sealError
    else .error (.unknownPrefix name)
  | none => ((FromStr.fromStr s).map bitcoin).mapError .sealError

instance [FromStr U ε] : FromStr (XSeal U) (XchainParseError ε) := ⟨fromStr⟩

theorem fromStr_of_not_mem [FromStr U ε] {s : List Char} (hs : ':' ∉ s) :
    (fromStr s : Except (XchainParseError ε) (XSeal U)) =
      ((FromStr.fromStr s).map bitcoin).mapError .sealError := by
  simp only [fromStr, splitOnce_eq_none.2 hs]

theorem fromStr_unknownPrefix [FromStr U ε] {name : List Char} (hname : ':' ∉ name)
    (hb : name ≠ "bitcoin".toList) (hl : name ≠ "liquid".toList) (rest : List Char) :
    (fromStr (name ++ ':' :: rest) : Except (XchainParseError ε) (XSeal U)) =
      .error (.unknownPrefix name) := by
  simp only [fromStr, splitOnce_append hname, if_neg hb, if_neg hl]

theorem fromStr_bitcoin [FromStr U ε] (rest : List Char) :
    (fromStr ("bitcoin".toList ++ ':' :: rest) : Except (XchainParseError ε) (XSeal U)) =
      ((FromStr.fromStr rest).map bitcoin).mapError .sealError := by
  simp only [fromStr, splitOnce_append (by decide : ':' ∉ "bitcoin".toList), if_pos]

theorem fromStr_liquid [FromStr U ε] (rest : List Char) :
    (fromStr ("liquid".toList ++ ':' :: rest) : Except (XchainParseError ε) (XSeal U)) =
      ((FromStr.fromStr rest).map liquid).mapError .sealError := by
  simp only [fromStr, splitOnce_append (by decide : ':' ∉ "liquid".toList),
    if_neg (by decide : "liquid".toList ≠ "bitcoin".toList), if_pos]

/-- A seal printed with its layer prefix reads back, whatever `:` the inner
seal's own text holds: the prefix has none, so the first `:` is the one after it. -/
theorem fromStr_fmt [Display U] [FromStr U ε]
    (h : ∀ u : U, (FromStr.fromStr (Display.fmt u) : Except ε U) = .ok u) (s : XSeal U) :
    fromStr (Display.fmt s) = .ok s := by
  cases s with
  | bitcoin u =>
    show fromStr ("bitcoin".toList ++ ':' :: Display.fmt u) = _
    rw [fromStr_bitcoin, h]
    rfl
  | liquid u =>
    show fromStr ("liquid".toList ++ ':' :: Display.fmt u) = _
    rw [fromStr_liquid, h]
    rfl

theorem fromStr_fmt_outputSeal :
    (∀ u : ExplicitSeal Txid,
      (FromStr.fromStr (Display.fmt u) : Except SealParseError _) = .ok u) ∧
    let s : OutputSeal := .liquid ⟨.opretFirst, ⟨⟨List.replicate 32 7, rfl⟩⟩, ⟨1⟩⟩
    fromStr (Display.fmt s) = .ok s :=
  ⟨fromStr_fmt_explicitSeal, fromStr_fmt fromStr_fmt_explicitSeal _⟩

/-- Text without `:` that the inner parser accepts reads as a Bitcoin seal; text
with a `:` is split at the first one, and a name before it other than `bitcoin`
and `liquid` is refused, whatever the inner parser makes of the whole text. -/
theorem fromStr_bare [FromStr U ε] {s : List Char} {u : U}
    (hu : (FromStr.fromStr s : Except ε U) = .ok u) :
    (':' ∉ s → fromStr s = .ok (bitcoin u)) ∧
    (∀ name rest, s = name ++ ':' :: rest → ':' ∉ name → name ≠ "bitcoin".toList →
      name ≠ "liquid".toList →
        (fromStr s : Except (XchainParseError ε) (XSeal U)) = .error (.unknownPrefix name)) := by
  refine ⟨fun hs => ?_,
    fun name rest hs hname hb hl => hs ▸ fromStr_unknownPrefix hname hb hl rest⟩
  rw [fromStr_of_not_mem hs, hu]
  rfl

theorem fromStr_bare_tapret :
    let u : ExplicitSeal Txid := ⟨.tapretFirst, ⟨⟨List.replicate 32 0, rfl⟩⟩, ⟨0⟩⟩
    let s := Display.fmt u.method ++ '#' :: (Display.fmt u.txid ++ '#' :: Display.fmt u.vout)
    (FromStr.fromStr s : Except SealParseError _) = .ok u ∧ ':' ∉ s ∧
    (':' ∉ s → fromStr s = .ok (bitcoin u)) ∧
    (∀ name rest, s = name ++ ':' :: rest → ':' ∉ name →
      name ≠ "bitcoin".toList → name ≠ "liquid".toList →
      (fromStr s : Except (XchainParseError SealParseError) OutputSeal) =
        .error (.unknownPrefix name)) :=
  have hu := fromStr_fields_explicitSeal ⟨.tapretFirst, ⟨⟨List.replicate 32 0, rfl⟩⟩, ⟨0⟩⟩
    (by simp) (by simp)
  ⟨hu, by simp [sep_not_mem_fmt_method _ ':', sep_not_mem_fmt_txid _ ':',
    sep_not_mem_fmt_vout _ ':'], fromStr_bare hu⟩

/-- An explicit seal printed by `Display`, which writes the `:` form, and read
without a layer prefix is refused: its method name comes back as an unknown
prefix. -/
theorem fromStr_explicitSeal_unknownPrefix (u : ExplicitSeal Txid) :
    (fromStr (Display.fmt u) : Except (XchainParseError SealParseError) OutputSeal) =
      .error (.unknownPrefix (Display.fmt u.method)) :=
  fromStr_unknownPrefix (sep_not_mem_fmt_method _ _ (List.mem_cons_self _ _))
    (by cases u.method <;> decide) (by cases u.method <;> decide) _

/-- A bare explicit seal, which starts with neither layer prefix, is accepted by
the inner parser and still not read as a Bitcoin seal. -/
theorem fromStr_bare_explicit_refused :
    ∃ (s : List Char) (u : ExplicitSeal Txid),
      (FromStr.fromStr s : Except SealParseError (ExplicitSeal Txid)) = .ok u ∧
      ¬ "bitcoin:".toList <+: s ∧ ¬ "liquid:".toList <+: s ∧
      (fromStr s : Except (XchainParseError SealParseError) OutputSeal) ≠ .ok (bitcoin u) := by
  refine ⟨_, ⟨.tapretFirst, ⟨⟨List.replicate 32 0, rfl⟩⟩, ⟨0⟩⟩, fromStr_fmt_explicitSeal _,
    ?_, ?_, by rw [fromStr_explicitSeal_unknownPrefix]; nofun⟩ <;>
  · show ¬ _ <+: "tapret1st".toList ++ _
    rintro ⟨r, hr⟩
    simp at hr

end XSeal

end RgbCore
