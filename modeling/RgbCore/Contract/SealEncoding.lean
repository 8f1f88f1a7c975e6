import RgbCore.Contract.Witness
import RgbCore.Strict.Confined

/-!
# Strict encoding of seals and witnesses

The derived codecs of the seal module: `XSeal` under its custom tags `0x00`
(Bitcoin) and `0x01` (Liquid), `WitnessId` likewise, `WitnessOrd` under the
ordinal tags of its variants, and `WitnessPos` as its two fields. The inner
seal types of the Bitcoin protocol crates are given their derived codecs too,
so that a concealed seal, the SHA-256 hash of the seal's strict encoding, can
be computed for the concrete seal types.

The derived decoder of `WitnessPos` reads the two fields and checks nothing,
so it yields positions `WitnessPos::new` would refuse.
-/

namespace RgbCore

open Strict StrictCodec UnionCodec

/-- `Txid`, a newtype of `Bytes32`. -/
def Txid.strictCodec : StrictCodec Txid :=
  bytes32.map ⟨Txid.mk, Txid.bytes, fun _ => rfl, fun _ => rfl⟩

/-- `Vout`, a newtype of `u32`. -/
def Vout.strictCodec : StrictCodec Vout :=
  u32.map ⟨Vout.mk, Vout.no, fun _ => rfl, fun _ => rfl⟩

/-- `CloseMethod`, its variants under their `u8` representations. -/
def CloseMethod.strictCodec : StrictCodec CloseMethod :=
  ((variant "Method" 0 unit).or (variant "Method" 1 unit)).toCodec.map
    ⟨fun | .inl () => .opretFirst | .inr () => .tapretFirst,
      fun | .opretFirst => .inl () | .tapretFirst => .inr (),
      fun | .inl () | .inr () => rfl, fun | .opretFirst | .tapretFirst => rfl⟩

/-- `TxPtr`: the witness placeholder under tag 0, a txid under tag 1. -/
def TxPtr.strictCodec : StrictCodec TxPtr :=
  ((variant "TxPtr" 0 unit).or (variant "TxPtr" 1 Txid.strictCodec)).toCodec.map
    ⟨fun | .inl () => .witnessTx | .inr t => .txid t,
      fun | .witnessTx => .inl () | .txid t => .inr t,
      fun | .inl () | .inr _ => rfl, fun | .witnessTx | .txid _ => rfl⟩

/-- `BlindSeal<Id>`: method, txid, output, blinding. -/
def BlindSeal.strictCodec (c : StrictCodec T) : StrictCodec (BlindSeal T) :=
  (CloseMethod.strictCodec.prod (c.prod (Vout.strictCodec.prod u64))).map
    ⟨fun x => ⟨x.1, x.2.1, x.2.2.1, x.2.2.2⟩, fun s => (s.method, s.txid, s.vout, s.blinding),
      fun _ => rfl, fun _ => rfl⟩

/-- `ExplicitSeal<Id>`: method, txid, output. -/
def ExplicitSeal.strictCodec (c : StrictCodec T) : StrictCodec (ExplicitSeal T) :=
  (CloseMethod.strictCodec.prod (c.prod Vout.strictCodec)).map
    ⟨fun x => ⟨x.1, x.2.1, x.2.2⟩, fun s => (s.method, s.txid, s.vout),
      fun _ => rfl, fun _ => rfl⟩

/-- `XSeal<U>`: tag `0x00` for Bitcoin, `0x01` for Liquid, then the inner seal. -/
def XSeal.strictCodec (c : StrictCodec U) : StrictCodec (XSeal U) :=
  ((variant "XSeal" 0 c).or (variant "XSeal" 1 c)).toCodec.map
    ⟨fun | .inl u => .bitcoin u | .inr u => .liquid u,
      fun | .bitcoin u => .inl u | .liquid u => .inr u,
      fun | .inl _ | .inr _ => rfl, fun | .bitcoin _ | .liquid _ => rfl⟩

/-- `WitnessId`: tag `0x00` for Bitcoin, `0x01` for Liquid, then the txid. -/
def WitnessId.strictCodec : StrictCodec WitnessId :=
  ((variant "WitnessId" 0 Txid.strictCodec).or (variant "WitnessId" 1 Txid.strictCodec)).toCodec.map
    ⟨fun | .inl t => .bitcoin t | .inr t => .liquid t,
      fun | .bitcoin t => .inl t | .liquid t => .inr t,
      fun | .inl _ | .inr _ => rfl, fun | .bitcoin _ | .liquid _ => rfl⟩

/-- `WitnessPos`: height, then timestamp, unchecked. -/
def WitnessPos.strictCodec : StrictCodec WitnessPos :=
  (u32.prod i64).map ⟨fun x => ⟨x.1, x.2⟩, fun p => (p.height, p.timestamp),
    fun _ => rfl, fun _ => rfl⟩

/-- `WitnessOrd`: its variants in order, `OnChain` as tag 0, `OffChain` as 1. -/
def WitnessOrd.strictCodec : StrictCodec WitnessOrd :=
  ((variant "WitnessOrd" 0 WitnessPos.strictCodec).or (variant "WitnessOrd" 1 unit)).toCodec.map
    ⟨fun | .inl p => .onChain p | .inr () => .offChain,
      fun | .onChain p => .inl p | .offChain => .inr (),
      fun | .inl _ | .inr () => rfl, fun | .onChain _ | .offChain => rfl⟩

/-- A two-variant enum over lawful payload codecs is lawful: the tags differ. -/
theorem union2_lawful {c₀ : StrictCodec α} {c₁ : StrictCodec β} (h₀ : c₀.Lawful)
    (h₁ : c₁.Lawful) (name : String) :
    ((variant name 0 c₀).or (variant name 1 c₁)).toCodec.Lawful :=
  toCodec_lawful (or_lawful (variant_lawful h₀ _ _) (variant_lawful h₁ _ _)
    (show ∀ t ∈ [(1 : UInt8)], t ∉ [(0 : UInt8)] by decide))

theorem Txid.strictCodec_lawful : Txid.strictCodec.Lawful := map_lawful bytes32_lawful _

theorem Vout.strictCodec_lawful : Vout.strictCodec.Lawful := map_lawful u32_lawful _

theorem CloseMethod.strictCodec_lawful : CloseMethod.strictCodec.Lawful :=
  map_lawful (union2_lawful unit_lawful unit_lawful _) _

theorem TxPtr.strictCodec_lawful : TxPtr.strictCodec.Lawful :=
  map_lawful (union2_lawful unit_lawful Txid.strictCodec_lawful _) _

theorem BlindSeal.strictCodec_lawful {c : StrictCodec T} (h : c.Lawful) :
    (BlindSeal.strictCodec c).Lawful :=
  map_lawful (prod_lawful CloseMethod.strictCodec_lawful
    (prod_lawful h (prod_lawful Vout.strictCodec_lawful u64_lawful))) _

theorem ExplicitSeal.strictCodec_lawful {c : StrictCodec T} (h : c.Lawful) :
    (ExplicitSeal.strictCodec c).Lawful :=
  map_lawful (prod_lawful CloseMethod.strictCodec_lawful (prod_lawful h Vout.strictCodec_lawful)) _

theorem XSeal.strictCodec_lawful {c : StrictCodec U} (h : c.Lawful) :
    (XSeal.strictCodec c).Lawful :=
  map_lawful (union2_lawful h h _) _

theorem WitnessId.strictCodec_lawful : WitnessId.strictCodec.Lawful :=
  map_lawful (union2_lawful Txid.strictCodec_lawful Txid.strictCodec_lawful _) _

theorem WitnessPos.strictCodec_lawful : WitnessPos.strictCodec.Lawful :=
  map_lawful (prod_lawful u32_lawful i64_lawful) _

theorem WitnessOrd.strictCodec_lawful : WitnessOrd.strictCodec.Lawful :=
  map_lawful (union2_lawful WitnessPos.strictCodec_lawful unit_lawful _) _

/-- Every witness position, `new` or not, is what the decoder reads from its
encoding. -/
theorem WitnessPos.deserialize_encode (p : WitnessPos) :
    WitnessPos.strictCodec.deserialize (WitnessPos.strictCodec.encode p) = .ok p :=
  WitnessPos.strictCodec_lawful.deserialize_eq_ok_iff.2 rfl

/-- Twelve zero bytes decode to a position of height zero, alone and inside
`OnChain`; its `height()` panics, as does that of the derived dumb value. -/
theorem WitnessPos.decode_zero_height :
    ∃ p, WitnessPos.strictCodec.deserialize (List.replicate 12 0) = .ok p ∧
      WitnessOrd.strictCodec.deserialize (0 :: List.replicate 12 0) = .ok (.onChain p) ∧
      p.heightNonZero = .error "invariant" ∧
      WitnessPos.strictDumb.heightNonZero = .error "invariant" :=
  ⟨⟨0, ⟨0, by decide⟩⟩, rfl, rfl, rfl, rfl⟩

/-- `SecretSeal`: a concealed seal. -/
structure SecretSeal where
  bytes : Bytes32
  deriving DecidableEq

def SecretSeal.strictCodec : StrictCodec SecretSeal :=
  bytes32.map ⟨SecretSeal.mk, SecretSeal.bytes, fun _ => rfl, fun _ => rfl⟩

theorem SecretSeal.strictCodec_lawful : SecretSeal.strictCodec.Lawful := map_lawful bytes32_lawful _

/-- `Conceal for XSeal<U>`, `SecretSeal::commit`: SHA-256 over the strict
encoding of the seal. The hash function is taken as given. -/
def XSeal.conceal (sha256 : List UInt8 → Bytes32) (c : StrictCodec U) (s : XSeal U) :
    SecretSeal :=
  ⟨sha256 ((XSeal.strictCodec c).encode s)⟩

/-- `seal::Revealed`, the revealed seal an assignment holds: a graph seal on
its layer. -/
abbrev RevealedSeal := XSeal GraphSeal

def RevealedSeal.strictCodec : StrictCodec RevealedSeal :=
  XSeal.strictCodec (BlindSeal.strictCodec TxPtr.strictCodec)

theorem RevealedSeal.strictCodec_lawful : RevealedSeal.strictCodec.Lawful :=
  XSeal.strictCodec_lawful (BlindSeal.strictCodec_lawful TxPtr.strictCodec_lawful)

/-- The concealed form of a revealed seal, under the given hash. -/
def RevealedSeal.conceal (sha256 : List UInt8 → Bytes32) (s : RevealedSeal) : SecretSeal :=
  XSeal.conceal sha256 (BlindSeal.strictCodec TxPtr.strictCodec) s

end RgbCore
