import RgbCore.Contract.Operations
import RgbCore.Contract.Assignments

/-!
# Strict encoding of contract operations

The derived codecs of the operation types: each struct is its fields in
order, the identifiers are their 32 bytes, and the rights maps are confined
maps and sets. With the codecs of the seal module, every consensus type whose
codec the source derives reads back exactly what it writes, and writes back
exactly what it reads, once the codecs of the field types defined elsewhere do.
-/

namespace RgbCore

open Strict StrictCodec

variable {Chain Metadata A : Type}

/-- `NodeId`, a newtype of `Bytes32`. -/
def NodeId.strictCodec : StrictCodec NodeId :=
  bytes32.map ⟨NodeId.mk, NodeId.bytes, fun _ => rfl, fun _ => rfl⟩

/-- `ContractId`, a newtype of `Bytes32`. -/
def ContractId.strictCodec : StrictCodec ContractId :=
  bytes32.map ⟨ContractId.mk, ContractId.bytes, fun _ => rfl, fun _ => rfl⟩

/-- `SchemaId`, a newtype of `Bytes32`. -/
def SchemaId.strictCodec : StrictCodec SchemaId :=
  bytes32.map ⟨SchemaId.mk, SchemaId.bytes, fun _ => rfl, fun _ => rfl⟩

/-- `NodeOutpoint`: node id, type, number. -/
def NodeOutpoint.strictCodec : StrictCodec NodeOutpoint :=
  (NodeId.strictCodec.prod (u16.prod u16)).map
    ⟨fun x => ⟨x.1, x.2.1, x.2.2⟩, fun o => (o.nodeId, o.ty, o.no),
      fun _ => rfl, fun _ => rfl⟩

def PublicRights.strictCodec : StrictCodec PublicRights := tinyOrdSet u16

def OwnedRights.strictCodec (ac : StrictCodec A) : StrictCodec (OwnedRights A) :=
  tinyOrdMap u16 ac

def ParentOwnedRights.strictCodec : StrictCodec ParentOwnedRights :=
  tinyOrdMap NodeId.strictCodec (tinyOrdMap u16 (tinyVec u16))

def ParentPublicRights.strictCodec : StrictCodec ParentPublicRights :=
  tinyOrdMap NodeId.strictCodec (tinyOrdSet u16)

/-- `Genesis`: schema id, chain, metadata, owned rights, public rights. -/
def Genesis.strictCodec (cc : StrictCodec Chain) (mc : StrictCodec Metadata)
    (ac : StrictCodec A) : StrictCodec (Genesis Chain Metadata A) :=
  (SchemaId.strictCodec.prod (cc.prod (mc.prod
      ((OwnedRights.strictCodec ac).prod PublicRights.strictCodec)))).map
    ⟨fun x => ⟨x.1, x.2.1, x.2.2.1, x.2.2.2.1, x.2.2.2.2⟩,
      fun g => (g.schemaId, g.chain, g.metadata, g.ownedRights, g.publicRights),
      fun _ => rfl, fun _ => rfl⟩

/-- `Extension`: extension type, contract id, metadata, owned rights, parent
public rights, public rights. -/
def Extension.strictCodec (mc : StrictCodec Metadata) (ac : StrictCodec A) :
    StrictCodec (Extension Metadata A) :=
  (u16.prod (ContractId.strictCodec.prod (mc.prod ((OwnedRights.strictCodec ac).prod
      (ParentPublicRights.strictCodec.prod PublicRights.strictCodec))))).map
    ⟨fun x => ⟨x.1, x.2.1, x.2.2.1, x.2.2.2.1, x.2.2.2.2.1, x.2.2.2.2.2⟩,
      fun e => (e.extensionType, e.contractId, e.metadata, e.ownedRights,
        e.parentPublicRights, e.publicRights),
      fun _ => rfl, fun _ => rfl⟩

/-- `Transition`: transition type, metadata, parent owned rights, owned
rights, public rights. -/
def Transition.strictCodec (mc : StrictCodec Metadata) (ac : StrictCodec A) :
    StrictCodec (Transition Metadata A) :=
  (u16.prod (mc.prod (ParentOwnedRights.strictCodec.prod
      ((OwnedRights.strictCodec ac).prod PublicRights.strictCodec)))).map
    ⟨fun x => ⟨x.1, x.2.1, x.2.2.1, x.2.2.2.1, x.2.2.2.2⟩,
      fun t => (t.transitionType, t.metadata, t.parentOwnedRights, t.ownedRights, t.publicRights),
      fun _ => rfl, fun _ => rfl⟩

theorem NodeId.strictCodec_lawful : NodeId.strictCodec.Lawful := map_lawful bytes32_lawful _

theorem ContractId.strictCodec_lawful : ContractId.strictCodec.Lawful :=
  map_lawful bytes32_lawful _

theorem SchemaId.strictCodec_lawful : SchemaId.strictCodec.Lawful := map_lawful bytes32_lawful _

theorem NodeOutpoint.strictCodec_lawful : NodeOutpoint.strictCodec.Lawful :=
  map_lawful (prod_lawful NodeId.strictCodec_lawful (prod_lawful u16_lawful u16_lawful)) _

theorem PublicRights.strictCodec_lawful : PublicRights.strictCodec.Lawful :=
  tinyOrdSet_lawful u16_lawful

theorem OwnedRights.strictCodec_lawful {ac : StrictCodec A} (ha : ac.Lawful) :
    (OwnedRights.strictCodec ac).Lawful :=
  tinyOrdMap_lawful u16_lawful ha

theorem ParentOwnedRights.strictCodec_lawful : ParentOwnedRights.strictCodec.Lawful :=
  tinyOrdMap_lawful NodeId.strictCodec_lawful
    (tinyOrdMap_lawful u16_lawful (tinyVec_lawful u16_lawful))

theorem ParentPublicRights.strictCodec_lawful : ParentPublicRights.strictCodec.Lawful :=
  tinyOrdMap_lawful NodeId.strictCodec_lawful (tinyOrdSet_lawful u16_lawful)

theorem Genesis.strictCodec_lawful {cc : StrictCodec Chain} {mc : StrictCodec Metadata}
    {ac : StrictCodec A} (hc : cc.Lawful) (hm : mc.Lawful) (ha : ac.Lawful) :
    (Genesis.strictCodec cc mc ac).Lawful :=
  map_lawful (prod_lawful SchemaId.strictCodec_lawful (prod_lawful hc (prod_lawful hm
    (prod_lawful (OwnedRights.strictCodec_lawful ha) PublicRights.strictCodec_lawful)))) _

theorem Extension.strictCodec_lawful {mc : StrictCodec Metadata} {ac : StrictCodec A}
    (hm : mc.Lawful) (ha : ac.Lawful) : (Extension.strictCodec mc ac).Lawful :=
  map_lawful (prod_lawful u16_lawful (prod_lawful ContractId.strictCodec_lawful (prod_lawful hm
    (prod_lawful (OwnedRights.strictCodec_lawful ha) (prod_lawful
      ParentPublicRights.strictCodec_lawful PublicRights.strictCodec_lawful))))) _

theorem Transition.strictCodec_lawful {mc : StrictCodec Metadata} {ac : StrictCodec A}
    (hm : mc.Lawful) (ha : ac.Lawful) : (Transition.strictCodec mc ac).Lawful :=
  map_lawful (prod_lawful u16_lawful (prod_lawful hm (prod_lawful
    ParentOwnedRights.strictCodec_lawful
    (prod_lawful (OwnedRights.strictCodec_lawful ha) PublicRights.strictCodec_lawful)))) _

/-- Given codecs of the chain, the metadata, the typed assignments and the
inner seal that read back what they write and write back what they read, so do
the derived codecs of every consensus type of the contract and seal modules:
each value decodes from its encoding with the rest of the input untouched, and
each input a decoder accepts is the encoding of what it read followed by the
rest (`Lawful`; at the top level, `Lawful.deserialize_eq_ok_iff`). -/
theorem consensus_strictCodecs_lawful {U : Type} {cc : StrictCodec Chain}
    {mc : StrictCodec Metadata} {ac : StrictCodec A} {uc : StrictCodec U}
    (hc : cc.Lawful) (hm : mc.Lawful) (ha : ac.Lawful) (hu : uc.Lawful) :
    NodeOutpoint.strictCodec.Lawful ∧ NodeId.strictCodec.Lawful ∧
    ContractId.strictCodec.Lawful ∧ (Genesis.strictCodec cc mc ac).Lawful ∧
    (Extension.strictCodec mc ac).Lawful ∧ (Transition.strictCodec mc ac).Lawful ∧
    (XSeal.strictCodec uc).Lawful ∧ WitnessPos.strictCodec.Lawful ∧
    WitnessOrd.strictCodec.Lawful ∧ WitnessId.strictCodec.Lawful :=
  ⟨NodeOutpoint.strictCodec_lawful, NodeId.strictCodec_lawful, ContractId.strictCodec_lawful,
    Genesis.strictCodec_lawful hc hm ha, Extension.strictCodec_lawful hm ha,
    Transition.strictCodec_lawful hm ha, XSeal.strictCodec_lawful hu,
    WitnessPos.strictCodec_lawful, WitnessOrd.strictCodec_lawful, WitnessId.strictCodec_lawful⟩

/-- The codecs of the operations over a `u8` chain tag, metadata as a map of
field types to byte vectors, typed assignments of void state, and graph seals. -/
theorem consensus_strictCodecs_lawful_void :
    u8.Lawful ∧ (tinyOrdMap u16 (tinyVec u8)).Lawful ∧
    (TypedAssignments.strictCodec .void).Lawful ∧
    (BlindSeal.strictCodec TxPtr.strictCodec).Lawful ∧
    NodeOutpoint.strictCodec.Lawful ∧ NodeId.strictCodec.Lawful ∧
    ContractId.strictCodec.Lawful ∧
    (Genesis.strictCodec u8 (tinyOrdMap u16 (tinyVec u8))
      (TypedAssignments.strictCodec .void)).Lawful ∧
    (Extension.strictCodec (tinyOrdMap u16 (tinyVec u8))
      (TypedAssignments.strictCodec .void)).Lawful ∧
    (Transition.strictCodec (tinyOrdMap u16 (tinyVec u8))
      (TypedAssignments.strictCodec .void)).Lawful ∧
    (XSeal.strictCodec (BlindSeal.strictCodec TxPtr.strictCodec)).Lawful ∧
    WitnessPos.strictCodec.Lawful ∧ WitnessOrd.strictCodec.Lawful ∧
    WitnessId.strictCodec.Lawful :=
  have hm := tinyOrdMap_lawful u16_lawful (tinyVec_lawful u8_lawful)
  have ha := TypedAssignments.strictCodec_lawful .void
  have hu := BlindSeal.strictCodec_lawful TxPtr.strictCodec_lawful
  ⟨u8_lawful, hm, ha, hu, consensus_strictCodecs_lawful u8_lawful hm ha hu⟩

end RgbCore
