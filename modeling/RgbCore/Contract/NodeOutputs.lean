import RgbCore.Contract.Commit
import RgbCore.Contract.Queries

/-!
# The outputs a node defines

`node_outputs` builds a `BTreeMap` from each node outpoint of a node to the
outpoint of the revealed seal it assigns: for each owned-right type in key order,
and each revealed seal of that type with its output number in the order the
typed assignments list them, it inserts the seal's outpoint, the witness
transaction standing in for a seal without its own txid. A later insert under
one key replaces an earlier one.

So the map holds, under each outpoint of the node, the outpoint of the last
revealed seal listed with that type and number, and nothing under any other key.
The two loops are proved from any starting map, the inner one over the seals of
one type, the outer one over the types, whose keys are distinct. The revealed
seal outputs of a typed assignment are defined outside this repository and are
a parameter here.
-/

namespace RgbCore

namespace Node

open Strict

variable {Chain Metadata A R : Type} [TxoSeal R] (revealedSealOutputs : A → List (R × UInt16))

/-- The inner loop of `node_outputs`: each revealed seal of one typed assignment
inserted under the outpoint of its output number. -/
def insertSealOutputs (nodeId : NodeId) (ty : OwnedRightType) (witnessTxid : Txid)
    (res : BTreeMap NodeOutpoint Outpoint) (outs : List (R × UInt16)) :
    BTreeMap NodeOutpoint Outpoint :=
  outs.foldl (fun res so =>
    res.insert (NodeOutpoint.new nodeId ty so.2) (TxoSeal.outpointOr so.1 witnessTxid)) res

/-- `Node::node_outputs`. -/
def nodeOutputs (sha256 : List UInt8 → Bytes32) (cc : StrictCodec Chain)
    (mc : StrictCodec Metadata) (ac : StrictCodec A) (n : Node Chain Metadata A)
    (witnessTxid : Txid) : BTreeMap NodeOutpoint Outpoint :=
  let nodeId := n.nodeId sha256 cc mc ac
  n.ownedRights.entries.foldl
    (fun res e => insertSealOutputs nodeId e.1 witnessTxid res (revealedSealOutputs e.2)) .empty

/-- The inner loop sets each outpoint of its node and type to the outpoint of
the last seal listed with that number, and keeps every other key. -/
theorem get_insertSealOutputs (nodeId : NodeId) (ty : OwnedRightType) (witnessTxid : Txid)
    (outs : List (R × UInt16)) (res : BTreeMap NodeOutpoint Outpoint) (o : NodeOutpoint) :
    (insertSealOutputs nodeId ty witnessTxid res outs).get o =
      if o.nodeId = nodeId ∧ o.ty = ty then
        ((outs.reverse.find? fun so => so.2 = o.no).map
          fun so => TxoSeal.outpointOr so.1 witnessTxid).or (res.get o)
      else res.get o := by
  induction outs generalizing res with
  | nil => simp [insertSealOutputs]
  | cons so outs ih =>
    rw [insertSealOutputs, List.foldl_cons, ← insertSealOutputs, ih, BTreeMap.get_insert]
    rcases o with ⟨i, t, no⟩
    by_cases hc : i = nodeId ∧ t = ty
    · obtain ⟨rfl, rfl⟩ := hc
      by_cases hn : so.2 = no <;>
        simp [NodeOutpoint.new, hn, List.find?_append, Option.or_assoc, Option.map_or']
    · have hk : NodeOutpoint.new nodeId ty so.2 ≠ ⟨i, t, no⟩ := fun h =>
        hc ⟨(NodeOutpoint.mk.inj h).1.symm, (NodeOutpoint.mk.inj h).2.1.symm⟩
      simp [hc, hk]

/-- The outer loop, over entries with distinct types: each outpoint of the node
takes the value the inner loop of its type gives it, and every other key keeps
its value. -/
theorem get_foldl_insertSealOutputs (nodeId : NodeId) (witnessTxid : Txid)
    {l : List (OwnedRightType × A)} (hl : l.Pairwise fun a b => a.1 ≠ b.1)
    (res : BTreeMap NodeOutpoint Outpoint) (o : NodeOutpoint) :
    (l.foldl (fun res e => insertSealOutputs nodeId e.1 witnessTxid res (revealedSealOutputs e.2))
        res).get o =
      if o.nodeId = nodeId then
        (((l.findSome? fun e => if e.1 = o.ty then some e.2 else none).bind fun a =>
            (revealedSealOutputs a).reverse.find? fun so => so.2 = o.no).map
          fun so => TxoSeal.outpointOr so.1 witnessTxid).or (res.get o)
      else res.get o := by
  induction l generalizing res with
  | nil => simp
  | cons e l ih =>
    rw [List.pairwise_cons] at hl
    rw [List.foldl_cons, ih hl.2, get_insertSealOutputs]
    by_cases hid : o.nodeId = nodeId
    · by_cases ht : e.1 = o.ty
      · have hrest : (l.findSome? fun e => if e.1 = o.ty then some e.2 else none) = none :=
          List.findSome?_eq_none_iff.2 fun x hx => if_neg fun h => hl.1 x hx (ht.trans h.symm)
        simp [hid, ht, hrest]
      · simp [hid, ht, Ne.symm ht]
    · simp [hid]

/-- `node_outputs` maps each outpoint of the node to the outpoint of the last
revealed seal its owned rights list under that type and number, and holds
nothing under any other key. -/
theorem get_nodeOutputs (sha256 : List UInt8 → Bytes32) (cc : StrictCodec Chain)
    (mc : StrictCodec Metadata) (ac : StrictCodec A) (n : Node Chain Metadata A)
    (witnessTxid : Txid) (o : NodeOutpoint) :
    (n.nodeOutputs revealedSealOutputs sha256 cc mc ac witnessTxid).get o =
      if o.nodeId = n.nodeId sha256 cc mc ac then
        ((n.ownedRightsByType o.ty).bind fun a =>
            (revealedSealOutputs a).reverse.find? fun so => so.2 = o.no).map
          fun so => TxoSeal.outpointOr so.1 witnessTxid
      else none := by
  rw [nodeOutputs, get_foldl_insertSealOutputs _ _ _ n.ownedRights.keys_ne]
  simp [ownedRightsByType]

end Node

end RgbCore
