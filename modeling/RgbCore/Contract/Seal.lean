import RgbCore.Ordering

/-!
# Single-use seals

A seal of the contract layer is an inner seal of the Bitcoin protocol crates
under a layer-1 tag (`XSeal`). An inner seal is a `TxoSeal`: a close method,
an output number, and a txid or, for a seal defined by the same operation as
its witness, a placeholder for the witness transaction. The inner seal types
are modelled as far as the seal layer reads them.

`try_to_output_seal` resolves a seal against the witness that closes it: the
layers must agree, and a placeholder takes the witness's txid.
-/

namespace RgbCore

/-- `bp::Txid`. -/
structure Txid where
  bytes : Bytes32
  deriving DecidableEq

/-- `bp::Vout`. -/
structure Vout where
  no : UInt32
  deriving DecidableEq

/-- `bp::Outpoint`. -/
structure Outpoint where
  txid : Txid
  vout : Vout
  deriving DecidableEq

/-- `bp::dbc::Method`, the close method of a seal. -/
inductive CloseMethod where
  | opretFirst
  | tapretFirst
  deriving DecidableEq, Repr

/-- `TxPtr`: a txid, or the placeholder for the witness transaction. -/
inductive TxPtr where
  | witnessTx
  | txid (txid : Txid)
  deriving DecidableEq

/-- `SealTxid`: the txid a seal's txid field names, if any. -/
class SealTxid (T : Type) where
  txid : T → Option Txid

instance : SealTxid Txid := ⟨some⟩

instance : SealTxid TxPtr := ⟨fun | .witnessTx => none | .txid t => some t⟩

/-- `TxoSeal`: a seal over a transaction output. -/
class TxoSeal (U : Type) where
  method : U → CloseMethod
  vout : U → Vout
  outpoint : U → Option Outpoint
  outpointOr : U → Txid → Outpoint

/-- What the seal layer relies on of a `TxoSeal`: `outpoint_or` gives the
seal's own outpoint when it has one, and otherwise the given txid with the
seal's output number. -/
def TxoSeal.Contract (U : Type) [TxoSeal U] : Prop :=
  ∀ (u : U) (t : Txid), outpointOr u t = (outpoint u).getD ⟨t, vout u⟩

theorem TxoSeal.outpointOr_of_outpoint [TxoSeal U] (hU : Contract U) {u : U} {o : Outpoint}
    (h : outpoint u = some o) (t : Txid) : outpointOr u t = o := by
  rw [hU u t, h]
  rfl

theorem TxoSeal.outpointOr_of_outpoint_eq_none [TxoSeal U] (hU : Contract U) {u : U}
    (h : outpoint u = none) (t : Txid) : outpointOr u t = ⟨t, vout u⟩ := by
  rw [hU u t, h]
  rfl

/-- `BlindSeal<Id>`: a revealed seal with its blinding factor. -/
structure BlindSeal (T : Type) where
  method : CloseMethod
  txid : T
  vout : Vout
  blinding : UInt64
  deriving DecidableEq

/-- `GraphSeal`, the seal type of transitions. -/
abbrev GraphSeal := BlindSeal TxPtr

/-- `GenesisSeal`, the seal type of genesis. -/
abbrev GenesisSeal := BlindSeal Txid

/-- `ExplicitSeal<Id>`: a seal without blinding. -/
structure ExplicitSeal (T : Type) where
  method : CloseMethod
  txid : T
  vout : Vout
  deriving DecidableEq

/-- `ExplicitSeal::new`. -/
def ExplicitSeal.new (method : CloseMethod) (outpoint : Outpoint) : ExplicitSeal Txid :=
  ⟨method, outpoint.txid, outpoint.vout⟩

instance [SealTxid T] : TxoSeal (BlindSeal T) where
  method s := s.method
  vout s := s.vout
  outpoint s := (SealTxid.txid s.txid).map (⟨·, s.vout⟩)
  outpointOr s t := ⟨(SealTxid.txid s.txid).getD t, s.vout⟩

instance [SealTxid T] : TxoSeal (ExplicitSeal T) where
  method s := s.method
  vout s := s.vout
  outpoint s := (SealTxid.txid s.txid).map (⟨·, s.vout⟩)
  outpointOr s t := ⟨(SealTxid.txid s.txid).getD t, s.vout⟩

theorem BlindSeal.contract [SealTxid T] : TxoSeal.Contract (BlindSeal T) := by
  intro s t
  change (⟨_, _⟩ : Outpoint) = ((SealTxid.txid s.txid).map _).getD _
  cases SealTxid.txid s.txid <;> rfl

theorem ExplicitSeal.contract [SealTxid T] : TxoSeal.Contract (ExplicitSeal T) := by
  intro s t
  change (⟨_, _⟩ : Outpoint) = ((SealTxid.txid s.txid).map _).getD _
  cases SealTxid.txid s.txid <;> rfl

/-- `GenesisSeal::transmutate`: the txid becomes a `TxPtr`. -/
def BlindSeal.transmutate (s : GenesisSeal) : GraphSeal :=
  ⟨s.method, .txid s.txid, s.vout, s.blinding⟩

/-- `Layer1`. -/
inductive Layer1 where
  | bitcoin
  | liquid
  deriving DecidableEq, Repr

/-- `XSeal<U>`: an inner seal on one of the layers. -/
inductive XSeal (U : Type) where
  | bitcoin (u : U)
  | liquid (u : U)
  deriving DecidableEq

/-- `OutputSeal`: a seal resolved to an explicit outpoint. -/
abbrev OutputSeal := XSeal (ExplicitSeal Txid)

/-- `WitnessId`: the txid of a witness transaction on its layer. -/
inductive WitnessId where
  | bitcoin (txid : Txid)
  | liquid (txid : Txid)
  deriving DecidableEq

namespace WitnessId

/-- The layer of a witness id, read off its variant. -/
def layer1 : WitnessId → Layer1
  | .bitcoin _ => .bitcoin
  | .liquid _ => .liquid

/-- The txid of a witness id, whichever its variant. -/
def txid : WitnessId → Txid
  | .bitcoin t | .liquid t => t

end WitnessId

namespace XSeal

variable {U : Type}

/-- `XSeal::with`. -/
def withLayer (layer1 : Layer1) (u : U) : XSeal U :=
  match layer1 with
  | .bitcoin => .bitcoin u
  | .liquid => .liquid u

def layer1 : XSeal U → Layer1
  | .bitcoin _ => .bitcoin
  | .liquid _ => .liquid

def reduceToBp : XSeal U → Option U
  | .bitcoin u | .liquid u => some u

def method [TxoSeal U] : XSeal U → CloseMethod
  | .bitcoin u | .liquid u => TxoSeal.method u

/-- `XSeal<GenesisSeal>::transmutate`. -/
def transmutate : XSeal GenesisSeal → XSeal GraphSeal
  | .bitcoin u => .bitcoin u.transmutate
  | .liquid u => .liquid u.transmutate

/-- `to_output_seal`: the explicit seal of a seal that names its outpoint. -/
def toOutputSeal [TxoSeal U] : XSeal U → Option OutputSeal
  | .bitcoin u => (TxoSeal.outpoint u).map fun o =>
      .bitcoin (ExplicitSeal.new (TxoSeal.method u) o)
  | .liquid u => (TxoSeal.outpoint u).map fun o =>
      .liquid (ExplicitSeal.new (TxoSeal.method u) o)

/-- `try_to_output_seal`: the seal resolved against the witness on its own
layer; on the other layer the seal comes back as the error. -/
def tryToOutputSeal [TxoSeal U] : XSeal U → WitnessId → Except (XSeal U) OutputSeal
  | .bitcoin u, .bitcoin txid =>
    .ok (.bitcoin (ExplicitSeal.new (TxoSeal.method u) (TxoSeal.outpointOr u txid)))
  | .liquid u, .liquid txid =>
    .ok (.liquid (ExplicitSeal.new (TxoSeal.method u) (TxoSeal.outpointOr u txid)))
  | me, _ => .error me

theorem withLayer_layer1 (layer1 : Layer1) (u : U) : (withLayer layer1 u).layer1 = layer1 := by
  cases layer1 <;> rfl

theorem transmutate_layer1 (s : XSeal GenesisSeal) : s.transmutate.layer1 = s.layer1 := by
  cases s <;> rfl

/-- A genesis seal keeps its method and its outpoint when it becomes a graph seal. -/
theorem transmutate_toOutputSeal (s : XSeal GenesisSeal) :
    s.transmutate.toOutputSeal = s.toOutputSeal := by
  cases s <;> rfl

/-- The resolved seal of a seal whose inner seal keeps the `TxoSeal` contract.
A seal with its own outpoint resolves to `to_output_seal` whatever the witness;
a placeholder resolves to the witness's txid. -/
theorem tryToOutputSeal_spec [TxoSeal U] (hU : TxoSeal.Contract U) (s : XSeal U)
    (w : WitnessId) :
    (s.tryToOutputSeal w = .error s ↔ s.layer1 ≠ w.layer1) ∧
    (s.layer1 = w.layer1 → ∃ o, s.tryToOutputSeal w = .ok o ∧ o.layer1 = s.layer1 ∧
      o.method = s.method ∧ (∀ o', s.toOutputSeal = some o' → o = o') ∧
      (s.toOutputSeal = none → o.reduceToBp.map (·.txid) = some w.txid)) := by
  rcases s with u | u <;> rcases w with t | t <;>
    simp only [tryToOutputSeal, layer1, WitnessId.layer1, ne_eq, reduceCtorEq,
      not_false_eq_true, not_true_eq_false, iff_true, iff_false, true_implies, false_implies,
      and_true]
  all_goals
    refine ⟨trivial, _, rfl, rfl, rfl, fun o' h => ?_, fun h => ?_⟩
    · obtain ⟨op, hop, rfl⟩ := Option.map_eq_some'.1 h
      rw [TxoSeal.outpointOr_of_outpoint hU hop]
    · rw [TxoSeal.outpointOr_of_outpoint_eq_none hU (Option.map_eq_none'.1 h)]
      rfl

theorem tryToOutputSeal_spec_graphSeal :
    TxoSeal.Contract GraphSeal ∧
    let s : XSeal GraphSeal := .bitcoin ⟨.tapretFirst, .witnessTx, ⟨0⟩, 0⟩
    let w : WitnessId := .bitcoin ⟨⟨List.replicate 32 0, rfl⟩⟩
    ((s.tryToOutputSeal w = .error s ↔ s.layer1 ≠ w.layer1) ∧
    (s.layer1 = w.layer1 → ∃ o, s.tryToOutputSeal w = .ok o ∧ o.layer1 = s.layer1 ∧
      o.method = s.method ∧ (∀ o', s.toOutputSeal = some o' → o = o') ∧
      (s.toOutputSeal = none → o.reduceToBp.map (·.txid) = some w.txid))) :=
  ⟨BlindSeal.contract, tryToOutputSeal_spec BlindSeal.contract _ _⟩

end XSeal

end RgbCore
