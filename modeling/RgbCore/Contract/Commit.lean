import RgbCore.Contract.NodeEncoding

/-!
# Node identifiers and concealment

`node_id` is the tagged hash of a node's strict encoding: each node type
commits with the `Strict` strategy under its own 32-byte tag, and the contract
id of a genesis is its node id. Concealing a node's owned state or seals
rewrites its owned rights in place and counts the assignments it changed.

The commitment is taken over the node as it is stored, with nothing concealed
first (merklization is still a `TODO` there). So the committed bytes stay the
same exactly when concealing changed nothing: every concealment that does
something changes them. The hash itself is taken as given.
-/

namespace RgbCore

open Strict StrictCodec

/-- The bytes of an ASCII tag. -/
def asciiBytes (s : String) : List UInt8 := s.toList.map fun c => UInt8.ofNat c.toNat

/-- `CommitmentId::TAG` for `Genesis`. -/
def Genesis.tag : List UInt8 := asciiBytes "urn:lnpbp:rgb:genesis:v01#202302"

/-- `CommitmentId::TAG` for `Transition`. -/
def Transition.tag : List UInt8 := asciiBytes "urn:lnpbp:rgb:transition:v01#32A"

/-- `CommitmentId::TAG` for `Extension`. -/
def Extension.tag : List UInt8 := asciiBytes "urn:lnpbp:rgb:extension:v01#2023"

/-- The three node types commit under distinct tags. -/
theorem tag_ne :
    Genesis.tag ≠ Extension.tag ∧ Genesis.tag ≠ Transition.tag ∧ Extension.tag ≠ Transition.tag := by
  decide

/-- The tagged hash `SHA256(SHA256(tag) ‖ SHA256(tag) ‖ msg)`. -/
def taggedHash (sha256 : List UInt8 → Bytes32) (tag msg : List UInt8) : Bytes32 :=
  sha256 ((sha256 tag).bytes ++ (sha256 tag).bytes ++ msg)

namespace Node

variable {Chain Metadata A : Type} (sha256 : List UInt8 → Bytes32)
  (cc : StrictCodec Chain) (mc : StrictCodec Metadata) (ac : StrictCodec A)

/-- The tag a node commits under. -/
def commitTag : Node Chain Metadata A → List UInt8
  | genesis _ => Genesis.tag
  | extension _ => Extension.tag
  | transition _ => Transition.tag

/-- What a node commits to under the `Strict` strategy: its strict encoding. -/
def commitBytes : Node Chain Metadata A → List UInt8
  | genesis g => (Genesis.strictCodec cc mc ac).encode g
  | extension e => (Extension.strictCodec mc ac).encode e
  | transition t => (Transition.strictCodec mc ac).encode t

/-- `Node::node_id`: the commitment id. -/
def nodeId (n : Node Chain Metadata A) : NodeId :=
  ⟨taggedHash sha256 n.commitTag (n.commitBytes cc mc ac)⟩

/-- `Node::contract_id`: a genesis' own node id, an extension's stored id. -/
def contractId : Node Chain Metadata A → Option ContractId
  | genesis g => some ⟨(nodeId sha256 cc mc ac (genesis g)).bytes⟩
  | extension e => some e.contractId
  | transition _ => none

/-- The node id of a transition, as `Transition::node_id` computes it. -/
def transitionId (t : Transition Metadata A) : NodeId :=
  ⟨taggedHash sha256 Transition.tag ((Transition.strictCodec mc ac).encode t)⟩

theorem nodeId_transition (t : Transition Metadata A) :
    nodeId sha256 cc mc ac (transition t) = transitionId sha256 mc ac t := rfl

/-- `Ord for Transition`: by node id. -/
def transitionCmp (t t' : Transition Metadata A) : Ordering :=
  (transitionId sha256 mc ac t).bytes.cmp (transitionId sha256 mc ac t').bytes

/-- `PartialOrd for Transition`: `Some(self.cmp(other))`. -/
def transitionPartialCmp (t t' : Transition Metadata A) : Option Ordering :=
  some (transitionCmp sha256 mc ac t t')

/-- Transitions are ordered ascending by node id: a total preorder, in which a
transition is less than another exactly when its node id's bytes come first
lexicographically, and equal exactly when the node ids agree. -/
theorem transitionCmp_preorderLaws :
    PreorderLaws (transitionCmp sha256 mc ac) (transitionPartialCmp sha256 mc ac) ∧
    (∀ t t' : Transition Metadata A, transitionCmp sha256 mc ac t t' = .eq ↔
      transitionId sha256 mc ac t = transitionId sha256 mc ac t') ∧
    ∀ t t' : Transition Metadata A, transitionCmp sha256 mc ac t t' = .lt ↔
      List.Lex (· < ·) (transitionId sha256 mc ac t).bytes.bytes
        (transitionId sha256 mc ac t').bytes.bytes :=
  ⟨PreorderLaws.of_cmp (fun _ _ => cmpBytes_swap _ _) (fun _ _ _ => cmpBytes_le_trans),
    fun _ _ => Bytes32.cmp_eq_iff.trans ⟨congrArg NodeId.mk, congrArg NodeId.bytes⟩,
    fun _ _ => cmpBytes_eq_lt_iff⟩

/-- A node keeps its committed bytes under a write of its owned rights exactly
when the write keeps the node: each node type's encoding is injective. -/
theorem commitBytes_setOwnedRights_eq_iff (hc : cc.Lawful) (hm : mc.Lawful) (ha : ac.Lawful)
    (n : Node Chain Metadata A) (r : OwnedRights A) :
    (n.setOwnedRights r).commitBytes cc mc ac = n.commitBytes cc mc ac ↔
      n.setOwnedRights r = n := by
  cases n with
  | genesis g =>
    rw [setOwnedRights, commitBytes, commitBytes,
      (Genesis.strictCodec_lawful hc hm ha).encode_injective.eq_iff, genesis.injEq]
  | extension e =>
    rw [setOwnedRights, commitBytes, commitBytes,
      (Extension.strictCodec_lawful hm ha).encode_injective.eq_iff, extension.injEq]
  | transition t =>
    rw [setOwnedRights, commitBytes, commitBytes,
      (Transition.strictCodec_lawful hm ha).encode_injective.eq_iff, transition.injEq]

/-- What `node_id` hashes, a node's tag and the bytes it commits to, determines
the node: two nodes, of one type or of two, share it only if they are equal. -/
theorem commitTag_commitBytes_inj (hc : cc.Lawful) (hm : mc.Lawful) (ha : ac.Lawful)
    (n n' : Node Chain Metadata A) :
    n.commitTag = n'.commitTag ∧ n.commitBytes cc mc ac = n'.commitBytes cc mc ac ↔ n = n' := by
  refine ⟨fun ⟨ht, hb⟩ => ?_, fun h => h ▸ ⟨rfl, rfl⟩⟩
  cases n with
  | genesis g =>
    cases n' with
    | genesis g' => exact congrArg genesis ((Genesis.strictCodec_lawful hc hm ha).encode_injective hb)
    | extension _ => exact absurd ht tag_ne.1
    | transition _ => exact absurd ht tag_ne.2.1
  | extension e =>
    cases n' with
    | genesis _ => exact absurd ht.symm tag_ne.1
    | extension e' => exact congrArg extension ((Extension.strictCodec_lawful hm ha).encode_injective hb)
    | transition _ => exact absurd ht tag_ne.2.2
  | transition t =>
    cases n' with
    | genesis _ => exact absurd ht.symm tag_ne.2.1
    | extension _ => exact absurd ht.symm tag_ne.2.2
    | transition t' =>
      exact congrArg transition ((Transition.strictCodec_lawful hm ha).encode_injective hb)

/-- Two transitions that differ only in their type commit under one tag to
different bytes. -/
theorem commitTag_commitBytes_inj_transition :
    u8.Lawful ∧ (tinyOrdMap u16 (tinyVec u8)).Lawful ∧
    (TypedAssignments.strictCodec .void).Lawful ∧
    let n : TransitionType → Node UInt8 (TinyOrdMap UInt16 (TinyVec UInt8)) (TypedAssignments .void) :=
      fun ty => .transition ⟨ty, ⟨[], .nil, by decide⟩, ⟨[], .nil, by decide⟩,
        ⟨[], .nil, by decide⟩, ⟨[], .nil, by decide⟩⟩
    (n 0).commitTag = (n 1).commitTag ∧
      (n 0).commitBytes u8 (tinyOrdMap u16 (tinyVec u8)) (TypedAssignments.strictCodec .void) ≠
        (n 1).commitBytes u8 (tinyOrdMap u16 (tinyVec u8)) (TypedAssignments.strictCodec .void) :=
  have hm := tinyOrdMap_lawful u16_lawful (tinyVec_lawful u8_lawful)
  have ha := TypedAssignments.strictCodec_lawful .void
  ⟨u8_lawful, hm, ha, by
    intro n
    refine ⟨rfl, fun h => ?_⟩
    have := (commitTag_commitBytes_inj _ _ _ u8_lawful hm ha (n 0) (n 1)).1 ⟨rfl, h⟩
    simp [n] at this⟩

/-- The loop of `conceal_state_except` and `conceal_seals` over a node's owned
rights (`keyed_values_mut`): each typed assignment rewritten in place, the
counts summed. -/
def concealEach (f : A → A × Nat) (n : Node Chain Metadata A) : Node Chain Metadata A × Nat :=
  (n.setOwnedRights (n.ownedRights.mapValues fun _ a => (f a).1),
    (n.ownedRights.values.map fun a => (f a).2).sum)

theorem concealEach_count_eq_zero {f : A → A × Nat} (hf : ∀ a, (f a).2 = 0 ↔ (f a).1 = a)
    (n : Node Chain Metadata A) :
    (n.concealEach f).2 = 0 ↔ (n.concealEach f).1 = n := by
  have hg : ∀ e : OwnedRightType × A,
      ((e.1, (f e.2).1), (f e.2).2).2 = 0 ↔ ((e.1, (f e.2).1), (f e.2).2).1 = e := fun e => by
    simp only [hf, Prod.ext_iff, true_and]
  simp only [concealEach, setOwnedRights_eq_self_iff, TinyOrdMap.mapValues_eq_self_iff,
    TinyOrdMap.values, List.map_map, Function.comp_def]
  exact sum_counts_eq_zero_iff hg _

/-- The bytes a node commits to are kept by a concealing loop exactly when the
loop counts no change. -/
theorem commitBytes_concealEach_eq_iff (hc : cc.Lawful) (hm : mc.Lawful) (ha : ac.Lawful)
    {f : A → A × Nat} (hf : ∀ a, (f a).2 = 0 ↔ (f a).1 = a) (n : Node Chain Metadata A) :
    (n.concealEach f).1.commitBytes cc mc ac = n.commitBytes cc mc ac ↔
      (n.concealEach f).2 = 0 := by
  rw [concealEach_count_eq_zero hf]
  exact commitBytes_setOwnedRights_eq_iff cc mc ac hc hm ha n _

variable {S : StateTypes} (seals : List SecretSeal)

/-- `ConcealState::conceal_state_except` of a genesis, an extension or a
transition. -/
def concealStateExcept (n : Node Chain Metadata (TypedAssignments S)) :
    Node Chain Metadata (TypedAssignments S) × Nat :=
  n.concealEach (·.concealStateExcept sha256 seals)

/-- `ConcealSeals::conceal_seals` of a genesis, an extension or a transition. -/
def concealSeals (n : Node Chain Metadata (TypedAssignments S)) :
    Node Chain Metadata (TypedAssignments S) × Nat :=
  n.concealEach (·.concealSeals sha256 seals)

/-- Concealing keeps a node's committed bytes exactly when it conceals
nothing, for either operation and any list of seals. -/
theorem commitBytes_conceal_eq_iff (hc : cc.Lawful) (hm : mc.Lawful)
    (n : Node Chain Metadata (TypedAssignments S)) :
    ((n.concealStateExcept sha256 seals).1.commitBytes cc mc (TypedAssignments.strictCodec S) =
        n.commitBytes cc mc (TypedAssignments.strictCodec S) ↔
      (n.concealStateExcept sha256 seals).2 = 0) ∧
    ((n.concealSeals sha256 seals).1.commitBytes cc mc (TypedAssignments.strictCodec S) =
        n.commitBytes cc mc (TypedAssignments.strictCodec S) ↔
      (n.concealSeals sha256 seals).2 = 0) :=
  ⟨commitBytes_concealEach_eq_iff cc mc _ hc hm (TypedAssignments.strictCodec_lawful S)
      (TypedAssignments.concealStateExcept_count_eq_zero sha256 seals) n,
    commitBytes_concealEach_eq_iff cc mc _ hc hm (TypedAssignments.strictCodec_lawful S)
      (TypedAssignments.concealSeals_count_eq_zero sha256 seals) n⟩

theorem commitBytes_conceal_eq_iff_transition :
    u8.Lawful ∧ (tinyOrdMap u16 (tinyVec u8)).Lawful ∧
    let n : Node UInt8 (TinyOrdMap UInt16 (TinyVec UInt8)) (TypedAssignments .void) :=
      .transition ⟨0, ⟨[], .nil, by decide⟩, ⟨[], .nil, by decide⟩,
        ⟨[(0, ⟨.declarative, ⟨[.revealed (.bitcoin ⟨.tapretFirst, .witnessTx, ⟨0⟩, 0⟩) ()],
            by decide⟩⟩)],
          List.pairwise_singleton _ _, by decide⟩, ⟨[], .nil, by decide⟩⟩
    let sha256 : List UInt8 → Bytes32 := fun _ => ⟨List.replicate 32 0, rfl⟩
    ((n.concealStateExcept sha256 []).1.commitBytes u8 (tinyOrdMap u16 (tinyVec u8))
        (TypedAssignments.strictCodec .void) =
      n.commitBytes u8 (tinyOrdMap u16 (tinyVec u8)) (TypedAssignments.strictCodec .void) ↔
      (n.concealStateExcept sha256 []).2 = 0) ∧
    ((n.concealSeals sha256 []).1.commitBytes u8 (tinyOrdMap u16 (tinyVec u8))
        (TypedAssignments.strictCodec .void) =
      n.commitBytes u8 (tinyOrdMap u16 (tinyVec u8)) (TypedAssignments.strictCodec .void) ↔
      (n.concealSeals sha256 []).2 = 0) :=
  have hm := tinyOrdMap_lawful u16_lawful (tinyVec_lawful u8_lawful)
  ⟨u8_lawful, hm, commitBytes_conceal_eq_iff _ _ _ _ u8_lawful hm _⟩

/-- A transition with one revealed assignment changes the bytes it commits to
when its state is concealed, and again when its seal is. -/
theorem commitBytes_conceal_changes :
    ∃ n : Node UInt8 (TinyOrdMap UInt16 (TinyVec UInt8)) (TypedAssignments .void),
      ∀ sha256 : List UInt8 → Bytes32,
      (n.concealStateExcept sha256 []).1.commitBytes u8 (tinyOrdMap u16 (tinyVec u8))
          (TypedAssignments.strictCodec .void) ≠
        n.commitBytes u8 (tinyOrdMap u16 (tinyVec u8)) (TypedAssignments.strictCodec .void) ∧
      ∃ seals, (n.concealSeals sha256 seals).1.commitBytes u8 (tinyOrdMap u16 (tinyVec u8))
          (TypedAssignments.strictCodec .void) ≠
        n.commitBytes u8 (tinyOrdMap u16 (tinyVec u8)) (TypedAssignments.strictCodec .void) := by
  have hm := tinyOrdMap_lawful u16_lawful (tinyVec_lawful u8_lawful)
  have ha := TypedAssignments.strictCodec_lawful .void
  let u : RevealedSeal := .bitcoin ⟨.tapretFirst, .witnessTx, ⟨0⟩, 0⟩
  refine ⟨.transition ⟨0, ⟨[], .nil, by decide⟩, ⟨[], .nil, by decide⟩,
    ⟨[(0, ⟨.declarative, ⟨[.revealed u ()], by decide⟩⟩)], List.pairwise_singleton _ _,
      by decide⟩, ⟨[], .nil, by decide⟩⟩,
    fun sha256 => ⟨fun h => ?_, [u.conceal sha256], fun h => ?_⟩⟩
  · have h0 := (commitBytes_concealEach_eq_iff _ _ _ u8_lawful hm ha
      (TypedAssignments.concealStateExcept_count_eq_zero sha256 []) _).1 h
    simp [concealEach, ownedRights, TinyOrdMap.values, TypedAssignments.concealStateExcept,
      TypedAssignments.concealEach, Assignment.concealStateExcept] at h0
  · have h0 := (commitBytes_concealEach_eq_iff _ _ _ u8_lawful hm ha
      (TypedAssignments.concealSeals_count_eq_zero sha256 [u.conceal sha256]) _).1 h
    simp [concealEach, ownedRights, TinyOrdMap.values, TypedAssignments.concealSeals,
      TypedAssignments.concealEach, Assignment.concealSeals] at h0

/-- A concealing loop run again over its own output keeps the node and counts
nothing, if each step run again over its own output counts nothing. -/
theorem concealEach_concealEach {f : A → A × Nat} (hf : ∀ a, (f a).2 = 0 ↔ (f a).1 = a)
    (hf₂ : ∀ a, (f (f a).1).2 = 0) (n : Node Chain Metadata A) :
    (n.concealEach f).1.concealEach f = ((n.concealEach f).1, 0) := by
  have h₀ : ((n.concealEach f).1.concealEach f).2 = 0 := by
    simp [concealEach, TinyOrdMap.values, Function.comp_def, hf₂]
  exact Prod.ext ((concealEach_count_eq_zero hf _).1 h₀) h₀

/-- Concealing is idempotent: a second call with the same seals conceals
nothing and returns the node as the first call left it. -/
theorem conceal_idempotent (n : Node Chain Metadata (TypedAssignments S)) :
    (n.concealStateExcept sha256 seals).1.concealStateExcept sha256 seals =
      ((n.concealStateExcept sha256 seals).1, 0) ∧
    (n.concealSeals sha256 seals).1.concealSeals sha256 seals =
      ((n.concealSeals sha256 seals).1, 0) :=
  ⟨concealEach_concealEach (TypedAssignments.concealStateExcept_count_eq_zero sha256 seals)
      (TypedAssignments.concealStateExcept_count_twice sha256 seals) n,
    concealEach_concealEach (TypedAssignments.concealSeals_count_eq_zero sha256 seals)
      (TypedAssignments.concealSeals_count_twice sha256 seals) n⟩

end Node

namespace Genesis

variable {Chain Metadata A : Type} (sha256 : List UInt8 → Bytes32)
  (cc : StrictCodec Chain) (mc : StrictCodec Metadata) (ac : StrictCodec A)

/-- `Genesis::contract_id`: the genesis' node id, read as a contract id. -/
def contractId (g : Genesis Chain Metadata A) : ContractId :=
  ⟨(Node.nodeId sha256 cc mc ac (.genesis g)).bytes⟩

/-- The inherent `contract_id` of a genesis is the one `Node::contract_id` gives. -/
theorem node_contractId (g : Genesis Chain Metadata A) :
    (Node.genesis g).contractId sha256 cc mc ac = some (g.contractId sha256 cc mc ac) := rfl

end Genesis

end RgbCore
