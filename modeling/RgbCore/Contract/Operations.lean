import RgbCore.Strict.Confined

/-!
# Contract operations

The three kinds of node of a contract, genesis, state extension and state
transition, and the queries the `Node` trait derives from their fields. A
node's owned rights map each owned-right type to its typed assignments; a
transition's parent owned rights map each parent node to the owned-right types
and the output numbers of that parent it spends.

The schema's type numbers are `u16`, as the schema module defines them. The
chain, the metadata and the typed assignments are defined outside this
repository and are parameters of the node types here. An accessor that a node
implements with `panic!` returns the panic's message as an error, so every
query that calls it fails with that message on that node.
-/

namespace RgbCore

/-- `OwnedRightType`. -/
abbrev OwnedRightType := UInt16

/-- `PublicRightType`. -/
abbrev PublicRightType := UInt16

/-- `ExtensionType`. -/
abbrev ExtensionType := UInt16

/-- `TransitionType`. -/
abbrev TransitionType := UInt16

/-- `NodeId`: the commitment hash of a node. -/
structure NodeId where
  bytes : Bytes32
  deriving DecidableEq

/-- The derived order of `NodeId`: that of its bytes. -/
instance : LT NodeId := ⟨fun a b => a.bytes < b.bytes⟩

instance (a b : NodeId) : Decidable (a < b) := inferInstanceAs (Decidable (a.bytes < b.bytes))

instance : IsStrictTotalOrder NodeId (· < ·) where
  trichotomous a b :=
    (Bytes32.lt_trichotomy a.bytes b.bytes).imp_right (Or.imp_left (congrArg NodeId.mk))
  irrefl a := Bytes32.lt_irrefl a.bytes
  trans _ _ _ := Bytes32.lt_trans

/-- `ContractId`: the node id of a genesis. -/
structure ContractId where
  bytes : Bytes32
  deriving DecidableEq

/-- `SchemaId`. -/
structure SchemaId where
  bytes : Bytes32
  deriving DecidableEq

/-- `NodeOutpoint`: an output of a node, by owned-right type and number. -/
structure NodeOutpoint where
  nodeId : NodeId
  ty : OwnedRightType
  no : UInt16
  deriving DecidableEq

/-- `NodeOutpoint::new`. -/
def NodeOutpoint.new (nodeId : NodeId) (ty no : UInt16) : NodeOutpoint := ⟨nodeId, ty, no⟩

/-- The derived `Ord` of `NodeOutpoint`: by node id, then type, then number. -/
instance : LT NodeOutpoint :=
  ⟨fun a b => fieldLex (· < ·) (fieldLex (· < ·) (· < ·)) (a.nodeId, a.ty, a.no) (b.nodeId, b.ty, b.no)⟩

instance (a b : NodeOutpoint) : Decidable (a < b) :=
  inferInstanceAs (Decidable (a.nodeId < b.nodeId ∨ a.nodeId = b.nodeId ∧
    (a.ty < b.ty ∨ a.ty = b.ty ∧ a.no < b.no)))

instance : IsStrictTotalOrder NodeOutpoint (· < ·) :=
  strictTotalOrder_of_injective (fieldLex (· < ·) (fieldLex (· < ·) (· < ·)))
    (fun o : NodeOutpoint => (o.nodeId, o.ty, o.no))
    fun a b h => by cases a; cases b; cases h; rfl

/-- `PublicRights`. -/
abbrev PublicRights := TinyOrdSet PublicRightType

/-- `OwnedRights`, over the typed assignments `A`. -/
abbrev OwnedRights (A : Type) := TinyOrdMap OwnedRightType A

/-- `ParentOwnedRights`: for each parent node, the output numbers spent under
each owned-right type. -/
abbrev ParentOwnedRights := TinyOrdMap NodeId (TinyOrdMap OwnedRightType (TinyVec UInt16))

/-- `ParentPublicRights`. -/
abbrev ParentPublicRights := TinyOrdMap NodeId (TinyOrdSet PublicRightType)

/-- `Genesis`. -/
structure Genesis (Chain Metadata A : Type) where
  schemaId : SchemaId
  chain : Chain
  metadata : Metadata
  ownedRights : OwnedRights A
  publicRights : PublicRights
  deriving DecidableEq

/-- `Extension`. -/
structure Extension (Metadata A : Type) where
  extensionType : ExtensionType
  contractId : ContractId
  metadata : Metadata
  ownedRights : OwnedRights A
  parentPublicRights : ParentPublicRights
  publicRights : PublicRights
  deriving DecidableEq

/-- `Transition`. -/
structure Transition (Metadata A : Type) where
  transitionType : TransitionType
  metadata : Metadata
  parentOwnedRights : ParentOwnedRights
  ownedRights : OwnedRights A
  publicRights : PublicRights
  deriving DecidableEq

section Constructors

variable {Chain Metadata A : Type}

/-- `Genesis::with`. -/
def Genesis.«with» (schemaId : SchemaId) (chain : Chain) (metadata : Metadata)
    (ownedRights : OwnedRights A) (publicRights : PublicRights) : Genesis Chain Metadata A :=
  { schemaId, chain, metadata, ownedRights, publicRights }

/-- `Extension::with`: the parent public rights come after the owned rights
among the arguments, before them among the fields. -/
def Extension.«with» (extensionType : ExtensionType) (contractId : ContractId)
    (metadata : Metadata) (ownedRights : OwnedRights A) (parentPublicRights : ParentPublicRights)
    (publicRights : PublicRights) : Extension Metadata A :=
  { extensionType, contractId, metadata, parentPublicRights, ownedRights, publicRights }

/-- `Transition::with`: the parent owned rights come last among the arguments,
third among the fields. -/
def Transition.«with» (transitionType : TransitionType) (metadata : Metadata)
    (ownedRights : OwnedRights A) (publicRights : PublicRights)
    (parentOwnedRights : ParentOwnedRights) : Transition Metadata A :=
  { transitionType, metadata, parentOwnedRights, ownedRights, publicRights }

end Constructors

/-- The implementors of the `Node` trait. -/
inductive Node (Chain Metadata A : Type) where
  | genesis (g : Genesis Chain Metadata A)
  | extension (e : Extension Metadata A)
  | transition (t : Transition Metadata A)
  deriving DecidableEq

/-- `NodeType`. -/
inductive NodeType where
  | genesis
  | stateExtension
  | stateTransition
  deriving DecidableEq, Repr

/-- `NodeSubtype`. -/
inductive NodeSubtype where
  | genesis
  | stateExtension (ty : ExtensionType)
  | stateTransition (ty : TransitionType)
  deriving DecidableEq, Repr

namespace ParentOwnedRights

/-- The body of `parent_outputs`: each output number of each type of each
parent, in the order of the maps. -/
def outputs (p : ParentOwnedRights) : List NodeOutpoint :=
  p.entries.flatMap fun e =>
    e.2.entries.flatMap fun tv => tv.2.items.map fun no => ⟨e.1, tv.1, no⟩

/-- The body of `parent_outputs_by_types`: as `outputs`, with the inner map
filtered to the listed types first. -/
def outputsByTypes (p : ParentOwnedRights) (types : List OwnedRightType) : List NodeOutpoint :=
  p.entries.flatMap fun e => (e.2.entries.filter fun tv => types.contains tv.1).flatMap
    fun tv => tv.2.items.map fun no => ⟨e.1, tv.1, no⟩

/-- Filtering the entries of one parent by their type before flattening them,
or the outputs after, gives one list. -/
theorem flatMap_filter_entries (q : OwnedRightType → Bool) (id : NodeId)
    (l : List (OwnedRightType × TinyVec UInt16)) :
    (l.filter fun tv => q tv.1).flatMap
        (fun tv => tv.2.items.map fun no => (⟨id, tv.1, no⟩ : NodeOutpoint)) =
      (l.flatMap fun tv => tv.2.items.map fun no => ⟨id, tv.1, no⟩).filter fun o => q o.ty := by
  induction l with
  | nil => rfl
  | cons tv l ih =>
    rw [List.filter_cons, List.flatMap_cons, List.filter_append, ← ih, List.filter_map]
    cases h : q tv.1 <;> simp [h, Function.comp_def, List.filter_eq_self.2]

theorem outputsByTypes_eq_filter (p : ParentOwnedRights) (types : List OwnedRightType) :
    p.outputsByTypes types = p.outputs.filter fun o => types.contains o.ty := by
  simp only [outputs, outputsByTypes, List.filter_flatMap, flatMap_filter_entries]

end ParentOwnedRights

namespace Node

variable {Chain Metadata A : Type}

/-- `Node::node_type`. -/
def nodeType : Node Chain Metadata A → NodeType
  | genesis _ => .genesis
  | extension _ => .stateExtension
  | transition _ => .stateTransition

/-- `Node::subtype`. -/
def subtype : Node Chain Metadata A → NodeSubtype
  | genesis _ => .genesis
  | extension e => .stateExtension e.extensionType
  | transition t => .stateTransition t.transitionType

/-- `Node::transition_type`. -/
def transitionType : Node Chain Metadata A → Option TransitionType
  | transition t => some t.transitionType
  | _ => none

/-- `Node::extension_type`. -/
def extensionType : Node Chain Metadata A → Option ExtensionType
  | extension e => some e.extensionType
  | _ => none

/-- `Node::metadata`. -/
def metadata : Node Chain Metadata A → Metadata
  | genesis g => g.metadata
  | extension e => e.metadata
  | transition t => t.metadata

/-- `Node::owned_rights`. -/
def ownedRights : Node Chain Metadata A → OwnedRights A
  | genesis g => g.ownedRights
  | extension e => e.ownedRights
  | transition t => t.ownedRights

/-- What a write through `Node::owned_rights_mut` leaves. -/
def setOwnedRights (r : OwnedRights A) : Node Chain Metadata A → Node Chain Metadata A
  | genesis g => genesis { g with ownedRights := r }
  | extension e => extension { e with ownedRights := r }
  | transition t => transition { t with ownedRights := r }

/-- `Node::public_rights`. -/
def publicRights : Node Chain Metadata A → PublicRights
  | genesis g => g.publicRights
  | extension e => e.publicRights
  | transition t => t.publicRights

/-- `Node::parent_owned_rights`: genesis and extensions panic. -/
def parentOwnedRights : Node Chain Metadata A → Except String ParentOwnedRights
  | genesis _ => .error "genesis can't close previous single-use-seals"
  | extension _ => .error "extension can't close previous single-use-seals"
  | transition t => .ok t.parentOwnedRights

/-- `Node::parent_public_rights`: genesis and transitions panic. -/
def parentPublicRights : Node Chain Metadata A → Except String ParentPublicRights
  | genesis _ => .error "genesis can't extend previous state"
  | extension e => .ok e.parentPublicRights
  | transition _ => .error "state transitions can't extend previous state"

@[simp] theorem ownedRights_setOwnedRights (r : OwnedRights A) (n : Node Chain Metadata A) :
    (n.setOwnedRights r).ownedRights = r := by
  cases n <;> rfl

theorem setOwnedRights_ownedRights (n : Node Chain Metadata A) :
    n.setOwnedRights n.ownedRights = n := by
  cases n <;> rfl

theorem setOwnedRights_eq_self_iff {r : OwnedRights A} {n : Node Chain Metadata A} :
    n.setOwnedRights r = n ↔ r = n.ownedRights :=
  ⟨fun h => by rw [← h, ownedRights_setOwnedRights], fun h => h ▸ setOwnedRights_ownedRights n⟩

/-- Writing the owned rights changes nothing else a node answers. -/
theorem setOwnedRights_frame (r : OwnedRights A) (n : Node Chain Metadata A) :
    (n.setOwnedRights r).nodeType = n.nodeType ∧ (n.setOwnedRights r).subtype = n.subtype ∧
    (n.setOwnedRights r).metadata = n.metadata ∧
    (n.setOwnedRights r).publicRights = n.publicRights ∧
    (n.setOwnedRights r).parentOwnedRights = n.parentOwnedRights ∧
    (n.setOwnedRights r).parentPublicRights = n.parentPublicRights := by
  cases n <;> exact ⟨rfl, rfl, rfl, rfl, rfl, rfl⟩

/-- Exactly the transitions have parent owned rights; the others panic with
their own message. -/
theorem parentOwnedRights_eq_error {n : Node Chain Metadata A} {msg : String} :
    n.parentOwnedRights = .error msg ↔
      (n.nodeType = .genesis ∧ msg = "genesis can't close previous single-use-seals") ∨
      (n.nodeType = .stateExtension ∧
        msg = "extension can't close previous single-use-seals") := by
  cases n <;> simp [parentOwnedRights, nodeType, eq_comm]

/-- `Node::parent_outputs`. -/
def parentOutputs (n : Node Chain Metadata A) : Except String (List NodeOutpoint) :=
  n.parentOwnedRights.map ParentOwnedRights.outputs

/-- `Node::parent_outputs_by_types`. -/
def parentOutputsByTypes (n : Node Chain Metadata A) (types : List OwnedRightType) :
    Except String (List NodeOutpoint) :=
  n.parentOwnedRights.map (ParentOwnedRights.outputsByTypes · types)

/-- `Node::parent_outputs_by_type`: `parent_outputs_by_types(&[t])`. -/
def parentOutputsByType (n : Node Chain Metadata A) (t : OwnedRightType) :
    Except String (List NodeOutpoint) :=
  n.parentOutputsByTypes [t]

/-- `Node::parent_owned_right_types`. -/
def parentOwnedRightTypes (n : Node Chain Metadata A) : Except String (List OwnedRightType) :=
  n.parentOwnedRights.map fun p => p.values.flatMap TinyOrdMap.keys

/-- `Node::parent_public_right_types`. -/
def parentPublicRightTypes (n : Node Chain Metadata A) : Except String (List PublicRightType) :=
  n.parentPublicRights.map fun p => p.values.flatMap TinyOrdSet.items

/-- `Node::parent_by_public_right_type`. -/
def parentByPublicRightType (n : Node Chain Metadata A) (t : PublicRightType) :
    Except String (List NodeId) :=
  n.parentPublicRights.map fun p => (p.entries.filter fun e => e.2.items.contains t).map Prod.fst

/-- `Node::owned_right_types`: the keys of the owned rights, already ascending. -/
def ownedRightTypes (n : Node Chain Metadata A) : List OwnedRightType := n.ownedRights.keys

/-- `Node::owned_rights_by_type`: a linear `find_map` over the owned rights. -/
def ownedRightsByType (n : Node Chain Metadata A) (t : OwnedRightType) : Option A :=
  n.ownedRights.entries.findSome? fun e => if e.1 = t then some e.2 else none

theorem parentOutputsByTypes_eq (n : Node Chain Metadata A) (types : List OwnedRightType) :
    n.parentOutputsByTypes types =
      n.parentOutputs.map (List.filter fun o => types.contains o.ty) := by
  cases h : n.parentOwnedRights <;>
    simp [parentOutputsByTypes, parentOutputs, h, Except.map,
      ParentOwnedRights.outputsByTypes_eq_filter]

/-- The outputs by types are the parent outputs of those types, in the same
order; the types are read as a set, so their order and repetitions do not
matter, and the query by one type is the query by the list of it. -/
theorem parentOutputsByTypes_spec (n : Node Chain Metadata A) (types : List OwnedRightType) :
    n.parentOutputsByTypes types =
      n.parentOutputs.map (List.filter fun o => types.contains o.ty) ∧
    (∀ t, n.parentOutputsByType t = n.parentOutputs.map (List.filter fun o => o.ty == t)) ∧
    (∀ types', (∀ t, t ∈ types ↔ t ∈ types') →
      n.parentOutputsByTypes types = n.parentOutputsByTypes types') := by
  refine ⟨parentOutputsByTypes_eq n types, fun t => ?_, fun types' h => ?_⟩
  · simp only [parentOutputsByType, parentOutputsByTypes_eq, List.contains_cons,
      List.contains_nil, Bool.or_false]
  · have hc : ∀ t, types.contains t = types'.contains t := fun t => by simp [h]
    simp only [parentOutputsByTypes_eq, hc]

end Node

end RgbCore
