import RgbCore.Contract.Operations

/-!
# What the node queries list

`revealed_seals` and `filter_revealed_seals` gather the seals of every typed
assignment of a node's owned rights; their `_by_type` variants gather those of
one type, found by `owned_rights_by_type`, a linear `find_map`. The owned rights
are a map with strictly ascending keys, so that scan finds what the map lookup
finds, and gathering over the whole map is gathering type by type in ascending
order. The first query collects every result and fails if one failed; the query
by type transposes one result; the two agree on every node.

`parent_outputs` flattens both layers of a transition's parent owned rights.
Both layers have distinct keys in ascending order, so each output number of
`p[node_id][ty]` is listed under its parent and type as often as that list holds
it, grouped by parent and type in key order.

The seal queries of `TypedAssignments` are defined outside this repository and
are parameters here; only their results are read.
-/

namespace RgbCore

/-- `ConfidentialDataError`: a seal or a state is concealed. -/
structure ConfidentialDataError where
  deriving DecidableEq

/-- The derived `PartialEq` of `Result`, which `contains` compares with. -/
instance exceptDecidableEq {ε α : Type} [DecidableEq ε] [DecidableEq α] :
    DecidableEq (Except ε α)
  | .error e, .error e' => decidable_of_iff (e = e') (by simp)
  | .ok a, .ok a' => decidable_of_iff (a = a') (by simp)
  | .error _, .ok _ => isFalse (by simp)
  | .ok _, .error _ => isFalse (by simp)

/-- `Option::transpose`. -/
def transposeOption {ε α : Type} : Option (Except ε α) → Except ε (Option α)
  | none => .ok none
  | some (.ok a) => .ok (some a)
  | some (.error e) => .error e

namespace Node

variable {Chain Metadata A R : Type} (revealed : A → Except ConfidentialDataError (List R))
  (filterRevealed : A → List R)

/-- `Node::revealed_seals`: the revealed seals of every typed assignment, in the
order of the owned rights, unless one of them fails. -/
def revealedSeals [DecidableEq R] (n : Node Chain Metadata A) :
    Except ConfidentialDataError (List R) :=
  let unfiltered := n.ownedRights.entries.map fun e => revealed e.2
  if unfiltered.contains (.error ⟨⟩) then .error ⟨⟩
  else .ok (unfiltered.filterMap Except.toOption).flatten

/-- `Node::revealed_seals_by_type`: those of the typed assignments of one type,
none if the node has none of that type. -/
def revealedSealsByType (n : Node Chain Metadata A) (t : OwnedRightType) :
    Except ConfidentialDataError (List R) := do
  let seals ← transposeOption ((n.ownedRightsByType t).map revealed)
  return seals.getD []

/-- `Node::filter_revealed_seals`: the revealed seals of every typed assignment,
the concealed ones skipped. -/
def filterRevealedSeals (n : Node Chain Metadata A) : List R :=
  n.ownedRights.entries.flatMap fun e => filterRevealed e.2

/-- `Node::filter_revealed_seals_by_type`. -/
def filterRevealedSealsByType (n : Node Chain Metadata A) (t : OwnedRightType) : List R :=
  ((n.ownedRightsByType t).map filterRevealed).getD []

/-- The linear scan of `owned_rights_by_type` finds what the map lookup finds. -/
theorem ownedRightsByType_eq_get (n : Node Chain Metadata A) (t : OwnedRightType) :
    n.ownedRightsByType t = n.ownedRights.get t :=
  (TinyOrdMap.get_eq_findSome _ t).symm

theorem ownedRightsByType_of_mem {n : Node Chain Metadata A} {e : OwnedRightType × A}
    (he : e ∈ n.ownedRights.entries) : n.ownedRightsByType e.1 = some e.2 :=
  (ownedRightsByType_eq_get n e.1).trans (TinyOrdMap.get_of_mem he)

theorem revealedSealsByType_of_mem {n : Node Chain Metadata A} {e : OwnedRightType × A}
    (he : e ∈ n.ownedRights.entries) : n.revealedSealsByType revealed e.1 = revealed e.2 := by
  rw [revealedSealsByType, ownedRightsByType_of_mem he, Option.map_some']
  cases revealed e.2 <;> rfl

theorem filterRevealedSealsByType_of_mem {n : Node Chain Metadata A} {e : OwnedRightType × A}
    (he : e ∈ n.ownedRights.entries) :
    n.filterRevealedSealsByType filterRevealed e.1 = filterRevealed e.2 := by
  rw [filterRevealedSealsByType, ownedRightsByType_of_mem he]
  rfl

/-- What `revealed_seals` collects is the result of each type, in ascending
type order. -/
theorem revealed_entries_eq (n : Node Chain Metadata A) :
    (n.ownedRights.entries.map fun e => revealed e.2) =
      n.ownedRightTypes.map (n.revealedSealsByType revealed) := by
  rw [ownedRightTypes, TinyOrdMap.keys, List.map_map]
  exact List.map_congr_left fun e he => (revealedSealsByType_of_mem revealed he).symm

theorem ownedRightTypes_sorted (n : Node Chain Metadata A) : n.ownedRightTypes.Pairwise (· < ·) :=
  List.pairwise_map.2 n.ownedRights.sorted

theorem revealedSeals_eq_error_iff [DecidableEq R] (n : Node Chain Metadata A) :
    n.revealedSeals revealed = .error ⟨⟩ ↔
      ∃ t ∈ n.ownedRightTypes, n.revealedSealsByType revealed t = .error ⟨⟩ := by
  simp only [revealedSeals, revealed_entries_eq]
  split <;> simp_all

theorem revealedSeals_of_ok [DecidableEq R] (n : Node Chain Metadata A)
    {vs : OwnedRightType → List R}
    (h : ∀ t ∈ n.ownedRightTypes, n.revealedSealsByType revealed t = .ok (vs t)) :
    n.revealedSeals revealed = .ok (n.ownedRightTypes.flatMap vs) := by
  have hu : n.ownedRightTypes.map (n.revealedSealsByType revealed) =
      n.ownedRightTypes.map fun t => .ok (vs t) := List.map_congr_left h
  simp only [revealedSeals, revealed_entries_eq, hu]
  rw [if_neg (by simp), List.filterMap_map]
  exact congrArg (fun l => Except.ok (List.flatten l)) (congrFun (List.filterMap_eq_map vs) _)

theorem filterRevealedSeals_eq (n : Node Chain Metadata A) :
    n.filterRevealedSeals filterRevealed =
      n.ownedRightTypes.flatMap (n.filterRevealedSealsByType filterRevealed) := by
  rw [filterRevealedSeals, ownedRightTypes, TinyOrdMap.keys, List.flatMap_map, List.flatMap_def,
    List.flatMap_def]
  exact congrArg List.flatten
    (List.map_congr_left fun e he => (filterRevealedSealsByType_of_mem filterRevealed he).symm)

/-- `Node::to_confiential_seals`: the concealed seals of every typed assignment,
in the order of the owned rights. -/
def toConfientialSeals (toConfidentialSeals : A → List SecretSeal) (n : Node Chain Metadata A) :
    List SecretSeal :=
  n.ownedRights.entries.flatMap fun e => toConfidentialSeals e.2

/-- `parent_by_public_right_type(t)` of a state extension lists, in strictly
ascending order, exactly the parents whose public rights include `t`. -/
theorem parentByPublicRightType_extension (e : Extension Metadata A) (t : PublicRightType) :
    ∃ ids, (extension e : Node Chain Metadata A).parentByPublicRightType t = .ok ids ∧
      ids.Pairwise (· < ·) ∧
      ∀ id, id ∈ ids ↔ ∃ s, e.parentPublicRights.get id = some s ∧ t ∈ s.items := by
  refine ⟨_, rfl, List.pairwise_map.2 (e.parentPublicRights.sorted.sublist (List.filter_sublist _)),
    fun id => ?_⟩
  simp [TinyOrdMap.get_eq_some_iff]

/-- `revealed_seals` fails exactly when the seals of some owned-right type of the
node fail, and otherwise gathers the seals of each type in ascending type order;
`filter_revealed_seals` gathers those of each type the same way. The queries by
type go through `owned_rights_by_type`, whose scan finds what the map lookup
finds. -/
theorem revealedSeals_spec [DecidableEq R] (n : Node Chain Metadata A) :
    (n.revealedSeals revealed = .error ⟨⟩ ↔
      ∃ t ∈ n.ownedRightTypes, n.revealedSealsByType revealed t = .error ⟨⟩) ∧
    (∀ vs : OwnedRightType → List R,
      (∀ t ∈ n.ownedRightTypes, n.revealedSealsByType revealed t = .ok (vs t)) →
        n.revealedSeals revealed = .ok (n.ownedRightTypes.flatMap vs)) ∧
    n.filterRevealedSeals filterRevealed =
      n.ownedRightTypes.flatMap (n.filterRevealedSealsByType filterRevealed) ∧
    n.ownedRightTypes.Pairwise (· < ·) ∧
    ∀ t, n.ownedRightsByType t = n.ownedRights.get t :=
  ⟨revealedSeals_eq_error_iff revealed n, fun _ => revealedSeals_of_ok revealed n,
    filterRevealedSeals_eq filterRevealed n, ownedRightTypes_sorted n, ownedRightsByType_eq_get n⟩

end Node

/-- Flattening pieces that a key separates: the flattening is duplicate-free
exactly when every piece is, once distinct items carry distinct keys. -/
theorem nodup_flatMap_keyed {α β γ : Type} {l : List α} {f : α → List β} {key : α → γ}
    {proj : β → γ} (hl : l.Pairwise fun a b => key a ≠ key b)
    (hf : ∀ a, ∀ x ∈ f a, proj x = key a) :
    (l.flatMap f).Nodup ↔ ∀ a ∈ l, (f a).Nodup := by
  rw [List.nodup_flatMap]
  exact and_iff_left (hl.imp fun hne x hx hy => hne ((hf _ x hx).symm.trans (hf _ x hy)))

namespace ParentOwnedRights

/-- The output numbers `p[node_id][ty]` lists, none where that indexing would
panic. -/
def indices (p : ParentOwnedRights) (id : NodeId) (ty : OwnedRightType) : List UInt16 :=
  (((p.get id).bind fun m => m.get ty).map TinyVec.items).getD []

/-- Every output listed for one parent names that parent. -/
theorem nodeId_of_mem {id : NodeId} {m : TinyOrdMap OwnedRightType (TinyVec UInt16)}
    {o : NodeOutpoint}
    (ho : o ∈ m.entries.flatMap fun tv => tv.2.items.map fun no => (⟨id, tv.1, no⟩ : NodeOutpoint)) :
    o.nodeId = id := by
  obtain ⟨tv, -, ho⟩ := List.mem_flatMap.1 ho
  obtain ⟨no, -, rfl⟩ := List.mem_map.1 ho
  rfl

/-- The outputs of one parent and one type are its index list, in order. -/
theorem filter_outputs (p : ParentOwnedRights) (id : NodeId) (ty : OwnedRightType) :
    (p.outputs.filter fun o => o.nodeId = id ∧ o.ty = ty) =
      (p.indices id ty).map (NodeOutpoint.mk id ty) := by
  have hone : ∀ (i : NodeId) (tv : OwnedRightType × TinyVec UInt16),
      ((tv.2.items.map fun no => (⟨i, tv.1, no⟩ : NodeOutpoint)).filter
          fun o => o.nodeId = id ∧ o.ty = ty) =
        if i = id then (if tv.1 = ty then tv.2.items.map (NodeOutpoint.mk id ty) else [])
        else [] := by
    intro i tv
    rw [List.filter_map]
    by_cases hi : i = id <;> by_cases ht : tv.1 = ty <;> simp [hi, ht, Function.comp_def]
  have hpar : ∀ e : NodeId × TinyOrdMap OwnedRightType (TinyVec UInt16),
      (e.2.entries.flatMap fun tv =>
          if e.1 = id then (if tv.1 = ty then tv.2.items.map (NodeOutpoint.mk id ty) else [])
          else []) =
        if e.1 = id then e.2.entries.flatMap
          (fun tv => if tv.1 = ty then tv.2.items.map (NodeOutpoint.mk id ty) else []) else [] := by
    intro e
    by_cases h : e.1 = id <;> simp [h]
  simp only [outputs, List.filter_flatMap, hone, hpar]
  rw [TinyOrdMap.flatMap_ite_get p id fun m => m.entries.flatMap fun tv =>
    if tv.1 = ty then tv.2.items.map (NodeOutpoint.mk id ty) else []]
  rcases hp : p.get id with _ | m
  · simp [indices, hp]
  · rw [Option.map_some', Option.getD_some, TinyOrdMap.flatMap_ite_get m ty fun v =>
      v.items.map (NodeOutpoint.mk id ty)]
    rcases hm : m.get ty with _ | v <;> simp [indices, hp, hm]

theorem outputs_sorted (p : ParentOwnedRights) :
    p.outputs.Pairwise fun o o' => o.nodeId < o'.nodeId ∨ o.nodeId = o'.nodeId ∧ o.ty ≤ o'.ty := by
  refine List.pairwise_flatMap.2 ⟨fun e _ => List.pairwise_flatMap.2 ⟨fun tv _ => ?_, ?_⟩, ?_⟩
  · exact List.pairwise_map.2 (List.Pairwise.imp (fun _ => .inr ⟨rfl, UInt16.le_refl _⟩)
      (List.pairwise_of_forall fun _ _ => trivial))
  · refine e.2.sorted.imp fun h x hx y hy => ?_
    obtain ⟨_, -, rfl⟩ := List.mem_map.1 hx
    obtain ⟨_, -, rfl⟩ := List.mem_map.1 hy
    exact .inr ⟨rfl, UInt16.not_lt.1 (UInt16.lt_asymm h)⟩
  · exact p.sorted.imp fun h x hx y hy => .inl (nodeId_of_mem hx ▸ nodeId_of_mem hy ▸ h)

theorem length_outputs (p : ParentOwnedRights) :
    p.outputs.length = ((p.values.flatMap TinyOrdMap.values).map fun v => v.items.length).sum := by
  simp [outputs, TinyOrdMap.values, List.length_flatMap, List.map_flatMap, List.flatMap_def,
    List.sum_flatten, Function.comp_def]

theorem count_outputs (p : ParentOwnedRights) (id : NodeId) (ty : OwnedRightType) (no : UInt16) :
    p.outputs.count ⟨id, ty, no⟩ = (p.indices id ty).count no :=
  calc p.outputs.count ⟨id, ty, no⟩
      = (p.outputs.filter fun o => o.nodeId = id ∧ o.ty = ty).count ⟨id, ty, no⟩ :=
        (List.count_filter (by simp)).symm
    _ = ((p.indices id ty).map (NodeOutpoint.mk id ty)).count ⟨id, ty, no⟩ := by
        rw [filter_outputs]
    _ = (p.indices id ty).count no :=
        List.count_map_of_injective _ _ (fun _ _ h => (NodeOutpoint.mk.inj h).2.2) _

theorem nodup_outputs_iff (p : ParentOwnedRights) :
    p.outputs.Nodup ↔ ∀ v ∈ p.values.flatMap TinyOrdMap.values, v.items.Nodup := by
  have hpar : ∀ e : NodeId × TinyOrdMap OwnedRightType (TinyVec UInt16),
      (e.2.entries.flatMap fun tv => tv.2.items.map fun no => (⟨e.1, tv.1, no⟩ : NodeOutpoint)).Nodup ↔
        ∀ tv ∈ e.2.entries, tv.2.items.Nodup := fun e => by
    have hty : ∀ tv : OwnedRightType × TinyVec UInt16,
        ∀ o ∈ tv.2.items.map fun no => (⟨e.1, tv.1, no⟩ : NodeOutpoint), o.ty = tv.1 := by
      intro tv o ho
      obtain ⟨_, -, rfl⟩ := List.mem_map.1 ho
      rfl
    rw [nodup_flatMap_keyed e.2.keys_ne hty]
    exact forall₂_congr fun tv _ => List.nodup_map_iff fun _ _ h => (NodeOutpoint.mk.inj h).2.2
  rw [outputs, nodup_flatMap_keyed p.keys_ne fun _ _ hx => nodeId_of_mem hx]
  simp only [hpar, TinyOrdMap.values, List.mem_flatMap, List.mem_map]
  constructor
  · rintro h v ⟨_, ⟨e, he, rfl⟩, tv, htv, rfl⟩
    exact h e he tv htv
  · exact fun h e he tv htv => h _ ⟨_, ⟨e, he, rfl⟩, tv, htv, rfl⟩

/-- `parent_outputs` lists each output number of `p[node_id][ty]` as often as that
list holds it, ordered by parent and type and, within one parent and type, in
the order of the list; so its length is the sum of the lengths of the lists, and
it repeats no outpoint exactly when no list repeats a number. -/
theorem outputs_spec (p : ParentOwnedRights) :
    (∀ id ty no, p.outputs.count ⟨id, ty, no⟩ = (p.indices id ty).count no) ∧
    (p.outputs.Pairwise fun o o' => o.nodeId < o'.nodeId ∨ o.nodeId = o'.nodeId ∧ o.ty ≤ o'.ty) ∧
    (∀ id ty, (p.outputs.filter fun o => o.nodeId = id ∧ o.ty = ty) =
      (p.indices id ty).map (NodeOutpoint.mk id ty)) ∧
    p.outputs.length = ((p.values.flatMap TinyOrdMap.values).map fun v => v.items.length).sum ∧
    (p.outputs.Nodup ↔ ∀ v ∈ p.values.flatMap TinyOrdMap.values, v.items.Nodup) ∧
    ∀ {Chain Metadata A : Type} (n : Node Chain Metadata A), n.parentOwnedRights = .ok p →
      n.parentOutputs = .ok p.outputs :=
  ⟨count_outputs p, outputs_sorted p, filter_outputs p, length_outputs p, nodup_outputs_iff p,
    fun n h => by rw [Node.parentOutputs, h]; rfl⟩

end ParentOwnedRights

end RgbCore
