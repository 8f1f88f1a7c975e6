import RgbCore.Strict.Primitives

/-!
# Confined collections

`TinyVec`, `TinyOrdSet` and `TinyOrdMap` hold at most 255 items, and the sets
and maps keep their items, or keys, strictly ascending, as the `BTreeSet` and
`BTreeMap` inside them do. Both facts are fields, so no value can break them.

A confined collection is written as a one-byte count followed by its items in
order. Decoding a set or a map rejects items that do not ascend strictly, which
is what makes every accepted input the encoding of what it reads.
-/

namespace RgbCore

/-- `TinyVec<T>`: at most 255 items. -/
structure TinyVec (α : Type) where
  items : List α
  bound : items.length ≤ 255
  deriving DecidableEq

/-- `TinyOrdSet<T>`: at most 255 items, strictly ascending. -/
structure TinyOrdSet (α : Type) [LT α] where
  items : List α
  sorted : items.Pairwise (· < ·)
  bound : items.length ≤ 255
  deriving DecidableEq

/-- `TinyOrdMap<K, V>`: at most 255 entries, keys strictly ascending. -/
structure TinyOrdMap (K V : Type) [LT K] where
  entries : List (K × V)
  sorted : entries.Pairwise (fun a b => a.1 < b.1)
  bound : entries.length ≤ 255
  deriving DecidableEq

/-- Every item of a `TinyVec` rewritten in place. -/
def TinyVec.map {α β : Type} (f : α → β) (v : TinyVec α) : TinyVec β :=
  ⟨v.items.map f, by simpa using v.bound⟩

@[simp] theorem TinyVec.map_items {α β : Type} (f : α → β) (v : TinyVec α) :
    (v.map f).items = v.items.map f := rfl

theorem TinyVec.ext_items {α : Type} {v w : TinyVec α} (h : v.items = w.items) : v = w := by
  cases v; cases w; cases h; rfl

theorem TinyVec.map_eq_self_iff {α : Type} {f : α → α} {v : TinyVec α} :
    v.map f = v ↔ v.items.map f = v.items :=
  ⟨congrArg TinyVec.items, fun h => TinyVec.ext_items h⟩

section KeyScan

variable {K V : Type} [DecidableEq K]

/-- A linear scan for the first entry under `k` finds the entry of each key. -/
theorem findSome_of_mem {l : List (K × V)} (hl : l.Pairwise fun a b => a.1 ≠ b.1)
    {e : K × V} (he : e ∈ l) :
    l.findSome? (fun e' => if e'.1 = e.1 then some e'.2 else none) = some e.2 := by
  induction l with
  | nil => cases he
  | cons e' l ih =>
    rw [List.pairwise_cons] at hl
    rcases List.mem_cons.1 he with rfl | he
    · simp
    · simp [hl.1 e he, ih hl.2 he]

/-- Flattening the entries under one key, of a list whose keys are distinct,
flattens the value a scan finds. -/
theorem flatMap_ite_key {β : Type} {l : List (K × V)} (hl : l.Pairwise fun a b => a.1 ≠ b.1)
    (k : K) (f : V → List β) :
    (l.flatMap fun e => if e.1 = k then f e.2 else []) =
      ((l.findSome? fun e => if e.1 = k then some e.2 else none).map f).getD [] := by
  induction l with
  | nil => rfl
  | cons e l ih =>
    rw [List.pairwise_cons] at hl
    by_cases he : e.1 = k
    · have hrest : (l.flatMap fun e => if e.1 = k then f e.2 else []) = [] :=
        List.flatMap_eq_nil_iff.2 fun x hx => if_neg fun h => hl.1 x hx (he.trans h.symm)
      simp [he, hrest]
    · simp [he, ih hl.2]

end KeyScan

namespace TinyOrdMap

variable {K V W : Type} [LT K]

def keys (m : TinyOrdMap K V) : List K := m.entries.map Prod.fst

def values (m : TinyOrdMap K V) : List V := m.entries.map Prod.snd

theorem ext_entries {m m' : TinyOrdMap K V} (h : m.entries = m'.entries) : m = m' := by
  cases m; cases m'; cases h; rfl

/-- `keyed_values_mut`: every value rewritten in place, the keys unchanged. -/
def mapValues (f : K → V → W) (m : TinyOrdMap K V) : TinyOrdMap K W where
  entries := m.entries.map fun e => (e.1, f e.1 e.2)
  sorted := List.pairwise_map.2 m.sorted
  bound := by simpa using m.bound

@[simp] theorem mapValues_entries (f : K → V → W) (m : TinyOrdMap K V) :
    (m.mapValues f).entries = m.entries.map fun e => (e.1, f e.1 e.2) := rfl

theorem mapValues_eq_self_iff {f : K → V → V} {m : TinyOrdMap K V} :
    m.mapValues f = m ↔ m.entries.map (fun e => (e.1, f e.1 e.2)) = m.entries :=
  ⟨congrArg entries, fun h => ext_entries h⟩

theorem keys_ne [IsStrictTotalOrder K (· < ·)] (m : TinyOrdMap K V) :
    m.entries.Pairwise fun a b => a.1 ≠ b.1 :=
  m.sorted.imp ne_of_irrefl

section Lookup

variable [DecidableEq K] [∀ a b : K, Decidable (a < b)]

/-- The search of `BTreeMap::get`, over the entries in key order: it passes the
keys below `k` and stops at the first that is not, a hit if that key is `k`. -/
def search (k : K) : List (K × V) → Option V
  | [] => none
  | e :: es => if e.1 < k then search k es else if e.1 = k then some e.2 else none

/-- `BTreeMap::get`. -/
def get (m : TinyOrdMap K V) (k : K) : Option V := search k m.entries

variable [IsStrictTotalOrder K (· < ·)]

/-- On entries in strictly ascending key order, the ordered search finds what a
linear scan of every entry finds. -/
theorem search_eq_findSome (k : K) {l : List (K × V)} (hl : l.Pairwise fun a b => a.1 < b.1) :
    search k l = l.findSome? fun e => if e.1 = k then some e.2 else none := by
  induction l with
  | nil => rfl
  | cons e l ih =>
    rw [List.pairwise_cons] at hl
    by_cases hlt : e.1 < k
    · simp [search, hlt, ne_of_irrefl hlt, ih hl.2]
    rw [search, if_neg hlt]
    by_cases heq : e.1 = k
    · simp [heq]
    have hk : k < e.1 := ((trichotomous_of (· < ·) e.1 k).resolve_left hlt).resolve_left heq
    simp only [heq, if_false, List.findSome?_cons]
    exact (List.findSome?_eq_none_iff.2 fun x hx =>
      if_neg (ne_of_irrefl (trans_of (· < ·) hk (hl.1 x hx))).symm).symm

theorem get_eq_findSome (m : TinyOrdMap K V) (k : K) :
    m.get k = m.entries.findSome? fun e => if e.1 = k then some e.2 else none :=
  search_eq_findSome k m.sorted

theorem get_of_mem {m : TinyOrdMap K V} {e : K × V} (he : e ∈ m.entries) : m.get e.1 = some e.2 :=
  (get_eq_findSome m e.1).trans (findSome_of_mem m.keys_ne he)

/-- The map lookup finds exactly the entries of the map. -/
theorem get_eq_some_iff {m : TinyOrdMap K V} {k : K} {v : V} :
    m.get k = some v ↔ (k, v) ∈ m.entries := by
  refine ⟨fun h => ?_, get_of_mem⟩
  rw [get_eq_findSome] at h
  obtain ⟨e, he, hs⟩ := List.exists_of_findSome?_eq_some h
  split at hs
  · cases hs
    rwa [← ‹e.1 = k›]
  · cases hs

theorem flatMap_ite_get {β : Type} (m : TinyOrdMap K V) (k : K) (f : V → List β) :
    (m.entries.flatMap fun e => if e.1 = k then f e.2 else []) = ((m.get k).map f).getD [] := by
  rw [get_eq_findSome, flatMap_ite_key m.keys_ne]

end Lookup

end TinyOrdMap

/-- `BTreeMap<K, V>`: entries in strictly ascending key order, unbounded. -/
structure BTreeMap (K V : Type) [LT K] where
  entries : List (K × V)
  sorted : entries.Pairwise (fun a b => a.1 < b.1)

namespace BTreeMap

variable {K V : Type} [LT K] [DecidableEq K] [∀ a b : K, Decidable (a < b)]

/-- `BTreeMap::new`. -/
def empty : BTreeMap K V := ⟨[], .nil⟩

/-- Where `BTreeMap::insert` puts an entry: over the value of `k` if `k` is
present, else before the first key above `k`. -/
def insertEntry (k : K) (v : V) : List (K × V) → List (K × V)
  | [] => [(k, v)]
  | e :: es =>
    if e.1 < k then e :: insertEntry k v es else if e.1 = k then (k, v) :: es else (k, v) :: e :: es

theorem mem_insertEntry {k : K} {v : V} {l : List (K × V)} {x : K × V}
    (h : x ∈ insertEntry k v l) : x = (k, v) ∨ x ∈ l := by
  induction l with
  | nil => simpa [insertEntry] using h
  | cons e l ih =>
    simp only [insertEntry] at h
    split_ifs at h with h₁ h₂
    · rcases List.mem_cons.1 h with rfl | h
      · exact .inr (List.mem_cons_self _ _)
      · exact (ih h).imp_right (List.mem_cons_of_mem e)
    · rcases List.mem_cons.1 h with rfl | h
      · exact .inl rfl
      · exact .inr (List.mem_cons_of_mem e h)
    · exact List.mem_cons.1 h

/-- `BTreeMap::get`: the search of `TinyOrdMap::get`, over the same kind of entries. -/
def get (m : BTreeMap K V) (k : K) : Option V := TinyOrdMap.search k m.entries

@[simp] theorem get_empty (k : K) : (empty : BTreeMap K V).get k = none := rfl

variable [IsStrictTotalOrder K (· < ·)]

theorem insertEntry_sorted (k : K) (v : V) {l : List (K × V)}
    (hl : l.Pairwise fun a b => a.1 < b.1) : (insertEntry k v l).Pairwise fun a b => a.1 < b.1 := by
  induction l with
  | nil => exact List.pairwise_singleton _ _
  | cons e l ih =>
    rw [List.pairwise_cons] at hl
    simp only [insertEntry]
    split_ifs with h₁ h₂
    · refine List.pairwise_cons.2 ⟨fun x hx => ?_, ih hl.2⟩
      rcases mem_insertEntry hx with rfl | hx
      · exact h₁
      · exact hl.1 x hx
    · exact List.pairwise_cons.2 ⟨fun x hx => h₂ ▸ hl.1 x hx, hl.2⟩
    · have hk : k < e.1 := ((trichotomous_of (· < ·) e.1 k).resolve_left h₁).resolve_left h₂
      refine List.pairwise_cons.2 ⟨fun x hx => ?_, List.pairwise_cons.2 hl⟩
      rcases List.mem_cons.1 hx with rfl | hx
      · exact hk
      · exact trans_of (· < ·) hk (hl.1 x hx)

/-- `BTreeMap::insert`, the previous value it returns aside. -/
def insert (m : BTreeMap K V) (k : K) (v : V) : BTreeMap K V :=
  ⟨insertEntry k v m.entries, insertEntry_sorted k v m.sorted⟩

theorem findSome_insertEntry (k k' : K) (v : V) (l : List (K × V)) :
    (insertEntry k v l).findSome? (fun e => if e.1 = k' then some e.2 else none) =
      if k = k' then some v else l.findSome? fun e => if e.1 = k' then some e.2 else none := by
  induction l with
  | nil => by_cases h : k = k' <;> simp [insertEntry, h]
  | cons e l ih =>
    by_cases hk : k = k'
    · subst hk
      simp only [insertEntry, if_true] at ih ⊢
      split_ifs with h₁
      · simp [ne_of_irrefl h₁, ih]
      all_goals simp
    · simp only [insertEntry, hk, if_false] at ih ⊢
      split_ifs with h₁ h₂
      · rw [List.findSome?_cons, List.findSome?_cons, ih]
      · simp [h₂, hk]
      · simp [hk]

/-- A lookup after an insert finds the inserted value under its key and what
was there before under every other key. -/
theorem get_insert (m : BTreeMap K V) (k k' : K) (v : V) :
    (m.insert k v).get k' = if k = k' then some v else m.get k' := by
  rw [get, get, TinyOrdMap.search_eq_findSome _ (m.insert k v).sorted,
    TinyOrdMap.search_eq_findSome _ m.sorted]
  exact findSome_insertEntry k k' v m.entries

end BTreeMap

namespace Strict

variable {α K V : Type} {c : StrictCodec α}

/-- Items one after another. -/
def encodeItems (c : StrictCodec α) : List α → List UInt8
  | [] => []
  | x :: xs => c.encode x ++ encodeItems c xs

/-- Read `n` items one after another. -/
def decodeItems (c : StrictCodec α) :
    (n : Nat) → List UInt8 → Except DecodeError ({xs : List α // xs.length = n} × List UInt8)
  | 0, b => .ok (⟨[], rfl⟩, b)
  | n + 1, b => c.decode b >>= fun p =>
      (decodeItems c n p.2).map fun q => (⟨p.1 :: q.1.1, by simp [q.1.2]⟩, q.2)

theorem decodeItems_encodeItems (h : c.Lawful) {n : Nat} {xs : List α} (hn : xs.length = n)
    (rest : List UInt8) :
    decodeItems c n (encodeItems c xs ++ rest) = .ok (⟨xs, hn⟩, rest) := by
  subst hn
  induction xs with
  | nil => rfl
  | cons x xs ih =>
    show decodeItems c (xs.length + 1) (c.encode x ++ encodeItems c xs ++ rest) = _
    rw [List.append_assoc, decodeItems, h.decode_encode]
    simp only [bind, Except.bind, ih]
    rfl

theorem encodeItems_of_decodeItems (h : c.Lawful) {n : Nat} {b rest : List UInt8}
    {xs : {xs : List α // xs.length = n}} (hd : decodeItems c n b = .ok (xs, rest)) :
    b = encodeItems c xs.1 ++ rest := by
  induction n generalizing b with
  | zero => cases hd; rfl
  | succ n ih =>
    obtain ⟨⟨x, r⟩, hx, hd⟩ := bind_eq_ok.1 hd
    obtain ⟨⟨ys, r'⟩, hys, he⟩ := map_eq_ok.1 hd
    cases he
    have hr : r = encodeItems c ys.1 ++ r' := ih hys
    simp [encodeItems, h.encode_of_decode hx, hr]

/-- A confined list whose items satisfy `P`: a one-byte count, then the items.
An item list that fails `P` is rejected. -/
def confined (c : StrictCodec α) (P : List α → Prop) [DecidablePred P] :
    StrictCodec {xs : List α // P xs ∧ xs.length ≤ 255} where
  encode xs := UInt8.ofNat xs.1.length :: encodeItems c xs.1
  decode
    | [] => .error .unexpectedEof
    | n :: b => decodeItems c n.toNat b >>= fun p =>
        if hp : P p.1.1 then
          .ok (⟨p.1.1, hp, by rw [p.1.2]; exact Nat.lt_succ_iff.1 n.toNat_lt_size⟩, p.2)
        else .error .repeatedKey

theorem confined_lawful (h : c.Lawful) (P : List α → Prop) [DecidablePred P] :
    (confined c P).Lawful where
  decode_encode xs rest := by
    have hlen : (UInt8.ofNat xs.1.length).toNat = xs.1.length :=
      UInt8.toNat_ofNat_of_lt (Nat.lt_succ_of_le xs.2.2)
    show decodeItems c (UInt8.ofNat xs.1.length).toNat (encodeItems c xs.1 ++ rest) >>= _ = _
    rw [decodeItems_encodeItems h hlen.symm]
    simp only [bind, Except.bind, dif_pos xs.2.1]
  encode_of_decode {b} _ _ hd := by
    rcases b with _ | ⟨n, b⟩
    · cases hd
    obtain ⟨⟨xs, r⟩, hxs, hd⟩ := bind_eq_ok.1 hd
    simp only at hd
    split at hd
    · cases hd
      have hn : UInt8.ofNat xs.1.length = n := by rw [xs.2]; exact uint8_ofNat_toNat n
      show n :: b = UInt8.ofNat xs.1.length :: (encodeItems c xs.1 ++ _)
      rw [hn, ← encodeItems_of_decodeItems h hxs]
    · cases hd

/-- `TinyVec<T>`. -/
def tinyVec (c : StrictCodec α) : StrictCodec (TinyVec α) :=
  (confined c fun _ => True).map
    ⟨fun xs => ⟨xs.1, xs.2.2⟩, fun v => ⟨v.items, trivial, v.bound⟩,
      fun _ => rfl, fun _ => rfl⟩

/-- `TinyOrdSet<T>`. -/
def tinyOrdSet [LT α] [∀ a b : α, Decidable (a < b)] (c : StrictCodec α) :
    StrictCodec (TinyOrdSet α) :=
  (confined c (List.Pairwise (· < ·))).map
    ⟨fun xs => ⟨xs.1, xs.2.1, xs.2.2⟩, fun s => ⟨s.items, s.sorted, s.bound⟩,
      fun _ => rfl, fun _ => rfl⟩

/-- `TinyOrdMap<K, V>`: each entry is its key, then its value. -/
def tinyOrdMap [LT K] [∀ a b : K, Decidable (a < b)] (kc : StrictCodec K)
    (vc : StrictCodec V) : StrictCodec (TinyOrdMap K V) :=
  (confined (kc.prod vc) (List.Pairwise fun a b => a.1 < b.1)).map
    ⟨fun xs => ⟨xs.1, xs.2.1, xs.2.2⟩, fun m => ⟨m.entries, m.sorted, m.bound⟩,
      fun _ => rfl, fun _ => rfl⟩

theorem tinyVec_lawful (h : c.Lawful) : (tinyVec c).Lawful :=
  StrictCodec.map_lawful (confined_lawful h _) _

theorem tinyOrdSet_lawful [LT α] [∀ a b : α, Decidable (a < b)] (h : c.Lawful) :
    (tinyOrdSet c).Lawful :=
  StrictCodec.map_lawful (confined_lawful h _) _

theorem tinyOrdMap_lawful [LT K] [∀ a b : K, Decidable (a < b)] {kc : StrictCodec K}
    {vc : StrictCodec V} (hk : kc.Lawful) (hv : vc.Lawful) : (tinyOrdMap kc vc).Lawful :=
  StrictCodec.map_lawful (confined_lawful (StrictCodec.prod_lawful hk hv) _) _

end Strict

end RgbCore
