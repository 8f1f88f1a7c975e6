import RgbCore.Ordering

/-!
# Strict codecs

A strict codec writes a value as bytes and reads a value back from the front of
a byte string, handing back the bytes it did not read. The derived
`StrictEncode`/`StrictDecode` of the source build a type's codec out of the
codecs of its fields: a struct writes its fields in order, an enum writes one
tag byte and then the fields of its variant.

`Lawful` is the round trip in both directions at every suffix. Each combinator
here keeps it, so a derived codec is lawful once the codecs of its fields are,
and a lawful codec is a bijection between values and the byte strings that
`deserialize` accepts.
-/

namespace RgbCore.Strict

/-- What a strict decoder fails with. -/
inductive DecodeError where
  /-- The input ends before the value does. -/
  | unexpectedEof
  /-- A tag byte that names no variant of the enum. -/
  | enumTagNotKnown (name : String) (tag : UInt8)
  /-- Set items or map keys that are not strictly ascending; a repeat is one case. -/
  | repeatedKey
  /-- Bytes left over after a top-level value. -/
  | dataNotEntirelyConsumed
  deriving DecidableEq, Repr

theorem bind_eq_ok {x : Except ε α} {f : α → Except ε β} {b : β} :
    x >>= f = .ok b ↔ ∃ a, x = .ok a ∧ f a = .ok b := by
  cases x <;> simp [bind, Except.bind]

theorem map_eq_ok {x : Except ε α} {f : α → β} {b : β} :
    x.map f = .ok b ↔ ∃ a, x = .ok a ∧ f a = b := by
  cases x <;> simp [Except.map]

theorem mapError_eq_ok {x : Except ε α} {f : ε → ε'} {a : α} :
    x.mapError f = .ok a ↔ x = .ok a := by
  cases x <;> simp [Except.mapError]

structure StrictCodec (α : Type) where
  encode : α → List UInt8
  decode : List UInt8 → Except DecodeError (α × List UInt8)

namespace StrictCodec

/-- Decoding reads back exactly what encoding wrote, and every byte string a
decoder accepts is the encoding of what it read, followed by the rest. -/
structure Lawful (c : StrictCodec α) : Prop where
  decode_encode : ∀ a rest, c.decode (c.encode a ++ rest) = .ok (a, rest)
  encode_of_decode : ∀ {b a rest}, c.decode b = .ok (a, rest) → b = c.encode a ++ rest

/-- `strict_deserialize`: a value read from the whole input. -/
def deserialize (c : StrictCodec α) (b : List UInt8) : Except DecodeError α :=
  match c.decode b with
  | .ok (a, []) => .ok a
  | .ok (_, _ :: _) => .error .dataNotEntirelyConsumed
  | .error e => .error e

variable {c : StrictCodec α}

theorem Lawful.decode_encode_nil (h : c.Lawful) (a : α) : c.decode (c.encode a) = .ok (a, []) := by
  simpa using h.decode_encode a []

/-- The whole-input form of the round trip: the encoding is a bijection between
values and accepted byte strings. -/
theorem Lawful.deserialize_eq_ok_iff (h : c.Lawful) {b : List UInt8} {a : α} :
    c.deserialize b = .ok a ↔ c.encode a = b := by
  unfold deserialize
  constructor
  · intro hd
    rcases hdec : c.decode b with e | ⟨a', _ | ⟨x, r⟩⟩ <;> rw [hdec] at hd <;> cases hd
    simpa using (h.encode_of_decode hdec).symm
  · rintro rfl
    simp [h.decode_encode_nil]

theorem Lawful.encode_injective (h : c.Lawful) : Function.Injective c.encode := fun _ _ he =>
  Except.ok.inj ((h.deserialize_eq_ok_iff.2 he).symm.trans (h.deserialize_eq_ok_iff.2 rfl))

/-- A value with nothing to write: unit variants. -/
def unit : StrictCodec Unit := ⟨fun _ => [], fun b => .ok ((), b)⟩

theorem unit_lawful : unit.Lawful where
  decode_encode _ _ := rfl
  encode_of_decode h := by cases h; rfl

/-- Two fields, one after the other. -/
def prod (c₁ : StrictCodec α) (c₂ : StrictCodec β) : StrictCodec (α × β) where
  encode p := c₁.encode p.1 ++ c₂.encode p.2
  decode b := c₁.decode b >>= fun p => c₂.decode p.2 >>= fun q => pure ((p.1, q.1), q.2)

theorem prod_lawful {c₁ : StrictCodec α} {c₂ : StrictCodec β} (h₁ : c₁.Lawful)
    (h₂ : c₂.Lawful) : (prod c₁ c₂).Lawful where
  decode_encode p rest := by
    show c₁.decode (c₁.encode p.1 ++ c₂.encode p.2 ++ rest) >>= _ = _
    rw [List.append_assoc, h₁.decode_encode]
    show c₂.decode (c₂.encode p.2 ++ rest) >>= _ = _
    rw [h₂.decode_encode]
    rfl
  encode_of_decode hd := by
    obtain ⟨⟨a, r⟩, ha, hd⟩ := bind_eq_ok.1 hd
    obtain ⟨⟨x, r'⟩, hx, he⟩ := bind_eq_ok.1 hd
    cases he
    have hr : r = c₂.encode x ++ r' := h₂.encode_of_decode hx
    simp only [prod, h₁.encode_of_decode ha, hr, List.append_assoc]

/-- A codec carried along an equivalence: a newtype, or a struct seen as the
tuple of its fields. -/
def map (c : StrictCodec α) (e : α ≃ β) : StrictCodec β where
  encode b := c.encode (e.symm b)
  decode b := (c.decode b).map fun p => (e p.1, p.2)

theorem map_lawful (h : c.Lawful) (e : α ≃ β) : (c.map e).Lawful where
  decode_encode b rest := by simp [map, h.decode_encode, Except.map]
  encode_of_decode hd := by
    obtain ⟨⟨a, r⟩, ha, he⟩ := map_eq_ok.1 hd
    cases he
    simp [map, h.encode_of_decode ha]

end StrictCodec

/-- An enum before its tag byte is written: the tag of each value, what follows
the tag, and how the payload under a tag is read. `tags` are the tags it knows. -/
structure UnionCodec (α : Type) where
  tags : List UInt8
  tag : α → UInt8
  encodePayload : α → List UInt8
  decodePayload : UInt8 → List UInt8 → Except DecodeError (α × List UInt8)

namespace UnionCodec

structure Lawful (u : UnionCodec α) : Prop where
  tag_mem : ∀ a, u.tag a ∈ u.tags
  decode_encode : ∀ a rest, u.decodePayload (u.tag a) (u.encodePayload a ++ rest) = .ok (a, rest)
  encode_of_decode : ∀ {t b a rest}, u.decodePayload t b = .ok (a, rest) →
    u.tag a = t ∧ b = u.encodePayload a ++ rest

/-- One variant under tag `t`; every other tag is unknown to the enum `name`. -/
def variant (name : String) (t : UInt8) (c : StrictCodec α) : UnionCodec α where
  tags := [t]
  tag _ := t
  encodePayload := c.encode
  decodePayload t' b := if t' = t then c.decode b else .error (.enumTagNotKnown name t')

theorem variant_lawful {c : StrictCodec α} (h : c.Lawful) (name : String) (t : UInt8) :
    (variant name t c).Lawful where
  tag_mem _ := List.mem_singleton_self t
  decode_encode a rest := by simp [variant, h.decode_encode]
  encode_of_decode hd := by
    simp only [variant] at hd
    split at hd
    · subst_vars
      exact ⟨rfl, h.encode_of_decode hd⟩
    · cases hd

/-- The variants of `u`, then those of `v`: a tag of `u` is read by `u`, any
other by `v`. -/
def or (u : UnionCodec α) (v : UnionCodec β) : UnionCodec (α ⊕ β) where
  tags := u.tags ++ v.tags
  tag := Sum.elim u.tag v.tag
  encodePayload := Sum.elim u.encodePayload v.encodePayload
  decodePayload t b :=
    if t ∈ u.tags then (u.decodePayload t b).map fun p => (.inl p.1, p.2)
    else (v.decodePayload t b).map fun p => (.inr p.1, p.2)

theorem or_lawful {u : UnionCodec α} {v : UnionCodec β} (hu : u.Lawful) (hv : v.Lawful)
    (hd : ∀ t ∈ v.tags, t ∉ u.tags) : (u.or v).Lawful where
  tag_mem
    | .inl a => List.mem_append_left _ (hu.tag_mem a)
    | .inr b => List.mem_append_right _ (hv.tag_mem b)
  decode_encode
    | .inl a, rest => by simp [or, hu.tag_mem a, hu.decode_encode, Except.map]
    | .inr b, rest => by simp [or, hd _ (hv.tag_mem b), hv.decode_encode, Except.map]
  encode_of_decode h := by
    simp only [or] at h
    split at h
    · obtain ⟨⟨a, r⟩, ha, he⟩ := map_eq_ok.1 h
      cases he
      exact hu.encode_of_decode ha
    · obtain ⟨⟨a, r⟩, ha, he⟩ := map_eq_ok.1 h
      cases he
      exact hv.encode_of_decode ha

/-- The enum: its tag byte, then its payload. -/
def toCodec (u : UnionCodec α) : StrictCodec α where
  encode a := u.tag a :: u.encodePayload a
  decode
    | [] => .error .unexpectedEof
    | t :: b => u.decodePayload t b

theorem toCodec_lawful {u : UnionCodec α} (hu : u.Lawful) : u.toCodec.Lawful where
  decode_encode a rest := hu.decode_encode a rest
  encode_of_decode {b} _ _ h := by
    rcases b with _ | ⟨t, b⟩
    · cases h
    · obtain ⟨rfl, rfl⟩ := hu.encode_of_decode h
      rfl

end UnionCodec

end RgbCore.Strict
