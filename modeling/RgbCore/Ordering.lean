import Mathlib

/-!
# Rust comparators and the byte order

A Rust `Ord::cmp` returns an `Ordering`; `PartialOrd::le` is read off
`partial_cmp`. `OrdLaws` states what the documentation of `Ord` asks of a
comparator: a total order that agrees with `Eq` and with `partial_cmp`;
`PreorderLaws` is the same contract without the agreement with `Eq`.

Byte arrays compare lexicographically, as the derived `Ord` of `[u8; 32]` does.
This is the order of every 32-byte identifier of the contract layer (node ids,
contract ids, txids), and so the key order of the maps keyed by node id.
-/

namespace RgbCore

/-- Rust's `a <= b` for a `PartialOrd`: `partial_cmp` answers `Less` or `Equal`. -/
def rustLe (partialCmp : α → α → Option Ordering) (a b : α) : Prop :=
  partialCmp a b = some .lt ∨ partialCmp a b = some .eq

/-- The laws of Rust's `Ord` apart from agreement with `Eq`: `cmp` is a total
preorder, and `partial_cmp` is `Some` of it. -/
structure PreorderLaws (cmp : α → α → Ordering) (partialCmp : α → α → Option Ordering) :
    Prop where
  cmp_swap : ∀ a b, cmp b a = (cmp a b).swap
  le_trans : ∀ a b c, rustLe partialCmp a b → rustLe partialCmp b c → rustLe partialCmp a c
  partialCmp_eq : ∀ a b, partialCmp a b = some (cmp a b)

/-- The contract of Rust's `Ord`: a total order consistent with `Eq`. -/
structure OrdLaws (cmp : α → α → Ordering) (partialCmp : α → α → Option Ordering)
    extends PreorderLaws cmp partialCmp : Prop where
  cmp_eq_iff : ∀ a b, cmp a b = .eq ↔ a = b

theorem rustLe_iff {cmp : α → α → Ordering} {partialCmp : α → α → Option Ordering}
    (h : ∀ a b, partialCmp a b = some (cmp a b)) {a b : α} :
    rustLe partialCmp a b ↔ cmp a b ≠ .gt := by
  simp only [rustLe, h, Option.some.injEq]
  cases cmp a b <;> simp

/-- A preorder from the swap law and transitivity of `cmp ≠ .gt`. -/
theorem PreorderLaws.of_cmp {cmp : α → α → Ordering}
    (swap : ∀ a b, cmp b a = (cmp a b).swap)
    (trans : ∀ a b c, cmp a b ≠ .gt → cmp b c ≠ .gt → cmp a c ≠ .gt) :
    PreorderLaws cmp (fun a b => some (cmp a b)) where
  cmp_swap := swap
  le_trans a b c := by
    simp only [rustLe_iff (fun _ _ => rfl)]
    exact trans a b c
  partialCmp_eq _ _ := rfl

theorem then_eq_eq {o o' : Ordering} : o.then o' = .eq ↔ o = .eq ∧ o' = .eq := by
  cases o <;> simp [Ordering.then]

theorem then_ne_gt {o o' : Ordering} :
    o.then o' ≠ .gt ↔ o = .lt ∨ o = .eq ∧ o' ≠ .gt := by
  cases o <;> simp [Ordering.then]

theorem then_eq_lt {o o' : Ordering} : o.then o' = .lt ↔ o = .lt ∨ o = .eq ∧ o' = .lt := by
  cases o <;> simp [Ordering.then]

theorem swap_then (o o' : Ordering) : (o.then o').swap = o.swap.then o'.swap := by
  cases o <;> rfl

theorem uint8_toNat_inj {x y : UInt8} : x.toNat = y.toNat ↔ x = y :=
  ⟨UInt8.toNat.inj, congrArg _⟩

/-- Lexicographic order of byte strings, a proper prefix first: the derived
`Ord` of Rust byte arrays and slices, bytes compared as numbers. -/
def cmpBytes : List UInt8 → List UInt8 → Ordering
  | [], [] => .eq
  | [], _ :: _ => .lt
  | _ :: _, [] => .gt
  | x :: xs, y :: ys => (compare x.toNat y.toNat).then (cmpBytes xs ys)

theorem cmpBytes_eq_iff {a b : List UInt8} : cmpBytes a b = .eq ↔ a = b := by
  induction a generalizing b with
  | nil => cases b <;> simp [cmpBytes]
  | cons x xs ih =>
    cases b with
    | nil => simp [cmpBytes]
    | cons y ys => simp [cmpBytes, then_eq_eq, ih, Nat.compare_eq_eq, uint8_toNat_inj]

theorem cmpBytes_swap (a b : List UInt8) : cmpBytes b a = (cmpBytes a b).swap := by
  induction a generalizing b with
  | nil => cases b <;> rfl
  | cons x xs ih =>
    cases b with
    | nil => rfl
    | cons y ys => simp only [cmpBytes, swap_then, ih ys, Nat.compare_swap]

theorem cmpBytes_le_trans {a b c : List UInt8} (hab : cmpBytes a b ≠ .gt)
    (hbc : cmpBytes b c ≠ .gt) : cmpBytes a c ≠ .gt := by
  induction a generalizing b c with
  | nil => cases c <;> cases b <;> simp_all [cmpBytes]
  | cons x xs ih =>
    rcases b with _ | ⟨y, ys⟩
    · simp [cmpBytes] at hab
    rcases c with _ | ⟨z, zs⟩
    · simp [cmpBytes] at hbc
    simp only [cmpBytes, then_ne_gt, Nat.compare_eq_lt, Nat.compare_eq_eq] at *
    rcases hab with h | ⟨h, h'⟩ <;> rcases hbc with k | ⟨k, k'⟩
    case inr.intro.inr.intro => exact .inr ⟨by omega, ih h' k'⟩
    all_goals exact .inl (by omega)

theorem lex_cons_iff {r : α → α → Prop} {a b : α} {l₁ l₂ : List α} :
    List.Lex r (a :: l₁) (b :: l₂) ↔ r a b ∨ a = b ∧ List.Lex r l₁ l₂ := by
  constructor
  · rintro (_ | ⟨h⟩ | ⟨h⟩)
    exacts [.inr ⟨rfl, h⟩, .inl h]
  · rintro (h | ⟨rfl, h⟩)
    exacts [.rel h, .cons h]

/-- `cmpBytes` answers `Less` exactly when the first string comes first in the
lexicographic order of bytes: the comparator sorts ascending. -/
theorem cmpBytes_eq_lt_iff {a b : List UInt8} : cmpBytes a b = .lt ↔ List.Lex (· < ·) a b := by
  induction a generalizing b with
  | nil => cases b <;> simp [cmpBytes, List.Lex.nil]
  | cons x xs ih =>
    cases b with
    | nil => simp [cmpBytes]
    | cons y ys =>
      rw [cmpBytes, then_eq_lt, Nat.compare_eq_lt, Nat.compare_eq_eq, ih, lex_cons_iff,
        uint8_toNat_inj]
      rfl

/-- A 32-byte array, `Bytes32` (`[u8; 32]`) of the source. -/
structure Bytes32 where
  bytes : List UInt8
  length_eq : bytes.length = 32
  deriving DecidableEq

namespace Bytes32

/-- The derived `Ord` of the array. -/
def cmp (a b : Bytes32) : Ordering := cmpBytes a.bytes b.bytes

/-- The derived `PartialOrd` of the array. -/
def partialCmp (a b : Bytes32) : Option Ordering := some (a.cmp b)

instance : LT Bytes32 := ⟨fun a b => a.cmp b = .lt⟩

instance (a b : Bytes32) : Decidable (a < b) := inferInstanceAs (Decidable (a.cmp b = .lt))

theorem ext_bytes {a b : Bytes32} (h : a.bytes = b.bytes) : a = b := by
  cases a; cases b; cases h; rfl

theorem cmp_eq_iff {a b : Bytes32} : a.cmp b = .eq ↔ a = b :=
  cmpBytes_eq_iff.trans ⟨ext_bytes, congrArg _⟩

theorem ordLaws : OrdLaws cmp partialCmp :=
  { PreorderLaws.of_cmp (fun (a b : Bytes32) => cmpBytes_swap a.bytes b.bytes)
      (fun _ _ _ => cmpBytes_le_trans) with
    cmp_eq_iff := fun _ _ => cmp_eq_iff }

theorem lt_irrefl (a : Bytes32) : ¬ a < a := by
  change a.cmp a ≠ .lt
  simp [(cmp_eq_iff).2 rfl]

theorem lt_trans {a b c : Bytes32} (hab : a < b) (hbc : b < c) : a < c := by
  have hab : a.cmp b = .lt := hab
  have hbc : b.cmp c = .lt := hbc
  have hle : a.cmp c ≠ .gt :=
    cmpBytes_le_trans (show a.cmp b ≠ .gt by simp [hab]) (show b.cmp c ≠ .gt by simp [hbc])
  change a.cmp c = .lt
  rcases h : a.cmp c with _ | _ | _
  · rfl
  · obtain rfl := cmp_eq_iff.1 h
    rw [show a.cmp b = (b.cmp a).swap from cmpBytes_swap _ _, hbc] at hab
    cases hab
  · exact absurd h hle

theorem lt_trichotomy (a b : Bytes32) : a < b ∨ a = b ∨ b < a := by
  rcases h : a.cmp b with _ | _ | _
  · exact .inl h
  · exact .inr (.inl (cmp_eq_iff.1 h))
  · refine .inr (.inr ?_)
    change b.cmp a = .lt
    rw [show b.cmp a = (a.cmp b).swap from cmpBytes_swap _ _, h]
    rfl

/-- The byte order is a strict total order, the key order of every map keyed
by a 32-byte id. -/
instance : IsStrictTotalOrder Bytes32 (· < ·) where
  trichotomous := lt_trichotomy
  irrefl := lt_irrefl
  trans _ _ _ := lt_trans

end Bytes32

/-- `u16` keys compare as numbers: a strict total order, the key order of every
map keyed by a schema type. -/
instance uint16StrictTotalOrder : IsStrictTotalOrder UInt16 (· < ·) where
  trichotomous a b := (Nat.lt_trichotomy a.toNat b.toNat).imp id (Or.imp_left UInt16.toNat.inj)
  irrefl := UInt16.lt_irrefl
  trans _ _ _ := UInt16.lt_trans

section FieldLex

variable {α β γ : Type} {r : α → α → Prop} {s : β → β → Prop}

/-- The order a derived `Ord` gives a struct: by its first field, then, on a
tie, by the rest. -/
def fieldLex (r : α → α → Prop) (s : β → β → Prop) (a b : α × β) : Prop :=
  r a.1 b.1 ∨ a.1 = b.1 ∧ s a.2 b.2

/-- Fields in strict total orders give their struct a strict total order. -/
instance fieldLexStrictTotalOrder [IsStrictTotalOrder α r] [IsStrictTotalOrder β s] :
    IsStrictTotalOrder (α × β) (fieldLex r s) where
  trichotomous a b := by
    rcases trichotomous_of r a.1 b.1 with h | h | h
    · exact .inl (.inl h)
    · rcases trichotomous_of s a.2 b.2 with h' | h' | h'
      · exact .inl (.inr ⟨h, h'⟩)
      · exact .inr (.inl (Prod.ext h h'))
      · exact .inr (.inr (.inr ⟨h.symm, h'⟩))
    · exact .inr (.inr (.inl h))
  irrefl a h := h.elim (irrefl a.1) fun h => irrefl a.2 h.2
  trans a b c hab hbc := by
    rcases hab with h₁ | ⟨e₁, h₁⟩ <;> rcases hbc with h₂ | ⟨e₂, h₂⟩
    · exact .inl (trans_of r h₁ h₂)
    · exact .inl (e₂ ▸ h₁)
    · exact .inl (e₁ ▸ h₂)
    · exact .inr ⟨e₁.trans e₂, trans_of s h₁ h₂⟩

/-- A strict total order read through an injective map is one. -/
theorem strictTotalOrder_of_injective (t : β → β → Prop) [IsStrictTotalOrder β t] (f : γ → β)
    (hf : Function.Injective f) : IsStrictTotalOrder γ fun a b => t (f a) (f b) where
  trichotomous a b := (trichotomous_of t (f a) (f b)).imp_right (Or.imp_left (hf ·))
  irrefl a := irrefl (f a)
  trans _ _ _ := trans_of t

end FieldLex

end RgbCore
