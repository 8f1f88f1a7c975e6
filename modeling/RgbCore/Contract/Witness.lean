import RgbCore.Contract.Seal
import RgbCore.Strict.Primitives

/-!
# Witness positions and their orders

`WitnessPos` is where a witness transaction was mined: a height and a
timestamp. Its fields are private, and `WitnessPos::new` refuses a zero height
and any timestamp before the Bitcoin genesis block; `height()` relies on that
with an `expect("invariant")`, modelled as a computation that may panic.

The orders here are the source's comparators read as Rust defines them: a
witness position compares by timestamp alone, `WitnessOrd` by its derived
order over the variants, and `WitnessId` by a hand-written `cmp` that puts
every Liquid witness below every Bitcoin one.
-/

namespace RgbCore

/-- `Option::expect`: the value, or a panic with the message. -/
def expect (o : Option α) (msg : String) : Except String α :=
  match o with
  | some a => .ok a
  | none => .error msg

/-- `NonZeroU32`. -/
structure NonZeroU32 where
  get : UInt32
  ne_zero : get ≠ 0
  deriving DecidableEq

/-- `NonZeroU32::new`. -/
def NonZeroU32.new (n : UInt32) : Option NonZeroU32 :=
  if h : n = 0 then none else some ⟨n, h⟩

/-- `WitnessPos`. -/
structure WitnessPos where
  height : UInt32
  timestamp : I64
  deriving DecidableEq

namespace WitnessPos

/-- `WitnessPos::new`. -/
def new (height : UInt32) (timestamp : I64) : Option WitnessPos :=
  if height = 0 ∨ timestamp.val < 1231006505 then none else some ⟨height, timestamp⟩

/-- `WitnessPos::height`. -/
def heightNonZero (p : WitnessPos) : Except String NonZeroU32 :=
  expect (NonZeroU32.new p.height) "invariant"

/-- The derived `StrictDumb`: every field at its own dumb value, zero. -/
def strictDumb : WitnessPos := ⟨0, ⟨0, by decide⟩⟩

/-- What `new` checks: a height of at least one and a timestamp no earlier than
the Bitcoin genesis block. -/
def Valid (p : WitnessPos) : Prop := p.height ≠ 0 ∧ 1231006505 ≤ p.timestamp.val

instance (p : WitnessPos) : Decidable p.Valid := inferInstanceAs (Decidable (_ ∧ _))

theorem new_eq_some {height : UInt32} {timestamp : I64} {p : WitnessPos} :
    new height timestamp = some p ↔ p = ⟨height, timestamp⟩ ∧ p.Valid := by
  unfold new
  split <;> rename_i h
  · simp only [reduceCtorEq, false_iff, not_and]
    rintro rfl ⟨h1, h2⟩
    rcases h with h | h
    · exact h1 h
    · exact absurd h2 (not_le.2 h)
  · simp only [Option.some.injEq, not_or, not_lt] at h ⊢
    exact ⟨fun e => ⟨e.symm, e ▸ h⟩, fun e => e.1.symm⟩

theorem valid_of_new {height : UInt32} {timestamp : I64} {p : WitnessPos}
    (h : new height timestamp = some p) : p.Valid :=
  (new_eq_some.1 h).2

/-- `height()` panics on exactly the positions with a zero height. -/
theorem heightNonZero_eq_error {p : WitnessPos} {msg : String} :
    p.heightNonZero = .error msg ↔ p.height = 0 ∧ msg = "invariant" := by
  unfold heightNonZero expect NonZeroU32.new
  by_cases h : p.height = 0 <;> simp [h, eq_comm]

theorem heightNonZero_of_valid {p : WitnessPos} (hp : p.Valid) :
    ∃ n, p.heightNonZero = .ok n ∧ n.get = p.height := by
  unfold heightNonZero expect NonZeroU32.new
  simp [hp.1]

/-- `Ord for WitnessPos`: by timestamp alone. -/
def cmp (p q : WitnessPos) : Ordering := compare p.timestamp.val q.timestamp.val

/-- `PartialOrd for WitnessPos`: `Some(self.cmp(other))`. -/
def partialCmp (p q : WitnessPos) : Option Ordering := some (p.cmp q)

theorem cmp_swap (p q : WitnessPos) : q.cmp p = (p.cmp q).swap := by
  unfold cmp
  exact (Batteries.OrientedCmp.symm _ _).symm

theorem cmp_ne_gt_iff {p q : WitnessPos} :
    p.cmp q ≠ .gt ↔ p.timestamp.val ≤ q.timestamp.val :=
  compare_le_iff_le

end WitnessPos

/-- `WitnessOrd`. -/
inductive WitnessOrd where
  | onChain (pos : WitnessPos)
  | offChain
  deriving DecidableEq

namespace WitnessOrd

/-- `WitnessOrd::with_mempool_or_height`. -/
def withMempoolOrHeight (height : UInt32) (timestamp : I64) : WitnessOrd :=
  ((WitnessPos.new height timestamp).map onChain).getD offChain

/-- The derived `StrictDumb`: the variant marked `dumb`, `OffChain`. -/
def strictDumb : WitnessOrd := offChain

/-- Every position inside satisfies `WitnessPos::new`'s check. -/
def Valid : WitnessOrd → Prop
  | onChain p => p.Valid
  | offChain => True

theorem withMempoolOrHeight_valid (height : UInt32) (timestamp : I64) :
    (withMempoolOrHeight height timestamp).Valid := by
  unfold withMempoolOrHeight
  cases h : WitnessPos.new height timestamp with
  | none => trivial
  | some p => exact WitnessPos.valid_of_new h

/-- The derived `Ord`: `OnChain` before `OffChain`, positions by their `cmp`. -/
def cmp : WitnessOrd → WitnessOrd → Ordering
  | onChain p, onChain q => p.cmp q
  | onChain _, offChain => .lt
  | offChain, onChain _ => .gt
  | offChain, offChain => .eq

/-- The derived `PartialOrd`: as `cmp`, positions by their `partial_cmp`. -/
def partialCmp : WitnessOrd → WitnessOrd → Option Ordering
  | onChain p, onChain q => p.partialCmp q
  | onChain _, offChain => some .lt
  | offChain, onChain _ => some .gt
  | offChain, offChain => some .eq

theorem partialCmp_eq (a b : WitnessOrd) : partialCmp a b = some (cmp a b) := by
  cases a <;> cases b <;> rfl

theorem cmp_swap (a b : WitnessOrd) : cmp b a = (cmp a b).swap := by
  cases a <;> cases b
  · exact WitnessPos.cmp_swap _ _
  all_goals rfl

theorem cmp_le_trans {a b c : WitnessOrd} (hab : cmp a b ≠ .gt) (hbc : cmp b c ≠ .gt) :
    cmp a c ≠ .gt := by
  cases a <;> cases b <;> cases c <;> simp_all [cmp, WitnessPos.cmp_ne_gt_iff]
  omega

theorem preorderLaws : PreorderLaws cmp partialCmp where
  cmp_swap := cmp_swap
  le_trans a b c := by
    simp only [rustLe_iff partialCmp_eq]
    exact cmp_le_trans
  partialCmp_eq := partialCmp_eq

/-- Equal under `cmp` means: both off chain, or both on chain at one timestamp. -/
theorem cmp_eq_eq {a b : WitnessOrd} :
    cmp a b = .eq ↔ (a = offChain ∧ b = offChain) ∨
      ∃ p q, a = onChain p ∧ b = onChain q ∧ p.timestamp = q.timestamp := by
  cases a <;> cases b <;> simp [cmp, WitnessPos.cmp, compare_eq_iff_eq, I64.val_inj]

/-- The derived order of `WitnessOrd` is a total preorder in which every
on-chain witness comes first, ordered by timestamp; two witnesses compare
equal exactly when both are off chain or both were mined at one timestamp. -/
theorem cmp_totalPreorder :
    PreorderLaws cmp partialCmp ∧
    (∀ a b, cmp a b = .eq ↔ (a = offChain ∧ b = offChain) ∨
      ∃ p q, a = onChain p ∧ b = onChain q ∧ p.timestamp = q.timestamp) ∧
    (∀ p, cmp (onChain p) offChain = .lt) ∧
    (∀ p q, cmp (onChain p) (onChain q) = .lt ↔ p.timestamp.val < q.timestamp.val) :=
  ⟨preorderLaws, fun _ _ => cmp_eq_eq, fun _ => rfl, fun _ _ => compare_lt_iff_lt⟩

/-- Two positions that `new` accepts, mined at one timestamp at different
heights, compare `Equal` and yet differ. -/
theorem cmp_eq_of_ne_heights :
    ∃ p q, WitnessPos.new 1 ⟨1231006505, by decide⟩ = some p ∧
      WitnessPos.new 2 ⟨1231006505, by decide⟩ = some q ∧
      cmp (onChain p) (onChain q) = .eq ∧ onChain p ≠ onChain q :=
  ⟨_, _, rfl, rfl, rfl, by decide⟩

end WitnessOrd

/-- The derived `Ord` of `Txid`: its bytes, lexicographically. -/
def Txid.cmp (a b : Txid) : Ordering := a.bytes.cmp b.bytes

theorem Txid.cmp_eq_iff {a b : Txid} : a.cmp b = .eq ↔ a = b := by
  rw [Txid.cmp, Bytes32.cmp_eq_iff]
  exact ⟨fun h => by cases a; cases b; cases h; rfl, fun h => h ▸ rfl⟩

theorem Txid.cmp_swap (a b : Txid) : b.cmp a = (a.cmp b).swap := cmpBytes_swap _ _

theorem Txid.cmp_le_trans {a b c : Txid} (hab : a.cmp b ≠ .gt) (hbc : b.cmp c ≠ .gt) :
    a.cmp c ≠ .gt :=
  cmpBytes_le_trans hab hbc

namespace WitnessId

/-- `Ord for WitnessId`: a Bitcoin witness is above a Liquid one; on one layer
the txids decide. -/
def cmp : WitnessId → WitnessId → Ordering
  | bitcoin _, liquid _ => .gt
  | liquid _, bitcoin _ => .lt
  | bitcoin t₁, bitcoin t₂ => t₁.cmp t₂
  | liquid t₁, liquid t₂ => t₁.cmp t₂

/-- `PartialOrd for WitnessId`: `Some(self.cmp(other))`. -/
def partialCmp (a b : WitnessId) : Option Ordering := some (a.cmp b)

theorem cmp_eq_iff {a b : WitnessId} : cmp a b = .eq ↔ a = b := by
  cases a <;> cases b <;> simp [cmp, Txid.cmp_eq_iff]

theorem cmp_swap (a b : WitnessId) : cmp b a = (cmp a b).swap := by
  cases a <;> cases b <;> first | rfl | exact Txid.cmp_swap _ _

theorem cmp_le_trans {a b c : WitnessId} (hab : cmp a b ≠ .gt) (hbc : cmp b c ≠ .gt) :
    cmp a c ≠ .gt := by
  cases a <;> cases b <;> cases c <;> simp only [cmp] at hab hbc ⊢ <;>
    first | exact Txid.cmp_le_trans hab hbc | exact absurd rfl hab | exact absurd rfl hbc |
      exact nofun

/-- `WitnessId`'s comparator is a total order that agrees with equality, with
every Liquid witness below every Bitcoin one and the txid order on one layer. -/
theorem cmp_ordLaws :
    OrdLaws cmp partialCmp ∧ (∀ t t', cmp (liquid t) (bitcoin t') = .lt) ∧
    (∀ t t', cmp (bitcoin t) (bitcoin t') = t.cmp t') ∧
    (∀ t t', cmp (liquid t) (liquid t') = t.cmp t') :=
  ⟨{ PreorderLaws.of_cmp cmp_swap fun _ _ _ => cmp_le_trans with
      cmp_eq_iff := fun _ _ => cmp_eq_iff },
    fun _ _ => rfl, fun _ _ => rfl, fun _ _ => rfl⟩

end WitnessId

end RgbCore
