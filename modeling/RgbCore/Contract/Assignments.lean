import RgbCore.Contract.SealEncoding

/-!
# Assignments and their concealment

Modelled from the spec: the assignments module is not part of this repository.
An assignment binds a seal to a state, each revealed or concealed, so it has
four forms. `conceal_state_except` conceals the state of every assignment
whose seal is not listed, `conceal_seals` the listed seals, and both return how
many assignments they changed. `TypedAssignments` holds the assignments of one
owned-right type, all of one state strategy; its variants are the strategies.

The state types of the strategies live in the state modules, also outside this
repository, and are taken as given with their codecs and conceal maps. A
concealed seal is the hash of the seal's encoding, under a hash taken as given.
-/

namespace RgbCore

open Strict StrictCodec UnionCodec

/-- The state strategies, in the order of the variants of `TypedAssignments`. -/
inductive Strategy where
  | declarative
  | fungible
  | structured
  | attachment
  deriving DecidableEq, Repr

/-- The revealed and concealed state types of each strategy, with codecs that
read back what they write and the map that conceals a revealed state. -/
structure StateTypes where
  Revealed : Strategy → Type
  Confidential : Strategy → Type
  revealedCodec : ∀ k, StrictCodec (Revealed k)
  confidentialCodec : ∀ k, StrictCodec (Confidential k)
  revealedLawful : ∀ k, (revealedCodec k).Lawful
  confidentialLawful : ∀ k, (confidentialCodec k).Lawful
  conceal : ∀ k, Revealed k → Confidential k

/-- `Assignment<State>`: a seal `s` and a state, each revealed or concealed. -/
inductive Assignment (R C : Type) where
  | confidential (s : SecretSeal) (state : C)
  | confidentialState (s : RevealedSeal) (state : C)
  | confidentialSeal (s : SecretSeal) (state : R)
  | revealed (s : RevealedSeal) (state : R)
  deriving DecidableEq

/-- A loop that rewrites each item and sums what each step changed has changed
nothing exactly when the sum is zero, if each step counts zero exactly when it
keeps its item. -/
theorem sum_counts_eq_zero_iff {f : α → α × Nat} (hf : ∀ a, (f a).2 = 0 ↔ (f a).1 = a)
    (l : List α) : (l.map fun a => (f a).2).sum = 0 ↔ l.map (fun a => (f a).1) = l := by
  induction l with
  | nil => simp
  | cons a l ih =>
    simp only [List.map_cons, List.sum_cons, Nat.add_eq_zero_iff, List.cons.injEq, hf, ih]

namespace Assignment

variable {R C : Type} (sha256 : List UInt8 → Bytes32) (seals : List SecretSeal)

/-- `conceal_state_except`: the state of an assignment whose seal is not
listed is concealed; the count is one when the assignment changed. -/
def concealStateExcept (conceal : R → C) : Assignment R C → Assignment R C × Nat
  | confidential s c => (confidential s c, 0)
  | confidentialState s c => (confidentialState s c, 0)
  | confidentialSeal s r =>
    if s ∈ seals then (confidentialSeal s r, 0) else (confidential s (conceal r), 1)
  | revealed s r =>
    if s.conceal sha256 ∈ seals then (revealed s r, 0) else (confidentialState s (conceal r), 1)

/-- `conceal_seals`: a revealed seal that is listed, once concealed, is
concealed; the count is one when the assignment changed. -/
def concealSeals : Assignment R C → Assignment R C × Nat
  | confidential s c => (confidential s c, 0)
  | confidentialSeal s r => (confidentialSeal s r, 0)
  | confidentialState s c =>
    if s.conceal sha256 ∈ seals then (confidential (s.conceal sha256) c, 1)
    else (confidentialState s c, 0)
  | revealed s r =>
    if s.conceal sha256 ∈ seals then (confidentialSeal (s.conceal sha256) r, 1)
    else (revealed s r, 0)

theorem concealStateExcept_count_eq_zero (conceal : R → C) (a : Assignment R C) :
    (a.concealStateExcept sha256 seals conceal).2 = 0 ↔
      (a.concealStateExcept sha256 seals conceal).1 = a := by
  cases a <;> simp only [concealStateExcept] <;> split_ifs <;> simp

theorem concealSeals_count_eq_zero (a : Assignment R C) :
    (a.concealSeals sha256 seals).2 = 0 ↔ (a.concealSeals sha256 seals).1 = a := by
  cases a <;> simp only [concealSeals] <;> split_ifs <;> simp

/-- A second `conceal_state_except` with the same seals changes nothing: what
the first left revealed has a listed seal. -/
theorem concealStateExcept_count_twice (conceal : R → C) (a : Assignment R C) :
    ((a.concealStateExcept sha256 seals conceal).1.concealStateExcept sha256 seals conceal).2 =
      0 := by
  cases a <;> simp only [concealStateExcept] <;> split_ifs <;> simp [concealStateExcept, *]

/-- A second `conceal_seals` with the same seals changes nothing: what the
first left revealed has an unlisted seal. -/
theorem concealSeals_count_twice (a : Assignment R C) :
    ((a.concealSeals sha256 seals).1.concealSeals sha256 seals).2 = 0 := by
  cases a <;> simp only [concealSeals] <;> split_ifs <;> simp [concealSeals, *]

end Assignment

/-- Four variants under the tags `0` to `3` over lawful payload codecs are lawful. -/
theorem union4_lawful {c₀ : StrictCodec α} {c₁ : StrictCodec β} {c₂ : StrictCodec γ}
    {c₃ : StrictCodec δ} (h₀ : c₀.Lawful) (h₁ : c₁.Lawful) (h₂ : c₂.Lawful)
    (h₃ : c₃.Lawful) (name : String) :
    (((variant name 0 c₀).or (variant name 1 c₁)).or
      ((variant name 2 c₂).or (variant name 3 c₃))).toCodec.Lawful :=
  toCodec_lawful <| or_lawful
    (or_lawful (variant_lawful h₀ _ _) (variant_lawful h₁ _ _)
      (show ∀ t ∈ [(1 : UInt8)], t ∉ [(0 : UInt8)] by decide))
    (or_lawful (variant_lawful h₂ _ _) (variant_lawful h₃ _ _)
      (show ∀ t ∈ [(3 : UInt8)], t ∉ [(2 : UInt8)] by decide))
    (show ∀ t ∈ [(2 : UInt8)] ++ [3], t ∉ [(0 : UInt8)] ++ [1] by decide)

/-- The derived codec of `Assignment`: the forms under tags `0` to `3`, each
with its seal, then its state. -/
def Assignment.strictCodec (rc : StrictCodec R) (cc : StrictCodec C) :
    StrictCodec (Assignment R C) :=
  (((variant "Assign" 0 (SecretSeal.strictCodec.prod cc)).or
      (variant "Assign" 1 (RevealedSeal.strictCodec.prod cc))).or
    ((variant "Assign" 2 (SecretSeal.strictCodec.prod rc)).or
      (variant "Assign" 3 (RevealedSeal.strictCodec.prod rc)))).toCodec.map
    ⟨fun | .inl (.inl (s, c)) => .confidential s c | .inl (.inr (s, c)) => .confidentialState s c
         | .inr (.inl (s, r)) => .confidentialSeal s r | .inr (.inr (s, r)) => .revealed s r,
      fun | .confidential s c => .inl (.inl (s, c)) | .confidentialState s c => .inl (.inr (s, c))
          | .confidentialSeal s r => .inr (.inl (s, r)) | .revealed s r => .inr (.inr (s, r)),
      fun | .inl (.inl _) | .inl (.inr _) | .inr (.inl _) | .inr (.inr _) => rfl,
      fun | .confidential .. | .confidentialState .. | .confidentialSeal .. | .revealed .. => rfl⟩

theorem Assignment.strictCodec_lawful {rc : StrictCodec R} {cc : StrictCodec C}
    (hr : rc.Lawful) (hc : cc.Lawful) : (Assignment.strictCodec rc cc).Lawful :=
  map_lawful (union4_lawful (prod_lawful SecretSeal.strictCodec_lawful hc)
    (prod_lawful RevealedSeal.strictCodec_lawful hc) (prod_lawful SecretSeal.strictCodec_lawful hr)
    (prod_lawful RevealedSeal.strictCodec_lawful hr) _) _

namespace StateTypes

variable (S : StateTypes)

/-- The assignments of a strategy. -/
abbrev Assign (k : Strategy) : Type := Assignment (S.Revealed k) (S.Confidential k)

def assignCodec (k : Strategy) : StrictCodec (S.Assign k) :=
  Assignment.strictCodec (S.revealedCodec k) (S.confidentialCodec k)

theorem assignCodec_lawful (k : Strategy) : (S.assignCodec k).Lawful :=
  Assignment.strictCodec_lawful (S.revealedLawful k) (S.confidentialLawful k)

/-- Every strategy with the void state of `Declarative`, revealed and concealed
alike. -/
def void : StateTypes where
  Revealed _ := Unit
  Confidential _ := Unit
  revealedCodec _ := unit
  confidentialCodec _ := unit
  revealedLawful _ := unit_lawful
  confidentialLawful _ := unit_lawful
  conceal _ := id

end StateTypes

/-- `TypedAssignments`: the assignments of one owned-right type, all of the
strategy that names the variant. -/
structure TypedAssignments (S : StateTypes) where
  strategy : Strategy
  assignments : TinyVec (S.Assign strategy)

namespace TypedAssignments

variable {S : StateTypes} (sha256 : List UInt8 → Bytes32) (seals : List SecretSeal)

/-- The derived codec: the strategy's tag, then the vector of its assignments. -/
def strictCodec (S : StateTypes) : StrictCodec (TypedAssignments S) :=
  (((variant "TypedAssignments" 0 (tinyVec (S.assignCodec .declarative))).or
      (variant "TypedAssignments" 1 (tinyVec (S.assignCodec .fungible)))).or
    ((variant "TypedAssignments" 2 (tinyVec (S.assignCodec .structured))).or
      (variant "TypedAssignments" 3 (tinyVec (S.assignCodec .attachment))))).toCodec.map
    ⟨fun | .inl (.inl v) => ⟨.declarative, v⟩ | .inl (.inr v) => ⟨.fungible, v⟩
         | .inr (.inl v) => ⟨.structured, v⟩ | .inr (.inr v) => ⟨.attachment, v⟩,
      fun | ⟨.declarative, v⟩ => .inl (.inl v) | ⟨.fungible, v⟩ => .inl (.inr v)
          | ⟨.structured, v⟩ => .inr (.inl v) | ⟨.attachment, v⟩ => .inr (.inr v),
      fun | .inl (.inl _) | .inl (.inr _) | .inr (.inl _) | .inr (.inr _) => rfl,
      fun | ⟨.declarative, _⟩ | ⟨.fungible, _⟩ | ⟨.structured, _⟩
          | ⟨.attachment, _⟩ => rfl⟩

theorem strictCodec_lawful (S : StateTypes) : (strictCodec S).Lawful :=
  map_lawful (union4_lawful (tinyVec_lawful (S.assignCodec_lawful _))
    (tinyVec_lawful (S.assignCodec_lawful _)) (tinyVec_lawful (S.assignCodec_lawful _))
    (tinyVec_lawful (S.assignCodec_lawful _)) _) _

/-- The loop of both conceal operations over the assignments: each rewritten
in place, the counts summed. -/
def concealEach (a : TypedAssignments S)
    (f : S.Assign a.strategy → S.Assign a.strategy × Nat) : TypedAssignments S × Nat :=
  (⟨a.strategy, a.assignments.map fun x => (f x).1⟩,
    (a.assignments.items.map fun x => (f x).2).sum)

/-- `TypedAssignments::conceal_state_except`. -/
def concealStateExcept (a : TypedAssignments S) : TypedAssignments S × Nat :=
  a.concealEach (Assignment.concealStateExcept sha256 seals (S.conceal a.strategy))

/-- `TypedAssignments::conceal_seals`. -/
def concealSeals (a : TypedAssignments S) : TypedAssignments S × Nat :=
  a.concealEach (Assignment.concealSeals sha256 seals)

theorem concealEach_count_eq_zero (a : TypedAssignments S)
    {f : S.Assign a.strategy → S.Assign a.strategy × Nat}
    (hf : ∀ x, (f x).2 = 0 ↔ (f x).1 = x) :
    (a.concealEach f).2 = 0 ↔ (a.concealEach f).1 = a := by
  rcases a with ⟨k, v⟩
  simp only [concealEach, mk.injEq, heq_eq_eq, true_and, TinyVec.map_eq_self_iff,
    sum_counts_eq_zero_iff hf]

theorem concealStateExcept_count_eq_zero (a : TypedAssignments S) :
    (a.concealStateExcept sha256 seals).2 = 0 ↔ (a.concealStateExcept sha256 seals).1 = a :=
  a.concealEach_count_eq_zero (Assignment.concealStateExcept_count_eq_zero sha256 seals _)

theorem concealSeals_count_eq_zero (a : TypedAssignments S) :
    (a.concealSeals sha256 seals).2 = 0 ↔ (a.concealSeals sha256 seals).1 = a :=
  a.concealEach_count_eq_zero (Assignment.concealSeals_count_eq_zero sha256 seals)

/-- The loop run again over its own output counts nothing, if each step run
again over its own output does. -/
theorem concealEach_count_twice (a : TypedAssignments S)
    {f : S.Assign a.strategy → S.Assign a.strategy × Nat} (hf : ∀ x, (f (f x).1).2 = 0) :
    ((a.concealEach f).1.concealEach f).2 = 0 := by
  simp [concealEach, Function.comp_def, hf]

theorem concealStateExcept_count_twice (a : TypedAssignments S) :
    ((a.concealStateExcept sha256 seals).1.concealStateExcept sha256 seals).2 = 0 :=
  a.concealEach_count_twice (Assignment.concealStateExcept_count_twice sha256 seals _)

theorem concealSeals_count_twice (a : TypedAssignments S) :
    ((a.concealSeals sha256 seals).1.concealSeals sha256 seals).2 = 0 :=
  a.concealEach_count_twice (Assignment.concealSeals_count_twice sha256 seals)

end TypedAssignments

end RgbCore
