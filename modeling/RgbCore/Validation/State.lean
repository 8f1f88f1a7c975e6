import RgbCore.Contract.Operations
import RgbCore.Contract.Assignments

/-!
# Validating a state against its schema

`StateSchema::validate` checks one assignment against the state strategy the
schema declares for its owned-right type. The state is read through
`downcast_ref`: a state of another strategy does not cast, and is reported as a
mismatched state type. A concealed arithmetic state must carry a range proof
that verifies, and a concealed structured state is reported as data that cannot
be checked. Nothing else is checked.

The state types of distinct strategies are distinct types, so a cast succeeds
exactly when the strategies agree. The range-proof check is taken as given;
only its error is read. Of `validation::Status` this module keeps the failures
and the information `validate` writes.
-/

namespace RgbCore

/-- `StateSchema`, without the payloads of `Arithmetic` and `Structured`, which
`validate` does not read. -/
inductive StateSchema where
  | declarative
  | arithmetic
  | structured
  | attachment
  deriving DecidableEq, Repr

/-- The strategy whose state types a schema names. -/
def StateSchema.strategy : StateSchema → Strategy
  | declarative => .declarative
  | arithmetic => .fungible
  | structured => .structured
  | attachment => .attachment

namespace Validation

/-- The failures `validate` reports. -/
inductive Failure where
  | schemaMismatchedStateType (ty : OwnedRightType)
  | invalidBulletproofs (nodeId : NodeId) (ty : OwnedRightType) (msg : String)
  deriving DecidableEq

/-- The information `validate` reports. -/
inductive Info where
  | uncheckableConfidentialStateData (nodeId : NodeId) (ty : OwnedRightType)
  deriving DecidableEq

/-- `validation::Status`: what failed, and what could not be checked. -/
structure Status where
  failures : List Failure
  infos : List Info
  deriving DecidableEq

/-- `Status::new`. -/
def Status.new : Status := ⟨[], []⟩

/-- `Status::add_failure`. -/
def Status.addFailure (s : Status) (f : Failure) : Status := { s with failures := s.failures ++ [f] }

/-- `Status::add_info`. -/
def Status.addInfo (s : Status) (i : Info) : Status := { s with infos := s.infos ++ [i] }

/-- `Status::is_valid`: no failure. -/
def Status.isValid (s : Status) : Bool := s.failures.isEmpty

end Validation

open Validation

/-- `as_any().downcast_ref()` of a state of strategy `k` to the state type of
strategy `j`. -/
def downcast {T : Strategy → Type} {k : Strategy} (j : Strategy) (x : T k) : Option (T j) :=
  if h : k = j then some (h ▸ x) else none

@[simp] theorem downcast_self {T : Strategy → Type} {k : Strategy} (x : T k) :
    downcast k x = some x := dif_pos rfl

theorem downcast_of_ne {T : Strategy → Type} {k j : Strategy} (h : k ≠ j) (x : T k) :
    downcast j x = none := dif_neg h

/-- The state of an assignment, if it is concealed. -/
def Assignment.concealedState {R C : Type} : Assignment R C → Option C
  | .confidential _ c | .confidentialState _ c => some c
  | .confidentialSeal _ _ | .revealed _ _ => none

namespace StateSchema

variable {S : StateTypes} (verifyRangeProof : S.Confidential .fungible → Except String Unit)
  (nodeId : NodeId) (assignmentId : OwnedRightType)

/-- The check shared by most branches: a state that does not cast to the
strategy's type is a mismatched state type. -/
def checkType {T : Strategy → Type} {k : Strategy} (j : Strategy) (state : T k) : Status :=
  if (downcast j state).isNone then Status.new.addFailure (.schemaMismatchedStateType assignmentId)
  else Status.new

/-- The branches of `validate` for a concealed state. -/
def validateConfidential {k : Strategy} (state : S.Confidential k) : StateSchema → Status
  | declarative => checkType assignmentId .declarative state
  | arithmetic =>
    match downcast .fungible state with
    | some value =>
      match verifyRangeProof value with
      | .error err => Status.new.addFailure (.invalidBulletproofs nodeId assignmentId err)
      | .ok _ => Status.new
    | none => Status.new.addFailure (.schemaMismatchedStateType assignmentId)
  | structured =>
    match downcast .structured state with
    | none => Status.new.addFailure (.schemaMismatchedStateType assignmentId)
    | some _ => Status.new.addInfo (.uncheckableConfidentialStateData nodeId assignmentId)
  | attachment => checkType assignmentId .attachment state

/-- The branches of `validate` for a revealed state. -/
def validateRevealed {k : Strategy} (state : S.Revealed k) : StateSchema → Status
  | declarative => checkType assignmentId .declarative state
  | arithmetic => checkType assignmentId .fungible state
  | structured => checkType assignmentId .structured state
  | attachment => checkType assignmentId .attachment state

/-- `StateSchema::validate`. -/
def validate (schema : StateSchema) {k : Strategy} : S.Assign k → Status
  | .confidential _ state | .confidentialState _ state =>
    validateConfidential verifyRangeProof nodeId assignmentId state schema
  | .revealed _ state | .confidentialSeal _ state => validateRevealed assignmentId state schema

/-- The mismatch status: one failure naming the owned-right type. -/
def mismatch : Status := Status.new.addFailure (.schemaMismatchedStateType assignmentId)

theorem checkType_eq {T : Strategy → Type} {k : Strategy} (j : Strategy) (state : T k) :
    checkType assignmentId j state = if k = j then Status.new else mismatch assignmentId := by
  by_cases h : k = j
  · subst h
    simp [checkType]
  · simp [checkType, h, downcast_of_ne h, mismatch]

/-- A state of another strategy than the schema's is one mismatch, and nothing else. -/
theorem validate_of_ne (schema : StateSchema) {k : Strategy} (data : S.Assign k)
    (hk : k ≠ schema.strategy) :
    schema.validate verifyRangeProof nodeId assignmentId data = mismatch assignmentId := by
  cases data <;> cases schema <;> simp only [strategy] at hk <;>
    simp [validate, validateConfidential, validateRevealed, checkType_eq, hk, downcast_of_ne hk,
      mismatch]

/-- What a schema asks of an assignment: a state of the schema's strategy,
and for a concealed arithmetic state a range proof that verifies. -/
def Conforms (schema : StateSchema) {k : Strategy} (data : S.Assign k) : Prop :=
  k = schema.strategy ∧
    ∀ c ∈ data.concealedState, ∀ v ∈ downcast .fungible c, (verifyRangeProof v).isOk

/-- `validate` reports no failure exactly for the assignments that conform to
the schema. -/
theorem validate_isValid_iff (schema : StateSchema) {k : Strategy} (data : S.Assign k) :
    (schema.validate verifyRangeProof nodeId assignmentId data).isValid ↔
      Conforms verifyRangeProof schema data := by
  by_cases hk : k = schema.strategy
  · cases schema <;> simp only [strategy] at hk <;> subst hk <;> cases data <;>
      simp [Conforms, validate, validateConfidential, validateRevealed, checkType_eq, strategy,
        Assignment.concealedState, Status.isValid, Status.new, Status.addInfo, downcast]
    all_goals
      rename_i state
      cases verifyRangeProof state <;> simp [Status.addFailure, Except.isOk, Except.toBool]
  · simp [validate_of_ne _ _ _ _ _ hk, Conforms, hk, mismatch, Status.isValid, Status.new,
      Status.addFailure]

end StateSchema

end RgbCore
