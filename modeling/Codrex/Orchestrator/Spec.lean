import Codrex.Lib.Transition
import Codrex.Lib.Text

/-!
# Delegation specs

`orchestrator/src/spec.rs` and the errors of `error.rs`. A regular expression is its source text: a
`ValidatedRegex` is one that compiled, and matching is a given function of the auditor.
-/

namespace Codrex.Orchestrator

open Text Fallible

structure ValidatedRegex where
  source : Str
  deriving DecidableEq

structure ScriptRef where
  path : Str
  args : List Str
  deriving DecidableEq

structure TestSpec where
  command : List Str
  workingDir : Option Str
  deriving DecidableEq

structure UtilRef where
  path : Str
  symbol : Str
  signature : Option Str
  deriving DecidableEq

inductive AcceptanceCriterion
  | outputMatches (regex : ValidatedRegex)
  | testsPass
  | noForbiddenPatterns
  | custom (name : Str) (check : ScriptRef)
  deriving DecidableEq

abbrev Uuid := Str

/-- `created_at` is left out: no stage reads it. `max_retries` is a `u8`. -/
structure DelegationSpec where
  runId : Uuid
  parentRunId : Option Uuid
  intent : Str
  acceptance : List AcceptanceCriterion
  forbiddenPatterns : List ValidatedRegex
  expectedTests : Option TestSpec
  utilityRefs : List UtilRef
  maxRetries : Nat
  deriving DecidableEq

inductive SpecError
  | emptyIntent
  | maxRetriesTooLarge (maxRetries : Nat)
  | testsPassWithoutExpectedTests (idx : Nat)
  | noForbiddenPatternsWithoutPatterns (idx : Nat)
  | emptyCustomName (idx : Nat)
  | emptyScriptPath
  | emptyUtilSymbol (idx : Nat)
  deriving DecidableEq

def maxAllowedRetries : Nat := 10

namespace DelegationSpec

def validateCriterion (spec : DelegationSpec) (idx : Nat) : AcceptanceCriterion → Except SpecError Unit
  | .outputMatches _ => .ok ()
  | .testsPass =>
      if spec.expectedTests.isNone then .error (.testsPassWithoutExpectedTests idx) else .ok ()
  | .noForbiddenPatterns =>
      if spec.forbiddenPatterns.isEmpty then .error (.noForbiddenPatternsWithoutPatterns idx) else .ok ()
  | .custom name check =>
      if (trim name).isEmpty then .error (.emptyCustomName idx)
      else if check.path.isEmpty then .error .emptyScriptPath
      else .ok ()

def validateUtil (idx : Nat) (util : UtilRef) : Except SpecError Unit :=
  if (trim util.symbol).isEmpty then .error (.emptyUtilSymbol idx) else .ok ()

def checkEach {α : Type} (check : Nat → α → Except SpecError Unit) : Nat → List α → Except SpecError Unit
  | _, [] => .ok ()
  | idx, x :: xs => check idx x >>= fun _ => checkEach check (idx + 1) xs

def validateTests (tests : Option TestSpec) : Except SpecError Unit :=
  match tests with
  | some tests =>
      if tests.command.isEmpty then .error (.testsPassWithoutExpectedTests usizeMax) else .ok ()
  | none => .ok ()

def validate (spec : DelegationSpec) : Except SpecError Unit :=
  if (trim spec.intent).isEmpty then .error .emptyIntent
  else if spec.maxRetries > maxAllowedRetries then .error (.maxRetriesTooLarge spec.maxRetries)
  else do
    checkEach validateUtil 0 spec.utilityRefs
    checkEach spec.validateCriterion 0 spec.acceptance
    validateTests spec.expectedTests

theorem checkEach_ok {α : Type} {check : Nat → α → Except SpecError Unit} {idx : Nat} {xs : List α}
    (h : checkEach check idx xs = .ok ()) : ∀ x ∈ xs, ∃ i, check i x = .ok () := by
  induction xs generalizing idx with
  | nil =>
      intro x hx
      cases hx
  | cons y ys ih =>
      obtain ⟨⟨⟩, hy, hys⟩ := Fallible.bind_eq_ok h
      intro x hx
      rcases List.mem_cons.mp hx with rfl | hx
      · exact ⟨idx, hy⟩
      · exact ih hys x hx

/-- What the later stages rely on in a validated spec. -/
structure Valid (spec : DelegationSpec) : Prop where
  maxRetries_le : spec.maxRetries ≤ maxAllowedRetries
  testsPass : .testsPass ∈ spec.acceptance → ∃ tests, spec.expectedTests = some tests
  noForbiddenPatterns : .noForbiddenPatterns ∈ spec.acceptance → spec.forbiddenPatterns ≠ []
  command : ∀ tests, spec.expectedTests = some tests → tests.command ≠ []

theorem Valid.maxRetries_le_u8 {spec : DelegationSpec} (h : spec.Valid) : spec.maxRetries ≤ 255 :=
  h.maxRetries_le.trans (by decide)

theorem valid_of_validate {spec : DelegationSpec} (h : spec.validate = .ok ()) : spec.Valid := by
  obtain ⟨-, h⟩ := Fallible.guard_eq_ok h
  obtain ⟨hmax, h⟩ := Fallible.guard_eq_ok h
  obtain ⟨⟨⟩, -, h⟩ := Fallible.bind_eq_ok h
  obtain ⟨⟨⟩, hcriteria, htests⟩ := Fallible.bind_eq_ok h
  have hall := checkEach_ok hcriteria
  refine ⟨Nat.le_of_not_lt hmax, fun hmem => ?_, fun hmem => ?_, fun tests hsome => ?_⟩
  · obtain ⟨i, hi⟩ := hall _ hmem
    obtain ⟨hnone, -⟩ := Fallible.guard_eq_ok hi
    exact Option.ne_none_iff_exists'.mp (by simpa using hnone)
  · obtain ⟨i, hi⟩ := hall _ hmem
    obtain ⟨hempty, -⟩ := Fallible.guard_eq_ok hi
    simpa using hempty
  · rw [hsome] at htests
    obtain ⟨hempty, -⟩ := Fallible.guard_eq_ok htests
    simpa using hempty

end DelegationSpec

end Codrex.Orchestrator
