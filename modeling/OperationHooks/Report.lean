import OperationHooks.Coercion
import OperationHooks.Json

set_option autoImplicit false

namespace OperationHooks

/-- How far a run has come. -/
inductive Phase where
  | idle
  | discovering
  | cleaning
  | processing
  | finalizing
  | done
  deriving DecidableEq, Repr

def Phase.text : Phase → String
  | .idle => "idle"
  | .discovering => "discovering"
  | .cleaning => "cleaning-stale"
  | .processing => "processing"
  | .finalizing => "finalizing"
  | .done => "done"

def Phase.all : List Phase := [.idle, .discovering, .cleaning, .processing, .finalizing, .done]

structure FileOutcome where
  path : String
  reason : String
  errorType : Option String
  deriving DecidableEq, Repr

structure Report where
  phase : Phase
  discovered : Int
  generated : List String
  skipped : List FileOutcome
  errors : List FileOutcome
  indexes : List String
  message : Option String
  deriving DecidableEq, Repr

namespace Report

def empty : Report := ⟨.idle, 0, [], [], [], [], none⟩

def sortTexts (texts : List String) : List String := texts.mergeSort fun a b => decide (a ≤ b)

def sortOutcomes (outcomes : List FileOutcome) : List FileOutcome :=
  outcomes.mergeSort fun a b => decide (a.path ≤ b.path)

/-- Files in the order of their paths, whatever order they were done in. -/
def sorted (r : Report) : Report :=
  { r with
    generated := sortTexts r.generated
    skipped := sortOutcomes r.skipped
    errors := sortOutcomes r.errors }

def jsonOption : Option String → String
  | none => "null"
  | some s => Json.quote s

def jsonOutcome (o : FileOutcome) : String :=
  Json.object 4 [("path", Json.quote o.path), ("reason", Json.quote o.reason),
    ("error_type", jsonOption o.errorType)]

def json (r : Report) : String :=
  Json.object 0 [
    ("state", Json.quote r.phase.text),
    ("discovered", toString r.discovered),
    ("generated", Json.array 2 (r.generated.map Json.quote)),
    ("skipped", Json.array 2 (r.skipped.map jsonOutcome)),
    ("errors", Json.array 2 (r.errors.map jsonOutcome)),
    ("indexes", Json.array 2 (r.indexes.map Json.quote)),
    ("message", jsonOption r.message)]

def closingLine (r : Report) : String :=
  s!"Done! {r.generated.length} generated, {r.skipped.length} skipped, {r.errors.length} failed."

/-- The lines for people. What went well, and what was left out, is listed only on request. -/
def lines (verbose : Bool) (r : Report) : List String :=
  (r.message.filter (· ≠ "")).toList ++
    (if verbose then
      r.generated.map (fun path => s!"  Generated: {path}") ++
        r.skipped.map (fun o => s!"  Skipped: {o.path} ({o.reason})")
    else []) ++
    r.indexes.map (fun path => s!"  Index: {path}") ++ [r.closingLine]

def errorLines (r : Report) : List String := r.errors.map fun o => s!"  Error: {o.reason}"

def asText (lines : List String) : String := String.join (lines.map (· ++ "\n"))

def printed (asJson verbose : Bool) (r : Report) : String × String :=
  if asJson then (r.json ++ "\n", "") else (asText (r.lines verbose), asText r.errorLines)

def readText (d : Datum) : Reading String := .ofCoercion d.toText
def readOptionalText (d : Datum) : Reading (Option String) := .ofCoercion d.toOptionalText
def phaseChoices : List (String × Phase) := Phase.all.map fun phase => (phase.text, phase)

def readOutcome : Datum → Reading FileOutcome
  | .table entries =>
    (Reading.both (Reading.required entries "path" readText)
      (Reading.both (Reading.required entries "reason" readText)
        (Reading.field entries ["error_type"] (.ok none) readOptionalText))).map
      fun (path, reason, errorType) => ⟨path, reason, errorType⟩
  | _ => .error [⟨[], .noTable⟩]

/-- The report that a table describes, empty where it is silent. -/
def ofDatum : Datum → Reading Report
  | .table entries =>
    let texts (name : String) := Reading.field entries [name] (.ok []) (Reading.list readText)
    let outcomes (name : String) := Reading.field entries [name] (.ok []) (Reading.list readOutcome)
    let phase := Reading.field entries ["state"] (.ok Phase.idle)
      fun d => .ofCoercion (d.toChoice phaseChoices .notAmongChoices)
    let discovered := Reading.field entries ["discovered"] (.ok 0) fun d => .ofCoercion d.toInteger
    let message := Reading.field entries ["message"] (.ok none) readOptionalText
    (Reading.both phase
      (Reading.both discovered
        (Reading.both (texts "generated")
          (Reading.both (outcomes "skipped")
            (Reading.both (outcomes "errors") (Reading.both (texts "indexes") message)))))).map
      fun (phase, discovered, generated, skipped, errors, indexes, message) =>
        { phase, discovered, generated, skipped, errors, indexes, message }
  | _ => .error [⟨[], .noTable⟩]

end Report

end OperationHooks
