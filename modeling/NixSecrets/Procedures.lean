import NixSecrets.ProcedureText
import NixSecrets.OperatorRun
import Mathlib.Logic.Relation

namespace NixSecrets

/-- The random bytes the kernel gave, or its error. -/
abbrev Random (bytes : Nat) := Except String { random : List UInt8 // random.length = bytes }

def randomHex {bytes : Nat} (random : Random bytes) : Except String String :=
  random.map fun random => String.join (random.val.map hexByte)

/-- One look at `/proc`: the parent of each process. -/
abbrev ParentPid := Nat → Option Nat

/-- At most `fuel` parents of `current` are looked at. -/
def climb (parentPid : ParentPid) (ancestor : Nat) : Nat → Nat → Bool
  | 0, _ => false
  | fuel + 1, current =>
    if current = ancestor then true
    else
      match parentPid current with
      | some parent =>
        if parent ≠ 0 ∧ parent ≠ current then climb parentPid ancestor fuel parent else false
      | none => false

def isSameOrDescendant (parentPid : ParentPid) (pid ancestor : Nat) : Bool :=
  climb parentPid ancestor 4096 pid

structure Live where
  secret : String
  owner : Nat
  step : ProcedureStep
  repeatable : Bool
  deriving DecidableEq, Repr

structure Procedures where
  live : BTreeMap String Live := ∅
  next : Nat := 0

inductive Report
  | failure (reason : String)
  | warning (reason : String)
  deriving DecidableEq, Repr

def reported (label reason : String) : Except String String :=
  if cleanText label maxLabelBytes = "" then .error "a reported step needs a label"
  else
    let reason := cleanText reason maxReasonBytes
    .ok (if reason = "" then "no reason given" else reason)

def maxStep : Nat := 2 ^ 32 - 1

def ProcedureStep.record (step : ProcedureStep) : Option Report → ProcedureStep
  | some (.failure reason) =>
    { step with
      failure := some reason
      progress := none }
  | some (.warning reason) =>
    { step with
      warning := some reason
      progress := none }
  | none =>
    { step with
      failure := none
      warning := none }

namespace Live

def repeats (procedure : Live) (label : String) (repeatable : Bool) : Bool :=
  repeatable && procedure.repeatable && 0 < procedure.step.step && procedure.step.label == label

/-- A new step, unless the request stays on the one before it. -/
def advance (procedure : Live) (label : String) (repeatable : Bool) : ProcedureStep :=
  if procedure.repeats label repeatable then procedure.step
  else
    { procedure.step with
      step := min (procedure.step.step + 1) maxStep
      failure := none
      warning := none
      progress := none }

def numberStep (procedure : Live) (label : String) (deployment repeatable : Bool)
    (report : Option Report) : Live :=
  let step :=
    { procedure.advance label repeatable with
      label
      deployment }
  { procedure with
    step := step.record report
    repeatable }

def setProgress (procedure : Live) (text : String) (percent : Option Nat) : Live :=
  { procedure with
    step := { procedure.step with
      progress := some ⟨text, percent⟩ } }

def relabelled (procedure : Live) (label : String) : ProcedureStep :=
  { procedure.step with
    label
    deployment := false
    failure := none
    warning := none
    progress := none }

end Live

namespace Procedures

def begin (p : Procedures) (owner : Nat) (title : String) (steps : Option Nat)
    (idRandom : Random 6) (secretRandom : Random 32) :
    Procedures × Except String (ProcedureStep × String) :=
  let title := cleanText title maxTitleBytes
  if title = "" then (p, .error "a procedure needs a title")
  else if steps.any fun steps => steps = 0 || maxDeclaredSteps < steps then
    (p, .error "a procedure declares between 1 and 1000 steps")
  else if maxProcedures ≤ p.live.size then
    (p, .error "too many procedures are running; retry when one ends")
  else
    let counted := { p with
      next := (p.next + 1) % 2 ^ 64 }
    match randomHex idRandom, randomHex secretRandom with
    | .error error, _ => (counted, .error error)
    | _, .error error => (counted, .error error)
    | .ok random, .ok secret =>
      let id := "proc-" ++ toString p.next ++ "-" ++ random
      let step : ProcedureStep :=
        { id
          title
          step := 0
          steps
          label := "starting"
          deployment := false
          failure := none
          warning := none
          progress := none }
      ({ counted with
          live := p.live.insert id ⟨secret, owner, step, false⟩ }, .ok (step, id ++ ":" ++ secret))

/-- The `end` of the source. -/
def finish (p : Procedures) (id : String) : Procedures :=
  { p with
    live := p.live.erase id }

def snapshot (p : Procedures) : List ProcedureStep := p.live.toList.map fun entry => entry.2.step

/-- The procedure of `token`, once `peer` may act in it. -/
def enter (p : Procedures) (parentPid : ParentPid) (token : String) (peer : Nat) :
    Except String (String × Live) :=
  match splitToken token with
  | none => .error "the procedure token is malformed"
  | some (id, secret) =>
    match p.live[id]?.filter fun procedure => sameSecret procedure.secret secret with
    | none => .error "the procedure has ended or the token is wrong"
    | some procedure =>
      if isSameOrDescendant parentPid peer procedure.owner then .ok (id, procedure)
      else .error ("this process does not belong to procedure " ++ id ++
        "; only the command started by `nix-secrets procedure` and its descendants may join it")

def joined {α : Type} (p : Procedures) (parentPid : ParentPid) (token : String) (peer : Nat)
    (change : Live → Live × α) : Procedures × Except String α :=
  match p.enter parentPid token peer with
  | .error message => (p, .error message)
  | .ok (id, procedure) =>
    ({ p with
        live := p.live.insert id (change procedure).1 }, .ok (change procedure).2)

def numberStep (p : Procedures) (parentPid : ParentPid) (token : String) (peer : Nat)
    (label : String) (deployment repeatable : Bool) (report : Option Report) :
    Procedures × Except String ProcedureStep :=
  let label := cleanText label maxLabelBytes
  p.joined parentPid token peer fun procedure =>
    let procedure := procedure.numberStep label deployment repeatable report
    (procedure, procedure.step)

def nextStep (p : Procedures) (parentPid : ParentPid) (token : String) (peer : Nat)
    (label : String) (deployment repeatable : Bool) : Procedures × Except String ProcedureStep :=
  p.numberStep parentPid token peer label deployment repeatable none

def failStep (p : Procedures) (parentPid : ParentPid) (token : String) (peer : Nat)
    (label reason : String) : Procedures × Except String ProcedureStep :=
  match reported label reason with
  | .error message => (p, .error message)
  | .ok reason => p.numberStep parentPid token peer label false true (some (.failure reason))

def warnStep (p : Procedures) (parentPid : ParentPid) (token : String) (peer : Nat)
    (label reason : String) : Procedures × Except String ProcedureStep :=
  match reported label reason with
  | .error message => (p, .error message)
  | .ok reason => p.numberStep parentPid token peer label false true (some (.warning reason))

def progressStep (p : Procedures) (parentPid : ParentPid) (token : String) (peer : Nat)
    (text : String) (percent : Option Nat) : Procedures × Except String ProcedureStep :=
  let text := cleanText text maxReasonBytes
  if text = "" then (p, .error "a progress report needs a text")
  else if percent.any (100 < ·) then (p, .error "a progress percentage is at most 100")
  else
    p.joined parentPid token peer fun procedure =>
      let procedure := procedure.setProgress text percent
      (procedure, procedure.step)

def annotate (p : Procedures) (parentPid : ParentPid) (token : String) (peer : Nat)
    (label : String) : Procedures × Except String ProcedureStep :=
  let label := cleanText label maxLabelBytes
  if label = "" then (p, .error "a confirmation needs a label")
  else p.joined parentPid token peer fun procedure => (procedure, procedure.relabelled label)

end Procedures

inductive ProcedureOp
  | begin (owner : Nat) (title : String) (steps : Option Nat) (idRandom : Random 6)
      (secretRandom : Random 32)
  | nextStep (token : String) (peer : Nat) (label : String) (deployment repeatable : Bool)
  | failStep (token : String) (peer : Nat) (label reason : String)
  | warnStep (token : String) (peer : Nat) (label reason : String)
  | progressStep (token : String) (peer : Nat) (text : String) (percent : Option Nat)
  | annotate (token : String) (peer : Nat) (label : String)
  | finish (id : String)
  | snapshot

inductive ProcedureReply
  | begun (step : ProcedureStep) (token : String)
  | stepped (step : ProcedureStep)
  | ended
  | listed (steps : List ProcedureStep)
  | refused (message : String)
  deriving DecidableEq, Repr

/-- An operation and what `/proc` says while it runs. -/
structure ProcedureCall where
  parentPid : ParentPid
  op : ProcedureOp

namespace Procedures

def stepped (result : Procedures × Except String ProcedureStep) : Procedures × ProcedureReply :=
  (result.1, match result.2 with
    | .ok step => .stepped step
    | .error message => .refused message)

def exec (p : Procedures) (call : ProcedureCall) : Procedures × ProcedureReply :=
  match call.op with
  | .begin owner title steps idRandom secretRandom =>
    let result := p.begin owner title steps idRandom secretRandom
    (result.1, match result.2 with
      | .ok (step, token) => .begun step token
      | .error message => .refused message)
  | .nextStep token peer label deployment repeatable =>
    stepped (p.nextStep call.parentPid token peer label deployment repeatable)
  | .failStep token peer label reason => stepped (p.failStep call.parentPid token peer label reason)
  | .warnStep token peer label reason => stepped (p.warnStep call.parentPid token peer label reason)
  | .progressStep token peer text percent =>
    stepped (p.progressStep call.parentPid token peer text percent)
  | .annotate token peer label => stepped (p.annotate call.parentPid token peer label)
  | .finish id => (p.finish id, .ended)
  | .snapshot => (p, .listed p.snapshot)

def run (p : Procedures) (calls : List ProcedureCall) : Procedures :=
  calls.foldl (fun p call => (p.exec call).1) p

end Procedures

end NixSecrets
