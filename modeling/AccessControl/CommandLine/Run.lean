import AccessControl.CommandLine.Invocation
import AccessControl.Config.Text
import AccessControl.Engine
import AccessControl.Json.Pretty
import AccessControl.Store.Snapshot

/-!
Running a command line: the settings and the snapshot are loaded, an engine is built of them and
asked, and its answer is printed as JSON. What a run needs from the world around it is given to it.
-/

namespace AccessControl.CommandLine

structure World where
  environment : String → Option String
  file : String → Except String String
  now : Instant
  ids : IdSupply
  elapsed : Duration

structure Report where
  output : String
  complaint : String
  status : Nat
deriving DecidableEq, Repr

def Report.success (output : String) : Report := ⟨output, "", 0⟩

def Ending.report : Ending → Report
  | .shown text => .success text
  | .refused fault => ⟨"", "error: " ++ fault.message ++ "\n", 2⟩

structure RunFault where
  doing : Option String
  fault : Fault
deriving DecidableEq, Repr

def RunFault.report (f : RunFault) : Report :=
  let text := match f.doing with
    | none => f.fault.message
    | some doing => doing ++ "\n\nCaused by:\n    " ++ f.fault.message
  ⟨"", "Error: " ++ text ++ "\n", 1⟩

def during (doing : String) : Except Fault α → Except RunFault α
  | .ok a => .ok a
  | .error fault => .error ⟨some doing, fault⟩

namespace Invocation

def context (i : Invocation) (now : Instant) : Context :=
  ⟨i.organization, i.group, i.instant.getD now⟩

def loadConfig (i : Invocation) (w : World) : Except Fault Config :=
  match i.config with
  | none => .ok .standard
  | some path => Config.ofFile path (w.file path)

def loadStore (i : Invocation) (w : World) : Except Fault Store :=
  match w.file i.snapshot with
  | .ok text => Store.ofText text
  | .error fault => .error (.file fault)

end Invocation

def allowedActions (d : BulkDecision) (checks : List ResourceCheck) : List String :=
  (checks.filter d.allowed).map (·.action)

def Query.answer (q : Query) (e : Engine MemoryCache) (ctx : Context) : Except RunFault Json :=
  match q with
  | .check request =>
    during "Evaluation failed" ((e.evaluate request ctx).1.map Decision.json)
  | .expand principal type resource actions =>
    let checks := actions.map fun action => ⟨type, resource, action⟩
    let allowed := allowedActions (e.evaluateBulk principal checks ctx).1 checks
    .ok (.object [("allowed_actions", .array (allowed.map .string)),
      ("principal_id", .string principal), ("resource", .string (type ++ ":" ++ resource))])
  | .roles principal =>
    during "Role resolution failed" ((e.effectiveRoles principal ctx).1.map EffectiveRoles.json)

def Invocation.answer (i : Invocation) (w : World) : Except RunFault Json := do
  let config ← during ("Failed to load configuration from " ++ Text.quoted (i.config.getD ""))
    (i.loadConfig w)
  let store ← during ("Failed to load store snapshot from " ++ Text.quoted i.snapshot)
    (i.loadStore w)
  let engine ← during "Failed to build engine" (Engine.build config store w.ids)
  i.query.answer { engine with elapsed := w.elapsed } (i.context w.now)

def Invocation.report (i : Invocation) (w : World) : Report :=
  match i.answer w with
  | .ok j => .success (j.canonical.pretty ++ "\n")
  | .error fault => fault.report

def run (w : World) (args : List String) : Report :=
  match Invocation.read w.environment args with
  | .ok i => i.report w
  | .error ending => ending.report

end AccessControl.CommandLine
