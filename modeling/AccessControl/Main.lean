import AccessControl.CommandLine.Run
import Std.Time.DateTime.Timestamp

/-! The program: reads what a run needs from the world, prints its report and exits. -/

namespace AccessControl.CommandLine

def readText (path : String) : IO (Except String String) := do
  try
    return .ok (← IO.FS.readFile path)
  catch fault =>
    match fault with
    | .noFileOrDirectory .. => return .error Fault.noSuchFile
    | fault => return .error (toString fault)

def present : IO Instant := do
  let now ← Std.Time.Timestamp.now
  let nanos := now.toNanosecondsSinceUnixEpoch.val
  return ⟨nanos / 1000000000, (nanos % 1000000000).toNat⟩

def paths (environment : String → Option String) (args : List String) : List String :=
  match Invocation.read environment args with
  | .ok i => i.snapshot :: i.config.toList
  | .error _ => []

def observe (args : List String) : IO World := do
  let names := [snapshotVariable, configVariable]
  let settings ← names.mapM fun name => return (name, ← IO.getEnv name)
  let environment := fun name => (settings.lookup name).join
  let files ← (paths environment args).mapM fun path => return (path, ← readText path)
  let seed ← IO.rand 0 (twoTo (4 * IdSupply.width) - 1)
  return {
    environment := environment
    file := fun path => (files.lookup path).getD (.error "not read")
    now := ← present
    ids := ⟨seed⟩
    elapsed := .zero }

def timed (world : World) (args : List String) : IO Report := do
  let start ← IO.monoNanosNow
  let rehearsal := run world args
  if rehearsal.status ≠ 0 then return rehearsal
  let stop ← IO.monoNanosNow
  return run { world with elapsed := ⟨stop - start⟩ } args

end AccessControl.CommandLine

open AccessControl.CommandLine in
def main (args : List String) : IO UInt32 := do
  let report ← timed (← observe args) args
  IO.print report.output
  IO.eprint report.complaint
  return report.status.toUInt32
