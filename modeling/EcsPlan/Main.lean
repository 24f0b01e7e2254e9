import EcsPlan.CommandLine

open EcsPlan EcsPlan.CommandLine

def contentOf (path : String) : IO (Option ByteArray) := do
  try return some (← IO.FS.readBinFile path) catch _ => return none

def carryOut (r : Response) : IO UInt32 := do
  match r.written with
  | some (path, text) =>
    try IO.FS.writeFile path text
    catch e =>
      IO.eprintln s!"Error: failed to write {path}: {e}"
      return failureCode
  | none => IO.print r.printed
  return r.exitCode

def runOptions (o : Options) : IO UInt32 := do
  match Snapshot.ofFile (← contentOf o.input) with
  | .ok snapshot =>
    for d in (o.report snapshot).diagnostics do
      IO.eprintln d.text
    carryOut (o.respond snapshot)
  | .error e =>
    let reason := e.message?.getD "invalid manifest"
    IO.eprintln s!"Error: failed to load {o.input}: {reason}"
    return failureCode

def main (args : List String) : IO UInt32 := do
  match request args with
  | .ok .help =>
    IO.print helpText
    return 0
  | .ok (.run options) => runOptions options
  | .error refusal =>
    IO.eprintln s!"error: {refusal.message}"
    return usageCode
