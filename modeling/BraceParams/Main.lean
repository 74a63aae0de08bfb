import BraceParams.CommandLine

open BraceParams CommandLine

def readFile (path : Option String) : IO File :=
  match path with
  | none => pure .missing
  | some path => do
    try
      let octets ← IO.FS.readBinFile path
      pure (.content octets)
    catch _ => pure .missing

def main (arguments : List String) : IO UInt32 := do
  match parse? arguments with
  | none =>
    IO.eprintln "error: the arguments are not well formed"
    pure usageExit.toUInt32
  | some invocation =>
    let file ← readFile invocation.command.path?
    let outcome := invocation.command.run file
    IO.print outcome.stdout
    IO.eprint outcome.stderr
    match outcome.report with
    | none => pure ()
    | some message => IO.eprintln ("Error: \n   0: " ++ message)
    pure outcome.exit.toUInt32
