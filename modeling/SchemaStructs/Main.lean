import SchemaStructs.Command.Run

set_option autoImplicit false

namespace SchemaStructs

structure Arguments where
  schema : Option String := none
  output : Option String := none
  manifest : Option String := none
  modules : List String := []

namespace Arguments

/-- One option with its value. The level of the log is accepted, but there is no log. -/
def set (a : Arguments) (name value : String) : Option Arguments :=
  match name with
  | "--schema" | "-s" => some { a with schema := some value }
  | "--output" | "-o" => some { a with output := some value }
  | "--manifest" | "-m" => some { a with manifest := some value }
  | "--module" => some { a with modules := a.modules ++ [value] }
  | "--log-level" => some a
  | _ => none

def parse (a : Arguments) : List String → Option Arguments
  | [] => some a
  | arg :: rest =>
    match pieces "=" arg with
    | name :: part :: parts => do (← a.set name ("=".intercalate (part :: parts))).parse rest
    | _ =>
      match rest with
      | value :: rest => do (← a.set arg value).parse rest
      | [] => none

end Arguments

def machine : Host IO where
  isThere path := try let _ ← IO.FS.realPath path; return true catch _ => return false
  read path := try return some (← IO.FS.readFile path) catch _ => return none
  makeDirectory path := do
    if path.isEmpty then return true
    try IO.FS.createDirAll path; return true catch _ => return false
  write path text := try IO.FS.writeFile path text; return true catch _ => return false
  say := IO.println
  complain := IO.eprintln

def usage : String :=
  "usage: generate --schema PATH [--output DIRECTORY] [--manifest PATH] [--module NAME]...\n" ++
    "       check --schema PATH [--manifest PATH] [--module NAME]...\n" ++
    "       check-manifest [--manifest PATH]"

def commandOf : List String → Option (ExceptT (Halt Failure) IO Unit)
  | "generate" :: rest => do
    let a ← Arguments.parse {} rest
    return Command.generate machine (← a.schema) a.output a.manifest a.modules
  | "check" :: rest => do
    let a ← Arguments.parse {} rest
    if a.output.isSome then none
    return Command.check machine (← a.schema) a.manifest a.modules
  | "check-manifest" :: rest => do
    let a ← Arguments.parse {} rest
    if a.schema.isSome || a.output.isSome || !a.modules.isEmpty then none
    return Command.checkManifest machine a.manifest
  | _ => none

def Cause.show : Cause → String
  | .text message => message
  | .json => "the text is not the JSON of a schema"
  | .toml => "the text is not the TOML of a manifest"
  | .system => "the system refused"

def report (f : Failure) : IO Unit := do
  match f.causes.map Cause.show with
  | [] => return ()
  | outermost :: causes =>
    IO.eprintln ("Error: " ++ outermost)
    unless causes.isEmpty do
      IO.eprintln "\nCaused by:"
      causes.forM fun cause => IO.eprintln ("    " ++ cause)

end SchemaStructs

def main (args : List String) : IO UInt32 := do
  match SchemaStructs.commandOf args with
  | none =>
    IO.eprintln SchemaStructs.usage
    return 2
  | some command =>
    match ← command.run with
    | .ok () => return 0
    | .error (.failed f) =>
      SchemaStructs.report f
      return 1
    | .error .endless =>
      IO.eprintln "Error: the aliases of a module go round without end"
      return 134
