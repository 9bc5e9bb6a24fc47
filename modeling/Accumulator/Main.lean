import Accumulator.CommandLine.Response

set_option autoImplicit false

/-!
The command line program.
-/

namespace Accumulator.CommandLine

def usage : String :=
  "usage: asm SOURCE [-o FILE] | run PROGRAM [-b] [--cycle-limit N] [--input1 N] [--input2 N] [-v]"
    ++ " | tui [SOURCE]   (each with -l LEVEL)"

/-- Why a file could not be opened or written. Codes come with either sign. -/
def reason (e : IO.Error) : String :=
  match e with
  | .noFileOrDirectory _ _ _ => "No such file or directory (os error 2)"
  | .permissionDenied _ _ _ => "Permission denied (os error 13)"
  | .inappropriateType _ code _ =>
    if code = 21 ∨ code = -21 then "Is a directory (os error 21)"
    else "Not a directory (os error 20)"
  | .invalidArgument _ code _ =>
    if code = 36 ∨ code = -36 then "File name too long (os error 36)" else toString e
  | .resourceExhausted _ code _ =>
    if code = 28 ∨ code = -28 then "No space left on device (os error 28)" else toString e
  | e => toString e

def readContent (r : Request) : IO (Except String String) :=
  match r.file? with
  | none => pure (.ok "")
  | some name =>
    try
      return .ok (← IO.FS.readFile name)
    catch e => return .error (reason e)

/-- Writes the file of a response, or turns the response into one that says why not. -/
def writeFile (r : Response) : IO Response :=
  match r.file with
  | none => pure r
  | some (name, content) => do
    match ← (IO.FS.Handle.mk name .write).toBaseIO with
    | .error e => return r.unwritable (reason e)
    | .ok file =>
      try
        file.putStr content
        file.flush
        return r
      catch e => return r.unfinished (reason e)

end Accumulator.CommandLine

open Accumulator CommandLine

def main (args : List String) : IO UInt32 := do
  match Request.ofArguments? args with
  | none =>
    IO.eprintln usage
    return Response.usageExit.toUInt32
  | some request =>
    let response ← writeFile (request.respond (← readContent request))
    (response.log request.level).forM fun line => IO.eprintln line
    IO.print response.stdout
    return response.exit.toUInt32
