import Calculator.Session.Transcript

/-!
The command line: it handles the lines of a file given as argument, or those of the standard
input. On a terminal it shows a prompt before each line.
-/

set_option autoImplicit false
set_option relaxedAutoImplicit false

namespace Calculator

/-- The rest of a failure's report after its headline. -/
def Failure.details : Failure → List String
  | .command _ => []
  | .expression _ diagnostic =>
    let report := diagnostic.report
    let labels := List.zipWith
      (fun span label => "  " ++ toString span.start ++ ".." ++ toString span.stop ++ ": " ++ label)
      diagnostic.spans report.labels
    match report.help? with
    | none => labels
    | some help => labels ++ ["  help: " ++ help]

def Printed.show : Printed → IO Unit
  | .output text => IO.println text
  | .error failure => do
    IO.eprintln failure.headline
    for line in failure.details do
      IO.eprintln line

def handleLine (session : Session) (line : String) : IO Session := do
  let (printed, next) := session.run [line]
  for item in printed do
    item.show
  return next

partial def handleInput (prompting : Bool) (session : Session) : IO Unit := do
  let stdin ← IO.getStdin
  if prompting then
    IO.print session.prompt
    (← IO.getStdout).flush
  let line ← stdin.getLine
  if line.isEmpty then return ()
  let mut next := session
  for text in linesOf line do
    next ← handleLine next text
  handleInput prompting next

def readFailure : IO.Error → ReadFailure
  | .noFileOrDirectory .. => .notFound
  | .permissionDenied .. => .permissionDenied
  | error => .other (toString error)

def handleFile (path : String) : IO UInt32 := do
  match ← (IO.FS.readFile path).toBaseIO with
  | .error error =>
    IO.eprintln ((readFailure error).headline path)
    return 1
  | .ok text =>
    let (printed, _) := Session.initial.run (linesOf text)
    for item in printed do
      item.show
    return 0

end Calculator

def main (arguments : List String) : IO UInt32 := do
  match arguments with
  | path :: _ => Calculator.handleFile path
  | [] =>
    let prompting ← (← IO.getStdin).isTty
    Calculator.handleInput prompting Calculator.Session.initial
    return 0
