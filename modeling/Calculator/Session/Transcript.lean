import Calculator.Session.Basic

/-!
Sessions without a terminal: a whole text is split into lines, every line is handled in turn, and
what goes to either output is collected.
-/

set_option autoImplicit false
set_option relaxedAutoImplicit false

namespace Calculator

/-- Collect lines, given the characters of the current one in reverse. -/
def linesFrom (current : List Char) : List Char → List String
  | [] => if current.isEmpty then [] else [String.ofList current.reverse]
  | '\n' :: rest =>
    let line :=
      match current with
      | '\r' :: line => line
      | line => line
    String.ofList line.reverse :: linesFrom [] rest
  | c :: rest => linesFrom (c :: current) rest

/-- The lines of a text. A line ends at a newline, with or without a carriage return before it. -/
def linesOf (text : String) : List String := linesFrom [] text.toList

def Failure.headline : Failure → String
  | .command message => "error: " ++ message
  | .expression _ diagnostic => "Error: " ++ diagnostic.report.title

inductive Printed where
  | output (text : String)
  | error (failure : Failure)

def Reply.printed : Reply → List Printed
  | .ok (some text) => [.output text]
  | .ok none => []
  | .error failure => [.error failure]

namespace Session

/-- Handle lines in turn, collecting what is put out. -/
def run (session : Session) : List String → List Printed × Session
  | [] => ([], session)
  | line :: rest =>
    let (reply, next) := session.handle line
    let (printed, last) := next.run rest
    (reply.printed ++ printed, last)

end Session

inductive ReadFailure where
  | notFound
  | permissionDenied
  | other (reason : String)

def ReadFailure.reason : ReadFailure → String
  | .notFound => "No such file or directory (os error 2)"
  | .permissionDenied => "Permission denied (os error 13)"
  | .other reason => reason

def ReadFailure.headline (path : String) (failure : ReadFailure) : String :=
  "error: could not read " ++ ticked path ++ ": " ++ failure.reason

end Calculator
