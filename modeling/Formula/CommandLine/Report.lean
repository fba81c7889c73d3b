import Formula.CommandLine.Arguments
import Formula.Engine

/-!
# What the program answers

A `Report` is all that can be seen of a run of the program: what it prints, what it complains about
and its exit code.
-/

namespace Formula.CommandLine

/-- The outcome of a run of the program. -/
structure Report where
  code : Nat
  output : String
  /-- What went wrong with the expression. -/
  complaint : Option String
deriving DecidableEq

namespace Report

/-- A run that prints one answer. -/
def answer (text : String) : Report :=
  ⟨0, text ++ "\n", none⟩

/-- A run that fails while it does something with an expression. -/
def complain (doing expression reason : String) : Report :=
  ⟨1, "", some ("Error: " ++ doing ++ " '" ++ expression ++ "': " ++ reason ++ "\n")⟩

/-- The report on an operation of an engine; a complaint tells the failure and its cause. -/
def ofStep {α : Type} (doing expression : String) (text : α → String) (step : EngineStep α) :
    Report :=
  match step (Engine.new EngineConfig.standard) with
  | .ok a _ => answer (text a)
  | .error failure _ => complain doing expression (failure.message ++ ": " ++ failure.cause)

/-- The report on a command. -/
def ofCommand : Command → Report
  | .evaluate expression bindings =>
    ofStep "evaluating" expression Value.text
      (Engine.evaluate expression (Bindings.ofList bindings))
  | .check expression bindings =>
    ofStep "checking" expression ValueType.name
      (Engine.check expression (Bindings.ofList bindings))
  | .format expression => ofStep "formatting" expression id (Engine.format expression)
  | .parse expression =>
    match Expr.parse expression with
    | .ok tree => answer tree.outline.indented
    | .error e => complain "parsing" expression e.message

/-- The report on arguments that make no command. -/
def ofRefusal : Refusal → Report
  | .usage => ⟨2, "", none⟩
  | .help => ⟨0, "", none⟩

end Report

/-- What the program answers to its arguments. -/
def report (arguments : List String) : Report :=
  match Command.read arguments with
  | .ok command => Report.ofCommand command
  | .error refusal => Report.ofRefusal refusal

end Formula.CommandLine
