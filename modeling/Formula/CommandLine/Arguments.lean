import Formula.CommandLine.Binding

/-!
# Arguments of the command line

The first argument that is no option names a command, and the arguments behind it are the command's:
one expression, options with two hyphens or one, and behind `--` nothing but the expression.

An expression may itself start with a hyphen.  So an argument that looks like an option but is none
is taken as the expression, as long as the command has none yet.
-/

namespace Formula.CommandLine

/-- Why no command is run. -/
inductive Refusal where
  /-- The arguments make no command. -/
  | usage
  /-- The arguments ask how to use the program. -/
  | help
deriving DecidableEq

/-- What an argument looks like. -/
inductive Shape where
  /-- The end of the options. -/
  | separator
  /-- An option with two hyphens, with the value behind its `=` if it has one. -/
  | long (name : String) (value : Option String)
  /-- Options of one letter behind one hyphen. -/
  | short (letters : List Char)
  | plain
deriving DecidableEq

/-- What an argument looks like. -/
def Shape.of (argument : String) : Shape :=
  match argument.toList with
  | ['-', '-'] => .separator
  | '-' :: '-' :: option =>
    match splitAtFirst '=' (String.ofList option) with
    | some (name, value) => .long name (some value)
    | none => .long (String.ofList option) none
  | '-' :: first :: letters => .short (first :: letters)
  | _ => .plain

/-- The arguments of a command as far as they are read. -/
structure Form (β : Type) where
  expression : Option String
  bindings : List β
  /-- Whether log output is asked for. -/
  verbose : Bool
  /-- Whether the next argument is the value of an option. -/
  awaiting : Bool
  /-- Whether the options have ended. -/
  closed : Bool

namespace Form

variable {β : Type}

/-- No argument is read. -/
def blank : Form β := ⟨none, [], false, false, false⟩

/-- Takes the expression. -/
def takeExpression (form : Form β) (argument : String) : Except Refusal (Form β) :=
  if form.awaiting || form.expression.isSome then .error .usage
  else .ok { form with expression := some argument }

/-- Takes a binding that `read` reads. -/
def takeBinding (read : String → Option β) (form : Form β) (argument : String) :
    Except Refusal (Form β) :=
  match read argument with
  | some binding => .ok { form with bindings := form.bindings ++ [binding], awaiting := false }
  | none => .error .usage

/-- Takes an argument that is no option. -/
def takePlain (read : String → Option β) (form : Form β) (argument : String) :
    Except Refusal (Form β) :=
  if form.awaiting then form.takeBinding read argument else form.takeExpression argument

/-- Takes the wish for log output, which can be said once. -/
def takeVerbose (form : Form β) : Except Refusal (Form β) :=
  if form.awaiting || form.verbose then .error .usage else .ok { form with verbose := true }

/-- Takes an option of one letter. -/
def takeLetter (form : Form β) (letter : Char) : Except Refusal (Form β) :=
  if letter = 'v' then form.takeVerbose
  else if letter = 'h' && !form.awaiting then .error .help
  else .error .usage

/-- Takes the next argument.  A command without bindings has no `read`. -/
def take (read : Option (String → Option β)) (form : Form β) (argument : String) :
    Except Refusal (Form β) :=
  if form.closed then form.takeExpression argument
  else
    match Shape.of argument, read with
    | .separator, _ => .ok { form with closed := true }
    | .long "verbose" none, _ => form.takeVerbose
    | .long "help" none, _ => if form.awaiting then .error .usage else .error .help
    | .long "verbose" (some _), _ | .long "help" (some _), _ => .error .usage
    | .long "var" (some value), some read =>
      if form.awaiting then .error .usage else form.takeBinding read value
    | .long "var" none, some _ =>
      if form.awaiting then .error .usage else .ok { form with awaiting := true }
    | .long _ _, read =>
      -- no option of the command, so it can only be an expression
      if form.expression.isSome then .error .usage
      else form.takePlain (read.getD fun _ => none) argument
    | .short letters, read =>
      -- one unknown letter makes the whole argument an expression
      if form.expression.isNone && letters.any (fun c => c != 'v' && c != 'h') then
        form.takePlain (read.getD fun _ => none) argument
      else letters.foldlM takeLetter form
    | .plain, read => form.takePlain (read.getD fun _ => none) argument

/-- The expression and the bindings of a complete form. -/
def finish (form : Form β) : Except Refusal (String × List β) :=
  match form.expression with
  | some expression => if form.awaiting then .error .usage else .ok (expression, form.bindings)
  | none => .error .usage

/-- Reads all arguments of a command. -/
def read (binding : Option (String → Option β)) (arguments : List String) :
    Except Refusal (String × List β) :=
  (arguments.foldlM (take binding) blank).bind finish

end Form

/-- What the program is asked to do. -/
inductive Command where
  | evaluate (expression : String) (bindings : List (String × Value))
  | check (expression : String) (bindings : List (String × ValueType))
  | format (expression : String)
  | parse (expression : String)

namespace Command

/-- The names of the commands. -/
def names : List String := ["eval", "check", "fmt", "parse"]

/-- The commands without variables read no bindings. -/
def noBinding : Option (String → Option Unit) := none

/-- Reads the arguments behind the name of a command. -/
def named (name : String) (arguments : List String) : Except Refusal Command :=
  match name with
  | "eval" => (Form.read (some readBinding) arguments).map fun (e, vars) => .evaluate e vars
  | "check" => (Form.read (some readDeclaration) arguments).map fun (e, vars) => .check e vars
  | "fmt" => (Form.read noBinding arguments).map fun (e, _) => .format e
  | "parse" => (Form.read noBinding arguments).map fun (e, _) => .parse e
  | _ => .error .usage

/-- Reads one letter of an option before the name of a command; the result says whether log output
    has been asked for. -/
def letter (verbose : Bool) (c : Char) : Except Refusal Bool :=
  if c = 'v' then (if verbose then .error .usage else .ok true)
  else if c = 'h' ∨ c = 'V' then .error .help
  else .error .usage

/-- Reads arguments from the name of a command on, or from options before it. -/
def readFrom (verbose : Bool) : List String → Except Refusal Command
  | [] => .error .usage
  | argument :: rest =>
    if names.contains argument then named argument rest
    else if argument = "help" then
      if rest.isEmpty || (rest.length = 1 && rest.all ("help" :: names).contains) then .error .help
      else .error .usage
    else
      match Shape.of argument with
      | .long "verbose" none => if verbose then .error .usage else readFrom true rest
      | .long "help" none | .long "version" none => .error .help
      | .short letters =>
        match letters.foldlM letter verbose with
        | .ok verbose => readFrom verbose rest
        | .error refusal => .error refusal
      | _ => .error .usage

/-- Reads the arguments of the program. -/
def read (arguments : List String) : Except Refusal Command :=
  readFrom false arguments

end Command

end Formula.CommandLine
