import Stowage.Number.Word64
/-!
# Stowage — commands

What the program can be asked to do, and how its arguments spell it: the name of a command, then its
options, each with a value, and perhaps one operand. Options are long names after two dashes or letters
after one; their value stands in the same argument or is the next one. Two dashes alone end the
options. The first argument that cannot be used decides what is wrong.
-/

namespace Stowage.Cli

inductive Command where
  | help
  | version
  | serve (port maximum : Nat)
  | offload (config : String) (input output : Option String)
  | resolve (config : String) (input output : Option String)
  | inspect (config id : String)
  | delete (config id : String)
deriving DecidableEq, Repr

inductive Misuse where
  | noCommand
  | unknownCommand (name : String)
  | unexpected (argument : String)
  | noValue (option : String)
  | badValue (option value : String)
  | repeated (option : String)
  | missing (what : String)
deriving DecidableEq, Repr

def Misuse.message : Misuse → String
  | noCommand => "a command is needed"
  | unknownCommand name => s!"there is no command '{name}'"
  | unexpected argument => s!"unexpected argument '{argument}'"
  | noValue option => s!"--{option} needs a value"
  | badValue option value => s!"'{value}' is no value for --{option}"
  | repeated option => s!"--{option} is given twice"
  | missing what => s!"{what} is missing"

/-! ## Options -/

/-- An option of a command: its name, perhaps a letter, and which values it takes. -/
structure Parameter where
  name : String
  letter : Option Char
  takes : String → Bool

/-- What a command takes: options, and perhaps an operand. -/
structure Form where
  parameters : List Parameter
  operand : Bool

structure Given where
  values : List (String × String)
  operand : Option String
  asksHelp : Bool
deriving DecidableEq, Repr

def Given.nothing : Given := ⟨[], none, false⟩

def Given.value? (g : Given) (name : String) : Option String :=
  (g.values.find? fun value => value.1 == name).map Prod.snd

inductive Word where
  | help
  | endOfOptions
  | operand
  | unknown
  | valued (p : Parameter) (value : String)
  | pending (p : Parameter)

/-- What a long option is, from the text after its dashes. -/
def Form.longWord (form : Form) (text : List Char) : Word :=
  let name := String.ofList (text.takeWhile (· ≠ '='))
  let value := text.dropWhile (· ≠ '=')
  if name = "help" ∧ value.isEmpty then .help
  else
    match form.parameters.find? fun p => p.name == name, value with
    | some p, _ :: value => .valued p (String.ofList value)
    | some p, [] => .pending p
    | none, _ => .unknown

/-- What letters are. The first takes what follows it as its value. -/
def Form.letterWord (form : Form) (letter : Char) (rest : List Char) : Word :=
  if letter = 'h' then .help
  else
    match form.parameters.find? fun p => p.letter == some letter, rest with
    | some p, [] => .pending p
    | some p, '=' :: value => .valued p (String.ofList value)
    | some p, value => .valued p (String.ofList value)
    | none, _ => .unknown

/-- What an argument is. A dash alone is an operand. -/
def Form.word (form : Form) (argument : String) : Word :=
  match argument.toList with
  | ['-', '-'] => .endOfOptions
  | '-' :: '-' :: text => form.longWord text
  | '-' :: letter :: rest => form.letterWord letter rest
  | _ => .operand

/-- Whether an argument has the look of an option, and so cannot be the value of one. -/
def looksLikeOption (argument : String) : Bool :=
  argument.startsWith "-" && argument ≠ "-"

def Given.set (g : Given) (p : Parameter) (value : String) : Except Misuse Given :=
  if (g.value? p.name).isSome then .error (.repeated p.name)
  else if p.takes value then .ok { g with values := g.values ++ [(p.name, value)] }
  else .error (.badValue p.name value)

def Form.operate (form : Form) (g : Given) (argument : String) : Except Misuse Given :=
  if form.operand ∧ g.operand.isNone then .ok { g with operand := some argument }
  else .error (.unexpected argument)

/-- Reads arguments. What follows a call for help is not looked at. -/
def Form.scan (form : Form) (g : Given) : List String → Except Misuse Given
  | [] => .ok g
  | argument :: rest =>
    match form.word argument with
    | .help => .ok { g with asksHelp := true }
    | .endOfOptions => rest.foldlM form.operate g
    | .unknown => .error (.unexpected argument)
    | .operand => do form.scan (← form.operate g argument) rest
    | .valued p value => do form.scan (← g.set p value) rest
    | .pending p =>
      match rest with
      | [] => .error (.noValue p.name)
      | value :: rest =>
        if looksLikeOption value then .error (.noValue p.name)
        else do form.scan (← g.set p value) rest

/-! ## Commands -/

def defaultPort : Nat := 7420

def defaultMaximum : Nat := 1073741824

/-- Reads a port. A sign may stand before it, also that of a negative zero. -/
def port? (text : String) : Option Nat :=
  let unsigned := match text.toList with
    | '-' :: rest => (Word64.read (String.ofList ('+' :: rest))).toOption.filter (· = 0)
    | _ => (Word64.read text).toOption
  unsigned.filter (· < 65536)

def maximum? (text : String) : Option Nat := (Word64.read text).toOption

def pathParameter (name : String) (letter : Char) : Parameter :=
  ⟨name, some letter, fun text => !text.isEmpty⟩

def configParameter : Parameter := pathParameter "config" 'c'

def serveForm : Form :=
  ⟨[⟨"port", some 'p', fun text => (port? text).isSome⟩,
    ⟨"max-payload", none, fun text => (maximum? text).isSome⟩], false⟩

def messageForm : Form :=
  ⟨[configParameter, pathParameter "input" 'i', pathParameter "output" 'o'], false⟩

def recordForm : Form := ⟨[configParameter], true⟩

def Given.config (g : Given) : Except Misuse String :=
  match g.value? "config" with
  | some path => .ok path
  | none => .error (.missing "--config")

def Given.id (g : Given) : Except Misuse String :=
  match g.operand with
  | some id => .ok id
  | none => .error (.missing "the id of a record")

def serveOf (g : Given) : Except Misuse Command :=
  .ok (.serve (((g.value? "port").bind port?).getD defaultPort)
    (((g.value? "max-payload").bind maximum?).getD defaultMaximum))

def messageOf (make : String → Option String → Option String → Command) (g : Given) :
    Except Misuse Command := do
  .ok (make (← g.config) (g.value? "input") (g.value? "output"))

def recordOf (make : String → String → Command) (g : Given) : Except Misuse Command := do
  .ok (make (← g.config) (← g.id))

/-- A name for a command, what the command takes, and what it becomes of that. -/
structure Entry where
  name : String
  form : Form
  make : Given → Except Misuse Command

def entries : List Entry :=
  [⟨"serve", serveForm, serveOf⟩, ⟨"offload", messageForm, messageOf .offload⟩,
    ⟨"resolve", messageForm, messageOf .resolve⟩, ⟨"inspect", recordForm, recordOf .inspect⟩,
    ⟨"delete", recordForm, recordOf .delete⟩]

def entryNamed? (name : String) : Option Entry := entries.find? fun e => e.name == name

/-- The command that the arguments after its name spell. -/
def Entry.read (e : Entry) (arguments : List String) : Except Misuse Command := do
  let given ← e.form.scan .nothing arguments
  if given.asksHelp then .ok .help else e.make given

/-- The help on a command, if one is named. -/
def helpOn : List String → Except Misuse Command
  | [] => .ok .help
  | name :: _ =>
    if name = "help" ∨ (entryNamed? name).isSome then .ok .help else .error (.unknownCommand name)

def Command.ofArguments : List String → Except Misuse Command
  | [] => .error .noCommand
  | name :: rest =>
    match entryNamed? name with
    | some entry => entry.read rest
    | none =>
      if name = "help" then helpOn rest
      else if name = "--version" ∨ name.startsWith "-V" then .ok .version
      else if name = "--help" ∨ name.startsWith "-h" then .ok .help
      else if looksLikeOption name then .error (.unexpected name)
      else .error (.unknownCommand name)

end Stowage.Cli
