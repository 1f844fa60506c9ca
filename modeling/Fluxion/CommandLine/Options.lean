import Fluxion.Decimal.Reading

/-!
# Reading the command line

The command line holds one expression and options, in any order. A long option
may be cut short as long as it stays the only one with its beginning. The value
of an option stands in the next argument or behind an equals sign; that of a
short option may follow it directly, and short options without values may be
run together. An equals sign sets off only what follows the first letter of an
argument, further letters as well as a value; behind a later letter it belongs
to the value.

An argument with a minus in front that names no option is not taken for one if
it is only the minus, looks like a negative number or has a space. After a
double minus no argument is an option; the double minus has to stand right
before the expression, or right behind it and last.
-/

namespace Fluxion.CommandLine

/-- What the command line asks for. -/
structure Options where
  source : String
  variableName : String
  tree : Bool
  simplified : Bool
  identities : Bool
  point : Option Float
  verbose : Bool

/-- Why there is nothing to run: the arguments are not in order, or help was
asked for. -/
inductive Stop where
  | usage
  | help
  deriving DecidableEq

/-- The options of the program. -/
inductive Choice where
  | variableName
  | tree
  | noSimplify
  | identities
  | point
  | verbose
  | help
  deriving DecidableEq

namespace Choice

/-- The options in full. -/
def longNames : List (String × Choice) :=
  [("--derivation-variable", variableName), ("--tree", tree), ("--no-simplify", noSimplify),
    ("--identities", identities), ("--at", point), ("--verbose", verbose), ("--help", help)]

/-- The letters of the options that have one. -/
def letters : List (Char × Choice) :=
  [('d', variableName), ('v', verbose), ('h', help)]

/-- Whether a value belongs to the option. -/
def takesValue : Choice → Bool
  | variableName | point => true
  | _ => false

end Choice

/-! ## One argument -/

/-- What an argument is by its looks. An option comes with what is attached to
it: behind its letter everything that is there, except for an equals sign in
front, and behind a long name the value that an equals sign sets off. -/
inductive Argument where
  | operand
  | letter (choice : Choice) (attached : Option (List Char))
  | long (choice : Choice) (attached : Option (List Char))
  | unknown
  | ambiguous

namespace Argument

/-- The text before an equals sign and the one behind it, if there is one. -/
def cut (text : List Char) : List Char × Option (List Char) :=
  match text.dropWhile (· != '=') with
  | _ :: value => (text.takeWhile (· != '='), some value)
  | [] => (text, none)

/-- What is attached to a letter by the text behind it. -/
def attachedBehind : List Char → Option (List Char)
  | [] => none
  | '=' :: text => some text
  | text => some text

/-- Digits, and nothing behind them but perhaps the end of the line. -/
def endsAfterDigits (text : List Char) : Bool :=
  let rest := text.dropWhile Text.isDigit
  rest.length < text.length && (rest.isEmpty || rest == ['\n'])

/-- A minus sign and then digits, of which there may be none before a point. -/
def isNegativeNumber : List Char → Bool
  | '-' :: digits =>
      match digits.dropWhile Text.isDigit with
      | '.' :: fraction => endsAfterDigits fraction
      | _ => endsAfterDigits digits
  | _ => false

/-- An argument that starts with a minus, does not end there and names no
option. -/
def ofUnnamed (text : List Char) : Argument :=
  if isNegativeNumber text || text.contains ' ' then operand else unknown

/-- An argument that starts with two minus signs: the name of an option or the
beginning of just one, and perhaps a value. -/
def ofLong (text : List Char) : Argument :=
  let (name, attached) := cut text
  match Choice.longNames.lookup (String.ofList name) with
  | some choice => long choice attached
  | none =>
      match Choice.longNames.filter fun (full, _) => name.isPrefixOf full.toList with
      | [] => ofUnnamed text
      | [(_, choice)] => long choice attached
      | _ => ambiguous

/-- What an argument is by its looks. -/
def classify (argument : String) : Argument :=
  match argument.toList with
  | '-' :: '-' :: rest => ofLong ('-' :: '-' :: rest)
  | '-' :: c :: rest =>
      match Choice.letters.lookup c with
      | some choice => letter choice (attachedBehind rest)
      | none => ofUnnamed ('-' :: c :: rest)
  | _ => operand

end Argument

/-- What an argument sets: options with their values, empty ones for options that
take none, and perhaps an option that needs its value from the next argument. -/
structure Setting where
  settled : List (Choice × String)
  wanting : Option Choice

namespace Setting

/-- An option with its value. -/
def value (choice : Choice) (text : List Char) : Setting :=
  ⟨[(choice, String.ofList text)], none⟩

/-- An option without a value attached. -/
def bare (choice : Choice) : Setting :=
  if choice.takesValue then ⟨[], some choice⟩ else value choice []

/-- What an option's letter sets together with the text attached to it: the text
is the value of the option, or if it takes none, more letters. -/
def ofLetters (choice : Choice) : List Char → Except Stop Setting
  | [] => if choice.takesValue then .ok (value choice []) else .error .usage
  | c :: rest =>
      if choice.takesValue then .ok (value choice (c :: rest))
      else
        match Choice.letters.lookup c with
        | none => .error .usage
        | some next => do
            let more ← if rest.isEmpty then .ok (bare next) else ofLetters next rest
            .ok { more with settled := (choice, "") :: more.settled }

/-- What an option's letter sets together with what is attached to it. -/
def ofLetter (choice : Choice) : Option (List Char) → Except Stop Setting
  | none => .ok (bare choice)
  | some attached => ofLetters choice attached

/-- What a long option sets together with its value. -/
def ofLong (choice : Choice) : Option (List Char) → Except Stop Setting
  | none => .ok (bare choice)
  | some text => if choice.takesValue then .ok (value choice text) else .error .usage

end Setting

/-! ## All arguments -/

/-- What has been read of the command line: the options so far, whether there
is an expression yet, whether it was read just now, and whether there was
something too much. -/
structure Draft where
  options : Options
  hasSource : Bool
  atSource : Bool
  surplus : Bool

namespace Draft

/-- Nothing has been read. -/
def start : Draft where
  options := ⟨"", "x", false, true, false, none, false⟩
  hasSource := false
  atSource := false
  surplus := false

/-- Reads an expression. There is to be only one. -/
def withSource (draft : Draft) (source : String) : Draft :=
  if draft.hasSource then { draft with surplus := true }
  else { draft with options := { draft.options with source }, hasSource := true, atSource := true }

/-- Reads an option with its value. -/
def withChoice (draft : Draft) (choice : Choice) (value : String) : Except Stop Draft :=
  let set (options : Options) : Except Stop Draft :=
    .ok { draft with options, atSource := false }
  match choice with
  | .variableName => set { draft.options with variableName := value }
  | .tree => set { draft.options with tree := true }
  | .noSimplify => set { draft.options with simplified := false }
  | .identities => set { draft.options with identities := true }
  | .verbose => set { draft.options with verbose := true }
  | .point =>
      match Decimal.read? value with
      | some point => set { draft.options with point := some point }
      | none => .error .usage
  | .help => .error .help

/-- Reads options with their values. -/
def withChoices (draft : Draft) (settled : List (Choice × String)) : Except Stop Draft :=
  settled.foldlM (fun draft (choice, value) => draft.withChoice choice value) draft

/-- Whether an argument can be the value of an option before it. -/
def isValue (argument : String) : Bool :=
  argument != "--" &&
    match Argument.classify argument with
    | .operand => true
    | _ => false

/-- Reads what stands behind a double minus. -/
def withOperands (draft : Draft) (operands : List String) : Draft :=
  match operands with
  | [] => { draft with surplus := draft.surplus || !draft.atSource }
  | [source] => draft.withSource source
  | _ => { draft with surplus := true }

/-- Settles what an argument sets, or returns it if the next argument has to be
seen first: nothing of a setting is settled before its last value is there. -/
def withSetting (draft : Draft) (setting : Setting) :
    Except Stop (Draft × Option (List (Choice × String) × Choice)) :=
  match setting.wanting with
  | some choice => .ok (draft, some (setting.settled, choice))
  | none => do
      let draft ← draft.withChoices setting.settled
      .ok (draft, none)

/-- Reads arguments. The first of them may be `wanted` as the value of an option,
to be settled behind others. -/
def withArguments (draft : Draft) (wanted : Option (List (Choice × String) × Choice)) :
    List String → Except Stop Draft
  | [] => if wanted.isSome then .error .usage else .ok draft
  | argument :: rest =>
      match wanted with
      | some (settled, choice) =>
          if isValue argument then do
            let draft ← draft.withChoices (settled ++ [(choice, argument)])
            draft.withArguments none rest
          else .error .usage
      | none =>
          if argument = "--" then .ok (draft.withOperands rest)
          else
            match Argument.classify argument with
            | .operand => (draft.withSource argument).withArguments none rest
            | .letter choice attached => do
                let setting ← Setting.ofLetter choice attached
                let (draft, wanted) ← draft.withSetting setting
                draft.withArguments wanted rest
            | .long choice attached => do
                let setting ← Setting.ofLong choice attached
                let (draft, wanted) ← draft.withSetting setting
                draft.withArguments wanted rest
            | .unknown =>
                { draft with surplus := true, atSource := false }.withArguments none rest
            | .ambiguous => .error .usage

end Draft

/-- Whether an argument may be the beginning of several options. -/
def isAmbiguous (argument : String) : Bool :=
  match Argument.classify argument with
  | .ambiguous => true
  | _ => false

/-- What the command line asks for. Ambiguous options are found before anything
else is looked at, and what is too much after everything else. -/
def Options.read (arguments : List String) : Except Stop Options :=
  if (arguments.takeWhile (· != "--")).any isAmbiguous then .error .usage
  else do
    let draft ← Draft.start.withArguments none arguments
    if draft.hasSource && !draft.surplus then .ok draft.options else .error .usage

end Fluxion.CommandLine
