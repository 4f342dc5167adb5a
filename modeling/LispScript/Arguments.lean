import LispScript.Interval
import LispScript.Text.Lines
import LispScript.Text.Quoted

/-!
# Arguments of the command line

An argument is an option or plain text. Options have long spellings, which may be cut short as long
as one option is left that starts that way, and some have short spellings, which can be run
together. Two dashes alone make everything behind them plain text, and attached to an option they
leave it without a value. The first plain text is the path; every further one is one too many.
-/

namespace LispScript

/-- The options. -/
inductive Flag
  | help
  | once
  | stdout
  | interval
  | outDir
  | verbose
deriving Repr, DecidableEq

/-- The spellings of the options, in the order in which they are listed. -/
def Flag.spellings : List (String × Flag) :=
  [("-h", .help), ("--help", .help), ("--once", .once), ("--stdout", .stdout),
    ("--interval", .interval), ("--out-dir", .outDir), ("-v", .verbose), ("--verbose", .verbose)]

/-- Whether an option is followed by a value. -/
def Flag.takesValue : Flag → Bool
  | .interval => true
  | .outDir => true
  | _ => false

/-- All spellings of an option. -/
def Flag.label (flag : Flag) : String :=
  Text.joinWith "/" ((Flag.spellings.filter (·.2 = flag)).map (·.1))

/-- What is wrong with the arguments. -/
inductive UsageError
  | ambiguous (argument : String) (spellings : List String)
  /-- A value for an option that takes none. -/
  | ignoredValue (flag : Flag) (value : String)
  | missingValue (flag : Flag)
  | notSeconds (flag : Flag) (value : String)
  | unrecognized (arguments : List String)
deriving Repr, DecidableEq

/-- The error in words. -/
def UsageError.message : UsageError → String
  | .ambiguous argument spellings =>
    "ambiguous option: " ++ argument ++ " could match " ++ Text.joinWith ", " spellings
  | .ignoredValue flag value =>
    "argument " ++ flag.label ++ ": ignored explicit argument " ++ Text.quoted value
  | .missingValue flag => "argument " ++ flag.label ++ ": expected one argument"
  | .notSeconds flag value =>
    "argument " ++ flag.label ++ ": invalid float value: " ++ Text.quoted value
  | .unrecognized arguments => "unrecognized arguments: " ++ Text.joinWith " " arguments

/-- What the command line asks for. -/
structure Arguments where
  path : String
  once : Bool
  stdout : Bool
  interval : Option Interval
  outDir : Option String
  verbose : Bool

/-- Why the arguments ask for nothing to be done. -/
inductive Arguments.Stop
  /-- Help was asked for. -/
  | help
  | usage (e : UsageError)
deriving Repr, DecidableEq

namespace Arguments

/-- An argument by itself. -/
inductive Item
  | plain (text : String)
  /-- Two dashes alone. -/
  | dashes
  /-- An option by its full spelling, with the value attached to it by an equals sign. -/
  | long (flag : Flag) (value : Option String)
  /-- An option by its short spelling, with the text behind it. It makes no difference whether an
  equals sign stands between them. -/
  | short (flag : Flag) (text : List Char)
  /-- Something that looks like an option and is none. -/
  | unknown (text : String)
deriving Repr, DecidableEq

/-- Cuts a text at its first equals sign. -/
def cutAtEquals (cs : List Char) : List Char × Option (List Char) :=
  match cs.dropWhile (· != '=') with
  | [] => (cs, none)
  | _ :: value => (cs.takeWhile (· != '='), some value)

/-- Whether every character is a decimal digit. -/
def allDigits (cs : List Char) : Bool :=
  cs.all fun c => (Text.digitValue? c).isSome

/-- Whether a text is a negative number: a minus with digits, or with a point that has digits
behind it. A newline may stand at the end. -/
def isNegativeNumber : List Char → Bool
  | '-' :: cs =>
    let cs := if cs.getLast? = some '\n' then cs.dropLast else cs
    let whole := cs.takeWhile fun c => (Text.digitValue? c).isSome
    match cs.drop whole.length with
    | [] => !whole.isEmpty
    | '.' :: rest => !rest.isEmpty && allDigits rest
    | _ => false
  | _ => false

/-- The option with a spelling. -/
def spelling? (cs : List Char) : Option Flag :=
  Flag.spellings.lookup (String.ofList cs)

/-- The option with a short spelling. -/
def short? (c : Char) : Option Flag :=
  spelling? ['-', c]

/-- What an argument is that starts with a dash and is no option, though it may look like one. -/
def nonOption (cs : List Char) : Item :=
  if isNegativeNumber cs || cs.contains ' ' then .plain (String.ofList cs)
  else .unknown (String.ofList cs)

/-- What an argument is that starts with two dashes, by the start of a long spelling. -/
def abbreviation (cs : List Char) : Except UsageError Item :=
  let (start, value) := cutAtEquals cs
  match Flag.spellings.filter fun (spelling, _) => start.isPrefixOf spelling.toList with
  | [] => .ok (nonOption cs)
  | [(_, flag)] => .ok (.long flag (value.map String.ofList))
  | many => .error (.ambiguous (String.ofList cs) (many.map (·.1)))

/-- An option with its exact spelling and what is attached to it. -/
def spelled (start : List Char) (flag : Flag) (value : Option (List Char)) : Item :=
  match start, value with
  | _, none => .long flag none
  | ['-', _], some value => .short flag value
  | _, some value => .long flag (some (String.ofList value))

/-- What an argument is, where two dashes alone do not matter. -/
def classify (argument : String) : Except UsageError Item :=
  match argument.toList with
  | '-' :: c :: cs =>
    let all := '-' :: c :: cs
    match spelling? all with
    | some flag => .ok (spelled all flag none)
    | none =>
      let (start, value) := cutAtEquals all
      match spelling? start with
      | some flag => .ok (spelled start flag value)
      | none =>
        if c = '-' then abbreviation all
        else match short? c with
          | some flag => .ok (.short flag cs)
          | none => .ok (nonOption all)
  | _ => .ok (.plain argument)

/-- What the arguments are, one by one. -/
def items : List String → Except UsageError (List Item)
  | [] => .ok []
  | argument :: arguments =>
    if argument = "--" then .ok (.dashes :: arguments.map .plain)
    else do
      let item ← classify argument
      let rest ← items arguments
      return item :: rest

/-- The options of a run of short spellings. The first is given, and each character of the text
behind it has to be a further one, because no option with a short spelling takes a value. -/
def shortRun (flag : Flag) : List Char → Except UsageError (List Flag)
  | [] => .error (.ignoredValue flag "")
  | c :: cs =>
    match short? c, cs with
    | none, _ => .error (.ignoredValue flag (String.ofList (c :: cs)))
    | some next, [] => .ok [flag, next]
    | some next, d :: rest => do
      let flags ← shortRun next (d :: rest)
      return flag :: flags

/-- The value that is attached to an option by an equals sign. Two dashes alone are none. -/
def attached (text : String) : Option String :=
  if text = "--" then none else some text

/-- What was taken from the arguments so far. -/
structure Progress where
  arguments : Arguments
  /-- Whether the place of the path is taken. -/
  pathTaken : Bool
  /-- What was one too many. -/
  extras : List String

/-- Nothing taken yet. -/
def Progress.start : Progress :=
  { arguments :=
      { path := "./", once := false, stdout := false, interval := none, outDir := none,
        verbose := false }
    pathTaken := false
    extras := [] }

/-- Does what an option says. -/
def Progress.apply (progress : Progress) (flag : Flag) (value : Option String) :
    Except Stop Progress :=
  let a := progress.arguments
  match flag with
  | .help => .error .help
  | .once => .ok { progress with arguments := { a with once := true } }
  | .stdout => .ok { progress with arguments := { a with stdout := true } }
  | .verbose => .ok { progress with arguments := { a with verbose := true } }
  | .outDir => .ok { progress with arguments := { a with outDir := value } }
  | .interval =>
    match value with
    | none => .ok { progress with arguments := { a with interval := some .blank } }
    | some text =>
      match Seconds.parse? text with
      | some count =>
        .ok { progress with arguments := { a with interval := some (.seconds count) } }
      | none => .error (.usage (.notSeconds flag text))

/-- Does what several options without values say, in order. -/
def Progress.applyAll (progress : Progress) : List Flag → Except Stop Progress
  | [] => .ok progress
  | flag :: flags => do
    let progress ← progress.apply flag none
    progress.applyAll flags

/-- Adds what is one too many. -/
def Progress.addExtras (progress : Progress) (extras : List String) : Progress :=
  { progress with extras := progress.extras ++ extras }

/-- Takes the place of the path. -/
def Progress.takePath (progress : Progress) (path : String) : Progress :=
  { progress with pathTaken := true, arguments := { progress.arguments with path } }

/-- Takes the arguments from left to right. -/
def take (progress : Progress) : List Item → Except Stop Progress
  | [] => .ok progress
  | .plain text :: .dashes :: rest =>
    if progress.pathTaken then take (progress.addExtras [text, "--"]) rest
    else take (progress.takePath text) rest
  | .plain text :: rest =>
    if progress.pathTaken then take (progress.addExtras [text]) rest
    else take (progress.takePath text) rest
  | .dashes :: .plain text :: rest =>
    if progress.pathTaken then take (progress.addExtras ["--", text]) rest
    else take (progress.takePath text) rest
  | .dashes :: rest =>
    if progress.pathTaken then take (progress.addExtras ["--"]) rest
    else take { progress with pathTaken := true } rest
  | .unknown text :: rest => take (progress.addExtras [text]) rest
  | .short flag text :: rest =>
    match shortRun flag text with
    | .error e => .error (.usage e)
    | .ok flags => do
      let progress ← progress.applyAll flags
      take progress rest
  | .long flag (some value) :: rest =>
    if flag.takesValue then do
      let progress ← progress.apply flag (attached value)
      take progress rest
    else .error (.usage (.ignoredValue flag value))
  | .long flag none :: rest =>
    if flag.takesValue then
      match rest with
      | .plain text :: rest => do
        let progress ← progress.apply flag (some text)
        take progress rest
      | _ => .error (.usage (.missingValue flag))
    else do
      let progress ← progress.apply flag none
      take progress rest

/-- What the command line asks for. -/
def parse (arguments : List String) : Except Stop Arguments :=
  match items arguments with
  | .error e => .error (.usage e)
  | .ok items => do
    let progress ← take .start items
    if progress.extras.isEmpty then .ok progress.arguments
    else .error (.usage (.unrecognized progress.extras))

end Arguments

end LispScript
