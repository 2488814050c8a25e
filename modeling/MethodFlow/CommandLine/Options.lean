import MethodFlow.Text.Alphanumeric
import MethodFlow.Text.Quoted

/-!
Command-line arguments. Long options may be cut short as long as one option is meant, and a value
may be attached with `=`. Behind `-h` more letters may stand. What follows `--` is no option, and
what looks like a negative number or has a space in it is none either.
-/
namespace MethodFlow

structure Options where
  path : Option String := none
  entry : Option String := none
  list : Bool := false
  json : Bool := false
  backend : Option String := none
  linkEnd : Bool := false
  logLevel : Option String := none
  deriving DecidableEq, Repr

inductive Switch where
  | help
  | entry
  | list
  | json
  | backend
  | linkEnd
  | logLevel
  deriving DecidableEq, Repr

namespace Switch

def spellings : List (String × Switch) :=
  [("-h", help), ("--help", help), ("--entry", entry), ("--list", list), ("--json", json),
    ("--backend", backend), ("--link-end", linkEnd), ("--log-level", logLevel)]

def takesValue : Switch → Bool
  | entry => true
  | backend => true
  | logLevel => true
  | _ => false

def label (switch : Switch) : String :=
  "/".intercalate ((spellings.filter fun spelling => spelling.2 = switch).map Prod.fst)

end Switch

inductive UsageError where
  | ambiguous (argument : String) (candidates : List String)
  | valueExpected (switch : Switch)
  | valueIgnored (switch : Switch) (value : String)
  | unrecognized (arguments : List String)
  deriving DecidableEq, Repr

def UsageError.message : UsageError → String
  | ambiguous argument candidates =>
    "ambiguous option: " ++ argument ++ " could match " ++ ", ".intercalate candidates
  | valueExpected switch => "argument " ++ switch.label ++ ": expected one argument"
  | valueIgnored switch value =>
    "argument " ++ switch.label ++ ": ignored explicit argument " ++ Text.quoted value
  | unrecognized arguments => "unrecognized arguments: " ++ " ".intercalate arguments

inductive Token where
  | argument (text : String)
  | option (switch : Switch)
  | assigned (switch : Switch) (value : String)
  /-- `-h` with a text behind it, whether `=` stands between them or not. -/
  | cluster (letters : String)
  | unknown (text : String)
  deriving DecidableEq, Repr

namespace Token

/-- A minus sign and digits, perhaps with a point before the last of them. A line feed at the end
does not count. -/
def isNegativeNumber : List Char → Bool
  | '-' :: text =>
    let digits := if text.getLast? == some '\n' then text.dropLast else text
    match digits.dropWhile Text.isDecimalDigit with
    | [] => !digits.isEmpty
    | '.' :: fraction => !fraction.isEmpty && fraction.all Text.isDecimalDigit
    | _ => false
  | _ => false

def assignment (text : String) : String × Option String :=
  let chars := text.toList
  match chars.dropWhile (· != '=') with
  | [] => (text, none)
  | _ :: value => (String.ofList (chars.takeWhile (· != '=')), some (String.ofList value))

def ofSwitch (switch : Switch) : Option String → Token
  | none => .option switch
  | some value => .assigned switch value

def ofOther (text : String) : Token :=
  if isNegativeNumber text.toList || text.toList.contains ' ' then .argument text
  else .unknown text

def candidates (start : String) : List (String × Switch) :=
  Switch.spellings.filter fun spelling => start.toList.isPrefixOf spelling.1.toList

def ofAbbreviation (text : String) : Except UsageError Token :=
  let (start, value) := assignment text
  match candidates start with
  | [] => .ok (ofOther text)
  | [(_, switch)] => .ok (ofSwitch switch value)
  | several => .error (.ambiguous text (several.map Prod.fst))

def read (text : String) : Except UsageError Token :=
  match text.toList with
  | '-' :: second :: rest =>
    let (start, value) := assignment text
    match Switch.spellings.lookup text with
    | some switch => .ok (.option switch)
    | none =>
      if second = '-' then
        match Switch.spellings.lookup start with
        | some switch => .ok (ofSwitch switch value)
        | none => ofAbbreviation text
      else if second = 'h' then
        .ok (.cluster (if start = "-h" then value.getD "" else String.ofList rest))
      else .ok (ofOther text)
  | _ => .ok (.argument text)

/-- The value that is left over behind letters which all mean help. Where there are no letters, the
value is empty. -/
def leftOver? (letters : List Char) : Option (List Char) :=
  match letters.dropWhile (· == 'h') with
  | [] => if letters.isEmpty then some [] else none
  | rest => some rest

end Token

inductive Refusal where
  | helpWanted
  | usage (error : UsageError)
  deriving DecidableEq, Repr

namespace Options

def mark : String :=
  "--"

def set (options : Options) (switch : Switch) (value : Option String) : Options :=
  match switch with
  | .help => options
  | .entry => { options with entry := value }
  | .list => { options with list := true }
  | .json => { options with json := true }
  | .backend => { options with backend := value }
  | .linkEnd => { options with linkEnd := true }
  | .logLevel => { options with logLevel := value }

structure Reading where
  options : Options
  /-- Whether the argument before was taken for the path. -/
  pathLast : Bool
  extras : List String

def Reading.argument (reading : Reading) (text : String) : Reading :=
  match reading.options.path with
  | none => { reading with options := { reading.options with path := some text }, pathLast := true }
  | some _ => { reading with extras := reading.extras ++ [text], pathLast := false }

def Reading.set (reading : Reading) (switch : Switch) (value : Option String) : Reading :=
  { reading with options := reading.options.set switch value, pathLast := false }

/-- A switch that takes a value takes it from the next argument, unless one is attached. Attaching
the mark takes back what was set before. -/
def readTokens (reading : Reading) : List Token → Except Refusal Reading
  | [] => .ok reading
  | .argument text :: tokens => readTokens (reading.argument text) tokens
  | .unknown text :: tokens =>
    readTokens { reading with extras := reading.extras ++ [text], pathLast := false } tokens
  | .cluster letters :: _ =>
    match Token.leftOver? letters.toList with
    | some value => .error (.usage (.valueIgnored .help (String.ofList value)))
    | none => .error .helpWanted
  | .assigned switch value :: tokens =>
    if switch.takesValue then
      readTokens (reading.set switch (if value = mark then none else some value)) tokens
    else .error (.usage (.valueIgnored switch value))
  | .option switch :: tokens =>
    if switch = .help then .error .helpWanted
    else if switch.takesValue then
      match tokens with
      | .argument value :: tokens => readTokens (reading.set switch (some value)) tokens
      | _ => .error (.usage (.valueExpected switch))
    else readTokens (reading.set switch none) tokens

/-- What stands after `--`. The mark itself belongs to the path, before it or behind it; where it
has no path to belong to, it is an argument too many. -/
def Reading.afterMark (reading : Reading) (arguments : List String) : Reading :=
  match reading.options.path, arguments with
  | none, [] => reading
  | none, path :: rest =>
    { reading with
      options := { reading.options with path := some path }
      extras := reading.extras ++ rest }
  | some _, _ =>
    let marks := if reading.pathLast then [] else [mark]
    { reading with extras := reading.extras ++ marks ++ arguments }

def parse (arguments : List String) : Except Refusal Options := do
  let front := arguments.takeWhile (· != mark)
  let tokens ← match front.mapM Token.read with
    | .ok tokens => .ok tokens
    | .error error => .error (.usage error)
  let reading ← readTokens ⟨{}, false, []⟩ tokens
  let reading := match arguments.dropWhile (· != mark) with
    | [] => reading
    | _ :: rest => reading.afterMark rest
  if reading.extras.isEmpty then return reading.options
  else throw (.usage (.unrecognized reading.extras))

end Options
end MethodFlow
