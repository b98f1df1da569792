import WhileLang.Text.Quoted

/-!
# Arguments of the command line

The words of a command line are options, the name of a file, and a separator `--` behind
which nothing is an option.  A long option may be abbreviated as far as it stays
unambiguous, short options may share a word, and an option takes its value from the
same word behind `=` or from the next one.

Words are first sorted one by one (`Word.ofString`) and then read from the left
(`Settings.read`).  The first fault from the left is the one reported; words that have
no place are reported last, all together.
-/

namespace WhileLang.CommandLine

/-- A form in which a program can be printed instead of being run. -/
inductive Form where
  | ast
  | analysis
  | source
  deriving DecidableEq

def Form.ofName? : String → Option Form
  | "ast" => some .ast
  | "analysis" => some .analysis
  | "source" => some .source
  | _ => none

inductive Switch where
  | help
  | emit
  | unchecked
  | verbose
  deriving DecidableEq

namespace Switch

def long : Switch → String
  | .help => "--help"
  | .emit => "--emit"
  | .unchecked => "--unchecked"
  | .verbose => "--verbose"

/-- How messages name an option. -/
def title : Switch → String
  | .help => "-h/--help"
  | .emit => "--emit"
  | .unchecked => "--unchecked"
  | .verbose => "-v/--verbose"

def ofLetter? : Char → Option Switch
  | 'h' => some .help
  | 'v' => some .verbose
  | _ => none

/-- All options, in the order in which messages list them. -/
def all : List Switch := [.help, .emit, .unchecked, .verbose]

def startingWith (text : String) : List Switch :=
  all.filter fun s => text.toList.isPrefixOf s.long.toList

end Switch

inductive UsageError where
  | ambiguous (word : String) (options : List Switch)
  | ignoredValue (option : Switch) (value : String)
  | missingValue (option : Switch)
  | badForm (value : String)
  | unrecognized (words : List String)
  deriving DecidableEq

def UsageError.message : UsageError → String
  | .ambiguous word options =>
    "ambiguous option: " ++ word ++ " could match " ++ ", ".intercalate (options.map Switch.long)
  | .ignoredValue option value =>
    "argument " ++ option.title ++ ": ignored explicit argument " ++ quoted value
  | .missingValue option => "argument " ++ option.title ++ ": expected one argument"
  | .badForm value =>
    "argument --emit: invalid choice: " ++ quoted value
      ++ " (choose from 'ast', 'analysis', 'source')"
  | .unrecognized words => "unrecognized arguments: " ++ " ".intercalate words

/-- A sorted word of a command line. -/
inductive Word where
  /-- A word that is no option. -/
  | plain (text : String)
  /-- The word `--`. -/
  | separator
  /-- A long option with the value in the same word. -/
  | long (option : Switch) (value : Option String)
  /-- The letters of a word of short options. -/
  | short (option : Switch) (more : Option String)
  /-- A word that looks like an option and is none. -/
  | unknown (text : String)
  deriving DecidableEq

/-- The code points of the zeros in Unicode 14, in ascending order.  Every script with decimal
digits has ten of them in a row, from its zero on. -/
def zeros : List Nat :=
  [0x30, 0x660, 0x6f0, 0x7c0, 0x966, 0x9e6, 0xa66, 0xae6, 0xb66, 0xbe6, 0xc66, 0xce6, 0xd66, 0xde6,
    0xe50, 0xed0, 0xf20, 0x1040, 0x1090, 0x17e0, 0x1810, 0x1946, 0x19d0, 0x1a80, 0x1a90, 0x1b50,
    0x1bb0, 0x1c40, 0x1c50, 0xa620, 0xa8d0, 0xa900, 0xa9d0, 0xa9f0, 0xaa50, 0xabf0, 0xff10,
    0x104a0, 0x10d30, 0x11066, 0x110f0, 0x11136, 0x111d0, 0x112f0, 0x11450, 0x114d0, 0x11650,
    0x116c0, 0x11730, 0x118e0, 0x11950, 0x11c50, 0x11d50, 0x11da0, 0x16a60, 0x16ac0, 0x16b50,
    0x1d7ce, 0x1d7d8, 0x1d7e2, 0x1d7ec, 0x1d7f6, 0x1e140, 0x1e2f0, 0x1e950, 0x1fbf0]

def isDecimalDigit (c : Char) : Bool := zeros.any fun z => z ≤ c.toNat && c.toNat < z + 10

namespace Word

/-- Whether a text is a negative number: digits of any script with at most one point, which
has a digit behind it.  A line feed may follow the number. -/
def isNegativeNumber : List Char → Bool
  | '-' :: cs =>
    let number := if cs.getLast? = some '\n' then cs.dropLast else cs
    match number.dropWhile isDecimalDigit with
    | [] => !number.isEmpty
    | '.' :: digits => !digits.isEmpty && digits.all isDecimalDigit
    | _ => false
  | _ => false

/-- What a word is that looks like an option and names none. -/
def other (text : String) : Word :=
  if isNegativeNumber text.toList || text.toList.contains ' ' then .plain text else .unknown text

/-- What a word is in front of any separator. -/
def ofString (text : String) : Except UsageError Word :=
  match text.toList with
  | ['-', '-'] => .ok .separator
  | '-' :: '-' :: cs =>
    let name := "--" ++ String.ofList (cs.takeWhile (· != '='))
    let value := match cs.dropWhile (· != '=') with
      | _ :: v => some (String.ofList v)
      | [] => none
    match Switch.startingWith name with
    | [option] => .ok (.long option value)
    | [] => .ok (other text)
    | options => .error (.ambiguous text options)
  | ['-', c] =>
    match Switch.ofLetter? c with
    | some option => .ok (.short option none)
    | none => .ok (other text)
  | '-' :: c :: more =>
    match Switch.ofLetter? c with
    | some option =>
      let value := if more.head? = some '=' then more.drop 1 else more
      .ok (.short option (some (String.ofList value)))
    | none => .ok (other text)
  | _ => .ok (.plain text)

def ofStrings : List String → Except UsageError (List Word)
  | [] => .ok []
  | text :: rest =>
    match ofString text with
    | .error e => .error e
    | .ok .separator => .ok (.separator :: rest.map .plain)
    | .ok word => (ofStrings rest).map (word :: ·)

end Word

structure Settings where
  file : Option String
  emit : Option Form
  unchecked : Bool
  verbosity : Nat
  deriving DecidableEq

inductive Refusal where
  /-- The user asks how to use the program. -/
  | help
  | usage (e : UsageError)
  deriving DecidableEq

namespace Settings

def default : Settings := ⟨none, none, false, 0⟩

/-- The options of a word of short options; all of them must exist before any takes effect. -/
def cluster (option : Switch) : List Char → Except UsageError (List Switch)
  | [] => .ok [option]
  | c :: more =>
    match Switch.ofLetter? c with
    | some next => (cluster next more).map (option :: ·)
    | none => .error (.ignoredValue option (String.ofList (c :: more)))

/-- The settings after options that have no value, from the left. -/
def flags (s : Settings) : List Switch → Except Refusal Settings
  | [] => .ok s
  | .help :: _ => .error .help
  | .emit :: _ => .error (.usage (.missingValue .emit))
  | .unchecked :: rest => flags { s with unchecked := true } rest
  | .verbose :: rest => flags { s with verbosity := s.verbosity + 1 } rest

/-- The settings after a form has been chosen.  The value `--` stands for no form. -/
def choose (s : Settings) (value : String) : Except Refusal Settings :=
  match Form.ofName? value with
  | some form => .ok { s with emit := some form }
  | none => if value = "--" then .ok { s with emit := none } else .error (.usage (.badForm value))

def withValue (s : Settings) (option : Switch) (value : String) : Except Refusal Settings :=
  if option = .emit then s.choose value else .error (.usage (.ignoredValue option value))

def withCluster (s : Settings) (option : Switch) (more : Option String) : Except Refusal Settings :=
  match more with
  | none => s.flags [option]
  | some "" => .error (.usage (.ignoredValue option ""))
  | some letters =>
    match cluster option letters.toList with
    | .ok options => s.flags options
    | .error e => .error (.usage e)

/-- Reads words from the left.  `taken` tells whether a file name can still come, `extra`
holds the words without a place, the last one first. -/
def read (s : Settings) (taken : Bool) (extra : List String) :
    List Word → Except Refusal Settings
  | [] =>
    if extra.isEmpty then .ok s else .error (.usage (.unrecognized extra.reverse))
  | .plain text :: .separator :: rest =>
    if taken then read s true ("--" :: text :: extra) rest
    else read { s with file := some text } true extra rest
  | .plain text :: rest =>
    if taken then read s true (text :: extra) rest
    else read { s with file := some text } true extra rest
  | .separator :: .plain text :: rest =>
    if taken then read s true (text :: "--" :: extra) rest
    else read { s with file := some text } true extra rest
  | .separator :: rest =>
    if taken then read s true ("--" :: extra) rest
    else read s taken extra rest
  | .long .emit none :: .plain value :: rest =>
    match s.choose value with
    | .ok s => read s taken extra rest
    | .error e => .error e
  | .long option none :: rest =>
    match s.flags [option] with
    | .ok s => read s taken extra rest
    | .error e => .error e
  | .long option (some value) :: rest =>
    match s.withValue option value with
    | .ok s => read s taken extra rest
    | .error e => .error e
  | .short option more :: rest =>
    match s.withCluster option more with
    | .ok s => read s taken extra rest
    | .error e => .error e
  | .unknown text :: rest => read s taken (text :: extra) rest

def ofArguments (arguments : List String) : Except Refusal Settings :=
  match Word.ofStrings arguments with
  | .error e => .error (.usage e)
  | .ok words => default.read false [] words

end Settings

end WhileLang.CommandLine
