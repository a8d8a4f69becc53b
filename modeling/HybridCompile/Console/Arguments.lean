/-!
# HybridCompile — command arguments

A command line is a list of words. Options have a long name and may have a letter; letters may
stand together behind one dash, and a value may follow its option in the same word or in the next.
A word that begins with a dash is never taken as the value of the option before it.

* `OptionSpec` — an option that a command knows.
* `Given` — an option as it was given.
* `readOptions` — read options up to the first other word.
-/

namespace HybridCompile.Console

/-- How an option is given. -/
inductive OptionKind where
  /-- Without a value, once. -/
  | flag
  /-- Without a value, any number of times. -/
  | counted
  /-- With a path that is not empty, once. -/
  | path
  /-- With names between commas, any number of times. -/
  | names
  /-- It asks for help. -/
  | help
  /-- It asks for the version. -/
  | version
  deriving DecidableEq, Repr

/-- An option that a command knows. -/
structure OptionSpec where
  long : String
  letter : Option Char
  kind : OptionKind
  deriving DecidableEq, Repr

def OptionSpec.takesValue (o : OptionSpec) : Bool := o.kind == .path || o.kind == .names

/-- An option as it was given: its long name and its value, if it takes one. -/
structure Given where
  long : String
  value : Option String
  deriving DecidableEq, Repr

/-- Why there is no command to run. -/
inductive Refusal where
  /-- The words are no command. -/
  | usage
  /-- Help was asked for. -/
  | help
  /-- The version was asked for. -/
  | version
  deriving DecidableEq, Repr

/-- Add an option to those given. Some may be given only once, and a path is not empty. -/
def addGiven (given : List Given) (o : OptionSpec) (value : Option String) :
    Except Refusal (List Given) :=
  let again := given.any fun g => g.long == o.long
  match o.kind with
  | .help => .error .help
  | .version => .error .version
  | .counted => .ok (given ++ [⟨o.long, none⟩])
  | .names => .ok (given ++ [⟨o.long, value⟩])
  | .flag => if again then .error .usage else .ok (given ++ [⟨o.long, none⟩])
  | .path =>
    if again || value = some "" then .error .usage else .ok (given ++ [⟨o.long, value⟩])

/-- The options given by letters behind one dash, and the option that still waits for its value. -/
def readLetters (specs : List OptionSpec) (given : List Given) :
    List Char → Except Refusal (List Given × Option OptionSpec)
  | [] => .ok (given, none)
  | c :: rest =>
    match specs.find? fun o => o.letter == some c with
    | none => .error .usage
    | some o =>
      if o.takesValue then
        -- What follows the letter is the value, with or without an equals sign.
        match rest with
        | [] => .ok (given, some o)
        | '=' :: value => (addGiven given o (some (String.ofList value))).map (·, none)
        | value => (addGiven given o (some (String.ofList value))).map (·, none)
      else
        match addGiven given o none with
        | .error e => .error e
        | .ok given => readLetters specs given rest

/-- The option given by its long name, with a value behind an equals sign or without, or the option
that still waits for its value. -/
def readLong (specs : List OptionSpec) (given : List Given) (word : List Char) :
    Except Refusal (List Given × Option OptionSpec) :=
  let name := String.ofList (word.takeWhile (· != '='))
  match specs.find? fun o => o.long == name with
  | none => .error .usage
  | some o =>
    match word.dropWhile (· != '='), o.takesValue with
    | [], false => (addGiven given o none).map (·, none)
    | [], true => .ok (given, some o)
    | _ :: value, true => (addGiven given o (some (String.ofList value))).map (·, none)
    | _ :: _, false => .error .usage

/-- What a word is. -/
inductive Word where
  /-- Two dashes: no option follows. -/
  | escape
  | long (text : List Char)
  | letters (text : List Char)
  | plain (text : String)

/-- What a word is. A dash alone is a plain word. -/
def Word.of (word : String) : Word :=
  match word.toList with
  | ['-', '-'] => .escape
  | '-' :: '-' :: text => .long text
  | ['-'] => .plain word
  | '-' :: text => .letters text
  | _ => .plain word

/-- Read options up to the first other word; `waiting` is the option whose value comes next. The
options, and the words that are left. -/
def readOptions (specs : List OptionSpec) (given : List Given) (waiting : Option OptionSpec) :
    List String → Except Refusal (List Given × List String)
  | [] => if waiting.isSome then .error .usage else .ok (given, [])
  | word :: rest =>
    match Word.of word, waiting with
    | .plain value, some o =>
      match addGiven given o (some value) with
      | .error e => .error e
      | .ok given => readOptions specs given none rest
    | .plain _, none => .ok (given, word :: rest)
    | .escape, none => if rest.isEmpty then .ok (given, []) else .error .usage
    | .long text, none =>
      match readLong specs given text with
      | .error e => .error e
      | .ok (given, waiting) => readOptions specs given waiting rest
    | .letters text, none =>
      match readLetters specs given text with
      | .error e => .error e
      | .ok (given, waiting) => readOptions specs given waiting rest
    -- The value is missing: this word begins with a dash.
    | _, some _ => .error .usage

/-- The value of an option that is given at most once. -/
def valueOf (given : List Given) (long : String) : Option String :=
  (given.find? fun g => g.long == long).bind Given.value

/-- The names of all values of an option, split at commas. -/
def namesOf (given : List Given) (long : String) : List String :=
  (given.filter fun g => g.long == long).flatMap fun g =>
    match g.value with
    | some value => (value.toList.splitOn ',').map String.ofList
    | none => []

def isGiven (given : List Given) (long : String) : Bool :=
  given.any fun g => g.long == long

end HybridCompile.Console
