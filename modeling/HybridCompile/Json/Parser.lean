import HybridCompile.Json.Token

/-!
# HybridCompile — reading JSON

The tokens of a text are read one by one by a machine with a stack. A frame of the stack is an
unfinished list or object with the values read for it so far, newest first; the machine's state
says what may come next. A text is a value when the machine, having read every token, stands at a
finished value with an empty stack.
-/

namespace HybridCompile.Json

/-- An unfinished list, or an unfinished object with the key whose value is being read. -/
inductive Frame where
  | items (newest : List Json)
  | members (newest : List (Literal × Json)) (key : Literal)

/-- What the machine waits for. -/
inductive State where
  /-- A value. `first` when the innermost list has just been opened and may close at once. -/
  | value (first : Bool) (stack : List Frame)
  /-- A key. `first` when the innermost object has just been opened and may close at once. -/
  | key (first : Bool) (newest : List (Literal × Json)) (stack : List Frame)
  /-- The colon after a key. -/
  | colon (key : Literal) (newest : List (Literal × Json)) (stack : List Frame)
  /-- A value is finished: what goes on in the frame around it, or the end. -/
  | finished (value : Json) (stack : List Frame)

/-- Read one token. -/
def step : State → Token → Option State
  | .value _ stack, .scalar v => some (.finished v stack)
  | .value _ stack, .openArray => some (.value true (.items [] :: stack))
  | .value _ stack, .openObject => some (.key true [] stack)
  | .value true (.items newest :: stack), .closeArray =>
    some (.finished (.array newest.reverse) stack)
  | .key _ newest stack, .scalar (.string key) => some (.colon key newest stack)
  | .key true newest stack, .closeObject => some (.finished (.object newest.reverse) stack)
  | .colon key newest stack, .colon => some (.value false (.members newest key :: stack))
  | .finished v (.items newest :: stack), .comma =>
    some (.value false (.items (v :: newest) :: stack))
  | .finished v (.items newest :: stack), .closeArray =>
    some (.finished (.array (v :: newest).reverse) stack)
  | .finished v (.members newest key :: stack), .comma =>
    some (.key false ((key, v) :: newest) stack)
  | .finished v (.members newest key :: stack), .closeObject =>
    some (.finished (.object ((key, v) :: newest).reverse) stack)
  | _, _ => none

/-- Read tokens one after another. -/
def run : State → List Token → Option State
  | state, [] => some state
  | state, token :: rest => (step state token).bind fun next => run next rest

/-- The value that a sequence of tokens spells. -/
def ofTokens? (tokens : List Token) : Option Json :=
  match run (.value false []) tokens with
  | some (.finished v []) => some v
  | _ => none

/-- The value that a text spells. -/
def parse? (text : String) : Option Json :=
  (tokens? text.toList).bind ofTokens?

end HybridCompile.Json
