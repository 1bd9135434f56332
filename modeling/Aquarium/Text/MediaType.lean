/-!
# Media types

A media type is a type and a subtype with a slash between them; the subtype may end in a suffix
behind its last plus sign, and parameters may follow, each behind a semicolon. What matters here is
whether a type announces JSON.
-/

namespace Aquarium

/-- The part of a media type before its parameters, in lower case. -/
structure MediaType where
  type : List Char
  subtype : List Char
  suffix : Option (List Char)
  deriving DecidableEq, Repr

namespace MediaType

/-- The characters of a token. -/
def isToken (c : Char) : Bool := c.isAlphanum || "!#$%&'*+-.^_\x60|~".toList.contains c

/-- The characters between quotes, a closing quote apart. -/
def isQuotable (c : Char) : Bool := 32 ≤ c.toNat && c.toNat < 127

/-- Where one stands among the parameters. -/
inductive ParameterState where
  /-- Behind a semicolon or blanks that follow it. -/
  | start
  /-- In a name. -/
  | name
  /-- Behind the equals sign. -/
  | valueStart
  /-- In a value without quotes. -/
  | value
  /-- Behind the opening quote; a quote here is part of the value. -/
  | quoteStart
  /-- In a value between quotes. -/
  | quoted
  /-- Behind the closing quote. -/
  | closed
  deriving DecidableEq, Repr

/-- The state behind a character, if it may stand there. -/
def ParameterState.next? : ParameterState → Char → Option ParameterState
  | .start, c => if c = ' ' then some .start else if isToken c then some .name else none
  | .name, c => if c = '=' then some .valueStart else if isToken c then some .name else none
  | .valueStart, c =>
    if c = '"' then some .quoteStart else if isToken c then some .value else none
  | .value, c => if c = ';' then some .start else if isToken c then some .value else none
  | .quoteStart, c => if isQuotable c then some .quoted else none
  | .quoted, c => if c = '"' then some .closed else if isQuotable c then some .quoted else none
  | .closed, c => if c = ';' then some .start else if c = ' ' then some .closed else none

/-- Parameters may end here. -/
def ParameterState.mayEnd : ParameterState → Bool
  | .start | .valueStart | .value | .closed => true
  | .name | .quoteStart | .quoted => false

/-- What follows a semicolon is well formed. -/
def parametersOk : ParameterState → List Char → Bool
  | s, [] => s.mayEnd
  | s, c :: cs =>
    match s.next? c with
    | some s => parametersOk s cs
    | none => false

/-- A subtype apart from its suffix, which starts behind the last plus sign that is not its first
character. -/
def splitSuffix (cs : List Char) : List Char × Option (List Char) :=
  let tail := cs.reverse.takeWhile (· ≠ '+')
  if tail.length + 1 < cs.length then
    (cs.take (cs.length - tail.length - 1), some (cs.drop (cs.length - tail.length)))
  else (cs, none)

/-- The media type a text gives, if it is well formed. -/
def read? (s : String) : Option MediaType :=
  let cs := s.toList
  let type := cs.takeWhile isToken
  match cs.drop type.length with
  | '/' :: rest =>
    let subtype := rest.takeWhile isToken
    let (main, suffix) := splitSuffix (subtype.map Char.toLower)
    let found : MediaType := ⟨type.map Char.toLower, main, suffix⟩
    if type.isEmpty then none
    else
      match rest.drop subtype.length with
      | [] => some found
      | ';' :: parameters =>
        if !subtype.isEmpty && parametersOk .start parameters then some found else none
      | _ => none
  | _ => none

/-- The media type is JSON or built on it. -/
def isJson (m : MediaType) : Bool :=
  m.type == "application".toList
    && (m.subtype == "json".toList || m.suffix == some "json".toList)

end MediaType

/-- A content type announces JSON. -/
def announcesJson (contentType : Option String) : Bool :=
  (contentType.bind MediaType.read?).any MediaType.isJson

example : announcesJson (some "Application/JSON") = true := by decide
example : announcesJson (some "application/problem+json; a=\"b c\" ; d=e") = true := by decide
example : announcesJson (some "application/json ;a=b") = false := by decide
example : announcesJson none = false := by decide

end Aquarium
