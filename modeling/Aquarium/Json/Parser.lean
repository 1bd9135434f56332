import Aquarium.Json.Token

/-!
# From tokens to a value

The value of a text is built by going through its tokens once. What has been read so far is a
`Place`: the arrays and objects that are open around the next value, with their finished items.
What may come next is a `State`. Where the tokens do not go on as they must, the value is closed
as it stands, cut at that place.

Main function: `Json.read`, the value a text starts with and whether anything follows it.
-/

namespace Aquarium

namespace Json

/-- What is open around a value under way. Items and members are kept last first. -/
inductive Place where
  | top
  | item (above : Place) (items : List Json)
  | member (above : Place) (members : List (Option String × Json)) (key : Option String)

/-- What may come next. -/
inductive State where
  /-- A value. -/
  | value (place : Place)
  /-- A value, or the end of an empty array. -/
  | firstItem (above : Place)
  /-- A comma and a value, or the end of the array. -/
  | afterItem (above : Place) (items : List Json)
  /-- A key, or the end of an empty object. -/
  | firstKey (above : Place)
  /-- A key. -/
  | nextKey (above : Place) (members : List (Option String × Json))
  /-- A colon and the value of a key. -/
  | afterKey (above : Place) (members : List (Option String × Json)) (key : Option String)
  /-- A comma and a key, or the end of the object. -/
  | afterMember (above : Place) (members : List (Option String × Json))
  /-- Nothing: the value is complete. -/
  | complete (value : Json)

/-- Puts a finished value in its place. -/
def Place.fill : Place → Json → State
  | .top, v => .complete v
  | .item above items, v => .afterItem above (v :: items)
  | .member above members key, v => .afterMember above ((key, v) :: members)

/-- The value around a value where the text breaks off. -/
def Place.cutAround : Place → Json → Json
  | .top, v => v
  | .item above items, v => above.cutAround (.array (v :: items).reverse .cut)
  | .member above members key, v => above.cutAround (.object ((key, v) :: members).reverse .cut)

/-- The value if the text breaks off here. -/
def State.cutHere : State → Json
  | .value place => place.cutAround .cut
  | .firstItem above => above.cutAround (.array [] .cut)
  | .afterItem above items => above.cutAround (.array items.reverse .cut)
  | .firstKey above => above.cutAround (.object [] .cut)
  | .nextKey above members => above.cutAround (.object members.reverse .cut)
  | .afterKey above members key => (Place.member above members key).cutAround .cut
  | .afterMember above members => above.cutAround (.object members.reverse .cut)
  | .complete v => v

/-- The state behind a token with which a value starts. -/
def Place.start? (place : Place) : Token → Option State
  | .openArray => some (.firstItem place)
  | .openObject => some (.firstKey place)
  | .null => some (place.fill .null)
  | .bool b => some (place.fill (.bool b))
  | .number n => some (place.fill (.number n))
  | .string s => some (place.fill (.string s))
  | _ => none

/-- The state behind a token, if the token may come next. -/
def State.next? : State → Token → Option State
  | .value place, t => place.start? t
  | .firstItem above, .closeArray => some (above.fill (.array [] .closed))
  | .firstItem above, t => (Place.item above []).start? t
  | .afterItem above items, .comma => some (.value (.item above items))
  | .afterItem above items, .closeArray => some (above.fill (.array items.reverse .closed))
  | .firstKey above, .closeObject => some (above.fill (.object [] .closed))
  | .firstKey above, .string key => some (.afterKey above [] key)
  | .nextKey above members, .string key => some (.afterKey above members key)
  | .afterKey above members key, .colon => some (.value (.member above members key))
  | .afterMember above members, .comma => some (.nextKey above members)
  | .afterMember above members, .closeObject =>
    some (above.fill (.object members.reverse .closed))
  | _, _ => none

/-- The value that a list of tokens starts with, and whether tokens follow it. -/
def build : State → List Token → Json × Bool
  | s, [] => (s.cutHere, false)
  | .complete v, _ :: _ => (v, true)
  | s, t :: ts =>
    match s.next? t with
    | some s => build s ts
    | none => (s.cutHere, false)

/-- The value that a text starts with, and whether anything follows it. -/
def read (s : String) : Json × Bool := build (.value .top) (Token.read s.toList)

end Json

end Aquarium
