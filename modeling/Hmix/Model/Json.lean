import Mathlib.Data.List.Basic

/-!
# JSON values and JSON text

The program exchanges JSON with two neighbours: `localStorage`, and the
compiler. A text is kept up to what `JSON.parse` makes of it. Text that
parses is the value it denotes, and text that does not is itself, so
`JSON.parse` of what `JSON.stringify` wrote is what was written, and of
the word `undefined`, or of nothing at all, it is a `SyntaxError`.
-/

namespace Hmix

/-- The values JSON has. A number is the rational a double stands for. -/
inductive Json where
  | null
  | bool (b : Bool)
  | num (n : Rat)
  | str (s : String)
  | arr (items : List Json)
  /-- The fields, in the order the page lists them. -/
  | obj (fields : List (String × Json))

/-- A text, up to `JSON.parse`. -/
inductive Text where
  /-- Text that parses, as the value it denotes. -/
  | json (value : Json)
  /-- Text that does not parse. -/
  | raw (text : String)

namespace Json

/-- Whether an `if` takes the value for true: `null`, `false`, `0` and the
empty string it does not, and an array or an object it always does. -/
def truthy : Json → Bool
  | null => false
  | bool b => b
  | num n => n != 0
  | str s => s != ""
  | arr _ => true
  | obj _ => true

/-- `value.name`, where the value is an object. A field that is absent is
`undefined`, and so is any field of a value of another kind. -/
def field (name : String) : Json → Option Json
  | obj fields => fields.lookup name
  | _ => none

/-- `JSON.parse`, with `none` for the `SyntaxError` it throws. -/
def parse : Text → Option Json
  | .json value => some value
  | .raw _ => none

/-- `JSON.stringify`, read where a string is expected. Of `undefined` it
returns `undefined`, which becomes the word. -/
def stringify : Option Json → Text
  | some value => .json value
  | none => .raw "undefined"

@[simp] theorem parse_stringify_some (value : Json) : parse (stringify (some value)) = some value :=
  rfl

@[simp] theorem parse_stringify_none : parse (stringify none) = none := rfl

end Json

end Hmix
