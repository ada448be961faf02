import Mathlib.Algebra.Group.Int.Defs
import Mathlib.Data.List.Basic

/-!
# Documents as yaml-cpp loads and reads them

`YAML::Load` and the scalar conversions belong to yaml-cpp.  A document is the
node tree it loads, and `YamlReader` is the part of the library that turns a
scalar into an `int`, a `bool` or a string.
-/

namespace IncEmulation

inductive YamlNode where
  | null
  | scalar (text : String)
  | sequence (items : List YamlNode)
  | map (entries : List (String × YamlNode))

/-- The conversions `as<T>`; `none` where they do not apply. -/
structure YamlReader where
  asInt : YamlNode → Option Int
  asBool : YamlNode → Option Bool
  asString : YamlNode → Option String

namespace YamlNode

/-- `node[key]` throws on a scalar. -/
def subscriptThrows : YamlNode → Bool
  | .scalar _ => true
  | _ => false

/-- `node[key]` elsewhere; `none` is the undefined node. -/
def get (node : YamlNode) (key : String) : Option YamlNode :=
  match node with
  | .map entries => (entries.find? fun entry => entry.1 = key).map Prod.snd
  | _ => none

/-- The items of a sequence node; `none` when `IsSequence()` is false. -/
def items? : Option YamlNode → Option (List YamlNode)
  | some (.sequence items) => some items
  | _ => none

end YamlNode

namespace YamlNode

/-- The nodes yaml-cpp builds from an `int`, a `bool` and a string. -/
def ofInt (value : Int) : YamlNode := .scalar (toString value)

def ofBool (value : Bool) : YamlNode :=
  .scalar (if value then "true" else "false")

def ofString (value : String) : YamlNode := .scalar value

end YamlNode

/-- Whether a value fits into a C `int`. -/
def FitsInt (value : Int) : Prop := -2 ^ 31 ≤ value ∧ value < 2 ^ 31

/-- The conversions read back what the library writes. -/
structure YamlReader.Reads (reader : YamlReader) : Prop where
  asInt : ∀ value, FitsInt value →
    reader.asInt (.ofInt value) = some value
  asBool : ∀ value, reader.asBool (.ofBool value) = some value
  asString : ∀ value, reader.asString (.ofString value) = some value

namespace YamlReader

variable (reader : YamlReader)

/-- `node[key].as<T>(fallback)`. -/
def intField (node : YamlNode) (key : String) (fallback : Int) : Int :=
  ((node.get key).bind reader.asInt).getD fallback

def boolField (node : YamlNode) (key : String) (fallback : Bool) : Bool :=
  ((node.get key).bind reader.asBool).getD fallback

def stringField (node : YamlNode) (key : String) (fallback : String) :
    String :=
  ((node.get key).bind reader.asString).getD fallback

end YamlReader

end IncEmulation
