import ReceiptReview.Java.Text

/-!
# JSON trees

`JsonNode`, as far as it is read by name and by position.  What is not there is a
`MissingNode`, which has no children and an empty text, so that a path through a tree never
fails.
-/

namespace Java

/-- A `JsonNode`; a number is kept as its text, and the fields of an object in their order. -/
inductive JsonNode
  | missing
  | null
  | boolean (value : Bool)
  | number (value : JString)
  | text (value : JString)
  | array (elements : List JsonNode)
  | object (fields : List (JString × JsonNode))
  deriving Repr

namespace JsonNode

/-- `get(name)`; only an object has fields. -/
def get? (node : JsonNode) (name : JString) : Option JsonNode :=
  match node with
  | object fields => (fields.find? (·.1 == name)).map Prod.snd
  | _ => none

/-- `path(name)`. -/
def path (node : JsonNode) (name : JString) : JsonNode :=
  (node.get? name).getD missing

/-- What a loop over the node passes through: the elements, or the values of the fields. -/
def elements : JsonNode → List JsonNode
  | array elements => elements
  | object fields => fields.map Prod.snd
  | _ => []

/-- `asText()`; an array and an object have no text of their own. -/
def asText : JsonNode → JString
  | null => .ofString "null"
  | boolean value => .ofString (if value then "true" else "false")
  | number value | text value => value
  | missing | array _ | object _ => []

/-- `hasNonNull(name)`. -/
def hasNonNull (node : JsonNode) (name : JString) : Bool :=
  match node.get? name with
  | none | some null => false
  | some _ => true

/-- A tree for a map with these entries. -/
def ofEntries (entries : List (String × JsonNode)) : JsonNode :=
  object (entries.map fun entry => (.ofString entry.1, entry.2))

def ofString (value : String) : JsonNode := text (.ofString value)

end JsonNode

end Java
