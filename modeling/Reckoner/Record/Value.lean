import Reckoner.Decimal.Layout
import Reckoner.Text.Quoted

/-!
# Values

Data of no fixed type, as it comes from outside. A record keeps its fields in the
order in which they were given.
-/

namespace Reckoner

inductive Value
  | null
  | bool (b : Bool)
  | int (n : Int)
  | float (x : Float)
  | text (t : Text)
  | list (values : List Value)
  | record (fields : List (Text × Value))
  deriving Inhabited

abbrev Record := List (Text × Value)

def Record.get? (r : Record) (field : Text) : Option Value :=
  (r.find? fun (name, _) => name == field).map Prod.snd

namespace Value

/-! ## Values in messages -/

mutual

def render : Value → Text
  | null => "None".toList
  | bool true => "True".toList
  | bool false => "False".toList
  | int n => Text.integer n
  | float x => Text.float x
  | text t => t.quoted
  | list values => '[' :: [',', ' '].intercalate (renderAll values) ++ [']']
  | record fields => '\x7b' :: [',', ' '].intercalate (renderFields fields) ++ ['\x7d']

def renderAll : List Value → List Text
  | [] => []
  | v :: rest => v.render :: renderAll rest

def renderFields : List (Text × Value) → List Text
  | [] => []
  | (name, v) :: rest => (name.quoted ++ [':', ' '] ++ v.render) :: renderFields rest

end

end Value

end Reckoner
