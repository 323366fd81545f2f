/-!
# TOML values

A table keeps its entries in the order in which they were written. Dates and
times are kept as text; nothing computes with them.
-/

namespace Shaderwright.Toml

inductive Value where
  | string (s : String)
  | integer (n : Int)
  | float (x : Float)
  | boolean (b : Bool)
  | datetime (text : String)
  | array (items : List Value)
  | table (entries : List (String × Value))
deriving Repr, Inhabited

end Shaderwright.Toml
