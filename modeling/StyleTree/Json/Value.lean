import StyleTree.Decimal.Double

namespace StyleTree

inductive Json.Number where
  | natural (n : Nat)
  | negative (n : Nat)
  | double (negative : Bool) (magnitude : Decimal.Double)
  deriving DecidableEq, Inhabited

inductive Json where
  | null
  | bool (b : Bool)
  | number (n : Json.Number)
  | string (s : String)
  | array (items : List Json)
  | object (members : List (String × Json))
  deriving Inhabited

end StyleTree
