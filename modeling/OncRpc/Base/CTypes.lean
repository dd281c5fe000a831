/-! C types as declarations write them. -/
namespace OncRpc

/-- A type that is written in C. -/
inductive CType where
  | name (s : String)
  /-- A structure, a union or an enumeration by its tag. -/
  | tag (keyword : String) (s : String)
  | pointer (target : CType)
  | array (elem : CType) (bound : String)
  /-- A structure or a union without a tag. -/
  | record (members : List (String × CType))

end OncRpc
