import OnePass.CType.Layout

/-! # Types as text -/
namespace OnePass

def IntRank.keyword : IntRank → String
  | .bool => "_Bool"
  | .char => "char"
  | .short => "short"
  | .int => "int"
  | .long => "long"

def FloatRank.keyword : FloatRank → String
  | .float => "float"
  | .double => "double"
  | .longDouble => "long double"

namespace CType

def structText (structs : Array StructDef) (id : StructId) : String :=
  match structs[id]? with
  | none => "struct"
  | some sd =>
    (if sd.isUnion then "union" else "struct") ++
      if sd.tag.isAnonymous then "" else " " ++ sd.tag.text

mutual

/-- A type as diagnostics show it; each derivation stands behind what it is made of. -/
def text (structs : Array StructDef) : CType → String
  | .void q => constText q ++ "void"
  | .int rank unsigned q =>
    constText q ++ (if unsigned && rank != .bool then "unsigned " else "") ++ rank.keyword
  | .float rank q => constText q ++ rank.keyword
  | .pointer target q => constText q ++ text structs target ++ " *"
  | .array elem length q =>
    constText q ++ text structs elem ++
      match length with
      | some n => "[" ++ toString n.toNat ++ "]"
      | none => "[]"
  | .func result params info q =>
    constText q ++ text structs result ++ " (" ++ ", ".intercalate (texts structs params) ++
      (if info.variadic then ", ..." else "") ++ ")"
  | .struct id q => constText q ++ structText structs id

def texts (structs : Array StructDef) : List CType → List String
  | [] => []
  | ty :: rest => text structs ty :: texts structs rest

def constText (q : Quals) : String := if q.isConst then "const " else ""

end

end CType
end OnePass
