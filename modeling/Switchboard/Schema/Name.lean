import Switchboard.Schema.Basic

namespace Switchboard

def KeyTy.typeName : KeyTy → String
  | text => "alloc::string::String"
  | int k => k.name
  | bool => "bool"
  | intPair => "(i64, i64)"

def Ty.typeName : Ty → String
  | .unit => "()"
  | .bool => "bool"
  | .int k => k.name
  | .float .single => "f32"
  | .float .double => "f64"
  | .char => "char"
  | .text => "alloc::string::String"
  | .bytes => "bytes::bytes::Bytes"
  | .option t => "core::option::Option<" ++ t.typeName ++ ">"
  | .list t => "alloc::vec::Vec<" ++ t.typeName ++ ">"
  | .pair a b => "(" ++ a.typeName ++ ", " ++ b.typeName ++ ")"
  | .map k t =>
    "alloc::collections::btree::map::BTreeMap<" ++ k.typeName ++ ", " ++ t.typeName ++ ">"
  | .document => "serde_json::value::Value"
  | .ignored => "driver::types::Ignored"
  | .guarded => "driver::types::Picky"
  | .record name _ _ => name
  | .choice name _ => name

end Switchboard
