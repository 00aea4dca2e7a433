import Switchboard.Schema.Basic

namespace Switchboard.Catalogue

def i64 : Ty := .int .i64

def u64 : Ty := .int .u64

def textMap (item : Ty) : Ty := .map .text item

def counted : Ty :=
  .record "driver::types::Counted" .skipped (.cons "characterCount" .required i64 .nil)

def inlineInput : Ty :=
  .record "driver::types::InlineInput" .skipped (.cons "string" .omitted (.option .text) .nil)

def inlineOutput : Ty :=
  .record "driver::types::InlineOutput" .skipped (.cons "characterCount" .omitted (.option i64) .nil)

def strict : Ty :=
  .record "driver::types::Strict" .refused
    (.cons "a" .required i64 (.cons "b" .nullable (.option .text) .nil))

def shape : Ty :=
  .choice "driver::types::Shape"
    (.bare "Dot"
      (.holding "Circle" i64
        (.holding "Rect" (.pair i64 .text)
          (.holding "Named"
            (.record "driver::types::Named" .skipped
              (.cons "a" .required i64 (.cons "b" .nullable (.option .bool) .nil)))
            .nil))))

def order : Ty :=
  .record "driver::types::Order" .skipped
    (.cons "orderId" .required u64
      (.cons "tags" .required (.list .text)
        (.cons "total" .required (.float .double)
          (.cons "note" .nullable (.option .text)
            (.cons "shape" .required shape
              (.cons "sizes" .required (.map (.int .u32) .text)
                (.cons "child" .defaulted (.option counted) .nil)))))))

def failInput : Ty :=
  .record "driver::types::FailInput" .skipped
    (.cons "how" .required .text
      (.cons "message" .required .text (.cons "causes" .defaulted (.list .text) .nil)))

def seen : Ty :=
  .record "driver::types::Seen" .skipped
    (.cons "service" .required .text
      (.cons "operation" .required .text
        (.cons "request_id" .required .text
          (.cons "headers" .required (textMap .text)
            (.cons "cancelled" .required .bool
              (.cons "option_request_id" .required .text
                (.cons "option_headers" .required (textMap .text)
                  (.cons "callback_url" .nullable (.option .text)
                    (.cons "callback_headers" .required (textMap .text)
                      (.cons "links" .required (.list (.pair .text .text)) .nil))))))))))

def rawSeen : Ty :=
  .record "driver::types::RawSeen" .skipped
    (.cons "content_type" .nullable (.option .text)
      (.cons "headers" .required (textMap .text)
        (.cons "length" .required u64 (.cons "hex" .required .text .nil))))

def named? : String → Option Ty
  | "unit" => some .unit
  | "bool" => some .bool
  | "i8" => some (.int .i8)
  | "i16" => some (.int .i16)
  | "i32" => some (.int .i32)
  | "i64" => some (.int .i64)
  | "u8" => some (.int .u8)
  | "u16" => some (.int .u16)
  | "u32" => some (.int .u32)
  | "u64" => some (.int .u64)
  | "f64" => some (.float .double)
  | "f32" => some (.float .single)
  | "char" => some .char
  | "string" => some .text
  | "bytes" => some .bytes
  | "opt_string" => some (.option .text)
  | "opt_i64" => some (.option i64)
  | "vec_i64" => some (.list i64)
  | "vec_string" => some (.list .text)
  | "vec_f64" => some (.list (.float .double))
  | "vec_opt_bool" => some (.list (.option .bool))
  | "pair" => some (.pair .text i64)
  | "map_str_i64" => some (textMap i64)
  | "map_u32_str" => some (.map (.int .u32) .text)
  | "map_i8_bool" => some (.map (.int .i8) .bool)
  | "map_bool_str" => some (.map .bool .text)
  | "map_pair_str" => some (.map .intPair .text)
  | "value" => some .document
  | "ignored" => some .ignored
  | "counted" => some counted
  | "inline_input" => some inlineInput
  | "inline_output" => some inlineOutput
  | "strict" => some strict
  | "shape" => some shape
  | "order" => some order
  | "picky" => some .guarded
  | _ => none

end Switchboard.Catalogue
