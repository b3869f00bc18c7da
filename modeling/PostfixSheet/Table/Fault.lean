import PostfixSheet.Cell.Address
import PostfixSheet.Table.Document

/-! What stops the evaluation of a table. A formula that fails does not. -/

namespace PostfixSheet

inductive Fault
  | io (text : String)
  | undecodable (field : UndecodableField)
  | badOutput (error : Utf8Error)
  | address (error : AddressError)

def UndecodableField.reason (error : UndecodableField) : String :=
  "invalid utf-8: invalid UTF-8 in field " ++ toString error.field ++ " near byte index " ++
    toString error.validLength

def UndecodableField.message (error : UndecodableField) : String :=
  "CSV parse error: record " ++ toString error.record ++ " (line " ++ toString error.line ++
    ", field: " ++ toString error.field ++ ", byte: " ++ toString error.byte ++ "): " ++ error.reason

def Fault.message : Fault → String
  | .io text => "IO error: " ++ text
  | .undecodable field => "CSV error: " ++ field.message
  | .badOutput error => "Output is not valid UTF-8: " ++ error.message
  | .address error => "Core error: " ++ error.message

def Fault.messages (fault : Fault) : List String :=
  fault.message ::
    match fault with
    | .io text => [text]
    | .undecodable field => [field.message, field.reason]
    | .badOutput error => [error.message]
    | .address error => [error.message]

end PostfixSheet
