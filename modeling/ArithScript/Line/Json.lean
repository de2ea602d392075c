import ArithScript.Line.Basic
import ArithScript.Text.Quoted

/-!
# Lines as JSON

The compact JSON text of a line: an object of its kind, target, body and flag,
in this order and without spaces. Symbols and bodies are objects of one field
that names the variant. As quoted texts hold no control characters, neither does
the JSON text, and it is a single line of output.
-/

namespace ArithScript

def jsonField (key value : String) : String := "\x7b" ++ Text.quoted key ++ ":" ++ value ++ "\x7d"

def jsonOption (text : Option String) : String := (text.map Text.quoted).getD "null"

def Reference.json (reference : Reference) : String :=
  "\x7b\"name\":" ++ Text.quoted reference.name ++ ",\"value\":" ++ jsonOption reference.value ++
    "\x7d"

def Symbol.json : Symbol → String
  | number value => jsonField "Number" value.jsonText
  | operator token => jsonField "Operator" (Text.quoted token)
  | scalar reference => jsonField "Variable" reference.json
  | element reference => jsonField "Element" reference.json

def Form.bodyJson : Form → String
  | plain symbols | scalarAssign _ symbols =>
    jsonField "Tokens" ("[" ++ ",".intercalate (symbols.map Symbol.json) ++ "]")
  | arrayAssign _ payload => jsonField "Payload" (Text.quoted payload)
  | call _ argument => jsonField "Payload" (Text.quoted argument)

def Line.json (line : Line) : String :=
  "\x7b\"kind\":" ++ Text.quoted line.form.kind ++ ",\"target\":" ++
    jsonOption line.form.target? ++ ",\"body\":" ++ line.form.bodyJson ++ ",\"resolved\":" ++
    (if line.resolved then "true" else "false") ++ "\x7d"

end ArithScript
