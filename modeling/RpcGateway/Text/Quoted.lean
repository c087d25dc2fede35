import RpcGateway.Text.Hidden

/-!
Text shown in double quotes, as in messages and listings. The quote, the backslash and the common
controls have short escapes; hidden characters are written by their code point.
-/
namespace RpcGateway.Text

/-- A number in lower-case hexadecimal without leading zeros. -/
def hexadecimal (n : Nat) : String := String.ofList (Nat.toDigits 16 n)

def quoteChar : Char → String
  | '\x00' => "\\0"
  | '\t' => "\\t"
  | '\r' => "\\r"
  | '\n' => "\\n"
  | '\\' => "\\\\"
  | '"' => "\\\""
  | c => if isHidden c then "\\u\x7b" ++ hexadecimal c.toNat ++ "\x7d" else c.toString

/-- A text in double quotes. -/
def quoted (s : String) : String := "\"" ++ String.join (s.toList.map quoteChar) ++ "\""

/-- A list of texts in brackets, each in quotes. -/
def quotedList (ss : List String) : String := "[" ++ ", ".intercalate (ss.map quoted) ++ "]"

end RpcGateway.Text
