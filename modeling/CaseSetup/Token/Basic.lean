import CaseSetup.Token.Position
import CaseSetup.Value.Literal

/-! # Tokens

The words of a configuration text. A number may carry the sign that was glued to its digits, since
after an operand that sign acts as an operator. -/

namespace CaseSetup

inductive Sign
  | plus
  | minus
  deriving DecidableEq, Repr

def Sign.char : Sign → Char
  | plus => '+'
  | minus => '-'

inductive Token
  | bool (b : Bool)
  | name (s : String)
  | str (s : String)
  | int (n : Int64)
  | float (x : Float)
  | comment (s : String)
  | equals
  | minus
  | plus
  | star
  | slash
  | caret
  | comma
  | colon
  | openParen
  | closeParen
  | openBracket
  | closeBracket
  | openBrace
  | closeBrace
  deriving DecidableEq

namespace Token

/-- What a fault calls tokens of this kind. -/
def kind : Token → String
  | bool _ => "BOOLEAN"
  | name _ => "VARIABLE"
  | str _ => "STRING"
  | int _ => "INTEGER"
  | float _ => "FLOAT"
  | comment _ => "COMMENT"
  | equals => "EQUALS"
  | minus => "MINUS"
  | plus => "PLUS"
  | star => "TIMES"
  | slash => "DIVIDE"
  | caret => "POWER"
  | comma => "COMMA"
  | colon => "COLON"
  | openParen => "OPEN_PARENTHESIS"
  | closeParen => "CLOSE_PARENTHESIS"
  | openBracket => "OPEN_BRACKET"
  | closeBracket => "CLOSE_BRACKET"
  | openBrace => "OPEN_CURLY_BRACKET"
  | closeBrace => "CLOSE_CURLY_BRACKET"

/-- How a fault shows the token: names, strings and comments by their content. -/
def text : Token → String
  | bool b => toString b
  | name s | str s | comment s => s
  | int n => Literal.int n
  | float x => Literal.float x
  | equals => "="
  | minus => "-"
  | plus => "+"
  | star => "*"
  | slash => "/"
  | caret => "^"
  | comma => ","
  | colon => ":"
  | openParen => "("
  | closeParen => ")"
  | openBracket => "["
  | closeBracket => "]"
  | openBrace => "\x7b"
  | closeBrace => "\x7d"

end Token

/-- A token, the sign glued to it if it is a number, and the positions before and after it. -/
structure Located where
  token : Token
  sign : Option Sign
  start : Position
  stop : Position
  deriving DecidableEq

end CaseSetup
