import PartScript.Number.Basic
import PartScript.Span
import PartScript.Text.Quoted

/-!
Tokens: the words of a script. A token has a kind, which holds the value of a number, string or
name, the text it was read from, and the span of that text.
-/

namespace PartScript

/-- The reserved words. -/
inductive Keyword where
  | constWord | letWord | varWord | fnWord | returnWord | trueWord | falseWord
  deriving DecidableEq, Repr

/-- Operators and punctuation. -/
inductive Symbol where
  | plus | minus | star | slash | percent | bang | pipe
  | assign | lparen | rparen | lbracket | rbracket | lbrace | rbrace
  | comma | colon | dot | arrow
  deriving DecidableEq, Repr

namespace Keyword

/-- The reserved words in their usual order. -/
def all : List Keyword :=
  [.constWord, .letWord, .varWord, .fnWord, .returnWord, .trueWord, .falseWord]

/-- The spelling of a reserved word. -/
def text : Keyword → String
  | .constWord => "const"
  | .letWord => "let"
  | .varWord => "var"
  | .fnWord => "fn"
  | .returnWord => "return"
  | .trueWord => "true"
  | .falseWord => "false"

/-- The reserved word with a spelling. -/
def ofText? (s : String) : Option Keyword := all.find? fun k => k.text == s

/-- The name of a reserved word in listings. -/
def name : Keyword → String
  | .constWord => "CONST"
  | .letWord => "LET"
  | .varWord => "VAR"
  | .fnWord => "FN"
  | .returnWord => "RETURN"
  | .trueWord => "TRUE"
  | .falseWord => "FALSE"

/-- Does the word start a declaration? -/
def declares : Keyword → Bool
  | .constWord | .letWord | .varWord | .fnWord => true
  | _ => false

end Keyword

namespace Symbol

/-- The symbols in their usual order. -/
def all : List Symbol :=
  [.plus, .minus, .star, .slash, .percent, .bang, .pipe, .assign, .lparen, .rparen, .lbracket,
    .rbracket, .lbrace, .rbrace, .comma, .colon, .dot, .arrow]

/-- The spelling of a symbol. -/
def text : Symbol → String
  | .plus => "+"
  | .minus => "-"
  | .star => "*"
  | .slash => "/"
  | .percent => "%"
  | .bang => "!"
  | .pipe => "|>"
  | .assign => "="
  | .lparen => "("
  | .rparen => ")"
  | .lbracket => "["
  | .rbracket => "]"
  | .lbrace => "\x7b"
  | .rbrace => "\x7d"
  | .comma => ","
  | .colon => ":"
  | .dot => "."
  | .arrow => "=>"

/-- The name of a symbol in listings. -/
def name : Symbol → String
  | .plus => "PLUS"
  | .minus => "MINUS"
  | .star => "STAR"
  | .slash => "SLASH"
  | .percent => "PERCENT"
  | .bang => "BANG"
  | .pipe => "PIPE"
  | .assign => "ASSIGN"
  | .lparen => "LPAREN"
  | .rparen => "RPAREN"
  | .lbracket => "LBRACKET"
  | .rbracket => "RBRACKET"
  | .lbrace => "LBRACE"
  | .rbrace => "RBRACE"
  | .comma => "COMMA"
  | .colon => "COLON"
  | .dot => "DOT"
  | .arrow => "ARROW"

/-- Is the symbol an operator rather than punctuation? -/
def isOperator : Symbol → Bool
  | .plus | .minus | .star | .slash | .percent | .bang | .pipe => true
  | _ => false

/-- The symbol that a single character spells. -/
def ofChar? : Char → Option Symbol
  | '+' => some .plus
  | '-' => some .minus
  | '*' => some .star
  | '/' => some .slash
  | '%' => some .percent
  | '!' => some .bang
  | '=' => some .assign
  | '(' => some .lparen
  | ')' => some .rparen
  | '[' => some .lbracket
  | ']' => some .rbracket
  | '\x7b' => some .lbrace
  | '\x7d' => some .rbrace
  | ',' => some .comma
  | ':' => some .colon
  | '.' => some .dot
  | _ => none

/-- The symbol that two characters spell together. -/
def ofPair? : Char → Char → Option Symbol
  | '=', '>' => some .arrow
  | '|', '>' => some .pipe
  | _, _ => none

end Symbol

/-- What sort of token it is, without any value. -/
inductive TokenClass where
  | number
  | string
  | identifier
  | keyword (word : Keyword)
  | symbol (mark : Symbol)
  | finish
  deriving DecidableEq, Repr

namespace TokenClass

/-- All classes. -/
def all : List TokenClass :=
  [.number, .string, .identifier] ++ Keyword.all.map .keyword ++ Symbol.all.map .symbol ++ [.finish]

/-- The name of a class in listings. -/
def name : TokenClass → String
  | .number => "NUMBER"
  | .string => "STRING"
  | .identifier => "IDENTIFIER"
  | .keyword word => word.name
  | .symbol mark => mark.name
  | .finish => "EOF"

/-- The class with a name. -/
def ofName? (s : String) : Option TokenClass := all.find? fun c => c.name == s

/-- The broad group of a class. -/
def group : TokenClass → String
  | .number => "number"
  | .string => "string"
  | .identifier => "identifier"
  | .keyword _ => "keyword"
  | .symbol mark => if mark.isOperator then "operator" else "punctuation"
  | .finish => "eof"

/-- The words for a class in messages. -/
def describe : TokenClass → String
  | .number => "number"
  | .string => "string"
  | .identifier => "identifier"
  | .keyword word => "'" ++ word.text ++ "'"
  | .symbol mark => "'" ++ mark.text ++ "'"
  | .finish => "end of input"

end TokenClass

/-- What a token is, with its value. -/
inductive TokenKind where
  | number (value : Number)
  | string (value : String)
  | identifier (name : String)
  | keyword (word : Keyword)
  | symbol (mark : Symbol)
  | finish
  deriving DecidableEq

/-- The class of a kind. -/
def TokenKind.toClass : TokenKind → TokenClass
  | .number _ => .number
  | .string _ => .string
  | .identifier _ => .identifier
  | .keyword word => .keyword word
  | .symbol mark => .symbol mark
  | .finish => .finish

/-- A token of a script. -/
structure Token where
  kind : TokenKind
  lexeme : String
  span : Span
  deriving DecidableEq

/-- The token as shown in listings: names, numbers and strings with their value. -/
def Token.text (t : Token) : String :=
  match t.kind with
  | .number n => "NUMBER(" ++ n.text ++ ")"
  | .string s => "STRING(" ++ Text.quoted s ++ ")"
  | .identifier name => "IDENTIFIER(" ++ Text.quoted name ++ ")"
  | kind => kind.toClass.name

/-- Is the token a given symbol? -/
def Token.isSymbol (t : Token) (mark : Symbol) : Bool := t.kind == .symbol mark

end PartScript
