/-!
The kinds of token of Lua: its keywords, its symbols, and the kinds whose spelling is open.
-/

namespace LuaFront

inductive Keyword where
  | and_ | break_ | do_ | else_ | elseif_ | end_ | false_ | for_ | function_ | goto_ | if_ | in_
  | local_ | nil_ | not_ | or_ | repeat_ | return_ | then_ | true_ | until_ | while_
  deriving DecidableEq

namespace Keyword

def spelling : Keyword → String
  | and_ => "and" | break_ => "break" | do_ => "do" | else_ => "else" | elseif_ => "elseif"
  | end_ => "end" | false_ => "false" | for_ => "for" | function_ => "function" | goto_ => "goto"
  | if_ => "if" | in_ => "in" | local_ => "local" | nil_ => "nil" | not_ => "not" | or_ => "or"
  | repeat_ => "repeat" | return_ => "return" | then_ => "then" | true_ => "true"
  | until_ => "until" | while_ => "while"

def all : List Keyword :=
  [and_, break_, do_, else_, elseif_, end_, false_, for_, function_, goto_, if_, in_, local_, nil_,
   not_, or_, repeat_, return_, then_, true_, until_, while_]

/-- The keyword that a word spells. -/
def ofWord? (word : String) : Option Keyword := all.find? (·.spelling = word)

end Keyword

inductive Symbol where
  | plus | minus | star | slash | slashSlash | percent | caret | pound | amp | tilde | pipe
  | shl | shr | eqEq | ne | le | ge | lt | gt | dotDot
  | eq | openParen | closeParen | openBrace | closeBrace | openBracket | closeBracket
  | colonColon | semi | colon | comma | dot | dotDotDot
  deriving DecidableEq

namespace Symbol

def chars : Symbol → List Char
  | plus => ['+'] | minus => ['-'] | star => ['*'] | slash => ['/'] | slashSlash => ['/', '/']
  | percent => ['%'] | caret => ['^'] | pound => ['#'] | amp => ['&'] | tilde => ['~']
  | pipe => ['|'] | shl => ['<', '<'] | shr => ['>', '>'] | eqEq => ['=', '='] | ne => ['~', '=']
  | le => ['<', '='] | ge => ['>', '='] | lt => ['<'] | gt => ['>'] | dotDot => ['.', '.']
  | eq => ['='] | openParen => ['('] | closeParen => [')'] | openBrace => ['\x7b']
  | closeBrace => ['\x7d'] | openBracket => ['['] | closeBracket => [']']
  | colonColon => [':', ':'] | semi => [';'] | colon => [':'] | comma => [','] | dot => ['.']
  | dotDotDot => ['.', '.', '.']

def spelling (s : Symbol) : String := String.ofList s.chars

/-- Every symbol, the longer ones first. -/
def all : List Symbol :=
  [dotDotDot, dotDot, eqEq, ne, le, ge, shl, shr, slashSlash, colonColon, plus, minus, star, slash,
   percent, caret, pound, amp, tilde, pipe, lt, gt, eq, openParen, closeParen, openBrace,
   closeBrace, openBracket, closeBracket, semi, colon, comma, dot]

/-- The longest symbol at the front of a text. -/
def atFront? (cs : List Char) : Option Symbol := all.find? (·.chars.isPrefixOf cs)

end Symbol

inductive TokenKind where
  | keyword (word : Keyword)
  | symbol (sign : Symbol)
  | number
  | string
  | ident
  /-- A malformed piece of text, which the lexer has reported. -/
  | invalid
  | eof
  deriving DecidableEq

namespace TokenKind

/-- The spelling of a kind that has only one. -/
def spelling? : TokenKind → Option String
  | keyword word => some word.spelling
  | symbol sign => some sign.spelling
  | _ => none

def isKeyword : TokenKind → Bool
  | keyword _ => true
  | _ => false

/-- How a message names the kind. -/
def describe : TokenKind → String
  | keyword word => "'" ++ word.spelling ++ "'"
  | symbol sign => "'" ++ sign.spelling ++ "'"
  | number => "number"
  | string => "string literal"
  | ident => "identifier"
  | invalid => "invalid token"
  | eof => "end of input"

/-- A token that ends a block and is left for what encloses it. -/
def endsBlock : TokenKind → Bool
  | eof | keyword .end_ | keyword .else_ | keyword .elseif_ | keyword .until_ => true
  | _ => false

def canBeginExpr : TokenKind → Bool
  | ident | number | string => true
  | keyword .nil_ | keyword .true_ | keyword .false_ | keyword .function_ | keyword .not_ => true
  | symbol .dotDotDot | symbol .openBrace | symbol .openParen => true
  | symbol .minus | symbol .pound | symbol .tilde => true
  | _ => false

/-- A token that an enclosing construct or the next statement may still be waiting for. -/
def isAwaited : TokenKind → Bool
  | keyword _ | eof => true
  | symbol .closeParen | symbol .closeBracket | symbol .closeBrace => true
  | symbol .comma | symbol .semi | symbol .eq | symbol .colon | symbol .colonColon => true
  | _ => false

end TokenKind

end LuaFront
