/-! The kinds of token, how each is spelled, and the name it goes by in listings. -/

namespace LuaSyntax

inductive Kind where
  | kwAnd | kwBreak | kwDo | kwElse | kwElseif | kwEnd | kwFalse | kwFor | kwFunction | kwGoto
  | kwIf | kwIn | kwLocal | kwNil | kwNot | kwOr | kwRepeat | kwReturn | kwThen | kwTrue
  | kwUntil | kwWhile
  | plus | minus | star | slash | floorSlash | percent | caret | ampersand | bar | tilde
  | shiftLeft | shiftRight | equal | notEqual | less | more | lessEqual | moreEqual | hash
  | concat | assign
  | leftParen | rightParen | leftBrace | rightBrace | leftBracket | rightBracket
  | semicolon | colon | label | comma | dot | vararg
  | identifier | numeral | string
  | comment | newline | illegal | endOfInput
deriving DecidableEq

namespace Kind

def keywords : List Kind :=
  [kwAnd, kwBreak, kwDo, kwElse, kwElseif, kwEnd, kwFalse, kwFor, kwFunction, kwGoto,
    kwIf, kwIn, kwLocal, kwNil, kwNot, kwOr, kwRepeat, kwReturn, kwThen, kwTrue,
    kwUntil, kwWhile]

def symbols : List Kind :=
  [plus, minus, star, slash, floorSlash, percent, caret, ampersand, bar, tilde,
    shiftLeft, shiftRight, equal, notEqual, less, more, lessEqual, moreEqual, hash,
    concat, assign, leftParen, rightParen, leftBrace, rightBrace, leftBracket, rightBracket,
    semicolon, colon, label, comma, dot, vararg]

def all : List Kind :=
  keywords ++ symbols ++ [identifier, numeral, string, comment, newline, illegal, endOfInput]

theorem mem_all (k : Kind) : k ∈ all := by
  cases k <;> decide

/-- How the token reads in a source, or what it is called if that varies. -/
def text : Kind → String
  | kwAnd => "and"
  | kwBreak => "break"
  | kwDo => "do"
  | kwElse => "else"
  | kwElseif => "elseif"
  | kwEnd => "end"
  | kwFalse => "false"
  | kwFor => "for"
  | kwFunction => "function"
  | kwGoto => "goto"
  | kwIf => "if"
  | kwIn => "in"
  | kwLocal => "local"
  | kwNil => "nil"
  | kwNot => "not"
  | kwOr => "or"
  | kwRepeat => "repeat"
  | kwReturn => "return"
  | kwThen => "then"
  | kwTrue => "true"
  | kwUntil => "until"
  | kwWhile => "while"
  | plus => "+"
  | minus => "-"
  | star => "*"
  | slash => "/"
  | floorSlash => "//"
  | percent => "%"
  | caret => "^"
  | ampersand => "&"
  | bar => "|"
  | tilde => "~"
  | shiftLeft => "<<"
  | shiftRight => ">>"
  | equal => "=="
  | notEqual => "~="
  | less => "<"
  | more => ">"
  | lessEqual => "<="
  | moreEqual => ">="
  | hash => "#"
  | concat => ".."
  | assign => "="
  | leftParen => "("
  | rightParen => ")"
  | leftBrace => "\x7b"
  | rightBrace => "\x7d"
  | leftBracket => "["
  | rightBracket => "]"
  | semicolon => ";"
  | colon => ":"
  | label => "::"
  | comma => ","
  | dot => "."
  | vararg => "..."
  | identifier => "identifier"
  | numeral => "numeral"
  | string => "string"
  | comment => "comment"
  | newline => "newline"
  | illegal => "illegal token"
  | endOfInput => "end of input"

def name : Kind → String
  | kwAnd => "And"
  | kwBreak => "Break"
  | kwDo => "Do"
  | kwElse => "Else"
  | kwElseif => "Elseif"
  | kwEnd => "End"
  | kwFalse => "False"
  | kwFor => "For"
  | kwFunction => "Function"
  | kwGoto => "Goto"
  | kwIf => "If"
  | kwIn => "In"
  | kwLocal => "Local"
  | kwNil => "Nil"
  | kwNot => "Not"
  | kwOr => "Or"
  | kwRepeat => "Repeat"
  | kwReturn => "Return"
  | kwThen => "Then"
  | kwTrue => "True"
  | kwUntil => "Until"
  | kwWhile => "While"
  | plus => "Plus"
  | minus => "Minus"
  | star => "Asterisk"
  | slash => "Slash"
  | floorSlash => "FDiv"
  | percent => "Percentage"
  | caret => "Caret"
  | ampersand => "BAnd"
  | bar => "BOr"
  | tilde => "Tilde"
  | shiftLeft => "BLShift"
  | shiftRight => "BRShift"
  | equal => "Equal"
  | notEqual => "NotEqual"
  | less => "Less"
  | more => "More"
  | lessEqual => "LessEqual"
  | moreEqual => "MoreEqual"
  | hash => "Hashtag"
  | concat => "Concat"
  | assign => "Assign"
  | leftParen => "LParent"
  | rightParen => "RParent"
  | leftBrace => "LCurly"
  | rightBrace => "RCurly"
  | leftBracket => "LSquare"
  | rightBracket => "RSquare"
  | semicolon => "Semicolon"
  | colon => "Colon"
  | label => "Label"
  | comma => "Comma"
  | dot => "Dot"
  | vararg => "Vararg"
  | identifier => "Identifier"
  | numeral => "Numerical"
  | string => "String"
  | comment => "Comment"
  | newline => "Newline"
  | illegal => "Illegal"
  | endOfInput => "EOF"

def ofName? (s : String) : Option Kind := all.find? (·.name == s)

def isKeyword (k : Kind) : Bool := keywords.contains k

def isBlockEnd : Kind → Bool
  | kwEnd | kwElseif | kwElse | kwUntil => true
  | _ => false

def isSeparator : Kind → Bool
  | newline | semicolon => true
  | _ => false

def ofWord (word : String) : Kind := (keywords.find? (·.text == word)).getD identifier

theorem ofWord_mem (word : String) : ofWord word ∈ identifier :: keywords := by
  unfold ofWord
  cases h : keywords.find? (·.text == word) with
  | none => simp
  | some k => simp [List.mem_of_find?_eq_some h]

end Kind

end LuaSyntax
