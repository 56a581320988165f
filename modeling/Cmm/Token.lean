import Cmm.Operator
import Cmm.Span
import Cmm.Ty

/-!
# Tokens

Reference model of `Token`, `TokenKind` with its `describe`, and `lookup_keyword`.

* `Keyword`, `Punct` — the reserved words that are not type words, and the operators and delimiters.
* `Kind` — what a token is; `Kind.describe` words it for a syntax error, `Kind.label` for a listing.
* `Kind.ofWord` — a word is a reserved word or an identifier.
* `Token` — a kind with its text and place.
-/

set_option autoImplicit false

namespace Cmm

/-- The reserved words other than the type words. -/
inductive Keyword where
  | external
  | ifWord
  | elseWord
  | whileWord
  | forWord
  | returnWord
  deriving DecidableEq, Repr

/-- Operators and delimiters. -/
inductive Punct where
  | plus
  | minus
  | star
  | slash
  | bang
  | less
  | greater
  | equal
  | equalEqual
  | bangEqual
  | lessEqual
  | greaterEqual
  | andAnd
  | orOr
  | comma
  | semicolon
  | leftParen
  | rightParen
  | leftBrace
  | rightBrace
  | leftBracket
  | rightBracket
  deriving DecidableEq, Repr

namespace Keyword

def spelling : Keyword → String
  | .external => "extern"
  | .ifWord => "if"
  | .elseWord => "else"
  | .whileWord => "while"
  | .forWord => "for"
  | .returnWord => "return"

def label : Keyword → String
  | .external => "Extern"
  | .ifWord => "If"
  | .elseWord => "Else"
  | .whileWord => "While"
  | .forWord => "For"
  | .returnWord => "Return"

end Keyword

namespace Punct

def spelling : Punct → String
  | .plus => "+"
  | .minus => "-"
  | .star => "*"
  | .slash => "/"
  | .bang => "!"
  | .less => "<"
  | .greater => ">"
  | .equal => "="
  | .equalEqual => "=="
  | .bangEqual => "!="
  | .lessEqual => "<="
  | .greaterEqual => ">="
  | .andAnd => "&&"
  | .orOr => "||"
  | .comma => ","
  | .semicolon => ";"
  | .leftParen => "("
  | .rightParen => ")"
  | .leftBrace => "\x7b"
  | .rightBrace => "\x7d"
  | .leftBracket => "["
  | .rightBracket => "]"

def label : Punct → String
  | .plus => "Plus"
  | .minus => "Minus"
  | .star => "Star"
  | .slash => "Slash"
  | .bang => "Bang"
  | .less => "Less"
  | .greater => "Greater"
  | .equal => "Equal"
  | .equalEqual => "EqualEqual"
  | .bangEqual => "BangEqual"
  | .lessEqual => "LessEqual"
  | .greaterEqual => "GreaterEqual"
  | .andAnd => "AmpersandAmpersand"
  | .orOr => "PipePipe"
  | .comma => "Comma"
  | .semicolon => "Semicolon"
  | .leftParen => "LeftParen"
  | .rightParen => "RightParen"
  | .leftBrace => "LeftBrace"
  | .rightBrace => "RightBrace"
  | .leftBracket => "LeftBracket"
  | .rightBracket => "RightBracket"

/-- The binary operator a mark stands for between two operands. -/
def binOp? : Punct → Option BinOp
  | .plus => some .add
  | .minus => some .sub
  | .star => some .mul
  | .slash => some .div
  | .equalEqual => some .eq
  | .bangEqual => some .ne
  | .lessEqual => some .le
  | .less => some .lt
  | .greaterEqual => some .ge
  | .greater => some .gt
  | .andAnd => some .and
  | .orOr => some .or
  | _ => none

/-- The unary operator a mark stands for in front of an operand. -/
def unOp? : Punct → Option UnOp
  | .minus => some .neg
  | .bang => some .not
  | _ => none

end Punct

/-- What a token is. -/
inductive Kind where
  | intLiteral
  | charLiteral
  | stringLiteral
  | identifier
  | typeWord (spec : TypeSpec)
  | keyword (word : Keyword)
  | punct (mark : Punct)
  | endOfFile
  /-- Malformed text; no scan yields it. -/
  | invalid
  deriving DecidableEq, Repr

namespace Kind

/-- The reserved words. -/
def reserved : List (String × Kind) :=
  [.int, .char, .void].map (fun spec : TypeSpec => (spec.name, typeWord spec)) ++
  [.external, .ifWord, .elseWord, .whileWord, .forWord, .returnWord].map
    (fun word : Keyword => (word.spelling, keyword word))

/-- A word is a reserved word or an identifier. -/
def ofWord (word : String) : Kind := (reserved.lookup word).getD identifier

def isTypeWord : Kind → Bool
  | .typeWord _ => true
  | _ => false

/-- How a syntax error words the kind. -/
def describe : Kind → String
  | .intLiteral => "integer constant"
  | .charLiteral => "character constant"
  | .stringLiteral => "string constant"
  | .identifier => "identifier"
  | .typeWord spec => "'" ++ spec.name ++ "'"
  | .keyword word => "'" ++ word.spelling ++ "'"
  | .punct mark => "'" ++ mark.spelling ++ "'"
  | .endOfFile => "end of file"
  | .invalid => "invalid token"

/-- The name of the kind in a token listing. -/
def label : Kind → String
  | .intLiteral => "IntLiteral"
  | .charLiteral => "CharLiteral"
  | .stringLiteral => "StringLiteral"
  | .identifier => "Identifier"
  | .typeWord .int => "Int"
  | .typeWord .char => "Char"
  | .typeWord .void => "Void"
  | .keyword word => word.label
  | .punct mark => mark.label
  | .endOfFile => "Eof"
  | .invalid => "Error"

/-- Every kind. -/
def all : List Kind :=
  [.intLiteral, .charLiteral, .stringLiteral, .identifier, .endOfFile, .invalid] ++
  [.int, .char, .void].map typeWord ++
  [.external, .ifWord, .elseWord, .whileWord, .forWord, .returnWord].map keyword ++
  [.plus, .minus, .star, .slash, .bang, .less, .greater, .equal, .equalEqual, .bangEqual,
    .lessEqual, .greaterEqual, .andAnd, .orOr, .comma, .semicolon, .leftParen, .rightParen,
    .leftBrace, .rightBrace, .leftBracket, .rightBracket].map punct

/-- The kind a listing names. -/
def ofLabel? (label : String) : Option Kind := all.find? (·.label == label)

end Kind

/-- A kind with its text and place. -/
structure Token where
  kind : Kind
  lexeme : String
  span : Span
  deriving DecidableEq, Repr

namespace Token

/-- The mark that ends every token list. -/
def endAt (offset : Nat) : Token := ⟨.endOfFile, "", ⟨offset, 0⟩⟩

/-- The token as a listing shows it. -/
def text (t : Token) : String := t.kind.label ++ "('" ++ t.lexeme ++ "')"

end Token

end Cmm
