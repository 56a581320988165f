import Cmm.Token
import Cmm.Proofs.Ebnf

/-!
# The language of programs

* `Sentence.productions` — the grammar of the language, over the kinds of tokens.
* `Sentence.words` — the language of a production. `words_expression` and its like write it out.
* `arguments`, `condition`, `header`, `variableList` — languages of parts that occur more than once.
-/

set_option autoImplicit false

namespace Cmm.Sentence

open Ebnf Computability

/-- The names of the productions. -/
inductive Nonterminal where
  | program
  | declaration
  | base
  | variable
  | parameters
  | statement
  | assignment
  | expression
  | primary

/-- A word of the language that stands for itself. -/
def word (keyword : Keyword) : Ebnf Nonterminal Kind := token (.keyword keyword)

/-- An operator or a delimiter. -/
def mark (punct : Punct) : Ebnf Nonterminal Kind := token (.punct punct)

/-- A name. -/
def name : Ebnf Nonterminal Kind := token .identifier

/-- One or more parts with commas between them. -/
def listOf (n : Nonterminal) : Ebnf Nonterminal Kind := separated (.punct .comma) (rule n)

/-- The marks of the unary operators. -/
def unaryMarks : List Kind := [.punct .minus, .punct .bang]

/-- The marks of the twelve binary operators. -/
def binaryMarks : List Kind :=
  [.plus, .minus, .star, .slash, .equalEqual, .bangEqual, .lessEqual, .less, .greaterEqual,
    .greater, .andAnd, .orOr].map .punct

/-- The constants. -/
def constants : List Kind := [.intLiteral, .charLiteral, .stringLiteral]

/-- The words of the base types. -/
def bases : List Kind := [.int, .char, .void].map .typeWord

/-- The grammar of the language. -/
def productions : Nonterminal → Ebnf Nonterminal Kind
  | .program => many (rule .declaration)
  | .declaration =>
    rule .base ++ (listOf .variable ++ mark .semicolon) |||
    option (word .external) ++ (rule .base ++
      (separated (.punct .comma)
          (name ++ (mark .leftParen ++ (rule .parameters ++ mark .rightParen))) ++
        mark .semicolon)) |||
    rule .base ++ (name ++ (mark .leftParen ++ (rule .parameters ++ (mark .rightParen ++
      (mark .leftBrace ++ (many (rule .base ++ (listOf .variable ++ mark .semicolon)) ++
        (many (rule .statement) ++ mark .rightBrace)))))))
  | .base => oneOf bases
  | .variable => name ++ option (mark .leftBracket ++ (token .intLiteral ++ mark .rightBracket))
  | .parameters =>
    empty |||
    token (.typeWord .void) |||
    separated (.punct .comma)
      (rule .base ++ (name ++ option (mark .leftBracket ++ mark .rightBracket)))
  | .statement =>
    word .ifWord ++ (mark .leftParen ++ (rule .expression ++ (mark .rightParen ++
      (rule .statement ++ option (word .elseWord ++ rule .statement))))) |||
    word .whileWord ++ (mark .leftParen ++ (rule .expression ++ (mark .rightParen ++
      rule .statement))) |||
    word .forWord ++ (mark .leftParen ++ (option (rule .assignment) ++ (mark .semicolon ++
      (option (rule .expression) ++ (mark .semicolon ++ (option (rule .assignment) ++
        (mark .rightParen ++ rule .statement))))))) |||
    word .returnWord ++ (option (rule .expression) ++ mark .semicolon) |||
    rule .assignment ++ mark .semicolon |||
    name ++ (mark .leftParen ++ (option (listOf .expression) ++ (mark .rightParen ++
      mark .semicolon))) |||
    mark .leftBrace ++ (many (rule .statement) ++ mark .rightBrace) |||
    mark .semicolon
  | .assignment =>
    name ++ (option (mark .leftBracket ++ (rule .expression ++ mark .rightBracket)) ++
      (mark .equal ++ rule .expression))
  | .expression =>
    rule .primary |||
    oneOf unaryMarks ++ rule .expression |||
    rule .expression ++ (oneOf binaryMarks ++ rule .expression)
  | .primary =>
    name |||
    name ++ (mark .leftParen ++ (option (listOf .expression) ++ mark .rightParen)) |||
    name ++ (mark .leftBracket ++ (rule .expression ++ mark .rightBracket)) |||
    mark .leftParen ++ (rule .expression ++ mark .rightParen) |||
    oneOf constants

/-- The words of a production. -/
def words (n : Nonterminal) : Language Kind := language productions (rule n)

/-! ## The productions as languages -/

/-- The language of an operator or a delimiter. -/
abbrev punct (mark : Punct) : Language Kind := letter (.punct mark)

/-- The language of a reserved word. -/
abbrev keyword (word : Keyword) : Language Kind := letter (.keyword word)

/-- One or more parts with commas between them. -/
def list (l : Language Kind) : Language Kind := l * (punct .comma * l)∗

/-- The arguments of a call, with their parentheses. -/
def arguments : Language Kind :=
  punct .leftParen * ((list (words .expression) + 1) * punct .rightParen)

/-- A condition in parentheses. -/
def condition : Language Kind :=
  punct .leftParen * (words .expression * punct .rightParen)

/-- An index in brackets. -/
def index : Language Kind := punct .leftBracket * (words .expression * punct .rightBracket)

/-- A function header. -/
def header : Language Kind :=
  letter .identifier * (punct .leftParen * (words .parameters * punct .rightParen))

/-- What can stand behind the name of a variable. -/
def size : Language Kind := punct .leftBracket * (letter .intLiteral * punct .rightBracket) + 1

/-- The variables of a declaration, with the semicolon. -/
def variableList : Language Kind := list (words .variable) * punct .semicolon

/-- A parameter. -/
def parameter : Language Kind :=
  words .base * (letter .identifier * (punct .leftBracket * punct .rightBracket + 1))

/-- What stands between the braces of a function. -/
def body : Language Kind := (words .base * variableList)∗ * (words .statement)∗

/-- What stands in front of the body of a for loop. -/
def clauses : Language Kind :=
  punct .leftParen * ((words .assignment + 1) * (punct .semicolon *
    ((words .expression + 1) * (punct .semicolon * ((words .assignment + 1) *
      punct .rightParen)))))

/-- The statements that end in a semicolon or a brace of their own. -/
def simple : Language Kind :=
  keyword .returnWord * ((words .expression + 1) * punct .semicolon) +
  words .assignment * punct .semicolon +
  letter .identifier * (arguments * punct .semicolon) +
  punct .leftBrace * ((words .statement)∗ * punct .rightBrace) +
  punct .semicolon

theorem words_eq (n : Nonterminal) : words n = language productions (productions n) :=
  language_rule n

theorem words_program : words .program = (words .declaration)∗ := by
  refine (words_eq _).trans ?_
  rw [productions, language_many]
  rfl

theorem words_base : words .base = letters bases := by
  rw [words_eq, productions, language_oneOf]

theorem words_variable : words .variable = letter .identifier * size := by
  refine (words_eq _).trans ?_
  rw [productions]
  simp only [name, mark, language_seq, language_option, language_token, size]

/-- The variables of a declaration, with the first name in front. -/
theorem variableList_eq : variableList =
    letter .identifier * (size * ((punct .comma * words .variable)∗ * punct .semicolon)) := by
  unfold variableList list
  rw [mul_assoc, ← mul_assoc (letter _), words_variable]

theorem words_parameters :
    words .parameters = 1 + letter (.typeWord .void) + list parameter := by
  refine (words_eq _).trans ?_
  rw [productions]
  simp only [name, mark, language_seq, language_alt, language_option, language_token,
    language_empty, language_separated]
  rfl

theorem words_declaration : words .declaration =
    words .base * variableList +
    (keyword .external + 1) * (words .base * (list header * punct .semicolon)) +
    words .base * (header * (punct .leftBrace * (body * punct .rightBrace))) := by
  refine (words_eq _).trans ?_
  rw [productions]
  simp only [name, mark, word, listOf, language_seq, language_alt, language_option,
    language_token, language_many, language_separated, variableList, header, body, list, words,
    mul_assoc]

theorem words_statement : words .statement =
    keyword .ifWord * (condition * (words .statement *
      (keyword .elseWord * words .statement + 1))) +
    keyword .whileWord * (condition * words .statement) +
    keyword .forWord * (clauses * words .statement) +
    simple := by
  refine (words_eq _).trans ?_
  rw [productions]
  simp only [name, mark, word, listOf, language_seq, language_alt, language_option,
    language_token, language_many, language_separated, simple, condition, clauses, arguments,
    list, words, mul_assoc, add_assoc]

theorem words_assignment : words .assignment =
    letter .identifier * ((index + 1) * (punct .equal * words .expression)) := by
  refine (words_eq _).trans ?_
  rw [productions]
  simp only [name, mark, language_seq, language_option, language_token]
  rfl

theorem words_expression : words .expression =
    words .primary + letters unaryMarks * words .expression +
    words .expression * (letters binaryMarks * words .expression) := by
  refine (words_eq _).trans ?_
  rw [productions]
  simp only [language_seq, language_alt, language_oneOf]
  rfl

theorem words_primary : words .primary =
    letter .identifier + letter .identifier * arguments + letter .identifier * index +
    condition + letters constants := by
  refine (words_eq _).trans ?_
  rw [productions]
  simp only [name, mark, listOf, language_seq, language_alt, language_option, language_token,
    language_separated, language_oneOf]
  rfl

/-- The primaries that begin with a name, told apart by what stands behind it. -/
theorem words_primary_named : words .primary =
    letter .identifier * (arguments + index + 1) + condition + letters constants := by
  rw [words_primary, mul_add, mul_add, mul_one, add_rotate (letter _)]

end Cmm.Sentence
