/-!
# Outlines

Reference model of the layout of the tree listing of `Driver.compile`.

An outline shows a nested value over several lines, each level four blanks further in.

* `Outline` — a word, a name with parts in parentheses, or a name with labelled parts in braces.
* `Outline.lines` — every part on lines of its own, ended by a comma.
-/

set_option autoImplicit false

namespace Cmm

/-- The outline of a nested value. -/
inductive Outline where
  | word (text : String)
  | group (name : String) (parts : List Outline)
  | record (name : String) (parts : List (String × Outline))

namespace Outline

/-- Puts a label in front of the first line and a comma behind the last, and moves all in. -/
def part (label : String) : List String → List String
  | [] => []
  | [line] => ["    " ++ label ++ line ++ ","]
  | line :: rest =>
    ("    " ++ label ++ line) :: (rest.dropLast.map ("    " ++ ·)) ++
      ["    " ++ rest.getLast?.getD "" ++ ","]

mutual

/-- The lines of an outline. -/
def lines : Outline → List String
  | .word text => [text]
  | .group name parts => (name ++ "(") :: groupLines parts ++ [")"]
  | .record name parts => (name ++ " \x7b") :: recordLines parts ++ ["\x7d"]

/-- The lines of the parts of a group. -/
def groupLines : List Outline → List String
  | [] => []
  | o :: rest => part "" o.lines ++ groupLines rest

/-- The lines of the parts of a record. -/
def recordLines : List (String × Outline) → List String
  | [] => []
  | (label, o) :: rest => part (label ++ ": ") o.lines ++ recordLines rest

end

/-- The text of an outline, without a newline at its end. -/
def text (o : Outline) : String := "\n".intercalate o.lines

/-- The outline of a number. -/
def nat (n : Nat) : Outline := .word (toString n)

end Outline

end Cmm
