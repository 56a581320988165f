/-!
# Styled text

Reference model of the colours in the display of `Diagnostic`.

* `Style` — the colours of messages; `Style.opening` is the terminal sequence that switches one on.
* `Run` — a piece of text in one style or in none.
* `Run.render` — runs as plain text, or with every styled piece between its opening and a reset.
-/

set_option autoImplicit false

namespace Cmm

/-- The colours of messages; all but `cyan` and `blue` are bold. -/
inductive Style where
  | boldRed
  | boldGreen
  | boldBlue
  | boldCyan
  | blue
  | cyan
  deriving DecidableEq, Repr

namespace Style

/-- The parameters of the terminal sequence. -/
def parameters : Style → String
  | .boldRed => "1;31"
  | .boldGreen => "1;32"
  | .boldBlue => "1;34"
  | .boldCyan => "1;36"
  | .blue => "34"
  | .cyan => "36"

/-- The sequence that switches the style on. -/
def opening (s : Style) : String := "\x1b[" ++ s.parameters ++ "m"

/-- The sequence that switches every style off. -/
def reset : String := "\x1b[0m"

/-- Switches the style on again after every reset inside a text. -/
def resume (s : Style) : List Char → List Char
  | '\x1b' :: '[' :: '0' :: 'm' :: rest =>
    reset.toList ++ s.opening.toList ++ s.resume rest
  | c :: rest => c :: s.resume rest
  | [] => []

/-- A text between the opening of the style and a reset. -/
def paint (s : Style) (text : String) : String :=
  s.opening ++ String.ofList (s.resume text.toList) ++ reset

end Style

/-- A piece of text in one style or in none. -/
structure Run where
  style : Option Style
  text : String
  deriving DecidableEq, Repr

namespace Run

def plain (text : String) : Run := ⟨none, text⟩

def styled (style : Style) (text : String) : Run := ⟨some style, text⟩

/-- One run, with its style if there is colour. -/
def shown (colour : Bool) (r : Run) : String :=
  match r.style with
  | some style => if colour then style.paint r.text else r.text
  | none => r.text

/-- The text of several runs. -/
def render (colour : Bool) (runs : List Run) : String :=
  String.join (runs.map (shown colour))

end Run

end Cmm
