/-!
# Lines

A text is broken at its line feeds.  A line feed ends a line and belongs to no line,
and with it goes the one carriage return that may stand right before it.  So a text
that ends in a line feed has no empty line after it, and a carriage return that
stands elsewhere stays in its line.
-/

namespace ManagedCode.Text

/-- The pieces between line breaks. -/
def breakLines : List Char → List (List Char)
  | [] => []
  | '\n' :: rest => [] :: breakLines rest
  | '\r' :: '\n' :: rest => [] :: breakLines rest
  | c :: rest =>
    match breakLines rest with
    | [] => [[c]]
    | line :: more => (c :: line) :: more

/-- The lines of a text, without what ends them. -/
def lines (text : String) : List String :=
  (breakLines text.toList).map String.ofList

end ManagedCode.Text
