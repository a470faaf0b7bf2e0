/-!
# Words of a command line

A command line is cut into words at blanks and tabs that are not quoted. Quotes are dropped: between
apostrophes every character stands for itself, between double quotes a backslash still protects a
double quote, a backslash and a dollar sign, and outside of quotes it protects any character. An
empty pair of quotes is a word.
-/

namespace PracticeShell.Words

/-- Cuts a line into words. `current` holds, last character first, the word being read, `started`
says whether there is one, and `quote` is the quote that is open. -/
def scan (current : List Char) (started : Bool) (quote : Option Char) :
    List Char → List (List Char)
  | [] => if started then [current.reverse] else []
  | c :: rest =>
    match quote with
    | some q =>
      if c = q then scan current started none rest
      else if c = '\\' ∧ q = '"' then
        match rest with
        | d :: more =>
          if d = '"' ∨ d = '\\' ∨ d = '$' then scan (d :: current) started quote more
          else scan (c :: current) started quote (d :: more)
        | [] => scan (c :: current) started quote []
      else scan (c :: current) started quote rest
    | none =>
      if c = '\'' ∨ c = '"' then scan current true (some c) rest
      else if c = ' ' ∨ c = '\t' then
        if started then current.reverse :: scan [] false none rest else scan [] false none rest
      else if c = '\\' then
        match rest with
        | d :: more => scan (d :: current) true none more
        | [] => scan (c :: current) true none []
      else scan (c :: current) true none rest

/-- The words of a line. -/
def split (line : String) : List String :=
  (scan [] false none line.toList).map String.ofList

end PracticeShell.Words
