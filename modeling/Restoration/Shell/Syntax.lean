/-!
# Shell programs

What a shell program consists of: words, whose parts are expanded when the program runs, and
commands, which are combined by pipes, conditions and loops.
-/

namespace Restoration.Shell

mutual

/-- One part of a word. Quoted parts are not split and stand for themselves in patterns. -/
inductive Piece where
  | text (chars : List Char) (quoted : Bool)
  | parameter (name : String) (edit : Edit) (quoted : Bool)
  /-- What a command writes, without the line feeds at its end. -/
  | output (body : Command) (quoted : Bool)
  /-- The value of an arithmetic expression. -/
  | number (expression : List Piece) (quoted : Bool)

/-- What is made of the value of a parameter. -/
inductive Edit where
  | asIs
  | length
  /-- Another word if the parameter is missing, or, with `orEmpty`, also if it is empty; `keep` sets
  the parameter to it. -/
  | default (orEmpty keep : Bool) (word : List Piece)
  /-- Another word if the parameter is there. -/
  | instead (orEmpty : Bool) (word : List Piece)
  | dropStart (longest : Bool) (pattern : List Piece)
  | dropEnd (longest : Bool) (pattern : List Piece)

/-- What happens to a stream of a command. -/
inductive Redirection where
  /-- Reads standard input from a file. -/
  | input (word : List Piece)
  /-- Reads standard input from the lines below the command. -/
  | here (text : List Piece)
  /-- Writes a stream to a file. -/
  | output (stream : Nat) (append : Bool) (word : List Piece)
  /-- Makes a stream go where another one goes. -/
  | duplicate (stream : Nat) (word : List Piece)

/-- A command. -/
inductive Command where
  | simple (line : Nat) (assignments : List (String × List Piece)) (words : List (List Piece))
      (redirections : List Redirection)
  | nothing
  | sequence (first second : Command)
  | both (first second : Command)
  | either (first second : Command)
  | inverted (body : Command)
  | pipe (first second : Command)
  | branch (test yes no : Command)
  /-- Repeats the body as long as the test succeeds, or fails if `untilTrue`. -/
  | loop (untilTrue : Bool) (test body : Command)
  /-- Runs the body for every word; without a list of words for every argument. -/
  | each (name : String) (words : Option (List (List Piece))) (body : Command)
  | choose (word : List Piece) (cases : List (List (List Piece) × Command))
  /-- Runs the body with a state of its own. -/
  | subshell (body : Command)
  | redirected (line : Nat) (body : Command) (redirections : List Redirection)
  /-- Gives a name to a command. -/
  | define (name : String) (body : Command)

end

/-- A word of a program. -/
abbrev Word := List Piece

/-- A program: its commands, and the line on which it stops being a program, if it does. -/
structure Program where
  commands : List Command
  fault : Option Nat

end Restoration.Shell
