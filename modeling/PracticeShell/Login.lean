import PracticeShell.Text.Utf8

/-!
# Logging in

A `Login` is what is known of a client that connects to the server: who has logged in, how often a
password was wrong, and the size of the client's terminal. If a password is set, it has to be given;
any user name will do.
-/

namespace PracticeShell

/-- The terminal of a client. -/
structure TerminalInfo where
  kind : String
  width : Int
  height : Int
deriving DecidableEq, Repr

namespace TerminalInfo

/-- The height that is taken where none is given. -/
def defaultHeight : Int := 24

/-- A height, or the default one for zero. -/
def heightOr (height : Int) : Int := if height = 0 then defaultHeight else height

/-- The terminal of a client that has said nothing about it. -/
def unknown : TerminalInfo := ⟨"xterm", 80, defaultHeight⟩

end TerminalInfo

/-- What is known of a client. -/
structure Login where
  password : String
  username : Option String
  failures : Nat
  terminal : TerminalInfo
deriving DecidableEq, Repr

namespace Login

/-- A client that has just connected. -/
def start (password : String) : Login := ⟨password, none, 0, .unknown⟩

/-- Whether a password lets a client in. -/
def accepts (l : Login) (password : String) : Bool := l.password = "" || password = l.password

/-- Takes a user name and a password. The answer is whether the client is let in. -/
def authenticate (username password : String) (l : Login) : Bool × Login :=
  if l.accepts password then (true, { l with username := some username })
  else (false, { l with failures := l.failures + 1 })

/-- Whether a channel of a kind may be opened. -/
def opensChannel (kind : String) : Bool := kind = "session"

/-- How a client may log in. -/
def allowed : String := "password"

/-- Takes the kind and the size of the client's terminal. -/
def requestTerminal (kind : String) (width height : Int) (l : Login) : Login :=
  { l with terminal := ⟨kind, width, TerminalInfo.heightOr height⟩ }

/-- Takes a new size of the client's terminal. -/
def resize (width height : Int) (l : Login) : Login :=
  { l with terminal := { l.terminal with width, height := TerminalInfo.heightOr height } }

end Login

end PracticeShell
