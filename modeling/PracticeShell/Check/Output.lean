import PracticeShell.Check.Observation
import PracticeShell.Text.Lines
import PracticeShell.Text.Replace

/-!
# Checks of what is printed

These checks look at the text a command has printed, output and errors together, and at their
parameters.
-/

namespace PracticeShell.Check

/-- Whether a text holds one of some parts. -/
def holdsAny (text : String) (parts : List String) : Bool := parts.any (Text.Replace.contains text)

/-- Whether a text tells of an error. -/
def tellsError (text : String) : Bool :=
  ["error", "cannot", "failed", "not found", "permission denied", "no such file"].any
    (Text.Case.contains text)

/-- Whether a text holds more than blanks. -/
def isFilled (text : String) : Bool := !Text.Blank.isBlankText text

/-- Whether a text holds all values of a list when case is ignored. -/
def checkContains (text : String) (params : Json) : Bool :=
  let lowered := Text.Case.lower text
  params.asList.all fun v => Text.Replace.contains lowered (Text.Case.lower v.plainText)

/-- Whether a text is an absolute path without unusual characters. -/
def checkPath (text : String) : Bool :=
  match (Text.Blank.trim text).toList with
  | '/' :: c :: rest =>
    (c :: rest).all fun c => Text.Letter.isWord c || c == '-' || c == '/'
  | _ => false

/-- The number of lines that hold more than blanks. -/
def filledLines (text : String) : List String := (Text.Lines.fields text).filter isFilled

/-- Whether a session on another machine is told of. -/
def checkConnected (text : String) : Bool :=
  holdsAny text ["Connected to", "connection established"] ||
    (Text.Replace.contains text "ssh" &&
      !holdsAny text ["connection refused", "No route to host"])

/-- Whether a finished transfer is told of. -/
def checkTransferred (text : String) : Bool :=
  holdsAny text ["100%", "uploaded", "transferred"] && !holdsAny text ["error", "failed"]

/-- Whether one of two words is in a text, or the parameter is. -/
def checkMoved (words : List String) (text : String) (params : Json) : Bool :=
  holdsAny text words || (params.isTruthy && Text.Replace.contains text params.plainText)

/-- What follows the first place where a part is found, when case is ignored, with at least one more
character on the line. -/
def valueAfter? (part : List Char) : List Char → Option (List Char)
  | [] => none
  | c :: cs =>
    match Text.Case.afterStart? part (c :: cs) with
    | some (d :: rest) =>
      if d = '\n' then valueAfter? part cs else some ((d :: rest).takeWhile (· ≠ '\n'))
    | _ => valueAfter? part cs

/-- Whether a variable is shown, with a value if the parameters give one. -/
def checkVariable (text : String) (params : Json) : Option Bool := do
  let name ← (← params.require? "name").string?
  match valueAfter? (name.toList ++ ['=']) text.toList with
  | none => return false
  | some value =>
    match params.get? "value" with
    | some wanted =>
      if wanted.isTruthy then
        return wanted.string? == some (Text.Blank.trim (String.ofList value))
      else return true
    | none => return true

/-- Whether a text has a part and, after it on the same line, another part. -/
def isFollowed (part later : List Char) : List Char → Bool
  | [] => false
  | c :: cs =>
    (part.isPrefixOf (c :: cs) &&
      Text.Replace.occursIn later (((c :: cs).drop part.length).takeWhile (· ≠ '\n'))) ||
      isFollowed part later cs

/-- Whether a variable is shown as exported. -/
def checkExported (text : String) (params : Json) : Option Bool := do
  let name := if params.isTruthy then params.plainText else ""
  if holdsAny text ["declare -x " ++ name ++ "=", "export " ++ name ++ "="] then return true
  if params.isTruthy && params.string?.isNone then none
  return isFollowed (name.toList ++ ['=']) "[exported]".toList text.toList

/-- Whether a line starts with the assignment of a variable in capitals. -/
def isAssignment (line : String) : Bool :=
  let isStart := fun c => ('A' ≤ c && c ≤ 'Z') || c == '_'
  match line.toList with
  | c :: rest =>
    isStart c &&
      (rest.dropWhile fun c => isStart c || Text.Letter.isAsciiDigit c).head? == some '='
  | [] => false

/-- Whether a text is a list of variables. -/
def checkEnvOutput (text : String) : Bool :=
  let lines := filledLines text
  !lines.isEmpty && lines.all isAssignment

/-- A number of the form of an internet address. -/
def addressPattern : String :=
  let part := "\\d\x7b1,3\x7d"
  "\\.".intercalate [part, part, part, part]

/-- Whether an internet address is in a text, and the parameter if there is one. -/
def checkResolved (text : String) (params : Json) : Bool :=
  hasMatch addressPattern text && (!params.isTruthy || Text.Replace.contains text params.plainText)

/-- Whether a value is a pattern that matches somewhere in a text. -/
def checkPattern (text : String) (pattern : Json) : Option Bool := do
  matches? (← pattern.string?) text

/-- Whether each value of a list is in some line. -/
def checkListing (text : String) (params : Json) : Bool :=
  let lines := Text.Lines.fields text
  params.asList.all fun name => lines.any fun line => Text.Replace.contains line name.plainText

/-- Runs a check of what is printed; nothing if it is no such check. The inner nothing says that the
parameters have no meaning. -/
def runOutput? (c : Check) (text : String) (params : Json) : Option (Option Bool) :=
  let is := fun (b : Bool) => some (some b)
  match c with
  | .contains => is (checkContains text params)
  | .notEmpty => is (isFilled text)
  | .isEmpty => is (!isFilled text)
  | .hasError => is (tellsError text)
  | .noError => is (!tellsError text)
  | .grepFound => is (isFilled text && !Text.Replace.contains text "No such file")
  | .validPath => is (checkPath text)
  | .validFlag => is (hasMatch "FLAG\\\x7b[A-Z0-9_]+\\\x7d" text)
  | .lineCount => some (Json.withinBounds? (filledLines text).length params)
  | .wordCount => some (Json.withinBounds? (Text.Blank.words text).length params)
  | .sudoExecuted => is (!holdsAny text
      ["sudo: command not found", "not in the sudoers file", "incorrect password"])
  | .sudoPasswordPrompt => is (holdsAny text ["[sudo] password", "Password:", "Enter password"])
  | .sshConnected => is (checkConnected text)
  | .sshFailed => is (holdsAny text
      ["connection refused", "Connection refused", "No route to host",
        "Host key verification failed"])
  | .scpSuccess => is (checkTransferred text)
  | .scpToRemote => is (checkMoved ["uploaded", "copied to"] text params)
  | .scpFromRemote => is (checkMoved ["downloaded", "copied from"] text params)
  | .envVarSet => some (checkVariable text params)
  | .envVarExported => some (checkExported text params)
  | .validEnvOutput => is (checkEnvOutput text)
  | .redirectionSuccess => is (holdsAny text ["Output redirected", "redirected to"] ||
      !isFilled text)
  | .heredocCaptured => is (holdsAny text ["Heredoc input captured", "lines"] || !isFilled text)
  | .pingSuccess => is (holdsAny text ["bytes from", "packets transmitted", "0% packet loss"] &&
      !holdsAny text ["100% packet loss", "Network unreachable"])
  | .pingFailed => is (holdsAny text
      ["100% packet loss", "Network unreachable", "Destination Host Unreachable",
        "Name or service not known"])
  | .httpSuccess => is (text ≠ "" && !holdsAny text ["error", "failed"])
  | .netstatListening => is (holdsAny text ["LISTEN", "tcp", "udp"])
  | .digResolved => is (checkResolved text params)
  | .networkInterfaces => is (holdsAny text ["eth0", "wlan0", "lo", "inet ", "inet6"] &&
      !Text.Replace.contains text "not found")
  | .matchesPattern => some (checkPattern text params)
  | .matchesAllPatterns => some (all? (checkPattern text) params.asList)
  | .matchesAnyPattern => some (any? (checkPattern text) params.asList)
  | .containsIp => is (hasMatch addressPattern text)
  | .containsDomain => is (hasMatch "[a-zA-Z0-9-]+\\.[a-zA-Z]\x7b2,\x7d" text)
  | .containsTimestamp => is (hasMatch
      "\\d\x7b4\x7d-\\d\x7b2\x7d-\\d\x7b2\x7d|\\d\x7b2\x7d:\\d\x7b2\x7d:\\d\x7b2\x7d" text)
  | .containsFilePath => is (hasMatch "/[\\w\\-./]+" text)
  | .commandSuccess => is (!tellsError text && isFilled text)
  | .listingContainsFile => is (checkListing text params)
  | .lessUsed => is (text ≠ "")
  | _ => none

end PracticeShell.Check
