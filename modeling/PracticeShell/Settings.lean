import PracticeShell.Decimal.Reader
import PracticeShell.Path
import PracticeShell.Text.Blank

/-!
# Settings

All settings come from variables of the surroundings, and each has a value that it takes otherwise.
A value that does not have the form that a setting needs counts as not given. `Settings.ofVariables`
reads them.
-/

namespace PracticeShell

/-- Settings of the learner's shell. -/
structure ShellSettings where
  username : String
  hostname : String
  password : String
  remoteHosts : List String
  confirms : Bool
  historyLimit : Int

/-- Settings of the server that learners log in to. -/
structure ServerSettings where
  host : String
  port : Int
  hostKey : String
  banner : String
  password : String
  idleSeconds : Float

/-- Settings of the log. -/
structure LogSettings where
  level : String
  format : String
  file : Option String

/-- Settings of the server that shows counts. -/
structure MetricsSettings where
  enabled : Bool
  host : String
  port : Int

/-- Where things are kept. -/
structure Locations where
  root : String
  data : String
  adventures : String
  progress : String
  sessions : String
  adventure : String

/-- All settings. -/
structure Settings where
  shell : ShellSettings
  server : ServerSettings
  log : LogSettings
  metrics : MetricsSettings
  locations : Locations

namespace Settings

/-- What every name of a variable starts with. -/
def fullName (name : String) : String := "SHELLQUEST_" ++ name

/-- The names of all settings. -/
def names : List String :=
  ["USERNAME", "HOSTNAME", "SUDO_PASSWORD", "REMOTE_HOSTS", "CONFIRM_DESTRUCTIVE", "HISTORY_LIMIT",
    "SSH_HOST", "SSH_PORT", "HOST_KEY", "SSH_BANNER", "SSH_PASSWORD", "SSH_IDLE_TIMEOUT",
    "LOG_LEVEL", "LOG_FORMAT", "LOG_FILE", "METRICS_ENABLED", "METRICS_HOST", "METRICS_PORT",
    "ADVENTURES_DIR", "PROGRESS_DIR", "SESSIONS_DIR", "ADVENTURE"]

/-- The variables that settings are read from. -/
abbrev Variables := List (String × String)

/-- A text. -/
def text (vs : Variables) (name default : String) : String :=
  (vs.lookup (fullName name)).getD default

/-- A whole number. -/
def whole (vs : Variables) (name : String) (default : Int) : Int :=
  match vs.lookup (fullName name) with
  | none => default
  | some value => (Text.Digit.readInt value).toOption.getD default

/-- A number. -/
def number (vs : Variables) (name : String) (default : Float) : Float :=
  ((vs.lookup (fullName name)).bind Decimal.Reader.readFloat?).getD default

/-- A choice between yes and no. -/
def choice (vs : Variables) (name : String) (default : Bool) : Bool :=
  let value := Text.Case.lower (text vs name "")
  if ["true", "1", "yes", "on"].contains value then true
  else if ["false", "0", "no", "off"].contains value then false
  else default

/-- Texts with commas between them. -/
def texts (vs : Variables) (name default : String) : List String :=
  let parts := ((text vs name default).toList.splitOn ',').map String.ofList
  (parts.map Text.Blank.trim).filter (· ≠ "")

/-- A path. -/
def path (vs : Variables) (name default : String) : String := Path.tidy (text vs name default)

/-- The machines that can be reached if none are set. -/
def defaultHosts : String := "remote-server,agency.local,omega-corp.com,localhost"

/-- Reads all settings. The program's own files lie under `root`. -/
def ofVariables (root : String) (vs : Variables) : Settings :=
  let data := Path.join root "data"
  let adventures := Path.join data "adventures"
  let logFile := text vs "LOG_FILE" ""
  { shell := {
      username := text vs "USERNAME" "student"
      hostname := text vs "HOSTNAME" "shellquest"
      password := text vs "SUDO_PASSWORD" "P@ssw0rd!"
      remoteHosts := texts vs "REMOTE_HOSTS" defaultHosts
      confirms := choice vs "CONFIRM_DESTRUCTIVE" true
      historyLimit := whole vs "HISTORY_LIMIT" 1000 }
    server := {
      host := text vs "SSH_HOST" "0.0.0.0"
      port := whole vs "SSH_PORT" 2222
      hostKey := path vs "HOST_KEY" (Path.join data "host.key")
      banner := text vs "SSH_BANNER" "SSH-2.0-OpenSSH_8.9p1 shellquest"
      password := text vs "SSH_PASSWORD" ""
      idleSeconds := number vs "SSH_IDLE_TIMEOUT" 900.0 }
    log := {
      level := text vs "LOG_LEVEL" "INFO"
      format := text vs "LOG_FORMAT" "%(asctime)s - %(name)s - %(levelname)s - %(message)s"
      file := if logFile = "" then none else some (Path.tidy logFile) }
    metrics := {
      enabled := choice vs "METRICS_ENABLED" false
      host := text vs "METRICS_HOST" "0.0.0.0"
      port := whole vs "METRICS_PORT" 9100 }
    locations := {
      root := root
      data := data
      adventures := path vs "ADVENTURES_DIR" adventures
      progress := path vs "PROGRESS_DIR" (Path.join data "progress")
      sessions := path vs "SESSIONS_DIR" (Path.join data "sessions")
      adventure := text vs "ADVENTURE" (Path.join adventures "training.json") } }

end Settings

end PracticeShell
