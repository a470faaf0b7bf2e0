import PracticeShell.Text.Lines

/-!
# Help

What the program says about itself: a page for the program and one for each of its commands, its
name and version, and the banner that it shows when it starts. A page starts with a synopsis, which
is also shown when words are refused.
-/

namespace PracticeShell

/-- A page of help. -/
structure HelpPage where
  /-- The words that the program is started with to get to what the page is about. -/
  title : String
  synopsis : List String
  details : List String

namespace HelpPage

/-- The lines of the page. -/
def text (p : HelpPage) : String := Text.Lines.join (p.synopsis ++ p.details)

/-- The page of the program. -/
def program : HelpPage where
  title := "shellquest"
  synopsis := ["usage: shellquest [-h] [--adventure ADVENTURE]",
    "                  [--log-level \x7bDEBUG,INFO,WARNING,ERROR,CRITICAL\x7d] [--fresh]",
    "                  [--version]",
    "                  \x7bserve,adventures,progress\x7d ..."]
  details := ["",
    "shellquest - mission-driven Linux shell trainer",
    "",
    "positional arguments:",
    "  \x7bserve,adventures,progress\x7d",
    "                        Available commands",
    "    serve               Serve the training shell over SSH",
    "    adventures          Inspect adventures",
    "    progress            Manage saved progress",
    "",
    "options:",
    "  -h, --help            show this help message and exit",
    "  --adventure ADVENTURE, -a ADVENTURE",
    "                        Adventure JSON file or id",
    "  --log-level \x7bDEBUG,INFO,WARNING,ERROR,CRITICAL\x7d, -l \x7bDEBUG,INFO,WARNING,ERROR,CRITICAL\x7d",
    "                        Logging level (default: SHELLQUEST_LOG_LEVEL)",
    "  --fresh               Ignore saved progress",
    "  --version, -v         show program's version number and exit",
    "",
    "Examples:",
    "    shellquest                             Start the training shell",
    "    shellquest --fresh                     Start over from the first mission",
    "    shellquest serve --port 2222           Serve the shell over SSH",
    "    shellquest adventures list             List available adventures",
    "    shellquest progress reset shell-basics Forget saved progress",
    "",
    "Environment variables:",
    "    SHELLQUEST_USERNAME          Learner user name (default: student)",
    "    SHELLQUEST_SUDO_PASSWORD     Password for the sudo prompt",
    "    SHELLQUEST_SSH_PORT          SSH port for 'serve'",
    "    SHELLQUEST_LOG_LEVEL         Logging level",
    "        "]

/-- The page about serving. -/
def serve : HelpPage where
  title := "shellquest serve"
  synopsis := ["usage: shellquest serve [-h] [--host HOST] [--port PORT]",
    "                        [--metrics-port METRICS_PORT]"]
  details := ["",
    "options:",
    "  -h, --help            show this help message and exit",
    "  --host HOST           SSH bind address (default: SHELLQUEST_SSH_HOST)",
    "  --port PORT, -p PORT  SSH port (default: 2222)",
    "  --metrics-port METRICS_PORT",
    "                        Expose Prometheus metrics on this port"]

/-- The page about adventures. -/
def adventures : HelpPage where
  title := "shellquest adventures"
  synopsis := ["usage: shellquest adventures [-h] \x7blist\x7d ..."]
  details := ["",
    "positional arguments:",
    "  \x7blist\x7d",
    "    list      List available adventures",
    "",
    "options:",
    "  -h, --help  show this help message and exit"]

/-- The page about the list of adventures. -/
def list : HelpPage where
  title := "shellquest adventures list"
  synopsis := ["usage: shellquest adventures list [-h]"]
  details := ["",
    "options:",
    "  -h, --help  show this help message and exit"]

/-- The page about saved progress. -/
def progress : HelpPage where
  title := "shellquest progress"
  synopsis := ["usage: shellquest progress [-h] \x7bshow,reset\x7d ..."]
  details := ["",
    "positional arguments:",
    "  \x7bshow,reset\x7d",
    "    show        Show saved progress",
    "    reset       Delete saved progress",
    "",
    "options:",
    "  -h, --help    show this help message and exit"]

/-- The page about showing progress. -/
def showing : HelpPage where
  title := "shellquest progress show"
  synopsis := ["usage: shellquest progress show [-h] adventure_id"]
  details := ["",
    "positional arguments:",
    "  adventure_id  Adventure id",
    "",
    "options:",
    "  -h, --help    show this help message and exit"]

/-- The page about removing progress. -/
def reset : HelpPage where
  title := "shellquest progress reset"
  synopsis := ["usage: shellquest progress reset [-h] adventure_id"]
  details := ["",
    "positional arguments:",
    "  adventure_id  Adventure id",
    "",
    "options:",
    "  -h, --help    show this help message and exit"]

end HelpPage

/-- The name of the program with its version. -/
def versionText : String := "shellquest 0.1.0"

/-- The banner. -/
def banner : String :=
  Text.Lines.join ["",
    "         _          _ _                        _",
    "     ___| |__   ___| | | __ _ _   _  ___  ___| |_",
    "    / __| '_ \\ / _ \\ | |/ _` | | | |/ _ \\/ __| __|",
    "    \\__ \\ | | |  __/ | | (_| | |_| |  __/\\__ \\ |_",
    "    |___/_| |_|\\___|_|_|\\__, |\\__,_|\\___||___/\\__|",
    "                           |_|",
    "    Learn the Linux shell, one mission at a time. v0.1.0",
    "    "]

end PracticeShell
