import TreeSync.Session.Config
import TreeSync.Engine.Literal
import TreeSync.Decimal.Shortest
import TreeSync.Filter.Rule
import TreeSync.Shell.Word

/-!
# TreeSync.Engine.Config

The configuration file of the engine, and the script that it runs for every
transfer.

* Deletions go out while the session runs, but the first transfer removes nothing.
* The filter rules are those of the filter set, in order.
* The engine runs the script in the place of `rsync`, so every transfer is made
  under the transfer lock.
-/

namespace TreeSync.Engine

/-- A text with exactly one slash at its end. -/
def withSlash (t : Text) : Text := Text.dropEndWhile (· == '/') t ++ ['/']

/-- A line `name = value,`, indented. -/
def setting (indent : Nat) (name value : Text) : Text :=
  List.replicate indent ' ' ++ name ++ " = " ++ value ++ ",\n"

/-- The line of one filter rule. -/
def filterLine (rule : FilterRule) : Text := "        " ++ literal rule.line ++ ",\n"

/-- The word for a truth value. -/
def flag (b : Bool) : Text := if b then "true" else "false"

/-- The configuration file of the engine. -/
def configText (config : SessionConfig) (filters : FilterSet) : Text :=
  "settings \x7b\n"
    ++ setting 4 "logfile" (literal config.logPath)
    ++ setting 4 "pidfile" (literal config.pidPath)
    ++ setting 4 "nodaemon" "false"
    ++ "\x7d\n\n"
    ++ "sync \x7b\n    default.rsync,\n"
    ++ setting 4 "source" (literal (withSlash config.root))
    ++ setting 4 "target" (literal (withSlash config.target))
    ++ setting 4 "delete" (literal "running")
    ++ setting 4 "delay" config.delay.text
    ++ "    filter = \x7b\n"
    ++ filters.rules.flatMap filterLine
    ++ "    \x7d,\n    rsync = \x7b\n"
    ++ setting 8 "binary" (literal config.shimPath)
    ++ setting 8 "archive" "true"
    ++ setting 8 "compress" (flag config.compress)
    ++ "    \x7d,\n\x7d\n"

/-- The script that the engine runs for every transfer: this program, told the
lock and the transfer program, with the arguments that the engine gives.  Words are
quoted in the way that is handed in. -/
def shimText (config : SessionConfig) (executable : Text)
    (quote : Text → Text := Shell.quote) : Text :=
  "#!/bin/sh\nexec " ++ quote executable
    ++ " transfer --lock " ++ quote config.lockPath
    ++ " --rsync " ++ quote config.binaries.rsync
    ++ " -- \"$@\"\n"

end TreeSync.Engine
