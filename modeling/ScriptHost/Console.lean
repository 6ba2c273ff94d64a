/-!
Console output of scripts.
-/

namespace ScriptHost

inductive LogLevel where
  | error
  | warn
  | info
  | log
  | debug
  | trace
  deriving DecidableEq, Repr

namespace LogLevel

def tag : LogLevel → String
  | error => "ERROR"
  | warn => "WARN"
  | info => "INFO"
  | log => "LOG"
  | debug => "DEBUG"
  | trace => "TRACE"

def method : LogLevel → String
  | error => "error"
  | warn => "warn"
  | info => "info"
  | log => "log"
  | debug => "debug"
  | trace => "trace"

def all : List LogLevel :=
  [error, warn, info, log, debug, trace]

/-- Upper case letters beyond ASCII have no counterpart among the letters of a level. -/
def ofName (s : String) : LogLevel :=
  (all.find? fun level => level.method.toList == s.toList.map Char.toLower).getD info

end LogLevel

structure LogEvent where
  level : LogLevel
  message : String
  deriving DecidableEq, Repr

end ScriptHost
