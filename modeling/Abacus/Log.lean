import Abacus.Text.Bytes

/-!
# Log entries

Operations return what they log beside their result, oldest entry first. Which entries reach the
user is a matter of the configured verbosity and decided where they are shown.
-/
namespace Abacus

inductive Level
  | error | warning | info | debug
  deriving DecidableEq, Repr

inductive Logger
  | compiler | machine | languageServer | tool
  deriving DecidableEq, Repr

structure LogEntry where
  level : Level
  logger : Logger
  message : Bytes
  deriving DecidableEq, Repr

def Level.name : Level → Bytes
  | error => text "Error"
  | warning => text "Warning"
  | info => text "Info"
  | debug => text "Debug"

def Logger.name : Logger → Bytes
  | compiler => text "diablo.compiler"
  | machine => text "diablo.vm"
  | languageServer => text "diablo.lsp"
  | tool => text "diablo.tool"

def LogEntry.render (e : LogEntry) : Bytes :=
  e.level.name ++ text " " ++ e.logger.name ++ text ": " ++ e.message

end Abacus
