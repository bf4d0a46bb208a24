/-!
Levels of logging by name.
-/
namespace Folio

/-- How much is logged, from nothing to everything. -/
inductive Level where
  | off | error | warn | info | debug | trace
deriving DecidableEq, Repr

namespace Level

def name : Level → String
  | off => "OFF"
  | error => "ERROR"
  | warn => "WARN"
  | info => "INFO"
  | debug => "DEBUG"
  | trace => "TRACE"

def all : List Level := [off, error, warn, info, debug, trace]

/-- The level with a name, whose ASCII letters may be of either case; any other text stands for the
middle level `info`. -/
def ofName (text : String) : Level :=
  (all.find? fun level => level.name == text.map Char.toUpper).getD info

end Level
end Folio
