/-!
Why settings can be refused.
-/
namespace Folio.Settings

inductive Error where
  /-- There is no text to read settings from. -/
  | unreadable
  /-- The text does not describe settings. -/
  | malformed
  /-- The settings cannot be honoured. -/
  | invalid (reason : String)
deriving DecidableEq, Repr

def Error.message : Error → String
  | unreadable => "failed to read configuration"
  | malformed => "failed to parse configuration"
  | invalid reason => "invalid configuration: " ++ reason

end Folio.Settings
