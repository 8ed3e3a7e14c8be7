-- SUMMARY: The lines of the log.
/-!
# The log

Records that the library writes carry a level. The callbacks of a client may add lines of their own.
-/

namespace ReactiveMarkup

/-- How serious a record is. -/
inductive Level where
  | error
  | warn
  | debug
  | trace
deriving DecidableEq

/-- A line of the log. -/
inductive Entry where
  /-- A record of the library. -/
  | record (level : Level) (text : String)
  /-- A line of a client. -/
  | note (text : String)
deriving DecidableEq

/-- The lines in the order in which they were written. -/
abbrev Log := List Entry

/-- The name of the level. -/
def Level.name : Level → String
  | error => "ERROR"
  | warn => "WARN"
  | debug => "DEBUG"
  | trace => "TRACE"

/-- The line as text. -/
def Entry.text : Entry → String
  | record level text => level.name ++ " " ++ text
  | note text => text

end ReactiveMarkup
