import Exchange.Duration
import Exchange.Text.Layout

/-!
The settings of a binding: how long its producer may take, and whether its panics are answered.
-/

namespace Exchange
open Text
set_option autoImplicit false

/-- Settings of a binding; the default sets no deadline and answers panics. -/
structure Config where
  timeout : Duration := .zero
  answersPanics : Bool := true
deriving DecidableEq

namespace Config

def within (config : Config) (timeout : Duration) : Config := { config with timeout }

/-- A timeout of zero sets no deadline. -/
def deadline (config : Config) : Option Duration :=
  if config.timeout = .zero then none else some config.timeout

def shown (config : Config) : Shown :=
  .record "BindConfig" [("timeout", .atom config.timeout.text),
    ("catch_panics", .ofBool config.answersPanics)]

end Config
end Exchange
