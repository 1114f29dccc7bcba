import LoweringCheck.Text.Quoted
/-!
# Logging settings

How log output looks and how much of it there is.
-/
namespace LoweringCheck

inductive LogLevel where
  | trace
  | debug
  | info
  | warn
  | error
deriving DecidableEq, Repr

namespace LogLevel

def all : List LogLevel := [trace, debug, info, warn, error]

def name : LogLevel → String
  | trace => "trace"
  | debug => "debug"
  | info => "info"
  | warn => "warn"
  | error => "error"

def tag : LogLevel → String
  | trace => "Trace"
  | debug => "Debug"
  | info => "Info"
  | warn => "Warn"
  | error => "Error"

end LogLevel

structure LoggingConfig where
  level : LogLevel := .info
  timestamps : Bool := true
  threadIds : Bool := false
  sourceLocation : Bool := false
  spanEvents : Bool := false
  json : Bool := false
  /-- whether the output is captured test by test -/
  testWriter : Bool := false
deriving DecidableEq, Repr

namespace LoggingConfig

def default : LoggingConfig := {}

/-- Everything there is, for reading. -/
def development : LoggingConfig :=
  { level := .debug, threadIds := true, sourceLocation := true, spanEvents := true }

/-- JSON, for collecting. -/
def ci : LoggingConfig := { json := true }

/-- Captured output without times, which differ from run to run. -/
def forTests : LoggingConfig :=
  { level := .debug, timestamps := false, threadIds := true, spanEvents := true,
    testWriter := true }

def description (c : LoggingConfig) : String :=
  Text.record "LoggingConfig"
    [("level", c.level.tag), ("with_timestamps", Text.truth c.timestamps),
      ("with_thread_ids", Text.truth c.threadIds),
      ("with_source_location", Text.truth c.sourceLocation),
      ("with_span_events", Text.truth c.spanEvents), ("json_format", Text.truth c.json),
      ("test_writer", Text.truth c.testWriter)]

end LoggingConfig
end LoweringCheck
