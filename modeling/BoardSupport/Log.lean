/-!
Log records: a level, the component that speaks, and the text. A filter decides which levels are
heard.
-/
namespace BoardSupport

inductive LogLevel
  | error | warn | info | debug | trace
  deriving DecidableEq, Repr

namespace LogLevel

/-- Detail grows with the rank. -/
def rank : LogLevel → Nat
  | .error => 1
  | .warn => 2
  | .info => 3
  | .debug => 4
  | .trace => 5

def all : List LogLevel := [.error, .warn, .info, .debug, .trace]

def name : LogLevel → String
  | .error => "ERROR"
  | .warn => "WARN"
  | .info => "INFO"
  | .debug => "DEBUG"
  | .trace => "TRACE"

end LogLevel

/-- The most detailed level that is heard, if any is. -/
inductive LogFilter
  | off
  | upTo (level : LogLevel)
  deriving DecidableEq, Repr

def LogFilter.admits : LogFilter → LogLevel → Bool
  | .off, _ => false
  | .upTo limit, level => level.rank ≤ limit.rank

inductive LogTarget
  | spi | trap | router | firmware | firmwareTrap
  deriving DecidableEq, Repr

/-- The path a record names its component by. -/
def LogTarget.path : LogTarget → String
  | .spi => "airisc_bsp::spi"
  | .trap => "airisc_bsp::trap"
  | .router => "airisc_bsp::router"
  | .firmware => "airisc_firmware"
  | .firmwareTrap => "airisc_firmware::trap"

structure LogRecord where
  level : LogLevel
  target : LogTarget
  message : String
  deriving DecidableEq, Repr

/-- A record as one line of console text, without its line end. -/
def LogRecord.line (r : LogRecord) : String :=
  "[" ++ r.level.name ++ "] " ++ r.target.path ++ ": " ++ r.message

end BoardSupport
