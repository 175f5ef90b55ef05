import Mathlib

/-! Plain data of the public headers: enumerations, the compile-time global
configuration, and byte texts. -/

namespace Unlog

/-- A C++ `std::string_view`: any bytes, NUL and non-ASCII ones included. -/
abbrev Text := List UInt8

/-- The bytes of an ASCII literal of the source. -/
def ascii (s : String) : Text := s.toList.map Char.toUInt8

def percentSign : UInt8 := '%'.toUInt8

def newline : UInt8 := '\n'.toUInt8

inductive LogLevel where
  | trace | debug | info | warn | err | critical | off
  deriving DecidableEq, Repr

/-- `static_cast<uint8_t>(level)`. -/
def LogLevel.toNat : LogLevel → ℕ
  | .trace => 0
  | .debug => 1
  | .info => 2
  | .warn => 3
  | .err => 4
  | .critical => 5
  | .off => 6

def logLevelString : LogLevel → Text
  | .trace => ascii "trace"
  | .debug => ascii "debug"
  | .info => ascii "info"
  | .warn => ascii "warn"
  | .err => ascii "error"
  | .critical => ascii "critical"
  | .off => ascii "off"

/-- `level_enabled`: the gate in front of every `log_handle` call. -/
def levelEnabled (messageLevel threshold : LogLevel) : Bool :=
  if threshold = .off then false
  else if messageLevel = .off then false
  else decide (threshold.toNat ≤ messageLevel.toNat)

@[simp] theorem levelEnabled_off (messageLevel : LogLevel) :
    levelEnabled messageLevel .off = false := rfl

inductive SinkType where
  | cout | cerr | fd | file | unixDgram
  deriving DecidableEq, Repr

inductive OverflowPolicy where
  | drop | truncate
  deriving DecidableEq, Repr

inductive ClockType where
  | steady | system
  deriving DecidableEq, Repr

inductive RuntimeMode where
  | singleThreaded | threadsafe
  deriving DecidableEq, Repr

/-- `global_config`: the non-type template argument of `configured<Global>`. -/
structure GlobalConfig where
  threadBufsize : ℕ := 1048576
  hugeThreadBufsize : ℕ := 2097152
  maxRecordSize : ℕ := 1024
  maxProducers : ℕ := 16384
  clockType : ClockType := .steady
  deriving DecidableEq, Repr

end Unlog
