import Unlog.Render.Line

/-! Channel configurations: the options a `config<...>` resolves at compile time and the
values its constructor stores. -/

namespace Unlog

open Pattern Render

/-- `pattern_type`: the default pattern or `format_pattern<Pattern>`. -/
inductive PatternOpt where
  | default
  | custom (text : Text)
  deriving DecidableEq, Repr

def defaultPatternPlain : Text := ascii "[%H:%M:%S.%e] [%*] [%n:%l|%g:%#] >> %v"

def defaultPatternColor : Text := ascii "[%H:%M:%S.%e] [%*] [%n:%^%l%$|%g:%#] >> %v"

/-- The text whose analysis gives `requirements`, `capture_source_file` and
`capture_source_line`; the default pattern takes them from its plain variant. -/
def PatternOpt.analyzedText : PatternOpt → Text
  | .default => defaultPatternPlain
  | .custom text => text

def PatternOpt.requirements (pattern : PatternOpt) : TimeRequirements :=
  analyzeTimeRequirements pattern.analyzedText

def PatternOpt.captureSourceFile (pattern : PatternOpt) : Bool :=
  patternUsesToken pattern.analyzedText 'g'.toUInt8

def PatternOpt.captureSourceLine (pattern : PatternOpt) : Bool :=
  patternUsesToken pattern.analyzedText '#'.toUInt8

/-- `config<Arg...>`: the resolved options, then the constructor's fields. -/
structure Config where
  runtimeMode : RuntimeMode := .singleThreaded
  overflowPolicy : OverflowPolicy := .drop
  useHugePages : Bool := false
  pattern : PatternOpt := .default
  name : Text := ascii "unlog"
  flags : UInt8 := 0
  sinkType : SinkType := .cout
  filename : Option Text := none
  outputFd : Option ℤ := none
  unixDgramPath : Option Text := none
  deriving DecidableEq, Repr

/-- `flags & Flags::color`. -/
def Config.color (conf : Config) : Bool := conf.flags &&& 4 != 0

def configFormatRequirements (conf : Config) : TimeRequirements := conf.pattern.requirements

/-- The text that is rendered; the default pattern picks its variant at run time. -/
def Config.renderedText (conf : Config) : Text :=
  match conf.pattern with
  | .default => if conf.color then defaultPatternColor else defaultPatternPlain
  | .custom text => text

def configPatternProgram (conf : Config) : PatternProgram := formatPatternProgram conf.renderedText

structure ChannelPolicy where
  runtimeMode : RuntimeMode
  overflowPolicy : OverflowPolicy
  hugePages : Bool
  timeRequirements : TimeRequirements
  captureSourceFile : Bool
  captureSourceLine : Bool
  deriving DecidableEq, Repr

def channelPolicyFor (conf : Config) : ChannelPolicy where
  runtimeMode := conf.runtimeMode
  overflowPolicy := conf.overflowPolicy
  hugePages := conf.useHugePages
  timeRequirements := configFormatRequirements conf
  captureSourceFile := conf.pattern.captureSourceFile
  captureSourceLine := conf.pattern.captureSourceLine

/-- The sink entry `make_channel` and `add_sink` build from a configuration. -/
def sinkEntryFor (conf : Config) (sink : Option ℕ) : SinkEntry where
  sink := sink
  pattern := configPatternProgram conf
  renderBuffer := []
  color := conf.color
  requirements := configFormatRequirements conf

/-! ## What the analysis says about the rendered text -/

/-- The two default texts have the same captured tokens. -/
theorem lexemes_defaultPatternColor (token : PatternToken)
    (hs : token ≠ .colorStart) (he : token ≠ .colorEnd) (hl : token ≠ .literal) :
    Lexeme.token token.character ∈ lexemes defaultPatternColor ↔
      Lexeme.token token.character ∈ lexemes defaultPatternPlain := by
  cases token <;> first | contradiction | decide +kernel

theorem yields_renderedText (conf : Config) (token : PatternToken)
    (hs : token ≠ .colorStart) (he : token ≠ .colorEnd) (hl : token ≠ .literal) :
    Yields conf.renderedText token ↔ Yields conf.pattern.analyzedText token := by
  cases hp : conf.pattern with
  | custom text => simp [Config.renderedText, hp, PatternOpt.analyzedText]
  | default =>
      cases hc : conf.color with
      | false => simp [Config.renderedText, hp, hc, PatternOpt.analyzedText]
      | true =>
          simpa [Config.renderedText, hp, hc, PatternOpt.analyzedText, yields_iff _ token hl]
            using lexemes_defaultPatternColor token hs he hl

/-- `requirements` asks for the wall clock exactly when the rendered text shows it. -/
theorem requiresWallClock_config_iff (conf : Config) :
    requiresWallClock (configFormatRequirements conf) = true ↔
      Yields conf.renderedText .hour ∨ Yields conf.renderedText .minute ∨
        Yields conf.renderedText .second ∨ Yields conf.renderedText .millis := by
  rw [configFormatRequirements, PatternOpt.requirements, requiresWallClock_analyze_iff,
    yields_renderedText conf .hour nofun nofun nofun,
    yields_renderedText conf .minute nofun nofun nofun,
    yields_renderedText conf .second nofun nofun nofun,
    yields_renderedText conf .millis nofun nofun nofun]

theorem requiresElapsed_config_iff (conf : Config) :
    requiresElapsed (configFormatRequirements conf) = true ↔
      Yields conf.renderedText .elapsed := by
  rw [configFormatRequirements, PatternOpt.requirements, requiresElapsed_analyze_iff,
    yields_renderedText conf .elapsed nofun nofun nofun]

theorem captureSourceFile_iff (conf : Config) :
    conf.pattern.captureSourceFile = true ↔ Yields conf.renderedText .sourceFile := by
  rw [PatternOpt.captureSourceFile, usesSourceFile_iff,
    yields_renderedText conf .sourceFile nofun nofun nofun]

theorem captureSourceLine_iff (conf : Config) :
    conf.pattern.captureSourceLine = true ↔ Yields conf.renderedText .sourceLine := by
  rw [PatternOpt.captureSourceLine, usesSourceLine_iff,
    yields_renderedText conf .sourceLine nofun nofun nofun]

end Unlog
