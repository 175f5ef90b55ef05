import Unlog.Runtime.State

/-! What a registration stores: the sink of a channel, shared by target, and the producers a
backend will need. -/

namespace Unlog

open Pattern Render

/-- The exceptions of `channel.cpp` and of the sinks. -/
inductive Error where
  | invalidArgument (what : Text)
  | lengthError (what : Text)
  | runtimeError (what : Text)
  | systemError (what : Text)
  | badAlloc
  deriving DecidableEq, Repr

/-- What the environment answers: the clocks, the file system, and whether memory and threads
can be had. -/
structure Answers where
  anchors : StartupAnchors := ⟨0, 0⟩
  opened : Bool := true
  connected : Bool := true
  normalAllocated : Bool := true
  hugeAllocated : Bool := true
  threadCreated : Bool := true
  deriving DecidableEq, Repr

/-! ## Sinks -/

structure ChannelRegistration where
  name : Text
  runtimeMode : RuntimeMode := .singleThreaded
  hugePages : Bool := false
  sinkType : SinkType := .cout
  pattern : PatternProgram
  color : Bool := false
  timeRequirements : TimeRequirements := .none
  filename : Option Text := none
  outputFd : Option ℤ := none
  unixDgramPath : Option Text := none
  deriving DecidableEq, Repr

/-- The registration `make_channel` builds from a configuration. -/
def channelRegistrationFor (conf : Config) : ChannelRegistration where
  name := conf.name
  runtimeMode := conf.runtimeMode
  hugePages := conf.useHugePages
  sinkType := conf.sinkType
  pattern := configPatternProgram conf
  color := conf.color
  timeRequirements := configFormatRequirements conf
  filename := conf.filename
  outputFd := conf.outputFd
  unixDgramPath := conf.unixDgramPath

def sinkTypeString : SinkType → Text
  | .cout => ascii "cout"
  | .cerr => ascii "cerr"
  | .file => ascii "file"
  | .fd => ascii "fd"
  | .unixDgram => ascii "unix_dgram"

def sinkTargetKey (sinkType : SinkType) (filename : Option Text) (outputFd : Option ℤ)
    (unixDgramPath : Option Text) : Text :=
  sinkTypeString sinkType ++ ascii "|" ++
    match sinkType with
    | .cout | .cerr => []
    | .fd => (outputFd.map fun fd => ascii (toString fd)).getD []
    | .file => filename.getD []
    | .unixDgram => unixDgramPath.getD []

/-- `sizeof(sockaddr_un::sun_path)`. -/
def sunPathSize : ℕ := 108

/-- `make_configured_sink` and the constructors of the sinks; a sink is known by its number. -/
def makeConfiguredSink (answers : Answers) (fresh : ℕ) (sinkType : SinkType)
    (filename : Option Text) (outputFd : Option ℤ) (unixDgramPath : Option Text) :
    Except Error ℕ :=
  match sinkType with
  | .cout | .cerr => .ok fresh
  | .fd =>
    match outputFd with
    | none => .error (.invalidArgument (ascii "fd sink requires output_fd"))
    | some fd =>
      if fd < 0 then .error (.invalidArgument (ascii "fd sink requires non-negative fd"))
      else .ok fresh
  | .file =>
    match filename with
    | none => .error (.invalidArgument (ascii "file sink requires filename"))
    | some path =>
      if path = [] then .error (.invalidArgument (ascii "file sink requires filename"))
      else if !answers.opened then
        .error (.runtimeError (ascii "failed to open log file: " ++ path))
      else .ok fresh
  | .unixDgram =>
    match unixDgramPath with
    | none => .error (.invalidArgument (ascii "unix_dgram sink requires unix_dgram_path"))
    | some path =>
      if !answers.opened then
        .error (.systemError (ascii "socket(AF_UNIX, SOCK_DGRAM) failed"))
      else if sunPathSize ≤ path.length then
        .error (.invalidArgument (ascii "unix_dgram path is too long"))
      else if !answers.connected then .error (.systemError (ascii "connect(AF_UNIX) failed"))
      else .ok fresh

/-- `configured_sink_for_locked`: the sink of an equal target, or a new one. -/
def configuredSinkForLocked (answers : Answers) (fresh : ℕ) (configuredSinks : List ConfiguredSink)
    (registration : ChannelRegistration) : Except Error (ℕ × List ConfiguredSink) :=
  let key := sinkTargetKey registration.sinkType registration.filename registration.outputFd
    registration.unixDgramPath
  match configuredSinks.find? fun sink => sink.targetKey == key with
  | some duplicate => .ok (duplicate.sink, configuredSinks)
  | none =>
    match makeConfiguredSink answers fresh registration.sinkType registration.filename
      registration.outputFd registration.unixDgramPath with
    | .error error => .error error
    | .ok sink => .ok (sink, configuredSinks ++ [⟨sink, key⟩])

/-! ## Producer backends -/

/-- `configured_producer_backend<Config>`; `config` is its template argument, `waker` the runtime
its waker was bound to. -/
structure ProducerBackend where
  config : GlobalConfig := {}
  waker : Option ℕ := none
  threadsafeNormalChannels : ℕ := 0
  threadsafeHugeChannels : ℕ := 0
  singleNormalNeeded : Bool := false
  singleHugeNeeded : Bool := false
  singleNormal : Bool := false
  singleHuge : Bool := false
  deriving DecidableEq, Repr

namespace ProducerBackend

def registerChannel (backend : ProducerBackend) (mode : RuntimeMode) (hugePages : Bool) :
    ProducerBackend :=
  match mode, hugePages with
  | .threadsafe, true =>
    { backend with threadsafeHugeChannels := backend.threadsafeHugeChannels + 1 }
  | .threadsafe, false =>
    { backend with threadsafeNormalChannels := backend.threadsafeNormalChannels + 1 }
  | .singleThreaded, true => { backend with singleHugeNeeded := true }
  | .singleThreaded, false => { backend with singleNormalNeeded := true }

/-- `prepare_start`, and whether it came to its end. -/
def prepareStart (backend : ProducerBackend) (answers : Answers) : ProducerBackend × Bool :=
  let needsNormal := backend.singleNormalNeeded && !backend.singleNormal
  if needsNormal && !answers.normalAllocated then (backend, false)
  else
    let backend := { backend with singleNormal := backend.singleNormal || needsNormal }
    let needsHuge := backend.singleHugeNeeded && !backend.singleHuge
    if needsHuge && !answers.hugeAllocated then (backend, false)
    else ({ backend with singleHuge := backend.singleHuge || needsHuge }, true)

/-- `single_normal_` or `single_huge_` is set. -/
def single (backend : ProducerBackend) (hugePages : Bool) : Bool :=
  if hugePages then backend.singleHuge else backend.singleNormal

def singleNeeded (backend : ProducerBackend) (hugePages : Bool) : Bool :=
  if hugePages then backend.singleHugeNeeded else backend.singleNormalNeeded

/-- Whatever the registered channels need was made. -/
def Prepared (backend : ProducerBackend) : Prop :=
  ∀ hugePages, backend.singleNeeded hugePages = true → backend.single hugePages = true

section Lemmas

variable (backend : ProducerBackend) (mode : RuntimeMode) (hugePages : Bool) (answers : Answers)

@[simp] theorem registerChannel_config :
    (backend.registerChannel mode hugePages).config = backend.config := by
  cases mode <;> cases hugePages <;> rfl

@[simp] theorem registerChannel_waker :
    (backend.registerChannel mode hugePages).waker = backend.waker := by
  cases mode <;> cases hugePages <;> rfl

theorem singleNeeded_registerChannel (other : Bool) :
    (backend.registerChannel mode hugePages).singleNeeded other = true ↔
      backend.singleNeeded other = true ∨ mode = .singleThreaded ∧ hugePages = other := by
  cases mode <;> cases hugePages <;> cases other <;> simp [registerChannel, singleNeeded]

theorem single_registerChannel (other : Bool) :
    (backend.registerChannel mode hugePages).single other = backend.single other := by
  cases mode <;> cases hugePages <;> rfl

@[simp] theorem prepareStart_config :
    (backend.prepareStart answers).1.config = backend.config := by
  simp only [prepareStart]
  split
  · rfl
  · split <;> rfl

@[simp] theorem prepareStart_waker : (backend.prepareStart answers).1.waker = backend.waker := by
  simp only [prepareStart]
  split
  · rfl
  · split <;> rfl

theorem singleNeeded_prepareStart (other : Bool) :
    (backend.prepareStart answers).1.singleNeeded other = backend.singleNeeded other := by
  simp only [prepareStart]
  split
  · rfl
  · split <;> rfl

/-- What was made is kept. -/
theorem single_prepareStart {other : Bool} (h : backend.single other = true) :
    (backend.prepareStart answers).1.single other = true := by
  simp only [prepareStart]
  split
  · exact h
  · split <;> cases other <;> simp_all [single]

/-- A `prepare_start` that comes to its end leaves the backend prepared. -/
theorem prepared_prepareStart (h : (backend.prepareStart answers).2 = true) :
    (backend.prepareStart answers).1.Prepared := by
  intro hugePages hneeded
  rw [singleNeeded_prepareStart] at hneeded
  simp only [prepareStart] at h ⊢
  split at h
  case isTrue => contradiction
  case isFalse hnormal =>
    rw [if_neg hnormal]
    split at h
    case isTrue => contradiction
    case isFalse hhuge =>
      rw [if_neg hhuge]
      cases hugePages with
      | false =>
          have hneeded' : backend.singleNormalNeeded = true := hneeded
          simp [single, hneeded']
      | true =>
          have hneeded' : backend.singleHugeNeeded = true := hneeded
          simp [single, hneeded']

end Lemmas

end ProducerBackend

end Unlog
