import Unlog.Emit.AllOrNothing
import Unlog.Emit.Layout
import Unlog.Handoff.Wait

/-! # The whole program

The hand-off with the slots behind its records: a log call writes the bytes of its record, and the
consumer renders them for the sinks. -/

namespace Unlog.Whole

open Library Emit Render
open Handoff (ProducerId RecordId Sealed Word sleeping)

/-- A runtime at its start: what was registered and how the backend was configured. The sink of a
channel is known by its place in `configured_sinks`. -/
structure Setup where
  global : GlobalConfig := {}
  admitted : Admitted global
  registrations : List Registration
  configuredSinks : ℕ
  sink_lt : ∀ stored ∈ registrations.filterMap Registration.channel?, stored.2 < configuredSinks
  anchors : StartupAnchors := ⟨0, 0⟩
  diagnostic : Bool := false

namespace Setup

variable (setup : Setup)

def channels : List (Config × ℕ) := setup.registrations.filterMap Registration.channel?

def customSinks : List (Config × ℕ) := setup.registrations.filterMap Registration.customSink?

/-- What the hand-off sees of it. -/
def sealed : Sealed where
  channels := setup.channels.map fun stored =>
    ⟨stored.1.runtimeMode, policyPages (channelPolicyFor stored.1), stored.2⟩
  configuredSinks := setup.configuredSinks
  customSinks := setup.customSinks.length
  sink_lt := by
    intro channel hchannel
    obtain ⟨stored, hstored, rfl⟩ := List.mem_map.mp hchannel
    exact setup.sink_lt stored hstored
  maxProducers := setup.global.maxProducers
  capacity pages := queueCapacity setup.global (pages == .huge)
  diagnostic := setup.diagnostic

def runtime : RuntimeState :=
  registered setup.global.clockType setup.anchors setup.registrations

end Setup

/-- `logged` is history: the calls that published, in the order of their queue. -/
structure State (setup : Setup) (E : Type) where
  shared : Waits.Sleepy Handoff.State (Option ℕ) Word
  slots : ProducerId → List (BasicRecordSlot setup.global.maxRecordSize) := fun _ => []
  logged : ProducerId → List (LogRequest E) := fun _ => []
  emission : Emission := ⟨setup.runtime, {}, []⟩

/-- A log call runs `produce` on what the ring held at its tail, or any other access. -/
inductive Action (setup : Setup) (E : Type) where
  | produce (t : ℕ) (storage : Payload setup.global.maxRecordSize) (request : LogRequest E)
  | other (b : Waits.SleepyAction Handoff.Action (Option ℕ))

/-- What the hand-off sees of an outcome. -/
def tell {E : Type} (outcome : ProduceRecordOutcome E) : Handoff.Outcome :=
  if outcome.error.isSome then .error
  else if outcome.publish = false then .dropped
  else if outcome.truncated then .truncated
  else .written

/-- The end of `shutdown_runtime_state`. -/
def resetSinks (runtime : RuntimeState) : RuntimeState :=
  { runtime with
    channels := runtime.channels.map RouteState.resetSink
    configuredSinks := []
    customSinks := []
    customSinkRequirements := .none }

section Step

variable {setup : Setup} {E : Type} (cstr : ℕ → Text) (localtime : ℤ → Tm) (x : State setup E)

/-- The call of `produce` in `log_message`. -/
def produceStep (t : ℕ) (storage : Payload setup.global.maxRecordSize) (request : LogRequest E) :
    Option (State setup E) :=
  match x.shared.state.pc t with
  | .produce channel p =>
    match setup.channels[channel]? with
    | none => none
    | some stored =>
      if request.route ≠ channel then none
      else
        (produce setup.sealed ⟨x.shared.state, x.slots⟩ p (channelPolicyFor stored.1) storage
          request).bind fun produced =>
            ((sleeping setup.sealed).step x.shared
              (.act (.produce t (tell produced.2.2.1)))).map fun shared =>
                { x with
                  shared := shared
                  slots := produced.1.slots
                  logged := if produced.2.1 then
                    Function.update x.logged p (x.logged p ++ [request]) else x.logged }
  | _ => none

/-- What the consumer does with a record, and a shutdown with the sinks. -/
def emissionAfter : Waits.SleepyAction Handoff.Action (Option ℕ) → Emission
  | .act a =>
    match Handoff.takesOff x.shared.state a with
    | some r =>
      match (x.slots r.producer)[r.number]? with
      | none => x.emission
      | some slot => emitRuntimeSlot cstr localtime x.emission slot.header slot.message
    | none =>
      match a.thread?.map x.shared.state.pc with
      | some (.resetSinks _) =>
        { x.emission with runtime := resetSinks x.emission.runtime }
      | _ => x.emission
  | _ => x.emission

def step : Action setup E → Option (State setup E)
  | .produce t storage request => produceStep x t storage request
  | .other (.act (.produce _ _)) => none
  | .other b =>
    ((sleeping setup.sealed).step x.shared b).map fun shared =>
      { x with shared := shared, emission := emissionAfter cstr localtime x b }

end Step

/-- The program as a transition system. -/
def program (setup : Setup) (E : Type) (cstr : ℕ → Text) (localtime : ℤ → Tm) :
    System (State setup E) (Action setup E) where
  Initial x := ∃ level, x = { shared := { state := .started setup.sealed level } }
  step := step cstr localtime

end Unlog.Whole
