import Std.Data.TreeMap
import NestedMachine.Trace.Basic

/-!
# Replaying a trace

A replayer hands out the records of a trace in order, each to the call that it
belongs to.  A call that meets no record, or the record of another call, leaves
the replayer as it is.  What guests write during a replay is kept by descriptor.
-/

namespace NestedMachine

set_option autoImplicit false

/-- A trace that is handed out record by record. -/
structure Replayer where
  /-- How many records were handed out. -/
  consumed : Nat
  /-- The records still to come. -/
  pending : List TraceRecord
  /-- What was written to each descriptor. -/
  transcripts : Std.TreeMap Nat Bytes

namespace Replayer

/-- A replayer at the start of a trace. -/
def start (trace : Trace) : Replayer := ⟨0, trace.records.toList, ∅⟩

/-- Hand out the next record, with its place, to the call at `pc` of the given number. -/
def next (pc number : UInt64) : EStateM HostError Replayer (Nat × TraceRecord) := fun replayer =>
  match replayer.pending with
  | [] => .error (.replayExhausted pc.toNat number.toNat) replayer
  | record :: rest =>
      if record.pc = pc ∧ record.number = number then
        .ok (replayer.consumed, record)
          { replayer with consumed := replayer.consumed + 1, pending := rest }
      else
        .error
          (.replayDivergence replayer.consumed record.pc.toNat record.number.toNat pc.toNat
            number.toNat)
          replayer

/-- What was written to a descriptor. -/
def transcript (replayer : Replayer) (descriptor : Nat) : Bytes :=
  replayer.transcripts[descriptor]?.getD []

/-- Keep what is written to a descriptor. -/
def capture (replayer : Replayer) (descriptor : Nat) (bytes : Bytes) : Replayer :=
  let written := replayer.transcript descriptor ++ bytes
  { replayer with transcripts := replayer.transcripts.insert descriptor written }

/-- How many records are still to come. -/
def remaining (replayer : Replayer) : Nat := replayer.pending.length

end Replayer

/-- Whether a hypervisor records calls, replays them, or does neither. -/
inductive Recording where
  | off
  | record (trace : Trace)
  | replay (replayer : Replayer)

namespace Recording

/-- Whether calls are replayed. -/
def isReplaying : Recording → Bool
  | .replay _ => true
  | _ => false

/-- The replayer, while calls are replayed. -/
def replayer? : Recording → Option Replayer
  | .replay replayer => some replayer
  | _ => none

end Recording

end NestedMachine
