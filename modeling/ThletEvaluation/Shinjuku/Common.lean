import Mathlib.Logic.Function.Basic

/-!
# Data shared by the dispatcher, the workers and the pools

The constants and records of `common.h`. Static and per-CPU data start zeroed, so
every field carries the zero of its type as its default; the flags `RUNNING`,
`WAITING` and `NOCONTENT` are the ones whose code is `0x00`.
-/

namespace ThletEvaluation.Shinjuku

set_option autoImplicit false

abbrev Addr := UInt64

abbrev NULL : Addr := 0

inductive RequestFlag where
  | waiting
  | active
  deriving DecidableEq, Repr

inductive ResponseFlag where
  | running
  | finished
  | preempted
  | processed
  deriving DecidableEq, Repr

inductive Category where
  | noContent
  | packet
  | context
  deriving DecidableEq, Repr

def PREEMPTION_DELAY : UInt64 := 5000

def SHINJUKU_THREAD_STACK_SIZE : UInt64 := 8192

def MAX_UINT64 : UInt64 := 0xFFFFFFFFFFFFFFFF

/-- The fields that `worker_response` and `dispatcher_request` have in common. -/
structure Task where
  rnbl : Addr := NULL
  mbuf : Addr := NULL
  timestamp : UInt64 := 0
  type : UInt8 := 0
  category : Category := .noContent
  deriving DecidableEq, Repr

structure WorkerResponse extends Task where
  flag : ResponseFlag := .running
  deriving DecidableEq, Repr

structure DispatcherRequest extends Task where
  flag : RequestFlag := .waiting
  deriving DecidableEq, Repr

end ThletEvaluation.Shinjuku
