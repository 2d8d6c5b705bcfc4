import ManagedCode.Machine.Dispatch
import ManagedCode.Machine.Frame

/-!
# Exceptions and finally handlers

How control reaches the handlers of a frame.  The regions of a body are in the
order in which they are looked at: inner blocks before outer ones, and within a
block the catch handlers before the finally handler.

Leaving a range runs the finally handlers of the ranges that are left, one after
the other.  Raising an exception looks for the first region around the current
instruction that catches it; a finally handler on the way runs first, and raises
the exception again when it ends.
-/

namespace ManagedCode.Frame

/-- Whether an instruction is in the handler of the region with the given number. -/
def inHandlerOf (f : Frame) (region ip : Nat) : Bool :=
  (f.body.regions[region]?).any (·.inHandler ip)

/-- Starts a finally handler on the way to a target. -/
def enterFinally (f : Frame) (region target : Nat) (remaining : List Nat) : Frame :=
  let start := ((f.body.regions[region]?).map (·.handlerStart)).getD target
  { f with
    ip := start
    pending := .leave region target remaining :: f.pending }

/-- Goes on to a target, through the finally handlers that remain. -/
def continueTo (f : Frame) (target : Nat) : List Nat → Frame
  | [] => f.jump target
  | region :: remaining => f.enterFinally region target remaining

/-- The finally regions that protect one instruction and not another. -/
def finalliesBetween (f : Frame) (ip target : Nat) : List Nat :=
  (f.body.regions.mapIdx fun i r => (i, r)).filterMap fun (i, r) =>
    if r.kind = .finalizing ∧ r.protects ip ∧ !r.protects target then some i else none

/-- Whether the handler of a region that holds an instruction is kept by going to
another one. -/
def keepsHandling (f : Frame) (target region : Nat) : Bool :=
  (f.body.regions[region]?).any fun r => !r.inHandler f.ip || r.inHandler target

/-- Leaves the current range for a target. -/
def leave (f : Frame) (target : Nat) : Frame :=
  let finallies := f.finalliesBetween f.ip target
  { f with
    stack := []
    handling := f.handling.filter fun (region, _) => f.keepsHandling target region
  }.continueTo target finallies

/-- The exception that the handler around the current instruction is handling. -/
def handled? (f : Frame) : Option Value :=
  (f.handling.find? fun (region, _) => f.inHandlerOf region f.ip).map (·.2)

/-- Gives up the handlers around the current instruction. -/
def abandonHandlers (f : Frame) : Frame :=
  { f with
    pending := f.pending.filter fun c =>
      (f.body.regions[c.region]?).any (!·.inHandler f.ip)
    handling := f.handling.filter fun (region, _) =>
      (f.body.regions[region]?).any (!·.inHandler f.ip) }

/-- Enters the first of the given regions, numbered from `index`, that takes an
exception. -/
def enterHandler (session : Session) (limit : Nat) (f : Frame) (exception : Value) :
    Nat → List Region → Except Fault (Option Frame)
  | _, [] => .ok none
  | index, r :: rest =>
    if r.protects f.ip then
      match r.kind with
      | .finalizing =>
        .ok (some
          { f with
            stack := []
            pending := .unwind index exception :: f.pending
            ip := r.handlerStart })
      | .catching t =>
        if session.isInstance exception (f.resolve t) then do
          let f ← { f with stack := [] }.push limit exception
          return some
            { f with
              handling := (index, exception) :: f.handling
              ip := r.handlerStart }
        else enterHandler session limit f exception (index + 1) rest
    else enterHandler session limit f exception (index + 1) rest

/-- Raises an exception at the current instruction.  The answer is the frame at its
handler, if it has one. -/
def raise (session : Session) (limit : Nat) (f : Frame) (exception : Value) :
    Except Fault (Option Frame) :=
  enterHandler session limit f.abandonHandlers exception 0 f.body.regions

/-- Raises an exception in the innermost frame.  A frame without a handler is
dropped, and the exception raised at the instruction of its caller. -/
def unwind (session : Session) (limit : Nat) (exception : Value) :
    List Frame → Except Fault (List Frame)
  | [] => .ok []
  | f :: callers => do
    match ← f.raise session limit exception with
    | some f => return f :: callers
    | none => unwind session limit exception callers

end ManagedCode.Frame
