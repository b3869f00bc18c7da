import PostfixSheet.Table.Evaluation

/-! Running an evaluation between a source that may fail and a sink that may refuse. -/

namespace PostfixSheet

/-- A sink with room for so many bytes. It takes each write as a whole or refuses it as a whole, and may
fail when it is flushed at the end. -/
structure Sink where
  room : Option Nat := none
  refusal : String := ""
  flushFailure : Option String := none

def Sink.accepts (sink : Sink) (size : Nat) : Bool :=
  match sink.room with
  | some room => decide (size ≤ room)
  | none => true

structure Delivery where
  written : List (List UInt8)
  events : List Event
  result : Except Fault Statistics

def Sink.deliverFrom (sink : Sink) (result : Except Fault Statistics) :
    Nat → List Action → Delivery
  | _, [] =>
      match result, sink.flushFailure with
      | .ok _, some text => ⟨[], [], .error (.io text)⟩
      | _, _ => ⟨[], [], result⟩
  | used, .report event :: rest =>
      let later := sink.deliverFrom result used rest
      { later with events := event :: later.events }
  | used, .write bytes :: rest =>
      if sink.accepts (used + bytes.length) then
        let later := sink.deliverFrom result (used + bytes.length) rest
        { later with written := bytes :: later.written }
      else ⟨[], [], .error (.io sink.refusal)⟩

def Sink.deliver (sink : Sink) (run : Run) : Delivery :=
  sink.deliverFrom run.result 0 run.actions

/-- Reads the source to its end before anything else; a source that fails leaves nothing to write. -/
def Evaluator.evaluate (evaluator : Evaluator) (source : Except String (List UInt8)) (sink : Sink) :
    Delivery :=
  match source with
  | .error text => ⟨[], [], .error (.io text)⟩
  | .ok bytes => sink.deliver (evaluator.run bytes)

end PostfixSheet
