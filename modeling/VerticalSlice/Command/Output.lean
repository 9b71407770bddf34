import VerticalSlice.Feature.Generation
import VerticalSlice.Rule.Check

/-!
# What a run shows

A run of the program writes messages to two streams, in order, and ends with a status. What a run
cannot answer for breaks it off; the messages that were written until then stay.
-/

namespace VerticalSlice.Command

/-- Where a message goes: the results of the program, or what there is to say about them. -/
inductive Stream
  | out
  | err
deriving DecidableEq, Repr

/-- A text that is written with a line end behind it. -/
structure Message where
  stream : Stream
  text : Text
deriving DecidableEq, Repr

/-- What breaks a run off. -/
inductive Breakdown
  | workspace (fault : WorkspaceFault)
  | check (fault : CheckFault)
  | generation (fault : Feature.GenerationFault)

/-- The breakdown in words. -/
def Breakdown.message : Breakdown → Text
  | .workspace fault => fault.message
  | .check fault => fault.message
  | .generation fault => fault.message

/-- How a run ends. -/
inductive Ending
  | status (code : Nat)
  | brokenOff (cause : Breakdown)

/-- The status that a process ends with. -/
def Ending.code : Ending → Nat
  | .status code => code
  | .brokenOff _ => 1

/-- The messages of a run and its end. -/
structure Outcome where
  messages : List Message
  ending : Ending

namespace Outcome

/-- All that is written to a stream. -/
def written (outcome : Outcome) (stream : Stream) : Text :=
  (outcome.messages.filter fun message => message.stream = stream).flatMap fun message =>
    message.text ++ ['\n']

/-- The outcome with messages in front of it. -/
def after (outcome : Outcome) (earlier : List Message) : Outcome :=
  { outcome with messages := earlier ++ outcome.messages }

/-- The outcome of a run that says what went wrong. -/
def failure (message : Text) : Outcome :=
  ⟨[⟨.err, Text.concat ["Error: ", message]⟩], .status 1⟩

end Outcome

/-- Which notices are shown, and whether they are shown with their level and their origin. -/
structure Loudness where
  least : Level
  named : Bool
deriving DecidableEq, Repr

namespace Loudness

/-- The loudness of a command that is a program of its own. -/
def plain : Loudness := ⟨.warning, false⟩

/-- The messages for the notices that are shown. -/
def messages (loudness : Loudness) (notices : List Notice) : List Message :=
  (notices.filter fun notice => loudness.least.rank ≤ notice.level.rank).map fun notice =>
    ⟨.err, if loudness.named then notice.toText else notice.message⟩

end Loudness

end VerticalSlice.Command
