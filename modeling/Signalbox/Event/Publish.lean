import Signalbox.Config
import Signalbox.Event.Basic

/-
  Signalbox/Event/Publish.lean --- events for a message broker.

  An event is published under the topic prefix and its own name.  Messages wait in
  a queue of 64 until the connection takes them.  A message that finds the queue
  full, or no connection any more, or whose topic has a wildcard in it, is dropped.
-/

set_option autoImplicit false

namespace Signalbox

/-- A message to the broker. -/
structure Message where
  topic : String
  payload : Json
  deriving Repr

/-- The message of an event. -/
def MqttConfig.message (m : MqttConfig) (e : Event) : Message := ⟨m.topic e.name, e.toJson⟩

/-- The most messages that may wait. -/
def queueCapacity : Nat := 64

/-- The messages that wait, and whether there is a connection to take them. -/
structure Outbound where
  waiting : List Message
  connected : Bool

/-- Whether messages can be published under a topic. -/
def isPublishable (topic : String) : Bool := !topic.toList.any fun c => c == '#' || c == '+'

/-- Queues a message, if that is possible. -/
def Outbound.offer (q : Outbound) (m : Message) : Option Outbound :=
  if q.connected && q.waiting.length < queueCapacity && isPublishable m.topic then
    some { q with waiting := q.waiting ++ [m] }
  else none

end Signalbox
