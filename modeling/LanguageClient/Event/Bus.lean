import LanguageClient.Json.Basic

/-!
# Events

What happens on a connection is told to every subscriber. A subscriber reads at its own
pace; one that falls behind by more than the bus holds is told how many events it lost and
goes on with the oldest one held.
-/

namespace LanguageClient

inductive Event where
  | diagnostics (uri : String) (version : Option Int) (count : Nat)
  | logMessage (level : Nat) (message : String)
  | showMessage (level : Nat) (message : String)
  | progress (token value : Json)
  | exited (code : Option Int)
  | stopped
  deriving DecidableEq, Repr, Inhabited

namespace Event

def toJson : Event → Json
  | .diagnostics uri version count =>
    Json.ofMembers [("kind", .str "diagnostics"), ("uri", .str uri),
      ("version", Json.ofOption .int version), ("count", Json.ofNat count)]
  | .logMessage level message =>
    Json.ofMembers [("kind", .str "logMessage"), ("level", Json.ofNat level),
      ("message", .str message)]
  | .showMessage level message =>
    Json.ofMembers [("kind", .str "showMessage"), ("level", Json.ofNat level),
      ("message", .str message)]
  | .progress token value =>
    Json.ofMembers [("kind", .str "progress"), ("token", token), ("value", value)]
  | .exited code => Json.ofMembers [("kind", .str "exited"), ("code", Json.ofOption .int code)]
  | .stopped => Json.ofMembers [("kind", .str "stopped")]

end Event

/-- All events so far, the oldest first. -/
structure EventBus where
  log : Array Event
  deriving Repr, Inhabited

/-- The number of the event that a subscriber reads next. -/
structure Subscription where
  next : Nat
  deriving DecidableEq, Repr, Inhabited

inductive Received where
  | event (e : Event)
  /-- Events that were no longer held. -/
  | lagged (count : Nat)
  | empty
  deriving DecidableEq, Repr

namespace EventBus

def capacity : Nat := 256

def empty : EventBus := ⟨#[]⟩

def publish (bus : EventBus) (e : Event) : EventBus :=
  ⟨bus.log.push e⟩

def subscribe (bus : EventBus) : Subscription :=
  ⟨bus.log.size⟩

def receive (bus : EventBus) (s : Subscription) : Received × Subscription :=
  if capacity < bus.log.size - s.next then
    (.lagged (bus.log.size - capacity - s.next), ⟨bus.log.size - capacity⟩)
  else
    match bus.log[s.next]? with
    | some e => (.event e, ⟨s.next + 1⟩)
    | none => (.empty, s)

def unread (bus : EventBus) (s : Subscription) : List Event × Subscription :=
  (bus.log.toList.drop (max s.next (bus.log.size - capacity)), ⟨bus.log.size⟩)

end EventBus
end LanguageClient
