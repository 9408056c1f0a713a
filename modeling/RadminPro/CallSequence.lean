import RadminPro.ClientCalls

namespace RadminPro

open ByteCodec

/-!
# Calls one after the other

A client makes its calls on one connection, the next when the last has returned.
Nothing but their order tells it which call a reply belongs to; so what a call
has written and read is kept with it.
-/

/-- A party's next action, with another party put in its place. -/
def FifoLink.Action.map
    {Party Other Sent Received : Type}
    (embed : Party → Other) :
    FifoLink.Action Party Sent Received → FifoLink.Action Other Sent Received
  | .stop => .stop
  | .go sent next => .go sent (embed next)
  | .wait receive => .wait fun m => embed (receive m)

/-- A call that has returned, with what it wrote and read. -/
structure CallRecord where
  call : ClientCall
  sent : List Message
  consumed : List Message
  returned : Bool

/-- What the client is doing. -/
inductive CallerPhase where
  | between (app : ClientApp)
  | calling
      (call : ClientCall) (state : CallState) (sent consumed : List Message)

/-- The calls still to come, what the client is doing and the calls so far. -/
structure Caller where
  pending : List ClientCall
  phase : CallerPhase
  records : List CallRecord := []

namespace CallState

/-- What a call does next on a reliable transport. -/
def action
    (sha256 : Bytes → Hash256)
    (answers : Nat → LocalAnswer) :
    CallState → FifoLink.Action CallState Message Message
  | .transfer app => (app.action sha256 answers).map .transfer
  | .requesting app op payload =>
      .go (if withinCap payload then [⟨.known op, payload⟩] else [])
        (.resultAwaited app)
  | .resultAwaited app =>
      .wait fun m =>
        .transfer
          { app with phase := ClientApp.opResultReceived (some m) }

/-- The value that a call has returned. -/
def verdict? : CallState → Option (ClientApp × Bool)
  | .transfer app =>
      match app.phase with
      | .returned ok => some (app, ok)
      | _ => none
  | .requesting .. | .resultAwaited _ => none

end CallState

namespace Caller

/-- What the client does next; each call finds its own local disk. -/
def action
    (sha256 : Bytes → Hash256)
    (answers : Nat → LocalAnswer)
    (disk : Nat → Files)
    (caller : Caller) : FifoLink.Action Caller Message Message :=
  match caller.phase with
  | .between app =>
      match caller.pending with
      | [] => .stop
      | call :: rest =>
          let found := { app with files := disk caller.records.length }
          .go []
            { caller with
              pending := rest
              phase := .calling call (call.begin found) [] [] }
  | .calling call state sent consumed =>
      match state.verdict? with
      | some (app, returned) =>
          .go []
            { caller with
              phase := .between app
              records :=
                caller.records ++ [{ call, sent, consumed, returned }] }
      | none =>
          match state.action sha256 answers with
          | .stop => .stop
          | .go written next =>
              .go written
                { caller with
                  phase := .calling call next (sent ++ written) consumed }
          | .wait receive =>
              .wait fun m =>
                { caller with
                  phase := .calling call (receive m) sent (consumed ++ [m]) }

end Caller

end RadminPro
