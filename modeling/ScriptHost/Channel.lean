/-!
Message channels. What is sent waits for the receiver, as long as there is one.
-/

namespace ScriptHost

structure Channel (α : Type) where
  waiting : Array α
  isClosed : Bool
  deriving DecidableEq, Repr

namespace Channel

variable {α : Type}

def new : Channel α := ⟨#[], false⟩

/-- Whether the message will reach the receiver. -/
def send (c : Channel α) (message : α) : Bool × Channel α :=
  if c.isClosed then (false, c) else (true, { c with waiting := c.waiting.push message })

def receive (c : Channel α) : Option α × Channel α :=
  (c.waiting[0]?, { c with waiting := c.waiting.drop 1 })

def drain (c : Channel α) : List α × Channel α :=
  (c.waiting.toList, { c with waiting := #[] })

def drop (_ : Channel α) : Channel α := ⟨#[], true⟩

theorem waiting_send (c : Channel α) (message : α) :
    (c.send message).2.waiting = if c.isClosed then c.waiting else c.waiting.push message := by
  unfold send
  split <;> rfl

theorem isClosed_send (c : Channel α) (message : α) :
    (c.send message).2.isClosed = c.isClosed := by
  unfold send
  split <;> rfl

end Channel

end ScriptHost
