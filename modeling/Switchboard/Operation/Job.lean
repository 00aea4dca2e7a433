namespace Switchboard

-- A job can neither touch its input again nor write to the log.

inductive Job (α : Type) where
  | done (result : α)
  | ticket (gate : String) (next : Job α)
  | cancellation (next : Job α)
  | isCancelled (next : Bool → Job α)

namespace Job

def bind {α β : Type} (job : Job α) (f : α → Job β) : Job β :=
  match job with
  | .done a => f a
  | .ticket gate next => .ticket gate (next.bind f)
  | .cancellation next => .cancellation (next.bind f)
  | .isCancelled next => .isCancelled (fun answer => (next answer).bind f)

instance : Monad Job where
  pure := .done
  bind := Job.bind

def askCancelled : Job Bool := .isCancelled .done

def awaitTicket (gate : String) : Job Unit := .ticket gate (.done ())

def awaitCancellation : Job Unit := .cancellation (.done ())

end Job
end Switchboard
