import Switchboard.Registry.Handler

namespace Switchboard

structure Registry where
  services : Store Service

namespace Registry

def empty : Registry := ⟨.empty⟩

def serviceNames (r : Registry) : List String := r.services.order

def service? (r : Registry) (name : String) : Option Service := r.services.find? name

def size (r : Registry) : Nat := r.services.size

def refusal (name : String) : NameRefusal → ConfigurationError
  | .invalid fault => .invalidServiceName name fault.reason
  | .duplicate => .duplicateService name

def register (r : Registry) (s : Service) : Except ConfigurationError Unit × Registry :=
  let (result,services) := r.services.register s.name s
  (result.mapError (refusal s.name),⟨services⟩)

def attempt (r : Registry) (s : Service) : Registry := (r.register s).2

-- A listed name under which there is no service is passed over.
def checkNamed (r : Registry) (name : String) : Except ConfigurationError Unit :=
  match r.service? name with
  | some service => service.validate
  | none => .ok ()

def newHandler (r : Registry) : Except ConfigurationError Handler :=
  if r.size = 0 then .error .emptyRegistry
  else
    match Service.checkAll r.checkNamed r.serviceNames with
    | .error e => .error e
    | .ok () => .ok ⟨r.services.held⟩

def registrationEvents (r : Registry) : List Event :=
  r.serviceNames.filterMap (fun name =>
    (r.service? name).map (fun service => .serviceRegistered name service.operationNames))

def shown (r : Registry) : String :=
  Text.braced "ServiceRegistry"
    [("services",
        "\x7b" ++ Text.listed (r.services.held.entries.map (fun entry => Text.quoted entry.1 ++ ": " ++ entry.2.shown)) ++
          "\x7d"),
      ("order",Text.bracketed (r.serviceNames.map Text.quoted))]

end Registry
end Switchboard
