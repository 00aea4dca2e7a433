import Switchboard.Registry.Definition

namespace Switchboard

inductive ConfigurationError where
  | invalidServiceName (name reason : String)
  | invalidOperationName (service name reason : String)
  | duplicateService (name : String)
  | duplicateOperation (service operation : String)
  | emptyRegistry
  | emptyService (service : String)
  | missingOperation (service operation : String)
  | undeclaredOperation (service operation : String)
  | typeMismatch (service operation : String)
      (expectedInput expectedOutput actualInput actualOutput : Ty)
deriving DecidableEq

def ConfigurationError.message : ConfigurationError → String
  | .invalidServiceName name reason => "invalid service name " ++ Text.quoted name ++ ": " ++ reason
  | .invalidOperationName service name reason =>
    "invalid operation name " ++ Text.quoted name ++ " in service " ++ service ++ ": " ++ reason
  | .duplicateService name => "duplicate service: " ++ name
  | .duplicateOperation service operation =>
    "duplicate operation " ++ operation ++ " in service " ++ service
  | .emptyRegistry => "must register at least one service"
  | .emptyService service => "service " ++ service ++ " has no operations registered"
  | .missingOperation service operation =>
    "service " ++ service ++ " does not implement declared operation " ++ operation
  | .undeclaredOperation service operation =>
    "service " ++ service ++ " registers undeclared operation " ++ operation
  | .typeMismatch service operation expectedInput expectedOutput actualInput actualOutput =>
    "operation " ++ service ++ "/" ++ operation ++ " is declared as " ++ expectedInput.typeName ++
      " -> " ++ expectedOutput.typeName ++ " but registered as " ++ actualInput.typeName ++ " -> " ++
      actualOutput.typeName

end Switchboard
