import TemplateLang.Error

/-! What can go wrong when a template is rendered. -/

namespace TemplateLang

/-- Why a node could not be rendered. -/
inductive RenderFault where
  | callDepth (limit : Nat)
  | misplaced (label : String)
  | unknownPlaceholder (key name : String)
  | nullPrint (expr print : String)
  | directive (e : CompileError)
deriving DecidableEq

namespace RenderFault

def message : RenderFault → String
  | .callDepth limit => "call depth exceeds " ++ toString limit
  | .misplaced label => "unexpected " ++ label ++ " inside a template body"
  | .unknownPlaceholder key name =>
    "translation of message '" ++ key ++ "' uses unknown placeholder " ++ name
  | .nullPrint expr print => "expression " ++ expr ++ " in " ++ print ++ " evaluates to null"
  | .directive e => e.message

end RenderFault

inductive RenderError where
  | unknownTemplate (name : String)
  | invalidPartialName (name : String)
  | missingNamespace (name : String)
  | malformedData
  /-- Data that is no object, with its text. -/
  | dataNotObject (found : String)
  | runtime (node : Nat) (fault : RenderFault)
  | compile (e : CompileError)
deriving DecidableEq

namespace RenderError

def message : RenderError → String
  | .unknownTemplate name => "Unknown template '" ++ name ++ "'"
  | .invalidPartialName name =>
    "Template name '" ++ name ++
      "' must be a partial name starting with '.' when rendering within a namespace"
  | .missingNamespace name =>
    "Partial template name '" ++ name ++ "' needs a namespace; use for_namespace first"
  | .malformedData => "Invalid template data: JSON parse error"
  | .dataNotObject found => "Invalid template data: expected an object, found " ++ found
  | .runtime node fault => "Render error at node " ++ nodeName node ++ ": " ++ fault.message
  | .compile e => e.message

end RenderError

end TemplateLang
