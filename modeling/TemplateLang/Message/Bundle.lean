import TemplateLang.Json.Raw

/-! Bundles of messages localized for one locale. A message is a list of parts, each
literal text or a placeholder that names a print of the message by its source. In
JSON a bundle is an object or array of its locale and messages; of messages with the
same key the last counts. -/

namespace TemplateLang

inductive MessagePart where
  | text (content : String)
  | placeholder (name : String)
deriving DecidableEq

/-- Messages by key, in increasing order of key. -/
structure Bundle where
  locale : String
  messages : List (String × List MessagePart)
deriving DecidableEq

namespace MessagePart

def ofRaw? (r : Json.Raw) : Option MessagePart := do
  match ← r.choice? with
  | ("text", content) => return .text (← content.string?)
  | ("placeholder", name) => return .placeholder (← name.string?)
  | _ => none

def toJson : MessagePart → Json
  | .text content => .object [("text", .string content)]
  | .placeholder name => .object [("placeholder", .string name)]

end MessagePart

namespace Bundle

def get? (b : Bundle) (key : String) : Option (List MessagePart) :=
  (b.messages.find? (·.1 = key)).map (·.2)

def size (b : Bundle) : Nat := b.messages.length

def messagesOfRaw? : Json.Raw → Option (List (String × List MessagePart))
  | .object fields => do
    let messages ← fields.mapM fun (key, parts) => do
      return (← key, ← parts.list? MessagePart.ofRaw?)
    return Json.sortFields messages
  | _ => none

def ofRaw? (r : Json.Raw) : Option Bundle := do
  match ← r.record? ["locale", "messages"] with
  | [some locale, messages] =>
    return ⟨← locale.string?, ← messagesOfRaw? (messages.getD (.object []))⟩
  | _ => none

def ofText? (text : String) : Option Bundle := do ofRaw? (← Json.Raw.ofText? text)

end Bundle

end TemplateLang
