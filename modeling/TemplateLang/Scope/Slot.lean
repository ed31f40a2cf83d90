/-! The slots of a call scope, which the parameters of a call are bound to. -/

namespace TemplateLang

inductive Slot where
  | msgBundle
  | localeString
  | bidiGlobalDir
deriving DecidableEq

namespace Slot

def name : Slot → String
  | .msgBundle => "MsgBundle"
  | .localeString => "LocaleString"
  | .bidiGlobalDir => "BidiGlobalDir"

end Slot

end TemplateLang
