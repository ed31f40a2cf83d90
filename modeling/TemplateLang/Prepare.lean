import TemplateLang.Escaping.Basic
import TemplateLang.Name.Overrides
import TemplateLang.Name.Qualified

/-! What every backend relies on: names are made full, repeated names and directives are
checked, and prints are escaped. Steps before one that fails keep their effect. -/

namespace TemplateLang

/-- Prepares a tree, for a backend if one is given. -/
def Tree.prepare (t : Tree) (registry : Registry) (backend : Option Backend) :
    Except CompileError Unit × Tree :=
  let t := t.qualifyNames
  match t.checkOverrides with
  | .error e => (.error e, t)
  | .ok _ =>
    match t.checkDirectives registry backend with
    | .error e => (.error e, t)
    | .ok _ =>
      let (count, t) := t.markEscapingSites.insertEscapes registry
      (count.map fun _ => (), t)

end TemplateLang
