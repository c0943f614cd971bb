/-
The catalogue of builtins, with an entry for each.
-/
import Proviso.Builtin.Catalogue.Amounts
import Proviso.Builtin.Catalogue.Shapes
import Proviso.Builtin.Catalogue.Times
import Proviso.Builtin.Catalogue.Trees
import Proviso.Builtin.Catalogue.Governance

namespace Proviso

/-- the entries of all builtins -/
def catalogue : List Entry :=
  Catalogue.amounts ++ Catalogue.shapes ++ Catalogue.times ++ Catalogue.trees ++ Catalogue.governance

/-- the entry of the builtin of that name -/
def Entry.ofName? (name : String) : Option Entry := catalogue.find? (·.builtin.name = name)

/-- the catalogue has an entry for every builtin, in the order of `Builtin.all` -/
theorem catalogue_builtins : catalogue.map (·.builtin) = Builtin.all := rfl

end Proviso
