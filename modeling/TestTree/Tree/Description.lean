/-
Descriptions: what identifies one test.

* `Description` : the container, the name and the place of the declaration;
* `Description.same` : container and name decide, the location does not.
-/
import TestTree.Tree.Context

namespace TestTree

/-- The identity of a test. -/
structure Description where
  container : Context
  name : String
  location : Location
  deriving Inhabited

namespace Description

/-- The declared name of the test in its container. -/
def place (d : Description) : Place :=
  ⟨d.container, d.name⟩

/-- The names from the root down to the test. -/
def path (d : Description) : NamePath :=
  d.place.path

/-- The same name in the same context. -/
def same (d e : Description) : Bool :=
  d.name == e.name && d.container == e.container

instance : BEq Description := ⟨same⟩

/-- The test as text: `root > outer : name`. -/
def display (d : Description) : String :=
  d.container.display ++ " : " ++ d.name

/-- The description of a test as a value. -/
def describe (d : Description) : String :=
  Text.record "TestDescription"
    [("container", d.container.describe), ("name", Text.quoted d.name),
     ("location", d.location.describe)]

end Description

end TestTree
