import Mcrpc.Python.Codec

/-!
# The status and discovery builders of the Python package

`StatusBuilder` of `status.py` and `DiscoverBuilder` of `discover.py` for values that are strings or
`None`. The fields are a list until they are written, when they become a dictionary.
-/

namespace Mcrpc.Python

structure StatusBuilder where
  fields : List (Text × Text) := []

namespace StatusBuilder

def add (b : StatusBuilder) (key : Text) (value : Option Text) : Bool × StatusBuilder :=
  match value with
  | none => (false, b)
  | some rendered =>
    if key = [] then (false, b) else (true, { fields := b.fields ++ [(key, rendered)] })

def write (b : StatusBuilder) : Text :=
  if b.fields = [] then "status".toList
  else "status ".toList ++ formatKv (Dict.empty.setAll b.fields)

end StatusBuilder

structure DiscoverBuilder where
  name : Text := []
  fields : List (Text × Text) := []

namespace DiscoverBuilder

def setNodeName (b : DiscoverBuilder) (name : Option Text) : DiscoverBuilder :=
  { b with name := name.getD [] }

def add (b : DiscoverBuilder) (key : Text) (value : Option Text) : Bool × DiscoverBuilder :=
  match value with
  | none => (false, b)
  | some value =>
    if key = [] then (false, b) else (true, { b with fields := b.fields ++ [(key, value)] })

def write (b : DiscoverBuilder) : Text :=
  let name := if b.name = [] then "node".toList else b.name
  if b.fields = [] then name else name ++ ' ' :: formatKv (Dict.empty.setAll b.fields)

end DiscoverBuilder
end Mcrpc.Python
