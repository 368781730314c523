/-!
# Documents of lines
-/

namespace RelayKeeper.Document

def ofLines (lines : List String) : String :=
  String.join (lines.map (· ++ "\n"))

end RelayKeeper.Document
