/-! Printed text made of lines. -/

namespace PostfixSheet

def linesText (lines : List String) : String :=
  String.join (lines.map (· ++ "\n"))

end PostfixSheet
