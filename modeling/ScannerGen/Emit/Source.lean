import ScannerGen.Emit.Arrays
import ScannerGen.Emit.Functions
import ScannerGen.Emit.Header

/-!
# The source of a generated scanner

The source holds, between the texts of the user, a banner, the tables, the state, the scanner
and the function that names token ids.
-/

namespace ScannerGen

/-- The name of the generator as its outputs give it. -/
def generatorName : String := "ruilex"

def generatorVersion : String := "0.1.0"

end ScannerGen

namespace ScannerGen.Emit

open Code

def flagComment (flag : String) : Item := .comment s!"option: {commentSafe flag}"

/-- Who made the file, and with what flags. -/
def banner (base : String) (options : Options) : List Item :=
  .comment s!"{base}.c: generated by {generatorName} {generatorVersion}. Do not edit." ::
    options.flags.map flagComment ++ [.blank]

def includes (base : String) : List Item :=
  [.includeSystem "stdio.h", .includeSystem "stdlib.h", .includeSystem "string.h", .blank,
   .includeLocal s!"{base}.h", .blank]

def sourceItems (base : String) (tables : Tables) (tokens : TokenTable) (options : Options) :
    List Item :=
  userText options.sourceTop ++
    banner base options ++
    includes base ++
    sizes tables tokens ++
    arrays tables tokens options ++
    (if options.reentrant then reentrantState options else globalState options) ++
    scanner tokens options ++
    [nameFunction options, .blank] ++
    userText options.sourceEnd

end ScannerGen.Emit
