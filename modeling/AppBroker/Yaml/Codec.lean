import AppBroker.Yaml.Construct
import AppBroker.Yaml.Print

/-!
# Codecs

A codec writes documents as text and reads text as values. The standard one writes block style and
reads numbers as numbers.
-/

namespace AppBroker.Yaml

/-- A way to write documents and to read them. -/
structure Codec where
  print : Document → String
  load : List Char → Outcome Value

namespace Codec

/-- The codec for everything that is kept. -/
def standard : Codec := ⟨Yaml.print, Yaml.load true⟩

end Codec

end AppBroker.Yaml
