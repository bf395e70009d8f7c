import Reckoner.Text.Utf8
import Reckoner.Yaml.Value.Builder

/-!
# Loaders of YAML files

What makes a document of the bytes of a file is a parameter of the contexts that are described in
files, so that laws can be stated for any loader. A loader may decode the bytes as it goes: one that
finds the text malformed early on does not notice bytes further on that are no text. The program
runs with `Loader.whole`, which decodes all of the bytes before it reads any text.
-/
namespace Reckoner.Yaml

/-- Why the bytes of a file give no document. -/
inductive Unread where
  /-- The text is no document, which the loader may explain. -/
  | malformed (explanation : Option String)
  /-- The bytes are no text. -/
  | undecodable (message : String)
  /-- A value of the document cannot be built. -/
  | escaped (f : Failure)

def Unread.ofDefect : Defect → Unread
  | .malformed => malformed none
  | .escaped f => escaped f

abbrev Loader := ByteArray → Except Unread Document

/-- Reads the text that all of the bytes are decoded to, and explains nothing. -/
def Loader.whole : Loader := fun bytes =>
  match Text.Utf8.decode bytes with
  | .error message => .error (.undecodable message)
  | .ok text => (Document.ofText text).mapError Unread.ofDefect

end Reckoner.Yaml
