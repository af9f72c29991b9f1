import TopicQuery.Iri
import TopicQuery.Xml.Read

/-!
Why a document cannot be had or read.
-/

namespace TopicQuery

/-- Why a file cannot be used. -/
inductive FileFault
  | notFound
  | notDirectory
  | isDirectory
  | nameTooLong
  | denied
  | badName
  | other (text : String)
  deriving DecidableEq, Repr

/-- The description of a fault, with the number the system gives it. -/
def FileFault.message : FileFault → String
  | notFound => "No such file or directory (os error 2)"
  | notDirectory => "Not a directory (os error 20)"
  | isDirectory => "Is a directory (os error 21)"
  | nameTooLong => "File name too long (os error 36)"
  | denied => "Permission denied (os error 13)"
  | badName => "file name contained an unexpected NUL byte"
  | other text => text

/-- Why a document could not be had. -/
inductive SourceFault
  | badIri (text : String) (fault : IriFault)
  | badXml (fault : XmlFault)
  | cannotOpen (path : String) (fault : FileFault)
  | unreadable (fault : FileFault)
  | badStream
  | noLocalPath (iri : Iri)
  | moduleNotFound (iri : Iri)
  | tooManyModules
  deriving DecidableEq, Repr

/-- The description of a fault. -/
def SourceFault.message : SourceFault → String
  | badIri text fault => "invalid IRI <" ++ text ++ ">: " ++ fault.message
  | badXml fault => fault.message
  | cannotOpen path fault => "cannot open " ++ path ++ ": " ++ fault.message
  | unreadable fault => fault.message
  | badStream => "stream did not contain valid UTF-8"
  | noLocalPath iri => "no local path for <" ++ iri.text ++ ">"
  | moduleNotFound iri => "module <" ++ iri.text ++ "> not found"
  | tooManyModules => "too many modules"

end TopicQuery
