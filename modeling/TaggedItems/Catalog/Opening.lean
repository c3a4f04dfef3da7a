import TaggedItems.Catalog.Run
/-!
# Opening a catalog

A catalog is kept in memory or in a file. Only opening it reports a failure, since nothing can be
served without it.
-/
namespace TaggedItems.Catalog

/-- What is found at the place where a catalog is to be kept. -/
inductive Place where
  | nothing
  | emptyFile
  | catalog (held : Catalog)
  | otherFile
  | directory
  | noDirectory
  deriving DecidableEq

/-- Why a catalog cannot be opened. -/
inductive OpenFault where
  | notACatalog
  | noFile
  deriving DecidableEq

/-- Opens the catalog at a place. Where there is none yet it starts out empty. -/
def openAt : Place → Except OpenFault Catalog
  | .nothing | .emptyFile => .ok initial
  | .catalog held => .ok held.reopen
  | .otherFile => .error .notACatalog
  | .directory | .noDirectory => .error .noFile

end TaggedItems.Catalog
