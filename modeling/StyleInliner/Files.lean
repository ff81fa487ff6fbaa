/-
Files, as far as the command line knows them: they can be read and written, and
either can fail.
-/
import StyleInliner.Error

namespace StyleInliner

/-- How files are reached. -/
structure Files (m : Type → Type) where
  read : String → m (Except FileError ByteArray)
  write : String → String → m (Except FileError Unit)

end StyleInliner
