import CodeGraph.Path.Basic

/-!
# Module specifiers

The text after `from` in an import names a module: relative to the importing file, from the root
directory, or by a bare name. A specifier may leave the extension out, name a directory with an
index file, or name the compiled sibling of a source file; `candidates` lists the files it may mean.

## Main Definitions

* `Path.isRelativeSpecifier`: whether a specifier is relative to the importing file.
* `Path.candidates`: the files a base path may mean, most specific first.
-/

namespace CodeGraph.Path

/-- Extensions tried, in this order, for a specifier that leaves the extension out. -/
def resolveExtensions : List String :=
  [".ts", ".tsx", ".d.ts", ".js", ".jsx", ".mts", ".cts", ".mjs", ".cjs"]

/-- Extensions of compiled files, each with the extensions of the sources that may stand for it. -/
def sourceExtensions : List (String × List String) :=
  [(".js", [".ts"]), (".jsx", [".tsx"]), (".mjs", [".ts", ".mts"]), (".cjs", [".ts", ".cts"])]

/-- Whether a specifier is relative to the importing file. -/
def isRelativeSpecifier (specifier : String) : Bool :=
  specifier == "." || specifier == ".." ||
    Text.startsIn "./" specifier || Text.startsIn "../" specifier

/-- Whether a specifier starts at the root directory. -/
def isRootedSpecifier (specifier : String) : Bool :=
  isAbsoluteChars specifier.toList

/-- The sources that may stand for a compiled file. -/
def siblings (base : String) : List String :=
  sourceExtensions.flatMap fun (compiled, sources) =>
    match Text.withoutTail? compiled.toList base.toList with
    | some stem => sources.map (String.ofList stem ++ ·)
    | none => []

/-- The files a normalized base path may mean, most specific first: the path itself, sources of
which it is the compiled file, the path with an extension, an index file in the directory. -/
def candidates (base : String) : List String :=
  base :: siblings base
    ++ resolveExtensions.map (base ++ ·)
    ++ resolveExtensions.map fun extension => join base ("index" ++ extension)

end CodeGraph.Path
