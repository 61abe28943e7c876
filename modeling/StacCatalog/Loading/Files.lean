import StacCatalog.Loading.Upload

/-!
# Files held in memory, as texts by their paths
-/

namespace StacCatalog.Loading

/-- Texts by their paths, each path a list of names from the top. -/
abbrev Files := List (List String × String)

namespace Files

/-- The files of the given paths, which are written with slashes. -/
def ofPaths (files : List (String × String)) : Files :=
  files.map fun (path, text) => (path.splitOn "/", text)

/-- What stands in a folder, each name once and in the order of the files. -/
def entries (files : Files) (folder : List String) : List (String × Entry) :=
  files.foldl (fun found (path, text) =>
    match folder.isPrefixOf path, path.drop folder.length with
    | true, [name] => found ++ [(name, .file text)]
    | true, name :: _ => if (found.lookup name).isSome then found else found ++ [(name, .folder)]
    | _, _ => found) []

/-- What is found by following names from a folder. -/
def follow (files : Files) (folder : List String) : List String → Place
  | [] => .folder (files.entries folder)
  | "" :: rest | "." :: rest => files.follow folder rest
  | ".." :: rest => if folder.isEmpty then .absent else files.follow folder.dropLast rest
  | name :: rest =>
    match (files.entries folder).lookup name with
    | some .folder => files.follow (folder ++ [name]) rest
    | some (.file _) => if rest.isEmpty then .file else .absent
    | none => .absent

/-- What stands at a path. -/
def place (files : Files) (path : String) : Place :=
  if path == "" || path.startsWith "/" then .absent else files.follow [] (path.splitOn "/")

end Files

end StacCatalog.Loading
