/-!
# The command line of the loader
-/

namespace StacCatalog.Loading

/-- What the user chose. -/
structure Options where
  baseUrl : String
  collection : String
  inBulk : Bool
  folder : String
  deriving DecidableEq, Repr

/-- What the user wants. -/
inductive Command where
  | help
  | load (options : Options)
  /-- The arguments make no sense. -/
  | misuse
  deriving DecidableEq, Repr

/-- The options with a value. -/
inductive Valued where
  | baseUrl
  | collection
  | folder
  deriving DecidableEq, Repr

/-- The options without a value. -/
inductive Flag where
  | inBulk
  | help
  deriving DecidableEq, Repr

inductive Argument where
  /-- The end of the options. -/
  | divider
  | valued (option : Valued) (value : Option String)
  | flag (f : Flag) (value : Option String)
  | unknown
  | word
  deriving DecidableEq, Repr

/-- The name of an option, and the value after its equals sign. -/
def splitValue (arg : List Char) : String × Option String :=
  let name := String.ofList (arg.takeWhile (· != '='))
  match arg.dropWhile (· != '=') with
  | _ :: value => (name, some (String.ofList value))
  | [] => (name, none)

/-- What an argument is. A dash on its own is no option. -/
def Argument.ofText (arg : String) : Argument :=
  match arg.toList with
  | ['-', '-'] => .divider
  | '-' :: c :: rest =>
    match splitValue ('-' :: c :: rest) with
    | ("--base-url", value) => .valued .baseUrl value
    | ("--collection-id", value) => .valued .collection value
    | ("--data-dir", value) => .valued .folder value
    | ("--use-bulk", value) => .flag .inBulk value
    | ("--help", value) => .flag .help value
    | _ => .unknown
  | _ => .word

/-! ### Reading -/

structure Progress where
  baseUrl : Option String := none
  collection : Option String := none
  folder : Option String := none
  inBulk : Bool := false
  help : Bool := false
  /-- Whether there are arguments that are no options. -/
  words : Bool := false
  deriving DecidableEq, Repr

def Progress.set (p : Progress) (option : Valued) (value : String) : Progress :=
  match option with
  | .baseUrl => { p with baseUrl := some value }
  | .collection => { p with collection := some value }
  | .folder => { p with folder := some value }

def Progress.mark (p : Progress) (f : Flag) : Progress :=
  match f with
  | .inBulk => { p with inBulk := true }
  | .help => { p with help := true }

/-- Reads arguments; `none` if an option is unknown, lacks its value, or has one it does not take.
-/
def Progress.read (p : Progress) : List String → Option Progress
  | [] => some p
  | arg :: rest =>
    match Argument.ofText arg with
    | .divider => some { p with words := p.words || !rest.isEmpty }
    | .word => Progress.read { p with words := true } rest
    | .flag f none => (p.mark f).read rest
    | .valued option (some value) => (p.set option value).read rest
    | .valued option none =>
      match rest with
      | value :: rest => (p.set option value).read rest
      | [] => none
    | .flag _ (some _) | .unknown => none

/-- The command after all arguments. -/
def Progress.command (p : Progress) : Command :=
  if p.help then .help
  else if p.words then .misuse
  else
    match p.baseUrl with
    | none => .misuse
    | some baseUrl =>
      .load ⟨baseUrl, p.collection.getD "test-collection", p.inBulk, p.folder.getD "sample_data/"⟩

/-- The command that arguments say. -/
def Command.ofArguments (args : List String) : Command :=
  match Progress.read {} args with
  | some p => p.command
  | none => .misuse

/-- The text of the help, under the name of the program. -/
def help (program : String) : String :=
  "Usage: " ++ program ++ " [OPTIONS]\n" ++
  "\n" ++
  "  Load STAC items into the database.\n" ++
  "\n" ++
  "Options:\n" ++
  "  --base-url TEXT       Base URL of the STAC API  [required]\n" ++
  "  --collection-id TEXT  ID of the collection to which items are added\n" ++
  "  --use-bulk            Use bulk insert method for items\n" ++
  "  --data-dir PATH       Directory containing collection.json and feature\n" ++
  "                        collection file\n" ++
  "  --help                Show this message and exit.\n"

end StacCatalog.Loading
