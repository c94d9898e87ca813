import AccessControl.CommandLine.Argument

/-! The switches and commands of the command line, and the help texts that list them. -/

namespace AccessControl.CommandLine

def program : String := "bastion-eval"
def versionText : String := program ++ " 0.1.0\n"

def snapshotVariable : String := "BASTION_SNAPSHOT"
def configVariable : String := "BASTION_CONFIG"

def leadSwitches : List Switch := [
  ⟨"snapshot", some 's', true⟩, ⟨"config", some 'c', true⟩, ⟨"verbose", some 'v', false⟩,
  ⟨"help", some 'h', false⟩, ⟨"version", some 'V', false⟩]

def commandSwitches : List Switch := [
  ⟨"org", none, true⟩, ⟨"group", none, true⟩, ⟨"at", none, true⟩, ⟨"help", some 'h', false⟩]

structure Command where
  name : String
  about : String
  words : List String
  repeats : Bool
deriving DecidableEq, Repr

def checkCommand : Command :=
  ⟨"check", "Decide a single request", ["PRINCIPAL", "RESOURCE_TYPE", "RESOURCE_ID", "ACTION"],
    false⟩

def expandCommand : Command :=
  ⟨"expand", "List which of the given actions are allowed",
    ["PRINCIPAL", "RESOURCE_TYPE", "RESOURCE_ID", "ACTIONS"], true⟩

def rolesCommand : Command :=
  ⟨"roles", "Show the effective role set with provenance", ["PRINCIPAL"], false⟩

def commands : List Command := [checkCommand, expandCommand, rolesCommand]

def lines (texts : List String) : String :=
  String.join (texts.map (· ++ "\n"))

def padded (width : Nat) (s : String) : String :=
  s ++ String.ofList (List.replicate (width - s.length) ' ')

def columns (rows : List (String × String)) : List String :=
  let width := (rows.map (·.1.length)).foldl max 0
  rows.map fun row => "  " ++ padded width row.1 ++ "  " ++ row.2

def Command.places (c : Command) : List String :=
  c.words.mapIdx fun i word =>
    "<" ++ word ++ ">" ++ if c.repeats && i + 1 == c.words.length then "..." else ""

def Command.help (c : Command) : String :=
  lines ([c.about, "",
    "Usage: " ++ program ++ " --snapshot <SNAPSHOT> " ++ c.name ++ " [OPTIONS] " ++
      " ".intercalate c.places, "", "Arguments:"] ++ columns (c.places.map (·, "")) ++
    ["", "Options:"] ++ columns [
      ("    --org <ORG>", "Organization in context"),
      ("    --group <GROUP>", "Group in context"),
      ("    --at <AT>", "Evaluate at this instant (RFC 3339) instead of now"),
      ("-h, --help", "Print help")])

def helpAbout : String := "Print this message or the help of the given subcommand(s)"

def helpOnHelp : String :=
  lines ([helpAbout, "", "Usage: " ++ program ++ " --snapshot <SNAPSHOT> help [COMMAND]...", "",
    "Arguments:"] ++ columns [("[COMMAND]...", "Print help for the subcommand(s)")])

def standIn (environment : String → Option String) (name : String) : String :=
  " [env: " ++ name ++ "=" ++ (environment name).getD "" ++ "]"

def helpText (environment : String → Option String) : String :=
  lines (["Evaluate authorization decisions against a store snapshot", "",
    "Usage: " ++ program ++ " [OPTIONS] --snapshot <SNAPSHOT> <COMMAND>", "", "Commands:"] ++
    columns (commands.map (fun c => (c.name, c.about)) ++
      [("help", helpAbout)]) ++
    ["", "Options:"] ++ columns [
      ("-s, --snapshot <SNAPSHOT>",
        "JSON store snapshot" ++ standIn environment snapshotVariable),
      ("-c, --config <CONFIG>",
        "Engine configuration (TOML)" ++ standIn environment configVariable),
      ("-v, --verbose", "Enable verbose logging"),
      ("-h, --help", "Print help"),
      ("-V, --version", "Print version")])

end AccessControl.CommandLine
