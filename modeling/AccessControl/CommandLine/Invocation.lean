import AccessControl.CommandLine.Help
import AccessControl.Instant.Relaxed
import AccessControl.Request

/-!
What a command line asks for. Its arguments are read in their order: the first one that cannot be
used makes the whole line unusable, and a call for help or for the version ends the reading where
it stands. A value in an argument of its own is only judged when the next one is read.
-/

namespace AccessControl.CommandLine

inductive Query where
  | check (request : AccessRequest)
  | expand (principal type resource : String) (actions : List String)
  | roles (principal : String)
deriving DecidableEq, Repr

structure Invocation where
  snapshot : String
  config : Option String
  organization : Option String
  group : Option String
  instant : Option Instant
  query : Query
deriving DecidableEq, Repr

inductive Ending where
  | shown (text : String)
  | refused (fault : UsageFault)
deriving DecidableEq, Repr

structure Gathered where
  words : List String
  settings : List (String × String)
  waiting : Option (String × String)
deriving DecidableEq, Repr

namespace Gathered

def empty : Gathered := ⟨[], [], none⟩

def value? (g : Gathered) (name : String) : Option String := g.settings.lookup name

def isValid (name value : String) : Bool :=
  if name = "snapshot" ∨ name = "config" then !value.isEmpty
  else if name = "at" then (Instant.ofRelaxedText? value).isSome
  else true

def put (g : Gathered) (name value : String) : Except Ending Gathered :=
  if (g.value? name).isSome then .error (.refused (.repeated name))
  else if isValid name value then .ok { g with settings := (name, value) :: g.settings }
  else .error (.refused (.invalid name value))

def settle (g : Gathered) : Except Ending Gathered :=
  match g.waiting with
  | none => .ok g
  | some (name, value) => { g with waiting := none }.put name value

end Gathered

def take (texts : List (String × String)) (limit : Option Nat) (g : Gathered) :
    ArgumentPart → Except Ending Gathered
  | .word text => do
    let g ← g.settle
    if limit.any (· ≤ g.words.length) then .error (.refused (.unexpected text))
    else .ok { g with words := text :: g.words }
  | .flag name => do
    let g ← g.settle
    match texts.lookup name with
    | some text => .error (.shown text)
    | none => g.put name ""
  | .joined name value => do
    let g ← g.settle
    g.put name value
  | .apart name value => do
    let g ← g.settle
    .ok { g with waiting := some (name, value) }
  | .marker => .ok g
  | .unusable fault => .error (.refused fault)

def takeAll (texts : List (String × String)) (limit : Option Nat) (g : Gathered)
    (parts : List ArgumentPart) : Except Ending Gathered := do
  (← parts.foldlM (take texts limit) g).settle

def Command.query (c : Command) (words : List String) : Except UsageFault Query :=
  match c.words[words.length]? with
  | some word => .error (.missing word)
  | none =>
    match words with
    | [principal] => .ok (.roles principal)
    | principal :: type :: resource :: action :: rest =>
      if c.repeats then .ok (.expand principal type resource (action :: rest))
      else .ok (.check ⟨principal, type, resource, action⟩)
    | words => .error (.unexpected (" ".intercalate words))

def Command.read (c : Command) (args : List String) : Except Ending (Gathered × Query) := do
  let limit := if c.repeats then none else some c.words.length
  let parts := (ArgumentPart.ofArguments commandSwitches args).map (·.1)
  let g ← takeAll [("help", c.help)] limit .empty parts
  match c.query g.words.reverse with
  | .ok query => .ok (g, query)
  | .error fault => .error (.refused fault)

def helpOn (environment : String → Option String) : List String → Ending
  | [] => .shown (helpText environment)
  | name :: rest =>
    let texts := ("help", helpOnHelp) :: commands.map fun c => (c.name, c.help)
    match texts.lookup name, rest with
    | some text, [] => .shown text
    | some _, extra :: _ => .refused (.unknownCommand extra)
    | none, _ => .refused (.unknownCommand name)

def path? (environment : String → Option String) (g : Gathered) (name stand : String) :
    Except Ending (Option String) :=
  match g.value? name, environment stand with
  | some path, _ => .ok (some path)
  | none, some path => if path.isEmpty then .error (.refused (.invalid name path)) else .ok path
  | none, none => .ok none

def assemble (environment : String → Option String) (lead inner : Gathered) (query : Query) :
    Except Ending Invocation := do
  let lead ← lead.settle
  let snapshot ← path? environment lead "snapshot" snapshotVariable
  let config ← path? environment lead "config" configVariable
  match snapshot with
  | none => .error (.refused (.missing "SNAPSHOT"))
  | some snapshot => .ok {
      snapshot := snapshot
      config := config
      organization := inner.value? "org"
      group := inner.value? "group"
      instant := (inner.value? "at").bind Instant.ofRelaxedText?
      query := query }

def command (environment : String → Option String) (lead : Gathered) (name : String)
    (args : List String) : Except Ending Invocation :=
  if name = "help" then .error (helpOn environment args)
  else match commands.find? (·.name == name) with
    | none => .error (.refused (.unknownCommand name))
    | some c => do
      let (inner, query) ← c.read args
      assemble environment lead inner query

def leadTexts (environment : String → Option String) : List (String × String) :=
  [("help", helpText environment), ("version", versionText)]

def readParts (environment : String → Option String) (lead : Gathered) :
    List (ArgumentPart × List String) → Except Ending Invocation
  | [] => .error (.refused .noCommand)
  | (.word name, args) :: _ => command environment lead name args
  | (.marker, _) :: _ => .error (.refused .noCommand)
  | (part, _) :: parts => do
    let lead ← take (leadTexts environment) none lead part
    readParts environment lead parts

def Invocation.read (environment : String → Option String) (args : List String) :
    Except Ending Invocation :=
  readParts environment .empty (ArgumentPart.ofArguments leadSwitches args)

end AccessControl.CommandLine
