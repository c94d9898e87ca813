import AccessControl.Text.Quoted

/-!
Arguments of a command line, taken apart. A switch is written with its name after two dashes or,
where it has one, with its letter after one dash, alone or among others; its value is in the same
argument or is the next one. After two dashes alone all that follows is words.
-/

namespace AccessControl

structure Switch where
  name : String
  letter : Option Char
  valued : Bool
deriving DecidableEq, Repr

inductive UsageFault where
  | unexpected (argument : String)
  | unknownCommand (name : String)
  | noCommand
  | noValue (name : String)
  | repeated (name : String)
  | invalid (name value : String)
  | missing (name : String)
deriving DecidableEq, Repr

def UsageFault.message : UsageFault → String
  | .unexpected argument => "unexpected argument '" ++ argument ++ "' found"
  | .unknownCommand name => "unrecognized subcommand '" ++ name ++ "'"
  | .noCommand => "a subcommand is required but one was not provided"
  | .noValue name => "a value is required for '--" ++ name ++ "' but none was supplied"
  | .repeated name => "the argument '--" ++ name ++ "' cannot be used multiple times"
  | .invalid name value => "invalid value '" ++ value ++ "' for '--" ++ name ++ "'"
  | .missing name => "the required argument <" ++ name ++ "> was not provided"

inductive ArgumentPart where
  | word (text : String)
  | flag (name : String)
  | joined (name value : String)
  | apart (name value : String)
  | marker
  | unusable (fault : UsageFault)
deriving DecidableEq, Repr

namespace ArgumentPart

abbrev Said := List ArgumentPart × Option String

def ofName (switches : List Switch) (argument : String) (text : List Char) : Said :=
  let name := String.ofList (text.takeWhile (· ≠ '='))
  match switches.find? (·.name == name), text.dropWhile (· ≠ '=') with
  | some s, [] => if s.valued then ([], some name) else ([flag name], none)
  | some s, _ :: value =>
    if s.valued then ([joined name (String.ofList value)], none)
    else ([unusable (.unexpected argument)], none)
  | none, _ => ([unusable (.unexpected argument)], none)

def ofLetters (switches : List Switch) (argument : String) : List Char → Said
  | [] => ([], none)
  | c :: cs =>
    match switches.find? (·.letter == some c) with
    | none => ([unusable (.unexpected argument)], none)
    | some s =>
      if s.valued then
        match cs with
        | [] => ([], some s.name)
        | '=' :: value => ([joined s.name (String.ofList value)], none)
        | value => ([joined s.name (String.ofList value)], none)
      else
        let (parts, waiting) := ofLetters switches argument cs
        (flag s.name :: parts, waiting)

def ofArgument (switches : List Switch) (argument : String) : Said :=
  match argument.toList with
  | '-' :: '-' :: text => ofName switches argument text
  | ['-'] => ([word argument], none)
  | '-' :: letters => ofLetters switches argument letters
  | _ => ([word argument], none)

def canBeValue (argument : String) : Bool :=
  argument == "-" || argument.toList.head? != some '-'

def ofArguments (switches : List Switch) : List String → List (ArgumentPart × List String)
  | [] => []
  | argument :: rest =>
    if argument = "--" then
      (marker, rest) :: rest.map fun text => (word text, [])
    else
      let (parts, waiting) := ofArgument switches argument
      parts.map (·, rest) ++
        match waiting, rest with
        | none, rest => ofArguments switches rest
        | some name, [] => [(unusable (.noValue name), [])]
        | some name, value :: rest =>
          if canBeValue value then (apart name value, rest) :: ofArguments switches rest
          else [(unusable (.noValue name), [])]

end ArgumentPart

end AccessControl
