import AccessControl.Config
import AccessControl.Toml.Document

/-!
Settings as TOML text. In TOML an array may stand for a section as well, and what it holds beyond
the section's fields is passed over. Whole numbers of TOML have a sign, so that the larger half of
the settings cannot be written.
-/

namespace AccessControl.Config

def leadingRecord? : RecordReader := fun names d =>
  match d with
  | .array items => (Document.array (items.take names.length)).record? names
  | d => d.record? names

def ofText (s : String) : Except Fault Config :=
  match (Toml.ofText? s).bind (ofRecords? leadingRecord?) with
  | none => .error (.config "failed to parse configuration")
  | some c => do
    c.validate
    .ok c

def ofFile (path : String) : Except String String → Except Fault Config
  | .ok text => ofText text
  | .error fault => .error (.config ("failed to read " ++ path ++ ": " ++ fault))

def boolText (b : Bool) : String := if b then "true" else "false"

def setting (name value : String) : String := name ++ " = " ++ value ++ "\n"

def sections (c : Config) : List String := [
  "[cache]\n" ++ setting "enabled" (boolText c.cache.enabled) ++
    setting "role_ttl_secs" (toString c.cache.roleSeconds) ++
    setting "decision_ttl_secs" (toString c.cache.decisionSeconds) ++
    setting "capacity" (toString c.cache.capacity),
  "[hierarchy]\n" ++ setting "max_depth" (toString c.hierarchy.maxDepth),
  "[audit]\n" ++ setting "enabled" (boolText c.audit.enabled) ++
    setting "buffer_size" (toString c.audit.capacity),
  "[metrics]\n" ++ setting "enabled" (boolText c.metrics.enabled)]

def numbers (c : Config) : List Nat :=
  [c.cache.roleSeconds, c.cache.decisionSeconds, c.cache.capacity, c.hierarchy.maxDepth,
    c.audit.capacity]

def text (c : Config) : Except Fault String :=
  if c.numbers.all (· < Word.signedBound) then .ok ("\n".intercalate c.sections)
  else .error (.config "failed to encode configuration")

end AccessControl.Config
