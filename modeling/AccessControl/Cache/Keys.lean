import AccessControl.Request

/-!
Keys of the evaluation cache. Role sets are kept per principal, organization and group, decisions
per request as well. A marker ties a role to a key whose value names it.
-/

namespace AccessControl.CacheKey

def absent : String := "-"

def segments (parts : List String) : String :=
  ":".intercalate parts

def contextParts (ctx : Context) : List String :=
  [ctx.organization.getD absent, ctx.group.getD absent]

def roles (principal : String) (ctx : Context) : String :=
  segments (["roles", principal] ++ contextParts ctx)

def decision (r : AccessRequest) (ctx : Context) : String :=
  segments (["decision", r.principal] ++ contextParts ctx ++ [r.type, r.resource, r.action])

def markersOf (role : String) : String :=
  "role:" ++ role ++ ":dep:"

def marker (role key : String) : String :=
  markersOf role ++ key

def markedBy? (role marker : String) : Option String :=
  ((markersOf role).toList.isPrefixOf? marker.toList).map String.ofList

def decisionsOf (principal : String) : String := "decision:" ++ principal ++ ":*"
def rolesOf (principal : String) : String := "roles:" ++ principal ++ ":*"
def rolesWithin (group : String) : String := "roles:*:*:" ++ group
def decisionsWithin (group : String) : String := "decision:*:*:" ++ group ++ ":*"
def allRoles : String := "roles:*"
def allDecisions : String := "decision:*"

end AccessControl.CacheKey
