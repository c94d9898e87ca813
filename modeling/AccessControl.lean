import AccessControl.RoleGraph
import AccessControl.Cache.Faulty
import AccessControl.Coding
import AccessControl.Admin
import AccessControl.Main
import AccessControl.Proofs.KeySeparation
import AccessControl.Proofs.Subtrees
import AccessControl.Proofs.Justification
import AccessControl.Proofs.Freshness
import AccessControl.Proofs.Latecomers
import AccessControl.Proofs.Denials
import AccessControl.Proofs.RoleRuns
import AccessControl.Proofs.Revivals
import AccessControl.Proofs.GroupCycles
import AccessControl.Proofs.Tenancy
import AccessControl.Proofs.RoleInvalidation
import AccessControl.Proofs.ScopeInvalidation
import AccessControl.Proofs.Transparency
import AccessControl.Proofs.KeptRoles
import AccessControl.Proofs.LostUpdates
import AccessControl.Proofs.VersionChecks
import AccessControl.Proofs.BulkAnswers
import AccessControl.Proofs.Outages
import AccessControl.Proofs.AddedGrants
import AccessControl.Proofs.GroupUnions
import AccessControl.Proofs.GrantingBindings
import AccessControl.Proofs.GrantMatches
import AccessControl.Proofs.CyclePredictions
import AccessControl.Proofs.ParentEdges
import AccessControl.Proofs.CaveatTexts
import AccessControl.Proofs.RoleTrees
import AccessControl.Proofs.GroupPaths
import AccessControl.Proofs.BoundedCaches
import AccessControl.Proofs.Accounting
import AccessControl.Proofs.GraphMeasures
import AccessControl.Proofs.Ancestors
import AccessControl.Proofs.ValueTexts
import AccessControl.Proofs.CachedDecisions
import AccessControl.Proofs.WalkLengths
import AccessControl.Proofs.GlobExpressions
