import PierGateway.Json

/-!
# Identity and groups from token claims

The claim mapper of the authentication layer: a user name and a list of group
names read from the claims of a verified token, either from the Keycloak places or
from a configured dotted path.
-/
namespace PierGateway.Auth
open GoStrings

/-- `jwt.MapClaims`: the payload of a token, a JSON object. -/
abbrev MapClaims := List (Str × Json)

/-- `auth.TokenVerifier`: the outcome of `VerifyToken` for every token. -/
abbrev TokenVerifier := Str → Except Str MapClaims

def stripLeadingSlash (s : Str) : Str := trimPrefix [slash] s

def extractUser (claims : MapClaims) : Str :=
  match claims.lookup (str "preferred_username"), claims.lookup (str "sub") with
  | some (.string (c :: username)), _ => c :: username
  | _, some (.string sub) => sub
  | _, _ => []

/-- The string elements of a JSON array, in order. -/
def stringItems (items : List Json) : List Str :=
  items.filterMap fun item =>
    match item with
    | .string s => some (stripLeadingSlash s)
    | _ => none

def extractGroups (claims : MapClaims) : List Str :=
  let direct :=
    match claims.lookup (str "groups") with
    | some (.array items) => stringItems items
    | _ => []
  let roles :=
    match claims.lookup (str "realm_access") with
    | some (.object access) =>
        match access.lookup (str "roles") with
        | some (.array items) => stringItems items
        | _ => []
    | _ => []
  direct ++ roles

structure ClaimMapper where
  usernameClaim : Str := []
  groupsClaim : Str := []
deriving DecidableEq

def lookupPath : List Str → Json → Option Json
  | [], cur => some cur
  | part :: parts, .object fields => (fields.lookup part).bind (lookupPath parts)
  | _ :: _, _ => none

def lookupClaim (claims : MapClaims) (path : Str) : Option Json :=
  lookupPath (split dot path) (.object claims)

def toGroupStrings : Json → List Str
  | .array items => stringItems items
  | .object fields => sortStrings ((fields.map Prod.fst).dedup.map stripLeadingSlash)
  | .string (c :: s) => [stripLeadingSlash (c :: s)]
  | _ => []

def ClaimMapper.user (m : ClaimMapper) (claims : MapClaims) : Str :=
  if m.usernameClaim = [] then extractUser claims
  else
    match lookupClaim claims m.usernameClaim, claims.lookup (str "sub") with
    | some (.string (c :: s)), _ => c :: s
    | _, some (.string sub) => sub
    | _, _ => []

def ClaimMapper.groups (m : ClaimMapper) (claims : MapClaims) : List Str :=
  if m.groupsClaim = [] then extractGroups claims
  else
    match lookupClaim claims m.groupsClaim with
    | none => []
    | some v => toGroupStrings v

end PierGateway.Auth
