import MarkupForest.Uri.Issuer

/-!
# Scopes of URIs

An issuer that keeps URIs apart within the scope of its settings: one issuer serves all calls, or
each call has a new one.
-/

namespace MarkupForest.Uri

/-- Makes URIs within a scope. -/
structure ScopedIssuer where
  /-- How URIs are made. -/
  settings : Settings
  /-- The issuer that serves all calls. -/
  shared : Issuer

namespace ScopedIssuer

/-- A new issuer with the given settings. -/
def ofSettings (s : Settings) : ScopedIssuer :=
  ⟨s, .ofSettings s⟩

/-- Makes a URI from a base and the text that a tree contributes, or from the base alone. -/
def issueFor (i : ScopedIssuer) (base : String) (t : Option Tree) : String × ScopedIssuer :=
  match i.settings.scope with
  | .perNode => (((Issuer.ofSettings i.settings).issueFor base t).1, i)
  | .shared =>
    let (uri, shared) := i.shared.issueFor base t
    (uri, { i with shared := shared })

end ScopedIssuer

end MarkupForest.Uri
