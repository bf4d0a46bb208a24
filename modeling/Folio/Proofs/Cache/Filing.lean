import Folio.Proofs.Cache.Departures
import Folio.Proofs.Cache.Labels

/-! # Objects under their identities

`Filed c w` says that every object is cached under its own identity.  That an object keeps
its identity as long as it lives is a promise of the objects (`LawfulCacheable`) and of
the hooks (`KeepsIdentity`); the cache asks an object only once, when it is added.  So no
operation has to be looked at for this: identities last (`retains_perform`), and who is cached was
cached before or has come under its own (`comes_perform`).
-/
namespace Folio.Cache

variable {σ α : Type} [Cacheable α]

/-! ## Identities last -/

/-- An object keeps its identity while it is asked whether it may go. -/
class LawfulCacheable (α : Type) [Cacheable α] : Prop where
  identity_allowUnload : ∀ i : Instance α,
    Cacheable.identity (Cacheable.allowUnload i).2.content = Cacheable.identity i.content

/-- A flush leaves an object its identity. -/
def KeepsIdentity (hook : Option (FlushHook σ α)) : Prop :=
  ∀ f, hook = some f → ∀ (i : Instance α) (s : σ),
    Cacheable.identity (f i s).2.1.content = Cacheable.identity i.content

/-- Every instance has the identity it had. -/
def Workspace.Keeps (w w' : Workspace σ α) : Prop :=
  ∀ h id, w.identity? h = some id → w'.identity? h = some id

/-- Identities last with objects and hooks that keep them. -/
theorem lasting_identity [LawfulCacheable α] {hook : Option (FlushHook σ α)}
    (hhook : KeepsIdentity hook) : Lasting (Cacheable.identity (α := α)) hook :=
  ⟨LawfulCacheable.identity_allowUnload, hhook⟩

/-! ## Objects under their identities -/

/-- Every instance is cached under its identity. -/
def Filed (c : Cache σ α) (w : Workspace σ α) : Prop :=
  ∀ id h, c.entries.get? id = some h → w.identity? h = some id

section Filing
variable {c c' : Cache σ α} {w w' : Workspace σ α}

/-- An entry that is not new has kept its identity. -/
theorem Filed.of_entries (hf : Filed c w) (hw : w.Keeps w')
    (hentries : ∀ id h, c'.entries.get? id = some h →
      c.entries.get? id = some h ∨ w'.identity? h = some id) : Filed c' w' := by
  intro id h hget
  rcases hentries id h hget with hold | hid
  · exact hw h id (hf id h hold)
  · exact hid

theorem Filed.congr (hf : Filed c w) (hw : w.Keeps w') (hentries : c'.entries = c.entries) :
    Filed c' w' :=
  hf.of_entries hw fun _ _ hget => Or.inl (hentries ▸ hget)

/-- **Every operation leaves objects under their identities.** -/
theorem Filed.perform [LawfulCacheable α] (hf : Filed c w) (hhook : KeepsIdentity c.flushHook)
    (op : Operation) : Filed (c.perform w op).1 (c.perform w op).2 := by
  have hkeeps : w.Keeps (c.perform w op).2 := retains_perform (lasting_identity hhook) w op
  exact hf.of_entries hkeeps fun id h hget => (comes_perform c w op hget).imp_right (hkeeps h id)

end Filing

end Folio.Cache
